import DeliveryPipeline.Wire.Project
import DeliveryPipeline.Plan

/-! # Wire forms of plans -/

namespace DeliveryPipeline

set_option autoImplicit false

open Wire

instance : WireRecord Variable where
  fields := Variable.mk <$> field "key" <*> field "value"
  entries v := [("key", encode v.key), ("value", encode v.value)]

instance : WireRecord ContainerTemplate where
  fields := ContainerTemplate.mk <$> field "name" <*> field "image" <*> field "working_dir" <*>
    field "command" <*> field "args"
  entries t := [("name", encode t.name), ("image", encode t.image),
    ("working_dir", encode t.workingDir), ("command", encode t.command), ("args", encode t.args)]

instance : WireRecord StepCommand where
  fields := StepCommand.mk <$> field "name" <*> field "container" <*> field "command"
  entries c := [("name", encode c.name), ("container", encode c.container),
    ("command", encode c.command)]

instance : WireRecord RenderedStep where
  fields := RenderedStep.mk <$> field "name" <*> field "kind" <*> field "commands"
  entries s := [("name", encode s.name), ("kind", encode s.kind), ("commands", encode s.commands)]

instance : WireRecord CallbackDescriptor where
  fields := CallbackDescriptor.mk <$> field "token" <*> field "url" <*> field "body"
  entries c := [("token", encode c.token), ("url", encode c.url), ("body", encode c.body)]

instance : WireRecord Plan where
  fields := Plan.mk <$> field "env_vars" <*> field "containers" <*> field "steps" <*>
    field "stages" <*> field "callback"
  entries p := [("env_vars", encode p.jobVariables), ("containers", encode p.containers),
    ("steps", encode p.steps), ("stages", encode p.stages), ("callback", encode p.callback)]

end DeliveryPipeline

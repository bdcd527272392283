import DeliveryPipeline.Wire.Basic
import DeliveryPipeline.Project
import DeliveryPipeline.Snapshot

/-! # Wire forms of projects and pipeline snapshots -/

namespace DeliveryPipeline

set_option autoImplicit false

open Wire

instance : Wire ProjectStatus := Wire.ofNamed

instance : Wire HostKind := Wire.ofNamed

instance : Wire TagPolicy := Wire.ofNamed

instance : Wire StepKind := Wire.ofNames StepKind.ofName

instance : Wire TaskKind := Wire.ofNames TaskKind.ofName

instance : WireRecord Project where
  fields := Project.mk <$> field "id" <*> field "name" <*> field "status"
  entries p := [("id", encode p.id), ("name", encode p.name), ("status", encode p.status)]

instance : WireRecord App where
  fields := App.mk <$> field "id" <*> field "project_id" <*> field "name" <*> field "full_name" <*>
    field "language" <*> field "repo_id" <*> field "build_path" <*> optional "compile_env_id"
  entries a := [("id", encode a.id), ("project_id", encode a.project), ("name", encode a.name),
    ("full_name", encode a.fullName), ("language", encode a.language),
    ("repo_id", encode a.repository), ("build_path", encode a.buildPath),
    ("compile_env_id", encode a.compileEnvironment)]

instance : WireRecord Repository where
  fields := Repository.mk <$> field "id" <*> field "kind" <*> field "base_url" <*> field "user" <*>
    field "token"
  entries r := [("id", encode r.id), ("kind", encode r.kind), ("base_url", encode r.baseUrl),
    ("user", encode r.user), ("token", encode r.token)]

instance : WireRecord Environment where
  fields := Environment.mk <$> field "id" <*> field "project_id" <*> field "name" <*>
    field "namespace" <*> field "ci_server" <*> field "cluster" <*> field "registry"
  entries e := [("id", encode e.id), ("project_id", encode e.project), ("name", encode e.name),
    ("namespace", encode e.space), ("ci_server", encode e.ciServer), ("cluster", encode e.cluster),
    ("registry", encode e.registry)]

instance : WireRecord CompileEnvironment where
  fields := CompileEnvironment.mk <$> field "id" <*> field "name" <*> field "image" <*>
    field "command" <*> field "args"
  entries e := [("id", encode e.id), ("name", encode e.name), ("image", encode e.image),
    ("command", encode e.command), ("args", encode e.args)]

instance : WireRecord Arrangement where
  fields := Arrangement.mk <$> field "id" <*> field "project_app_id" <*> field "env_id" <*>
    field "config"
  entries a := [("id", encode a.id), ("project_app_id", encode a.app),
    ("env_id", encode a.environment), ("config", encode a.manifest)]

instance : WireRecord ImageMapping where
  fields := ImageMapping.mk <$> field "id" <*> field "arrange_id" <*> field "project_app_id" <*>
    field "image" <*> field "tag_policy"
  entries m := [("id", encode m.id), ("arrange_id", encode m.arrangement),
    ("project_app_id", encode m.app), ("image", encode m.image), ("tag_policy", encode m.policy)]

instance : WireRecord Task where
  fields := Task.mk <$> field "index" <*> field "name" <*> field "type" <*> withDefault "params" .null
  entries t := [("index", encode t.index), ("name", encode t.name), ("type", encode t.kind),
    ("params", encode t.params)]

instance : WireRecord Step where
  fields := Step.mk <$> field "index" <*> withDefault "step_id" 0 <*> field "name" <*>
    field "type" <*> withDefault "sub_tasks" []
  entries s := [("index", encode s.index), ("step_id", encode s.id), ("name", encode s.name),
    ("type", encode s.kind), ("sub_tasks", encode s.tasks)]

instance : WireRecord Stage where
  fields := Stage.mk <$> field "stage_id" <*> field "name" <*> field "steps"
  entries s := [("stage_id", encode s.id), ("name", encode s.name), ("steps", encode s.steps)]

instance : WireRecord Snapshot where
  fields := Snapshot.mk <$> field "id" <*> field "stages"
  entries s := [("id", encode s.id), ("stages", encode s.stages)]

end DeliveryPipeline

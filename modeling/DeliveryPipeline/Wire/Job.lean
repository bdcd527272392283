import DeliveryPipeline.Wire.Basic
import DeliveryPipeline.Job
import DeliveryPipeline.Order

/-! # Wire forms of jobs and orders -/

namespace DeliveryPipeline

set_option autoImplicit false

open Wire

instance : Wire JobKind := Wire.ofNamed

instance : Wire JobStatus := Wire.ofNamed

instance : Wire Outcome := Wire.ofNamed

instance : Wire OrderStatus := Wire.ofNamed

instance : WireRecord JobApp where
  fields := JobApp.mk <$> field "project_app_id" <*> withDefault "branch" none <*>
    withDefault "path" "" <*> withDefault "image_addr" none
  entries a := [("project_app_id", encode a.app), ("branch", encode a.branch),
    ("path", encode a.path), ("image_addr", encode a.image)]

instance : WireRecord Job where
  fields := Job.mk <$> field "id" <*> field "publish_id" <*> field "project_id" <*>
    field "stage_id" <*> field "job_type" <*> optional "run_id" <*> field "status" <*>
    field "creator" <*> field "apps"
  entries job := [("id", encode job.id), ("publish_id", encode job.order),
    ("project_id", encode job.project), ("stage_id", encode job.stage),
    ("job_type", encode job.kind), ("run_id", encode job.run), ("status", encode job.status),
    ("creator", encode job.creator), ("apps", encode job.apps)]

instance : WireRecord Order where
  fields := Order.mk <$> field "id" <*> field "project_id" <*> field "version_no" <*>
    field "name" <*> field "stage_id" <*> field "step_index" <*> field "step" <*>
    field "step_type" <*> field "status" <*> field "creator" <*> field "last_pipeline_instance_id"
  entries order := [("id", encode order.id), ("project_id", encode order.project),
    ("version_no", encode order.version), ("name", encode order.name),
    ("stage_id", encode order.stage), ("step_index", encode order.stepIndex),
    ("step", encode order.step), ("step_type", encode order.stepType),
    ("status", encode order.status), ("creator", encode order.creator),
    ("last_pipeline_instance_id", encode order.snapshot)]

instance : WireRecord OrderApp where
  fields := OrderApp.mk <$> field "id" <*> field "publish_id" <*> field "project_app_id" <*>
    field "branch_name" <*> optional "compile_command"
  entries a := [("id", encode a.id), ("publish_id", encode a.order),
    ("project_app_id", encode a.app), ("branch_name", encode a.branch),
    ("compile_command", encode a.compileCommand)]

instance : WireRecord Confirmation where
  fields := (fun id order snapshot stage stepIndex step creator message =>
      ⟨⟨order, snapshot, stage, stepIndex, step, creator, message⟩, id⟩) <$>
    field "id" <*> field "publish_id" <*> field "pipeline_instance_id" <*> field "stage_id" <*>
    field "step_index" <*> field "step" <*> field "creator" <*> field "message"
  entries c := [("id", encode c.id), ("publish_id", encode c.order),
    ("pipeline_instance_id", encode c.snapshot), ("stage_id", encode c.stage),
    ("step_index", encode c.stepIndex), ("step", encode c.step), ("creator", encode c.creator),
    ("message", encode c.message)]

end DeliveryPipeline

import DeliveryPipeline.Wire.Plan
import DeliveryPipeline.Wire.Job
import DeliveryPipeline.Message

/-! # Wire forms of requests and answers -/

namespace DeliveryPipeline

set_option autoImplicit false

open Wire

instance : WireRecord BuildApp where
  fields := BuildApp.mk <$> field "project_app_id" <*> field "branch" <*> withDefault "path" "" <*>
    withDefault "compile_command" none
  entries a := [("project_app_id", encode a.app), ("branch", encode a.branch),
    ("path", encode a.path), ("compile_command", encode a.compileCommand)]

instance : WireRecord BuildRequest where
  fields := BuildRequest.mk <$> field "creator" <*> field "apps" <*> withDefault "env_vars" []
  entries r := [("creator", encode r.creator), ("apps", encode r.apps),
    ("env_vars", encode r.jobVariables)]

instance : WireRecord DeployApp where
  fields := DeployApp.mk <$> field "project_app_id"
  entries a := [("project_app_id", encode a.app)]

instance : WireRecord DeployRequest where
  fields := DeployRequest.mk <$> field "creator" <*> field "apps"
  entries r := [("creator", encode r.creator), ("apps", encode r.apps)]

instance : WireRecord TerminateRequest where
  fields := TerminateRequest.mk <$> field "job_type"
  entries r := [("job_type", encode r.kind)]

instance : WireRecord Launch where
  fields := Launch.mk <$> field "run_id" <*> field "job_name"
  entries l := [("run_id", encode l.run), ("job_name", encode l.jobName)]

instance : WireRecord Callback where
  fields := Callback.mk <$> field "publish_job_id" <*> field "status"
  entries c := [("publish_job_id", encode c.job), ("status", encode c.outcome)]

instance : WireRecord Progress where
  fields := Progress.mk <$> field "job_status" <*> field "publish_status" <*> field "step_index" <*>
    optional "next_job"
  entries p := [("job_status", encode p.jobStatus), ("publish_status", encode p.orderStatus),
    ("step_index", encode p.stepIndex), ("next_job", encode p.nextJob)]

instance : WireRecord ConfirmRequest where
  fields := ConfirmRequest.mk <$> field "creator" <*> withDefault "message" ""
  entries r := [("creator", encode r.creator), ("message", encode r.message)]

instance : WireRecord StepRecord where
  fields := StepRecord.mk <$> field "name" <*> field "creator" <*> field "message"
  entries r := [("name", encode r.name), ("creator", encode r.creator),
    ("message", encode r.message)]

instance : WireRecord ManualHistory where
  fields := ManualHistory.mk <$> field "current_step" <*> optional "previous_step"
  entries h := [("current_step", encode h.current), ("previous_step", encode h.previous)]

instance : WireRecord StepTypeInfo where
  fields := StepTypeInfo.mk <$> field "step_type" <*> field "name"
  entries i := [("step_type", encode i.stepType), ("name", encode i.name)]

instance : WireRecord LastStepCheck where
  fields := LastStepCheck.mk <$> field "last_stage" <*> field "last_step"
  entries c := [("last_stage", encode c.lastStage), ("last_step", encode c.lastStep)]

instance : WireRecord BranchChoice where
  fields := BranchChoice.mk <$> field "project_app_id" <*> field "app_name" <*> field "language" <*>
    field "build_path" <*> field "branch_name" <*> optional "compile_command" <*>
    field "target_branch" <*> field "branch_history" <*> field "type"
  entries c := [("project_app_id", encode c.app), ("app_name", encode c.appName),
    ("language", encode c.language), ("build_path", encode c.buildPath),
    ("branch_name", encode c.branch), ("compile_command", encode c.compileCommand),
    ("target_branch", encode c.targets), ("branch_history", encode c.history),
    ("type", encode c.type)]

instance : WireRecord BranchPreview where
  fields := BranchPreview.mk <$> field "version_no" <*> field "version_name" <*> field "apps"
  entries p := [("version_no", encode p.version), ("version_name", encode p.name),
    ("apps", encode p.apps)]

instance : WireRecord AppImage where
  fields := AppImage.mk <$> field "project_app_id" <*> field "name" <*> field "type" <*>
    optional "image_addr"
  entries a := [("project_app_id", encode a.app), ("name", encode a.name), ("type", encode a.type),
    ("image_addr", encode a.image)]

/-- Some hosts call a commit's hash its id. -/
instance : WireRecord Commit where
  fields := Commit.mk <$> Json.Fields.field ["sha", "id"] Wire.decode none none
  entries c := [("sha", encode c.sha)]

instance : WireRecord ApplyRequest where
  fields := ApplyRequest.mk <$> field "cluster" <*> field "namespace" <*> field "manifest" <*>
    field "project_id" <*> field "stage_id" <*> field "wait_ready"
  entries r := [("cluster", encode r.cluster), ("namespace", encode r.space),
    ("manifest", encode r.manifest), ("project_id", encode r.project), ("stage_id", encode r.stage),
    ("wait_ready", encode r.waitReady)]

end DeliveryPipeline

import DeliveryPipeline.Database.Record
import DeliveryPipeline.Database.Statement

/-! # Queries

The statement that each lookup becomes, and how its answer is read from the rows. A lookup of one
record takes the first row.
-/

namespace DeliveryPipeline.Database

set_option autoImplicit false

open Columns

section Rows

variable {α : Type}

def first? (columns : Columns α) (rows : List Row) : Except StorageError (Option α) :=
  rows.head?.mapM columns.run

def all (columns : Columns α) (rows : List Row) : Except StorageError (List α) :=
  rows.mapM columns.run

end Rows

/-- The keys of the jobs that can be active in a scope. -/
def scopeKeys (scope : Scope) : List (String × Value) :=
  [("project_id", .integer scope.project), ("stage_id", .integer scope.stage),
    ("job_type", .text (Named.name scope.kind)), ("publish_id", .ofOption .integer scope.order)]

def query : Lookup → Statement
  | .project id => .select "projects" [("id", .integer id)]
  | .app id => .select "project_apps" [("id", .integer id)]
  | .apps ids => .select "project_apps" [("id", .integers ids)]
  | .environment project stage =>
    .select "project_envs" [("id", .integer stage), ("project_id", .integer project)]
  | .repository id => .select "repos" [("id", .integer id)]
  | .arrangement app environment =>
    .select "app_arranges" [("project_app_id", .integer app), ("env_id", .integer environment)]
  | .imageMapping arrangement app =>
    .select "image_mappings" [("arrange_id", .integer arrangement), ("project_app_id", .integer app)]
  | .compileEnvironment id => .select "compile_envs" [("id", .integer id)]
  | .compileEnvironmentNamed name => .select "compile_envs" [("name", .text name)]
  | .branches app => .select "app_branches" [("project_app_id", .integer app)]
  | .setting id => .select "integrate_settings" [("id", .integer id)]
  | .token user => .select "user_tokens" [("username", .text user)]
  | .order id => .select "publishes" [("id", .integer id)]
  | .orderApps order => .select "publish_apps" [("publish_id", .integer order)]
  | .orderApp order app =>
    .select "publish_apps" [("publish_id", .integer order), ("project_app_id", .integer app)]
  | .snapshot id => .select "pipeline_instances" [("id", .integer id)]
  | .activeJobs scope => .select "publish_jobs" (scopeKeys scope)
  | .job id => .select "publish_jobs" [("id", .integer id)]
  | .latestJob order => .select "publish_jobs" [("publish_id", .integer order)]
  | .confirmations snapshot stage stepIndex =>
    .select "operation_logs" [("pipeline_instance_id", .integer snapshot),
      ("stage_id", .integer stage), ("step_index", .ofInt32 stepIndex)]

def readAnswer : (lookup : Lookup) → List Row → Except StorageError lookup.Answer
  | .project _ => first? (Stored.read : Columns Project)
  | .app _ => first? (Stored.read : Columns App)
  | .apps _ => all (Stored.read : Columns App)
  | .environment .. => first? (Stored.read : Columns Environment)
  | .repository _ => first? (Stored.read : Columns Repository)
  | .arrangement .. => first? (Stored.read : Columns Arrangement)
  | .imageMapping .. => first? (Stored.read : Columns ImageMapping)
  | .compileEnvironment _ => first? (Stored.read : Columns CompileEnvironment)
  | .compileEnvironmentNamed _ => first? (Stored.read : Columns CompileEnvironment)
  | .branches _ => all (text "branch_name")
  | .setting _ => first? (Stored.read : Columns Setting)
  | .token _ => first? (text "token")
  | .order _ => first? (Stamped.value <$> (Stored.read : Columns (Stamped Order)))
  | .orderApps _ => all (Stored.read : Columns OrderApp)
  | .orderApp .. => first? (Stored.read : Columns OrderApp)
  | .snapshot _ => first? (Stored.read : Columns Snapshot)
  | .activeJobs _ => all (Stamped.value <$> (Stored.read : Columns (Stamped Job)))
  | .job _ => first? (Stamped.value <$> (Stored.read : Columns (Stamped Job)))
  | .latestJob _ => first? (Stamped.value <$> (Stored.read : Columns (Stamped Job)))
  | .confirmations .. => all (Dated.value <$> (Stored.read : Columns (Dated Confirmation)))

def answer {m : Type → Type} [Monad m] (connection : Connection m) (lookup : Lookup) :
    ExceptT StorageError m lookup.Answer := do
  let rows ← connection (query lookup)
  ExceptT.mk (pure (readAnswer lookup rows))

end DeliveryPipeline.Database

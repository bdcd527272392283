import DeliveryPipeline.Database.Statement

/-! # Schema

The tables and indexes of the database, in the order in which they are created: a table follows those
that it refers to. The unique indexes allow one active build for project, stage and order, and one
active deploy for project and stage.
-/

namespace DeliveryPipeline.Database

set_option autoImplicit false

def tables : List String :=
  ["projects", "repos", "compile_envs", "project_apps", "app_branches", "integrate_settings",
    "project_envs", "app_arranges", "image_mappings", "user_tokens", "pipeline_instances",
    "publishes", "publish_apps", "publish_jobs", "operation_logs"]

def indexes : List String :=
  ["idx_publish_jobs_publish_id", "idx_publish_apps_publish_id", "idx_operation_logs_step",
    "uniq_active_build_job", "uniq_active_deploy_job"]

/-- Creates all tables and indexes that are not there. -/
def prepare {m : Type → Type} [Monad m] (connection : Connection m) : ExceptT StorageError m Unit :=
  (tables ++ indexes).forM fun object => discard (connection (.create object))

end DeliveryPipeline.Database

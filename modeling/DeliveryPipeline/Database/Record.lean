import DeliveryPipeline.Database.Row
import DeliveryPipeline.Text.Blank
import DeliveryPipeline.Wire.Job
import DeliveryPipeline.Wire.Project
import DeliveryPipeline.Wire.Setting

/-! # Stored records

How each record is read from its row. Some columns hold names: a kind of job and a status have a value
that stands for every unknown name, while a kind of host and a tag policy must be known. Columns that
hold JSON are read in the wire form of their type; a job whose apps cannot be read has none.
-/

namespace DeliveryPipeline.Database

set_option autoImplicit false

open Columns

/-- A type whose values are rows of a table. -/
class Stored (α : Type) where
  read : Columns α

/-- A value with a name, or the one that stands for all unknown names. -/
def named {α : Type} [Named α] (other : α) (s : String) : α := (Named.ofName? s).getD other

def ofJson? {α : Type} [Wire α] (content : Json) : Option α :=
  (Json.decodeValue Wire.decode content).toOption

instance : Stored Project where
  read := do
    let id ← integer "id"
    let name ← text "name"
    let status ← text "status"
    return ⟨id, name, named .active status⟩

instance : Stored App where
  read := do
    let id ← integer "id"
    let project ← integer "project_id"
    let name ← text "name"
    let fullName ← text "full_name"
    let language ← text "language"
    let repository ← integer "repo_id"
    let buildPath ← text "build_path"
    let compileEnvironment ← optional "compile_env_id" integer?
    return ⟨id, project, name, fullName, language, repository, buildPath, compileEnvironment⟩

instance : Stored Environment where
  read := do
    let id ← integer "id"
    let project ← integer "project_id"
    let name ← text "name"
    let space ← text "namespace"
    let ciServer ← integer "ci_server"
    let cluster ← integer "cluster"
    let registry ← integer "registry"
    return ⟨id, project, name, space, ciServer, cluster, registry⟩

instance : Stored Repository where
  read := do
    let id ← integer "id"
    let kind ← text "kind"
    let baseUrl ← text "base_url"
    let user ← text "username"
    let token ← text "token"
    return ⟨id, ← meaning (Named.ofName? kind), baseUrl, user, token⟩

instance : Stored Arrangement where
  read := do
    let id ← integer "id"
    let app ← integer "project_app_id"
    let environment ← integer "env_id"
    let manifest ← text "config"
    return ⟨id, app, environment, manifest⟩

instance : Stored ImageMapping where
  read := do
    let id ← integer "id"
    let arrangement ← integer "arrange_id"
    let app ← integer "project_app_id"
    let image ← text "image"
    let policy ← text "tag_policy"
    return ⟨id, arrangement, app, image, ← meaning (Named.ofName? policy)⟩

instance : Stored CompileEnvironment where
  read := do
    let id ← integer "id"
    let name ← text "name"
    let image ← text "image"
    let command ← text "command"
    let args ← text "args"
    return ⟨id, name, image, command, args⟩

instance : Stored Setting where
  read := do
    let id ← integer "id"
    let name ← text "name"
    let config ← json "config"
    return ⟨id, name, ← meaning (ofJson? config)⟩

instance : Stored Snapshot where
  read := do
    let id ← integer "id"
    let stages ← json "stages"
    return ⟨id, ← meaning (ofJson? stages)⟩

instance : Stored (Stamped Order) where
  read := do
    let id ← integer "id"
    let project ← integer "project_id"
    let version ← text "version_no"
    let name ← text "name"
    let stage ← integer "stage_id"
    let stepIndex ← int32 "step_index"
    let step ← text "step"
    let stepType ← text "step_type"
    let status ← text "status"
    let creator ← text "creator"
    let snapshot ← integer "last_pipeline_instance_id"
    let createdAt ← time "created_at"
    let updatedAt ← time "updated_at"
    let order : Order :=
      ⟨id, project, version, name, stage, stepIndex, step, stepType, named .init status, creator,
        snapshot⟩
    return ⟨order, createdAt, updatedAt⟩

/-- A command to compile with, unless it is blank. -/
def compileCommand? (command : Option String) : Option String :=
  command.filter fun s => !(Text.trim s.toList).isEmpty

instance : Stored OrderApp where
  read := do
    let id ← integer "id"
    let order ← integer "publish_id"
    let app ← integer "project_app_id"
    let branch ← text "branch_name"
    let command ← optional "compile_command" text?
    return ⟨id, order, app, branch, compileCommand? command⟩

instance : Stored (Stamped Job) where
  read := do
    let id ← integer "id"
    let order ← integer "publish_id"
    let project ← integer "project_id"
    let stage ← integer "stage_id"
    let kind ← text "job_type"
    let run ← optional "run_id" integer?
    let status ← text "status"
    let creator ← text "creator"
    let apps ← json "apps"
    let createdAt ← time "created_at"
    let updatedAt ← time "updated_at"
    let job : Job :=
      ⟨id, order, project, stage, named .build kind, run, named .init status, creator,
        (ofJson? apps).getD []⟩
    return ⟨job, createdAt, updatedAt⟩

instance : Stored (Dated Confirmation) where
  read := do
    let id ← integer "id"
    let order ← integer "publish_id"
    let snapshot ← integer "pipeline_instance_id"
    let stage ← integer "stage_id"
    let stepIndex ← int32 "step_index"
    let step ← text "step"
    let creator ← text "creator"
    let message ← text "message"
    let createdAt ← time "created_at"
    return ⟨⟨⟨order, snapshot, stage, stepIndex, step, creator, message⟩, id⟩, createdAt⟩

end DeliveryPipeline.Database

import DeliveryPipeline.Database.Query

/-! # Changes

The statement that each update becomes. A job is stored by one statement that does nothing while its
scope is occupied, and two jobs cannot be stored in one scope at the same time, since the database
refuses the second one; in both cases the answer names the jobs that are active.
-/

namespace DeliveryPipeline.Database

set_option autoImplicit false

open Columns

section Names

variable {α : Type} [Named α]

def bindName (column : String) (a : α) : Assignment := .bound column (.text (Named.name a))

def setName (column : String) (a : α) : Assignment := .known column (.text (Named.name a))

end Names

/-- Stores a job unless its scope is occupied. -/
def insertion (now : Timestamp) (draft : JobDraft) : Statement where
  verb := .insert
  object := "publish_jobs"
  assignments :=
    [.bound "publish_id" (.integer draft.order), .bound "project_id" (.integer draft.project),
      .bound "stage_id" (.integer draft.stage), bindName "job_type" draft.kind,
      setName "status" JobStatus.init, .bound "creator" (.text draft.creator),
      .bound "apps" (.json (Wire.encode draft.apps)), .bound "created_at" (.time now),
      .known "updated_at" (.time now)]
  keys := [("publish_id", .ofOption .integer draft.scope.order)]

def change (now : Timestamp) : Update → Statement
  | .setOrderStatus id status =>
    ⟨.update, "publishes", [bindName "status" status, .bound "updated_at" (.time now)],
      [("id", .integer id)]⟩
  | .moveOrder id stepIndex step stepType status =>
    ⟨.update, "publishes",
      [.bound "step_index" (.ofInt32 stepIndex), .bound "step" (.text step),
        .bound "step_type" (.text stepType), bindName "status" status,
        .bound "updated_at" (.time now)],
      [("id", .integer id)]⟩
  | .insertJob draft => insertion now draft
  | .startJob id run =>
    ⟨.update, "publish_jobs",
      [.bound "run_id" (.integer run), setName "status" JobStatus.running,
        .bound "updated_at" (.time now)],
      [("id", .integer id)]⟩
  | .setJobStatus id status =>
    ⟨.update, "publish_jobs", [bindName "status" status, .bound "updated_at" (.time now)],
      [("id", .integer id)]⟩
  | .addConfirmation draft =>
    ⟨.insert, "operation_logs",
      [.bound "publish_id" (.integer draft.order),
        .bound "pipeline_instance_id" (.integer draft.snapshot),
        .bound "stage_id" (.integer draft.stage), .bound "step_index" (.ofInt32 draft.stepIndex),
        .bound "step" (.text draft.step), .bound "creator" (.text draft.creator),
        .bound "message" (.text draft.message), .bound "created_at" (.time now)],
      []⟩

/-- The state code of a row that repeats another one's unique values. -/
def uniqueViolation : String := "23505"

section Session

variable {m : Type → Type} [Monad m]

def activeIds (connection : Connection m) (scope : Scope) : ExceptT StorageError m (List Int64) := do
  return (← answer connection (.activeJobs scope)).map Job.id

def number? (rows : List Row) : Except StorageError (Option Int64) := first? (integer "id") rows

def insertJob (connection : Connection m) (now : Timestamp) (draft : JobDraft) :
    ExceptT StorageError m Insertion := ExceptT.mk do
  let busy : ExceptT StorageError m Insertion := .busy <$> activeIds connection draft.scope
  match (← (connection (insertion now draft)).run).bind number? with
  | .ok (some id) => return .ok (.created id)
  | .ok none => busy.run
  | .error e => if e = .refused uniqueViolation then busy.run else return .error e

def apply (connection : Connection m) (now : Timestamp) (update : Update) :
    ExceptT StorageError m update.Answer :=
  match update with
  | .insertJob draft => insertJob connection now draft
  | .addConfirmation draft => do
    let rows ← connection (change now (.addConfirmation draft))
    match number? rows with
    | .ok (some id) => return id
    | .ok none => throw .noRow
    | .error e => throw e
  | .setOrderStatus id status => discard (connection (change now (.setOrderStatus id status)))
  | .moveOrder id stepIndex step stepType status =>
    discard (connection (change now (.moveOrder id stepIndex step stepType status)))
  | .startJob id run => discard (connection (change now (.startJob id run)))
  | .setJobStatus id status => discard (connection (change now (.setJobStatus id status)))

end Session

end DeliveryPipeline.Database

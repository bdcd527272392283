import DeliveryPipeline.Named

/-! # Jobs

A job is one submission of a build or a deploy for an order's stage. While it is active it occupies
its execution scope: builds are scoped to project, stage and order, deploys to project and stage, so
a deploy also excludes the deploys of other orders.
-/

namespace DeliveryPipeline

set_option autoImplicit false

inductive JobKind where
  | build
  | deploy
deriving DecidableEq, Repr, Inhabited

instance : NamedText JobKind where
  all := [.build, .deploy]
  name
    | .build => "build"
    | .deploy => "deploy"
  complaint := "unsupported job type"

inductive JobStatus where
  | init
  | running
  | success
  | failed
  | abort
deriving DecidableEq, Repr, Inhabited

instance : NamedText JobStatus where
  all := [.init, .running, .success, .failed, .abort]
  name
    | .init => "init"
    | .running => "running"
    | .success => "success"
    | .failed => "failed"
    | .abort => "abort"
  complaint := "unknown job status"

/-- Jobs that are waiting or running occupy their scope. -/
def JobStatus.isActive : JobStatus → Bool
  | .init | .running => true
  | _ => false

inductive Outcome where
  | success
  | failed
deriving DecidableEq, Repr

instance : Named Outcome where
  all := [.success, .failed]
  name
    | .success => "success"
    | .failed => "failed"

def Outcome.status : Outcome → JobStatus
  | .success => .success
  | .failed => .failed

structure JobApp where
  app : Int64
  branch : Option String
  path : String
  image : Option String
deriving DecidableEq, Repr

structure JobDraft where
  order : Int64
  project : Int64
  stage : Int64
  kind : JobKind
  creator : String
  apps : List JobApp
deriving DecidableEq, Repr

structure Job where
  id : Int64
  order : Int64
  project : Int64
  stage : Int64
  kind : JobKind
  run : Option Int64
  status : JobStatus
  creator : String
  apps : List JobApp
deriving DecidableEq, Repr

/-- The part of the pipeline in which at most one job may be active; a build's scope names its
order, a deploy's does not. -/
structure Scope where
  project : Int64
  stage : Int64
  order : Option Int64
  kind : JobKind
deriving DecidableEq, Repr

namespace Scope

def build (project stage order : Int64) : Scope := ⟨project, stage, some order, .build⟩

def deploy (project stage : Int64) : Scope := ⟨project, stage, none, .deploy⟩

def covers (scope : Scope) (job : Job) : Bool :=
  job.project = scope.project && job.stage = scope.stage && job.kind = scope.kind &&
    scope.order.all (· = job.order)

end Scope

def JobDraft.scope (draft : JobDraft) : Scope :=
  match draft.kind with
  | .build => .build draft.project draft.stage draft.order
  | .deploy => .deploy draft.project draft.stage

namespace Job

def isActive (job : Job) : Bool := job.status.isActive

def isAt (job : Job) (project order stage : Int64) (kind : JobKind) : Bool :=
  job.order = order && job.project = project && job.stage = stage && job.kind = kind

theorem isAt_iff {job : Job} {project order stage : Int64} {kind : JobKind} :
    job.isAt project order stage kind = true ↔
      job.order = order ∧ job.project = project ∧ job.stage = stage ∧ job.kind = kind := by
  simp [isAt, and_assoc]

def scope (job : Job) : Scope :=
  match job.kind with
  | .build => .build job.project job.stage job.order
  | .deploy => .deploy job.project job.stage

/-- A draft under its number, waiting to be submitted. -/
def ofDraft (id : Int64) (draft : JobDraft) : Job where
  id := id
  order := draft.order
  project := draft.project
  stage := draft.stage
  kind := draft.kind
  run := none
  status := .init
  creator := draft.creator
  apps := draft.apps

end Job

theorem Scope.covers_iff {scope : Scope} {job : Job} :
    scope.covers job = true ↔ job.project = scope.project ∧ job.stage = scope.stage ∧
      job.kind = scope.kind ∧ ∀ order, scope.order = some order → order = job.order := by
  cases h : scope.order <;> simp [Scope.covers, h, and_assoc]

theorem Outcome.isActive_status (outcome : Outcome) : outcome.status.isActive = false := by
  cases outcome <;> rfl

@[simp] theorem Job.scope_ofDraft (id : Int64) (draft : JobDraft) :
    (Job.ofDraft id draft).scope = draft.scope := rfl

end DeliveryPipeline

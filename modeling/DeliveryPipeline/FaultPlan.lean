import DeliveryPipeline.World

/-! # Planned faults

A rule that disturbs calls by their kind: an errand's system is down from now on, the next job meets an
occupied scope, and of the store's calls of one kind the n-th one, or every one, fails or finds nothing.
A call that fails does not count among those that may find nothing.
-/

namespace DeliveryPipeline

set_option autoImplicit false

/-- What a call asks for, without its arguments. -/
inductive CallKind where
  | project
  | app
  | apps
  | environment
  | repository
  | arrangement
  | imageMapping
  | compileEnvironment
  | compileEnvironmentNamed
  | branches
  | setting
  | token
  | order
  | orderApps
  | orderApp
  | snapshot
  | activeJobs
  | job
  | latestJob
  | confirmations
  | setOrderStatus
  | moveOrder
  | insertJob
  | startJob
  | setJobStatus
  | addConfirmation
  | ping
  | submit
  | cancel
  | commits
  | apply
deriving DecidableEq, Repr

def Lookup.kind : Lookup → CallKind
  | .project _ => .project
  | .app _ => .app
  | .apps _ => .apps
  | .environment .. => .environment
  | .repository _ => .repository
  | .arrangement .. => .arrangement
  | .imageMapping .. => .imageMapping
  | .compileEnvironment _ => .compileEnvironment
  | .compileEnvironmentNamed _ => .compileEnvironmentNamed
  | .branches _ => .branches
  | .setting _ => .setting
  | .token _ => .token
  | .order _ => .order
  | .orderApps _ => .orderApps
  | .orderApp .. => .orderApp
  | .snapshot _ => .snapshot
  | .activeJobs _ => .activeJobs
  | .job _ => .job
  | .latestJob _ => .latestJob
  | .confirmations .. => .confirmations

def Update.kind : Update → CallKind
  | .setOrderStatus .. => .setOrderStatus
  | .moveOrder .. => .moveOrder
  | .insertJob _ => .insertJob
  | .startJob .. => .startJob
  | .setJobStatus .. => .setJobStatus
  | .addConfirmation _ => .addConfirmation

def Errand.kind : Errand → CallKind
  | .ping _ => .ping
  | .submit .. => .submit
  | .cancel .. => .cancel
  | .commits .. => .commits
  | .apply .. => .apply

/-- Which of the coming calls of a kind is meant. -/
inductive Occasion where
  | always
  /-- the call after a number of others -/
  | after (calls : Nat)
deriving DecidableEq, Repr

structure FaultPlan where
  outages : List (CallKind × ErrandError)
  /-- the jobs that the next job's scope is said to be occupied by -/
  busy : Option (List Int64)
  failures : List (CallKind × Occasion)
  gaps : List (CallKind × Occasion)

namespace FaultPlan

def none : FaultPlan := ⟨[], .none, [], []⟩

def take (kind : CallKind) :
    List (CallKind × Occasion) → Bool × List (CallKind × Occasion)
  | [] => (false, [])
  | (k, occasion) :: rest =>
    if k = kind then
      match occasion with
      | .always => (true, (k, .always) :: rest)
      | .after 0 => (true, rest)
      | .after (n + 1) => (false, (k, .after n) :: rest)
    else
      let (hit, rest) := take kind rest
      (hit, (k, occasion) :: rest)

def disturb : Rule FaultPlan := fun plan call =>
  match call with
  | .errand e =>
    match plan.outages.lookup e.kind with
    | some failure => (.errandFails failure, plan)
    | .none => (.none, plan)
  | .lookup l =>
    let (fails, failures) := take l.kind plan.failures
    let plan := { plan with failures := failures }
    if fails then (.storeFails .noRow, plan)
    else
      let (empty, gaps) := take l.kind plan.gaps
      (if empty then .findsNothing else .none, { plan with gaps := gaps })
  | .update u =>
    let (fails, failures) := take u.kind plan.failures
    let plan := { plan with failures := failures }
    if fails then (.storeFails .noRow, plan)
    else
      match u, plan.busy with
      | .insertJob _, some jobs => (.scopeBusy jobs, { plan with busy := .none })
      | _, _ => (.none, plan)

end FaultPlan

end DeliveryPipeline

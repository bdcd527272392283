import DeliveryPipeline.Engine.Access
import DeliveryPipeline.Plan.Rendering

/-! # Launching jobs

What builds and deploys have in common: the checks before any work is done, and the four calls that
launch a job once everything for it is known. The check for active jobs is only advice, because
another job may be stored in the meantime; what keeps a scope from having two active jobs is that the
store refuses to store the second one.
-/

namespace DeliveryPipeline.Engine

set_option autoImplicit false

open Operation

def activeJobs (scope : Scope) : Operation (List Int64) := do
  pure ((← lookup (.activeJobs scope)).map (·.id))

/-- Fails if the scope is known to be occupied. -/
def ensureIdle (scope : Scope) : Operation Unit := do
  let jobs ← activeJobs scope
  ensure jobs.isEmpty (.conflict jobs)

/-- The environment of a stage and its CI server, which has been reached. -/
def reachServer (project stage : Int64) : Operation (Environment × CiServer) := do
  let environment ← findEnvironment project stage
  let server ← findServer environment
  errand .reachServer (.ping server)
  pure (environment, server)

def stepKindOf : JobKind → StepKind
  | .build => .build
  | .deploy => .deploy

/-- The order's current step, which has to be one for the given kind of job. -/
def stepFor (kind : JobKind) (order : Order) (stage : Int64) : Operation Step := do
  let snapshot ← findSnapshot order
  let stage ← stageOf snapshot stage
  let step ← currentStep stage order
  ensure (step.kind = stepKindOf kind) (.invalid (.wrongStep step.name step.kind kind))
  pure step

/-- Stores a job, unless its scope turns out to be occupied. -/
def insertJob (draft : JobDraft) : Operation Int64 := do
  match ← update (.insertJob draft) with
  | .created id => pure id
  | .busy ids => throw (.conflict ids)

/-- Sets an order running that has not been so far. -/
def startOrder (order : Order) : Operation Unit := do
  if order.status = .init then update (.setOrderStatus order.id .running)

/-- Stores the job, sets its order running, submits the plan that is made for the job's number, and
records the run. -/
def launch (engine : Engine) (order : Order) (server : CiServer) (draft : JobDraft)
    (planFor : Int64 → Plan) : Operation Launch := do
  let job ← insertJob draft
  startOrder order
  let name := engine.jobName draft.kind draft.project draft.order draft.stage
  let run ← errand (.submission draft.kind) (.submit server name (planFor job))
  update (.startJob job run)
  pure ⟨run, name⟩

end DeliveryPipeline.Engine

import DeliveryPipeline.Engine.Access

/-! # Ending an order by hand

An order can be terminated, which asks the CI server to cancel the order's latest job, or aborted, which
settles order and job without asking anyone. A terminated order is marked as such before the CI server
is asked, so a second attempt is refused even if the first was not confirmed.
-/

namespace DeliveryPipeline.Engine

set_option autoImplicit false

open Operation

def ensureAllowed (order : Order) (action : OrderAction) : Operation Unit :=
  match order.status.check action with
  | .ok _ => pure ()
  | .error cause => throw (.refused cause)

structure CancelTarget where
  server : CiServer
  jobName : String
  job : Int64
  run : Int64

def findCancelTarget (engine : Engine) (project order stage : Int64) (kind : JobKind) :
    Operation CancelTarget := do
  let environment ← findEnvironment project stage
  let server ← findServer environment
  let job ← require (.absent (.jobOfOrder order)) (← lookup (.latestJob order))
  let run ← require (.invalid (.neverStarted job.id)) job.run
  pure ⟨server, engine.jobName kind project order stage, job.id, run⟩

/-- Terminates an order. If the run to cancel cannot be found, the order is marked as not terminated,
and may be terminated again. -/
def terminate (engine : Engine) (project order stage : Int64) (kind : JobKind) : Operation Unit := do
  let found ← findOrder order
  ensureAllowed found .terminate
  match ← attempt (findCancelTarget engine project order stage kind) with
  | .error e => do
    update (.setOrderStatus order .terminateFailed)
    throw e
  | .ok target => do
    update (.setOrderStatus order .terminateSuccess)
    errand .cancellation (.cancel target.server target.jobName target.run)
    update (.setJobStatus target.job .abort)

/-- Aborts an order and its latest job, if that is active. -/
def abort (project order : Int64) : Operation Unit := do
  let found ← findOrderOf project order
  ensureAllowed found .abort
  update (.setOrderStatus order .abort)
  match ← lookup (.latestJob order) with
  | some job => if job.isActive then update (.setJobStatus job.id .abort)
  | none => pure ()

end DeliveryPipeline.Engine

import DeliveryPipeline.Engine.Build
import DeliveryPipeline.Engine.Deploy
import DeliveryPipeline.Engine.Cancellation

/-! # Completing steps

A step is completed by the report that its job succeeded, or by a manual confirmation. Then the order
moves to the next step of the stage, and if that step runs a job, the job is launched with the apps of
the order. A launch that fails changes nothing about the completion; the step then waits for a request.
-/

namespace DeliveryPipeline.Engine

set_option autoImplicit false

open Operation

def buildRequestOf (creator : String) (apps : List OrderApp) : BuildRequest :=
  ⟨creator, apps.map fun a => ⟨a.app, a.branch, "", a.compileCommand⟩, []⟩

def deployRequestOf (creator : String) (apps : List OrderApp) : DeployRequest :=
  ⟨creator, apps.map fun a => ⟨a.app⟩⟩

def launchApps (engine : Engine) (order : Order) (stage : Int64) (kind : JobKind) (creator : String) :
    Operation Launch := do
  let apps ← lookup (.orderApps order.id)
  match kind with
  | .build => build engine order.project order.id stage (buildRequestOf creator apps)
  | .deploy => deploy engine order.project order.id stage (deployRequestOf creator apps)

/-- The kind of job that a step runs, if it runs one. -/
def jobKindOf? : StepKind → Option JobKind
  | .build => some .build
  | .deploy => some .deploy
  | _ => none

def launchNext (engine : Engine) (order : Order) (stage : Int64) (step : Step) (creator : String) :
    Operation (Option Launch) :=
  match jobKindOf? step.kind with
  | none => pure none
  | some kind => do
    match ← attempt (launchApps engine order stage kind creator) with
    | .ok launch => pure (some launch)
    | .error _ => pure none

/-- Ends the stage: the order succeeds with the last stage, and otherwise stays where it is. -/
def finishStage (order : Order) (snapshot : Snapshot) (stage : Int64) : Operation Progress := do
  if snapshot.isLastStage stage then
    update (.setOrderStatus order.id .success)
    pure ⟨.success, .success, order.stepIndex, none⟩
  else
    if order.status != .running then update (.setOrderStatus order.id .running)
    pure ⟨.success, .running, order.stepIndex, none⟩

def nextStep (stage : Stage) (order : Order) : Operation Step :=
  require (.invalid (.noStepAfter stage.name order.stepIndex))
    ((stage.nextIndex? order.stepIndex).bind stage.step?)

/-- Moves the order past its current step. -/
def advance (engine : Engine) (order : Order) (stageId : Int64) (creator : String) :
    Operation Progress := do
  let snapshot ← findSnapshot order
  let stage ← stageOf snapshot stageId
  if stage.isLastIndex order.stepIndex then finishStage order snapshot stageId
  else
    let next ← nextStep stage order
    update (.moveOrder order.id next.index next.name (Named.name next.kind) .running)
    let launched ← launchNext engine order stage.id next creator
    pure ⟨.success, .running, next.index, launched⟩

def standing (job : JobStatus) (order : Order) : Progress := ⟨job, order.status, order.stepIndex, none⟩

/-- Takes the report that a job has ended. A job that is not active any more is left as it is. -/
def complete (engine : Engine) (project orderId stage : Int64) (kind : JobKind) (report : Callback) :
    Operation Progress := do
  let job ← require (.absent (.job kind report.job orderId stage))
    ((← lookup (.job report.job)).filter fun job => job.isAt project orderId stage kind)
  let order ← findOrder orderId
  if !job.isActive then pure (standing job.status order)
  else
    update (.setJobStatus job.id report.outcome.status)
    if !order.status.allows .advance then pure (standing report.outcome.status order)
    else
      match report.outcome with
      | .failed => do
        update (.setOrderStatus orderId .failed)
        pure ⟨.failed, .failed, order.stepIndex, none⟩
      | .success => advance engine order stage job.creator

/-- Confirms the manual step that the order stands at, and records who did so. -/
def confirm (engine : Engine) (project orderId : Int64) (request : ConfirmRequest) :
    Operation Progress := do
  let order ← findOrderOf project orderId
  ensureAllowed order .advance
  let snapshot ← findSnapshot order
  let stage ← stageOf snapshot order.stage
  let step ← currentStep stage order
  ensure (step.kind = .manual) (.invalid (.notManual step.name step.kind))
  let _ ← update (.addConfirmation
    { order := orderId, snapshot := snapshot.id, stage := order.stage, stepIndex := order.stepIndex,
      step := step.name, creator := request.creator, message := request.message })
  advance engine order order.stage request.creator

end DeliveryPipeline.Engine

import DeliveryPipeline.Engine.Image

/-! # Looking at orders

What an order's steps are and have been, which branches a build can take and which images a deploy
would set. Nothing here changes the store.
-/

namespace DeliveryPipeline.Engine

set_option autoImplicit false

open Operation

/-- The latest confirmation of a step. -/
def stepRecord (snapshot stage : Int64) (stepIndex : Int32) : Operation (Option StepRecord) := do
  let confirmations ← lookup (.confirmations snapshot stage stepIndex)
  pure (confirmations.head?.map fun c => ⟨c.step, c.creator, c.message⟩)

/-- The confirmations of the current step and the one before it. -/
def history (orderId : Int64) : Operation ManualHistory := do
  let order ← findOrder orderId
  let current ← stepRecord order.snapshot order.stage order.stepIndex
  let previous ←
    if 1 < order.stepIndex then stepRecord order.snapshot order.stage (order.stepIndex - 1)
    else pure none
  pure ⟨current.getD ⟨order.step, "", ""⟩, previous⟩

def stepType (orderId : Int64) (index : Int32) : Operation StepTypeInfo := do
  let order ← findOrder orderId
  let snapshot ← findSnapshot order
  let stage ← stageOf snapshot order.stage
  let step ← require (.absent (.step index stage.name)) (stage.step? index)
  pure ⟨Named.name step.kind, step.name⟩

/-- Whether a stage is the last one, and whether the order stands at its last step. -/
def lastStep (orderId stage : Int64) : Operation LastStepCheck := do
  let order ← findOrder orderId
  let snapshot ← findSnapshot order
  let found ← stageOf snapshot stage
  pure ⟨snapshot.isLastStage stage, found.isLastIndex order.stepIndex⟩

def defaultBranch : String := "master"

def branchChoice (orderApp : OrderApp) : Operation (Option BranchChoice) := do
  match ← lookup (.app orderApp.app) with
  | none => pure none
  | some app => do
    let branches ← lookup (.branches app.id)
    pure (some
      { app := app.id, appName := app.name, language := app.language, buildPath := app.buildPath,
        branch := orderApp.branch, compileCommand := orderApp.compileCommand,
        targets := [defaultBranch],
        history := if branches.isEmpty then [defaultBranch] else branches,
        type := "app" })

def branches (project orderId stage : Int64) : Operation BranchPreview := do
  let order ← findOrderOf project orderId
  let snapshot ← findSnapshot order
  let _ ← stageOf snapshot stage
  let choices ← (← lookup (.orderApps orderId)).mapM branchChoice
  pure ⟨order.version, order.name, choices.filterMap id⟩

/-- The image that a deploy in an environment would set for an app. -/
def imagePreview (environment : Int64) (orderApp : OrderApp) : Operation (Option AppImage) := do
  match ← lookup (.app orderApp.app) with
  | none => pure none
  | some app => do
    let image ← match ← lookup (.repository app.repository) with
      | some repository => appImage environment app repository orderApp.branch
      | none => pure none
    pure (some ⟨app.id, app.name, "app", image⟩)

def images (orderId : Int64) : Operation (List AppImage) := do
  let order ← findOrder orderId
  let previews ← (← lookup (.orderApps orderId)).mapM (imagePreview order.stage)
  pure (previews.filterMap id)

end DeliveryPipeline.Engine

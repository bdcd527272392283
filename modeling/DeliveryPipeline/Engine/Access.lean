import DeliveryPipeline.Engine.Basic

/-! # Access to reference data

The lookups that the engine's operations share: orders and their projects, pipeline snapshots, the
environment of a stage and the settings it refers to. What is not there, or not of the right kind, is
an error here.
-/

namespace DeliveryPipeline.Engine

set_option autoImplicit false

open Operation

def findOrder (id : Int64) : Operation Order := do
  require (.absent (.order id)) (← lookup (.order id))

/-- The order, if it belongs to the project and the project has not ended. -/
def findOrderOf (project order : Int64) : Operation Order := do
  let found ← require (.absent (.project project)) (← lookup (.project project))
  ensure (found.status != .ended) (.invalid (.projectEnded found.name))
  let found ← findOrder order
  ensure (found.project = project) (.absent (.orderInProject order project))
  pure found

def findSnapshot (order : Order) : Operation Snapshot := do
  require (.absent (.snapshot order.snapshot)) (← lookup (.snapshot order.snapshot))

def stageOf (snapshot : Snapshot) (stage : Int64) : Operation Stage :=
  require (.absent (.stage stage snapshot.id)) (snapshot.stage? stage)

def currentStep (stage : Stage) (order : Order) : Operation Step :=
  require (.invalid (.undeclaredStep order.stepIndex stage.name)) (stage.step? order.stepIndex)

def findEnvironment (project stage : Int64) : Operation Environment := do
  require (.misconfigured (.noEnvironment stage project)) (← lookup (.environment project stage))

def findSetting (id : Int64) : Operation Setting := do
  require (.absent (.setting id)) (← lookup (.setting id))

/-- The CI server of an environment; all that is needed to connect to it has to be set. -/
def findServer (environment : Environment) : Operation CiServer := do
  let setting ← findSetting environment.ciServer
  match setting.config with
  | .ciServer server =>
    ensure server.missingFields.isEmpty
      (.misconfigured (.incompleteServer setting.name server.missingFields))
    pure server
  | other => throw (.wrongSetting setting.id .ciServer other.kind)

def findRegistry (environment : Environment) : Operation Registry := do
  let setting ← findSetting environment.registry
  match setting.config with
  | .registry registry => pure registry
  | other => throw (.wrongSetting setting.id .registry other.kind)

def findCluster (environment : Environment) : Operation (String × Cluster) := do
  let setting ← findSetting environment.cluster
  match setting.config with
  | .cluster cluster => pure (setting.name, cluster)
  | other => throw (.wrongSetting setting.id .cluster other.kind)

def findToken (user : String) : Operation String := do
  require (.misconfigured (.noToken user)) (← lookup (.token user))

def findContainer (engine : Engine) (name : String) : Operation ContainerTemplate := do
  let environment ← require (.misconfigured (.noContainer name))
    (← lookup (.compileEnvironmentNamed name))
  pure (.ofEnvironment name environment engine.workingDir)

end DeliveryPipeline.Engine

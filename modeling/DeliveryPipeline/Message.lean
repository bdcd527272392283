import DeliveryPipeline.Job
import DeliveryPipeline.Order
import DeliveryPipeline.Plan

/-! # Requests and answers

What callers ask of the engine and what it answers, and the two exchanges it has with outside systems
besides plans: commit lists and manifests to apply.
-/

namespace DeliveryPipeline

set_option autoImplicit false

structure BuildApp where
  app : Int64
  branch : String
  path : String
  compileCommand : Option String
deriving DecidableEq, Repr

structure BuildRequest where
  creator : String
  apps : List BuildApp
  jobVariables : List Variable
deriving DecidableEq, Repr

structure DeployApp where
  app : Int64
deriving DecidableEq, Repr

structure DeployRequest where
  creator : String
  apps : List DeployApp
deriving DecidableEq, Repr

structure TerminateRequest where
  kind : JobKind
deriving DecidableEq, Repr

structure Launch where
  run : Int64
  jobName : String
deriving DecidableEq, Repr

/-- The completion report of a job. -/
structure Callback where
  job : Int64
  outcome : Outcome
deriving DecidableEq, Repr

/-- Where a completion left the job and its order. -/
structure Progress where
  jobStatus : JobStatus
  orderStatus : OrderStatus
  stepIndex : Int32
  nextJob : Option Launch
deriving DecidableEq, Repr

structure ConfirmRequest where
  creator : String
  message : String
deriving DecidableEq, Repr

structure StepRecord where
  name : String
  creator : String
  message : String
deriving DecidableEq, Repr

structure ManualHistory where
  current : StepRecord
  previous : Option StepRecord
deriving DecidableEq, Repr

structure StepTypeInfo where
  stepType : String
  name : String
deriving DecidableEq, Repr

structure LastStepCheck where
  lastStage : Bool
  lastStep : Bool
deriving DecidableEq, Repr

structure BranchChoice where
  app : Int64
  appName : String
  language : String
  buildPath : String
  branch : String
  compileCommand : Option String
  targets : List String
  history : List String
  type : String
deriving DecidableEq, Repr

structure BranchPreview where
  version : String
  name : String
  apps : List BranchChoice
deriving DecidableEq, Repr

structure AppImage where
  app : Int64
  name : String
  type : String
  image : Option String
deriving DecidableEq, Repr

structure Commit where
  sha : String
deriving DecidableEq, Repr

structure HistoryQuery where
  branch : String
  page : UInt32
  pageSize : UInt32
  order : String
deriving DecidableEq, Repr

def HistoryQuery.latest (branch : String) : HistoryQuery := ⟨branch, 1, 30, "topo"⟩

structure ApplyRequest where
  cluster : String
  space : String
  manifest : String
  project : Int64
  stage : Int64
  waitReady : Bool
deriving DecidableEq, Repr

end DeliveryPipeline

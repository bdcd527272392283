import DeliveryPipeline.Named
import DeliveryPipeline.Json.Basic

/-! # Pipeline snapshots

The stages of a pipeline as they were when an order started. A stage declares steps, a step declares
tasks. Stages and steps are found by their number; the order of declaration decides only which of
them is the last one.
-/

namespace DeliveryPipeline

set_option autoImplicit false

inductive StepKind where
  | build
  | deploy
  | manual
  | verify
  | unknown
deriving DecidableEq, Repr, Inhabited

instance : Named StepKind where
  all := [.build, .deploy, .manual, .verify, .unknown]
  name
    | .build => "build"
    | .deploy => "deploy"
    | .manual => "manual"
    | .verify => "verify"
    | .unknown => "unknown"

/-- Every name stands for a kind; those that are not known are `unknown`. -/
def StepKind.ofName (s : String) : StepKind := (Named.ofName? s).getD .unknown

inductive TaskKind where
  | checkout
  | compile
  | buildImage
  | healthCheck
  | manual
  | unknown
deriving DecidableEq, Repr, Inhabited

instance : Named TaskKind where
  all := [.checkout, .compile, .buildImage, .healthCheck, .manual, .unknown]
  name
    | .checkout => "checkout"
    | .compile => "compile"
    | .buildImage => "build-image"
    | .healthCheck => "health-check"
    | .manual => "manual"
    | .unknown => "unknown"

def TaskKind.ofName (s : String) : TaskKind := (Named.ofName? s).getD .unknown

def TaskKind.runsInBuild : TaskKind → Bool
  | .checkout | .compile | .buildImage => true
  | _ => false

structure Task where
  index : Int32
  name : String
  kind : TaskKind
  params : Json
deriving Repr

namespace Task

def defaultBuild : List Task :=
  [⟨1, "checkout", .checkout, .null⟩, ⟨2, "compile", .compile, .null⟩,
    ⟨3, "build image", .buildImage, .null⟩]

def defaultDeploy : List Task := [⟨1, "health check", .healthCheck, .null⟩]

end Task

structure Step where
  index : Int32
  id : Int64
  name : String
  kind : StepKind
  tasks : List Task
deriving Repr

structure Stage where
  id : Int64
  name : String
  steps : List Step
deriving Repr

structure Snapshot where
  id : Int64
  stages : List Stage
deriving Repr

namespace Stage

def step? (stage : Stage) (index : Int32) : Option Step :=
  stage.steps.find? fun step => step.index = index

def lastIndex? (stage : Stage) : Option Int32 := stage.steps.getLast?.map (·.index)

def isLastIndex (stage : Stage) (index : Int32) : Bool := stage.lastIndex? = some index

/-- The least declared index greater than a given one. -/
def nextIndex? (stage : Stage) (index : Int32) : Option Int32 :=
  ((stage.steps.map (·.index)).filter fun i => index < i).min?

end Stage

namespace Snapshot

def stage? (snapshot : Snapshot) (id : Int64) : Option Stage :=
  snapshot.stages.find? fun stage => stage.id = id

def isLastStage (snapshot : Snapshot) (id : Int64) : Bool :=
  snapshot.stages.getLast?.any fun stage => stage.id = id

end Snapshot

end DeliveryPipeline

import DeliveryPipeline.Engine.Completion
import DeliveryPipeline.Engine.Inspection
import DeliveryPipeline.Wire.Message
import DeliveryPipeline.Http.Basic

/-! # Commands

Everything that callers can ask of the engine, each with its arguments and the type of its result. A
command is written as an HTTP request, and its result as the body of an answer.
-/

namespace DeliveryPipeline.Api

set_option autoImplicit false

open Text (ofInt64 ofInt32)

inductive Command where
  | build (project order stage : Int64) (request : BuildRequest)
  | deploy (project order stage : Int64) (request : DeployRequest)
  | terminate (project order stage : Int64) (request : TerminateRequest)
  | abort (project order : Int64)
  | complete (project order stage : Int64) (kind : JobKind) (report : Callback)
  | confirm (project order : Int64) (request : ConfirmRequest)
  | branches (project order stage : Int64)
  | history (order : Int64)
  | stepType (order : Int64) (index : Int32)
  | lastStep (order stage : Int64)
  | images (order : Int64)
deriving DecidableEq, Repr

namespace Command

@[reducible] def Result : Command → Type
  | build .. | deploy .. => Launch
  | terminate .. | abort .. => Unit
  | complete .. | confirm .. => Progress
  | branches .. => BranchPreview
  | history _ => ManualHistory
  | stepType .. => StepTypeInfo
  | lastStep .. => LastStepCheck
  | images _ => List AppImage

def operation (engine : Engine) : (command : Command) → Operation command.Result
  | build p o s request => engine.build p o s request
  | deploy p o s request => engine.deploy p o s request
  | terminate p o s request => engine.terminate p o s request.kind
  | abort p o => Engine.abort p o
  | complete p o s kind report => engine.complete p o s kind report
  | confirm p o request => engine.confirm p o request
  | branches p o s => Engine.branches p o s
  | history o => Engine.history o
  | stepType o index => Engine.stepType o index
  | lastStep o s => Engine.lastStep o s
  | images o => Engine.images o

def isInspection : Command → Bool
  | branches .. | history _ | stepType .. | lastStep .. | images _ => true
  | _ => false

def orderPath (project order : Int64) : String :=
  "/api/v1/pipelines/" ++ ofInt64 project ++ "/publishes/" ++ ofInt64 order

def stagePath (project order stage : Int64) : String :=
  orderPath project order ++ "/stages/" ++ ofInt64 stage

def inspectionPath (order : Int64) : String := "/api/v1/publishes/" ++ ofInt64 order

def path : Command → String
  | build p o s _ => stagePath p o s ++ "/build"
  | deploy p o s _ => stagePath p o s ++ "/deploy"
  | terminate p o s _ => stagePath p o s ++ "/terminate"
  | abort p o => orderPath p o ++ "/abort"
  | complete p o s kind _ => Engine.callbackPath kind p o s
  | confirm p o _ => orderPath p o ++ "/manual"
  | branches p o s => stagePath p o s ++ "/branches"
  | history o => inspectionPath o ++ "/steps/current"
  | stepType o index => inspectionPath o ++ "/steps/" ++ ofInt32 index
  | lastStep o s => inspectionPath o ++ "/stages/" ++ ofInt64 s ++ "/last"
  | images o => inspectionPath o ++ "/deploy/apps"

def body? : Command → Option Json
  | build _ _ _ request => some (Wire.encode request)
  | deploy _ _ _ request => some (Wire.encode request)
  | terminate _ _ _ request => some (Wire.encode request)
  | complete _ _ _ _ report => some (Wire.encode report)
  | confirm _ _ request => some (Wire.encode request)
  | _ => none

def method (command : Command) : String := if command.isInspection then "GET" else "POST"

def request (command : Command) : Http.Request where
  method := command.method
  target := command.path
  contentType := command.body?.map fun _ => "application/json"
  body := (command.body?.map Json.render).getD ""

/-- The wire form of a result, if the answer has one. -/
def resultWire? : (command : Command) → Option (Wire command.Result)
  | build .. | deploy .. => some inferInstance
  | terminate .. | abort .. => none
  | complete .. | confirm .. => some inferInstance
  | branches .. => some inferInstance
  | history _ => some inferInstance
  | stepType .. => some inferInstance
  | lastStep .. => some inferInstance
  | images _ => some inferInstance

def successStatus : Command → Nat
  | build .. | deploy .. => 201
  | terminate .. | abort .. => 204
  | _ => 200

end Command

end DeliveryPipeline.Api

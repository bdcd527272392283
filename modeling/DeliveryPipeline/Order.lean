import DeliveryPipeline.Named

/-! # Orders

An order carries apps of a project through the stages of a pipeline snapshot. It stands at a step of
one stage, and its status says which operations it still accepts.
-/

namespace DeliveryPipeline

set_option autoImplicit false

inductive OrderStatus where
  | init
  | running
  | success
  | failed
  | terminateSuccess
  | terminateFailed
  | abort
deriving DecidableEq, Repr, Inhabited

instance : NamedText OrderStatus where
  all := [.init, .running, .success, .failed, .terminateSuccess, .terminateFailed, .abort]
  name
    | .init => "init"
    | .running => "running"
    | .success => "success"
    | .failed => "failed"
    | .terminateSuccess => "terminate_success"
    | .terminateFailed => "terminate_failed"
    | .abort => "abort"
  complaint := "unknown publish status"

/-- An operation that changes the status of an order. -/
inductive OrderAction where
  | terminate
  | abort
  | advance
deriving DecidableEq, Repr

def OrderAction.name : OrderAction → String
  | .terminate => "terminate"
  | .abort => "abort"
  | .advance => "advance"

inductive TransitionError where
  | alreadyTerminated
  | notAllowed (status : OrderStatus) (action : OrderAction)
deriving DecidableEq, Repr

def TransitionError.message : TransitionError → String
  | .alreadyTerminated => "publish order already terminated, operation rejected"
  | .notAllowed status action =>
    "publish order in status " ++ Named.name status ++ " is not allowed to " ++ action.name ++
      ", operation rejected"

namespace OrderStatus

/-- Statuses that no operation leaves. -/
def isTerminal : OrderStatus → Bool
  | .success | .terminateSuccess | .abort => true
  | _ => false

def check (status : OrderStatus) (action : OrderAction) : Except TransitionError Unit :=
  match action, status with
  | .terminate, .terminateSuccess => .error .alreadyTerminated
  | .terminate, .running | .terminate, .terminateFailed => .ok ()
  | .abort, .running | .abort, .terminateFailed => .ok ()
  | .advance, .init | .advance, .running => .ok ()
  | action, status => .error (.notAllowed status action)

def allows (status : OrderStatus) (action : OrderAction) : Bool := (status.check action).isOk

end OrderStatus

structure Order where
  id : Int64
  project : Int64
  version : String
  name : String
  stage : Int64
  stepIndex : Int32
  step : String
  stepType : String
  status : OrderStatus
  creator : String
  snapshot : Int64
deriving DecidableEq, Repr

structure OrderApp where
  id : Int64
  order : Int64
  app : Int64
  branch : String
  compileCommand : Option String
deriving DecidableEq, Repr

structure ConfirmationDraft where
  order : Int64
  snapshot : Int64
  stage : Int64
  stepIndex : Int32
  step : String
  creator : String
  message : String
deriving DecidableEq, Repr

structure Confirmation extends ConfirmationDraft where
  id : Int64
deriving DecidableEq, Repr

theorem OrderStatus.allows_advance_iff {status : OrderStatus} :
    status.allows .advance = true ↔ status = .init ∨ status = .running := by
  cases status <;> decide

theorem OrderStatus.allows_terminate_iff {status : OrderStatus} :
    status.allows .terminate = true ↔ status = .running ∨ status = .terminateFailed := by
  cases status <;> decide

theorem OrderStatus.allows_abort_iff {status : OrderStatus} :
    status.allows .abort = true ↔ status = .running ∨ status = .terminateFailed := by
  cases status <;> decide

end DeliveryPipeline

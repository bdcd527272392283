import DeliveryPipeline.Api.Router

/-! # Answering requests

The answer to a request: the result of its command, or an error with a status by which callers tell
errors apart. What went wrong inside the store is not told.
-/

namespace DeliveryPipeline.Api

set_option autoImplicit false

def errorAnswer (kind : ErrorKind) (message : String) : Http.Answer :=
  let status : Nat := match kind with
    | .notFound => 404
    | .conflict => 409
    | .external => 502
    | .database => 500
    | .config | .settingKind | .invalidState | .validation | .manifest => 400
  let shown := if kind = .database then "Internal server error" else message
  ⟨status, .json (.object [("error", .string shown)])⟩

def resultAnswer (command : Command) (result : command.Result) : Http.Answer :=
  ⟨command.successStatus, match command.resultWire? with
    | some wire => .json (wire.encode result)
    | none => .empty⟩

def answerCommand (engine : Engine) (command : Command) : Program Http.Answer := do
  match ← (command.operation engine).run with
  | .ok result => pure (resultAnswer command result)
  | .error e => pure (errorAnswer e.kind e.message)

def withoutContent : Http.Body → Http.Body
  | .text _ => .text ""
  | .json _ | .empty => .empty

def headOf (answer : Http.Answer) (method : String) : Http.Answer :=
  if method = "HEAD" then { answer with body := withoutContent answer.body } else answer

/-- Answers a request. Requests for the options of a path are answered whatever the path is. -/
def answer (engine : Engine) (request : Http.Request) : Program Http.Answer :=
  if request.method = "OPTIONS" then pure ⟨200, .text ""⟩
  else
    match Command.ofRequest? request with
    | .error rejection => pure (.ofStatus rejection.status)
    | .ok none => pure (headOf ⟨200, .text "OK"⟩ request.method)
    | .ok (some command) => do
      pure (headOf (← answerCommand engine command) request.method)

end DeliveryPipeline.Api

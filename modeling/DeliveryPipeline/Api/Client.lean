import DeliveryPipeline.Api.Command
import DeliveryPipeline.Http.Delivery

/-! # Asking the service

A client sends commands to the service and reads its answers. An answer that reports an error carries a
message in its body; a body of any other form is the message itself.
-/

namespace DeliveryPipeline.Api

set_option autoImplicit false

inductive ClientError where
  | notSent (cause : Http.ConnectionError)
  | refused (status : Nat) (message : String)
  | unreadable
deriving DecidableEq, Repr

namespace ClientError

def ofReceived (received : Http.Received) : ClientError :=
  let reported : Option String := do
    (← (← (Json.parse received.body).toOption).get? "error").string?
  .refused received.status (reported.getD received.body)

def message : ClientError → String
  | notSent cause => "HTTP request failed: " ++ cause.message
  | refused status text => "API error (status " ++ Nat.repr status ++ "): " ++ text
  | unreadable => "Failed to parse response: Failed to parse JSON response: error decoding response body"

def chain (e : ClientError) : List String :=
  match e with
  | notSent cause => e.message :: cause.chain
  | e => [e.message]

def isNotFound : ClientError → Bool
  | refused status _ => status = 404
  | _ => false

def isConflict : ClientError → Bool
  | refused status _ => status = 409
  | _ => false

def blamesClient : ClientError → Bool
  | refused status _ => 400 ≤ status && status < 500
  | _ => false

def blamesServer : ClientError → Bool
  | refused status _ => 500 ≤ status
  | _ => false

end ClientError

/-- The address of the service, without slashes at its end. -/
structure Client where
  baseUrl : String
deriving DecidableEq, Repr

namespace Client

def ofUrl (url : String) : Client := ⟨Text.baseAddress url⟩

def send (client : Client) (command : Command) : Http.Outgoing where
  method := command.method
  url := client.baseUrl ++ command.path
  query := []
  headers := (command.body?.map fun _ => ("content-type", "application/json")).toList
  body := command.body?

/-- Reads the result of a command from the answer. -/
def result (command : Command) (received : Http.Received) : Except ClientError command.Result :=
  if !received.isSuccess then .error (.ofReceived received)
  else
    match command with
    | .terminate .. | .abort .. => .ok ()
    | .build .. | .deploy .. => parse received
    | .complete .. | .confirm .. => parse received
    | .branches .. => parse received
    | .history _ => parse received
    | .stepType .. => parse received
    | .lastStep .. => parse received
    | .images _ => parse received
where
  parse {α : Type} [Wire α] (received : Http.Received) : Except ClientError α :=
    (Wire.ofText received.body).mapError fun _ => .unreadable

def outcome (command : Command) (delivery : Http.Delivery) : Except ClientError command.Result :=
  match delivery with
  | .ok received => result command received
  | .error cause => .error (.notSent cause)

end Client

end DeliveryPipeline.Api

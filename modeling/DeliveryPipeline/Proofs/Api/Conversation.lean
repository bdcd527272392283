import DeliveryPipeline.Api.Client
import DeliveryPipeline.Proofs.Api.Failure
import DeliveryPipeline.Proofs.Api.Routing
import DeliveryPipeline.Proofs.Interleaving.Basic
import DeliveryPipeline.Proofs.Program.Deeds
import DeliveryPipeline.Proofs.Program.Yields

/-! # Client and service understand each other

What a client sends for a command asks the service for this command, with the arguments that the client was
given. If the service carries it out, the client reads the result out of the answer, and if not, the error.
-/

namespace DeliveryPipeline

set_option autoImplicit false

/-- The answer as it arrives; the fields of its objects stand in some order. -/
structure Http.Answer.Arrives (answer : Http.Answer) (received : Http.Received) : Prop where
  status : received.status = answer.status
  body : match answer.body with
    | .json content => content.WrittenAs received.body
    | .text content => received.body = content
    | .empty => received.body = ""

namespace Api

/-- The request as it arrives when a client sends a command: its path is what is behind the address of the
service, and the fields of its body stand in some order. -/
structure Client.Sends (client : Client) (command : Command) (request : Http.Request) : Prop where
  method : request.method = (client.send command).method
  target : ∃ path, (client.send command).url = client.baseUrl ++ path ∧
    request.target = Http.sentTarget path
  contentType : request.contentType = (client.send command).headers.lookup "content-type"
  body : match (client.send command).body with
    | some value => value.WrittenAs request.body
    | none => request.body = ""

theorem Command.fits_body {command : Command} {value : Json} (h : command.body? = some value) :
    Json.fits Json.depthLimit value = true := by
  cases command with
  | build p o s request | deploy p o s request | terminate p o s request | complete p o s kind request
  | confirm p o request =>
    cases h
    exact LawfulWire.fits (by decide) request
  | _ => cases h

theorem Client.Sends.bodyIn {client : Client} {command : Command} {request : Http.Request}
    (h : client.Sends command request) : command.BodyIn request := by
  intro value hValue
  have hType := h.contentType
  have hBody := h.body
  simp only [Client.send, hValue] at hType hBody
  have hJson : request.contentType = some "application/json" := hType
  rw [hJson]
  exact ⟨by decide +kernel, hBody.heldIn (Command.fits_body hValue)⟩

theorem Client.Sends.ofRequest? {client : Client} {command : Command} {request : Http.Request}
    (h : client.Sends command request) : Command.ofRequest? request = .ok (some command) := by
  -- the address of the service may be anything: what is behind it is the path of the command
  obtain ⟨path, hUrl, hTarget⟩ := h.target
  have hPath : path = command.path := (String.append_right_inj _ |>.mp hUrl).symm
  rw [hPath, command.sentTarget_path] at hTarget
  exact Command.ofRequest?_eq_ok h.method hTarget h.bodyIn

theorem Command.method_ne (command : Command) : command.method ≠ "HEAD" ∧ command.method ≠ "OPTIONS" := by
  unfold Command.method
  split <;> decide

theorem Client.parse_of_writtenAs {α : Type} {depth : Nat} [Wire α] [LawfulWire α depth]
    (enough : depth ≤ Json.depthLimit) {a : α} {received : Http.Received}
    (h : (Wire.encode a).WrittenAs received.body) : Client.result.parse received = .ok a := by
  rw [Client.result.parse, LawfulWire.ofText (h.heldIn (LawfulWire.fits enough a))]
  rfl

theorem Client.result_of_arrives {command : Command} {result : command.Result} {received : Http.Received}
    (h : (resultAnswer command result).Arrives received) : Client.result command received = .ok result := by
  have hSuccess : received.isSuccess = true := by
    rw [Http.Received.isSuccess, h.status]
    cases command <;> rfl
  have hBody := h.body
  unfold Client.result
  rw [if_neg (by rw [hSuccess]; decide)]
  cases command with
  | terminate | abort => rfl
  | _ => exact Client.parse_of_writtenAs (by decide) hBody

theorem run_answerCommand {σ : Type} (engine : Engine) (command : Command) (rule : Rule σ) (world : World)
    (state : σ) :
    let done := (command.operation engine).run.run rule world state
    (answerCommand engine command).run rule world state =
      ⟨respond command done.value, done.world, done.state, done.exchanges⟩ := by
  intro done
  rw [answerCommand_eq, Program.run_bind]
  exact congrArg (Run.mk _ _ _) (List.append_nil _)

theorem Client.Sends.run_answer {σ : Type} {client : Client} {command : Command} {request : Http.Request}
    (sends : client.Sends command request) (engine : Engine) (rule : Rule σ) (world : World) (state : σ) :
    let done := (command.operation engine).run.run rule world state
    (answer engine request).run rule world state =
      ⟨respond command done.value, done.world, done.state, done.exchanges⟩ := by
  intro done
  have hMethod : request.method ≠ "HEAD" ∧ request.method ≠ "OPTIONS" := by
    rw [sends.method]
    exact command.method_ne
  rw [answer_of_ofRequest? engine hMethod.1 hMethod.2 sends.ofRequest?, run_answerCommand]

/-- Whatever a client sends asks the service for the command that the client was given, with its arguments.
The service does what the command's operation does and nothing else, and if this ends with a result, the
client reads this result from the answer, whichever order the fields of body and answer were written in. -/
theorem Client.outcome_of_sends {σ : Type} (engine : Engine) (client : Client) (command : Command)
    (request : Http.Request) (sends : client.Sends command request) (rule : Rule σ) (world : World)
    (state : σ) :
    let asked := (answer engine request).run rule world state
    let done := (command.operation engine).run.run rule world state
    Command.ofRequest? request = .ok (some command) ∧
      asked.exchanges = done.exchanges ∧ asked.world = done.world ∧ asked.state = done.state ∧
      ∀ result, done.value = .ok result → ∀ received, asked.value.Arrives received →
        Client.outcome command (.ok received) = .ok result := by
  intro asked done
  have hAsked : asked = ⟨respond command done.value, done.world, done.state, done.exchanges⟩ :=
    sends.run_answer engine rule world state
  rw [hAsked]
  refine ⟨sends.ofRequest?, rfl, rfl, rfl, ?_⟩
  intro result hResult received hArrives
  rw [hResult] at hArrives
  exact Client.result_of_arrives hArrives

theorem received_eq_of_arrives {kind : ErrorKind} {message : String} {received : Http.Received}
    (h : (errorAnswer kind message).Arrives received) : received = (errorAnswer kind message).received := by
  obtain ⟨hStatus, content, hContent, hText⟩ := h
  obtain ⟨status, body⟩ := received
  -- an object with one field is written in one way only
  cases hContent with
  | object fields order =>
    cases fields with
    | cons key shown more =>
      cases shown
      cases more
      rw [List.singleton_perm] at order
      subst order
      rw [received_errorAnswer]
      exact congrArg₂ Http.Received.mk hStatus hText

/-- If the operation of the command ends with an error, this is what the client is told. -/
theorem Client.reports_of_sends {σ : Type} {engine : Engine} {client : Client} {command : Command}
    {request : Http.Request} (sends : client.Sends command request) {rule : Rule σ} {world : World} {state : σ}
    {e : EngineError} (failed : ((command.operation engine).run.run rule world state).value = .error e)
    {received : Http.Received}
    (arrives : ((answer engine request).run rule world state).value.Arrives received) :
    ∃ failure, Client.outcome command (.ok received) = .error failure ∧ failure.Reports e := by
  rw [sends.run_answer engine rule world state, failed] at arrives
  rw [received_eq_of_arrives arrives]
  exact ⟨_, outcome_of_failure command (isSuccess_errorAnswer e.kind e.message), reports_errorAnswer e⟩

theorem Client.sends_request (client : Client) (command : Command) : client.Sends command command.request where
  method := rfl
  target := ⟨command.path, rfl, command.sentTarget_path.symm⟩
  contentType := by cases command <;> rfl
  body := by
    cases hBody : command.body? with
    | none => simp [Client.send, Command.request, hBody]
    | some value => simpa [Client.send, Command.request, hBody] using ⟨value, .refl value, rfl⟩

theorem arrives_received (answer : Http.Answer) : answer.Arrives answer.received := by
  obtain ⟨status, body⟩ := answer
  cases body with
  | json content => exact ⟨rfl, content, .refl content, rfl⟩
  | _ => exact ⟨rfl, rfl⟩

def escapedRequest : BuildRequest :=
  ⟨"al\"ice\n", [⟨12, "dev", "", some "make \\ all"⟩], [⟨"K\t", ""⟩]⟩

theorem Client.outcome_of_sends_in_sample :
    let engine := Engine.ofServer "https://pipelines.local/"
    let world : World := { store := Interleaving.sampleStore, histories := [], nextRun := 100 }
    let request := (Command.build 1 5 3 escapedRequest).request
    let asked := (answer engine request).run Rule.undisturbed world ()
    let done := (engine.build 1 5 3 escapedRequest).run.run Rule.undisturbed world ()
    (Client.ofUrl "http://conveyor.local/").Sends (.build 1 5 3 escapedRequest) request ∧
      ∃ launch, done.value = .ok launch ∧
        Client.outcome (.build 1 5 3 escapedRequest) (.ok asked.value.received) = .ok launch := by
  intro engine world request asked done
  have hSends := Client.sends_request (Client.ofUrl "http://conveyor.local/") (.build 1 5 3 escapedRequest)
  obtain ⟨-, -, -, -, hOutcome⟩ := Client.outcome_of_sends engine _ _ _ hSends Rule.undisturbed world ()
  have hDone : done.value.toOption = some ⟨100, "conveyor_1_5_3"⟩ := by decide +kernel
  cases hValue : done.value with
  | error e =>
    rw [hValue] at hDone
    cases hDone
  | ok launch => exact ⟨hSends, launch, rfl, hOutcome launch hValue _ (arrives_received _)⟩

end Api

end DeliveryPipeline

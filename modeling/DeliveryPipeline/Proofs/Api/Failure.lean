import DeliveryPipeline.Api.Client
import DeliveryPipeline.Api.Server
import DeliveryPipeline.Proofs.Json.Reading

/-! # Errors that are reported

The service reports an error by a status and a message in a JSON object. A client that gets the answer finds
the same message in it, whatever the text is, and its status still tells the kinds of errors apart that
callers ask for.
-/

namespace DeliveryPipeline

set_option autoImplicit false

namespace EngineError

theorem kind_eq_notFound_iff (e : EngineError) : e.kind = .notFound ↔ ∃ what, e = .absent what := by
  cases e <;> simp [kind]

theorem kind_eq_conflict_iff (e : EngineError) : e.kind = .conflict ↔ ∃ jobs, e = .conflict jobs := by
  cases e <;> simp [kind]

theorem kind_eq_external_iff (e : EngineError) :
    e.kind = .external ↔ ∃ purpose cause, e = .outside purpose cause := by
  cases e <;> simp [kind]

theorem kind_eq_database_iff (e : EngineError) : e.kind = .database ↔ ∃ cause, e = .storage cause := by
  cases e <;> simp [kind]

end EngineError

namespace Api

theorem fits_errorObject (message : String) :
    Json.fits Json.depthLimit (.object [("error", .string message)]) = true := by
  simp [Json.depthLimit, Json.fits, Json.fieldsFit]

theorem ofReceived_errorObject (status : Nat) (message : String) :
    ClientError.ofReceived ⟨status, Json.render (.object [("error", .string message)])⟩ =
      .refused status message := by
  have hDenotes := Json.denotes_render (fits_errorObject message)
  have hParsed : Json.parse (Json.render (.object [("error", .string message)])) =
      .ok (.object [("error", .string message)]) := hDenotes.decodeText Json.Decoder.value
  unfold ClientError.ofReceived
  rw [hParsed]
  rfl

theorem outcome_of_failure (command : Command) {received : Http.Received} (h : received.isSuccess = false) :
    Client.outcome command (.ok received) = .error (.ofReceived received) := by
  change Client.result command received = _
  unfold Client.result
  rw [if_pos (by rw [h]; rfl)]

theorem received_errorAnswer (kind : ErrorKind) (message : String) :
    (errorAnswer kind message).received = ⟨(errorAnswer kind message).status,
      Json.render (.object [("error",
        .string (if kind = .database then "Internal server error" else message))])⟩ := rfl

theorem ofReceived_received_errorAnswer (kind : ErrorKind) (message : String) :
    ClientError.ofReceived (errorAnswer kind message).received = .refused (errorAnswer kind message).status
      (if kind = .database then "Internal server error" else message) := by
  rw [received_errorAnswer, ofReceived_errorObject]

theorem isSuccess_errorAnswer (kind : ErrorKind) (message : String) :
    (errorAnswer kind message).received.isSuccess = false := by
  cases kind <;> rfl

section Status

variable (kind : ErrorKind) (message shown : String)

theorem isNotFound_refused_iff :
    (ClientError.refused (errorAnswer kind message).status shown).isNotFound = true ↔
      kind = .notFound := by
  cases kind <;> simp [errorAnswer, ClientError.isNotFound]

theorem isConflict_refused_iff :
    (ClientError.refused (errorAnswer kind message).status shown).isConflict = true ↔
      kind = .conflict := by
  cases kind <;> simp [errorAnswer, ClientError.isConflict]

theorem blamesServer_refused_iff :
    (ClientError.refused (errorAnswer kind message).status shown).blamesServer = true ↔
      kind = .external ∨ kind = .database := by
  cases kind <;> simp [errorAnswer, ClientError.blamesServer]

theorem blamesClient_refused_iff :
    (ClientError.refused (errorAnswer kind message).status shown).blamesClient = true ↔
      ¬ (kind = .external ∨ kind = .database) := by
  cases kind <;> simp [errorAnswer, ClientError.blamesClient]

end Status

/-- What a client is told of an error of the engine: its message, unless it went wrong inside the store, and
with the status which errors it may be. -/
structure ClientError.Reports (failure : ClientError) (e : EngineError) : Prop where
  message : ∃ status, failure = .refused status
    (if e.kind = .database then "Internal server error" else e.message)
  notFound : failure.isNotFound = true ↔ ∃ what, e = .absent what
  conflict : failure.isConflict = true ↔ ∃ jobs, e = .conflict jobs
  server : failure.blamesServer = true ↔
    (∃ purpose cause, e = .outside purpose cause) ∨ ∃ cause, e = .storage cause
  client : failure.blamesClient = true ↔
    ¬ ((∃ purpose cause, e = .outside purpose cause) ∨ ∃ cause, e = .storage cause)

theorem reports_errorAnswer (e : EngineError) :
    (ClientError.ofReceived (errorAnswer e.kind e.message).received).Reports e := by
  rw [ofReceived_received_errorAnswer]
  have hServer : e.kind = .external ∨ e.kind = .database ↔
      (∃ purpose cause, e = .outside purpose cause) ∨ ∃ cause, e = .storage cause :=
    or_congr e.kind_eq_external_iff e.kind_eq_database_iff
  exact
    { message := ⟨_, rfl⟩
      notFound := (isNotFound_refused_iff _ _ _).trans e.kind_eq_notFound_iff
      conflict := (isConflict_refused_iff _ _ _).trans e.kind_eq_conflict_iff
      server := (blamesServer_refused_iff _ _ _).trans hServer
      client := (blamesClient_refused_iff _ _ _).trans (not_congr hServer) }

/-- The error that a client gets has the message of the engine's error, except that it is not told what went
wrong inside the store. It is one of a missing record, of a conflict, or of the service itself exactly if the
engine's error is of such a kind, and in all other cases than the last the client is to blame. -/
theorem ofReceived_errorAnswer (kind : ErrorKind) (message : String) :
    let received := (errorAnswer kind message).received
    let failure := ClientError.ofReceived received
    failure = .refused received.status
        (if kind = .database then "Internal server error" else message) ∧
      (∀ command, Client.outcome command (.ok received) = .error failure) ∧
      (failure.isNotFound = true ↔ kind = .notFound) ∧
      (failure.isConflict = true ↔ kind = .conflict) ∧
      (failure.blamesServer = true ↔ kind = .external ∨ kind = .database) ∧
      (failure.blamesClient = true ↔ ¬ (kind = .external ∨ kind = .database)) := by
  intro received failure
  have hFailure : failure = .refused received.status
      (if kind = .database then "Internal server error" else message) :=
    ofReceived_received_errorAnswer kind message
  have hOutcome : ∀ command, Client.outcome command (.ok received) = .error failure := by
    intro command
    exact outcome_of_failure command (isSuccess_errorAnswer kind message)
  rw [hFailure] at hOutcome ⊢
  exact ⟨rfl, hOutcome, isNotFound_refused_iff kind message _, isConflict_refused_iff kind message _,
    blamesServer_refused_iff kind message _, blamesClient_refused_iff kind message _⟩

end Api

end DeliveryPipeline

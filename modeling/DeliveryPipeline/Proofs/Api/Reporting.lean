import DeliveryPipeline.Proofs.Api.Routing
import DeliveryPipeline.Proofs.Engine.Warrant

/-! # Reports find their way

A plan says where the end of its job is reported, and with what. Whoever does as it says asks for the
completion of this job: the path reads as the place of the job, whatever numbers are in it, and the body
as the job's number with its outcome.
-/

namespace DeliveryPipeline

set_option autoImplicit false

def Json.extended (value : Json) (key : String) (field : Json) : Json :=
  match value with
  | .object fields => .object (insertField key field fields)
  | value => value

/-- A request that reports an outcome as the descriptor says: behind the engine's address, with the
descriptor's body and the outcome in it. -/
structure Engine.IsReport (engine : Engine) (descriptor : CallbackDescriptor) (outcome : Outcome)
    (request : Http.Request) : Prop where
  method : request.method = "POST"
  target : engine.serverUrl ++ request.target = descriptor.url
  announced : Http.announcesJson request.contentType = true
  body : Json.Denotes request.body (descriptor.body.extended "status" (Wire.encode outcome))

namespace Api

theorem ofRequest?_of_isReport {engine : Engine} {plan : Plan} {job : Job} {outcome : Outcome}
    {request : Http.Request} (reports : engine.ReportsOn plan job)
    (isReport : engine.IsReport plan.callback outcome request) :
    Command.ofRequest? request =
      .ok (some (.complete job.project job.order job.stage job.kind ⟨job.id, outcome⟩)) := by
  obtain ⟨token, hCallback⟩ := reports
  obtain ⟨hMethod, hTarget, hAnnounced, hBody⟩ := isReport
  rw [hCallback] at hTarget hBody
  apply Command.ofRequest?_eq_ok
  · exact hMethod
  · exact String.append_right_inj _ |>.mp hTarget
  · change Json.Denotes request.body (Wire.encode (⟨job.id, outcome⟩ : Callback)) at hBody
    intro value hValue
    cases hValue
    exact ⟨hAnnounced, _, .refl _, hBody⟩

theorem exists_isReport {engine : Engine} {plan : Plan} {job : Job} (reports : engine.ReportsOn plan job)
    (outcome : Outcome) : ∃ request, engine.IsReport plan.callback outcome request := by
  obtain ⟨token, hCallback⟩ := reports
  rw [hCallback]
  refine ⟨⟨"POST", Engine.callbackPath job.kind job.project job.order job.stage, some "application/json",
    _⟩, rfl, rfl, rfl, Json.denotes_render ?_⟩
  exact LawfulWire.fits (by decide) (⟨job.id, outcome⟩ : Callback)

end Api

end DeliveryPipeline

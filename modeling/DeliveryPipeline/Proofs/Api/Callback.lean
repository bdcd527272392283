import DeliveryPipeline.Proofs.Api.Reporting
import DeliveryPipeline.Proofs.Engine.Awaiting
import DeliveryPipeline.Proofs.Interleaving.Basic

/-! # The callback of a job comes back to the job

Whoever reports the end of a job as the job's plan says reaches the engine, settles this very job, and is
not turned away.
-/

namespace DeliveryPipeline

set_option autoImplicit false

open Api (Command Rejection)

namespace Api

variable {engine : Engine} {request : Http.Request} {world : World}

/-- The answer says neither that nothing is there nor that the request was refused. -/
structure IsHeard (answer : Http.Answer) : Prop where
  status : answer.status ≠ 404 ∧ answer.status ≠ 405
  accepted : ∀ rejection : Rejection, answer ≠ .ofStatus rejection.status

theorem isHeard_json {status : Nat} (content : Json) (notFound : status ≠ 404) (wrongMethod : status ≠ 405) :
    IsHeard ⟨status, .json content⟩ where
  status := ⟨notFound, wrongMethod⟩
  accepted := by
    intro rejection hSame
    cases congrArg Http.Answer.body hSame

theorem yields_answer_of_awaits {project order stage : Int64} {kind : JobKind} {report : Callback}
    {job : Job} {found : Order} (posted : request.method = "POST")
    (asks : Command.ofRequest? request = .ok (some (.complete project order stage kind report)))
    (awaits : world.store.Awaits project order stage kind report.job job found) :
    (answer engine request).Yields (fun answer after =>
      (after.store.answer (.job report.job)).map Job.status = some report.outcome.status ∧ IsHeard answer)
      world := by
  rw [answer_of_ofRequest? engine (by rw [posted]; decide) (by rw [posted]; decide) asks]
  apply Program.yields_bind.mpr
  have hComplete : (engine.complete project order stage kind report).Yields _ world :=
    Engine.yields_complete_of_awaits awaits
  apply Program.Yields.mono hComplete
  intro result after ⟨hTaken, hStatus⟩
  cases result with
  | ok progress => exact ⟨hStatus, isHeard_json _ (by decide : 200 ≠ 404) (by decide : 200 ≠ 405)⟩
  | error e =>
    obtain ⟨cause, rfl⟩ := hTaken e rfl
    exact ⟨hStatus, isHeard_json _ (by decide : 400 ≠ 404) (by decide : 400 ≠ 405)⟩

end Api

theorem Call.exists_of_submits {c : Call} (h : c.submits = true) :
    ∃ server name plan, c = .errand (.submit server name plan) := by
  cases c with
  | lookup _ | update _ => cases h
  | errand e =>
    cases e with
    | submit server name plan => exact ⟨server, name, plan, rfl⟩
    | _ => cases h

/-- Whatever disturbs a build or a deploy, and whichever plan it submits: from the submission on, a
request that reports an outcome as the plan says asks for the completion of the job that was stored for
the plan, and if the store works, it gives the job this outcome and is heard. -/
theorem JobRequest.heard_of_submission {σ τ : Type} (engine : Engine) (request : JobRequest)
    (project order stage : Int64) (rule : Rule σ) (command : Command) (world : World) (state : σ) :
    ∀ deed ∈ (request.create engine project order stage).run.deeds rule command [] world state,
    ∀ server name plan reply,
      ⟨.errand (.submit server name plan), reply⟩ ∈ deed.past ++ [deed.exchange] →
    ∃ draft id, ⟨.update (.insertJob draft), .ok (.created id)⟩ ∈ deed.past ++ [deed.exchange] ∧
      ∀ outcome, (∃ report, engine.IsReport plan.callback outcome report) ∧
        ∀ report, engine.IsReport plan.callback outcome report →
          Command.ofRequest? report =
            .ok (some (.complete draft.project draft.order draft.stage draft.kind ⟨id, outcome⟩)) ∧
          ∀ (later : Rule τ) (state' : τ), later.SparesStore →
            let run := (Api.answer engine report).run later deed.after state'
            (run.world.store.answer (.job id)).map Job.status = some outcome.status ∧
              Api.IsHeard run.value := by
  intro deed hDeed server name plan reply hSubmitted
  have hExpects : (request.create engine project order stage).run.Meets (fun _ => engine.Expects)
      (fun _ => engine.Expects) [] world := by
    apply Program.Meets.mono (request.expects_create engine project order stage world)
    intro result past after hEnds
    cases result <;> exact hEnds
  obtain ⟨draft, id, job, found, hInserted, hReports, hAwaits⟩ :=
    Program.Meets.after_deeds hExpects state deed hDeed server name plan reply hSubmitted
  refine ⟨draft, id, hInserted, ?_⟩
  intro outcome
  refine ⟨Api.exists_isReport hReports outcome, ?_⟩
  intro report hReport
  have hAsks := Api.ofRequest?_of_isReport hReports hReport
  refine ⟨hAsks, ?_⟩
  intro later state' hSpares
  have hYields : (Api.answer engine report).Yields _ deed.after :=
    Api.yields_answer_of_awaits hReport.method hAsks hAwaits
  exact hYields.ends_run hSpares state'

/-- A build whose run cannot be recorded after it was submitted. -/
def launchSample : List Deed :=
  ((JobRequest.build ⟨"alice", [⟨12, "dev", "", none⟩], []⟩).create
    (Engine.ofServer "https://pipelines.local/") 1 5 3).run.deeds
      (fun _ c => (match c with
        | .update (.startJob ..) => .storeFails .unavailable
        | _ => .none, ()))
      (.build 1 5 3 ⟨"alice", [⟨12, "dev", "", none⟩], []⟩) []
      { store := Interleaving.sampleStore, histories := [], nextRun := 100 } ()

/-- After the whole run, a failure can be reported as the submitted plan says. -/
theorem heard_in_launchSample :
    ∃ deed ∈ launchSample, deed.past.any (fun e => e.call.submits) = true ∧
      ∃ (plan : Plan) (draft : JobDraft) (id : Int64) (report : Http.Request),
        (Engine.ofServer "https://pipelines.local/").IsReport plan.callback .failed report ∧
        Command.ofRequest? report =
          .ok (some (.complete draft.project draft.order draft.stage draft.kind ⟨id, .failed⟩)) ∧
        let run := (Api.answer (Engine.ofServer "https://pipelines.local/") report).run Rule.undisturbed
          deed.after ()
        (run.world.store.answer (.job id)).map Job.status = some .failed ∧ Api.IsHeard run.value := by
  have hSubmitted : ∃ deed ∈ launchSample, deed.past.any (fun e => e.call.submits) = true := by
    decide +kernel
  obtain ⟨deed, hDeed, hAny⟩ := hSubmitted
  obtain ⟨⟨call, reply⟩, hPast, hSubmits⟩ := List.any_eq_true.mp hAny
  obtain ⟨server, name, plan, rfl⟩ := Call.exists_of_submits hSubmits
  obtain ⟨draft, id, -, hReported⟩ := JobRequest.heard_of_submission _ _ _ _ _ _ _ _ _ deed hDeed server
    name plan reply (List.mem_append_left _ hPast)
  obtain ⟨⟨report, hReport⟩, hAll⟩ := hReported .failed
  obtain ⟨hAsks, hRuns⟩ := hAll report hReport
  exact ⟨deed, hDeed, hAny, plan, draft, id, report, hReport, hAsks,
    hRuns Rule.undisturbed () Rule.sparesStore_undisturbed⟩

end DeliveryPipeline

import DeliveryPipeline.Proofs.Engine.Report

/-! # Reports that are awaited

From its submission on, a job is stored as active, and so are its order and the stage that the order's
snapshot declares. That is all that a report on the job looks for: if the store works, the report settles
the job, and it can only end with an error because the stage declares no step that comes next.
-/

namespace DeliveryPipeline

set_option autoImplicit false

open Operation

def Order.DeclaresIn (order : Order) (store : Store) (stageId : Int64) : Prop :=
  ∃ snapshot stage, store.answer (.snapshot order.snapshot) = some snapshot ∧
    snapshot.stage? stageId = some stage

structure Store.Awaits (store : Store) (project orderId stageId : Int64) (kind : JobKind) (id : Int64)
    (waiting : Job) (running : Order) : Prop extends
    store.Addresses project orderId stageId kind id waiting running where
  active : waiting.isActive = true
  declared : running.DeclaresIn store stageId

/-- For every plan that was submitted a job was stored, and a report on it is awaited. -/
def Engine.Expects (engine : Engine) : Assertion := fun past world =>
  ∀ server name plan reply, ⟨.errand (.submit server name plan), reply⟩ ∈ past →
    ∃ draft id job order, ⟨.update (.insertJob draft), .ok (.created id)⟩ ∈ past ∧
      engine.ReportsOn plan (Job.ofDraft id draft) ∧
      world.store.Awaits draft.project draft.order draft.stage draft.kind id job order

def SubmittedOnly (plan : Plan) : Knowledge := fun past =>
  ∀ server name plan' reply, ⟨.errand (.submit server name plan'), reply⟩ ∈ past → plan' = plan

variable {engine : Engine} {past : List Exchange} {world : World} {plan : Plan} {draft : JobDraft}
  {id : Int64}

theorem Unsubmitted.expects (h : Unsubmitted past) : engine.Expects past world := by
  intro server name plan reply hMem
  cases h _ hMem

theorem Unsubmitted.submittedOnly (h : Unsubmitted past) (server : CiServer) (name : String)
    (reply : Except ErrandError Int64) :
    SubmittedOnly plan (past ++ [⟨.errand (.submit server name plan), reply⟩]) := by
  intro server' name' plan' reply' hMem
  rcases List.mem_append.mp hMem with hMem | hMem
  · cases h _ hMem
  · cases List.mem_singleton.mp hMem
    rfl

theorem SubmittedOnly.snoc (h : SubmittedOnly plan past) {e : Exchange} (he : e.call.submits = false) :
    SubmittedOnly plan (past ++ [e]) := by
  intro server name plan' reply hMem
  rcases List.mem_append.mp hMem with hMem | hMem
  · exact h server name plan' reply hMem
  · rw [← List.mem_singleton.mp hMem] at he
    cases he

theorem SubmittedOnly.expects {job : Job} {order : Order} (h : SubmittedOnly plan past)
    (inserted : ⟨.update (.insertJob draft), .ok (.created id)⟩ ∈ past)
    (reports : engine.ReportsOn plan (Job.ofDraft id draft))
    (awaits : world.store.Awaits draft.project draft.order draft.stage draft.kind id job order) :
    engine.Expects past world := by
  intro server name plan' reply hMem
  rw [h server name plan' reply hMem]
  exact ⟨draft, id, job, order, inserted, reports, awaits⟩

theorem Store.awaits_addJob {before : Store} {project orderId stageId : Int64} {kind : JobKind} {job : Job}
    {found : Order} (above : ∀ other ∈ before.jobs, other.id < job.id)
    (place : job.isAt project orderId stageId kind = true) (active : job.isActive = true)
    (asked : before.answer (.order orderId) = some found) (declared : found.DeclaresIn before stageId) :
    ((before.addJob job).changeOrder orderId Order.started).Awaits project orderId stageId kind job.id job
      found.started where
  place := place
  job := Store.answer_addJob above
  order := Store.answer_changeOrder_of_found asked Order.started Order.id_started
  active := active
  declared := by
    unfold Order.DeclaresIn
    rw [Order.snapshot_started]
    exact declared

namespace Engine

abbrev ExpectsThroughout (engine : Engine) (x : Operation Launch) : Assertion :=
  x.Meets (fun _ => engine.Expects) (fun _ => engine.Expects) (fun _ => engine.Expects)

theorem expects_launch {found : Order} {server : CiServer} {planFor : Int64 → Plan}
    (prepared : Prepared past) (asked : world.store.answer (.order draft.order) = some found)
    (declared : found.DeclaresIn world.store draft.stage)
    (reports : ∀ id, engine.ReportsOn (planFor id) (Job.ofDraft id draft)) :
    engine.ExpectsThroughout (launch engine found server draft planFor) past world := by
  have hUnsubmitted := prepared.unsubmitted
  have hPlace : ∀ id, (Job.ofDraft id draft).isAt draft.project draft.order draft.stage draft.kind = true := by
    intro id
    simp [Job.isAt, Job.ofDraft]
  refine meets_launch asked hUnsubmitted.expects ?refused ?start ?submit
  case refused =>
    intro e reply
    exact (hUnsubmitted.snoc rfl).expects
  case start =>
    intro id here _ _ _
    have hFirst := hUnsubmitted.snoc (e := ⟨.update (.insertJob draft), .ok (.created id)⟩) rfl
    exact ⟨hFirst.expects, fun cause => (hFirst.snoc rfl).expects⟩
  case submit =>
    intro id between here above unsubmitted stored
    have hFirst : Unsubmitted (past ++ ⟨.update (.insertJob draft), .ok (.created id)⟩ :: between) :=
      List.forall_mem_append.mpr ⟨hUnsubmitted, List.forall_mem_cons.mpr ⟨rfl, unsubmitted⟩⟩
    have hAwaits := Store.awaits_addJob above (hPlace id) rfl asked declared
    rw [← stored] at hAwaits
    refine ⟨hFirst.expects, ?_, ?_, ?_, ?_⟩
    · intro cause
      exact (hFirst.submittedOnly _ _ _).expects (by simp) (reports id) hAwaits
    · intro run after same
      rw [← same] at hAwaits
      exact (hFirst.submittedOnly _ _ _).expects (by simp) (reports id) hAwaits
    · intro run after cause same
      rw [← same] at hAwaits
      exact ((hFirst.submittedOnly _ _ _).snoc rfl).expects (by simp) (reports id) hAwaits
    · intro run after recorded
      have hStarted : after.store.Awaits draft.project draft.order draft.stage draft.kind id
          ((Job.ofDraft id draft).started run) found.started := by
        rw [recorded]
        exact Store.awaits_addJob above (hPlace id) rfl asked declared
      exact ((hFirst.submittedOnly _ _ _).snoc rfl).expects (by simp) (reports id) hStarted

end Engine

theorem JobRequest.expects_create (engine : Engine) (request : JobRequest) (project order stage : Int64)
    (world : World) :
    engine.ExpectsThroughout (request.create engine project order stage) [] world := by
  apply (request.leadsTo_launch engine project order stage []).meets prepared_nil
    (fun _ h => nomatch h)
  · intro c past hPrepared _
    exact hPrepared.unsubmitted.expects
  · intro e past hPrepared
    exact hPrepared.unsubmitted.expects
  · rintro _ past hPrepared hTold ⟨hFound, -, ⟨snapshot, found, hSnapshot, hStage⟩, hPlace, hReports⟩
    obtain ⟨rfl, -, rfl, -⟩ := Job.isAt_iff.mp (hPlace 0)
    obtain ⟨_, hOrder⟩ := hTold _ hFound
    obtain ⟨_, hStored⟩ := hTold _ hSnapshot
    exact Engine.expects_launch hPrepared (World.answer_of_lookup_order hOrder)
      ⟨snapshot, found, World.answer_of_found hStored (Option.some_ne_none snapshot), hStage⟩ hReports

def IsTaken {α : Type} (result : Except EngineError α) : Prop :=
  ∀ e, result = .error e → ∃ cause, e = .invalid cause

theorem isTaken_ok {α : Type} (a : α) : IsTaken (.ok a : Except EngineError α) := by
  intro e h
  cases h

namespace Engine

theorem yields_launchNext_bind {α : Type} {order : Order} {stage : Int64} {step : Step} {creator : String}
    {f : Option Launch → Operation α} {ends : Except EngineError α → World → Prop}
    (rest : ∀ launched after, (f launched).Yields ends after) :
    (launchNext engine order stage step creator >>= f).Yields ends world := by
  have hLaunches : (launchNext engine order stage step creator).Yields
      (fun result _ => ∃ launched, result = .ok launched) world := by
    unfold launchNext
    split
    · exact ⟨none, rfl⟩
    · apply yields_attempt_bind
      apply Program.yields_of_forall
      intro result after
      cases result with
      | ok launch => exact ⟨some launch, rfl⟩
      | error e => exact ⟨none, rfl⟩
  apply hLaunches.bind
  · intro launched after _
    exact rest launched after
  · rintro e after ⟨_, hOk⟩
    cases hOk

theorem yields_isTaken_finishStage {order : Order} {snapshot : Snapshot} {stage : Int64} :
    (finishStage order snapshot stage).Yields (fun result _ => IsTaken result) world := by
  unfold finishStage
  split
  · exact yields_update_bind rfl (isTaken_ok _)
  · split
    · exact yields_update_bind rfl (isTaken_ok _)
    · exact isTaken_ok _

theorem yields_isTaken_advance {order : Order} {stageId : Int64} {creator : String} {snapshot : Snapshot}
    {stage : Stage} (hSnapshot : world.store.answer (.snapshot order.snapshot) = some snapshot)
    (hStage : snapshot.stage? stageId = some stage) :
    (advance engine order stageId creator).Yields (fun result _ => IsTaken result) world := by
  unfold advance findSnapshot
  apply yields_find_bind
  · intro found hFound
    obtain rfl := Option.some.inj (hFound.symm.trans hSnapshot)
    apply yields_require_some hStage
    split
    · exact yields_isTaken_finishStage
    · apply yields_require_bind
      · intro next _
        apply yields_update_bind (u := .moveOrder ..) rfl
        apply yields_launchNext_bind
        intro launched after
        exact isTaken_ok _
      · intro _ e hError
        cases hError
        exact ⟨_, rfl⟩
  · intro hNone
    cases hNone.symm.trans hSnapshot

variable {project orderId stage : Int64} {kind : JobKind} {report : Callback}

theorem yields_isTaken_complete {job : Job} {order : Order}
    (awaits : world.store.Awaits project orderId stage kind report.job job order) :
    (complete engine project orderId stage kind report).Yields (fun result _ => IsTaken result) world := by
  obtain ⟨snapshot, found, hSnapshot, hStage⟩ := awaits.declared
  apply yields_complete_of_addressed awaits.toAddresses
  split
  · exact isTaken_ok _
  · apply yields_update_bind (u := .setJobStatus ..) rfl
    split
    · exact isTaken_ok _
    · split
      · exact yields_update_bind rfl (isTaken_ok _)
      · exact yields_isTaken_advance hSnapshot hStage

theorem yields_complete_of_awaits {job : Job} {order : Order}
    (awaits : world.store.Awaits project orderId stage kind report.job job order) :
    (complete engine project orderId stage kind report).Yields
      (fun result after => IsTaken result ∧
        (after.store.answer (.job report.job)).map Job.status = some report.outcome.status)
      world := by
  have hSettles : (complete engine project orderId stage kind report).Yields _ world :=
    yields_complete awaits.toAddresses awaits.active
  apply Program.Yields.mono (Program.Yields.and (yields_isTaken_complete awaits) hSettles)
  intro result after ⟨hTaken, hStatus, _⟩
  exact ⟨hTaken, hStatus⟩

end Engine

end DeliveryPipeline

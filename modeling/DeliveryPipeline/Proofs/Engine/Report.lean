import DeliveryPipeline.Proofs.Engine.Completion
import DeliveryPipeline.Proofs.Program.Yields

/-! # What a report changes

If the store works, a report that is about an active job settles the job, and what it makes of the order
is said by the snapshot of the order. Any other report only looks, whatever it meets.
-/

namespace DeliveryPipeline

set_option autoImplicit false

open Operation

/-- The order after its step has been completed in a stage. -/
def Store.afterStep (store : Store) (stageId : Int64) (order : Order) : Order :=
  match store.answer (.snapshot order.snapshot) with
  | none => order
  | some snapshot =>
    match snapshot.stage? stageId with
    | none => order
    | some stage =>
      if stage.isLastIndex order.stepIndex then
        { order with status := if snapshot.isLastStage stageId then .success else .running }
      else
        match (stage.nextIndex? order.stepIndex).bind stage.step? with
        | none => order
        | some next => order.movedTo next

namespace Store

variable {store : Store} {order : Order} {snapshot : Snapshot} {stageId : Int64} {stage : Stage}

theorem afterStep_of_last (follows : store.answer (.snapshot order.snapshot) = some snapshot)
    (acts : snapshot.stage? stageId = some stage) (last : stage.isLastIndex order.stepIndex = true) :
    store.afterStep stageId order =
      { order with status := if snapshot.isLastStage stageId then .success else .running } := by
  simp only [afterStep, follows, acts, last, if_true]

theorem afterStep_of_next (follows : store.answer (.snapshot order.snapshot) = some snapshot)
    (acts : snapshot.stage? stageId = some stage) (last : stage.isLastIndex order.stepIndex = false)
    {next : Step} (leads : (stage.nextIndex? order.stepIndex).bind stage.step? = some next) :
    store.afterStep stageId order = order.movedTo next := by
  simp [afterStep, follows, acts, last, leads]

end Store

/-- The order after one of its jobs has been reported. -/
def Store.afterReport (store : Store) (stageId : Int64) (order : Order) (outcome : Outcome) : Order :=
  if !order.status.allows .advance then order
  else
    match outcome with
    | .failed => { order with status := .failed }
    | .success => store.afterStep stageId order

variable {engine : Engine} {world : World}

namespace Engine

/-- Jobs that were there are left as they are, and the order under the number is this one. -/
def Leaves (before : Store) (id : Int64) (order : Order) (after : Store) : Prop :=
  (∀ id job, before.answer (.job id) = some job → after.answer (.job id) = some job) ∧
    after.answer (.order id) = some order

theorem leaves_self {store : Store} {id : Int64} {order : Order}
    (found : store.answer (.order id) = some order) : Leaves store id order store :=
  ⟨fun _ _ found => found, found⟩

theorem leaves_changeOrder {store : Store} {id : Int64} {order : Order} (change : Order → Order)
    (found : store.answer (.order id) = some order) (keeps : ∀ order, (change order).id = order.id) :
    Leaves store id (change order) (store.changeOrder id change) :=
  ⟨fun _ _ found => found, Store.answer_changeOrder_of_found found change keeps⟩

theorem AdvancedIn.leaves {before after : Store} {stageId : Int64} {order : Order} {progress : Progress}
    (h : AdvancedIn before stageId order progress after)
    (found : before.answer (.order order.id) = some order) :
    Leaves before order.id (before.afterStep stageId order) after := by
  obtain ⟨snapshot, stage, hSnapshot, hStage, hAdvanced⟩ := h
  have hId : stage.id = stageId := (mem_of_find? hStage).2
  refine ⟨hAdvanced.keepsRecords.jobs, ?_⟩
  cases hEnds : stage.isLastIndex order.stepIndex with
  | true =>
    rw [Store.afterStep_of_last hSnapshot hStage hEnds, ← hId]
    exact (hAdvanced.of_last found hEnds).2
  | false =>
    obtain ⟨next, hLeads, -, hMoved, -⟩ := hAdvanced.of_inside found hEnds
    rw [Store.afterStep_of_next hSnapshot hStage hEnds hLeads]
    exact hMoved

theorem yields_finishStage {order : Order} {snapshot : Snapshot} {stage : Int64}
    (found : world.store.answer (.order order.id) = some order) :
    (finishStage order snapshot stage).Yields (fun result after =>
        result = .ok ⟨.success, snapshot.statusAfter stage, order.stepIndex, none⟩ ∧
        after.store = world.store.changeOrder order.id fun order =>
          { order with status := snapshot.statusAfter stage }) world := by
  unfold finishStage Snapshot.statusAfter
  split
  · exact yields_update_bind rfl ⟨rfl, rfl⟩
  · split
    · exact yields_update_bind rfl ⟨rfl, rfl⟩
    · rename_i hRunning
      have hRunning : order.status = .running := by simpa using hRunning
      exact ⟨rfl, (Store.changeOrder_eq_self found (by rw [← hRunning])).symm⟩

theorem yields_advance_in {order : Order} {snapshot : Snapshot} {stage : Stage} {stageId : Int64}
    (creator : String) (found : world.store.answer (.order order.id) = some order)
    (follows : world.store.answer (.snapshot order.snapshot) = some snapshot)
    (acts : snapshot.stage? stageId = some stage) :
    (advance engine order stageId creator).Yields (fun result after =>
        (∃ progress, result = .ok progress ∧ Advanced world.store snapshot stage order progress after.store) ∨
        (stage.isLastIndex order.stepIndex = false ∧ stage.nextIndex? order.stepIndex = none ∧
          result = .error (.invalid (.noStepAfter stage.name order.stepIndex)) ∧ after = world))
      world := by
  have hId : stage.id = stageId := (mem_of_find? acts).2
  unfold advance findSnapshot
  refine yields_find_some follows (yields_require_some acts ?_)
  split
  · rename_i hLast
    refine Program.Yields.mono (yields_finishStage found) fun result after ⟨hResult, hAfter⟩ => ?_
    refine .inl ⟨_, hResult, ?_⟩
    rw [hAfter, ← hId]
    exact .ended hLast
  rename_i hInside
  have hInside : stage.isLastIndex order.stepIndex = false := Bool.eq_false_iff.mpr hInside
  refine yields_require_bind (fun next hNext => ?_) fun hNone =>
    .inr ⟨hInside, Stage.next_eq_none_iff.mp hNone, rfl, rfl⟩
  refine yields_update_bind (Store.update_moveOrder found (Stage.next_of_follows hNext).1) ?_
  have hMoved := Store.answer_changeOrder_of_found found (fun order => order.movedTo next) fun _ => rfl
  have hLaunch : (launchNext engine order stage.id next creator).Meets _ _ _ []
      { world with store := world.store.changeOrder order.id fun order => order.movedTo next } :=
    meets_launchNext stage.id next creator hMoved (by simp [Order.movedTo])
  refine Operation.Yields.bind (Program.Meets.yields hLaunch) (fun launched here hLaunched => ?_)
    fun e here hFails => ?_
  · obtain ⟨_, hGain⟩ := hLaunched
    exact .inl ⟨_, rfl, .moved hInside hNext hGain⟩
  · obtain ⟨_, hFalse⟩ := hFails
    exact hFalse.elim

theorem yields_advance {order : Order} (stageId : Int64) (creator : String)
    (found : world.store.answer (.order order.id) = some order) :
    (advance engine order stageId creator).Yields
      (fun _ after => Leaves world.store order.id (world.store.afterStep stageId order) after.store)
      world := by
  have hStays : world.store.afterStep stageId order = order →
      Leaves world.store order.id (world.store.afterStep stageId order) world.store :=
    fun hSame => by
      rw [hSame]
      exact leaves_self found
  cases hSnapshot : world.store.answer (.snapshot order.snapshot) with
  | none =>
    refine yields_find_bind (fun snapshot hFound => ?_) fun _ => hStays ?_
    · cases hFound.symm.trans hSnapshot
    · simp [Store.afterStep, hSnapshot]
  | some snapshot =>
    cases hStage : snapshot.stage? stageId with
    | none =>
      refine yields_find_some hSnapshot (yields_require_bind (fun stage hFound => ?_) fun _ => hStays ?_)
      · cases hFound.symm.trans hStage
      · simp [Store.afterStep, hSnapshot, hStage]
    | some stage =>
      have hYields : (advance engine order stageId creator).Yields _ world :=
        yields_advance_in creator found hSnapshot hStage
      refine Program.Yields.mono hYields ?_
      rintro result after (⟨progress, -, hAdvanced⟩ | ⟨hInside, hNone, -, rfl⟩)
      · exact AdvancedIn.leaves ⟨snapshot, stage, hSnapshot, hStage, hAdvanced⟩ found
      · apply hStays
        simp [Store.afterStep, hSnapshot, hStage, hInside, hNone]

variable {project orderId stage : Int64} {kind : JobKind} {report : Callback}

theorem yields_complete_of_addressed {job : Job} {order : Order}
    {ends : Except EngineError Progress → World → Prop}
    (addressed : world.store.Addresses project orderId stage kind report.job job order)
    (rest : (if !job.isActive then pure (standing job.status order) else do
      update (.setJobStatus job.id report.outcome.status)
      if !order.status.allows .advance then pure (standing report.outcome.status order)
      else match report.outcome with
        | .failed => do
          update (.setOrderStatus orderId .failed)
          pure ⟨.failed, .failed, order.stepIndex, none⟩
        | .success => advance engine order stage job.creator : Operation Progress).Yields ends world) :
    (complete engine project orderId stage kind report).Yields ends world := by
  obtain ⟨hPlace, hJob, hOrder⟩ := addressed
  have hFound : (world.store.answer (.job report.job)).filter
      (fun job => job.isAt project orderId stage kind) = some job := by
    rw [hJob]
    exact Option.filter_eq_some_iff.mpr ⟨rfl, hPlace⟩
  unfold complete findOrder
  refine yields_lookup_bind (yields_require_some hFound ?_)
  refine yields_find_bind (fun found hSame => ?_) fun hNone => ?_
  · rwa [Option.some.inj (hSame.symm.trans hOrder)]
  · cases hNone.symm.trans hOrder

theorem yields_complete {job : Job} {order : Order}
    (addressed : world.store.Addresses project orderId stage kind report.job job order)
    (active : job.isActive = true) :
    (complete engine project orderId stage kind report).Yields
      (fun _ after =>
        (after.store.answer (.job report.job)).map Job.status = some report.outcome.status ∧
        after.store.answer (.order orderId) = some (world.store.afterReport stage order report.outcome))
      world := by
  obtain ⟨-, hJob, hOrder⟩ := id addressed
  have hId : job.id = report.job := (mem_of_find? hJob).2
  have hOrderId : order.id = orderId := (Store.mem_of_answer_order hOrder).2
  refine yields_complete_of_addressed addressed ?_
  rw [active, hId]
  refine yields_update_bind rfl ?_
  have hSettled := Store.answer_settle hJob report.outcome.status
  have hEnds : ∀ {order' : Order} {after : Store},
      world.store.afterReport stage order report.outcome = order' →
      Leaves (world.store.settle report.job report.outcome.status) orderId order' after →
      (after.answer (.job report.job)).map Job.status = some report.outcome.status ∧
        after.answer (.order orderId) = some (world.store.afterReport stage order report.outcome) := by
    rintro order' after rfl hLeaves
    rw [hLeaves.1 _ _ hSettled]
    exact ⟨rfl, hLeaves.2⟩
  split
  · rename_i hRefused
    exact hEnds (if_pos hRefused) (leaves_self hOrder)
  rename_i hAllowed
  split
  · rename_i hOutcome
    have hAfter : world.store.afterReport stage order report.outcome = { order with status := .failed } := by
      unfold Store.afterReport
      rw [if_neg hAllowed, hOutcome]
    exact yields_update_bind rfl (hEnds hAfter
      (leaves_changeOrder (fun order => { order with status := .failed }) hOrder fun _ => rfl))
  · rename_i hOutcome
    have hAfter : world.store.afterReport stage order report.outcome = world.store.afterStep stage order := by
      unfold Store.afterReport
      rw [if_neg hAllowed, hOutcome]
    rw [← hOrderId] at hOrder hEnds ⊢
    have hAdvance : (advance engine order stage job.creator).Yields _
        { world with store := world.store.settle report.job report.outcome.status } :=
      yields_advance stage job.creator hOrder
    exact Program.Yields.mono hAdvance fun _ after hLeaves => hEnds hAfter hLeaves

theorem yields_complete_of_ended {job : Job} {order : Order}
    (addressed : world.store.Addresses project orderId stage kind report.job job order)
    (ended : job.isActive = false) :
    (complete engine project orderId stage kind report).Yields
      (fun result _ => result = .ok (standing job.status order)) world := by
  refine yields_complete_of_addressed addressed ?_
  rw [ended]
  exact yields_pure rfl

theorem meets_complete_of_ended (engine : Engine) (past : List Exchange)
    (ended : ∀ job order, world.store.Addresses project orderId stage kind report.job job order →
      job.isActive = false) :
    (complete engine project orderId stage kind report).Meets (fun c _ _ => ∃ l, c = .lookup l)
      (fun _ _ after => after = world) (fun _ _ after => after = world) past world := by
  unfold complete findOrder
  refine meets_bind.mpr (meets_lookup ⟨_, rfl⟩ (fun answer past hAnswer => ?_) fun _ _ => rfl)
  refine meets_bind.mpr (meets_require (fun job hFiltered => ?_) fun _ => rfl)
  obtain ⟨hFound, hPlace⟩ := Option.filter_eq_some_iff.mp hFiltered
  have hJob := eq_some_of_answer hAnswer hFound
  refine meets_bind.mpr (meets_bind.mpr (meets_lookup ⟨_, rfl⟩ (fun answer past hAnswer => ?_)
    fun _ _ => rfl))
  refine meets_require (fun order hFound => ?_) fun _ => rfl
  have hOrder := eq_some_of_answer hAnswer hFound
  rw [if_pos (by rw [ended job order ⟨hPlace, hJob, hOrder⟩]; rfl)]
  rfl

end Engine

end DeliveryPipeline

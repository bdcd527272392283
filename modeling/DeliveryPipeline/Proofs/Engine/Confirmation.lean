import DeliveryPipeline.Proofs.Engine.Completion
import DeliveryPipeline.Proofs.Interleaving.Basic
import DeliveryPipeline.Proofs.Program.Yields

/-! # What becomes of a confirmation

A confirmation is recorded under the index of the step that it completes. The history of the order shows the
latest record of the step before the current one, and by this it means the index before. So a confirmation is
shown there if the next step has the next index; if the stage leaves indices out, it is not.
-/

namespace DeliveryPipeline

set_option autoImplicit false

open Operation

def Store.record? (store : Store) (snapshot stage : Int64) (index : Int32) : Option StepRecord :=
  (store.answer (.confirmations snapshot stage index)).head?.map fun c => ⟨c.step, c.creator, c.message⟩

def Store.historyOf (store : Store) (order : Order) : ManualHistory where
  current := (store.record? order.snapshot order.stage order.stepIndex).getD ⟨order.step, "", ""⟩
  previous :=
    if 1 < order.stepIndex then store.record? order.snapshot order.stage (order.stepIndex - 1) else none

namespace Store

variable {store : Store}

theorem record?_confirmed (confirmation : Confirmation)
    (above : ∀ c ∈ store.confirmations, c.id < confirmation.id) (snapshot stage : Int64) (index : Int32) :
    (store.confirmed confirmation).record? snapshot stage index =
      if confirmation.snapshot = snapshot ∧ confirmation.stage = stage ∧ confirmation.stepIndex = index then
        some ⟨confirmation.step, confirmation.creator, confirmation.message⟩
      else store.record? snapshot stage index := by
  let fits (c : Confirmation) : Bool := c.snapshot = snapshot && c.stage = stage && c.stepIndex = index
  have hRecord : ∀ confirmations : List Confirmation,
      { store with confirmations := confirmations }.record? snapshot stage index =
        (sortedBy Confirmation.id (confirmations.filter fits)).getLast?.map fun c =>
          ⟨c.step, c.creator, c.message⟩ := fun confirmations => by
    rw [← List.head?_reverse]
    rfl
  rw [confirmed, hRecord, List.filter_append]
  split
  · rename_i hFits
    have hLast : List.filter fits [confirmation] = [confirmation] := by simp [fits, hFits]
    rw [hLast, getLast?_sortedBy_append fun c hc => above c (List.mem_filter.mp hc).1]
    rfl
  · rename_i hOther
    have hNone : List.filter fits [confirmation] = [] := by simpa [fits, and_assoc] using hOther
    rw [hNone, List.append_nil]
    exact (hRecord store.confirmations).symm

theorem MayGain.record? {before after : Store} (h : before.MayGain after) :
    after.record? = before.record? := by
  cases h <;> rfl

end Store

namespace Engine

variable {engine : Engine} {world : World} {order : Order} {step : Step}

theorem yields_history {id : Int64} (found : world.store.answer (.order id) = some order) :
    (history id).Yields (fun result _ => result = .ok (world.store.historyOf order)) world := by
  unfold history stepRecord findOrder
  refine yields_find_some found ?_
  rw [bind_assoc]
  refine yields_lookup_bind ?_
  rw [pure_bind]
  unfold Store.historyOf
  split
  · rw [bind_assoc]
    exact yields_lookup_bind rfl
  · rfl

/-- A confirmation that moves the order on leaves everything that is told of steps as it was, but for the
record of the step it was given for. -/
theorem ConfirmedIn.historyOf {before after : Store} {orderId : Int64} {request : ConfirmRequest}
    {progress : Progress} (h : ConfirmedIn before orderId request progress after)
    (found : before.answer (.order orderId) = some order)
    (stands : StandsAt before order order.stage .manual step) (moves : progress.stepIndex ≠ order.stepIndex) :
    ∃ next : Step, progress.stepIndex = next.index ∧ order.stepIndex < next.index ∧
      after.answer (.order orderId) = some (order.movedTo next) ∧
      ∀ index, after.record? order.snapshot order.stage index =
        if order.stepIndex = index then some ⟨step.name, request.creator, request.message⟩
        else before.record? order.snapshot order.stage index := by
  obtain ⟨order', step', id, hFound, hStands, hAbove, snapshot, stage, -, -, hAdvanced⟩ := h
  obtain rfl := Option.some.inj (hFound.symm.trans found)
  obtain rfl := hStands.unique stands
  have hId : order'.id = orderId := (Store.mem_of_answer_order found).2
  have hHere : (before.confirmed (order'.confirmation step request id)).answer (.order order'.id) =
      some order' := hId ▸ found
  obtain ⟨next, hLeads, hIndex, hMoved, hGain⟩ :=
    hAdvanced.of_inside hHere (hAdvanced.inside_of_moves moves)
  refine ⟨next, hIndex, (Stage.next_of_follows hLeads).1, hId ▸ hMoved, fun index => ?_⟩
  rw [hGain.record?]
  refine (Store.record?_confirmed (order'.confirmation step request id) hAbove _ _ index).trans ?_
  simp [Order.confirmation]

/-- What the history shows as the step before, after a manual step has been confirmed and the order has moved
on: the confirmation if the next step has the next index, and otherwise what was recorded under the index
before that of the next step. Below the index two it shows none. -/
theorem previous_of_confirm {σ τ : Type} (engine : Engine) (project : Int64) {orderId : Int64}
    {request : ConfirmRequest} {rule : Rule σ} {state : σ} {rule' : Rule τ} (spares : rule'.SparesStore)
    (state' : τ) {progress : Progress} (found : world.store.answer (.order orderId) = some order)
    (stands : StandsAt world.store order order.stage .manual step) :
    let run := (confirm engine project orderId request).run.run rule world state
    run.value = .ok progress → progress.stepIndex ≠ order.stepIndex →
      ∃ info, ((history orderId).run.run rule' run.world state').value = .ok info ∧ info.previous =
        if progress.stepIndex ≤ 1 then none
        else if progress.stepIndex = order.stepIndex + 1 then
          some ⟨step.name, request.creator, request.message⟩
        else world.store.record? order.snapshot order.stage (progress.stepIndex - 1) := by
  intro run confirmed moves
  have hMeets : (confirm engine project orderId request).Meets _ _ _ [] world :=
    departing_confirm project orderId request
  obtain ⟨next, hNext, hAhead, hOrder, hRecord⟩ :=
    (hMeets.ends_of_ok confirmed).historyOf found stands moves
  have hYields : (history orderId).Yields _ run.world := yields_history hOrder
  refine ⟨_, hYields.ends_run spares state', ?_⟩
  have hPrevious : (run.world.store.historyOf (order.movedTo next)).previous =
      if 1 < next.index then run.world.store.record? order.snapshot order.stage (next.index - 1)
      else none := rfl
  have hBefore : order.stepIndex = next.index - 1 ↔ next.index = order.stepIndex + 1 := by
    constructor
    · intro hSame
      rw [hSame, Int32.sub_add_cancel]
    · intro hSame
      rw [hSame, Int32.add_sub_cancel]
  rw [hPrevious, hNext, hRecord]
  simp only [hBefore]
  by_cases hLow : next.index ≤ 1
  · rw [if_neg (Int32.not_lt.mpr hLow), if_pos hLow]
  · rw [if_pos (Int32.not_le.mp hLow), if_neg hLow]

/-- An order waits for an approval at the second step; the index of the next step is given. -/
def approvalBefore (next : Int32) : World where
  store :=
    { Interleaving.sampleStore with
      orders := [⟨5, 1, "v1.2.0", "spring release", 3, 2, "approval", "manual", .running, "alice", 1⟩]
      snapshots := [⟨1, [⟨3, "production", [⟨1, 1, "build", .build, []⟩, ⟨2, 2, "approval", .manual, []⟩,
        ⟨next, 3, "smoke test", .verify, []⟩]⟩]⟩] }
  histories := []
  nextRun := 100

/-- The stage goes on with the index four, and the approval is not shown. -/
theorem confirmation_not_shown :
    let run := (confirm (.ofServer "http://conveyor.local") 1 5 ⟨"bob", "checked"⟩).run.run
      Rule.undisturbed (approvalBefore 4) ()
    run.value = .ok ⟨.success, .running, 4, none⟩ ∧
      ((history 5).run.run Rule.undisturbed run.world ()).value = .ok ⟨⟨"smoke test", "", ""⟩, none⟩ := by
  decide +kernel

theorem previous_of_confirm_with_next_index :
    let run := (confirm (.ofServer "http://conveyor.local") 1 5 ⟨"bob", "checked"⟩).run.run
      Rule.undisturbed (approvalBefore 3) ()
    run.value = .ok ⟨.success, .running, 3, none⟩ ∧
      ∃ info, ((history 5).run.run Rule.undisturbed run.world ()).value = .ok info ∧
        info.previous = some ⟨"approval", "bob", "checked"⟩ := by
  intro run
  let order : Order :=
    ⟨5, 1, "v1.2.0", "spring release", 3, 2, "approval", "manual", .running, "alice", 1⟩
  have hConfirmed : run.value = .ok ⟨.success, .running, 3, none⟩ := by decide +kernel
  have hFound : (approvalBefore 3).store.answer (.order 5) = some order := rfl
  have hStands : StandsAt (approvalBefore 3).store order order.stage .manual
      ⟨2, 2, "approval", .manual, []⟩ := ⟨_, _, rfl, rfl, rfl, rfl⟩
  obtain ⟨info, hInfo, hPrevious⟩ := previous_of_confirm (.ofServer "http://conveyor.local") 1
    Rule.sparesStore_undisturbed () hFound hStands hConfirmed (by decide)
  exact ⟨hConfirmed, info, hInfo, hPrevious⟩

end Engine

end DeliveryPipeline

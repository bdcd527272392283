import DeliveryPipeline.Proofs.Program.Deeds
import DeliveryPipeline.Proofs.Program.Yields

/-! # What a run was told

Every exchange of a run is the reply of some world under what the rule says there. So a rule that leaves
the updates of one kind alone has them answered, if the store can carry them out whatever it holds.
-/

namespace DeliveryPipeline

set_option autoImplicit false

namespace Update

def setsOrderStatus : Update → Bool
  | setOrderStatus .. => true
  | _ => false

/-- Updates that write the status of an order or of a job, and nothing else. -/
def setsStatus : Update → Bool
  | setOrderStatus .. | setJobStatus .. => true
  | _ => false

theorem setsStatus_of_setsOrderStatus {u : Update} (h : u.setsOrderStatus = true) :
    u.setsStatus = true := by
  cases u <;> first | rfl | cases h

end Update

variable {σ α : Type} {rule : Rule σ}

/-- The store is never made to fail at an update of the kind. -/
def Rule.SparesUpdates (rule : Rule σ) (kind : Update → Bool) : Prop :=
  ∀ state u e, kind u = true → (rule state (.update u)).1 ≠ .storeFails e

theorem Rule.SparesStore.sparesUpdates (h : rule.SparesStore) (kind : Update → Bool) :
    rule.SparesUpdates kind := by
  intro state u e _ hFails
  have hNone : (rule state (.update u)).1 = .none := h state (.update u)
  rw [hNone] at hFails
  cases hFails

def Rule.cutOff : Rule Unit
  | _, .errand _ => (.errandFails ⟨["unreachable"]⟩, ())
  | _, _ => (.none, ())

theorem Rule.sparesStore_cutOff : Rule.cutOff.SparesStore := by
  intro _ c
  cases c <;> trivial

theorem Program.exists_reply_of_mem_exchanges {p : Program α} {world : World} {state : σ} {e : Exchange}
    (h : e ∈ (p.run rule world state).exchanges) :
    ∃ (here : World) (told : σ), (here.reply (rule told e.call).1 e.call).1 = e.reply := by
  induction p generalizing world state with
  | done a => cases h
  | call c next ih =>
    rcases List.mem_cons.mp h with rfl | h
    · exact ⟨world, state, rfl⟩
    · exact ih _ h

theorem World.reply_update_of_setsStatus {u : Update} (status : u.setsStatus = true) (world : World)
    {disturbance : Disturbance} (spared : ∀ e, disturbance ≠ .storeFails e) :
    ∃ answer, (world.reply disturbance (.update u)).1 = .ok answer := by
  cases disturbance with
  | storeFails e => exact absurd rfl (spared e)
  | none | findsNothing | errandFails _ | scopeBusy _ =>
    cases u <;> first | exact ⟨(), rfl⟩ | cases status

theorem Rule.SparesUpdates.not_mem_exchanges {kind : Update → Bool} (h : rule.SparesUpdates kind)
    (status : ∀ u, kind u = true → u.setsStatus = true) {p : Program α} {world : World} {state : σ}
    {u : Update} (hKind : kind u = true) {e : StorageError} :
    (⟨.update u, .error e⟩ : Exchange) ∉ (p.run rule world state).exchanges := by
  intro hMem
  obtain ⟨here, told, hReply⟩ := Program.exists_reply_of_mem_exchanges hMem
  obtain ⟨answer, hAnswer⟩ := here.reply_update_of_setsStatus (status u hKind)
    fun e => h told u e hKind
  cases hAnswer.symm.trans hReply

end DeliveryPipeline

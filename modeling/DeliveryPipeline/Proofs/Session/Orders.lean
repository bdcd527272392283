import DeliveryPipeline.Proofs.Session.Basic

/-! # Orders in a session

Which status may be written over which, and where an order stands when it succeeds. Every status is
written for an order that the engine found before, so what it checked then still holds at the write.

The stage of which an order has to reach the end is the one that the completing command acts in. A
report names the stage of its job, which need not be the stage of the order; the order's own stage is
not looked at.
-/

namespace DeliveryPipeline

set_option autoImplicit false

open Api (Command)

namespace OrderStatus

/-- Which status may be written over which. -/
def mayBecome : OrderStatus → OrderStatus → Bool
  | .init, next => next = .running || next = .success || next = .failed
  | .running, next => next ≠ .init
  | .terminateFailed, next => next = .terminateFailed || next = .terminateSuccess || next = .abort
  | _, _ => false

/-- Statuses over which none is written. -/
def isSettled : OrderStatus → Bool
  | .success | .failed | .terminateSuccess | .abort => true
  | .init | .running | .terminateFailed => false

theorem mayBecome_eq_false {status : OrderStatus} (h : status.isSettled = true) (next : OrderStatus) :
    status.mayBecome next = false := by
  cases status <;> first | rfl | cases h

end OrderStatus

def Call.orderStatus? : Call → Option (Int64 × OrderStatus)
  | .update (.setOrderStatus id status) | .update (.moveOrder id _ _ _ status) => some (id, status)
  | _ => none

theorem Warrant.mayBecome {engine : Engine} {command : Command} {past : List Exchange} {store : Store}
    {c : Call} (h : Warrant engine command past store c) {id : Int64} {status : OrderStatus}
    (writes : c.orderStatus? = some (id, status)) :
    ∃ order, store.answer (.order id) = some order ∧ order.status.mayBecome status = true := by
  cases h with
  | @quiet c hQuiet =>
    cases c with
    | update u => cases hQuiet
    | lookup _ | errand _ => cases writes
  | apply | insert | submit | startJob | cancel | abandon | abortJob | settle | confirm => cases writes
  | start found init =>
    cases writes
    exact ⟨_, found, by rw [init]; rfl⟩
  | terminate asked found allowed ending =>
    cases writes
    refine ⟨_, found, ?_⟩
    rcases OrderStatus.allows_terminate_iff.mp allowed with h | h <;> rcases ending with rfl | rfl <;>
      rw [h] <;> rfl
  | abort asked found allowed =>
    cases writes
    refine ⟨_, found, ?_⟩
    rcases OrderStatus.allows_abort_iff.mp allowed with h | h <;> rw [h] <;> rfl
  | fail asked outcome found allowed =>
    cases writes
    refine ⟨_, found, ?_⟩
    rcases OrderStatus.allows_advance_iff.mp allowed with h | h <;> rw [h] <;> rfl
  | finish completing | rest completing | move completing =>
    cases writes
    refine ⟨_, completing.found, ?_⟩
    rcases OrderStatus.allows_advance_iff.mp completing.allowed with h | h <;> rw [h] <;> rfl

/-- What an update makes of an order: nothing, or what it asks for, if the order is the one that is found
under its number. -/
inductive Store.OrderChange (store : Store) (u : Update) (order : Order) : Order → Prop
  | kept : OrderChange store u order order
  | marked {status : OrderStatus} (call : u = .setOrderStatus order.id status)
    (found : store.answer (.order order.id) = some order) :
    OrderChange store u order { order with status := status }
  | moved {index : Int32} {step kind : String} {status : OrderStatus}
    (call : u = .moveOrder order.id index step kind status)
    (found : store.answer (.order order.id) = some order) :
    OrderChange store u order
      { order with stepIndex := index, step := step, stepType := kind, status := status }

theorem Store.OrderChange.id {store : Store} {u : Update} {order order' : Order}
    (h : store.OrderChange u order order') : order'.id = order.id := by
  cases h <;> rfl

theorem Store.forall₂_orderChange (store : Store) (u : Update) :
    List.Forall₂ (store.OrderChange u) store.orders (store.update u).2.orders := by
  have hSame : List.Forall₂ (store.OrderChange u) store.orders store.orders :=
    List.forall₂_same.mpr fun _ _ => .kept
  cases u with
  | setOrderStatus id status =>
    refine forall₂_changeFirst (fun _ => .kept) fun order hFound => ?_
    obtain ⟨-, rfl⟩ := mem_of_find? hFound
    exact .marked rfl hFound
  | moveOrder id index step kind status =>
    refine forall₂_changeFirst (fun _ => .kept) fun order hFound => ?_
    obtain ⟨-, rfl⟩ := mem_of_find? hFound
    split
    · exact .kept
    · exact .moved rfl hFound
  | insertJob draft =>
    rcases store.insertJob_cases draft with ⟨id, hInsert, _⟩ | ⟨e, hInsert⟩ | ⟨ids, hInsert⟩
    all_goals
      rw [show store.update (.insertJob draft) = _ from hInsert]
      exact hSame
  | startJob | setJobStatus => exact hSame
  | addConfirmation draft =>
    unfold update addConfirmation
    dsimp only
    split <;> exact hSame

theorem Store.answer_order_update {store : Store} {id : Int64} {order : Order}
    (found : store.answer (.order id) = some order) (u : Update) :
    ∃ order', (store.update u).2.answer (.order id) = some order' ∧
      (order'.status = order.status ∨ Call.orderStatus? (.update u) = some (id, order'.status)) := by
  obtain ⟨order', hFound, hChange⟩ :=
    find?_of_forall₂ (store.forall₂_orderChange u) OrderChange.id found
  obtain ⟨-, rfl⟩ := mem_of_answer_order found
  refine ⟨order', hFound, ?_⟩
  cases hChange with
  | kept => exact .inl rfl
  | marked call | moved call =>
    rw [call]
    exact .inr rfl

theorem Deed.IsSound.forall₂_orders {engine : Engine} {deed : Deed} (h : deed.IsSound engine) :
    List.Forall₂ (fun order order' : Order => order'.id = order.id ∧
        (order'.status = order.status ∨ order.status.mayBecome order'.status = true))
      deed.before.store.orders deed.after.store.orders := by
  rcases h.store_after with hSame | ⟨u, hCall, hStore⟩
  · rw [hSame]
    exact List.forall₂_same.mpr fun _ _ => ⟨rfl, .inl rfl⟩
  rw [hStore]
  refine (deed.before.store.forall₂_orderChange u).imp fun order order' hChange => ?_
  have hWrites : ∀ {status : OrderStatus}, Call.orderStatus? (.update u) = some (order.id, status) →
      deed.before.store.answer (.order order.id) = some order → order.status.mayBecome status = true := by
    intro status hWrites hFound
    obtain ⟨found, hFound', hGraph⟩ := h.warrant.mayBecome (hCall ▸ hWrites)
    rwa [Option.some.inj (hFound.symm.trans hFound')]
  cases hChange with
  | kept => exact ⟨rfl, .inl rfl⟩
  | marked call found => exact ⟨rfl, .inr (hWrites (by rw [call]; rfl) found)⟩
  | moved call found => exact ⟨rfl, .inr (hWrites (by rw [call]; rfl) found)⟩

/-- Every status that a session writes may come after the one that the order has, and an order that is
settled keeps its status for good. -/
theorem Session.orderStatus_of_mem_deeds {σ : Type} (session : Session σ) :
    (∀ deed ∈ session.deeds, ∀ id status, deed.call.orderStatus? = some (id, status) →
      ∃ order, deed.before.store.answer (.order id) = some order ∧
        order.status.mayBecome status = true) ∧
    session.worlds.Pairwise fun earlier later =>
      List.Forall₂ (fun order order' : Order => order'.id = order.id ∧
          (order.status.isSettled = true → order'.status = order.status))
        earlier.store.orders later.store.orders := by
  refine ⟨fun deed hDeed id status hWrites => ?_, Session.pairwise_worlds ?_ fun deed hSound => ?_⟩
  · exact (Session.isSound_of_mem_deeds hDeed).warrant.mayBecome hWrites
  · intro first second third h h'
    refine forall₂_trans ?_ h h'
    rintro a b c ⟨hId, hStatus⟩ ⟨hId', hStatus'⟩
    -- a status that is kept is settled in between as well, so it is kept again
    refine ⟨hId'.trans hId, fun hSettled => ?_⟩
    have hKept := hStatus hSettled
    rw [hStatus' (hKept ▸ hSettled), hKept]
  · refine hSound.forall₂_orders.imp fun order order' hOrders => ⟨hOrders.1, fun hSettled => ?_⟩
    rcases hOrders.2 with hStatus | hGraph
    · exact hStatus
    · rw [OrderStatus.mayBecome_eq_false hSettled] at hGraph
      cases hGraph

/-- The order stands at the last step of the last stage of its snapshot. -/
def Store.AtEnd (store : Store) (order : Order) : Prop :=
  ∃ snapshot stage, store.answer (.snapshot order.snapshot) = some snapshot ∧
    snapshot.isLastStage order.stage = true ∧ snapshot.stage? order.stage = some stage ∧
    stage.isLastIndex order.stepIndex = true

theorem Snapshot.eq_of_isLastStage {snapshot : Snapshot} {id id' : Int64}
    (h : snapshot.isLastStage id = true) (h' : snapshot.isLastStage id' = true) : id = id' := by
  unfold Snapshot.isLastStage at h h'
  cases hLast : snapshot.stages.getLast? with
  | none =>
    rw [hLast] at h
    cases h
  | some last =>
    rw [hLast] at h h'
    exact (of_decide_eq_true h).symm.trans (of_decide_eq_true h')

theorem Warrant.finish_of_success {engine : Engine} {command : Command} {past : List Exchange}
    {store : Store} {c : Call} (h : Warrant engine command past store c) {id : Int64}
    (writes : c.orderStatus? = some (id, .success)) :
    id = command.order ∧ ∃ order snapshot stage, Completing command store order snapshot stage ∧
      stage.isLastIndex order.stepIndex = true ∧
      snapshot.isLastStage (command.stageAt order) = true := by
  cases h with
  | @quiet c hQuiet =>
    cases c with
    | update u => cases hQuiet
    | lookup _ | errand _ => cases writes
  | apply | insert | submit | startJob | cancel | abandon | abortJob | settle | confirm => cases writes
  | start | abort | fail | rest | move => cases writes
  | terminate asked found allowed ending =>
    cases writes
    rcases ending with h | h <;> cases h
  | finish completing lastStep lastStage =>
    cases writes
    exact ⟨rfl, _, _, _, completing, lastStep, lastStage⟩

/-- An order succeeds at the last step of the last stage, taken in the stage that the command acts in;
so it stands at the end of its own stage exactly if that is the same one. -/
theorem Session.atEnd_iff_of_success {σ : Type} {session : Session σ} {deed : Deed}
    (h : deed ∈ session.deeds) {id : Int64} (writes : deed.call.orderStatus? = some (id, .success)) :
    ∃ order snapshot stage, deed.before.store.answer (.order id) = some order ∧
      deed.before.store.answer (.snapshot order.snapshot) = some snapshot ∧
      snapshot.isLastStage (deed.command.stageAt order) = true ∧
      snapshot.stage? (deed.command.stageAt order) = some stage ∧
      stage.isLastIndex order.stepIndex = true ∧
      (deed.before.store.AtEnd order ↔ order.stage = deed.command.stageAt order) := by
  obtain ⟨rfl, order, snapshot, stage, hCompleting, hLastStep, hLastStage⟩ :=
    (Session.isSound_of_mem_deeds h).warrant.finish_of_success writes
  refine ⟨order, snapshot, stage, hCompleting.found, hCompleting.follows, hLastStage, hCompleting.acts,
    hLastStep, ?_⟩
  constructor
  · rintro ⟨snapshot', stage', hSnapshot', hLastStage', -, -⟩
    have hSame := Option.some.inj (hSnapshot'.symm.trans hCompleting.follows)
    exact Snapshot.eq_of_isLastStage hLastStage' (hSame ▸ hLastStage)
  · intro hStage
    refine ⟨snapshot, stage, hCompleting.follows, ?_, ?_, hLastStep⟩
    · rw [hStage]
      exact hLastStage
    · rw [hStage]
      exact hCompleting.acts

theorem Session.exists_success_in_sample :
    ∃ deed ∈ (Session.sample (.complete 1 5 4 .deploy ⟨9, .success⟩)).deeds,
      deed.call.orderStatus? = some (5, .success) ∧
      deed.before.store.answer (.order 5) = Session.sampleStore.answer (.order 5) ∧
      deed.before.store.answer (.snapshot 1) = Session.sampleStore.answer (.snapshot 1) := by
  have hLook : ((Session.sample (.complete 1 5 4 .deploy ⟨9, .success⟩)).deeds.map fun deed =>
      (deed.call.orderStatus?, deed.before.store.answer (.order 5),
        deed.before.store.answer (.snapshot 1)))[4]? = some (some (5, .success),
          Session.sampleStore.answer (.order 5), Session.sampleStore.answer (.snapshot 1)) := by cbv
  obtain ⟨deed, hDeed, hSeen⟩ := List.mem_map.mp (List.mem_of_getElem? hLook)
  obtain ⟨hWrites, hSeen⟩ := Prod.mk.inj hSeen
  obtain ⟨hOrder, hSnapshot⟩ := Prod.mk.inj hSeen
  exact ⟨deed, hDeed, hWrites, hOrder, hSnapshot⟩

theorem Session.atEnd_iff_of_success_in_sample :
    ∃ deed ∈ (Session.sample (.complete 1 5 4 .deploy ⟨9, .success⟩)).deeds,
      deed.call.orderStatus? = some (5, .success) ∧
      ∃ order, deed.before.store.answer (.order 5) = some order ∧
        (deed.before.store.AtEnd order ↔ order.stage = deed.command.stageAt order) := by
  obtain ⟨deed, hDeed, hWrites, -, -⟩ := Session.exists_success_in_sample
  obtain ⟨order, _, _, hOrder, _, _, _, _, hEnd⟩ := Session.atEnd_iff_of_success hDeed hWrites
  exact ⟨deed, hDeed, hWrites, order, hOrder, hEnd⟩

/-- An order can succeed while it stands in the first of two stages: a job of the last one has run. -/
theorem Session.success_away_from_end :
    ∃ deed ∈ (Session.sample (.complete 1 5 4 .deploy ⟨9, .success⟩)).deeds, ∃ order,
      deed.call.orderStatus? = some (5, .success) ∧
      deed.before.store.answer (.order 5) = some order ∧ order.stage = 3 ∧
      ¬ deed.before.store.AtEnd order := by
  obtain ⟨deed, hDeed, hWrites, hOrder, hSnapshot⟩ := Session.exists_success_in_sample
  refine ⟨deed, hDeed, _, hWrites, hOrder, rfl, ?_⟩
  rintro ⟨snapshot, _, hFound, hLast, -, -⟩
  have hStored : Session.sampleStore.answer (.snapshot 1) = some snapshot := hSnapshot.symm.trans hFound
  rw [← Option.some.inj hStored] at hLast
  revert hLast
  decide

end DeliveryPipeline

import DeliveryPipeline.Proofs.Session.Orders
import DeliveryPipeline.Proofs.Session.Parts

/-! # Steps in a session

An order goes through the steps of its stage in one direction. It leaves a step only when the command
that is carried out completes it, once in that command, and then goes to the least index that the stage
declares above its own; so no step that is declared is left out, however the indices are chosen.
-/

namespace DeliveryPipeline

set_option autoImplicit false

open Api (Command)

/-- The same order in the same stage, at the same step or at a later one. -/
structure Order.Precedes (order order' : Order) : Prop where
  id : order'.id = order.id
  stage : order'.stage = order.stage
  stepIndex : order.stepIndex ≤ order'.stepIndex

def Store.Precedes (before after : Store) : Prop :=
  List.Forall₂ Order.Precedes before.orders after.orders

theorem Order.Precedes.refl (order : Order) : order.Precedes order := ⟨rfl, rfl, Int32.le_refl _⟩

theorem Order.Precedes.trans {first second third : Order} (h : first.Precedes second)
    (h' : second.Precedes third) : first.Precedes third :=
  ⟨h'.id.trans h.id, h'.stage.trans h.stage, Int32.le_trans h.stepIndex h'.stepIndex⟩

theorem Store.Precedes.refl (store : Store) : store.Precedes store :=
  List.forall₂_same.mpr fun order _ => .refl order

theorem Store.Precedes.trans {first second third : Store} (h : first.Precedes second)
    (h' : second.Precedes third) : first.Precedes third :=
  forall₂_trans (R := Order.Precedes) Order.Precedes.trans h h'

theorem Warrant.move_inv {engine : Engine} {command : Command} {past : List Exchange} {store : Store}
    {id : Int64} {index : Int32} {step kind : String} {status : OrderStatus}
    (h : Warrant engine command past store (.update (.moveOrder id index step kind status))) :
    id = command.order ∧ ∃ order snapshot stage next, Completing command store order snapshot stage ∧
      (stage.nextIndex? order.stepIndex).bind stage.step? = some next ∧
      ∀ order : Order, { order with stepIndex := index, step := step, stepType := kind, status := status } =
        order.movedTo next := by
  cases h with
  | quiet hQuiet => cases hQuiet
  | move completing lastStep follows => exact ⟨rfl, _, _, _, _, completing, follows, fun _ => rfl⟩

/-- What a deed makes of an order: it stands where it stood, or has been moved to the next step of the
stage in which its step is completed. -/
inductive Deed.OrderStep (deed : Deed) (order : Order) : Order → Prop
  | stays (status : OrderStatus) : deed.OrderStep order { order with status := status }
  | moves {snapshot : Snapshot} {stage : Stage} {next : Step} (call : deed.call.moves = true)
    (completing : Completing deed.command deed.before.store order snapshot stage)
    (follows : (stage.nextIndex? order.stepIndex).bind stage.step? = some next) :
    deed.OrderStep order (order.movedTo next)

theorem Deed.IsSound.forall₂_orderStep {engine : Engine} {deed : Deed} (h : deed.IsSound engine) :
    List.Forall₂ deed.OrderStep deed.before.store.orders deed.after.store.orders := by
  rcases h.store_after with hSame | ⟨u, hCall, hStore⟩
  · rw [hSame]
    exact List.forall₂_same.mpr fun order _ => .stays order.status
  rw [hStore]
  refine (deed.before.store.forall₂_orderChange u).imp fun order order' hChange => ?_
  cases hChange with
  | kept => exact .stays order.status
  | marked => exact .stays _
  | moved call found =>
    have hWarrant := h.warrant
    rw [hCall, call] at hWarrant
    obtain ⟨hId, other, snapshot, stage, next, hCompleting, hFollows, hMoved⟩ := hWarrant.move_inv
    rw [hId] at found
    obtain rfl := Option.some.inj (hCompleting.found.symm.trans found)
    rw [hMoved]
    exact .moves (by rw [hCall, call]; rfl) hCompleting hFollows

theorem Deed.OrderStep.precedes {deed : Deed} {order order' : Order} (h : deed.OrderStep order order') :
    order.Precedes order' := by
  cases h with
  | stays status => exact ⟨rfl, rfl, Int32.le_refl _⟩
  | moves call completing follows =>
    exact ⟨rfl, rfl, Int32.le_of_lt (Stage.next_of_follows follows).1⟩

theorem Deed.IsSound.precedes {engine : Engine} {deed : Deed} (h : deed.IsSound engine) :
    deed.before.store.Precedes deed.after.store :=
  h.forall₂_orderStep.imp fun _ _ => Deed.OrderStep.precedes

def Deed.MovesOrder (deed : Deed) : Prop :=
  deed.after.store.orders.map Order.place ≠ deed.before.store.orders.map Order.place

theorem Deed.IsSound.moves_of_movesOrder {engine : Engine} {deed : Deed} (h : deed.IsSound engine)
    (moves : deed.MovesOrder) : deed.call.moves = true := by
  by_contra hCall
  refine moves (map_eq_of_forall₂ (h.forall₂_orderStep.imp fun order order' hStep => ?_))
  cases hStep with
  | stays status => rfl
  | moves call => exact absurd call hCall

theorem Deed.IsSound.not_precedes_of_movesOrder {engine : Engine} {deed : Deed}
    (h : deed.IsSound engine) (moves : deed.MovesOrder) :
    ¬ deed.after.store.Precedes deed.before.store := by
  intro hBack
  refine moves (map_eq_of_forall₂ (List.Forall₂.mp (fun order order' hStep hPrecedes => ?_)
    h.forall₂_orderStep hBack.flip))
  cases hStep with
  | stays status => rfl
  | moves call completing follows =>
    exact absurd (Stage.next_of_follows follows).1 (Int32.not_lt.mpr hPrecedes.stepIndex)

/-- The order goes to the first step under the least index above its own. -/
structure Stage.LeadsTo (stage : Stage) (order order' : Order) : Prop where
  ahead : order.stepIndex < order'.stepIndex
  least : ∀ step ∈ stage.steps, order.stepIndex < step.index → order'.stepIndex ≤ step.index
  first : ∃ step, stage.step? order'.stepIndex = some step ∧ order'.step = step.name ∧
    order'.stepType = Named.name step.kind

namespace Session

/-- The part's order is moved on, in the stage that its command completes a step of. -/
structure Part.Advances (part : Part) (store : Store) (order order' : Order) : Prop where
  about : order.id = part.command.order
  departs : Departs part.command part.start.store store
  allowed : order.status = .init ∨ order.status = .running
  target : ∃ snapshot stage, store.answer (.snapshot order.snapshot) = some snapshot ∧
    snapshot.stage? (part.command.stageAt order) = some stage ∧ stage.LeadsTo order order'
  status : order'.status = .running

variable {σ : Type} {session : Session σ} {part : Part}

theorem departs_of_moves (h : part ∈ session.parts) {deed : Deed} (hDeed : deed ∈ part.deeds)
    (moves : deed.call.moves = true) : Departs part.command part.start.store deed.before.store := by
  have hWarrant := (isSound_of_mem_deeds (mem_deeds_of_mem_parts h hDeed)).warrant
  have hCompletes := hWarrant.completes_of_moves moves
  rw [command_of_mem_deeds h hDeed] at hCompletes
  exact (departing_of_mem_parts h hCompletes hDeed).moves moves

theorem precedes_of_mem_part (h : part ∈ session.parts) {deed : Deed} (hDeed : deed ∈ part.deeds) :
    part.start.store.Precedes deed.before.store := by
  obtain ⟨past, world, hPath⟩ := path_of_mem_parts h
  have hHolds := hPath.invariant (I := fun _ world => part.start.store.Precedes world.store)
    (.refl part.start.store) fun deed hDeed hBefore =>
      hBefore.trans (isSound_of_mem_deeds (mem_deeds_of_mem_parts h hDeed)).precedes
  exact (hHolds deed hDeed).1

theorem place_or_advances (h : part ∈ session.parts) {deed : Deed} (hDeed : deed ∈ part.deeds) :
    List.Forall₂ (fun order order' => order'.place = order.place ∨
        part.Advances deed.before.store order order')
      deed.before.store.orders deed.after.store.orders := by
  have hSound := isSound_of_mem_deeds (mem_deeds_of_mem_parts h hDeed)
  refine hSound.forall₂_orderStep.imp fun order order' hStep => ?_
  cases hStep with
  | stays status => exact .inl rfl
  | @moves snapshot stage next call completing follows =>
    rw [command_of_mem_deeds h hDeed] at completing
    obtain ⟨hAhead, hLeast, hFirst⟩ := Stage.next_of_follows follows
    refine .inr ⟨(Store.mem_of_answer_order completing.found).2, departs_of_moves h hDeed call,
      OrderStatus.allows_advance_iff.mp completing.allowed, ?_, rfl⟩
    exact ⟨snapshot, stage, completing.follows, completing.acts, hAhead, hLeast, next, hFirst, rfl, rfl⟩

/-- Orders never go back and never leave their stage. A command moves its order once at most, where the
order departs from the step at which the command found it, and only to the step that comes next. -/
theorem advances_of_mem_parts (session : Session σ) :
    (session.worlds.Pairwise fun earlier later => earlier.store.Precedes later.store) ∧
    ∀ part ∈ session.parts,
      (part.deeds.Pairwise fun deed later => ¬ (deed.MovesOrder ∧ later.MovesOrder)) ∧
      ∀ deed ∈ part.deeds, List.Forall₂ (fun order order' => order'.place = order.place ∨
          part.Advances deed.before.store order order')
        deed.before.store.orders deed.after.store.orders := by
  refine ⟨pairwise_worlds Store.Precedes.trans fun deed hSound => hSound.precedes,
    fun part hPart => ⟨?_, fun deed => place_or_advances hPart⟩⟩
  have hSound : ∀ deed ∈ part.deeds, deed.IsSound session.engine := fun deed hDeed =>
    isSound_of_mem_deeds (mem_deeds_of_mem_parts hPart hDeed)
  obtain ⟨past, world, hPath⟩ := path_of_mem_parts hPart
  have hPairs := hPath.pairwise_deeds (R := fun before after => before.store.Precedes after.store)
    (fun world => .refl world.store) Store.Precedes.trans fun deed hDeed => (hSound deed hDeed).precedes
  refine hPairs.imp_of_mem fun {deed later} hDeed hLater hPrecedes ⟨hMoves, hMoves'⟩ => ?_
  -- both find the orders as they were where the part began, so the first has led back to them
  have hOrders := (departs_of_moves hPart hDeed ((hSound deed hDeed).moves_of_movesOrder hMoves)).orders
  have hOrders' :=
    (departs_of_moves hPart hLater ((hSound later hLater).moves_of_movesOrder hMoves')).orders
  refine (hSound deed hDeed).not_precedes_of_movesOrder hMoves ?_
  unfold Store.Precedes at hPrecedes ⊢
  rwa [hOrders, ← hOrders']

end Session

end DeliveryPipeline

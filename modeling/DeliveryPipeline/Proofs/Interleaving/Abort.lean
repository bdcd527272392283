import DeliveryPipeline.Proofs.Engine.Preparation
import DeliveryPipeline.Proofs.Interleaving.Records

/-! # An abort while the end of a job is reported

A report looks its order up once, and goes by what it saw then. If the order was aborted before that,
the report settles its job and leaves the order alone. If the order was still open, nothing that the
report does later takes notice of the abort: it moves the order to the next step, sets it running again
and launches the job of that step.
-/

namespace DeliveryPipeline

set_option autoImplicit false

open Operation

/-- Calls that leave orders where they are: looking, and settling a job. -/
def Call.leavesOrders : Call → Bool
  | .lookup _ | .update (.setJobStatus ..) => true
  | _ => false

theorem Call.orderStatus?_of_leavesOrders {c : Call} (h : c.leavesOrders = true) :
    c.orderStatus? = none := by
  cases c with
  | update u => cases u <;> first | rfl | cases h
  | lookup _ | errand _ => rfl

theorem Call.orderStatus?_of_isPreparation {c : Call} (h : c.isPreparation = true) :
    c.orderStatus? = none := by
  cases c with
  | update u => cases h
  | lookup _ | errand _ => rfl

def Exchange.FindsOpen (e : Exchange) (id : Int64) : Prop :=
  ∃ order : Order, e = ⟨.lookup (.order id), .ok (some order)⟩ ∧ order.status.allows .advance = true

def Store.HasStatus (store : Store) (id : Int64) (status : OrderStatus) : Prop :=
  ∃ order, store.answer (.order id) = some order ∧ order.status = status

namespace Engine

theorem obeys_abort (project id : Int64) :
    (abort project id).Obeys
      (fun c past => ∀ written, c.orderStatus? = some written → written = (id, .abort) ∧
        ∃ order : Order, ⟨.lookup (.order id), .ok (some order)⟩ ∈ past)
      (fun _ _ => True) (fun _ _ => True) [] := by
  have hPreparation : ∀ {c : Call} {past : List Exchange}, c.isPreparation = true →
      ∀ written, c.orderStatus? = some written → written = (id, .abort) ∧
        ∃ order : Order, ⟨.lookup (.order id), .ok (some order)⟩ ∈ past := by
    intro c past hPrepares written hWrites
    rw [Call.orderStatus?_of_isPreparation hPrepares] at hWrites
    cases hWrites
  refine (prepares_findOrderOf project id).obeys_bind (fun _ _ _ => hPreparation) (fun _ _ _ => trivial)
    fun order own _ hFound => ?_
  refine (onlyMakes_ensureAllowed order .abort).onlyPrepares.obeys_bind (fun _ _ _ => hPreparation)
    (fun _ _ _ => trivial) fun _ own' _ _ => ?_
  refine obeys_update_bind ?_ (fun _ => ?_) fun _ => trivial
  · intro written hWrites
    exact ⟨(Option.some.inj hWrites).symm, order, by simp [hFound]⟩
  refine obeys_lookup_bind (hPreparation rfl) (fun latest => ?_) fun _ => trivial
  rcases latest with _ | job
  · trivial
  dsimp only
  split
  · exact obeys_update (u := .setJobStatus job.id .abort) (fun _ hWrites => nomatch hWrites)
      (fun _ => trivial) fun _ => trivial
  · trivial

theorem obeys_complete (engine : Engine) (project id stage : Int64) (kind : JobKind) (report : Callback) :
    (complete engine project id stage kind report).Obeys
      (fun c past => c.leavesOrders = true ∨ ∃ e ∈ past, e.FindsOpen id)
      (fun _ _ => True) (fun _ _ => True) [] := by
  refine obeys_lookup_bind (.inl rfl) (fun answer => ?_) fun _ => trivial
  refine obeys_bind.mpr (obeys_require (fun job _ => ?_) fun _ => trivial)
  refine obeys_bind.mpr (obeys_lookup_bind (.inl rfl) (fun answer => ?_) fun _ => trivial)
  refine obeys_require (fun order hFound => ?_) fun _ => trivial
  subst hFound
  split
  · trivial
  refine obeys_update_bind (.inl rfl) (fun _ => ?_) fun _ => trivial
  split
  · trivial
  rename_i hAllowed
  -- from here on the order was found open, so the report may do anything
  refine Program.obeys_of_forall _ (fun c later => .inr ⟨_, ?_, order, rfl, ?_⟩) fun result later => ?_
  · simp
  · simpa using hAllowed
  · cases result <;> trivial

end Engine

theorem Store.HasStatus.reply {world : World} {id : Int64} {status : OrderStatus}
    (h : world.store.HasStatus id status) (disturbance : Disturbance) {c : Call}
    (writes : ∀ status', c.orderStatus? = some (id, status') → status' = status) :
    (world.reply disturbance c).2.store.HasStatus id status := by
  obtain ⟨order, hFound, hStatus⟩ := h
  obtain ⟨order', hFound', hSame | hWritten⟩ := World.answer_order_reply hFound disturbance c
  · exact ⟨order', hFound', hSame.trans hStatus⟩
  · exact ⟨order', hFound', writes _ hWritten⟩

namespace Interleaving

def abortRules (id : Int64) : Rules (Except EngineError Unit) (Except EngineError Progress) where
  calls
    | .left, c, past => ∀ written, c.orderStatus? = some written → written = (id, .abort) ∧
        ∃ order : Order, ⟨.lookup (.order id), .ok (some order)⟩ ∈ past
    | .right, c, past => c.leavesOrders = true ∨ ∃ e ∈ past, e.FindsOpen id
  left := known (fun _ _ => True) fun _ _ => True
  right := known (fun _ _ => True) fun _ _ => True

theorem obeys_abortRules (engine : Engine) (project project' id stage : Int64) (kind : JobKind)
    (report : Callback) (world : World) :
    Obeys (abortRules id) []
      (start (Engine.abort project id) (engine.complete project' id stage kind report) world) where
  left := Engine.obeys_abort project id
  right := Engine.obeys_complete engine project' id stage kind report

theorem hasStatus_abort_of_write {id : Int64} {past : List Move} {world : World} {turn : Turn} {c : Call}
    (stored : StoredIfFound id past world)
    (allowed : (abortRules id).calls .left c (Side.left.exchanges past))
    (aborts : (world.move turn c).exchange = ⟨.update (.setOrderStatus id .abort), .ok ()⟩) :
    (world.move turn c).after.store.HasStatus id .abort := by
  obtain ⟨rfl, hReply⟩ := World.eq_of_move_exchange aborts
  obtain ⟨-, order, hLooked⟩ := allowed _ rfl
  obtain ⟨look, hLook, -, hExchange⟩ := Side.mem_exchanges.mp hLooked
  obtain ⟨found, hFound⟩ := stored order ⟨look, hLook, hExchange⟩
  have hStore : (world.move turn (.update (.setOrderStatus id .abort))).after.store =
      (world.store.update (.setOrderStatus id .abort)).2 :=
    World.store_of_reply_update (by simp) hReply
  have hAnswer := Store.answer_changeOrder_of_found hFound (fun order => { order with status := .abort })
    fun _ => rfl
  rw [hStore]
  exact ⟨_, hAnswer, rfl⟩

def StaysAborted (id : Int64) (moves : List Move) (world : World) : Prop :=
  world.store.HasStatus id .abort ∧ ∀ move ∈ moves, move.after.store.HasStatus id .abort ∧
    ¬ move.exchange.FindsOpen id ∧ (move.side = .right → move.call.leavesOrders = true)

theorem StaysAborted.move {id : Int64} {past moves : List Move} {world : World} {turn : Turn} {c : Call}
    (h : StaysAborted id moves world)
    (unseen : ∀ look ∈ past, look.side = .right → ¬ look.exchange.FindsOpen id)
    (allowed : (abortRules id).calls turn.side c (turn.side.exchanges (past ++ moves))) :
    StaysAborted id (moves ++ [world.move turn c]) (world.move turn c).after := by
  obtain ⟨hStatus, hMoves⟩ := h
  have hLeaves : turn.side = .right → c.leavesOrders = true := by
    intro hSide
    rw [hSide] at allowed
    rcases allowed with hLeaves | ⟨e, hSeen, hOpen⟩
    · exact hLeaves
    obtain ⟨look, hLook, hLookSide, rfl⟩ := Side.mem_exchanges.mp hSeen
    rcases List.mem_append.mp hLook with hLook | hLook
    · exact absurd hOpen (unseen look hLook hLookSide)
    · exact absurd hOpen (hMoves look hLook).2.1
  have hWrites : ∀ status, c.orderStatus? = some (id, status) → status = .abort := by
    intro status hWritten
    cases hSide : turn.side with
    | left =>
      rw [hSide] at allowed
      exact (Prod.mk.inj (allowed _ hWritten).1).2
    | right =>
      rw [Call.orderStatus?_of_leavesOrders (hLeaves hSide)] at hWritten
      cases hWritten
  have hNotOpen : ¬ (world.move turn c).exchange.FindsOpen id := by
    rintro ⟨order, hExchange, hAllows⟩
    obtain ⟨rfl, hReply⟩ := World.eq_of_move_exchange hExchange
    obtain ⟨stored, hStored, hAborted⟩ := hStatus
    rw [Option.some.inj ((World.answer_of_lookup_order hReply).symm.trans hStored), hAborted] at hAllows
    cases hAllows
  have hAfter := hStatus.reply turn.disturbance hWrites
  refine ⟨hAfter, fun move hMove => ?_⟩
  rcases List.mem_append.mp hMove with hMove | hMove
  · exact hMoves move hMove
  · rw [List.mem_singleton.mp hMove]
    exact ⟨hAfter, hNotOpen, hLeaves⟩

/-- Once an abort is written, it stays, and a report that has not found the order open by then leaves
all orders where they are. -/
theorem hasStatus_abort_of_moves {engine : Engine} {project project' id stage : Int64} {kind : JobKind}
    {report : Callback} {world : World} {turns : List Turn} {before after : List Move} {write : Move}
    (split : (start (Engine.abort project id) (engine.complete project' id stage kind report)
      world).moves turns = before ++ write :: after)
    (side : write.side = .left)
    (aborts : write.exchange = ⟨.update (.setOrderStatus id .abort), .ok ()⟩)
    (unseen : ∀ look ∈ before, look.side = .right → ¬ look.exchange.FindsOpen id) :
    ∀ move ∈ write :: after, move.after.store.HasStatus id .abort ∧
      (move.side = .right → move.call.leavesOrders = true) := by
  obtain ⟨earlier, turn, later, pair', rfl, rfl, hStep, rfl⟩ := exists_turn_of_moves_eq split
  have hStart := obeys_abortRules engine project project' id stage kind report world
  -- up to the write, only what either has found matters
  obtain ⟨hStored, hObeys⟩ := hStart.holds (StoredIfFound id) earlier
    (by rintro order ⟨move, hMove, -⟩; cases hMove) fun turn _ moves world c _ h => h.move turn c
  obtain hPass | ⟨c, pair'', hAllowed, hMove, hWorld, hObeys'⟩ := hObeys.step_cases turn
  · cases hPass.symm.trans hStep
  obtain ⟨hWrite, rfl⟩ := Prod.mk.inj (hMove.symm.trans hStep)
  obtain rfl := Option.some.inj hWrite
  have hSide : turn.side = .left := side
  rw [hSide] at hAllowed
  have hAborted := hasStatus_abort_of_write hStored hAllowed aborts
  -- from then on, the order is aborted
  obtain ⟨⟨-, hMoves⟩, -⟩ := hObeys'.holds (StaysAborted id) later
    ⟨hWorld ▸ hAborted, fun _ h => nomatch h⟩ fun turn _ moves world c hAllowed h => by
      refine h.move (fun look hLook hLookSide => ?_) hAllowed
      rcases List.mem_append.mp hLook with hLook | hLook
      · exact unseen look hLook hLookSide
      · rw [List.mem_singleton.mp hLook] at hLookSide
        cases hSide.symm.trans hLookSide
  refine List.forall_mem_cons.mpr ⟨⟨hAborted, fun hRight => ?_⟩, fun move hMove => ?_⟩
  · cases hSide.symm.trans hRight
  · exact ⟨(hMoves move hMove).1, (hMoves move hMove).2.2⟩

def abortSample : Interleaving (Except EngineError Unit) (Except EngineError Progress) :=
  start (Engine.abort 1 5)
    ((Engine.ofServer "http://conveyor.local").complete 1 5 3 .build ⟨9, .success⟩)
    { store := { sampleStore with
        jobs := [⟨9, 5, 1, 3, .build, some 77, .running, "alice", []⟩] }
      histories := []
      nextRun := 100 }

def abortFirst : List Turn := List.replicate 5 ⟨.left, .none⟩ ++ List.replicate 2 ⟨.right, .none⟩

/-- The report has looked its order up before the abort, and goes on after it. -/
def abortBetween : List Turn :=
  List.replicate 2 ⟨.right, .none⟩ ++ List.replicate 5 ⟨.left, .none⟩ ++
    List.replicate 21 ⟨.right, .none⟩

theorem hasStatus_abort_of_abortFirst :
    ∃ before write after, abortSample.moves abortFirst = before ++ write :: after ∧
      write.side = .left ∧ write.exchange = ⟨.update (.setOrderStatus 5 .abort), .ok ()⟩ ∧
      (∀ look ∈ before, look.side = .right → ¬ look.exchange.FindsOpen 5) ∧
      ∀ move ∈ write :: after, move.after.store.HasStatus 5 .abort ∧
        (move.side = .right → move.call.leavesOrders = true) := by
  have hWrite : ((abortSample.moves abortFirst).map fun move => (move.side, move.exchange))[2]? =
      some (.left, ⟨.update (.setOrderStatus 5 .abort), .ok ()⟩) := rfl
  have hSides : ((abortSample.moves abortFirst).take 2).map Move.side = [.left, .left] := by
    decide +kernel
  obtain ⟨write, hSplit, hSeen⟩ := split_of_getElem? hWrite
  obtain ⟨hSide, hAborts⟩ := Prod.mk.inj hSeen
  have hUnseen : ∀ look ∈ (abortSample.moves abortFirst).take 2, look.side = .right →
      ¬ look.exchange.FindsOpen 5 := by
    intro look hLook hRight
    have hMem := List.mem_map_of_mem (f := Move.side) hLook
    rw [hSides, hRight] at hMem
    exact absurd hMem (by decide)
  exact ⟨_, write, _, hSplit, hSide, hAborts, hUnseen,
    hasStatus_abort_of_moves hSplit hSide hAborts hUnseen⟩

/-- An aborted order can be set running again, moved on and built. -/
theorem running_after_abort :
    ∃ before write after, abortSample.moves abortBetween = before ++ write :: after ∧
      write.side = .left ∧ write.exchange = ⟨.update (.setOrderStatus 5 .abort), .ok ()⟩ ∧
      (∃ move ∈ after, move.side = .right ∧ move.call.submits = true) ∧
      ∃ move ∈ after,
        (move.after.store.answer (.order 5)).map (fun order => (order.status, order.stepIndex)) =
          some (.running, 2) ∧
        move.after.store.jobs.map (fun job => (job.id, job.order, job.status)) =
          [(9, 5, .success), (10, 5, .running)] := by
  have hWrite : ((abortSample.moves abortBetween).map fun move => (move.side, move.exchange))[4]? =
      some (.left, ⟨.update (.setOrderStatus 5 .abort), .ok ()⟩) := rfl
  have hSubmit : (((abortSample.moves abortBetween).drop 5).map fun move =>
      (move.side, move.call.submits))[21]? = some (.right, true) := by decide +kernel
  have hEnd : (((abortSample.moves abortBetween).drop 5).map fun move =>
      ((move.after.store.answer (.order 5)).map fun order => (order.status, order.stepIndex),
        move.after.store.jobs.map fun job => (job.id, job.order, job.status)))[22]? =
      some (some (.running, 2), [(9, 5, .success), (10, 5, .running)]) := by decide +kernel
  obtain ⟨write, hSplit, hSeen⟩ := split_of_getElem? hWrite
  obtain ⟨hSide, hAborts⟩ := Prod.mk.inj hSeen
  obtain ⟨submit, hSubmit, hSeen⟩ := List.mem_map.mp (List.mem_of_getElem? hSubmit)
  obtain ⟨last, hLast, hSeen'⟩ := List.mem_map.mp (List.mem_of_getElem? hEnd)
  exact ⟨_, write, _, hSplit, hSide, hAborts, ⟨submit, hSubmit, Prod.mk.inj hSeen⟩,
    last, hLast, Prod.mk.inj hSeen'⟩

end Interleaving

end DeliveryPipeline

import DeliveryPipeline.Proofs.Interleaving.Basic
import DeliveryPipeline.Proofs.Session.Finished
import DeliveryPipeline.Proofs.Session.Orders

/-! # What moves do to orders and jobs

An order that was found stays, and its status changes only when it is written. A job keeps its place,
and has the status that was last written to it. So the status of either can be read off the moves.
-/

namespace DeliveryPipeline

set_option autoImplicit false

theorem World.answer_order_reply {world : World} {id : Int64} {order : Order}
    (found : world.store.answer (.order id) = some order) (disturbance : Disturbance) (c : Call) :
    ∃ order', (world.reply disturbance c).2.store.answer (.order id) = some order' ∧
      (order'.status = order.status ∨ c.orderStatus? = some (id, order'.status)) := by
  rcases world.store_reply disturbance c with hSame | ⟨u, rfl, hStore⟩
  · rw [hSame]
    exact ⟨order, found, .inl rfl⟩
  · rw [hStore]
    exact Store.answer_order_update found u

namespace Interleaving

def StoredIfFound (id : Int64) (moves : List Move) (world : World) : Prop :=
  ∀ order : Order, (∃ move ∈ moves, move.exchange = ⟨.lookup (.order id), .ok (some order)⟩) →
    ∃ order', world.store.answer (.order id) = some order'

theorem StoredIfFound.move {id : Int64} {moves : List Move} {world : World}
    (h : StoredIfFound id moves world) (turn : Turn) (c : Call) :
    StoredIfFound id (moves ++ [world.move turn c]) (world.move turn c).after := by
  rintro order ⟨move, hMove, hFound⟩
  have hStored : ∃ order', world.store.answer (.order id) = some order' := by
    rcases List.mem_append.mp hMove with hMove | hMove
    · exact h order ⟨move, hMove, hFound⟩
    · rw [List.mem_singleton.mp hMove] at hFound
      obtain ⟨rfl, hReply⟩ := World.eq_of_move_exchange hFound
      exact ⟨order, World.answer_of_lookup_order hReply⟩
  obtain ⟨order', hOrder⟩ := hStored
  obtain ⟨order'', hOrder', -⟩ := World.answer_order_reply hOrder turn.disturbance c
  exact ⟨order'', hOrder'⟩

end Interleaving

def Exchange.written? (e : Exchange) (id : Int64) : Option JobStatus :=
  match e.call.jobStatus? with
  | some (changed, status) => if changed = id && e.reply.isOk then some status else none
  | none => none

theorem Store.answer_job_update_of_ne {store : Store} {id : Int64} {job : Job}
    (found : store.answer (.job id) = some job) {u : Update}
    (other : ∀ status, Call.jobStatus? (.update u) ≠ some (id, status)) :
    (store.update u).2.answer (.job id) = some job := by
  cases u with
  | setOrderStatus | moveOrder => exact found
  | startJob changed run =>
    have hNe : id ≠ changed := fun hId => other .running (by rw [hId]; rfl)
    refine Eq.trans ?_ found
    exact store.answer_changeJob_of_ne hNe _ fun _ => rfl
  | setJobStatus changed status =>
    have hNe : id ≠ changed := fun hId => other status (by rw [hId]; rfl)
    refine Eq.trans ?_ found
    exact store.answer_changeJob_of_ne hNe _ fun _ => rfl
  | insertJob draft =>
    rcases store.insertJob_cases draft with ⟨new, hInsert, _⟩ | ⟨e, hInsert⟩ | ⟨ids, hInsert⟩
    · rw [show store.update (.insertJob draft) = _ from hInsert]
      exact answer_addJob_of_found found _
    all_goals
      rw [show store.update (.insertJob draft) = _ from hInsert]
      exact found
  | addConfirmation draft =>
    unfold update addConfirmation
    dsimp only
    split <;> exact found

theorem Store.answer_job_update_of_eq {store : Store} {id : Int64} {job : Job}
    (found : store.answer (.job id) = some job) {u : Update} {status : JobStatus}
    (writes : Call.jobStatus? (.update u) = some (id, status)) :
    (∀ draft, u ≠ .insertJob draft) ∧ ∃ answer store' job', store.update u = (.ok answer, store') ∧
      store'.answer (.job id) = some job' ∧ job'.status = status ∧ ∀ project order stage kind,
        job'.isAt project order stage kind = job.isAt project order stage kind := by
  cases u with
  | startJob changed run =>
    cases writes
    refine ⟨by simp, (), _, _, rfl, store.answer_changeJob found _ fun _ => rfl, rfl, fun _ _ _ _ => rfl⟩
  | setJobStatus changed status =>
    cases writes
    refine ⟨by simp, (), _, _, rfl, store.answer_changeJob found _ fun _ => rfl, rfl, fun _ _ _ _ => rfl⟩
  | setOrderStatus | moveOrder | insertJob | addConfirmation => cases writes

theorem Exchange.written?_of_ne {c : Call} {id : Int64}
    (other : ∀ status, c.jobStatus? ≠ some (id, status)) (reply : c.Reply) :
    Exchange.written? ⟨c, reply⟩ id = none := by
  unfold Exchange.written?
  split
  · rename_i changed status hWrites
    have hNe : changed ≠ id := fun hId => other status (hId ▸ hWrites)
    simp [hNe]
  · rfl

theorem World.answer_job_reply {world : World} {id : Int64} {job : Job}
    (found : world.store.answer (.job id) = some job) (disturbance : Disturbance) (c : Call) :
    ∃ job', (world.reply disturbance c).2.store.answer (.job id) = some job' ∧
      job'.status = (Exchange.written? ⟨c, (world.reply disturbance c).1⟩ id).getD job.status ∧
      ∀ project order stage kind,
        job'.isAt project order stage kind = job.isAt project order stage kind := by
  by_cases hWrites : ∃ status, c.jobStatus? = some (id, status)
  · obtain ⟨status, hWrites⟩ := hWrites
    cases c with
    | lookup _ | errand _ => cases hWrites
    | update u =>
      obtain ⟨hPlain, answer, store', job', hApplied, hFound', hStatus, hPlace⟩ :=
        Store.answer_job_update_of_eq found hWrites
      rcases World.reply_update_eq hApplied hPlain disturbance with ⟨e, hReply⟩ | hReply
      · rw [hReply]
        exact ⟨job, found, by simp [Exchange.written?, hWrites, Except.isOk, Except.toBool],
          fun _ _ _ _ => rfl⟩
      · rw [hReply]
        exact ⟨job', hFound', by simp [Exchange.written?, hWrites, Except.isOk, Except.toBool, hStatus],
          hPlace⟩
  · have hOther : ∀ status, c.jobStatus? ≠ some (id, status) := fun status h => hWrites ⟨status, h⟩
    refine ⟨job, ?_, by rw [Exchange.written?_of_ne hOther]; rfl, fun _ _ _ _ => rfl⟩
    rcases world.store_reply disturbance c with hSame | ⟨u, rfl, hStore⟩
    · rw [hSame]
      exact found
    · rw [hStore]
      exact Store.answer_job_update_of_ne found hOther

def Exchange.created? : Exchange → Option Int64
  | ⟨.update (.insertJob _), .ok (.created id)⟩ => some id
  | _ => none

theorem Exchange.created?_eq_some_iff {e : Exchange} {id : Int64} :
    e.created? = some id ↔ ∃ draft, e = ⟨.update (.insertJob draft), .ok (.created id)⟩ := by
  constructor
  · intro h
    unfold created? at h
    split at h
    · cases h
      exact ⟨_, rfl⟩
    · cases h
  · rintro ⟨draft, rfl⟩
    rfl

theorem World.store_of_created {world : World} {disturbance : Disturbance} {draft : JobDraft} {id : Int64}
    (h : (world.reply disturbance (.update (.insertJob draft))).1 = .ok (.created id)) :
    (∀ job ∈ world.store.jobs, job.id < id) ∧
      (world.reply disturbance (.update (.insertJob draft))).2.store =
        { world.store with jobs := world.store.jobs ++ [Job.ofDraft id draft] } := by
  rcases world.reply_insertJob disturbance draft with ⟨id', hAbove, -, hReply⟩ | ⟨reply, hRefused, hReply⟩
  · rw [hReply] at h ⊢
    cases h
    exact ⟨hAbove, rfl⟩
  · rw [hReply] at h
    exact absurd h (hRefused id)

end DeliveryPipeline

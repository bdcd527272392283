import DeliveryPipeline.Proofs.Store
import DeliveryPipeline.World

/-! # What a call leaves behind

Lookups leave the world as it is, errands leave the store as it is, and an update either changes the
store as the store says or not at all.
-/

namespace DeliveryPipeline.World

set_option autoImplicit false

theorem reply_lookup (world : World) (disturbance : Disturbance) (l : Lookup) :
    (world.reply disturbance (.lookup l)).2 = world := by
  cases disturbance <;> rfl

theorem answer_of_reply_lookup {world : World} {disturbance : Disturbance} {l : Lookup} {answer : l.Answer}
    (h : (world.reply disturbance (.lookup l)).1 = .ok answer) :
    answer = world.store.answer l ∨ answer = l.nothing := by
  cases disturbance with
  | storeFails e => cases h
  | findsNothing => exact .inr (Except.ok.inj h).symm
  | none | errandFails _ | scopeBusy _ => exact .inl (Except.ok.inj h).symm

theorem answer_of_found {world : World} {disturbance : Disturbance} {l : Lookup} {answer : l.Answer}
    (h : (world.reply disturbance (.lookup l)).1 = .ok answer) (found : answer ≠ l.nothing) :
    world.store.answer l = answer :=
  ((answer_of_reply_lookup h).resolve_right found).symm

theorem answer_of_lookup_order {world : World} {disturbance : Disturbance} {id : Int64}
    {order : Order} (h : (world.reply disturbance (.lookup (.order id))).1 = .ok (some order)) :
    world.store.answer (.order id) = some order :=
  answer_of_found h (Option.some_ne_none order)

theorem answerErrand_eq_ok (world : World) (e : Errand) :
    ∃ answer after, world.answerErrand e = (.ok answer, after) ∧ after.store = world.store := by
  cases e <;> exact ⟨_, _, rfl, rfl⟩

theorem reply_errand (world : World) (disturbance : Disturbance) (e : Errand) :
    (∃ failure, world.reply disturbance (.errand e) = (.error failure, world)) ∨
      ∃ answer after, world.reply disturbance (.errand e) = (.ok answer, after) ∧
        after.store = world.store := by
  cases disturbance with
  | errandFails failure => exact .inl ⟨failure, rfl⟩
  | none | storeFails _ | findsNothing | scopeBusy _ => exact .inr (world.answerErrand_eq_ok e)

theorem reply_update (world : World) (disturbance : Disturbance) (u : Update) :
    (world.reply disturbance (.update u)).2 = world ∨
      world.reply disturbance (.update u) = world.answerUpdate u := by
  cases disturbance with
  | storeFails e => exact .inl rfl
  | scopeBusy jobs => cases u <;> first | exact .inl rfl | exact .inr rfl
  | none | findsNothing | errandFails _ => exact .inr rfl

theorem store_of_reply_update {world : World} {disturbance : Disturbance} {u : Update} {answer : u.Answer}
    (plain : ∀ draft, u ≠ .insertJob draft)
    (h : (world.reply disturbance (.update u)).1 = .ok answer) :
    (world.reply disturbance (.update u)).2.store = (world.store.update u).2 := by
  cases disturbance with
  | storeFails e => cases h
  | scopeBusy jobs => cases u <;> first | exact absurd rfl (plain _) | rfl
  | none | findsNothing | errandFails _ => rfl

theorem reply_update_eq {world : World} {u : Update} {answer : u.Answer} {store : Store}
    (applied : world.store.update u = (.ok answer, store)) (plain : ∀ draft, u ≠ .insertJob draft)
    (disturbance : Disturbance) :
    (∃ e, world.reply disturbance (.update u) = (.error e, world)) ∨
      world.reply disturbance (.update u) = (.ok answer, { world with store := store }) := by
  cases disturbance <;> cases u <;> simp_all [World.reply, World.answerUpdate]

theorem reply_insertJob (world : World) (disturbance : Disturbance) (draft : JobDraft) :
    (∃ id, (∀ job ∈ world.store.jobs, job.id < id) ∧ world.store.activeJobs draft.scope = [] ∧
      world.reply disturbance (.update (.insertJob draft)) = (.ok (.created id), { world with
        store := { world.store with jobs := world.store.jobs ++ [Job.ofDraft id draft] } })) ∨
    ∃ reply, (∀ id, reply ≠ .ok (.created id)) ∧
      world.reply disturbance (.update (.insertJob draft)) = (reply, world) := by
  have hStored : world.reply disturbance (.update (.insertJob draft)) =
      world.answerUpdate (.insertJob draft) ∨ ∃ reply, (∀ id, reply ≠ .ok (.created id)) ∧
        world.reply disturbance (.update (.insertJob draft)) = (reply, world) := by
    cases disturbance with
    | storeFails e => exact .inr ⟨.error e, by simp, rfl⟩
    | scopeBusy jobs => exact .inr ⟨.ok (.busy jobs), by simp, rfl⟩
    | none | findsNothing | errandFails _ => exact .inl rfl
  rcases hStored with hReply | hRefused
  · have hAnswer : world.answerUpdate (.insertJob draft) =
        ((world.store.insertJob draft).1, { world with store := (world.store.insertJob draft).2 }) := rfl
    rw [hReply, hAnswer]
    rcases world.store.insertJob_cases draft with ⟨id, hInsert, hAbove, hIdle⟩ | ⟨e, hInsert⟩ |
      ⟨ids, hInsert⟩
    · rw [hInsert]
      exact .inl ⟨id, hAbove, hIdle, rfl⟩
    · rw [hInsert]
      exact .inr ⟨.error e, by simp, rfl⟩
    · rw [hInsert]
      exact .inr ⟨.ok (.busy ids), by simp, rfl⟩
  · exact .inr hRefused

theorem store_reply (world : World) (disturbance : Disturbance) (c : Call) :
    (world.reply disturbance c).2.store = world.store ∨
      ∃ u, c = .update u ∧ (world.reply disturbance c).2.store = (world.store.update u).2 := by
  cases c with
  | lookup l => exact .inl (congrArg World.store (world.reply_lookup disturbance l))
  | errand e =>
    obtain ⟨failure, hReply⟩ | ⟨answer, after, hReply, hStore⟩ := world.reply_errand disturbance e
    · exact .inl (by rw [hReply])
    · exact .inl (by rw [hReply]; exact hStore)
  | update u =>
    obtain hSame | hReply := world.reply_update disturbance u
    · exact .inl (congrArg World.store hSame)
    · exact .inr ⟨u, rfl, by rw [hReply]; rfl⟩

end DeliveryPipeline.World

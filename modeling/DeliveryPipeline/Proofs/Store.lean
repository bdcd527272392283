import DeliveryPipeline.Store
import Mathlib.Data.List.Forall2

/-! # How updates change the store

An update of a record reaches the first record with its number and no other; a new number lies above
all that are there. So the records before and after an update go together one by one, and a new job is
the only one with its number.
-/

namespace DeliveryPipeline

set_option autoImplicit false

open Store

variable {α : Type} {key : α → Int64} {id : Int64} {change : α → α}

theorem forall₂_changeFirst {R : α → α → Prop} {records : List α} (same : ∀ a, R a a)
    (changed : ∀ a, records.find? (fun a => key a = id) = some a → R a (change a)) :
    List.Forall₂ R records (changeFirst key id change records) := by
  induction records with
  | nil => exact .nil
  | cons a rest ih =>
    by_cases h : key a = id
    · rw [changeFirst, if_pos h]
      exact .cons (changed a (by simp [h])) (List.forall₂_same.mpr fun b _ => same b)
    · rw [changeFirst, if_neg h]
      exact .cons (same a) (ih fun b hb => changed b (by simpa [h] using hb))

theorem find?_changeFirst (keeps : ∀ a, key (change a) = key a) (records : List α) :
    (changeFirst key id change records).find? (fun a => key a = id) =
      (records.find? fun a => key a = id).map change := by
  induction records with
  | nil => rfl
  | cons a rest ih =>
    by_cases h : key a = id
    · simp [changeFirst, h, keeps]
    · simp [changeFirst, h, ih]

theorem find?_changeFirst_of_ne (keeps : ∀ a, key (change a) = key a) {other : Int64}
    (h : other ≠ id) (records : List α) :
    (changeFirst key id change records).find? (fun a => key a = other) =
      records.find? fun a => key a = other := by
  induction records with
  | nil => rfl
  | cons a rest ih =>
    by_cases hKey : key a = id
    · have hOther : decide (key a = other) = false := by simpa [hKey] using h.symm
      have hChanged : decide (key (change a) = other) = false := by rwa [keeps]
      simp only [changeFirst, if_pos hKey, List.find?_cons, hChanged, hOther]
    · simp [changeFirst, hKey, List.find?_cons, ih]

theorem changeFirst_congr {other : α → α} {records : List α}
    (same : ∀ a, records.find? (fun a => key a = id) = some a → change a = other a) :
    changeFirst key id change records = changeFirst key id other records := by
  induction records with
  | nil => rfl
  | cons a rest ih =>
    by_cases h : key a = id
    · simp only [changeFirst, if_pos h, same a (by simp [h])]
    · simp only [changeFirst, if_neg h, ih fun b hb => same b (by simpa [h] using hb)]

theorem changeFirst_eq_self {records : List α}
    (same : ∀ a, records.find? (fun a => key a = id) = some a → change a = a) :
    changeFirst key id change records = records := by
  induction records with
  | nil => rfl
  | cons a rest ih =>
    by_cases h : key a = id
    · rw [changeFirst, if_pos h, same a (by simp [h])]
    · rw [changeFirst, if_neg h, ih fun b hb => same b (by simpa [h] using hb)]

theorem filter_changeFirst {p : α → Bool} {records : List α}
    (dropped : ∀ a, records.find? (fun a => key a = id) = some a → p a = false ∧ p (change a) = false) :
    (changeFirst key id change records).filter p = records.filter p := by
  induction records with
  | nil => rfl
  | cons a rest ih =>
    by_cases h : key a = id
    · obtain ⟨hBefore, hAfter⟩ := dropped a (by simp [h])
      simp [changeFirst, h, hBefore, hAfter]
    · simp only [changeFirst, if_neg h, List.filter_cons, ih fun b hb => dropped b (by simpa [h] using hb)]

theorem changeFirst_append_of_ne {records : List α} {last : α} (other : ∀ a ∈ records, key a ≠ id)
    (h : key last = id) : changeFirst key id change (records ++ [last]) = records ++ [change last] := by
  induction records with
  | nil => simp [changeFirst, h]
  | cons a rest ih =>
    obtain ⟨hHead, hRest⟩ := List.forall_mem_cons.mp other
    rw [List.cons_append, changeFirst, if_neg hHead, ih hRest, List.cons_append]

theorem find?_of_mem {records : List α} {a : α} (distinct : records.Pairwise fun a b => key a ≠ key b)
    (h : a ∈ records) : records.find? (fun b => key b = key a) = some a := by
  induction records with
  | nil => cases h
  | cons b rest ih =>
    obtain ⟨hHead, hRest⟩ := List.pairwise_cons.mp distinct
    rcases List.mem_cons.mp h with rfl | h
    · simp
    · rw [List.find?_cons_of_neg (by simpa using hHead a h)]
      exact ih hRest h

theorem mem_of_find? {records : List α} {a : α} (h : records.find? (fun a => key a = id) = some a) :
    a ∈ records ∧ key a = id :=
  ⟨List.mem_of_find?_eq_some h, by simpa using List.find?_some h⟩

theorem mem_changeFirst {records : List α} {a : α} (h : a ∈ changeFirst key id change records) :
    a ∈ records ∨ ∃ b, records.find? (fun b => key b = id) = some b ∧ a = change b := by
  induction records with
  | nil => cases h
  | cons b rest ih =>
    by_cases hKey : key b = id
    · rw [changeFirst, if_pos hKey] at h
      rcases List.mem_cons.mp h with h | h
      · exact .inr ⟨b, by simp [hKey], h⟩
      · exact .inl (List.mem_cons_of_mem b h)
    · rw [changeFirst, if_neg hKey] at h
      rcases List.mem_cons.mp h with rfl | h
      · exact .inl List.mem_cons_self
      · rcases ih h with hOld | ⟨c, hFound, hChanged⟩
        · exact .inl (List.mem_cons_of_mem b hOld)
        · exact .inr ⟨c, by simpa [hKey] using hFound, hChanged⟩

theorem pairwise_of_forall₂ {R S : α → α → Prop} {before after : List α}
    (step : List.Forall₂ R before after)
    (kept : ∀ {a b a' b'}, R a a' → R b b' → S a b → S a' b') (h : before.Pairwise S) :
    after.Pairwise S := by
  induction step with
  | nil => exact .nil
  | @cons a a' rest rest' ha hRest ih =>
    obtain ⟨hHead, hTail⟩ := List.pairwise_cons.mp h
    refine List.pairwise_cons.mpr ⟨fun b' hb' => ?_, ih hTail⟩
    obtain ⟨hLength, hPairs⟩ := List.forall₂_iff_get.mp hRest
    obtain ⟨i, hi, rfl⟩ := List.getElem_of_mem hb'
    have hi' : i < rest.length := hLength ▸ hi
    exact kept ha (hPairs i hi' hi) (hHead _ (List.getElem_mem hi'))

theorem forall₂_trans {R : α → α → Prop} (trans : ∀ {a b c}, R a b → R b c → R a c)
    {first second third : List α} (h : List.Forall₂ R first second)
    (h' : List.Forall₂ R second third) : List.Forall₂ R first third := by
  induction h generalizing third with
  | nil => exact h'
  | cons hHead _ ih =>
    cases h' with
    | cons hHead' hTail' => exact .cons (trans hHead hHead') (ih hTail')

theorem exists_of_forall₂_of_mem {β : Type} {R : α → β → Prop} {before : List α} {after : List β}
    (h : List.Forall₂ R before after) {b : β} (hb : b ∈ after) : ∃ a ∈ before, R a b := by
  induction h with
  | nil => cases hb
  | cons hHead _ ih =>
    rcases List.mem_cons.mp hb with rfl | hb
    · exact ⟨_, List.mem_cons_self, hHead⟩
    · obtain ⟨a, ha, hR⟩ := ih hb
      exact ⟨a, List.mem_cons_of_mem _ ha, hR⟩

theorem find?_of_forall₂ {R : α → α → Prop} {before after : List α} (h : List.Forall₂ R before after)
    (keys : ∀ {a b}, R a b → key b = key a) {a : α}
    (found : before.find? (fun a => key a = id) = some a) :
    ∃ b, after.find? (fun a => key a = id) = some b ∧ R a b := by
  induction h with
  | nil => cases found
  | @cons c d rest rest' hHead _ ih =>
    by_cases hKey : key c = id
    · obtain rfl : c = a := by simpa [hKey] using found
      exact ⟨d, by simp [keys hHead, hKey], hHead⟩
    · obtain ⟨b, hFound, hR⟩ := ih (by simpa [hKey] using found)
      exact ⟨b, by simpa [keys hHead, hKey] using hFound, hR⟩

theorem map_eq_of_forall₂ {β : Type} {f : α → β} {before after : List α}
    (h : List.Forall₂ (fun a b => f b = f a) before after) : after.map f = before.map f := by
  induction h with
  | nil => rfl
  | cons hHead _ ih => rw [List.map_cons, List.map_cons, hHead, ih]

theorem le_foldl_max (numbers : List Int64) (initial : Int64) :
    initial ≤ numbers.foldl max initial ∧ ∀ n ∈ numbers, n ≤ numbers.foldl max initial := by
  induction numbers generalizing initial with
  | nil => simp
  | cons n rest ih =>
    obtain ⟨hInitial, hRest⟩ := ih (max initial n)
    have hMax : max initial n = if initial ≤ n then n else initial := rfl
    rw [List.foldl_cons]
    refine ⟨by grind, List.forall_mem_cons.mpr ⟨by grind, hRest⟩⟩

theorem lt_of_nextNumber? {numbers : List Int64} {next : Int64} (h : nextNumber? numbers = some next) :
    ∀ n ∈ numbers, n < next := by
  intro n hn
  have hGreatest := (le_foldl_max numbers 0).2 n hn
  have hMaxValue : Int64.maxValue = 9223372036854775807 := rfl
  unfold nextNumber? at h
  grind

theorem sortedBy_perm (records : List α) : (sortedBy key records).Perm records :=
  List.mergeSort_perm records _

theorem pairwise_sortedBy (records : List α) :
    (sortedBy key records).Pairwise fun a b => key a ≤ key b := by
  refine (List.pairwise_mergeSort ?_ ?_ records).imp of_decide_eq_true
  · intro a b c hab hbc
    exact decide_eq_true (Int64.le_trans (of_decide_eq_true hab) (of_decide_eq_true hbc))
  · intro a b
    rcases Int64.le_total (key a) (key b) with h | h <;> simp [h]

theorem mem_sortedBy {records : List α} {a : α} : a ∈ sortedBy key records ↔ a ∈ records :=
  List.mem_mergeSort

theorem le_of_getLast?_sortedBy {records : List α} {last : α}
    (h : (sortedBy key records).getLast? = some last) : ∀ a ∈ records, key a ≤ key last := by
  intro a ha
  obtain ⟨earlier, hSorted⟩ := List.getLast?_eq_some_iff.mp h
  have hPairs : (sortedBy key records).Pairwise fun a b => key a ≤ key b := pairwise_sortedBy records
  have hIn : a ∈ sortedBy key records := mem_sortedBy.mpr ha
  rw [hSorted] at hPairs hIn
  rcases List.mem_append.mp hIn with hEarlier | hLast
  · exact (List.pairwise_append.mp hPairs).2.2 a hEarlier last (List.mem_singleton.mpr rfl)
  · rw [List.mem_singleton.mp hLast]
    exact Int64.le_refl _

theorem getLast?_sortedBy_append {records : List α} {a : α} (above : ∀ b ∈ records, key b < key a) :
    (sortedBy key (records ++ [a])).getLast? = some a := by
  have hMem : a ∈ records ++ [a] := List.mem_append_right _ (List.mem_singleton.mpr rfl)
  obtain ⟨last, hLast⟩ := Option.isSome_iff_exists.mp
    (List.getLast?_isSome.mpr (List.ne_nil_of_mem (mem_sortedBy.mpr hMem)))
  have hLe : key a ≤ key last := le_of_getLast?_sortedBy hLast a hMem
  rcases List.mem_append.mp (mem_sortedBy.mp (List.mem_of_getLast? hLast)) with hOld | hNew
  · exact absurd (above last hOld) (Int64.not_lt.mpr hLe)
  · rw [hLast, List.mem_singleton.mp hNew]

namespace Store

variable {store : Store}

theorem mem_of_answer_order {id : Int64} {order : Order} (h : store.answer (.order id) = some order) :
    order ∈ store.orders ∧ order.id = id :=
  mem_of_find? h

theorem answer_order_self {id : Int64} {order : Order} (h : store.answer (.order id) = some order) :
    store.answer (.order order.id) = some order := by
  obtain ⟨-, rfl⟩ := mem_of_answer_order h
  exact h

theorem mem_of_answer_latestJob {order : Int64} {job : Job}
    (h : store.answer (.latestJob order) = some job) : job ∈ store.jobs ∧ job.order = order := by
  have hMem := mem_sortedBy.mp (List.mem_of_getLast? h)
  simpa using hMem

theorem answer_changeOrder (store : Store) (id : Int64) (change : Order → Order)
    (keeps : ∀ order, (change order).id = order.id) :
    (store.changeOrder id change).answer (.order id) = (store.answer (.order id)).map change :=
  find?_changeFirst keeps store.orders

theorem answer_changeOrder_of_found {id : Int64} {order : Order}
    (found : store.answer (.order id) = some order) (change : Order → Order)
    (keeps : ∀ order, (change order).id = order.id) :
    (store.changeOrder id change).answer (.order id) = some (change order) :=
  (store.answer_changeOrder id change keeps).trans (congrArg (Option.map change) found)

theorem answer_order_changeOrder {id : Int64} {order : Order}
    (found : store.answer (.order id) = some order) (changed : Int64) (change : Order → Order)
    (keeps : ∀ order, (change order).id = order.id) :
    ∃ order', (store.changeOrder changed change).answer (.order id) = some order' ∧
      (order' = order ∨ changed = id ∧ order' = change order) := by
  by_cases hId : id = changed
  · rw [hId] at found ⊢
    exact ⟨change order, answer_changeOrder_of_found found change keeps, .inr ⟨rfl, rfl⟩⟩
  · refine ⟨order, ?_, .inl rfl⟩
    exact (find?_changeFirst_of_ne keeps hId store.orders).trans found

theorem answer_changeJob {id : Int64} {job : Job} (found : store.answer (.job id) = some job)
    (change : Job → Job) (keeps : ∀ job, (change job).id = job.id) :
    (store.changeJob id change).answer (.job id) = some (change job) := by
  have hFound : store.jobs.find? (fun job => job.id = id) = some job := found
  exact (find?_changeFirst keeps store.jobs).trans (by rw [hFound]; rfl)

theorem answer_changeJob_of_ne (store : Store) {id other : Int64} (h : other ≠ id) (change : Job → Job)
    (keeps : ∀ job, (change job).id = job.id) :
    (store.changeJob id change).answer (.job other) = store.answer (.job other) :=
  find?_changeFirst_of_ne keeps h store.jobs

def DistinctJobs (store : Store) : Prop := store.jobs.Pairwise fun job other => job.id ≠ other.id

theorem DistinctJobs.answer_job (distinct : store.DistinctJobs) {job : Job} (h : job ∈ store.jobs) :
    store.answer (.job job.id) = some job :=
  find?_of_mem distinct h

def DistinctOrders (store : Store) : Prop :=
  store.orders.Pairwise fun order other => order.id ≠ other.id

theorem DistinctOrders.answer_order (distinct : store.DistinctOrders) {order : Order}
    (h : order ∈ store.orders) : store.answer (.order order.id) = some order :=
  find?_of_mem distinct h

theorem activeJobs_eq_nil_iff {scope : Scope} :
    store.activeJobs scope = [] ↔
      ∀ job ∈ store.jobs, job.isActive = true → scope.covers job = false := by
  simp only [List.eq_nil_iff_forall_not_mem, activeJobs, mem_sortedBy]
  simp

def addJob (store : Store) (job : Job) : Store := { store with jobs := store.jobs ++ [job] }

theorem answer_addJob {job : Job} (above : ∀ other ∈ store.jobs, other.id < job.id) :
    (store.addJob job).answer (.job job.id) = some job := by
  have hNone : store.jobs.find? (fun other => other.id = job.id) = none := by
    apply List.find?_eq_none.mpr
    intro other hOther
    simpa using Int64.ne_of_lt (above other hOther)
  exact List.find?_append.trans (by simp [hNone])

theorem answer_addJob_of_found {id : Int64} {found : Job} (h : store.answer (.job id) = some found)
    (job : Job) : (store.addJob job).answer (.job id) = some found := by
  have hFound : store.jobs.find? (fun other => other.id = id) = some found := h
  exact List.find?_append.trans (by rw [hFound]; rfl)

theorem insertJob_cases (store : Store) (draft : JobDraft) :
    (∃ id, store.insertJob draft =
        (.ok (.created id), store.addJob (Job.ofDraft id draft)) ∧
      (∀ job ∈ store.jobs, job.id < id) ∧ store.activeJobs draft.scope = []) ∨
    (∃ e, store.insertJob draft = (.error e, store)) ∨
    ∃ ids, store.insertJob draft = (.ok (.busy ids), store) := by
  unfold insertJob
  split
  · rename_i hIdle
    split
    · rename_i id hNext
      refine .inl ⟨id, rfl, fun job hJob => ?_, hIdle⟩
      exact lt_of_nextNumber? hNext _ (List.mem_map_of_mem hJob)
    · exact .inr (.inl ⟨_, rfl⟩)
  · exact .inr (.inr ⟨_, rfl⟩)

theorem update_eq (store : Store) (u : Update) : ∃ orders jobs confirmations,
    (store.update u).2 = { store with orders, jobs, confirmations } := by
  cases u with
  | setOrderStatus | moveOrder | startJob | setJobStatus => exact ⟨_, _, _, rfl⟩
  | insertJob draft =>
    rcases store.insertJob_cases draft with ⟨id, hInsert, -⟩ | ⟨e, hInsert⟩ | ⟨ids, hInsert⟩
    all_goals exact ⟨_, _, _, congrArg Prod.snd hInsert⟩
  | addConfirmation draft =>
    unfold update addConfirmation
    dsimp only
    split <;> exact ⟨_, _, _, rfl⟩

end Store

end DeliveryPipeline

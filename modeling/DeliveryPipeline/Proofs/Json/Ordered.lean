import DeliveryPipeline.Proofs.Json.Rearranged
import Mathlib.Data.List.Induction
import Mathlib.Tactic.Common

/-! # Values with ordered fields

The fields of an object that was put together key by key stand in ascending order, and for each key the
last value counts. So every value that was read has all its objects in this order, and reading such a
value once more changes nothing.
-/

namespace DeliveryPipeline.Json

set_option autoImplicit false

variable {key : String} {value : Json} {fields sorted : List (String × Json)}

/-- Each key is greater than the one before it. -/
def Ascending (fields : List (String × Json)) : Prop := fields.Pairwise fun field next => field.1 < next.1

/-- The fields of all objects in the value are ascending. -/
inductive IsOrdered : Json → Prop
  | null : IsOrdered .null
  | bool (b : Bool) : IsOrdered (.bool b)
  | number (n : Number) : IsOrdered (.number n)
  | string (s : String) : IsOrdered (.string s)
  | array {items : List Json} (h : ∀ item ∈ items, IsOrdered item) : IsOrdered (.array items)
  | object {fields : List (String × Json)} (ascending : Ascending fields)
    (h : ∀ field ∈ fields, IsOrdered field.2) : IsOrdered (.object fields)

theorem Ascending.key_ne {first : String × Json} {rest : List (String × Json)}
    (ascending : Ascending (first :: rest)) (le : key ≤ first.1) : ∀ field ∈ rest, field.1 ≠ key := by
  rintro field hField rfl
  exact String.not_le.mpr ((List.pairwise_cons.mp ascending).1 field hField) le

theorem mem_insertField_iff (ascending : Ascending sorted) {field : String × Json} :
    field ∈ insertField key value sorted ↔ field = (key, value) ∨ (field ∈ sorted ∧ field.1 ≠ key) := by
  induction sorted with
  | nil => simp [insertField]
  | cons first rest ih =>
    obtain ⟨k, v⟩ := first
    rw [insertField]
    split_ifs with hLess hSame
    · -- the key comes before all others
      have hLe : key ≤ k := String.not_lt.mp (String.lt_asymm hLess)
      have hOthers : ∀ field ∈ (k, v) :: rest, field.1 ≠ key :=
        List.forall_mem_cons.mpr ⟨(String.ne_of_lt hLess).symm, ascending.key_ne hLe⟩
      rw [List.mem_cons]
      exact or_congr_right ⟨fun h => ⟨h, hOthers field h⟩, And.left⟩
    · subst hSame
      rw [List.mem_cons, List.mem_cons]
      refine or_congr_right ⟨fun h => ⟨.inr h, ascending.key_ne (String.le_refl _) field h⟩, ?_⟩
      rintro ⟨rfl | h, hKey⟩
      · exact absurd rfl hKey
      · exact h
    · rw [List.mem_cons, ih (List.pairwise_cons.mp ascending).2, List.mem_cons]
      have hOther : field = (k, v) → field.1 ≠ key := by
        rintro rfl h
        exact hSame h.symm
      tauto

theorem ascending_insertField (ascending : Ascending sorted) : Ascending (insertField key value sorted) := by
  induction sorted with
  | nil => exact List.pairwise_singleton _ _
  | cons first rest ih =>
    obtain ⟨hFirst, hRest⟩ := List.pairwise_cons.mp ascending
    obtain ⟨k, v⟩ := first
    rw [insertField]
    split_ifs with hLess hSame
    · refine List.pairwise_cons.mpr ⟨?_, ascending⟩
      exact List.forall_mem_cons.mpr ⟨hLess, fun field hField => String.lt_trans hLess (hFirst field hField)⟩
    · exact List.pairwise_cons.mpr ⟨hSame ▸ hFirst, hRest⟩
    · refine List.pairwise_cons.mpr ⟨?_, ih hRest⟩
      intro field hField
      rcases (mem_insertField_iff hRest).mp hField with rfl | ⟨hField, -⟩
      · exact String.not_le.mp fun h => hSame (String.le_antisymm h (String.not_lt.mp hLess))
      · exact hFirst field hField

/-- No later field has the key of this one. -/
def IsLast (field : String × Json) (fields : List (String × Json)) : Prop :=
  ∃ before after, fields = before ++ field :: after ∧ ∀ later ∈ after, later.1 ≠ field.1

theorem IsLast.mem {field : String × Json} (h : IsLast field fields) : field ∈ fields := by
  obtain ⟨before, after, rfl, -⟩ := h
  simp

theorem isLast_append_singleton_iff {field last : String × Json} :
    IsLast field (fields ++ [last]) ↔ field = last ∨ (IsLast field fields ∧ field.1 ≠ last.1) := by
  constructor
  · rintro ⟨before, after, hFields, hLater⟩
    rcases List.eq_nil_or_concat after with rfl | ⟨after, final, rfl⟩
    · exact .inl (List.singleton_inj.mp (List.append_inj_right' hFields rfl)).symm
    · rw [List.concat_eq_append, ← List.cons_append, ← List.append_assoc] at hFields
      obtain ⟨hInit, hFinal⟩ := List.append_inj' hFields rfl
      cases hFinal
      exact .inr ⟨⟨before, after, hInit, fun later h => hLater later (by simp [h])⟩,
        (hLater last (by simp)).symm⟩
  · rintro (rfl | ⟨⟨before, after, rfl, hLater⟩, hOther⟩)
    · exact ⟨fields, [], rfl, by simp⟩
    · refine ⟨before, after ++ [last], by simp, ?_⟩
      exact List.forall_mem_append.mpr ⟨hLater, List.forall_mem_singleton.mpr hOther.symm⟩

theorem exists_isLast {key : String} (h : key ∈ fields.map (·.1)) : ∃ value, IsLast (key, value) fields := by
  induction fields using List.reverseRecOn with
  | nil => cases h
  | append_singleton fields last ih =>
    by_cases hLast : last.1 = key
    · subst hLast
      exact ⟨last.2, isLast_append_singleton_iff.mpr (.inl rfl)⟩
    · obtain ⟨value, hValue⟩ := ih (by simpa [Ne.symm hLast] using h)
      exact ⟨value, isLast_append_singleton_iff.mpr (.inr ⟨hValue, Ne.symm hLast⟩)⟩

theorem exists_ofFields_ascending (fields : List (String × Json)) :
    ∃ sorted, ofFields fields = .object sorted ∧ Ascending sorted ∧
      ∀ field, field ∈ sorted ↔ IsLast field fields := by
  refine ⟨_, rfl, ?_⟩
  induction fields using List.reverseRecOn with
  | nil => exact ⟨List.Pairwise.nil, by simp [IsLast]⟩
  | append_singleton fields last ih =>
    obtain ⟨ascending, mem_iff⟩ := ih
    rw [List.foldl_append, List.foldl_cons, List.foldl_nil]
    refine ⟨ascending_insertField ascending, fun field => ?_⟩
    rw [mem_insertField_iff ascending, mem_iff, isLast_append_singleton_iff]

theorem bind_eq_ok_iff {ε α β : Type} {x : Except ε α} {f : α → Except ε β} {b : β} :
    x >>= f = .ok b ↔ ∃ a, x = .ok a ∧ f a = .ok b := by
  cases x <;> simp [bind, Except.bind]

namespace Decoder

mutual

theorem isOrdered_of_value : ∀ {tree : Tree} {value : Json}, Decoder.value tree = .ok value → value.IsOrdered
  | .null, _, h | .bool _, _, h | .number _, _, h | .text _, _, h => by
    cases h
    constructor
  | .list trees closed, _, h => by
    obtain ⟨items, hItems, h⟩ := bind_eq_ok_iff.mp h
    cases closed
    · cases h
    · cases h
      exact .array (isOrdered_of_values hItems)
  | .record entries closed, _, h => by
    obtain ⟨fields, hFields, h⟩ := bind_eq_ok_iff.mp h
    cases closed
    · cases h
    · cases h
      obtain ⟨sorted, hSorted, hAscending, mem_iff⟩ := exists_ofFields_ascending fields
      rw [hSorted]
      refine .object hAscending fun field hField => ?_
      exact isOrdered_of_entries hFields field ((mem_iff field).mp hField).mem
  | .unreadable, _, h | .broken, _, h | .deep _, _, h => by cases h

theorem isOrdered_of_values : ∀ {trees : List Tree} {items : List Json}, Decoder.values trees = .ok items →
    ∀ item ∈ items, item.IsOrdered
  | [], _, h => by
    cases h
    exact fun _ h => absurd h List.not_mem_nil
  | tree :: rest, _, h => by
    obtain ⟨item, hItem, h⟩ := bind_eq_ok_iff.mp h
    obtain ⟨more, hMore, h⟩ := bind_eq_ok_iff.mp h
    cases h
    exact List.forall_mem_cons.mpr ⟨isOrdered_of_value hItem, isOrdered_of_values hMore⟩

theorem isOrdered_of_entries : ∀ {entries : List (Tree × Tree)} {fields : List (String × Json)},
    Decoder.entries entries = .ok fields → ∀ field ∈ fields, field.2.IsOrdered
  | [], _, h => by
    cases h
    exact fun _ h => absurd h List.not_mem_nil
  | (key, tree) :: rest, _, h => by
    cases key
    case text key =>
      obtain ⟨value, hValue, h⟩ := bind_eq_ok_iff.mp h
      obtain ⟨more, hMore, h⟩ := bind_eq_ok_iff.mp h
      cases h
      exact List.forall_mem_cons.mpr ⟨isOrdered_of_value hValue, isOrdered_of_entries hMore⟩
    all_goals cases h

end

mutual

theorem exists_value : ∀ value : Json, ∃ read, Decoder.value (Tree.ofJson value) = .ok read
  | .null | .bool _ | .number _ | .string _ => ⟨_, rfl⟩
  | .array items => by
    obtain ⟨read, h⟩ := exists_values items
    exact ⟨.array read, by rw [Tree.ofJson, Decoder.value, h]; rfl⟩
  | .object fields => by
    obtain ⟨read, h⟩ := exists_entries fields
    exact ⟨ofFields read, by rw [Tree.ofJson, Decoder.value, h]; rfl⟩

theorem exists_values : ∀ items : List Json, ∃ read, Decoder.values (Tree.ofItems items) = .ok read
  | [] => ⟨_, rfl⟩
  | item :: rest => by
    obtain ⟨first, hFirst⟩ := exists_value item
    obtain ⟨more, hMore⟩ := exists_values rest
    exact ⟨first :: more, by rw [Tree.ofItems, Decoder.values, hFirst, hMore]; rfl⟩

theorem exists_entries : ∀ fields : List (String × Json), ∃ read,
    Decoder.entries (Tree.ofEntries fields) = .ok read
  | [] => ⟨_, rfl⟩
  | (key, value) :: rest => by
    obtain ⟨first, hFirst⟩ := exists_value value
    obtain ⟨more, hMore⟩ := exists_entries rest
    exact ⟨(key, first) :: more, by rw [Tree.ofEntries, Decoder.entries, hFirst, hMore]; rfl⟩

end

end Decoder

theorem Ascending.eq_of_perm (ascending : Ascending fields) (hSorted : Ascending sorted)
    (h : sorted.Perm fields) : sorted = fields :=
  h.eq_of_pairwise (fun _ _ _ _ hLess hGreater => absurd hGreater (String.lt_asymm hLess)) hSorted ascending

theorem Ascending.ofFields_of_perm (ascending : Ascending fields) {written : List (String × Json)}
    (h : written.Perm fields) : ofFields written = .object fields := by
  have hKeys : (fields.map (·.1)).Nodup :=
    List.pairwise_map.mpr (ascending.imp fun hLess => String.ne_of_lt hLess)
  obtain ⟨sorted, hSorted, hPerm⟩ := exists_ofFields ((h.map _).nodup_iff.mpr hKeys)
  obtain ⟨_, hSame, hAscending, -⟩ := exists_ofFields_ascending written
  rw [hSame] at hSorted
  cases hSorted
  rw [hSame, ascending.eq_of_perm hAscending (hPerm.trans h)]

namespace Decoder

theorem exists_entries_of_perm {matched written : List (String × Json)} (h : matched.Perm written) :
    ∀ {fields}, Decoder.entries (Tree.ofEntries matched) = .ok fields →
      ∃ read, Decoder.entries (Tree.ofEntries written) = .ok read ∧ read.Perm fields := by
  induction h with
  | nil => exact fun h => ⟨_, h, .refl _⟩
  | cons field _ ih =>
    intro _ h
    obtain ⟨value, hValue, h⟩ := bind_eq_ok_iff.mp h
    obtain ⟨more, hMore, h⟩ := bind_eq_ok_iff.mp h
    cases h
    obtain ⟨read, hRead, hPerm⟩ := ih hMore
    refine ⟨_, ?_, hPerm.cons _⟩
    rw [Tree.ofEntries, Decoder.entries, hValue, hRead]
    rfl
  | swap first second rest =>
    intro _ h
    obtain ⟨a, hFirst, h⟩ := bind_eq_ok_iff.mp h
    obtain ⟨_, hMore, h⟩ := bind_eq_ok_iff.mp h
    cases h
    obtain ⟨b, hSecond, h⟩ := bind_eq_ok_iff.mp hMore
    obtain ⟨more, hRest, h⟩ := bind_eq_ok_iff.mp h
    cases h
    refine ⟨_, ?_, .swap _ _ _⟩
    simp only [Tree.ofEntries, Decoder.entries, hFirst, hSecond, hRest]
    rfl
  | trans _ _ ih ih' =>
    intro _ h
    obtain ⟨_, h, hFirst⟩ := ih h
    obtain ⟨read, h, hSecond⟩ := ih' h
    exact ⟨read, h, hSecond.trans hFirst⟩

mutual

theorem value_of_rearranged : ∀ {value written : Json}, value.IsOrdered → value.Rearranged written →
    Decoder.value (Tree.ofJson written) = .ok value
  | _, _, _, .null | _, _, _, .bool _ | _, _, _, .number _ | _, _, _, .string _ => rfl
  | _, _, ordered, .array h => by
    have hItems := values_of_rearranged (by cases ordered; assumption) h
    rw [Tree.ofJson, Decoder.value, hItems]
    rfl
  | .object fields, _, ordered, .object h order => by
    have hAscending : Ascending fields := by cases ordered; assumption
    obtain ⟨read, hRead, hPerm⟩ :=
      exists_entries_of_perm order (entries_of_rearranged (by cases ordered; assumption) h)
    rw [Tree.ofJson, Decoder.value, hRead]
    exact congrArg Except.ok (hAscending.ofFields_of_perm hPerm)

theorem values_of_rearranged : ∀ {items written : List Json}, (∀ item ∈ items, item.IsOrdered) →
    RearrangedItems items written → Decoder.values (Tree.ofItems written) = .ok items
  | _, _, _, .nil => rfl
  | item :: rest, _, ordered, .cons h more => by
    rw [Tree.ofItems, Decoder.values, value_of_rearranged (ordered item List.mem_cons_self) h,
      values_of_rearranged (fun item hItem => ordered item (List.mem_cons_of_mem _ hItem)) more]
    rfl

theorem entries_of_rearranged : ∀ {fields matched : List (String × Json)},
    (∀ field ∈ fields, field.2.IsOrdered) → RearrangedFields fields matched →
      Decoder.entries (Tree.ofEntries matched) = .ok fields
  | _, _, _, .nil => rfl
  | (key, value) :: rest, _, ordered, .cons _ h more => by
    rw [Tree.ofEntries, Decoder.entries, value_of_rearranged (ordered (key, value) List.mem_cons_self) h,
      entries_of_rearranged (fun field hField => ordered field (List.mem_cons_of_mem _ hField)) more]
    rfl

end

end Decoder

theorem isOrdered_of_parse {text : String} {value : Json} (h : parse text = .ok value) : value.IsOrdered := by
  obtain ⟨read, hRead, h⟩ := bind_eq_ok_iff.mp h
  split at h
  · cases h
    exact Decoder.isOrdered_of_value hRead
  · cases h

theorem parse_render {value : Json} (ordered : value.IsOrdered) (fit : fits depthLimit value = true) :
    parse (render value) = .ok value := by
  rw [parse, (denotes_render fit).decodeText]
  exact Decoder.value_of_rearranged ordered (.refl value)

end DeliveryPipeline.Json

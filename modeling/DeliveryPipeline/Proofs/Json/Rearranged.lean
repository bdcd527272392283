import DeliveryPipeline.Proofs.Json.Reading

/-! # Values up to the order of their fields

Whoever writes a value may put the fields of its objects in any order, at every depth. What is written so
still fits, and of an object whose keys differ each field is found again.
-/

namespace DeliveryPipeline.Json

set_option autoImplicit false

mutual

/-- The same value, with the fields of its objects in some order. -/
inductive Rearranged : Json → Json → Prop
  | null : Rearranged .null .null
  | bool (b : Bool) : Rearranged (.bool b) (.bool b)
  | number (n : Number) : Rearranged (.number n) (.number n)
  | string (s : String) : Rearranged (.string s) (.string s)
  | array {items written : List Json} (h : RearrangedItems items written) :
    Rearranged (.array items) (.array written)
  | object {fields matched written : List (String × Json)} (h : RearrangedFields fields matched)
    (order : matched.Perm written) : Rearranged (.object fields) (.object written)

inductive RearrangedItems : List Json → List Json → Prop
  | nil : RearrangedItems [] []
  | cons {item written : Json} {items rest : List Json} (h : Rearranged item written)
    (more : RearrangedItems items rest) : RearrangedItems (item :: items) (written :: rest)

inductive RearrangedFields : List (String × Json) → List (String × Json) → Prop
  | nil : RearrangedFields [] []
  | cons {value written : Json} {fields rest : List (String × Json)} (key : String)
    (h : Rearranged value written) (more : RearrangedFields fields rest) :
    RearrangedFields ((key, value) :: fields) ((key, written) :: rest)

end

/-- The text is the value, written with the fields of its objects in some order. -/
def WrittenAs (value : Json) (text : String) : Prop :=
  ∃ written, value.Rearranged written ∧ text = render written

/-- The text can be read as the value with the fields of its objects in some order. -/
def HeldIn (value : Json) (text : String) : Prop :=
  ∃ written, value.Rearranged written ∧ Denotes text written

mutual

theorem Rearranged.refl : ∀ value : Json, value.Rearranged value
  | .null => .null
  | .bool b => .bool b
  | .number n => .number n
  | .string s => .string s
  | .array items => .array (RearrangedItems.refl items)
  | .object fields => .object (RearrangedFields.refl fields) (.refl fields)

theorem RearrangedItems.refl : ∀ items : List Json, RearrangedItems items items
  | [] => .nil
  | item :: rest => .cons (.refl item) (.refl rest)

theorem RearrangedFields.refl : ∀ fields : List (String × Json), RearrangedFields fields fields
  | [] => .nil
  | (key, value) :: rest => .cons key (.refl value) (.refl rest)

end

theorem Rearranged.eq_null {value : Json} (h : value.Rearranged .null) : value = .null := by
  cases h
  rfl

theorem itemsFit_iff {room : Nat} {items : List Json} :
    itemsFit room items = true ↔ ∀ item ∈ items, fits room item = true := by
  induction items with
  | nil => simp [itemsFit]
  | cons item rest ih => simp [itemsFit, ih]

theorem fieldsFit_iff {room : Nat} {fields : List (String × Json)} :
    fieldsFit room fields = true ↔ ∀ field ∈ fields, fits room field.2 = true := by
  induction fields with
  | nil => simp [fieldsFit]
  | cons field rest ih => simp [fieldsFit, ih]

mutual

theorem Rearranged.fits : ∀ {room : Nat} {value written : Json}, value.Rearranged written →
    fits room value = true → fits room written = true
  | _, _, _, .null, fit | _, _, _, .bool _, fit | _, _, _, .number _, fit | _, _, _, .string _, fit => fit
  | 0, _, _, .array _, fit | 0, _, _, .object .., fit => by cases fit
  | room + 1, _, _, .array h, fit => h.fits fit
  | room + 1, _, _, .object h order, fit => by
    have hMatched := fieldsFit_iff.mp (h.fits fit)
    apply fieldsFit_iff.mpr
    intro field hField
    exact hMatched field (order.mem_iff.mpr hField)

theorem RearrangedItems.fits : ∀ {room : Nat} {items written : List Json},
    RearrangedItems items written → itemsFit room items = true → itemsFit room written = true
  | _, _, _, .nil, fit => fit
  | room, _, _, .cons h more, fit => by
    rw [itemsFit, Bool.and_eq_true] at fit ⊢
    exact ⟨h.fits fit.1, more.fits fit.2⟩

theorem RearrangedFields.fits : ∀ {room : Nat} {fields written : List (String × Json)},
    RearrangedFields fields written → fieldsFit room fields = true → fieldsFit room written = true
  | _, _, _, .nil, fit => fit
  | room, _, _, .cons _ h more, fit => by
    rw [fieldsFit, Bool.and_eq_true] at fit ⊢
    exact ⟨h.fits fit.1, more.fits fit.2⟩

end

theorem WrittenAs.heldIn {value : Json} {text : String} (h : value.WrittenAs text)
    (fit : fits depthLimit value = true) : value.HeldIn text := by
  obtain ⟨written, hRearranged, rfl⟩ := h
  exact ⟨written, hRearranged, denotes_render (hRearranged.fits fit)⟩

/-- The written fields go by different keys, and every given field is among them with its value rearranged. -/
structure Carries (written fields : List (String × Json)) : Prop where
  distinct : (written.map (·.1)).Nodup
  value : ∀ {key value}, (key, value) ∈ fields → ∃ found, (key, found) ∈ written ∧ value.Rearranged found

theorem RearrangedFields.keys {fields written : List (String × Json)} (h : RearrangedFields fields written) :
    written.map (·.1) = fields.map (·.1) := by
  induction fields generalizing written with
  | nil =>
    cases h
    rfl
  | cons field rest ih =>
    cases h with
    | cons key hFirst hRest => rw [List.map_cons, List.map_cons, ih hRest]

theorem RearrangedFields.exists_mem {fields written : List (String × Json)}
    (h : RearrangedFields fields written) {key : String} {value : Json} (mem : (key, value) ∈ fields) :
    ∃ found, (key, found) ∈ written ∧ value.Rearranged found := by
  induction fields generalizing written with
  | nil => cases mem
  | cons field rest ih =>
    cases h with
    | cons first hFirst hRest =>
      rcases List.mem_cons.mp mem with hSame | hMem
      · cases hSame
        exact ⟨_, List.mem_cons_self, hFirst⟩
      · obtain ⟨found, hFound, hRearranged⟩ := ih hRest hMem
        exact ⟨found, List.mem_cons_of_mem _ hFound, hRearranged⟩

theorem insertField_perm {key : String} (value : Json) {sorted : List (String × Json)}
    (fresh : key ∉ sorted.map (·.1)) : (insertField key value sorted).Perm ((key, value) :: sorted) := by
  induction sorted with
  | nil => exact .refl _
  | cons field rest ih =>
    obtain ⟨k, v⟩ := field
    rw [List.map_cons, List.mem_cons, not_or] at fresh
    unfold insertField
    split
    · exact .refl _
    · rw [if_neg fresh.1]
      exact ((ih fresh.2).cons (k, v)).trans (.swap _ _ rest)

theorem exists_ofFields {fields : List (String × Json)} (distinct : (fields.map (·.1)).Nodup) :
    ∃ sorted, ofFields fields = .object sorted ∧ sorted.Perm fields := by
  suffices h : ∀ (fields done : List (String × Json)), ((done ++ fields).map (·.1)).Nodup →
      (fields.foldl (fun sorted field => insertField field.1 field.2 sorted) done).Perm
        (done ++ fields) from
    ⟨_, rfl, h fields [] distinct⟩
  -- what is inserted is fresh among the fields before it, which the induction has to carry along
  intro fields
  induction fields with
  | nil => simp
  | cons field rest ih =>
    intro done hDistinct
    have hMiddle : (done ++ field :: rest).Perm (field :: done ++ rest) := List.perm_middle
    have hNodup := (hMiddle.map (·.1)).nodup_iff.mp hDistinct
    have hFresh : field.1 ∉ done.map (·.1) := by
      rw [List.cons_append, List.map_cons, List.nodup_cons, List.map_append, List.mem_append] at hNodup
      exact fun h => hNodup.1 (.inl h)
    have hInserted : (insertField field.1 field.2 done ++ rest).Perm (field :: done ++ rest) :=
      (insertField_perm field.2 hFresh).append_right rest
    rw [List.foldl_cons]
    exact ((ih _ ((hInserted.map (·.1)).nodup_iff.mpr hNodup)).trans hInserted).trans hMiddle.symm

theorem Rearranged.carries {fields : List (String × Json)} {written : Json}
    (distinct : (fields.map (·.1)).Nodup) (h : (ofFields fields).Rearranged written) :
    ∃ found, written = .object found ∧ Carries found fields := by
  obtain ⟨sorted, hSorted, hPerm⟩ := exists_ofFields distinct
  rw [hSorted] at h
  cases h with
  | @object _ matched found h order =>
    refine ⟨found, rfl, ?_, ?_⟩
    · have hMatched : (matched.map (·.1)).Nodup := by
        rw [h.keys]
        exact (hPerm.map _).nodup_iff.mpr distinct
      exact (order.map _).nodup_iff.mp hMatched
    · intro key value hMem
      obtain ⟨written, hWritten, hRearranged⟩ := h.exists_mem (hPerm.mem_iff.mpr hMem)
      exact ⟨written, order.mem_iff.mp hWritten, hRearranged⟩

theorem fits_ofFields {room : Nat} {fields : List (String × Json)} (distinct : (fields.map (·.1)).Nodup)
    (fit : ∀ field ∈ fields, fits room field.2 = true) : fits (room + 1) (ofFields fields) = true := by
  obtain ⟨sorted, hSorted, hPerm⟩ := exists_ofFields distinct
  rw [hSorted]
  apply fieldsFit_iff.mpr
  intro field hField
  exact fit field (hPerm.mem_iff.mp hField)

end DeliveryPipeline.Json

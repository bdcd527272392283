import DeliveryPipeline.Proofs.Json.Rearranged

/-! # Records are read from their written fields

A record type is read in two passes, one that checks every field and one that takes the values. Both find
what they look for, wherever the fields stand: a key is written once, so its value is the only one.
-/

namespace DeliveryPipeline.Json

set_option autoImplicit false

mutual

theorem Tree.skip_ofJson : ∀ value : Json, (Tree.ofJson value).skip = .ok ()
  | .null | .bool _ | .number _ | .string _ => rfl
  | .array items => by
    rw [Tree.ofJson, Tree.skip, Tree.skipItems_ofItems items]
    rfl
  | .object fields => by
    rw [Tree.ofJson, Tree.skip, Tree.skipFields_ofEntries fields]
    rfl

theorem Tree.skipItems_ofItems : ∀ items : List Json, Tree.skipItems (Tree.ofItems items) = .ok ()
  | [] => rfl
  | item :: rest => by
    rw [Tree.ofItems, Tree.skipItems, Tree.skip_ofJson item, Tree.skipItems_ofItems rest]
    rfl

theorem Tree.skipFields_ofEntries : ∀ fields : List (String × Json),
    Tree.skipFields (Tree.ofEntries fields) = .ok ()
  | [] => rfl
  | (_, value) :: rest => by
    rw [Tree.ofEntries, Tree.skipFields, Tree.skip_ofJson value, Tree.skipFields_ofEntries rest]
    rfl

end

namespace Fields

variable {α β : Type} {written : List (String × Json)}

theorem entry?_ofEntries {key : String} {value : Json} (distinct : (written.map (·.1)).Nodup)
    (mem : (key, value) ∈ written) : entry? [key] (Tree.ofEntries written) = some (Tree.ofJson value) := by
  induction written with
  | nil => cases mem
  | cons field rest ih =>
    obtain ⟨first, found⟩ := field
    rw [List.map_cons, List.nodup_cons] at distinct
    rw [Tree.ofEntries, entry?]
    rcases List.mem_cons.mp mem with hSame | hMem
    · cases hSame
      simp
    · have hOther : first ≠ key := by
        rintro rfl
        exact distinct.1 (List.mem_map.mpr ⟨_, hMem, rfl⟩)
      rw [if_neg (by simpa using hOther)]
      exact ih distinct.2 hMem

/-- The field goes by one key, and a value that is written under it passes its check. -/
def Admits (written : List (String × Json)) (spec : FieldSpec) : Prop :=
  ∃ key, spec.keys = [key] ∧ ∀ value, (key, value) ∈ written → spec.check (Tree.ofJson value) = .ok ()

theorem scan_ofEntries {specs : List FieldSpec} {seen : List Nat} (distinct : (written.map (·.1)).Nodup)
    (admits : ∀ spec ∈ specs, Admits written spec)
    (fresh : ∀ i ∈ seen, ∀ spec, specs[i]? = some spec → ∀ key ∈ written.map (·.1), key ∉ spec.keys) :
    scan specs (Tree.ofEntries written) seen = .ok () := by
  -- no key of a field that was seen is still to come, so the rest goes on with one field more
  induction written generalizing seen with
  | nil => rfl
  | cons field rest ih =>
    obtain ⟨key, value⟩ := field
    rw [List.map_cons, List.nodup_cons] at distinct
    have hRest : ∀ spec ∈ specs, Admits rest spec := by
      intro spec hSpec
      obtain ⟨key, hKeys, hCheck⟩ := admits spec hSpec
      exact ⟨key, hKeys, fun value hValue => hCheck value (List.mem_cons_of_mem _ hValue)⟩
    have hFresh : ∀ i ∈ seen, ∀ spec, specs[i]? = some spec → ∀ key ∈ rest.map (·.1), key ∉ spec.keys :=
      fun i hi spec hSpec key hKey => fresh i hi spec hSpec key (List.mem_cons_of_mem _ hKey)
    rw [Tree.ofEntries, scan]
    cases hFound : specs.findIdx? fun spec => spec.keys.contains key with
    | none =>
      simp only [Tree.skip_ofJson]
      exact ih distinct.2 hRest hFresh
    | some i =>
      obtain ⟨hi, hContains, -⟩ := List.findIdx?_eq_some_iff_getElem.mp hFound
      have hSpec : specs[i]? = some specs[i] := List.getElem?_eq_getElem hi
      have hMem : key ∈ specs[i].keys := List.contains_iff_mem.mp hContains
      have hUnseen : seen.contains i = false := by
        apply Bool.eq_false_iff.mpr
        intro hSeen
        exact fresh i (List.contains_iff_mem.mp hSeen) _ hSpec key List.mem_cons_self hMem
      obtain ⟨own, hKeys, hCheck⟩ := admits _ (List.getElem_mem hi)
      rw [hKeys, List.mem_singleton] at hMem
      subst hMem
      simp only [hUnseen, hSpec, hCheck value List.mem_cons_self]
      apply ih distinct.2 hRest
      intro j hj spec hj' other hOther
      rcases List.mem_cons.mp hj with rfl | hj
      · -- the field goes by this key only, and the key is not written again
        rw [hSpec] at hj'
        cases hj'
        rw [hKeys, List.mem_singleton]
        rintro rfl
        exact distinct.1 hOther
      · exact hFresh j hj spec hj' other hOther

/-- From the written fields the value is put together. -/
structure Recovers (f : Fields α) (written : List (String × Json)) (a : α) : Prop where
  admits : ∀ spec ∈ f.specs, Admits written spec
  ofEntries : f.ofEntries (Tree.ofEntries written) = .ok a

theorem Recovers.decoder {f : Fields α} {a : α} (h : f.Recovers written a)
    (distinct : (written.map (·.1)).Nodup) : f.decoder (Tree.ofJson (.object written)) = .ok a := by
  have hScan : scan f.specs (Tree.ofEntries written) [] = .ok () :=
    scan_ofEntries distinct h.admits fun _ hi => absurd hi List.not_mem_nil
  rw [Tree.ofJson, Fields.decoder, decodeEntries, hScan]
  exact h.ofEntries

theorem recovers_pure (a : α) : Recovers (Pure.pure a) written a where
  admits _ h := absurd h List.not_mem_nil
  ofEntries := rfl

theorem Recovers.seq {f : Fields (α → β)} {x : Fields α} {g : α → β} {a : α} (hf : f.Recovers written g)
    (hx : x.Recovers written a) : (f <*> x).Recovers written (g a) where
  admits spec h := (List.mem_append.mp h).elim (hf.admits spec) (hx.admits spec)
  ofEntries := by
    change ((f.ofEntries _).bind fun g => (x.ofEntries _).bind fun a => .ok (g a)) = _
    rw [hf.ofEntries, hx.ofEntries]
    rfl

theorem Recovers.map {g : α → β} {x : Fields α} {a : α} (hx : x.Recovers written a) :
    (g <$> x).Recovers written (g a) :=
  (recovers_pure g).seq hx

theorem recovers_field {key : String} {value : Json} {decode : Decoder α} {a : α}
    (distinct : (written.map (·.1)).Nodup) (mem : (key, value) ∈ written)
    (reads : decode (Tree.ofJson value) = .ok a) (absent short : Option α) :
    (field [key] decode absent short).Recovers written a where
  admits spec h := by
    rw [field, List.mem_singleton] at h
    subst h
    refine ⟨key, rfl, ?_⟩
    intro other hOther
    have hSame := (entry?_ofEntries distinct hOther).symm.trans (entry?_ofEntries distinct mem)
    rw [Option.some.inj hSame]
    exact congrArg (Except.map fun _ => ()) reads
  ofEntries := by
    simp only [field, entry?_ofEntries distinct mem, reads]

end Fields

end DeliveryPipeline.Json

import DeliveryPipeline.Proofs.Json.Fields
import DeliveryPipeline.Wire.Basic

/-! # What is written is read

A value is read as it was written if whoever reads what was written of it gets this value back, whichever
order its fields were written in. This goes from the items to a list and from the fields to a record. A wire
form is lawful if all of its values are read as they were written, so lists and records of values with
lawful wire forms have lawful wire forms again.
-/

namespace DeliveryPipeline

set_option autoImplicit false

open Json (Carries Decoder Fields Tree)

variable {α : Type} {depth : Nat}

/-- Whoever reads the value as it was written, its fields in any order, gets this value back. -/
def Wire.ReadsBack [Wire α] (a : α) : Prop :=
  ∀ written, (Wire.encode a).Rearranged written → Json.decodeValue Wire.decode written = .ok a

namespace Wire.ReadsBack

theorem items [Wire α] {items : List α} (h : ∀ a ∈ items, ReadsBack a) {written : List Json}
    (hWritten : Json.RearrangedItems (items.map Wire.encode) written) :
    Decoder.items Wire.decode (Tree.ofItems written) = .ok items := by
  induction items generalizing written with
  | nil =>
    cases hWritten
    rfl
  | cons a rest ih =>
    cases hWritten with
    | cons hFirst hRest =>
      have hRead := h a List.mem_cons_self _ hFirst
      rw [Json.decodeValue] at hRead
      rw [Tree.ofItems, Decoder.items, hRead, ih (fun b hb => h b (List.mem_cons_of_mem _ hb)) hRest]
      rfl

theorem list [Wire α] {items : List α} (h : ∀ a ∈ items, ReadsBack a) : ReadsBack items := by
  intro written hWritten
  cases hWritten with
  | array hItems =>
    change ((Decoder.items Wire.decode (Tree.ofItems _)).bind _) = _
    rw [ReadsBack.items h hItems]
    rfl

theorem record [WireRecord α] {a : α} (distinct : ((WireRecord.entries a).map (·.1)).Nodup)
    (recovers : ∀ {written}, Carries written (WireRecord.entries a) →
      (WireRecord.fields : Fields α).Recovers written a) : ReadsBack a := by
  intro written h
  obtain ⟨found, rfl, hCarries⟩ := h.carries distinct
  exact (recovers hCarries).decoder hCarries.distinct

theorem field [Wire α] {a : α} (h : ReadsBack a) {written fields : List (String × Json)}
    (carries : Carries written fields) {key : String} {absent short : Option α}
    (mem : (key, Wire.encode a) ∈ fields) :
    (Fields.field [key] Wire.decode absent short).Recovers written a := by
  obtain ⟨found, hFound, hRearranged⟩ := carries.value mem
  exact Fields.recovers_field carries.distinct hFound (h found hRearranged) absent short

end Wire.ReadsBack

/-- What is written is read as it was, and nests no deeper than `depth`. -/
class LawfulWire (α : Type) [Wire α] (depth : outParam Nat) : Prop where
  decode : ∀ {a : α} {written : Json}, (Wire.encode a).Rearranged written →
    Json.decodeValue Wire.decode written = .ok a
  fits : ∀ {room : Nat}, depth ≤ room → ∀ a : α, Json.fits room (Wire.encode a) = true

/-- The fields of a record go by different keys, and from the entries of a value its fields get this value. -/
class LawfulRecord (α : Type) [WireRecord α] (depth : outParam Nat) : Prop where
  recovers : ∀ {a : α} {written : List (String × Json)}, Carries written (WireRecord.entries a) →
    (WireRecord.fields : Fields α).Recovers written a
  distinct : ∀ a : α, ((WireRecord.entries a).map (·.1)).Nodup := by
    intro a
    simp [WireRecord.entries]
  fits : ∀ {room : Nat}, depth ≤ room → ∀ a : α, ∀ entry ∈ WireRecord.entries a,
      Json.fits room entry.2 = true := by
    intro room enough a
    simp [WireRecord.entries, LawfulWire.fits, enough]

namespace LawfulWire

theorem readsBack [Wire α] [LawfulWire α depth] (a : α) : Wire.ReadsBack a := fun _ => decode

theorem ofText [Wire α] [LawfulWire α depth] {a : α} {text : String} (h : (Wire.encode a).HeldIn text) :
    Wire.ofText text = .ok a := by
  obtain ⟨written, hRearranged, hDenotes⟩ := h
  rw [Wire.ofText, hDenotes.decodeText, decode hRearranged]

instance : LawfulWire String 0 where
  decode h := by
    cases h
    rfl
  fits _ _ := by simp [Wire.encode, Json.fits]

instance : LawfulWire Bool 0 where
  decode h := by
    cases h
    rfl
  fits _ _ := by simp [Wire.encode, Json.fits]

instance : LawfulWire Int64 0 where
  decode h := by
    cases h
    exact Json.decodeValue_int64 _
  fits _ n := Json.fits_ofInt64 _ n

instance : LawfulWire Int32 0 where
  decode h := by
    cases h
    exact Json.decodeValue_int32 _
  fits _ n := Json.fits_ofInt32 _ n

theorem ofNamed [Named α] (reads : ∀ a : α, Named.ofName? (Named.name a) = some a) :
    @LawfulWire α Wire.ofNamed 0 := by
  let _ : Wire α := Wire.ofNamed
  constructor
  · intro a written h
    cases h
    simp only [Json.decodeValue, Wire.decode, Json.Tree.ofJson, Json.Decoder.choice, reads a]
  · intro room _ a
    simp [Wire.encode, Json.fits]

instance [Wire α] [LawfulWire α depth] : LawfulWire (List α) (depth + 1) where
  decode := Wire.ReadsBack.list (fun a _ => readsBack a) _
  fits {room} enough items := by
    obtain ⟨room, rfl⟩ : ∃ less, room = less + 1 := ⟨room - 1, by omega⟩
    change Json.itemsFit room (items.map Wire.encode) = true
    rw [Json.itemsFit_iff, List.forall_mem_map]
    exact fun a _ => fits (by omega) a

theorem option [Wire α] [LawfulWire α depth] (present : ∀ a : α, Wire.encode a ≠ .null) :
    LawfulWire (Option α) depth where
  decode {a written} h := by
    cases a with
    | none =>
      cases h
      rfl
    | some a =>
      have hRead : Json.decodeValue Wire.decode written = .ok a := decode h
      cases written with
      | null => exact absurd h.eq_null (present a) -- only null is written as null
      | _ => exact congrArg (Except.map some) hRead
  fits enough a := by
    cases a with
    | none => simp [Wire.encode, Json.ofOption, Json.fits]
    | some a => exact fits enough a

end LawfulWire

instance [WireRecord α] [LawfulRecord α depth] : LawfulWire α (depth + 1) where
  decode {a _} := Wire.ReadsBack.record (LawfulRecord.distinct a) LawfulRecord.recovers _
  fits {room} enough a := by
    obtain ⟨room, rfl⟩ : ∃ less, room = less + 1 := ⟨room - 1, by omega⟩
    exact Json.fits_ofFields (LawfulRecord.distinct a) (LawfulRecord.fits (by omega) a)

instance : LawfulWire (Option String) 0 := .option fun _ => nofun

instance [WireRecord α] [LawfulRecord α depth] : LawfulWire (Option α) (depth + 1) := .option fun _ => nofun

theorem Json.Carries.field [Wire α] [LawfulWire α depth] {written fields : List (String × Json)}
    (h : Carries written fields) {key : String} {a : α} {absent short : Option α}
    (mem : (key, Wire.encode a) ∈ fields) :
    (Fields.field [key] Wire.decode absent short).Recovers written a :=
  (LawfulWire.readsBack a).field h mem

end DeliveryPipeline

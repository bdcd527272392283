import DeliveryPipeline.Http.Path
import DeliveryPipeline.Proofs.Text.Integer
import Mathlib.Data.List.TakeWhile

/-! # Paths are taken apart as they were put together

A path that is put together from segments without reserved characters is cut into those segments again,
and such a segment stands for itself: no escape is read in it.
-/

namespace DeliveryPipeline

set_option autoImplicit false

namespace Http

def IsPlain (segment : String) : Prop :=
  ∀ c ∈ segment.toList, c ≠ '/' ∧ c ≠ '?' ∧ c ≠ '#' ∧ c ≠ '%'

instance (segment : String) : Decidable (IsPlain segment) := List.decidableBAll _ _

def joined (segments : List String) : String := String.join (segments.map ("/" ++ ·))

theorem toList_joined (segments : List String) :
    (joined segments).toList = segments.flatMap fun segment => '/' :: segment.toList := by
  simp [joined, List.flatMap, Function.comp_def]

theorem mem_joined {segments : List String} {c : Char} (h : c ∈ (joined segments).toList) :
    c = '/' ∨ ∃ segment ∈ segments, c ∈ segment.toList := by
  rw [toList_joined] at h
  obtain ⟨segment, hSegment, hc⟩ := List.mem_flatMap.mp h
  rcases List.mem_cons.mp hc with hSlash | hc
  · exact .inl hSlash
  · exact .inr ⟨segment, hSegment, hc⟩

theorem pathOf_joined {segments : List String} (plain : ∀ segment ∈ segments, IsPlain segment) :
    pathOf (joined segments).toList = (joined segments).toList := by
  apply List.takeWhile_eq_self_iff.mpr
  intro c hc
  rcases mem_joined hc with rfl | ⟨segment, hSegment, hc⟩
  · rfl
  · obtain ⟨-, hQuery, hFragment, -⟩ := plain segment hSegment c hc
    simp [hQuery, hFragment]

theorem pieces_joined {p : Char → Bool} (slash : p '/' = true) {segments : List String}
    (unmarked : ∀ segment ∈ segments, ∀ c ∈ segment.toList, p c = false) :
    Text.pieces p (joined segments).toList = [] :: segments.map String.toList := by
  rw [toList_joined]
  induction segments with
  | nil => rfl
  | cons segment rest ih =>
    obtain ⟨hSegment, hRest⟩ := List.forall_mem_cons.mp unmarked
    have hCut := Text.pieces_append hSegment (ih hRest)
    rw [List.flatMap_cons, List.cons_append, Text.pieces, if_pos slash, hCut]
    rfl

theorem segments_joined {segments : List String} (plain : ∀ segment ∈ segments, IsPlain segment) :
    Http.segments (pathOf (joined segments).toList) = some segments := by
  have hUnmarked : ∀ segment ∈ segments, ∀ c ∈ segment.toList, decide (c = '/') = false := by
    intro segment hSegment c hc
    simpa using (plain segment hSegment c hc).1
  rw [pathOf_joined plain, Http.segments, pieces_joined (by decide) hUnmarked]
  simp [Function.comp_def]

theorem joined_append (first rest : List String) : joined (first ++ rest) = joined first ++ joined rest := by
  apply String.toList_inj.mp
  rw [String.toList_append, toList_joined, toList_joined, toList_joined, List.flatMap_append]

theorem unescapeBytes_of_not_mem {bytes : List UInt8} (h : 0x25 ∉ bytes) : unescapeBytes bytes = bytes := by
  fun_induction unescapeBytes bytes <;> simp_all

theorem toList_eq (b : ByteArray) : b.toList = b.data.toList := by
  suffices h : ∀ i done, ByteArray.toList.loop b i done = done.reverse ++ b.data.toList.drop i from h 0 []
  intro i done
  fun_induction ByteArray.toList.loop b i done with
  | case1 i done h ih =>
    have hByte : b.get! i = b.data.toList.get ⟨i, h⟩ := getElem!_pos b.data i h
    rw [ih, List.drop_eq_getElem_cons h, hByte]
    simp
  | case2 i done h =>
    rw [List.drop_eq_nil_of_le (Nat.le_of_not_lt h), List.append_nil]

theorem percent_not_mem_utf8EncodeChar {c : Char} (h : c ≠ '%') : 0x25 ∉ String.utf8EncodeChar c := by
  have hCode : c.val.toNat ≠ 37 := fun hVal => h (Char.ext (UInt32.toNat.inj hVal))
  fun_cases String.utf8EncodeChar c <;>
    simp [← UInt8.toNat_inj] <;> omega

theorem toList_toUTF8 (s : String) : s.toUTF8.toList = s.toList.flatMap String.utf8EncodeChar := by
  rw [String.toUTF8_eq_toByteArray, toList_eq, ← String.utf8Encode_toList,
    List.utf8Encode, List.toList_data_toByteArray]

theorem unescape?_of_isPlain {segment : String} (plain : IsPlain segment) :
    unescape? segment = some segment := by
  have hBytes : (0x25 : UInt8) ∉ segment.toUTF8.toList := by
    rw [toList_toUTF8]
    intro hMem
    obtain ⟨c, hc, hByte⟩ := List.mem_flatMap.mp hMem
    exact percent_not_mem_utf8EncodeChar (plain c hc).2.2.2 hByte
  rw [unescape?, unescapeBytes_of_not_mem hBytes, toList_eq, String.toUTF8_eq_toByteArray, Array.toArray_toList]
  exact dif_pos segment.isValidUTF8

end Http

end DeliveryPipeline

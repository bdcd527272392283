import DeliveryPipeline.Http.Address
import DeliveryPipeline.Proofs.Http.Path
import Mathlib.Data.List.Basic

/-! # Simple paths are sent as they are

Of a path whose segments consist of small letters, digits and hyphens nothing is escaped, and no segment of it
stands for a place in the path. So it arrives as it was written.
-/

namespace DeliveryPipeline

set_option autoImplicit false

namespace Http

def IsSimpleChar (c : Char) : Prop := c.isDigit = true ∨ ('a' ≤ c ∧ c ≤ 'z') ∨ c = '-'

instance (c : Char) : Decidable (IsSimpleChar c) := inferInstanceAs (Decidable (_ ∨ _ ∨ _))

/-- A segment of small letters, digits and hyphens. -/
structure IsSimple (segment : String) : Prop where
  nonempty : segment ≠ ""
  chars : ∀ c ∈ segment.toList, IsSimpleChar c

instance (segment : String) : Decidable (IsSimple segment) :=
  @decidable_of_iff _ (segment ≠ "" ∧ ∀ c ∈ segment.toList, IsSimpleChar c)
    ⟨fun h => ⟨h.1, h.2⟩, fun h => ⟨h.nonempty, h.chars⟩⟩
    (@instDecidableAnd _ _ _ (List.decidableBAll _ _))

theorem IsSimpleChar.toNat_lt {c : Char} (h : IsSimpleChar c) : c.toNat < 128 := by
  rcases h with h | h | rfl
  · have hDigit : c.val ≤ '9'.val := by simp_all [Char.isDigit]
    exact Nat.lt_of_le_of_lt (UInt32.le_iff_toNat_le.mp hDigit) (by decide)
  · exact Nat.lt_of_le_of_lt (UInt32.le_iff_toNat_le.mp h.2) (by decide)
  · decide

theorem IsSimpleChar.of_forall {p : Char → Prop}
    (all : ∀ n < 128, IsSimpleChar (Char.ofNat n) → p (Char.ofNat n)) {c : Char} (h : IsSimpleChar c) :
    p c := by
  have hCode : Char.ofNat c.toNat = c := Char.ofNat_toNat c
  rw [← hCode] at h ⊢
  exact all _ (by rw [hCode] at h; exact h.toNat_lt) h

theorem IsSimple.isPlain {segment : String} (h : IsSimple segment) : IsPlain segment := by
  intro c hc
  exact (h.chars c hc).of_forall (p := fun c => c ≠ '/' ∧ c ≠ '?' ∧ c ≠ '#' ∧ c ≠ '%') (by decide +kernel)

theorem IsSimpleChar.isEscapedInPath {c : Char} (h : IsSimpleChar c) : isEscapedInPath c = false :=
  h.of_forall (p := fun c => Http.isEscapedInPath c = false) (by decide +kernel)

theorem IsSimpleChar.toLower_ne {c : Char} (h : IsSimpleChar c) : c.toLower ≠ '.' ∧ c.toLower ≠ '%' :=
  h.of_forall (p := fun c => c.toLower ≠ '.' ∧ c.toLower ≠ '%') (by decide +kernel)

theorem not_mem_joined {segments : List String} (simple : ∀ segment ∈ segments, IsSimple segment) {c : Char}
    (slash : c ≠ '/') (other : ¬ IsSimpleChar c) : c ∉ (joined segments).toList := by
  intro h
  rcases mem_joined h with hSlash | ⟨segment, hSegment, hc⟩
  · exact slash hSlash
  · exact other ((simple segment hSegment).chars c hc)

theorem escape_of_isSimple {segment : String} (h : IsSimple segment) :
    escape isEscapedInPath segment.toList = segment.toList := by
  have hKept : ∀ s : List Char, (∀ c ∈ s, IsSimpleChar c) → escape isEscapedInPath s = s := by
    intro s hs
    induction s with
    | nil => rfl
    | cons c rest ih =>
      obtain ⟨hChar, hRest⟩ := List.forall_mem_cons.mp hs
      have hFirst : escape isEscapedInPath (c :: rest) = c :: escape isEscapedInPath rest := by
        simp [escape, hChar.isEscapedInPath]
      rw [hFirst, ih hRest]
  exact hKept _ h.chars

theorem dots?_of_isSimple {segment : String} (h : IsSimple segment) : dots? segment.toList = none := by
  have hClear : ∀ other : String, '.' ∈ other.toList ∨ '%' ∈ other.toList →
      String.ofList (segment.toList.map Char.toLower) ≠ other := by
    rintro other hDot rfl
    rw [String.toList_ofList, List.mem_map, List.mem_map] at hDot
    rcases hDot with ⟨c, hc, hLower⟩ | ⟨c, hc, hLower⟩
    · exact (h.chars c hc).toLower_ne.1 hLower
    · exact (h.chars c hc).toLower_ne.2 hLower
  unfold dots?
  simp [hClear]

theorem resolveDots_of_dots? {segments : List (List Char)} (plain : ∀ segment ∈ segments, dots? segment = none)
    (done : List (List Char)) : resolveDots done segments = done.reverse ++ segments := by
  induction segments generalizing done with
  | nil => simp [resolveDots]
  | cons segment rest ih =>
    obtain ⟨hSegment, hRest⟩ := List.forall_mem_cons.mp plain
    unfold resolveDots
    simp only [hSegment]
    rw [ih hRest, List.reverse_cons, List.append_assoc, List.singleton_append]

theorem sentPath_joined {segments : List String} (simple : ∀ segment ∈ segments, IsSimple segment) :
    sentPath (joined segments).toList = (joined segments).toList := by
  have hUnmarked : ∀ segment ∈ segments, ∀ c ∈ segment.toList, (c = '/' || c = '\\') = false := by
    intro segment hSegment c hc
    exact ((simple segment hSegment).chars c hc).of_forall (p := fun c => (c = '/' || c = '\\') = false)
      (by decide +kernel)
  have hDots : ∀ segment ∈ segments.map String.toList, dots? segment = none :=
    List.forall_mem_map.mpr fun segment hSegment => dots?_of_isSimple (simple segment hSegment)
  -- backslashes separate segments here as well, unlike where a path is read
  rw [sentPath, pieces_joined (by decide) hUnmarked]
  simp only [resolveDots_of_dots? hDots, List.reverse_nil, List.nil_append, List.flatMap_map]
  rw [toList_joined]
  apply List.flatMap_congr
  intro segment hSegment
  rw [escape_of_isSimple (simple segment hSegment)]

theorem sentTarget_joined {segments : List String} (simple : ∀ segment ∈ segments, IsSimple segment) :
    sentTarget (joined segments) = joined segments := by
  have hTab : '\t' ∉ (joined segments).toList := not_mem_joined simple (by decide) (by decide)
  have hNewline : '\n' ∉ (joined segments).toList := not_mem_joined simple (by decide) (by decide)
  have hReturn : '\r' ∉ (joined segments).toList := not_mem_joined simple (by decide) (by decide)
  have hFragment : '#' ∉ (joined segments).toList := not_mem_joined simple (by decide) (by decide)
  have hQuery : '?' ∉ (joined segments).toList := not_mem_joined simple (by decide) (by decide)
  have hKept : ((joined segments).toList.filter fun c => c ≠ '\t' && c ≠ '\n' && c ≠ '\r').takeWhile
      (· ≠ '#') = (joined segments).toList := by
    rw [List.filter_eq_self.mpr]
    · apply List.takeWhile_eq_self_iff.mpr
      intro c hc
      simpa using fun h : c = '#' => hFragment (h ▸ hc)
    · intro c hc
      simp only [Bool.and_eq_true, ne_eq, decide_not, Bool.not_eq_true', decide_eq_false_iff_not]
      exact ⟨⟨fun h => hTab (h ▸ hc), fun h => hNewline (h ▸ hc)⟩, fun h => hReturn (h ▸ hc)⟩
  unfold sentTarget
  simp only [hKept, Text.cut_eq_none_iff.mpr hQuery, sentPath_joined simple, String.ofList_toList]

theorem isSimple_repr (n : Int) : IsSimple (Int.repr n) where
  nonempty h := Text.toList_repr_ne_nil n (String.toList_eq_nil_iff.mpr h)
  chars c hc := by
    rcases Text.mem_repr hc with hMinus | hDigit
    · exact .inr (.inr hMinus)
    · exact .inl hDigit

end Http

end DeliveryPipeline

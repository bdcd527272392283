import DeliveryPipeline.Proofs.Yaml.Scalar
import DeliveryPipeline.Yaml.Stream

/-! # Tags and directives inside a longer text

Like scalars they are read the same in every longer text. None of them reaches over the end of its line.
-/

namespace DeliveryPipeline.Yaml.Stream

set_option autoImplicit false

open Cursor

variable {f : Frame} {c d : Cursor} {fuel more : Nat}

theorem readByte_within {byte : Nat} (h : readByte c = some (byte, d)) (inside : Inside f c) :
    readByte (c.within f) = some (byte, d.within f) ∧ Inside f d := by
  unfold readByte at h
  split at h
  · rename_i high low rest hRest
    obtain ⟨first, hHigh, h⟩ := Option.bind_eq_some_iff.mp h
    obtain ⟨second, hLow, h⟩ := Option.bind_eq_some_iff.mp h
    obtain ⟨rfl, rfl⟩ := Prod.mk.inj (Option.some.inj h)
    have hWithin : (c.within f).rest = '%' :: high :: low :: (rest ++ f.tail) := by rw [rest_within, hRest]; rfl
    have hLong : 3 ≤ c.rest.length := by rw [hRest]; exact Nat.le_add_left 3 rest.length
    have hHighFeed : high ≠ '\n' := fun hEq => by simp [hEq, hexDigit?_feed] at hHigh
    have hLowFeed : low ≠ '\n' := fun hEq => by simp [hEq, hexDigit?_feed] at hLow
    refine ⟨?_, inside.skips (by simp [hRest, hHighFeed, hLowFeed])⟩
    simp only [readByte, hWithin, hHigh, hLow, Option.bind_eq_bind, Option.bind_some, skips_within hLong]
  · cases h

theorem readBytes_within {n : Nat} {bytes : Bytes} (h : readBytes n c = some (bytes, d)) (inside : Inside f c) :
    readBytes n (c.within f) = some (bytes, d.within f) ∧ Inside f d := by
  induction n generalizing bytes c with
  | zero =>
    obtain ⟨rfl, rfl⟩ := Prod.mk.inj (Option.some.inj h)
    exact ⟨rfl, inside⟩
  | succ n ih =>
    obtain ⟨⟨byte, c'⟩, hByte, h⟩ := Option.bind_eq_some_iff.mp h
    obtain ⟨hByteWithin, hInside'⟩ := readByte_within hByte inside
    dsimp only at h
    simp only [readBytes, hByteWithin, Option.bind_eq_bind, Option.bind_some]
    split at h
    · rename_i hFurther
      obtain ⟨⟨later, c''⟩, hLater, h⟩ := Option.bind_eq_some_iff.mp h
      obtain ⟨rfl, rfl⟩ := Prod.mk.inj (Option.some.inj h)
      obtain ⟨hLaterWithin, hInside''⟩ := ih hLater hInside'
      rw [if_pos hFurther, hLaterWithin]
      exact ⟨rfl, hInside''⟩
    · cases h

theorem readUri_within {bracketed : Bool} {bytes read : Bytes}
    (h : readUri bracketed fuel bytes c = some (read, d)) (inside : Inside f c) (enough : fuel ≤ more) :
    readUri bracketed more bytes (c.within f) = some (read, d.within f) ∧ Inside f d := by
  induction fuel generalizing bytes c more with
  | zero => cases h
  | succ fuel ih =>
    obtain ⟨more, rfl, hMore⟩ := exists_succ_of_le enough
    simp only [readUri, inside.char?_within] at h ⊢
    cases hChar : c.char? with
    | none =>
      simp only [hChar, Option.some.injEq, Prod.mk.injEq] at h ⊢
      obtain ⟨rfl, rfl⟩ := h
      exact ⟨⟨rfl, rfl⟩, inside⟩
    | some e =>
      simp only [hChar] at h ⊢
      by_cases hEnd : (!isUriChar bracketed e) = true
      · rw [if_pos hEnd] at h ⊢
        obtain ⟨rfl, rfl⟩ := Prod.mk.inj (Option.some.inj h)
        exact ⟨rfl, inside⟩
      rw [if_neg hEnd] at h ⊢
      by_cases hEscape : e = '%'
      · rw [if_pos hEscape] at h ⊢
        obtain ⟨⟨byte, c₁⟩, hByte, h⟩ := Option.bind_eq_some_iff.mp h
        obtain ⟨length, hLength, h⟩ := Option.bind_eq_some_iff.mp h
        obtain ⟨⟨later, c₂⟩, hLater, h⟩ := Option.bind_eq_some_iff.mp h
        obtain ⟨hByteWithin, hInside₁⟩ := readByte_within hByte inside
        obtain ⟨hLaterWithin, hInside₂⟩ := readBytes_within hLater hInside₁
        simp only [hByteWithin, hLength, hLaterWithin, Option.bind_eq_bind, Option.bind_some]
        exact ih h hInside₂ hMore
      · rw [if_neg hEscape] at h ⊢
        rw [skip_within hChar]
        refine ih h (inside.skip hChar ?_) hMore
        rintro rfl
        cases bracketed <;> exact hEnd (by decide)

theorem uri_within {bracketed : Bool} {head bytes : Bytes} (h : uri bracketed head c = some (bytes, d))
    (inside : Inside f c) :
    uri bracketed head (c.within f) = some (bytes, d.within f) ∧ Inside f d := by
  obtain ⟨⟨read, after⟩, hRead, h⟩ := Option.bind_eq_some_iff.mp h
  obtain ⟨hReadWithin, hInside⟩ := readUri_within hRead inside (length_le_within (f := f))
  have hStays : (after.within f).index = (c.within f).index ↔ after.index = c.index := by
    simp [within]
  simp only [uri, hReadWithin, hStays, Option.bind_eq_bind, Option.bind_some]
  dsimp only at h
  split at h
  · cases h
  · rename_i hRead
    simp only [if_neg hRead, Option.some.injEq, Prod.mk.injEq] at h ⊢
    obtain ⟨rfl, rfl⟩ := h
    exact ⟨⟨rfl, rfl⟩, hInside⟩

theorem handle_within {name : String} (h : handle c = some (name, d)) (inside : Inside f c) :
    handle (c.within f) = some (name, d.within f) ∧ Inside f d := by
  simp only [handle, inside.is_within] at h ⊢
  by_cases hMark : c.is '!' = true
  · rw [if_pos hMark] at h ⊢
    have hChar := char?_of_is hMark
    have hNext := inside.skip hChar (by decide)
    have hName : ((c.within f).rest.drop 1).takeWhile isWordChar = c.skip.rest.takeWhile isWordChar := by
      rw [← hNext.takeWhile_within (by decide), ← skip_within hChar]
      rfl
    obtain ⟨hSkips, hInside⟩ := hNext.skips_takeWhile (p := isWordChar) (by decide)
    rw [hName, skips_succ (char?_within hChar), skip_within hChar, hSkips, hInside.is_within]
    rw [show c.rest.drop 1 = c.skip.rest from rfl, skips_succ hChar] at h
    split at h
    · rename_i hClosed
      rw [if_pos hClosed, skip_within (char?_of_is hClosed)]
      obtain ⟨rfl, rfl⟩ := Prod.mk.inj (Option.some.inj h)
      exact ⟨rfl, hInside.skip (char?_of_is hClosed) (by decide)⟩
    · rename_i hClosed
      rw [if_neg hClosed]
      obtain ⟨rfl, rfl⟩ := Prod.mk.inj (Option.some.inj h)
      exact ⟨rfl, hInside⟩
  · rw [if_neg hMark] at h
    cases h

theorem tagContent_within {name suffix : Bytes} (h : tagContent c = some (name, suffix, d))
    (inside : Inside f c) (mark : c.is '!' = true) :
    tagContent (c.within f) = some (name, suffix, d.within f) ∧ Inside f d := by
  have hChar := char?_of_is mark
  have hBracket : (c.within f).aheadIs 1 '<' = c.aheadIs 1 '<' := by
    rw [aheadIs, inside.ahead?_one_within hChar (by decide), aheadIs]
  unfold tagContent at h ⊢
  rw [hBracket]
  by_cases hOpen : c.aheadIs 1 '<' = true
  · rw [if_pos hOpen] at h ⊢
    obtain ⟨rest, hRest⟩ := exists_rest_of_char? hChar
    have hSecond : rest.head? = some '<' := by
      simpa [aheadIs, ahead?, hRest, List.head?_eq_getElem?] using hOpen
    obtain ⟨rest, rfl⟩ := List.head?_eq_some_iff.mp hSecond
    have hInside₁ : Inside f (c.skips 2) := inside.skips (by simp [hRest])
    obtain ⟨⟨read, c'⟩, hUri, h⟩ := Option.bind_eq_some_iff.mp h
    obtain ⟨hUriWithin, hInside₂⟩ := uri_within hUri hInside₁
    simp only [skips_within (show 2 ≤ c.rest.length by simp [hRest]), hUriWithin, hInside₂.is_within,
      Option.bind_eq_bind, Option.bind_some]
    dsimp only at h
    split at h
    · rename_i hClosed
      simp only [if_pos hClosed, skip_within (char?_of_is hClosed), Option.some.injEq, Prod.mk.injEq] at h ⊢
      obtain ⟨rfl, rfl, rfl⟩ := h
      exact ⟨⟨rfl, rfl, rfl⟩, hInside₂.skip (char?_of_is hClosed) (by decide)⟩
    · cases h
  · rw [if_neg hOpen] at h ⊢
    obtain ⟨⟨read, c'⟩, hHandle, h⟩ := Option.bind_eq_some_iff.mp h
    obtain ⟨hHandleWithin, hInside₁⟩ := handle_within hHandle inside
    simp only [hHandleWithin, Option.bind_eq_bind, Option.bind_some]
    dsimp only at h
    split at h
    · rename_i hNamed
      obtain ⟨⟨bytes, c''⟩, hUri, h⟩ := Option.bind_eq_some_iff.mp h
      obtain ⟨hUriWithin, hInside₂⟩ := uri_within hUri hInside₁
      simp only [if_pos hNamed, hUriWithin, Option.bind_some, Option.some.injEq, Prod.mk.injEq] at h ⊢
      obtain ⟨rfl, rfl, rfl⟩ := h
      exact ⟨⟨rfl, rfl, rfl⟩, hInside₂⟩
    · rename_i hNamed
      obtain ⟨⟨bytes, c''⟩, hUri, h⟩ := Option.bind_eq_some_iff.mp h
      obtain ⟨hUriWithin, hInside₂⟩ := uri_within hUri hInside₁
      simp only [if_neg hNamed, hUriWithin, Option.bind_some]
      dsimp only at h
      split at h
      · rename_i hEmpty
        simp only [if_pos hEmpty, Option.some.injEq, Prod.mk.injEq] at h ⊢
        obtain ⟨rfl, rfl, rfl⟩ := h
        exact ⟨⟨rfl, rfl, rfl⟩, hInside₂⟩
      · rename_i hEmpty
        simp only [if_neg hEmpty, Option.some.injEq, Prod.mk.injEq] at h ⊢
        obtain ⟨rfl, rfl, rfl⟩ := h
        exact ⟨⟨rfl, rfl, rfl⟩, hInside₂⟩

theorem versionNumber_within {n : Nat} (h : versionNumber c = some (n, d)) (inside : Inside f c) :
    versionNumber (c.within f) = some (n, d.within f) ∧ Inside f d := by
  have hFeed : (decide ('0' ≤ '\n') && decide ('\n' ≤ '9')) = false := by decide
  obtain ⟨hSkips, hInside⟩ := inside.skips_takeWhile (p := fun e => '0' ≤ e && e ≤ '9') hFeed
  simp only [versionNumber, inside.takeWhile_within (p := fun e => '0' ≤ e && e ≤ '9') hFeed] at h ⊢
  split at h
  · cases h
  · rename_i hDigits
    rw [if_neg hDigits, hSkips]
    obtain ⟨rfl, rfl⟩ := Prod.mk.inj (Option.some.inj h)
    exact ⟨rfl, hInside⟩

theorem directiveContent_within {name : List Char} {token : Token}
    (h : directiveContent name c = some (token, d)) (inside : Inside f c) :
    directiveContent name (c.within f) = some (token, d.within f) ∧ Inside f d := by
  obtain ⟨hBlanks, hInside₁⟩ := inside.skipWhile_within (p := isSpaceOrTab) (by decide)
  unfold directiveContent at h ⊢
  rw [hBlanks]
  by_cases hVersion : name = "YAML".toList
  · rw [if_pos hVersion] at h ⊢
    obtain ⟨⟨major, c₂⟩, hMajor, h⟩ := Option.bind_eq_some_iff.mp h
    obtain ⟨hMajorWithin, hInside₂⟩ := versionNumber_within hMajor hInside₁
    simp only [hMajorWithin, hInside₂.is_within, Option.bind_eq_bind, Option.bind_some]
    dsimp only at h
    split at h
    · rename_i hDot
      obtain ⟨⟨minor, c₃⟩, hMinor, h⟩ := Option.bind_eq_some_iff.mp h
      obtain ⟨hMinorWithin, hInside₃⟩ :=
        versionNumber_within hMinor (hInside₂.skip (char?_of_is hDot) (by decide))
      obtain ⟨rfl, rfl⟩ := Prod.mk.inj (Option.some.inj h)
      rw [if_pos hDot, skip_within (char?_of_is hDot), hMinorWithin]
      exact ⟨rfl, hInside₃⟩
    · cases h
  rw [if_neg hVersion] at h ⊢
  by_cases hTag : name = "TAG".toList
  · rw [if_pos hTag] at h ⊢
    obtain ⟨⟨read, c₂⟩, hHandle, h⟩ := Option.bind_eq_some_iff.mp h
    obtain ⟨hHandleWithin, hInside₂⟩ := handle_within hHandle hInside₁
    obtain ⟨hBlanks, hInside₃⟩ := hInside₂.skipWhile_within (p := isSpaceOrTab) (by decide)
    simp only [hHandleWithin, hInside₂.fits.onBlank_within, hBlanks, Option.bind_eq_bind, Option.bind_some]
    dsimp only at h
    split at h
    · rename_i hNamed
      obtain ⟨⟨bytes, c₄⟩, hUri, h⟩ := Option.bind_eq_some_iff.mp h
      obtain ⟨hUriWithin, hInside₄⟩ := uri_within hUri hInside₃
      simp only [if_pos hNamed, hUriWithin, hInside₄.blankAhead_zero_within, Option.bind_some]
      dsimp only at h
      split at h
      · rename_i hBlank
        simp only [if_pos hBlank, Option.some.injEq, Prod.mk.injEq] at h ⊢
        obtain ⟨rfl, rfl⟩ := h
        exact ⟨⟨rfl, rfl⟩, hInside₄⟩
      · cases h
    · cases h
  · rw [if_neg hTag] at h
    cases h

end DeliveryPipeline.Yaml.Stream

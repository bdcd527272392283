import DeliveryPipeline.Proofs.Yaml.Nesting
import DeliveryPipeline.Proofs.Yaml.Tag

/-! # Tokens of a text inside a longer one

A stream that reads a text inside a longer one has made tokens before it. Nothing that it does to those of
its own text depends on them: what reaches back, the start of a block and a simple key, is counted
from the end of the tokens that are there.
-/

namespace DeliveryPipeline.Yaml

set_option autoImplicit false

open Cursor

namespace Stream

def shift (f : Frame) (count : Nat) (place : KeyPlace) : KeyPlace :=
  { place with token := place.token + count, index := place.index + f.index, line := place.line + f.line }

/-- The stream at the same place of the text, in a longer one whose earlier part has made some tokens. -/
def within (f : Frame) (earlier : List Token) (s : Stream) : Stream :=
  { s with
    cursor := s.cursor.within f
    tokens := s.tokens ++ earlier
    keys := s.keys.map (Option.map (shift f earlier.length)) }

variable {f : Frame} {earlier : List Token} {s s' : Stream} {token : Token} {n : Nat}

@[simp]
theorem cursor_within : (s.within f earlier).cursor = s.cursor.within f := rfl

@[simp]
theorem indents_within : (s.within f earlier).indents = s.indents := rfl

@[simp]
theorem keyAllowed_within : (s.within f earlier).keyAllowed = s.keyAllowed := rfl

@[simp]
theorem inFlow_within : (s.within f earlier).inFlow = s.inFlow := by
  simp only [inFlow, within, List.length_map]

@[simp]
theorem tokenCount_within : (s.within f earlier).tokenCount = s.tokenCount + earlier.length := by
  simp only [tokenCount, within, List.length_append]

theorem expired_within (place : KeyPlace) (c : Cursor) :
    KeyPlace.expired (shift f earlier.length place) (c.within f) = KeyPlace.expired place c := by
  simp only [KeyPlace.expired, shift, Cursor.within, Nat.add_lt_add_iff_right, Nat.add_right_comm _ f.index 1024]

theorem indicator_within (short : n ≤ s.cursor.rest.length) :
    (s.within f earlier).indicator n token = (s.indicator n token).within f earlier := by
  simp only [indicator, cursor_within, skips_within short]
  rfl

theorem insertAt_within (number : Nat) :
    (s.within f earlier).insertAt (number + earlier.length) token = (s.insertAt number token).within f earlier := by
  have hBehind : s.tokenCount + earlier.length - (number + earlier.length) = s.tokenCount - number := by omega
  have hShort : s.tokenCount - number ≤ s.tokens.length := Nat.sub_le _ _
  simp only [insertAt, tokenCount_within, hBehind]
  simp only [within, List.take_append_of_le_length hShort, List.drop_append_of_le_length hShort,
    List.append_assoc, List.cons_append]

theorem dropKey_within : (s.within f earlier).dropKey = s.dropKey.map (within f earlier) := by
  unfold dropKey
  cases hKeys : s.keys with
  | nil => simp [within, hKeys]
  | cons key outer =>
    cases key with
    | none => simp [within, hKeys]
    | some place =>
      cases hRequired : place.required <;> simp [within, hKeys, shift, hRequired]

theorem noteKey_within : (s.within f earlier).noteKey = s.noteKey.map (within f earlier) := by
  by_cases hAllowed : s.keyAllowed = true
  · simp only [noteKey, keyAllowed_within, hAllowed, reduceIte, dropKey_within]
    cases s.dropKey with
    | none => rfl
    | some s₁ =>
      simp only [Option.map_some, Option.bind_eq_bind, Option.bind_some, inFlow_within, indents_within,
        cursor_within, column_within, tokenCount_within]
      simp [within, shift, Cursor.within]
  · simp only [noteKey, keyAllowed_within, hAllowed]
    rfl

theorem mapM_map_key {keys : List (Option KeyPlace)} {before after : Option KeyPlace → Option (Option KeyPlace)}
    {move : KeyPlace → KeyPlace} (h : ∀ key, after (key.map move) = (before key).map (Option.map move)) :
    (keys.map (Option.map move)).mapM after = (keys.mapM before).map (List.map (Option.map move)) := by
  induction keys with
  | nil => rfl
  | cons key keys ih =>
    rw [List.map_cons, List.mapM_cons, List.mapM_cons, h, ih]
    cases before key with
    | none => rfl
    | some key' =>
      cases keys.mapM before with
      | none => rfl
      | some keys' => rfl

/-- What becomes of a possible key when the stream has moved on. -/
def stillKey (c : Cursor) : Option KeyPlace → Option (Option KeyPlace)
  | some place =>
    if KeyPlace.expired place c then if place.required then none else some none else some (some place)
  | none => some none

theorem dropExpired_eq : s.dropExpired =
    (s.keys.mapM (stillKey s.cursor)).map fun keys => { s with keys := keys } := by
  unfold dropExpired
  rw [Option.map_eq_bind]
  rfl

theorem dropExpired_within : (s.within f earlier).dropExpired = s.dropExpired.map (within f earlier) := by
  have hKey (key : Option KeyPlace) : stillKey (s.cursor.within f) (key.map (shift f earlier.length)) =
      (stillKey s.cursor key).map (Option.map (shift f earlier.length)) := by
    cases key with
    | none => rfl
    | some place =>
      simp only [stillKey, Option.map_some, expired_within]
      split
      · cases hRequired : place.required <;> simp [shift, hRequired]
      · rfl
  rw [dropExpired_eq, dropExpired_eq, cursor_within,
    show (s.within f earlier).keys = s.keys.map (Option.map (shift f earlier.length)) from rfl, mapM_map_key hKey]
  cases s.keys.mapM (stillKey s.cursor) with
  | none => rfl
  | some keys => rfl

theorem closeBlocks_append (column : Nat) (indents : List Nat) (tokens : List Token) :
    closeBlocks column indents (tokens ++ earlier) =
      ((closeBlocks column indents tokens).1, (closeBlocks column indents tokens).2 ++ earlier) := by
  induction indents generalizing tokens with
  | nil => rfl
  | cons indent outer ih =>
    simp only [closeBlocks]
    split
    · exact ih (.blockEnd :: tokens)
    · rfl

theorem unroll_within : (s.within f earlier).unroll = s.unroll.within f earlier := by
  unfold unroll
  rw [inFlow_within]
  split
  · rfl
  · simp only [within, column_within, closeBlocks_append]

theorem unrollAll_within : (s.within f earlier).unrollAll = s.unrollAll.within f earlier := by
  unfold unrollAll
  rw [inFlow_within]
  split
  · rfl
  · simp only [within, List.append_assoc]

theorem roll_within (column number : Nat) :
    (s.within f earlier).roll column (number + earlier.length) token =
      (s.roll column number token).within f earlier := by
  unfold roll
  rw [inFlow_within, indents_within, insertAt_within]
  split
  · rfl
  · split
    · rfl
    · rfl

theorem cursor_of_dropKey (h : s.dropKey = some s') : s'.cursor = s.cursor := by
  unfold dropKey at h
  split at h
  · split at h
    · cases h
    · rw [← Option.some.inj h]
  · rw [← Option.some.inj h]

theorem cursor_of_noteKey (h : s.noteKey = some s') : s'.cursor = s.cursor := by
  unfold noteKey at h
  split at h
  · obtain ⟨s₁, hDrop, h⟩ := Option.bind_eq_some_iff.mp h
    rw [← Option.some.inj h, ← cursor_of_dropKey hDrop]
  · rw [← Option.some.inj h]

theorem cursor_of_dropExpired (h : s.dropExpired = some s') : s'.cursor = s.cursor := by
  obtain ⟨keys, -, rfl⟩ := Option.map_eq_some_iff.mp (dropExpired_eq.symm.trans h)
  rfl

theorem cursor_unroll : s.unroll.cursor = s.cursor := by
  unfold unroll
  split
  · rfl
  · rfl

theorem cursor_unrollAll : s.unrollAll.cursor = s.cursor := by
  unfold unrollAll
  split
  · rfl
  · rfl

theorem cursor_roll (column number : Nat) : (s.roll column number token).cursor = s.cursor := by
  unfold roll
  split
  · rfl
  · split
    · rfl
    · rfl

theorem length_skip_le (c : Cursor) : c.skip.rest.length ≤ c.rest.length := by
  simp [Cursor.skip]

theorem length_skipWhile_le (c : Cursor) (p : Char → Bool) : (c.skipWhile p).rest.length ≤ c.rest.length := by
  simp [skipWhile, skips]

theorem length_skipLine_lt {c : Cursor} (h : c.onBreak = true) : c.skipLine.rest.length < c.rest.length := by
  obtain ⟨d, rest, hRest, hd⟩ := exists_rest_of_onBreak h
  by_cases hPair : d = '\r' ∧ rest.head? = some '\n'
  · obtain ⟨rfl, hFeed⟩ := hPair
    obtain ⟨rest, rfl⟩ := List.head?_eq_some_iff.mp hFeed
    rw [skipLine_of_pair hRest, hRest]
    exact Nat.lt_add_of_pos_right (Nat.succ_pos 1)
  · rw [skipLine_of_single hRest hd fun hd hFeed => hPair ⟨hd, hFeed⟩, hRest]
    exact Nat.lt_succ_self rest.length

theorem length_pastMark_le (c : Cursor) : (pastMark c).rest.length ≤ c.rest.length := by
  unfold pastMark
  split
  · exact length_skip_le c
  · exact Nat.le_refl _

theorem length_pastBlanks_le : s.pastBlanks.rest.length ≤ s.cursor.rest.length := by
  have hBlanks := length_skipWhile_le (pastMark s.cursor)
    fun d => d = ' ' || ((s.inFlow || !s.keyAllowed) && d = '\t')
  have hMark := length_pastMark_le s.cursor
  unfold pastBlanks
  dsimp only
  split
  · exact (length_skipWhile_le _ _).trans (hBlanks.trans hMark)
  · exact hBlanks.trans hMark

theorem pastMark_within {c : Cursor} (fits : Fits f c) :
    pastMark (c.within f) = (pastMark c).within f ∧ Fits f (pastMark c) := by
  have hDash : decide ('-'.toNat = 0xFEFF) = false := by decide
  simp only [pastMark, column_within, fits.any_char?_within (p := fun d => d.toNat = 0xFEFF) hDash]
  split
  · rename_i hMark
    obtain ⟨d, hChar, hd⟩ := (Option.any_eq_true _ c.char?).mp (Bool.and_eq_true_iff.mp hMark).2
    rw [skip_within hChar]
    refine ⟨rfl, ((fits.inside hChar).skip hChar ?_).fits⟩
    rintro rfl
    revert hd
    decide
  · exact ⟨rfl, fits⟩

theorem pastBlanks_within (earlier : List Token) (fits : Fits f s.cursor) :
    (s.within f earlier).pastBlanks = s.pastBlanks.within f ∧ Fits f s.pastBlanks := by
  obtain ⟨hMark, hFits⟩ := pastMark_within fits
  have hStops (e : Char) (h : e ≠ ' ' ∧ e ≠ '\t') :
      (e = ' ' || ((s.inFlow || !s.keyAllowed) && e = '\t')) = false := by
    simp [h.1, h.2]
  obtain ⟨hBlanks, hFits⟩ := hFits.skipWhile_within
    (p := fun e => e = ' ' || ((s.inFlow || !s.keyAllowed) && e = '\t'))
    (hStops '\n' (by decide)) (hStops '-' (by decide))
  simp only [pastBlanks, cursor_within, inFlow_within, keyAllowed_within, hMark, hBlanks,
    hFits.is_within (d := '#') (by decide)]
  split
  · rename_i hComment
    obtain ⟨hWithin, hInside⟩ :=
      (hFits.inside (char?_of_is hComment)).skipWhile_within (p := fun d => !isBreak d) (by decide)
    exact ⟨hWithin, hInside.fits⟩
  · exact ⟨rfl, hFits⟩

theorem advance_within {fuel more : Nat} (earlier : List Token) (fits : Fits f s.cursor)
    (long : s.cursor.rest.length < fuel) (enough : fuel ≤ more) :
    advance more (s.within f earlier) = (advance fuel s).within f earlier ∧ Fits f (advance fuel s).cursor := by
  -- the number of rounds is bounded by what is left of a text, and more of the longer one is left
  induction fuel generalizing s more with
  | zero => omega
  | succ fuel ih =>
    obtain ⟨more, rfl, hMore⟩ := exists_succ_of_le enough
    obtain ⟨hWithin, hFits⟩ := pastBlanks_within earlier fits
    rw [advance_succ, advance_succ, hWithin, hFits.onBreak_within, hFits.skipLine_within.1, keyAllowed_within,
      inFlow_within]
    split
    · rename_i hBreak
      have hShorter := (length_skipLine_lt hBreak).trans_le length_pastBlanks_le
      have hLong : s.pastBlanks.skipLine.rest.length < fuel := by omega
      exact ih (s := { s with cursor := s.pastBlanks.skipLine, keyAllowed := s.keyAllowed || !s.inFlow })
        hFits.skipLine_within.2 hLong hMore
    · exact ⟨rfl, hFits⟩

end Stream

end DeliveryPipeline.Yaml

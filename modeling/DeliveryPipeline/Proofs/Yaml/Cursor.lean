import DeliveryPipeline.Yaml.Cursor
import Mathlib.Data.List.TakeWhile

/-! # Reading a text inside another one

A text may stand in a longer one. Before it there are characters and lines; behind it there is nothing, or,
if it ends with a line, the marker of the next document. A cursor in the text is then a cursor in the longer
text, and looking at characters from it gives the same, since nothing looks past the end of its line.
-/

namespace DeliveryPipeline.Yaml

set_option autoImplicit false

/-- What a text stands in: how many characters and lines come before it, and what comes after it. -/
structure Frame where
  index : Nat
  line : Nat
  tail : List Char

namespace Cursor

variable {f : Frame} {c : Cursor} {d : Char} {n : Nat} {p : Char → Bool}

def within (f : Frame) (c : Cursor) : Cursor :=
  ⟨c.rest ++ f.tail, c.index + f.index, c.line + f.line, c.column⟩

/-- The rest of the text ends with a line. -/
structure EndsLine (c : Cursor) : Prop where
  last : ∀ d, c.rest.getLast? = some d → d = '\n'
  column : c.rest = [] → c.column = 0

/-- The cursor's text stands alone, or it ends with a line and a document marker comes after it. -/
inductive Fits (f : Frame) (c : Cursor) : Prop
  | bare (tail : f.tail = [])
  | marked (more : List Char) (tail : f.tail = '-' :: '-' :: '-' :: '\n' :: more) (ends : c.EndsLine)

@[simp]
theorem rest_within : (c.within f).rest = c.rest ++ f.tail := rfl

@[simp]
theorem column_within : (c.within f).column = c.column := by
  rw [within]

theorem exists_rest_of_char? (h : c.char? = some d) : ∃ rest, c.rest = d :: rest :=
  List.head?_eq_some_iff.mp h

theorem char?_within (h : c.char? = some d) : (c.within f).char? = some d := by
  obtain ⟨rest, hRest⟩ := exists_rest_of_char? h
  simp [char?, hRest]

theorem Fits.char?_within_of_none (fits : Fits f c) (h : c.char? = none) :
    (c.within f).char? = none ∨ (c.within f).char? = some '-' := by
  have hRest : c.rest = [] := List.head?_eq_none_iff.mp h
  cases fits with
  | bare tail => exact .inl (by simp [char?, hRest, tail])
  | marked more tail => exact .inr (by simp [char?, hRest, tail])

theorem Fits.any_char?_within (fits : Fits f c) (dash : p '-' = false) :
    (c.within f).char?.any p = c.char?.any p := by
  cases h : c.char? with
  | some d => rw [char?_within h]
  | none => rcases fits.char?_within_of_none h with h | h <;> simp [h, dash]

theorem any_char?_eq (d : Char) : (c.char?.any fun e => e = d) = c.is d := by
  cases h : c.char? <;> simp [is, h]

theorem Fits.is_within (fits : Fits f c) (ne : '-' ≠ d) : (c.within f).is d = c.is d := by
  rw [← any_char?_eq, ← any_char?_eq]
  exact fits.any_char?_within (decide_eq_false ne)

theorem Fits.onBlank_within (fits : Fits f c) : (c.within f).onBlank = c.onBlank :=
  fits.any_char?_within rfl

theorem Fits.onBreak_within (fits : Fits f c) : (c.within f).onBreak = c.onBreak :=
  fits.any_char?_within rfl

theorem char?_of_is (h : c.is d = true) : c.char? = some d := of_decide_eq_true h

theorem skip_within (h : c.char? = some d) : (c.within f).skip = c.skip.within f := by
  obtain ⟨rest, hRest⟩ := exists_rest_of_char? h
  simp only [skip, within, hRest, List.cons_append, List.drop_succ_cons, List.drop_zero, Nat.add_right_comm]

theorem Fits.of_suffix {later : Cursor} (fits : Fits f c) (suffix : later.rest <:+ c.rest)
    (column : later.rest = [] → later.column = 0) : Fits f later := by
  cases fits with
  | bare tail => exact .bare tail
  | marked more tail ends =>
    refine .marked more tail ⟨fun d hd => ends.last d ?_, column⟩
    obtain ⟨passed, hRest⟩ := suffix
    rw [← hRest, List.getLast?_append, hd]
    rfl

/-- There is more of the text, or nothing comes after it. -/
structure Inside (f : Frame) (c : Cursor) : Prop where
  fits : Fits f c
  ahead : c.rest = [] → f.tail = []

theorem Fits.inside (fits : Fits f c) (h : c.char? = some d) : Inside f c where
  fits := fits
  ahead hNil := by simp [char?, hNil] at h

theorem EndsLine.mem (h : c.EndsLine) (nonempty : c.rest ≠ []) : '\n' ∈ c.rest := by
  have hLast := List.getLast?_eq_some_getLast nonempty
  rw [← h.last _ hLast]
  exact List.getLast_mem nonempty

theorem Inside.mem_of_tail (inside : Inside f c) (tail : f.tail ≠ []) : '\n' ∈ c.rest := by
  obtain ⟨fits, hAhead⟩ := inside
  cases fits with
  | bare hNil => exact absurd hNil tail
  | marked more hTail ends => exact ends.mem fun hNil => tail (hAhead hNil)

theorem Inside.char?_within (inside : Inside f c) : (c.within f).char? = c.char? := by
  cases h : c.char? with
  | some d => exact Cursor.char?_within h
  | none =>
    have hRest : c.rest = [] := List.head?_eq_none_iff.mp h
    simp [char?, hRest, inside.ahead hRest]

theorem Inside.is_within (inside : Inside f c) (d : Char) : (c.within f).is d = c.is d := by
  rw [Cursor.is, inside.char?_within, Cursor.is]

theorem skips_zero : c.skips 0 = c := by simp [skips]

theorem skips_succ (h : c.char? = some d) : c.skips (n + 1) = c.skip.skips n := by
  obtain ⟨rest, hRest⟩ := exists_rest_of_char? h
  simp only [skips, skip, hRest, List.drop_succ_cons, List.drop_zero, mk.injEq, true_and]
  omega

theorem skips_within (short : n ≤ c.rest.length) : (c.within f).skips n = (c.skips n).within f := by
  simp only [skips, within, List.drop_append_of_le_length short, Nat.add_right_comm]

theorem Inside.skips (inside : Inside f c) (line : ∀ d ∈ c.rest.take n, d ≠ '\n') :
    Inside f (c.skips n) := by
  have hAhead : (c.skips n).rest = [] → f.tail = [] := by
    intro hNil
    by_contra hTail
    have hMem := inside.mem_of_tail hTail
    rw [← List.take_append_drop n c.rest, show c.rest.drop n = [] from hNil, List.append_nil] at hMem
    exact line '\n' hMem rfl
  refine ⟨?_, hAhead⟩
  cases inside.fits with
  | bare tail => exact .bare tail
  | marked more tail ends =>
    refine inside.fits.of_suffix (List.drop_suffix n c.rest) fun hNil => ?_
    simp [tail] at hAhead
    exact absurd hNil hAhead

theorem Inside.skip (inside : Inside f c) (h : c.char? = some d) (ne : d ≠ '\n') : Inside f c.skip := by
  obtain ⟨rest, hRest⟩ := exists_rest_of_char? h
  have hLine : ∀ e ∈ c.rest.take 1, e ≠ '\n' := by simpa [hRest] using ne
  exact inside.skips hLine

theorem takeWhile_append_of_mem {l tail : List Char} (h : d ∈ l) (stops : p d = false) :
    (l ++ tail).takeWhile p = l.takeWhile p := by
  rw [List.takeWhile_append, if_neg]
  intro hAll
  have hEq := List.takeWhile_eq_self_iff.mp ((List.takeWhile_prefix p).eq_of_length hAll) d h
  rw [stops] at hEq
  cases hEq

theorem Inside.takeWhile_within (inside : Inside f c) (feed : p '\n' = false) :
    (c.within f).rest.takeWhile p = c.rest.takeWhile p := by
  rw [rest_within]
  rcases eq_or_ne f.tail [] with hTail | hTail
  · rw [hTail, List.append_nil]
  · exact takeWhile_append_of_mem (inside.mem_of_tail hTail) feed

theorem Inside.skips_takeWhile (inside : Inside f c) (feed : p '\n' = false) :
    (c.within f).skips (c.rest.takeWhile p).length = (c.skips (c.rest.takeWhile p).length).within f ∧
      Inside f (c.skips (c.rest.takeWhile p).length) := by
  have hShort := (List.takeWhile_prefix (l := c.rest) p).length_le
  refine ⟨skips_within hShort, inside.skips fun d hd hFeed => ?_⟩
  rw [← List.prefix_iff_eq_take.mp (List.takeWhile_prefix p)] at hd
  have hTrue := List.mem_takeWhile_imp hd
  rw [hFeed, feed] at hTrue
  cases hTrue

theorem Inside.skipWhile_within (inside : Inside f c) (feed : p '\n' = false) :
    (c.within f).skipWhile p = (c.skipWhile p).within f ∧ Inside f (c.skipWhile p) := by
  rw [skipWhile, inside.takeWhile_within feed]
  exact inside.skips_takeWhile feed

theorem Fits.takeWhile_within (fits : Fits f c) (feed : p '\n' = false) (dash : p '-' = false) :
    (c.within f).rest.takeWhile p = c.rest.takeWhile p := by
  cases h : c.char? with
  | some d => exact (fits.inside h).takeWhile_within feed
  | none =>
    have hRest : c.rest = [] := List.head?_eq_none_iff.mp h
    cases fits with
    | bare tail => simp [hRest, tail]
    | marked more tail => simp [hRest, tail, dash]

theorem Fits.skips_of_le_takeWhile (fits : Fits f c) (feed : p '\n' = false)
    (le : n ≤ (c.rest.takeWhile p).length) :
    (c.within f).skips n = (c.skips n).within f ∧ Fits f (c.skips n) := by
  have hShort := (List.takeWhile_prefix (l := c.rest) p).length_le
  refine ⟨skips_within (le.trans hShort), ?_⟩
  cases h : c.char? with
  | some d =>
    refine ((fits.inside h).skips fun e he hFeed => ?_).fits
    have hPrefix := (List.take_prefix n (c.rest.takeWhile p)).trans (List.takeWhile_prefix p)
    have hTake : (c.rest.takeWhile p).take n = c.rest.take n := by
      rw [List.prefix_iff_eq_take.mp hPrefix, List.length_take, min_eq_left le]
    rw [← hTake] at he
    have hTrue := List.mem_takeWhile_imp (List.mem_of_mem_take he)
    rw [hFeed, feed] at hTrue
    cases hTrue
  | none =>
    have hRest : c.rest = [] := List.head?_eq_none_iff.mp h
    obtain rfl : n = 0 := by simpa [hRest] using le
    rwa [skips_zero]

theorem Fits.skipWhile_within (fits : Fits f c) (feed : p '\n' = false) (dash : p '-' = false) :
    (c.within f).skipWhile p = (c.skipWhile p).within f ∧ Fits f (c.skipWhile p) := by
  rw [skipWhile, fits.takeWhile_within feed dash]
  exact fits.skips_of_le_takeWhile feed (Nat.le_refl _)

theorem exists_rest_of_onBreak (h : c.onBreak = true) :
    ∃ d rest, c.rest = d :: rest ∧ isBreak d = true := by
  obtain ⟨d, hChar, hd⟩ := (Option.any_eq_true isBreak c.char?).mp h
  obtain ⟨rest, hRest⟩ := exists_rest_of_char? hChar
  exact ⟨d, rest, hRest, hd⟩

theorem skipLine_of_not_onBreak (h : c.onBreak = false) : c.skipLine = c := by
  unfold skipLine
  unfold onBreak char? at h
  split <;> simp_all [isBreak]

theorem skipLine_of_pair {rest : List Char} (h : c.rest = '\r' :: '\n' :: rest) :
    c.skipLine = ⟨rest, c.index + 2, c.line + 1, 0⟩ := by
  simp only [skipLine, h]

theorem skipLine_of_single {rest : List Char} (h : c.rest = d :: rest) (breaks : isBreak d = true)
    (single : d = '\r' → rest.head? ≠ some '\n') : c.skipLine = ⟨rest, c.index + 1, c.line + 1, 0⟩ := by
  unfold skipLine
  split
  · rename_i hPair
    obtain ⟨rfl, rfl⟩ := List.cons.inj (h.symm.trans hPair)
    exact absurd rfl (single rfl)
  · rename_i hCons
    obtain ⟨rfl, rfl⟩ := List.cons.inj (h.symm.trans hCons)
    rw [if_pos breaks]
  · rename_i hNil
    cases h.symm.trans hNil

theorem Fits.skipLine_within (fits : Fits f c) :
    (c.within f).skipLine = c.skipLine.within f ∧ Fits f c.skipLine := by
  cases hBreak : c.onBreak with
  | false =>
    rw [skipLine_of_not_onBreak hBreak, skipLine_of_not_onBreak (fits.onBreak_within.trans hBreak)]
    exact ⟨rfl, fits⟩
  | true =>
    obtain ⟨d, rest, hRest, hd⟩ := exists_rest_of_onBreak hBreak
    have hWithin : (c.within f).rest = d :: (rest ++ f.tail) := by rw [rest_within, hRest]; rfl
    by_cases hPair : d = '\r' ∧ rest.head? = some '\n'
    · obtain ⟨rfl, hFeed⟩ := hPair
      obtain ⟨rest, rfl⟩ := List.head?_eq_some_iff.mp hFeed
      have hWithin : (c.within f).rest = '\r' :: '\n' :: (rest ++ f.tail) := hWithin
      rw [skipLine_of_pair hRest, skipLine_of_pair hWithin]
      refine ⟨?_, fits.of_suffix ⟨['\r', '\n'], hRest.symm⟩ fun _ => rfl⟩
      simp only [within, Nat.add_right_comm]
    · have hSingle : d = '\r' → (rest ++ f.tail).head? ≠ some '\n' := by
        rintro rfl hFeed
        cases rest with
        | cons e rest => exact hPair ⟨rfl, hFeed⟩
        | nil =>
          cases fits with
          | bare tail => simp [tail] at hFeed
          | marked more tail ends => simp [tail] at hFeed
      rw [skipLine_of_single hRest hd fun hd hFeed => hPair ⟨hd, hFeed⟩, skipLine_of_single hWithin hd hSingle]
      refine ⟨?_, fits.of_suffix ⟨[d], hRest.symm⟩ fun _ => rfl⟩
      simp only [within, Nat.add_right_comm]

theorem Fits.breakText_within (fits : Fits f c) : (c.within f).breakText = c.breakText := by
  unfold breakText
  rw [rest_within]
  cases hRest : c.rest with
  | cons d rest => rfl
  | nil =>
    cases fits with
    | bare tail => rw [tail]; rfl
    | marked more tail => rw [tail]; rfl

theorem Inside.ahead?_within (inside : Inside f c) (line : ∀ d ∈ c.rest.take n, d ≠ '\n') :
    (c.within f).ahead? n = c.ahead? n := by
  unfold ahead?
  rw [rest_within]
  rcases eq_or_ne f.tail [] with hTail | hTail
  · rw [hTail, List.append_nil]
  · refine List.getElem?_append_left ?_
    by_contra hShort
    rw [List.take_of_length_le (by omega)] at line
    exact line '\n' (inside.mem_of_tail hTail) rfl

theorem Inside.blankAhead_within (inside : Inside f c) (line : ∀ d ∈ c.rest.take n, d ≠ '\n') :
    (c.within f).blankAhead n = c.blankAhead n := by
  rw [blankAhead, inside.ahead?_within line, blankAhead]

theorem Inside.blankAhead_zero_within (inside : Inside f c) :
    (c.within f).blankAhead 0 = c.blankAhead 0 :=
  inside.blankAhead_within (by simp)

theorem Inside.ahead?_one_within (inside : Inside f c) (h : c.char? = some d) (ne : d ≠ '\n') :
    (c.within f).ahead? 1 = c.ahead? 1 := by
  obtain ⟨rest, hRest⟩ := exists_rest_of_char? h
  exact inside.ahead?_within (by simpa [hRest] using ne)

theorem Inside.blankAhead_one_within (inside : Inside f c) (h : c.char? = some d) (ne : d ≠ '\n') :
    (c.within f).blankAhead 1 = c.blankAhead 1 := by
  rw [blankAhead, inside.ahead?_one_within h ne, blankAhead]

theorem Inside.atEnd_within (inside : Inside f c) : (c.within f).atEnd = c.atEnd := by
  unfold atEnd
  rw [rest_within]
  cases hRest : c.rest with
  | nil => rw [inside.ahead hRest]; rfl
  | cons d rest => rfl

theorem contains_marker_of_mem {l : List Char} (h : '\n' ∈ l) :
    ["---".toList, "...".toList].contains l = false := by
  rw [Bool.eq_false_iff]
  intro hMarker
  rcases List.mem_cons.mp (List.contains_iff_mem.mp hMarker) with rfl | hDots
  · revert h
    decide
  · obtain rfl := List.mem_singleton.mp hDots
    revert h
    decide

theorem Inside.onDocumentMarker_within (inside : Inside f c) :
    (c.within f).onDocumentMarker = c.onDocumentMarker := by
  unfold onDocumentMarker
  rcases eq_or_ne f.tail [] with hTail | hTail
  · have hRest : (c.within f).rest = c.rest := by rw [rest_within, hTail, List.append_nil]
    rw [blankAhead, ahead?, hRest]
    rfl
  · have hFeed := inside.mem_of_tail hTail
    by_cases hLine : '\n' ∈ c.rest.take 3
    · have hWithin : '\n' ∈ (c.within f).rest.take 3 := by
        rw [rest_within, List.take_append]
        exact List.mem_append_left _ hLine
      rw [contains_marker_of_mem hLine, contains_marker_of_mem hWithin, Bool.and_false, Bool.and_false]
    · have hLong : 3 ≤ c.rest.length := by
        by_contra hShort
        rw [List.take_of_length_le (by omega)] at hLine
        exact hLine hFeed
      rw [inside.blankAhead_within fun d hd hEq => hLine (hEq ▸ hd), rest_within,
        List.take_append_of_le_length hLong]
      rfl

theorem line_of_onDocumentMarker (h : c.onDocumentMarker = true) :
    3 ≤ c.rest.length ∧ ∀ d ∈ c.rest.take 3, d ≠ '\n' := by
  have hMarker := (Bool.and_eq_true_iff.mp h).2
  constructor
  · have hLength : (c.rest.take 3).length = 3 := by
      rcases List.mem_cons.mp (List.contains_iff_mem.mp hMarker) with hDashes | hDots
      · rw [hDashes]
        rfl
      · rw [List.mem_singleton.mp hDots]
        rfl
    rw [List.length_take] at hLength
    omega
  · intro d hd hFeed
    rw [contains_marker_of_mem (hFeed ▸ hd)] at hMarker
    cases hMarker

theorem onDocumentMarker_of_atEnd (rest : c.rest = []) : c.onDocumentMarker = false := by
  simp [onDocumentMarker, rest]

theorem Fits.inside_or_onDocumentMarker (fits : Fits f c) :
    Inside f c ∨ (c.rest = [] ∧ c.column = 0 ∧ (c.within f).onDocumentMarker = true) := by
  cases hChar : c.char? with
  | some d => exact .inl (fits.inside hChar)
  | none =>
    have hRest : c.rest = [] := List.head?_eq_none_iff.mp hChar
    cases hFits : fits with
    | bare tail => exact .inl ⟨fits, fun _ => tail⟩
    | marked more tail ends =>
      refine .inr ⟨hRest, ends.column hRest, ?_⟩
      simp [onDocumentMarker, blankAhead, ahead?, hRest, tail, ends.column hRest, isBreak]

theorem exists_succ_of_le {fuel more : Nat} (h : fuel + 1 ≤ more) : ∃ k, more = k + 1 ∧ fuel ≤ k :=
  ⟨more - 1, by omega, by omega⟩

theorem length_le_within : c.rest.length + 1 ≤ (c.within f).rest.length + 1 := by
  simp

end Cursor

end DeliveryPipeline.Yaml

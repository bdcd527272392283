import DeliveryPipeline.Proofs.Yaml.Cursor
import DeliveryPipeline.Yaml.Scalar

/-! # Scalars inside a longer text

A scalar that is read in a text is read in every longer text that the text fits into, and ends at the same
place there. A scalar that reaches to the end of its text ends before the document marker.
-/

namespace DeliveryPipeline.Yaml

set_option autoImplicit false

open Cursor

variable {f : Frame} {c d : Cursor} {fuel more : Nat}

theorem readGap_within {tabLimit : Nat} {gap found : Gap} (h : readGap tabLimit fuel gap c = some (found, d))
    (fits : Fits f c) (enough : fuel ≤ more) :
    readGap tabLimit more gap (c.within f) = some (found, d.within f) ∧ Fits f d := by
  induction fuel generalizing gap c more with
  | zero => cases h
  | succ fuel ih =>
    obtain ⟨more, rfl, hMore⟩ := exists_succ_of_le enough
    cases hChar : c.char? with
    | none =>
      simp only [readGap, hChar, Option.some.injEq, Prod.mk.injEq] at h
      obtain ⟨rfl, rfl⟩ := h
      refine ⟨?_, fits⟩
      rcases fits.char?_within_of_none hChar with hEnd | hDash
      · simp only [readGap, hEnd]
      · simp [readGap, hDash, isSpaceOrTab, isBreak]
    | some e =>
      have hSkip := skip_within (f := f) hChar
      simp only [readGap, char?_within hChar, hSkip, fits.skipLine_within.1, fits.breakText_within,
        column_within]
      simp only [readGap, hChar] at h
      by_cases hBlank : isSpaceOrTab e = true
      · have hNext : Fits f c.skip := by
          refine ((fits.inside hChar).skip hChar ?_).fits
          rintro rfl
          cases hBlank
        rw [if_pos hBlank] at h ⊢
        by_cases hBroken : gap.broken = true
        · rw [if_pos hBroken] at h ⊢
          split at h
          · cases h
          · rename_i hTab
            rw [if_neg hTab]
            exact ih h hNext hMore
        · rw [if_neg hBroken] at h ⊢
          exact ih h hNext hMore
      · rw [if_neg hBlank] at h ⊢
        split at h
        · rename_i hBreak
          rw [if_pos hBreak]
          split at h
          · rename_i hBroken
            rw [if_pos hBroken]
            exact ih h fits.skipLine_within.2 hMore
          · rename_i hBroken
            rw [if_neg hBroken]
            exact ih h fits.skipLine_within.2 hMore
        · rename_i hBreak
          rw [if_neg hBreak]
          obtain ⟨rfl, rfl⟩ := Prod.mk.inj (Option.some.inj h)
          exact ⟨rfl, fits⟩

theorem endsPlain_within (flow : Bool) (inside : Inside f c) :
    endsPlain flow (c.within f) = endsPlain flow c := by
  unfold endsPlain
  rw [inside.is_within, inside.char?_within]
  by_cases hColon : c.is ':' = true
  · rw [inside.blankAhead_one_within (char?_of_is hColon) (by decide)]
  · rw [Bool.not_eq_true] at hColon
    rw [hColon, Bool.false_and, Bool.false_and]

theorem misplacedColon_within (flow : Bool) (inside : Inside f c) :
    misplacedColon flow (c.within f) = misplacedColon flow c := by
  unfold misplacedColon
  rw [inside.is_within]
  by_cases hColon : c.is ':' = true
  · rw [inside.ahead?_one_within (char?_of_is hColon) (by decide)]
  · rw [Bool.not_eq_true] at hColon
    rw [hColon, Bool.and_false, Bool.false_and, Bool.false_and]

theorem blankAhead_zero_of_feed (h : c.char? = some '\n') : c.blankAhead 0 = true := by
  obtain ⟨rest, hRest⟩ := exists_rest_of_char? h
  simp [blankAhead, ahead?, hRest, isBreak]

theorem readPlainRun_within {flow : Bool} {run read : List Char}
    (h : readPlainRun flow fuel run c = some (read, d)) (inside : Inside f c) (enough : fuel ≤ more) :
    readPlainRun flow more run (c.within f) = some (read, d.within f) ∧ Inside f d := by
  induction fuel generalizing run c more with
  | zero => cases h
  | succ fuel ih =>
    obtain ⟨more, rfl, hMore⟩ := exists_succ_of_le enough
    simp only [readPlainRun, inside.blankAhead_zero_within, misplacedColon_within flow inside,
      endsPlain_within flow inside, inside.char?_within]
    simp only [readPlainRun] at h
    by_cases hBlank : c.blankAhead 0 = true
    · rw [if_pos hBlank] at h ⊢
      obtain ⟨rfl, rfl⟩ := Prod.mk.inj (Option.some.inj h)
      exact ⟨rfl, inside⟩
    rw [if_neg hBlank] at h ⊢
    by_cases hColon : misplacedColon flow c = true
    · rw [if_pos hColon] at h
      cases h
    rw [if_neg hColon] at h ⊢
    by_cases hEnds : endsPlain flow c = true
    · rw [if_pos hEnds] at h ⊢
      obtain ⟨rfl, rfl⟩ := Prod.mk.inj (Option.some.inj h)
      exact ⟨rfl, inside⟩
    rw [if_neg hEnds] at h ⊢
    cases hChar : c.char? with
    | none =>
      rw [hChar] at h
      obtain ⟨rfl, rfl⟩ := Prod.mk.inj (Option.some.inj h)
      exact ⟨rfl, inside⟩
    | some e =>
      rw [hChar] at h
      dsimp only at h ⊢
      rw [skip_within hChar]
      refine ih h (inside.skip hChar ?_) hMore
      rintro rfl
      exact hBlank (blankAhead_zero_of_feed hChar)

theorem readPlain_of_atEnd (flow : Bool) (indent : Nat) (text : List Char) (gap : Gap) (rest : c.rest = []) :
    readPlain flow indent (fuel + 1) text gap c = some ⟨text, gap.broken, c⟩ := by
  have hRun : readPlainRun flow 1 [] c = some ([], c) := by simp [readPlainRun, blankAhead, ahead?, rest]
  simp [readPlain, onDocumentMarker_of_atEnd rest, is, char?, rest, hRun, onBlank, onBreak]

theorem readPlain_of_onDocumentMarker (flow : Bool) (indent : Nat) (text : List Char) (gap : Gap)
    (marker : c.onDocumentMarker = true) :
    readPlain flow indent (fuel + 1) text gap c = some ⟨text, gap.broken, c⟩ := by
  simp [readPlain, marker]

theorem readPlain_within {flow : Bool} {indent : Nat} {text : List Char} {gap : Gap} {scalar : PlainScalar}
    (h : readPlain flow indent fuel text gap c = some scalar) (fits : Fits f c) (enough : fuel ≤ more) :
    readPlain flow indent more text gap (c.within f) =
      some { scalar with cursor := scalar.cursor.within f } ∧ Fits f scalar.cursor := by
  induction fuel generalizing text gap c more with
  | zero => cases h
  | succ fuel ih =>
    obtain ⟨more, rfl, hMore⟩ := exists_succ_of_le enough
    -- where the text has ended, a document marker may stand in the longer one
    rcases fits.inside_or_onDocumentMarker with hInside | ⟨hEnd, -, hMarker⟩
    · simp only [readPlain, hInside.onDocumentMarker_within, hInside.is_within]
      simp only [readPlain] at h
      by_cases hStop : (c.onDocumentMarker || c.is '#') = true
      · rw [if_pos hStop] at h ⊢
        obtain rfl := Option.some.inj h
        exact ⟨rfl, fits⟩
      rw [if_neg hStop] at h ⊢
      obtain ⟨⟨run, c'⟩, hRun, h⟩ := Option.bind_eq_some_iff.mp h
      obtain ⟨hRunWithin, hInside'⟩ := readPlainRun_within hRun hInside (length_le_within (f := f))
      simp only [hRunWithin, Option.bind_eq_bind, Option.bind_some, hInside'.fits.onBlank_within,
        hInside'.fits.onBreak_within]
      simp only [Option.bind_eq_bind] at h
      generalize hJoined : (if run.isEmpty = true then (text, gap) else
        (text ++ gap.text ++ run.reverse, Gap.none)) = joined at h ⊢
      obtain ⟨text', gap'⟩ := joined
      dsimp only at h ⊢
      split at h
      · rename_i hLast
        rw [if_pos hLast]
        obtain rfl := Option.some.inj h
        exact ⟨rfl, hInside'.fits⟩
      rename_i hLast
      rw [if_neg hLast]
      obtain ⟨⟨gap'', c''⟩, hGap, h⟩ := Option.bind_eq_some_iff.mp h
      obtain ⟨hGapWithin, hFits''⟩ := readGap_within hGap hInside'.fits (length_le_within (f := f))
      simp only [hGapWithin, Option.bind_some, column_within]
      dsimp only at h
      split at h
      · rename_i hIndent
        rw [if_pos hIndent]
        obtain rfl := Option.some.inj h
        exact ⟨rfl, hFits''⟩
      · rename_i hIndent
        rw [if_neg hIndent]
        exact ih h hFits'' hMore
    · rw [readPlain_of_atEnd flow indent text gap hEnd] at h
      obtain rfl := Option.some.inj h
      exact ⟨readPlain_of_onDocumentMarker flow indent text gap hMarker, fits⟩

theorem hexDigit?_feed : Json.hexDigit? '\n' = none := by decide

theorem ne_feed_of_hexValue {digits : List Char} {start n : Nat}
    (h : digits.foldlM (fun n c => (Json.hexDigit? c).map fun d => n * 16 + d) start = some n) :
    ∀ e ∈ digits, e ≠ '\n' := by
  induction digits generalizing start with
  | nil => simp
  | cons digit digits ih =>
    rw [List.foldlM_cons] at h
    obtain ⟨value, hDigit, h⟩ := Option.bind_eq_some_iff.mp h
    rw [List.forall_mem_cons]
    refine ⟨?_, ih h⟩
    rintro rfl
    simp [hexDigit?_feed] at hDigit

theorem readEscape_within {e : Char} (h : readEscape c = some (e, d)) (inside : Inside f c) :
    readEscape (c.within f) = some (e, d.within f) ∧ Inside f d := by
  obtain ⟨letter, hLetter, h⟩ := Option.bind_eq_some_iff.mp h
  obtain ⟨rest, hRest⟩ := exists_rest_of_char? hLetter
  have hFeed : escapeLength? letter ≠ none ∨ escaped? letter ≠ none → letter ≠ '\n' := by
    rintro hOr rfl
    revert hOr
    decide
  simp only [readEscape, inside.char?_within, hLetter, Option.bind_eq_bind, Option.bind_some]
  cases hLength : escapeLength? letter with
  | some count =>
    simp only [hLength] at h
    split at h
    · cases h
    rename_i hLong
    have hCount : count ≤ rest.length := by
      simp only [hRest, List.drop_one, List.tail_cons, List.length_take] at hLong
      omega
    have hDigits : ((c.within f).rest.drop 1).take count = (c.rest.drop 1).take count := by
      rw [rest_within, hRest]
      exact List.take_append_of_le_length hCount
    dsimp only
    rw [hDigits, if_neg hLong]
    obtain ⟨n, hValue, h⟩ := Option.bind_eq_some_iff.mp h
    rw [hValue, Option.bind_some]
    split at h
    · cases h
    rename_i hRange
    rw [if_neg hRange]
    obtain ⟨rfl, rfl⟩ := Prod.mk.inj (Option.some.inj h)
    rw [skips_within (by rw [hRest]; simpa using hCount)]
    refine ⟨rfl, inside.skips ?_⟩
    rw [hRest, List.take_succ_cons, List.forall_mem_cons]
    have hDigits : (rest.take count).foldlM (fun n c => (Json.hexDigit? c).map fun d => n * 16 + d) 0 = some n := by
      simpa [hRest, hexValue] using hValue
    exact ⟨hFeed (.inl (by simp [hLength])), ne_feed_of_hexValue hDigits⟩
  | none =>
    simp only [hLength] at h
    obtain ⟨e', hEscaped, h⟩ := Option.map_eq_some_iff.mp h
    obtain ⟨rfl, rfl⟩ := Prod.mk.inj h
    dsimp only
    rw [hEscaped, skip_within hLetter]
    exact ⟨rfl, inside.skip hLetter (hFeed (.inr (by simp [hEscaped])))⟩

theorem readQuotedRun_within {single escaped : Bool} {run read : List Char}
    (h : readQuotedRun single fuel run c = some (read, escaped, d)) (inside : Inside f c) (enough : fuel ≤ more) :
    readQuotedRun single more run (c.within f) = some (read, escaped, d.within f) ∧ Fits f d := by
  induction fuel generalizing run c more with
  | zero => cases h
  | succ fuel ih =>
    obtain ⟨more, rfl, hMore⟩ := exists_succ_of_le enough
    simp only [readQuotedRun, inside.blankAhead_zero_within, inside.is_within, inside.char?_within]
    simp only [readQuotedRun] at h
    by_cases hBlank : c.blankAhead 0 = true
    · rw [if_pos hBlank] at h ⊢
      simp only [Option.some.injEq, Prod.mk.injEq] at h
      obtain ⟨rfl, rfl, rfl⟩ := h
      exact ⟨rfl, inside.fits⟩
    rw [if_neg hBlank] at h ⊢
    have hAheadIs : (single && c.is '\'' && (c.within f).aheadIs 1 '\'') =
        (single && c.is '\'' && c.aheadIs 1 '\'') := by
      by_cases hQuote : c.is '\'' = true
      · rw [aheadIs, inside.ahead?_one_within (char?_of_is hQuote) (by decide), aheadIs]
      · rw [Bool.not_eq_true] at hQuote
        rw [hQuote, Bool.and_false, Bool.false_and, Bool.false_and]
    rw [hAheadIs]
    by_cases hPair : (single && c.is '\'' && c.aheadIs 1 '\'') = true
    · rw [if_pos hPair] at h ⊢
      simp only [Bool.and_eq_true, and_assoc] at hPair
      obtain ⟨-, hQuote, hAhead⟩ := hPair
      obtain ⟨rest, hRest⟩ := exists_rest_of_char? (char?_of_is hQuote)
      have hSecond : rest.head? = some '\'' := by
        simpa [aheadIs, ahead?, hRest, List.head?_eq_getElem?] using hAhead
      obtain ⟨rest, rfl⟩ := List.head?_eq_some_iff.mp hSecond
      rw [skips_within (by simp [hRest])]
      exact ih h (inside.skips (by simp [hRest])) hMore
    rw [if_neg hPair] at h ⊢
    by_cases hClosed : c.is (if single = true then '\'' else '"') = true
    · rw [if_pos hClosed] at h ⊢
      simp only [Option.some.injEq, Prod.mk.injEq] at h
      obtain ⟨rfl, rfl, rfl⟩ := h
      exact ⟨rfl, inside.fits⟩
    rw [if_neg hClosed] at h ⊢
    by_cases hEscape : (!single && c.is '\\') = true
    · rw [if_pos hEscape] at h ⊢
      have hSlash := char?_of_is (Bool.and_eq_true_iff.mp hEscape).2
      have hNext := inside.skip hSlash (by decide)
      rw [inside.ahead?_one_within hSlash (by decide), skip_within hSlash]
      split at h
      · rename_i hBreak
        rw [if_pos hBreak, hNext.fits.skipLine_within.1]
        simp only [Option.some.injEq, Prod.mk.injEq] at h
        obtain ⟨rfl, rfl, rfl⟩ := h
        exact ⟨rfl, hNext.fits.skipLine_within.2⟩
      · rename_i hBreak
        rw [if_neg hBreak]
        obtain ⟨⟨e, c'⟩, hRead, h⟩ := Option.bind_eq_some_iff.mp h
        obtain ⟨hReadWithin, hInside'⟩ := readEscape_within hRead hNext
        rw [hReadWithin]
        exact ih h hInside' hMore
    rw [if_neg hEscape] at h ⊢
    cases hChar : c.char? with
    | none =>
      rw [hChar] at h
      cases h
    | some e =>
      rw [hChar] at h
      dsimp only at h ⊢
      rw [skip_within hChar]
      refine ih h (inside.skip hChar ?_) hMore
      rintro rfl
      exact hBlank (blankAhead_zero_of_feed hChar)

theorem readQuoted_within {single : Bool} {text read : List Char}
    (h : readQuoted single fuel text c = some (read, d)) (fits : Fits f c) (enough : fuel ≤ more) :
    readQuoted single more text (c.within f) = some (read, d.within f) ∧ Inside f d := by
  induction fuel generalizing text c more with
  | zero => cases h
  | succ fuel ih =>
    obtain ⟨more, rfl, hMore⟩ := exists_succ_of_le enough
    simp only [readQuoted] at h ⊢
    generalize hMark : (if single = true then '\'' else '"') = mark at h ⊢
    have hDash : '-' ≠ mark := by rw [← hMark]; cases single <;> decide
    have hFeed : mark ≠ '\n' := by rw [← hMark]; cases single <;> decide
    -- where the text has ended, the closing quote is missing, so nothing was read there
    by_cases hStop : (c.onDocumentMarker || c.atEnd) = true
    · rw [if_pos hStop] at h
      cases h
    rw [if_neg hStop] at h
    have hInside : Inside f c := by
      refine ⟨fits, fun hRest => ?_⟩
      simp [atEnd, hRest] at hStop
    rw [hInside.onDocumentMarker_within, hInside.atEnd_within, if_neg hStop]
    obtain ⟨⟨run, escaped, c'⟩, hRun, h⟩ := Option.bind_eq_some_iff.mp h
    obtain ⟨hRunWithin, hFits'⟩ := readQuotedRun_within hRun hInside (length_le_within (f := f))
    simp only [hRunWithin, Option.bind_eq_bind, Option.bind_some, hFits'.is_within hDash]
    dsimp only at h
    split at h
    · rename_i hClosed
      obtain ⟨rfl, rfl⟩ := Prod.mk.inj (Option.some.inj h)
      rw [if_pos hClosed, skip_within (char?_of_is hClosed)]
      exact ⟨rfl, (hFits'.inside (char?_of_is hClosed)).skip (char?_of_is hClosed) hFeed⟩
    · rename_i hClosed
      rw [if_neg hClosed]
      obtain ⟨⟨gap, c''⟩, hGap, h⟩ := Option.bind_eq_some_iff.mp h
      obtain ⟨hGapWithin, hFits''⟩ := readGap_within hGap hFits' (length_le_within (f := f))
      simp only [hGapWithin, Option.bind_some]
      exact ih h hFits'' hMore

theorem readIndentation_within {indent deepest found : Nat} {breaks read : List Char}
    (h : readIndentation indent fuel deepest breaks c = some (found, read, d)) (fits : Fits f c)
    (enough : fuel ≤ more) :
    readIndentation indent more deepest breaks (c.within f) = some (found, read, d.within f) ∧ Fits f d := by
  induction fuel generalizing deepest breaks c more with
  | zero => cases h
  | succ fuel ih =>
    obtain ⟨more, rfl, hMore⟩ := exists_succ_of_le enough
    simp only [readIndentation, fits.takeWhile_within (p := (· = ' ')) (by decide) (by decide), column_within]
    simp only [readIndentation] at h
    generalize hCount : (if indent = 0 then (c.rest.takeWhile (· = ' ')).length
      else min (c.rest.takeWhile (· = ' ')).length (indent - c.column)) = count at h ⊢
    have hLe : count ≤ (c.rest.takeWhile (· = ' ')).length := by
      rw [← hCount]
      split
      · exact Nat.le_refl _
      · exact Nat.min_le_left _ _
    obtain ⟨hWithin, hFits'⟩ := fits.skips_of_le_takeWhile (by decide) hLe
    simp only [hWithin, column_within, hFits'.is_within (d := '\t') (by decide), hFits'.onBreak_within,
      hFits'.breakText_within, hFits'.skipLine_within.1]
    split at h
    · cases h
    rename_i hTab
    rw [if_neg hTab]
    split at h
    · rename_i hBreak
      rw [if_pos hBreak]
      exact ih h hFits'.skipLine_within.2 hMore
    · rename_i hBreak
      rw [if_neg hBreak]
      simp only [Option.some.injEq, Prod.mk.injEq] at h
      obtain ⟨rfl, rfl, rfl⟩ := h
      exact ⟨rfl, hFits'⟩

/-- A block scalar that reaches to the end of its text ends before the document marker, which is not
indented. -/
theorem readBlockLines_within {literal indented : Bool} {indent : Nat}
    {text lastBreak breaks read last empty : List Char}
    (h : readBlockLines literal indent fuel text lastBreak breaks indented c = some (read, last, empty, d))
    (fits : Fits f c) (positive : 0 < indent) (enough : fuel ≤ more) :
    readBlockLines literal indent more text lastBreak breaks indented (c.within f) =
      some (read, last, empty, d.within f) ∧ Fits f d := by
  induction fuel generalizing text lastBreak breaks indented c more with
  | zero => cases h
  | succ fuel ih =>
    obtain ⟨more, rfl, hMore⟩ := exists_succ_of_le enough
    have hGuard : (decide ((c.within f).column = indent) && !(c.within f).atEnd) =
        (decide (c.column = indent) && !c.atEnd) := by
      rw [column_within]
      rcases fits.inside_or_onDocumentMarker with hInside | ⟨-, hColumn, -⟩
      · rw [hInside.atEnd_within]
      · rw [decide_eq_false (by omega), Bool.false_and, Bool.false_and]
    simp only [readBlockLines, hGuard]
    simp only [readBlockLines] at h
    by_cases hLine : (decide (c.column = indent) && !c.atEnd) = true
    · rw [if_pos hLine] at h ⊢
      have hInside : Inside f c := by
        refine ⟨fits, fun hRest => ?_⟩
        simp [atEnd, hRest] at hLine
      obtain ⟨hSkips, hInside'⟩ := hInside.skips_takeWhile (p := fun e => !isBreak e) (by decide)
      rw [hInside.takeWhile_within (by decide), hSkips, fits.onBlank_within, hInside'.fits.breakText_within,
        hInside'.fits.skipLine_within.1]
      obtain ⟨⟨_, breaks', c'⟩, hIndentation, h⟩ := Option.bind_eq_some_iff.mp h
      obtain ⟨hWithin, hFits'⟩ := readIndentation_within hIndentation hInside'.fits.skipLine_within.2
        (show _ ≤ ((c.skips _).within f).rest.length + 1 from length_le_within)
      simp only [hWithin, Option.bind_eq_bind, Option.bind_some]
      exact ih h hFits' hMore
    · rw [if_neg hLine] at h ⊢
      simp only [Option.some.injEq, Prod.mk.injEq] at h ⊢
      obtain ⟨rfl, rfl, rfl, rfl⟩ := h
      exact ⟨⟨rfl, rfl, rfl, rfl⟩, fits⟩

def readChomping (c : Cursor) : Chomping × Cursor :=
  if c.is '+' then (.keep, c.skip) else if c.is '-' then (.strip, c.skip) else (.clip, c)

def readIncrement (c : Cursor) : Option (Nat × Cursor) :=
  match c.char? with
  | some d =>
    if d = '0' then none
    else if '1' ≤ d ∧ d ≤ '9' then some (d.toNat - '0'.toNat, c.skip)
    else some (0, c)
  | none => some (0, c)

theorem readBlockHeader_eq :
    readBlockHeader c = if c.is '+' || c.is '-' then
      (readIncrement (readChomping c).2).bind fun (increment, c') =>
        some ((readChomping c).1, increment, c')
    else
      (readIncrement c).bind fun (increment, c') =>
        if increment = 0 then some (.clip, 0, c')
        else some ((readChomping c').1, increment, (readChomping c').2) := rfl

theorem readChomping_within (inside : Inside f c) :
    readChomping (c.within f) = ((readChomping c).1, (readChomping c).2.within f) ∧
      Inside f (readChomping c).2 := by
  simp only [readChomping, inside.is_within]
  by_cases hPlus : c.is '+' = true
  · rw [if_pos hPlus, if_pos hPlus, skip_within (char?_of_is hPlus)]
    exact ⟨rfl, inside.skip (char?_of_is hPlus) (by decide)⟩
  rw [if_neg hPlus, if_neg hPlus]
  by_cases hMinus : c.is '-' = true
  · rw [if_pos hMinus, if_pos hMinus, skip_within (char?_of_is hMinus)]
    exact ⟨rfl, inside.skip (char?_of_is hMinus) (by decide)⟩
  · rw [if_neg hMinus, if_neg hMinus]
    exact ⟨rfl, inside⟩

theorem readIncrement_within {increment : Nat} (h : readIncrement c = some (increment, d))
    (inside : Inside f c) :
    readIncrement (c.within f) = some (increment, d.within f) ∧ Inside f d := by
  simp only [readIncrement, inside.char?_within] at h ⊢
  cases hChar : c.char? with
  | none =>
    simp only [hChar, Option.some.injEq, Prod.mk.injEq] at h ⊢
    obtain ⟨rfl, rfl⟩ := h
    exact ⟨⟨rfl, rfl⟩, inside⟩
  | some e =>
    simp only [hChar] at h ⊢
    split at h
    · cases h
    rename_i hZero
    rw [if_neg hZero]
    split at h
    · rename_i hDigit
      rw [if_pos hDigit, skip_within hChar]
      simp only [Option.some.injEq, Prod.mk.injEq] at h ⊢
      obtain ⟨rfl, rfl⟩ := h
      refine ⟨⟨rfl, rfl⟩, inside.skip hChar ?_⟩
      rintro rfl
      revert hDigit
      decide
    · rename_i hDigit
      rw [if_neg hDigit]
      simp only [Option.some.injEq, Prod.mk.injEq] at h ⊢
      obtain ⟨rfl, rfl⟩ := h
      exact ⟨⟨rfl, rfl⟩, inside⟩

theorem readBlockHeader_within {mode : Chomping} {increment : Nat}
    (h : readBlockHeader c = some (mode, increment, d)) (inside : Inside f c) :
    readBlockHeader (c.within f) = some (mode, increment, d.within f) ∧ Inside f d := by
  rw [readBlockHeader_eq] at h ⊢
  simp only [inside.is_within]
  by_cases hSign : (c.is '+' || c.is '-') = true
  · rw [if_pos hSign] at h ⊢
    obtain ⟨⟨n, c'⟩, hIncrement, h⟩ := Option.bind_eq_some_iff.mp h
    obtain ⟨hChomping, hInside⟩ := readChomping_within inside
    obtain ⟨hWithin, hInside'⟩ := readIncrement_within hIncrement hInside
    simp only [hChomping, hWithin, Option.bind_some]
    simp only [Option.some.injEq, Prod.mk.injEq] at h ⊢
    obtain ⟨rfl, rfl, rfl⟩ := h
    exact ⟨⟨rfl, rfl, rfl⟩, hInside'⟩
  · rw [if_neg hSign] at h ⊢
    obtain ⟨⟨n, c'⟩, hIncrement, h⟩ := Option.bind_eq_some_iff.mp h
    obtain ⟨hWithin, hInside⟩ := readIncrement_within hIncrement inside
    simp only [hWithin, Option.bind_some]
    dsimp only at h
    split at h
    · rename_i hZero
      simp only [if_pos hZero, Option.some.injEq, Prod.mk.injEq] at h ⊢
      obtain ⟨rfl, rfl, rfl⟩ := h
      exact ⟨⟨rfl, rfl, rfl⟩, hInside⟩
    · rename_i hZero
      obtain ⟨hChomping, hInside'⟩ := readChomping_within hInside
      simp only [if_neg hZero, hChomping, Option.some.injEq, Prod.mk.injEq] at h ⊢
      obtain ⟨rfl, rfl, rfl⟩ := h
      exact ⟨⟨rfl, rfl, rfl⟩, hInside'⟩

theorem finishLine_within (h : finishLine c = some d) (inside : Inside f c) :
    finishLine (c.within f) = some (d.within f) ∧ Fits f d := by
  obtain ⟨hBlanks, hInside⟩ := inside.skipWhile_within (p := isSpaceOrTab) (by decide)
  generalize hStart : c.skipWhile isSpaceOrTab = start at hBlanks hInside
  have hComment : (if (start.within f).is '#' then (start.within f).skipWhile fun e => !isBreak e
      else start.within f) = (if start.is '#' then start.skipWhile fun e => !isBreak e else start).within f ∧
      Inside f (if start.is '#' then start.skipWhile fun e => !isBreak e else start) := by
    rw [hInside.is_within]
    split
    · exact hInside.skipWhile_within (by decide)
    · exact ⟨rfl, hInside⟩
  simp only [finishLine, hBlanks, hComment.1]
  simp only [finishLine, hStart] at h
  generalize (if start.is '#' then start.skipWhile fun e => !isBreak e else start) = last at h hComment
  have hEnd : (last.within f).onBreakOrEnd = last.onBreakOrEnd := by
    rw [onBreakOrEnd, hComment.2.char?_within, onBreakOrEnd]
  rw [hEnd]
  split at h
  · rename_i hBreak
    obtain rfl := Option.some.inj h
    rw [if_pos hBreak, hComment.2.fits.skipLine_within.1]
    exact ⟨rfl, hComment.2.fits.skipLine_within.2⟩
  · cases h

theorem readBlock_within {literal : Bool} {outer : Option Nat} {text : List Char}
    (h : readBlock literal outer c = some (text, d)) (inside : Inside f c) :
    readBlock literal outer (c.within f) = some (text, d.within f) ∧ Fits f d := by
  obtain ⟨⟨mode, increment, c₁⟩, hHeader, h⟩ := Option.bind_eq_some_iff.mp h
  obtain ⟨c₂, hLine, h⟩ := Option.bind_eq_some_iff.mp h
  dsimp only at h
  obtain ⟨⟨deepest, breaks, c₃⟩, hIndentation, h⟩ := Option.bind_eq_some_iff.mp h
  dsimp only at h
  obtain ⟨⟨read, lastBreak, moreBreaks, c₄⟩, hLines, h⟩ := Option.bind_eq_some_iff.mp h
  obtain ⟨hHeaderWithin, hInside₁⟩ := readBlockHeader_within hHeader inside
  obtain ⟨hLineWithin, hFits₂⟩ := finishLine_within hLine hInside₁
  obtain ⟨hIndentationWithin, hFits₃⟩ :=
    readIndentation_within hIndentation hFits₂ (length_le_within (f := f))
  have hPositive : ∀ found given : Nat, 0 < if given = 0 then max found 1 else given := by
    intro found given
    split <;> omega
  obtain ⟨hLinesWithin, hFits₄⟩ :=
    readBlockLines_within hLines hFits₃ (hPositive _ _) (length_le_within (f := f))
  simp only [readBlock, hHeaderWithin, hLineWithin, hIndentationWithin, hLinesWithin, Option.bind_eq_bind,
    Option.bind_some]
  cases mode with
  | strip | clip | keep =>
    simp only [Option.some.injEq, Prod.mk.injEq] at h ⊢
    obtain ⟨rfl, rfl⟩ := h
    exact ⟨⟨rfl, rfl⟩, hFits₄⟩

end DeliveryPipeline.Yaml

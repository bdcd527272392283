import DeliveryPipeline.Proofs.Yaml.Stream

/-! # Reading tokens inside a longer text

Every token that is read in a text is read in every longer one, from the state at the same place to the state
at the same place. Only the end of the text is something else there: nothing, or the marker that
starts the next document.
-/

namespace DeliveryPipeline.Yaml.Stream

set_option autoImplicit false

open Cursor

variable {f : Frame} {earlier : List Token} {s s' : Stream} {token : Token} {d : Char}

/-- Whatever state reading leads to, it leads to the state at the same place in the longer text. -/
def Agrees (f : Frame) (earlier : List Token) (o o' : Option Stream) : Prop :=
  ∀ s', o = some s' → o' = some (s'.within f earlier) ∧ Fits f s'.cursor

theorem Agrees.none {o : Option Stream} : Agrees f earlier none o := nofun

theorem Agrees.ite {p : Prop} [Decidable p] {a a' b b' : Option Stream} (h : p → Agrees f earlier a a')
    (h' : ¬p → Agrees f earlier b b') : Agrees f earlier (if p then a else b) (if p then a' else b') := by
  split
  · rename_i hp
    exact h hp
  · rename_i hp
    exact h' hp

theorem Agrees.bind {o : Option Stream} {g g' : Stream → Option Stream}
    (h : ∀ s₁, o = some s₁ → Agrees f earlier (g s₁) (g' (s₁.within f earlier))) :
    Agrees f earlier (o.bind g) ((o.map (within f earlier)).bind g') := by
  cases o with
  | none => exact .none
  | some s₁ => exact h s₁ rfl

theorem Agrees.some (fits : Fits f s.cursor) : Agrees f earlier (some s) (some (s.within f earlier)) := by
  intro s' h
  obtain rfl := Option.some.inj h
  exact ⟨rfl, fits⟩

theorem agrees_characters {n : Nat} (inside : Inside f s.cursor) (long : n ≤ s.cursor.rest.length)
    (line : ∀ e ∈ s.cursor.rest.take n, e ≠ '\n') :
    Agrees f earlier (some (s.indicator n token)) (some ((s.within f earlier).indicator n token)) := by
  rw [indicator_within long]
  exact .some (inside.skips line).fits

theorem agrees_indicator (inside : Inside f s.cursor) (char : s.cursor.char? = some d) (ne : d ≠ '\n') :
    Agrees f earlier (some (s.indicator 1 token)) (some ((s.within f earlier).indicator 1 token)) := by
  obtain ⟨rest, hRest⟩ := exists_rest_of_char? char
  exact agrees_characters inside (by simp [hRest]) (by simpa [hRest] using ne)

theorem agrees_openFlow (inside : Inside f s.cursor) (char : s.cursor.char? = some d) (ne : d ≠ '\n') :
    Agrees f earlier (s.openFlow token) ((s.within f earlier).openFlow token) := by
  unfold openFlow
  rw [noteKey_within]
  refine .bind fun s₁ hNote => ?_
  rw [← cursor_of_noteKey hNote] at inside char
  exact agrees_indicator (s := { s₁ with keys := Option.none :: s₁.keys, keyAllowed := true }) inside char ne

theorem agrees_closeFlow (inside : Inside f s.cursor) (char : s.cursor.char? = some d) (ne : d ≠ '\n') :
    Agrees f earlier (s.closeFlow token) ((s.within f earlier).closeFlow token) := by
  unfold closeFlow
  rw [dropKey_within]
  refine .bind fun s₁ hDrop => ?_
  rw [← cursor_of_dropKey hDrop] at inside char
  obtain ⟨cursor, tokens, indents, keys, keyAllowed, finished⟩ := s₁
  match keys with
  | [] => exact agrees_indicator (s := ⟨cursor, tokens, indents, [], false, finished⟩) inside char ne
  | [key] => exact agrees_indicator (s := ⟨cursor, tokens, indents, [key], false, finished⟩) inside char ne
  | _ :: key :: outer =>
    exact agrees_indicator (s := ⟨cursor, tokens, indents, key :: outer, false, finished⟩) inside char ne

theorem agrees_flowEntry (inside : Inside f s.cursor) (char : s.cursor.char? = some d) (ne : d ≠ '\n') :
    Agrees f earlier s.flowEntry (s.within f earlier).flowEntry := by
  unfold flowEntry
  rw [dropKey_within]
  refine .bind fun s₁ hDrop => ?_
  rw [← cursor_of_dropKey hDrop] at inside char
  exact agrees_indicator (s := { s₁ with keyAllowed := true }) inside char ne

theorem roll_here_within : (s.within f earlier).roll (s.within f earlier).cursor.column
    (s.within f earlier).tokenCount token = (s.roll s.cursor.column s.tokenCount token).within f earlier := by
  rw [tokenCount_within, roll_within, cursor_within, column_within]

theorem agrees_blockEntry (inside : Inside f s.cursor) (char : s.cursor.char? = some d) (ne : d ≠ '\n') :
    Agrees f earlier s.blockEntry (s.within f earlier).blockEntry := by
  simp only [blockEntry, inFlow_within, keyAllowed_within]
  refine .ite (fun _ => .none) fun _ => ?_
  rw [roll_here_within, dropKey_within]
  refine .bind fun s₁ hDrop => ?_
  have hCursor := (cursor_of_dropKey hDrop).trans (cursor_roll _ _)
  rw [← hCursor] at inside char
  exact agrees_indicator (s := { s₁ with keyAllowed := true }) inside char ne

theorem agrees_explicitKey (inside : Inside f s.cursor) (char : s.cursor.char? = some d) (ne : d ≠ '\n') :
    Agrees f earlier s.explicitKey (s.within f earlier).explicitKey := by
  simp only [explicitKey, inFlow_within, keyAllowed_within]
  refine .ite (fun _ => .none) fun _ => ?_
  rw [roll_here_within, dropKey_within]
  refine .bind fun s₁ hDrop => ?_
  have hCursor := (cursor_of_dropKey hDrop).trans (cursor_roll _ _)
  rw [← hCursor] at inside char
  rw [inFlow_within]
  exact agrees_indicator (s := { s₁ with keyAllowed := !s₁.inFlow }) inside char ne

theorem withKey_within (place : KeyPlace) :
    (s.within f earlier).withKey (shift f earlier.length place) = (s.withKey place).within f earlier := by
  simp only [withKey, shift, insertAt_within, roll_within]

theorem cursor_withKey (place : KeyPlace) : (s.withKey place).cursor = s.cursor :=
  cursor_roll _ _

theorem agrees_value (inside : Inside f s.cursor) (char : s.cursor.char? = some d) (ne : d ≠ '\n') :
    Agrees f earlier s.value (s.within f earlier).value := by
  by_cases hKey : ∃ place outer, s.keys = some place :: outer
  · obtain ⟨place, outer, hKeys⟩ := hKey
    have hWithin : (s.within f earlier).keys =
        some (shift f earlier.length place) :: outer.map (Option.map (shift f earlier.length)) := by
      simp [within, hKeys]
    rw [value_of_key hKeys, value_of_key hWithin, withKey_within]
    rw [← cursor_withKey place] at inside char
    exact agrees_indicator (s := { s.withKey place with keys := Option.none :: outer, keyAllowed := false })
      inside char ne
  · have hNone : ∀ place outer, s.keys ≠ some place :: outer :=
      fun place outer hKeys => hKey ⟨place, outer, hKeys⟩
    have hWithin : ∀ place outer, (s.within f earlier).keys ≠ some place :: outer := by
      intro place outer hKeys
      obtain ⟨key, _, hKeys, hPlace, -⟩ := List.map_eq_cons_iff.mp hKeys
      obtain ⟨place, rfl, -⟩ := Option.map_eq_some_iff.mp hPlace
      exact hNone _ _ hKeys
    rw [value_of_no_key hNone, value_of_no_key hWithin]
    simp only [inFlow_within, keyAllowed_within]
    refine .ite (fun _ => .none) fun _ => ?_
    rw [roll_here_within, inFlow_within]
    have hCursor : (s.roll s.cursor.column s.tokenCount .blockMappingStart).cursor = s.cursor := cursor_roll _ _
    rw [← hCursor] at inside char
    exact agrees_indicator (s := { s.roll _ _ .blockMappingStart with keyAllowed := _ }) inside char ne

theorem agrees_anchor {name : String → Token} (inside : Inside f s.cursor) (char : s.cursor.char? = some d)
    (ne : d ≠ '\n') : Agrees f earlier (s.anchor name) ((s.within f earlier).anchor name) := by
  unfold anchor
  rw [noteKey_within]
  refine .bind fun s₁ hNote => ?_
  rw [← cursor_of_noteKey hNote] at inside char
  have hNext := inside.skip char ne
  obtain ⟨hSkips, hInside⟩ := hNext.skips_takeWhile (p := isWordChar) (by decide)
  simp only [cursor_within, skip_within char, hNext.takeWhile_within (p := isWordChar) (by decide), hSkips,
    hInside.blankAhead_zero_within, hInside.char?_within]
  refine .ite (fun _ => .none) fun _ => ?_
  exact .some (s := { s₁ with keyAllowed := false, cursor := s₁.cursor.skip.skips _ }.push _) hInside.fits

theorem agrees_tag (inside : Inside f s.cursor) (mark : s.cursor.is '!' = true) :
    Agrees f earlier s.tag (s.within f earlier).tag := by
  unfold tag
  rw [noteKey_within]
  refine .bind fun s₁ hNote => ?_
  rw [← cursor_of_noteKey hNote] at inside mark
  intro s' h
  obtain ⟨⟨name, suffix, c⟩, hTag, h⟩ := Option.bind_eq_some_iff.mp h
  obtain ⟨hTagWithin, hInside⟩ := tagContent_within hTag inside mark
  simp only [cursor_within, hTagWithin, Option.bind_eq_bind, Option.bind_some, hInside.blankAhead_zero_within,
    inFlow_within, hInside.is_within]
  revert h
  refine Agrees.ite (fun _ => ?_) (fun _ => .none) s'
  exact .some (s := { s₁ with keyAllowed := false, cursor := c }.push _) hInside.fits

theorem agrees_blockScalar {literal : Bool} (inside : Inside f s.cursor) (char : s.cursor.char? = some d)
    (ne : d ≠ '\n') : Agrees f earlier (s.blockScalar literal) ((s.within f earlier).blockScalar literal) := by
  unfold blockScalar
  rw [dropKey_within]
  refine .bind fun s₁ hDrop => ?_
  rw [← cursor_of_dropKey hDrop] at inside char
  intro s' h
  obtain ⟨⟨text, c⟩, hRead, h⟩ := Option.bind_eq_some_iff.mp h
  obtain ⟨hReadWithin, hFits⟩ := readBlock_within hRead (inside.skip char ne)
  simp only [cursor_within, indents_within, skip_within char, hReadWithin, Option.bind_eq_bind, Option.bind_some]
  revert h
  exact Agrees.some (s := { s₁ with keyAllowed := true, cursor := c }.push _) hFits s'

theorem agrees_quotedScalar {single : Bool} (inside : Inside f s.cursor) (char : s.cursor.char? = some d)
    (ne : d ≠ '\n') : Agrees f earlier (s.quotedScalar single) ((s.within f earlier).quotedScalar single) := by
  unfold quotedScalar
  rw [noteKey_within]
  refine .bind fun s₁ hNote => ?_
  rw [← cursor_of_noteKey hNote] at inside char
  intro s' h
  obtain ⟨⟨text, c⟩, hRead, h⟩ := Option.bind_eq_some_iff.mp h
  obtain ⟨hReadWithin, hInside⟩ := readQuoted_within hRead (inside.skip char ne).fits (length_le_within (f := f))
  simp only [cursor_within, skip_within char, hReadWithin, Option.bind_eq_bind, Option.bind_some]
  revert h
  exact Agrees.some (s := { s₁ with keyAllowed := false, cursor := c }.push _) hInside.fits s'

theorem agrees_plainScalar (inside : Inside f s.cursor) :
    Agrees f earlier s.plainScalar (s.within f earlier).plainScalar := by
  unfold plainScalar
  rw [noteKey_within]
  refine .bind fun s₁ hNote => ?_
  rw [← cursor_of_noteKey hNote] at inside
  intro s' h
  obtain ⟨scalar, hRead, h⟩ := Option.bind_eq_some_iff.mp h
  obtain ⟨hReadWithin, hFits⟩ := readPlain_within hRead inside.fits (length_le_within (f := f))
  simp only [cursor_within, inFlow_within, indents_within, hReadWithin, Option.bind_eq_bind, Option.bind_some]
  revert h
  exact Agrees.some (s := { s₁ with keyAllowed := scalar.broken, cursor := scalar.cursor }.push _) hFits s'

theorem agrees_directive (inside : Inside f s.cursor) (char : s.cursor.char? = some d) (ne : d ≠ '\n') :
    Agrees f earlier s.directive (s.within f earlier).directive := by
  unfold directive
  rw [unrollAll_within, dropKey_within]
  refine .bind fun s₁ hDrop => ?_
  have hCursor := (cursor_of_dropKey hDrop).trans cursor_unrollAll
  rw [← hCursor] at inside char
  have hNext := inside.skip char ne
  obtain ⟨hSkips, hInside⟩ := hNext.skips_takeWhile (p := isWordChar) (by decide)
  simp only [cursor_within, skip_within char, hNext.takeWhile_within (p := isWordChar) (by decide), hSkips,
    hInside.blankAhead_zero_within]
  refine .ite (fun _ => .none) fun _ => ?_
  intro s' h
  obtain ⟨⟨token, c⟩, hContent, h⟩ := Option.bind_eq_some_iff.mp h
  obtain ⟨c', hLine, h⟩ := Option.bind_eq_some_iff.mp h
  obtain ⟨hContentWithin, hInside'⟩ := directiveContent_within hContent hInside
  obtain ⟨hLineWithin, hFits⟩ := finishLine_within hLine hInside'
  simp only [hContentWithin, hLineWithin, Option.bind_eq_bind, Option.bind_some]
  revert h
  exact Agrees.some (s := { s₁ with keyAllowed := false, cursor := c' }.push token) hFits s'

theorem agrees_documentMarker (inside : Inside f s.cursor) (marker : s.cursor.onDocumentMarker = true) :
    Agrees f earlier (s.documentMarker token) ((s.within f earlier).documentMarker token) := by
  unfold documentMarker
  rw [unrollAll_within, dropKey_within]
  refine .bind fun s₁ hDrop => ?_
  rw [← (cursor_of_dropKey hDrop).trans cursor_unrollAll] at inside marker
  obtain ⟨hLong, hLine⟩ := line_of_onDocumentMarker marker
  exact agrees_characters (s := { s₁ with keyAllowed := false }) inside hLong hLine

theorem beginsPlain_within (inside : Inside f s.cursor) (char : s.cursor.char? = some d) :
    (s.within f earlier).beginsPlain d = s.beginsPlain d := by
  by_cases hFeed : d = '\n'
  · subst hFeed
    simp [beginsPlain, inside.blankAhead_zero_within]
  · simp only [beginsPlain, cursor_within, inFlow_within, inside.blankAhead_zero_within,
      inside.ahead?_one_within char hFeed, inside.blankAhead_one_within char hFeed]

theorem agrees_readAt (earlier : List Token) (inside : Inside f s.cursor) (char : s.cursor.char? = some d) :
    Agrees f earlier (s.readAt d) ((s.within f earlier).readAt d) := by
  have hBlank (e : Char) (b : Bool) (ne : e ≠ '\n') :
      (decide (d = e) && (b || (s.cursor.within f).blankAhead 1)) =
        (decide (d = e) && (b || s.cursor.blankAhead 1)) := by
    by_cases hEq : d = e
    · rw [inside.blankAhead_one_within char (hEq ▸ ne)]
    · rw [decide_eq_false hEq, Bool.false_and, Bool.false_and]
  have hDash := hBlank '-' false (by decide)
  rw [Bool.false_or, Bool.false_or] at hDash
  have hChar {e : Char} (h : d = e) : s.cursor.char? = some e := h ▸ char
  have hBoth {e : Char} {b : Bool} (h : (decide (d = e) && b) = true) : s.cursor.char? = some e :=
    hChar (of_decide_eq_true (Bool.and_eq_true_iff.mp h).1)
  simp only [readAt, cursor_within, inFlow_within, column_within, inside.onDocumentMarker_within, hDash,
    hBlank '?' s.inFlow (by decide), hBlank ':' s.inFlow (by decide), beginsPlain_within inside char]
  refine .ite (fun h => agrees_directive inside (hChar (of_decide_eq_true (Bool.and_eq_true_iff.mp h).2)) (by decide))
    fun _ => ?_
  refine .ite (fun h => agrees_documentMarker inside h) fun _ => ?_
  refine .ite (fun h => agrees_openFlow inside (hChar h) (by decide)) fun _ => ?_
  refine .ite (fun h => agrees_openFlow inside (hChar h) (by decide)) fun _ => ?_
  refine .ite (fun h => agrees_closeFlow inside (hChar h) (by decide)) fun _ => ?_
  refine .ite (fun h => agrees_closeFlow inside (hChar h) (by decide)) fun _ => ?_
  refine .ite (fun h => agrees_flowEntry inside (hChar h) (by decide)) fun _ => ?_
  refine .ite (fun h => agrees_blockEntry inside (hBoth h) (by decide)) fun _ => ?_
  refine .ite (fun h => agrees_explicitKey inside (hBoth h) (by decide)) fun _ => ?_
  refine .ite (fun h => agrees_value inside (hBoth h) (by decide)) fun _ => ?_
  refine .ite (fun h => agrees_anchor inside (hChar h) (by decide)) fun _ => ?_
  refine .ite (fun h => agrees_anchor inside (hChar h) (by decide)) fun _ => ?_
  refine .ite (fun h => agrees_tag inside (decide_eq_true (hChar h))) fun _ => ?_
  refine .ite (fun h => agrees_blockScalar inside (hBoth h) (by decide)) fun _ => ?_
  refine .ite (fun h => agrees_blockScalar inside (hBoth h) (by decide)) fun _ => ?_
  refine .ite (fun h => agrees_quotedScalar inside (hChar h) (by decide)) fun _ => ?_
  refine .ite (fun h => agrees_quotedScalar inside (hChar h) (by decide)) fun _ => ?_
  exact .ite (fun _ => agrees_plainScalar inside) fun _ => .none

end DeliveryPipeline.Yaml.Stream

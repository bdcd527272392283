import DeliveryPipeline.Proofs.Yaml.Reading

/-! # The tokens of a text before another one

A line with a document marker between two texts: the tokens of the first, without the end of the stream, then
the marker, then the tokens of the second. This needs that the first text leaves no flow collection
open, since in one the marker ends no block.
-/

namespace DeliveryPipeline.Yaml

set_option autoImplicit false

open Cursor

namespace Stream

variable {f : Frame} {earlier T T' : List Token} {s s' s₁ : Stream} {n m : Nat}

theorem settled_within (earlier : List Token) (h : s.settled = some s') (fits : Fits f s.cursor) :
    (s.within f earlier).settled = some (s'.within f earlier) ∧ Fits f s'.cursor := by
  obtain ⟨s₁, hDrop, rfl⟩ := Option.map_eq_some_iff.mp h
  obtain ⟨hWithin, hFits⟩ := advance_within earlier fits (Nat.lt_succ_self s.cursor.rest.length)
    (length_le_within (f := f))
  rw [← cursor_of_dropExpired hDrop, ← cursor_unroll (s := s₁)] at hFits
  refine ⟨?_, hFits⟩
  rw [settled, cursor_within, hWithin, dropExpired_within, hDrop, Option.map_some, Option.map_some, unroll_within]

theorem endOfText_within : (s.within f earlier).endOfText = s.endOfText.map (within f earlier) := by
  unfold endOfText
  rw [unrollAll_within, dropKey_within]
  cases s.unrollAll.dropKey with
  | none => rfl
  | some s₁ => rfl

theorem next_of_char {d : Char} (h : s.settled = some s₁) (char : s₁.cursor.char? = some d) :
    s.next = s₁.readAt d := by
  simp only [next_eq, h, Option.bind_some, char]

theorem next_of_end (h : s.settled = some s₁) (char : s₁.cursor.char? = none) : s.next = s₁.endOfText := by
  simp only [next_eq, h, Option.bind_some, char]

theorem exists_settled_of_next (h : s.next = some s') : ∃ s₁, s.settled = some s₁ := by
  obtain ⟨s₁, hSettled, -⟩ := Option.bind_eq_some_iff.mp (next_eq.symm.trans h)
  exact ⟨s₁, hSettled⟩

theorem finish_of_next (unfinished : s.finished = false) (h : s.next = some s') :
    finish (n + 1) s = finish n s' := by
  simp [finish, unfinished, h]

theorem exists_next_of_finish (unfinished : s.finished = false) (h : finish (n + 1) s = some T) :
    ∃ s', s.next = some s' ∧ finish n s' = some T := by
  cases hNext : s.next with
  | none => simp [finish, unfinished, hNext] at h
  | some s' =>
    rw [finish_of_next unfinished hNext] at h
    exact ⟨s', rfl, h⟩

theorem finish_of_finished (finished : s.finished = true) : finish (n + 1) s = some s.tokens.reverse := by
  simp [finish, finished]

theorem exists_of_endOfText (h : s.endOfText = some s') :
    ∃ s₂, s.unrollAll.dropKey = some s₂ ∧ s' = { s₂.push .streamEnd with finished := true } := by
  obtain ⟨s₂, hDrop, h⟩ := Option.bind_eq_some_iff.mp h
  exact ⟨s₂, hDrop, (Option.some.inj h).symm⟩

theorem kept_unrollAll_dropKey : Kept s s.unrollAll.dropKey :=
  fun s' h => keeps_unrollAll.trans (kept_dropKey s' h)

theorem exists_of_finish (unfinished : s.finished = false) (balanced : s.Balanced) (h : finish n s = some T) :
    ∃ T₀, T = T₀ ++ [.streamEnd] ∧ .streamEnd ∉ T₀ := by
  induction n generalizing s with
  | zero => cases h
  | succ n ih =>
    obtain ⟨s', hNext, h⟩ := exists_next_of_finish unfinished h
    obtain ⟨s₁, hSettled⟩ := exists_settled_of_next hNext
    have hKeeps := kept_settled s₁ hSettled
    cases hChar : s₁.cursor.char? with
    | none =>
      rw [next_of_end hSettled hChar] at hNext
      obtain ⟨s₂, hDrop, rfl⟩ := exists_of_endOfText hNext
      obtain _ | n := n
      · cases h
      rw [finish_of_finished rfl] at h
      have hBalanced := (hKeeps.trans (kept_unrollAll_dropKey s₂ hDrop)).balanced balanced
      refine ⟨s₂.tokens.reverse, ?_, fun hMem => hBalanced.unended (List.mem_reverse.mp hMem)⟩
      rw [← Option.some.inj h]
      exact List.reverse_cons
    | some d =>
      rw [next_of_char hSettled hChar] at hNext
      have hKeeps' := hKeeps.trans (kept_readAt d s' hNext)
      exact ih (hKeeps'.finished.trans unfinished) (hKeeps'.balanced balanced) h

theorem next_within_of_bare (tail : f.tail = []) (h : s.next = some s') :
    (s.within f earlier).next = some (s'.within f earlier) := by
  obtain ⟨s₁, hSettled⟩ := exists_settled_of_next h
  obtain ⟨hWithin, hFits⟩ := settled_within earlier hSettled (.bare tail)
  cases hChar : s₁.cursor.char? with
  | none =>
    have hRest : s₁.cursor.rest = [] := List.head?_eq_none_iff.mp hChar
    have hEnd : (s₁.within f earlier).cursor.char? = none := by simp [char?, hRest, tail]
    rw [next_of_end hSettled hChar] at h
    rw [next_of_end hWithin hEnd, endOfText_within, h, Option.map_some]
  | some d =>
    rw [next_of_char hSettled hChar] at h
    rw [next_of_char hWithin (char?_within hChar)]
    exact (agrees_readAt earlier (hFits.inside hChar) hChar s' h).1

theorem finish_within_of_bare (tail : f.tail = []) (h : finish n s = some T) (enough : n ≤ m) :
    finish m (s.within f earlier) = some (earlier.reverse ++ T) := by
  induction n generalizing s m with
  | zero => cases h
  | succ n ih =>
    obtain _ | m := m
    · omega
    cases hFinished : s.finished with
    | true =>
      rw [finish_of_finished hFinished] at h
      obtain rfl := Option.some.inj h
      rw [finish_of_finished (s := s.within f earlier) hFinished]
      exact congrArg some List.reverse_append
    | false =>
      obtain ⟨s', hNext, h⟩ := exists_next_of_finish hFinished h
      rw [finish_of_next (s := s.within f earlier) hFinished (next_within_of_bare tail hNext)]
      exact ih h (by omega)

/-- The stream behind the document marker after a text that has been read to its end. -/
def pastMarker (f : Frame) (earlier : List Token) (s : Stream) : Stream :=
  { s.within f earlier with keyAllowed := false }.indicator 3 .documentStart

theorem next_within_of_end {more : List Char} (earlier : List Token)
    (tail : f.tail = '-' :: '-' :: '-' :: '\n' :: more)
    (fits : Fits f s.cursor) (settled : s.settled = some s₁) (ended : s₁.cursor.char? = none)
    (h : s.next = some s') :
    ∃ s₂, s₁.unrollAll.dropKey = some s₂ ∧ s' = { s₂.push .streamEnd with finished := true } ∧
      (s.within f earlier).next = some (s₂.pastMarker f earlier) := by
  obtain ⟨hWithin, hFits⟩ := settled_within earlier settled fits
  have hRest : s₁.cursor.rest = [] := List.head?_eq_none_iff.mp ended
  rw [next_of_end settled ended] at h
  obtain ⟨s₂, hDrop, hEnd⟩ := exists_of_endOfText h
  refine ⟨s₂, hDrop, hEnd, ?_⟩
  rcases hFits.inside_or_onDocumentMarker with hInside | ⟨-, -, hMarker⟩
  · simp [hInside.ahead hRest] at tail
  have hChar : (s₁.within f earlier).cursor.char? = some '-' := by simp [char?, hRest, tail]
  have hDirective : ('-' = '%') = False := by decide
  rw [next_of_char hWithin hChar]
  simp only [readAt, cursor_within, hMarker, hDirective, decide_false, Bool.and_false, Bool.false_eq_true,
    reduceIte, documentMarker, unrollAll_within, dropKey_within, hDrop, Option.map_some, Option.bind_eq_bind,
    Option.bind_some]
  rfl

/-- The state at the end of a text, before the last token, and what the longer text makes of it: after as
many steps it is past the marker. -/
theorem finish_within_of_marked {more : List Char} (earlier : List Token)
    (tail : f.tail = '-' :: '-' :: '-' :: '\n' :: more) (fits : Fits f s.cursor)
    (unfinished : s.finished = false) (balanced : s.Balanced)
    (h : finish n s = some T) :
    ∃ s₁ s₂ : Stream, ∃ k, s₁.unrollAll.dropKey = some s₂ ∧ s₁.cursor.rest = [] ∧ s₁.finished = false ∧
      s₁.Balanced ∧ T = s₂.tokens.reverse ++ [.streamEnd] ∧ k < n ∧
      ∀ m, finish (m + k) (s.within f earlier) = finish m (s₂.pastMarker f earlier) := by
  induction n generalizing s with
  | zero => cases h
  | succ n ih =>
    obtain ⟨s', hNext, h⟩ := exists_next_of_finish unfinished h
    obtain ⟨s₁, hSettled⟩ := exists_settled_of_next hNext
    have hKeeps := kept_settled s₁ hSettled
    cases hChar : s₁.cursor.char? with
    | none =>
      -- one more step makes the last token here, and reads the marker there
      obtain ⟨s₂, hDrop, rfl, hWithin⟩ := next_within_of_end earlier tail fits hSettled hChar hNext
      obtain _ | n := n
      · cases h
      rw [finish_of_finished rfl] at h
      refine ⟨s₁, s₂, 1, hDrop, List.head?_eq_none_iff.mp hChar, hKeeps.finished.trans unfinished,
        hKeeps.balanced balanced, ?_, by omega, fun m => finish_of_next unfinished hWithin⟩
      rw [← Option.some.inj h]
      exact List.reverse_cons
    | some d =>
      obtain ⟨hWithin, hFits⟩ := settled_within earlier hSettled fits
      rw [next_of_char hSettled hChar] at hNext
      obtain ⟨hRead, hFits'⟩ := agrees_readAt earlier (hFits.inside hChar) hChar s' hNext
      rw [← next_of_char hWithin (char?_within hChar)] at hRead
      have hKeeps' := hKeeps.trans (kept_readAt d s' hNext)
      obtain ⟨s₁, s₂, k, hDrop, hRest, hFinished, hBalanced, hT, hk, hRun⟩ :=
        ih hFits' (hKeeps'.finished.trans unfinished) (hKeeps'.balanced balanced) h
      refine ⟨s₁, s₂, k + 1, hDrop, hRest, hFinished, hBalanced, hT, by omega, fun m => ?_⟩
      rw [← Nat.add_assoc, finish_of_next (s := s.within f earlier) unfinished hRead, hRun]

theorem length_keys_of_dropKey (h : s.dropKey = some s') : s'.keys.length = s.keys.length := by
  unfold dropKey at h
  split at h
  · rename_i hKeys
    split at h
    · cases h
    · rw [← Option.some.inj h, hKeys]
      rfl
  · rw [← Option.some.inj h]

theorem keys_unrollAll : s.unrollAll.keys = s.keys := by
  unfold unrollAll
  split
  · rfl
  · rfl

theorem ended_of_dropKey (h : s₁.unrollAll.dropKey = some s) (keys : s.keys.length = 1) :
    s.indents = [] ∧ s.keys = [none] := by
  rw [length_keys_of_dropKey h, keys_unrollAll] at keys
  have hFlow : s₁.inFlow = false := by simp [inFlow, keys]
  obtain ⟨key, hKey⟩ := List.length_eq_one_iff.mp keys
  simp only [unrollAll, hFlow, Bool.false_eq_true, reduceIte, dropKey, hKey] at h
  cases key with
  | none =>
    obtain rfl := Option.some.inj h
    exact ⟨rfl, rfl⟩
  | some place =>
    dsimp only at h
    split at h
    · cases h
    · obtain rfl := Option.some.inj h
      exact ⟨rfl, rfl⟩

theorem pastBlanks_of_feed {rest : List Char} (h : s.cursor.rest = '\n' :: rest) : s.pastBlanks = s.cursor := by
  rw [show s.cursor = ⟨'\n' :: rest, s.cursor.index, s.cursor.line, s.cursor.column⟩ by rw [← h]]
  simp [pastBlanks, pastMark, char?, h, skipWhile, skips, is]

theorem settled_pastMarker {more : List Char} (earlier : List Token)
    (tail : f.tail = '-' :: '-' :: '-' :: '\n' :: more)
    (rest : s.cursor.rest = []) (indents : s.indents = []) (keys : s.keys = [none])
    (unfinished : s.finished = false) :
    (s.pastMarker f earlier).settled = ((start more).within
      ⟨s.cursor.index + f.index + 4, s.cursor.line + f.line + 1, []⟩
      (.documentStart :: (s.tokens ++ earlier))).settled := by
  have hCursor : (s.pastMarker f earlier).cursor =
      ⟨'\n' :: more, s.cursor.index + f.index + 3, s.cursor.line + f.line, s.cursor.column + 3⟩ := by
    simp [pastMarker, indicator, push, within, Cursor.within, skips, rest, tail]
  have hBreak : (s.pastMarker f earlier).cursor.onBreak = true := by
    simp [hCursor, onBreak, char?, isBreak]
  have hStart : { s.pastMarker f earlier with
      cursor := (s.pastMarker f earlier).cursor.skipLine
      keyAllowed := (s.pastMarker f earlier).keyAllowed || !(s.pastMarker f earlier).inFlow } =
      (start more).within ⟨s.cursor.index + f.index + 4, s.cursor.line + f.line + 1, []⟩
        (.documentStart :: (s.tokens ++ earlier)) := by
    rw [hCursor]
    simp [pastMarker, indicator, push, within, start, Cursor.within, Cursor.start, skipLine, isBreak, indents, keys,
      inFlow, unfinished]
  have hLength : (s.pastMarker f earlier).cursor.rest.length = more.length + 1 := by rw [hCursor]; rfl
  have hBlanks : (s.pastMarker f earlier).pastBlanks = (s.pastMarker f earlier).cursor :=
    pastBlanks_of_feed (by rw [hCursor])
  rw [settled, hLength, advance_succ, hBlanks, if_pos hBreak, hStart, settled]
  simp [start, Cursor.start]

theorem finish_congr (unfinished : s.finished = false) (unfinished' : s'.finished = false)
    (h : s.settled = s'.settled) : finish n s = finish n s' := by
  cases n with
  | zero => rfl
  | succ n => simp [finish, unfinished, unfinished', next_eq, h]

theorem finish_pastMarker {more : List Char} (tail : f.tail = '-' :: '-' :: '-' :: '\n' :: more)
    (rest : s.cursor.rest = []) (indents : s.indents = []) (keys : s.keys = [none])
    (unfinished : s.finished = false) (h : finish n (start more) = some T) (enough : n ≤ m) :
    finish m (s.pastMarker f earlier) = some (earlier.reverse ++ (s.tokens.reverse ++ .documentStart :: T)) := by
  have hSettled := settled_pastMarker earlier tail rest indents keys unfinished
  rw [finish_congr (s := s.pastMarker f earlier) unfinished rfl hSettled, finish_within_of_bare rfl h enough]
  simp

end Stream

def separator : List Char := '\n' :: '-' :: '-' :: '-' :: ['\n']

theorem printable_separated {text more : List Char} (h : (text ++ ['\n']).all isPrintable = true)
    (h' : more.all isPrintable = true) : (text ++ separator ++ more).all isPrintable = true := by
  have hSeparator : separator.all isPrintable = true := by decide
  rw [List.all_append, Bool.and_eq_true_iff] at h
  rw [List.all_append, List.all_append, h.1, hSeparator, h']
  rfl

theorem Token.exists_of_ofChars? {text : List Char} {T : List Token} (h : ofChars? text = some T) :
    ∃ T₀, T = T₀ ++ [.streamEnd] ∧ .streamEnd ∉ T₀ := by
  unfold ofChars? at h
  split at h
  · exact Stream.exists_of_finish rfl (Stream.balanced_start text) h
  · cases h

/-- A text, a line with a document marker and another text. -/
theorem Token.ofChars?_append {text more : List Char} {T T' : List Token}
    (h : ofChars? (text ++ ['\n']) = some T) (h' : ofChars? more = some T') :
    ∃ T₀, T = T₀ ++ [.streamEnd] ∧ (Stream.nesting T₀.reverse = 0 →
      ofChars? (text ++ separator ++ more) = some (T₀ ++ .documentStart :: T')) := by
  unfold ofChars? at h h'
  split at h
  case isFalse => cases h
  rename_i hPrintable
  split at h'
  case isFalse => cases h'
  rename_i hPrintable'
  have hEnds : (Cursor.start (text ++ ['\n'])).EndsLine := by
    refine ⟨fun d hd => ?_, fun _ => rfl⟩
    rw [Cursor.start, List.getLast?_concat] at hd
    exact (Option.some.inj hd).symm
  obtain ⟨s₁, s₂, k, hDrop, hRest, hFinished, hBalanced, rfl, hk, hRun⟩ :=
    Stream.finish_within_of_marked (f := ⟨0, 0, '-' :: '-' :: '-' :: '\n' :: more⟩) [] rfl
      (.marked more rfl hEnds) rfl (Stream.balanced_start _) h
  have hKeeps := Stream.kept_unrollAll_dropKey s₂ hDrop
  have hBalanced' := hKeeps.balanced hBalanced
  refine ⟨s₂.tokens.reverse, rfl, fun hClosed => ?_⟩
  rw [List.reverse_reverse] at hClosed
  have hKeys : s₂.keys.length = 1 := by rw [hBalanced'.keys, hClosed]
  obtain ⟨hIndents, hKeys⟩ := Stream.ended_of_dropKey hDrop hKeys
  have hCursor : s₂.cursor.rest = [] := by
    rw [Stream.cursor_of_dropKey hDrop, Stream.cursor_unrollAll, hRest]
  have hStart : Stream.start (text ++ separator ++ more) =
      (Stream.start (text ++ ['\n'])).within ⟨0, 0, '-' :: '-' :: '-' :: '\n' :: more⟩ [] := by
    simp [separator, Stream.start, Stream.within, Cursor.start, Cursor.within]
  obtain ⟨m, hm, hEnough⟩ : ∃ m, (text ++ separator ++ more).length + 2 = m + k ∧ more.length + 2 ≤ m := by
    refine ⟨(text ++ separator ++ more).length + 2 - k, ?_⟩
    simp only [separator, List.length_append, List.length_cons, List.length_nil] at hk ⊢
    omega
  rw [ofChars?, if_pos (printable_separated hPrintable hPrintable'), hm, hStart, hRun]
  exact Stream.finish_pastMarker rfl hCursor hIndents hKeys (hKeeps.finished.trans hFinished) h' hEnough

end DeliveryPipeline.Yaml

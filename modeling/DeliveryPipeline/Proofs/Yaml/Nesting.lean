import DeliveryPipeline.Yaml.Stream
import Mathlib.Tactic.Common

/-! # Open flow collections

A stream knows how many flow collections are open from the number of its possible keys: it holds one for each
and one for the block around them. The tokens say the same, if a closing bracket without an opening one is
not counted. And the token that ends the stream comes last.
-/

namespace DeliveryPipeline.Yaml

set_option autoImplicit false

/-- How many flow collections are open after a token, if so many were before it. -/
def Token.nest : Token → Nat → Nat
  | .flowSequenceStart, depth | .flowMappingStart, depth => depth + 1
  | .flowSequenceEnd, depth | .flowMappingEnd, depth => depth - 1
  | _, depth => depth

namespace Stream

variable {s s' : Stream} {token : Token} {tokens : List Token}

/-- How many flow collections the tokens leave open; the latest token comes first. -/
def nesting (tokens : List Token) : Nat := tokens.foldr Token.nest 0

/-- As many flow collections are open as the tokens leave open, and the stream has not ended. -/
structure Balanced (s : Stream) : Prop where
  keys : s.keys.length = nesting s.tokens + 1
  unended : .streamEnd ∉ s.tokens

theorem balanced_start (text : List Char) : (start text).Balanced := ⟨rfl, List.not_mem_nil⟩

/-- The tokens leave as many flow collections open, and do not end the stream either. -/
structure Alike (T tokens : List Token) : Prop where
  nesting : nesting T = nesting tokens
  ends : .streamEnd ∈ T → .streamEnd ∈ tokens

theorem Alike.refl (tokens : List Token) : Alike tokens tokens := ⟨rfl, id⟩

theorem Alike.trans {T T' T'' : List Token} (h : Alike T T') (h' : Alike T' T'') : Alike T T'' :=
  ⟨h.nesting.trans h'.nesting, h'.ends ∘ h.ends⟩

theorem alike_insert (h : token.nest = id) (more : token ≠ .streamEnd) (n : Nat) :
    Alike (tokens.take n ++ token :: tokens.drop n) tokens := by
  constructor
  · rw [nesting, List.foldr_append, List.foldr_cons, h, id, ← List.foldr_append, List.take_append_drop, nesting]
  · intro hMem
    rcases List.mem_append.mp hMem with hMem | hMem
    · exact List.mem_of_mem_take hMem
    · exact List.mem_of_mem_drop (List.mem_of_ne_of_mem more.symm hMem)

theorem alike_cons (h : token.nest = id) (more : token ≠ .streamEnd) : Alike (token :: tokens) tokens :=
  alike_insert h more 0

def pastMark (c : Cursor) : Cursor :=
  if c.column = 0 && c.char?.any (fun d => d.toNat = 0xFEFF) then c.skip else c

def pastBlanks (s : Stream) : Cursor :=
  let c := (pastMark s.cursor).skipWhile fun d => d = ' ' || ((s.inFlow || !s.keyAllowed) && d = '\t')
  if c.is '#' then c.skipWhile fun d => !isBreak d else c

theorem advance_succ (fuel : Nat) : advance (fuel + 1) s =
    if s.pastBlanks.onBreak then
      advance fuel { s with cursor := s.pastBlanks.skipLine, keyAllowed := s.keyAllowed || !s.inFlow }
    else { s with cursor := s.pastBlanks } := rfl

/-- The stream at its next token, past what is no part of one. -/
def settled (s : Stream) : Option Stream := (advance (s.cursor.rest.length + 1) s).dropExpired.map unroll

def readAt (s : Stream) (d : Char) : Option Stream :=
  let c := s.cursor
  if c.column = 0 && d = '%' then s.directive
  else if c.onDocumentMarker then
    s.documentMarker (if d = '-' then .documentStart else .documentEnd)
  else if d = '[' then s.openFlow .flowSequenceStart
  else if d = '\x7b' then s.openFlow .flowMappingStart
  else if d = ']' then s.closeFlow .flowSequenceEnd
  else if d = '\x7d' then s.closeFlow .flowMappingEnd
  else if d = ',' then s.flowEntry
  else if d = '-' && c.blankAhead 1 then s.blockEntry
  else if d = '?' && (s.inFlow || c.blankAhead 1) then s.explicitKey
  else if d = ':' && (s.inFlow || c.blankAhead 1) then s.value
  else if d = '*' then s.anchor .alias
  else if d = '&' then s.anchor .anchor
  else if d = '!' then s.tag
  else if d = '|' && !s.inFlow then s.blockScalar true
  else if d = '>' && !s.inFlow then s.blockScalar false
  else if d = '\'' then s.quotedScalar true
  else if d = '"' then s.quotedScalar false
  else if s.beginsPlain d then s.plainScalar
  else none

theorem next_eq : s.next = s.settled.bind fun s =>
    match s.cursor.char? with
    | none => s.endOfText
    | some d => s.readAt d := by
  rw [settled, Option.bind_map]
  rfl

structure Keeps (s s' : Stream) : Prop where
  finished : s'.finished = s.finished
  balanced : s.Balanced → s'.Balanced

theorem Keeps.trans {s₁ s₂ s₃ : Stream} (h : Keeps s₁ s₂) (h' : Keeps s₂ s₃) : Keeps s₁ s₃ :=
  ⟨h'.finished.trans h.finished, h'.balanced ∘ h.balanced⟩

/-- Whatever state reading leads to is one that keeps it. -/
def Kept (s : Stream) (o : Option Stream) : Prop := ∀ s', o = some s' → Keeps s s'

theorem Kept.none : Kept s Option.none := nofun

theorem Kept.some (h : Keeps s s') : Kept s (Option.some s') := by
  rintro _ ⟨⟩
  exact h

theorem Kept.ite {p : Prop} [Decidable p] {a b : Option Stream} (h : Kept s a) (h' : Kept s b) :
    Kept s (if p then a else b) := by
  split
  · exact h
  · exact h'

theorem Kept.bind {o : Option Stream} {g : Stream → Option Stream} (h : Kept s o)
    (h' : ∀ s₁, Kept s₁ (g s₁)) : Kept s (o.bind g) := by
  intro s' hs'
  obtain ⟨s₁, hs₁, hs'⟩ := Option.bind_eq_some_iff.mp hs'
  exact (h s₁ hs₁).trans (h' s₁ s' hs')

theorem keeps_of_eq (keys : s'.keys.length = s.keys.length) (tokens : Alike s'.tokens s.tokens)
    (finished : s'.finished = s.finished) : Keeps s s' := by
  refine ⟨finished, fun h => ⟨?_, fun hEnd => h.unended (tokens.ends hEnd)⟩⟩
  rw [keys, tokens.nesting, h.keys]

theorem kept_dropKey : Kept s s.dropKey := by
  intro s' h
  unfold dropKey at h
  split at h
  · rename_i hKeys
    split at h
    · cases h
    · obtain rfl := Option.some.inj h
      exact keeps_of_eq (by rw [hKeys]; rfl) (.refl _) rfl
  · obtain rfl := Option.some.inj h
    exact keeps_of_eq rfl (.refl _) rfl

theorem kept_noteKey : Kept s s.noteKey := by
  refine .ite (kept_dropKey.bind fun s₁ => .some ⟨rfl, fun h => ⟨?_, h.unended⟩⟩)
    (.some (keeps_of_eq rfl (.refl _) rfl))
  have hKeys := h.keys
  simp only [List.length_cons, List.length_drop]
  omega

theorem length_of_mapM {α β : Type} {g : α → Option β} {l : List α} {l' : List β} (h : l.mapM g = some l') :
    l'.length = l.length := by
  induction l generalizing l' with
  | nil =>
    obtain rfl := Option.some.inj h
    rfl
  | cons a l ih =>
    rw [List.mapM_cons] at h
    obtain ⟨b, -, h⟩ := Option.bind_eq_some_iff.mp h
    obtain ⟨rest, hRest, h⟩ := Option.bind_eq_some_iff.mp h
    obtain rfl := Option.some.inj h
    rw [List.length_cons, List.length_cons, ih hRest]

theorem kept_dropExpired : Kept s s.dropExpired := by
  intro s' h
  obtain ⟨keys, hKeys, h⟩ := Option.bind_eq_some_iff.mp h
  obtain rfl := Option.some.inj h
  exact keeps_of_eq (length_of_mapM hKeys) (.refl _) rfl

theorem alike_closeBlocks (column : Nat) (indents : List Nat) (tokens : List Token) :
    Alike (closeBlocks column indents tokens).2 tokens := by
  induction indents generalizing tokens with
  | nil => exact .refl tokens
  | cons indent outer ih =>
    unfold closeBlocks
    split
    · exact (ih (.blockEnd :: tokens)).trans (alike_cons rfl (by simp))
    · exact .refl tokens

theorem alike_replicate (n : Nat) : Alike (List.replicate n .blockEnd ++ tokens) tokens := by
  induction n with
  | zero => exact .refl tokens
  | succ n ih =>
    have hCons : Alike (.blockEnd :: (List.replicate n .blockEnd ++ tokens)) _ := alike_cons rfl (by simp)
    exact hCons.trans ih

theorem keeps_unroll : Keeps s s.unroll := by
  unfold unroll
  split
  · exact keeps_of_eq rfl (.refl _) rfl
  · exact keeps_of_eq rfl (alike_closeBlocks _ _ _) rfl

theorem keeps_unrollAll : Keeps s s.unrollAll := by
  unfold unrollAll
  split
  · exact keeps_of_eq rfl (.refl _) rfl
  · exact keeps_of_eq rfl (alike_replicate _) rfl

theorem keeps_roll (column number : Nat) (h : token.nest = id) (more : token ≠ .streamEnd) :
    Keeps s (s.roll column number token) := by
  unfold roll
  split
  · exact keeps_of_eq rfl (.refl _) rfl
  · split
    · exact keeps_of_eq rfl (alike_insert h more _) rfl
    · exact keeps_of_eq rfl (.refl _) rfl

theorem kept_openFlow (h : ∀ depth, token.nest depth = depth + 1) : Kept s (s.openFlow token) := by
  refine kept_noteKey.bind fun s₁ => .some ⟨rfl, fun hBalanced => ⟨?_, ?_⟩⟩
  · have hTokens : nesting (token :: s₁.tokens) = nesting s₁.tokens + 1 := h _
    simp only [indicator, push, List.length_cons, hBalanced.keys, hTokens]
  · refine List.not_mem_cons_of_ne_of_not_mem ?_ hBalanced.unended
    rintro rfl
    cases h 0

theorem kept_closeFlow (h : ∀ depth, token.nest depth = depth - 1) : Kept s (s.closeFlow token) := by
  refine kept_dropKey.bind fun s₁ => .some ⟨rfl, fun hBalanced => ⟨?_, ?_⟩⟩
  · have hKeys := hBalanced.keys
    have hTokens : nesting (token :: s₁.tokens) = nesting s₁.tokens - 1 := h _
    simp only [indicator, push, hTokens]
    match hList : s₁.keys with
    | [] => simp [hList] at hKeys
    | [key] => simp [hList] at hKeys ⊢; omega
    | _ :: key :: outer => simp [hList] at hKeys ⊢; omega
  · refine List.not_mem_cons_of_ne_of_not_mem ?_ hBalanced.unended
    rintro rfl
    cases h 1

theorem keeps_token {cursor : Cursor} {keyAllowed : Bool} (h : token.nest = id) (more : token ≠ .streamEnd) :
    Keeps s ({ s with keyAllowed := keyAllowed, cursor := cursor }.push token) :=
  keeps_of_eq rfl (alike_cons h more) rfl

theorem kept_flowEntry : Kept s s.flowEntry :=
  kept_dropKey.bind fun _ => .some (keeps_token rfl (by simp))

theorem kept_blockEntry : Kept s s.blockEntry := by
  have hRoll : Keeps s (s.roll s.cursor.column s.tokenCount .blockSequenceStart) := keeps_roll _ _ rfl (by simp)
  refine .ite .none fun s' h => hRoll.trans ?_
  exact kept_dropKey.bind (fun s₁ => .some (keeps_token rfl (by simp))) s' h

theorem kept_explicitKey : Kept s s.explicitKey := by
  have hRoll : Keeps s (s.roll s.cursor.column s.tokenCount .blockMappingStart) := keeps_roll _ _ rfl (by simp)
  refine .ite .none fun s' h => hRoll.trans ?_
  exact kept_dropKey.bind (fun s₁ => .some (keeps_token rfl (by simp))) s' h

def withKey (s : Stream) (place : KeyPlace) : Stream :=
  (s.insertAt place.token .key).roll place.column place.token .blockMappingStart

theorem value_of_key {place : KeyPlace} {outer : List (Option KeyPlace)} (h : s.keys = some place :: outer) :
    s.value = some ({ s.withKey place with keys := none :: outer, keyAllowed := false }.indicator 1 .value) := by
  simp only [value, h]
  rfl

theorem value_of_no_key (h : ∀ place outer, s.keys ≠ some place :: outer) :
    s.value = if !s.inFlow && !s.keyAllowed then none else
      let s := s.roll s.cursor.column s.tokenCount .blockMappingStart
      some ({ s with keyAllowed := !s.inFlow }.indicator 1 .value) := by
  unfold value
  split
  · rename_i hKeys
    exact absurd hKeys (h _ _)
  · rfl

theorem keeps_withKey (place : KeyPlace) : Keeps s (s.withKey place) := by
  have hKey : Keeps s (s.insertAt place.token .key) := keeps_of_eq rfl (alike_insert rfl (by simp) _) rfl
  exact hKey.trans (keeps_roll _ _ rfl (by simp))

theorem keys_withKey (place : KeyPlace) : (s.withKey place).keys = s.keys := by
  unfold withKey roll
  split
  · rfl
  · split
    · rfl
    · rfl

theorem kept_value : Kept s s.value := by
  by_cases hKey : ∃ place outer, s.keys = some place :: outer
  · obtain ⟨place, outer, hKeys⟩ := hKey
    rw [value_of_key hKeys]
    refine .some ((keeps_withKey place).trans (keeps_of_eq ?_ (alike_cons rfl (by simp)) rfl))
    rw [keys_withKey, hKeys]
    rfl
  · rw [value_of_no_key fun place outer hKeys => hKey ⟨place, outer, hKeys⟩]
    have hRoll : Keeps s (s.roll s.cursor.column s.tokenCount .blockMappingStart) := keeps_roll _ _ rfl (by simp)
    exact .ite .none (.some (hRoll.trans (keeps_token rfl (by simp))))

theorem kept_anchor {name : String → Token} (h : ∀ text, (name text).nest = id)
    (more : ∀ text, name text ≠ .streamEnd) : Kept s (s.anchor name) :=
  kept_noteKey.bind fun _ => .ite .none (.some (keeps_token (h _) (more _)))

theorem kept_tag : Kept s s.tag := by
  refine kept_noteKey.bind fun s₁ s' h => ?_
  obtain ⟨⟨name, suffix, c⟩, -, h⟩ := Option.bind_eq_some_iff.mp h
  exact Kept.ite (.some (keeps_token rfl (by simp))) .none s' h

theorem kept_blockScalar {literal : Bool} : Kept s (s.blockScalar literal) := by
  refine kept_dropKey.bind fun s₁ s' h => ?_
  obtain ⟨⟨text, c⟩, -, h⟩ := Option.bind_eq_some_iff.mp h
  exact Kept.some (keeps_token rfl (by simp)) s' h

theorem kept_quotedScalar {single : Bool} : Kept s (s.quotedScalar single) := by
  refine kept_noteKey.bind fun s₁ s' h => ?_
  obtain ⟨⟨text, c⟩, -, h⟩ := Option.bind_eq_some_iff.mp h
  exact Kept.some (keeps_token rfl (by simp)) s' h

theorem kept_plainScalar : Kept s s.plainScalar := by
  refine kept_noteKey.bind fun s₁ s' h => ?_
  obtain ⟨scalar, -, h⟩ := Option.bind_eq_some_iff.mp h
  exact Kept.some (keeps_token rfl (by simp)) s' h

theorem neutral_of_directiveContent {name : List Char} {c c' : Cursor}
    (h : directiveContent name c = some (token, c')) : token.nest = id ∧ token ≠ .streamEnd := by
  unfold directiveContent at h
  split at h
  · obtain ⟨⟨major, c₁⟩, -, h⟩ := Option.bind_eq_some_iff.mp h
    dsimp only at h
    split at h
    · obtain ⟨⟨minor, c₂⟩, -, h⟩ := Option.bind_eq_some_iff.mp h
      rw [← (Prod.mk.inj (Option.some.inj h)).1]
      exact ⟨rfl, by simp⟩
    · cases h
  · split at h
    · obtain ⟨⟨handle, c₁⟩, -, h⟩ := Option.bind_eq_some_iff.mp h
      dsimp only at h
      split at h
      · obtain ⟨⟨tagStart, c₂⟩, -, h⟩ := Option.bind_eq_some_iff.mp h
        dsimp only at h
        split at h
        · rw [← (Prod.mk.inj (Option.some.inj h)).1]
          exact ⟨rfl, by simp⟩
        · cases h
      · cases h
    · cases h

theorem kept_directive : Kept s s.directive := by
  refine fun s' h => keeps_unrollAll.trans (kept_dropKey.bind (fun s₁ => Kept.ite .none fun s' h => ?_) s' h)
  obtain ⟨⟨token, c⟩, hContent, h⟩ := Option.bind_eq_some_iff.mp h
  obtain ⟨c', -, h⟩ := Option.bind_eq_some_iff.mp h
  obtain ⟨hNest, hMore⟩ := neutral_of_directiveContent hContent
  exact Kept.some (keeps_token hNest hMore) s' h

theorem kept_documentMarker (h : token.nest = id) (more : token ≠ .streamEnd) : Kept s (s.documentMarker token) :=
  fun s' hs' => keeps_unrollAll.trans (kept_dropKey.bind (fun _ => .some (keeps_token h more)) s' hs')

theorem kept_readAt (d : Char) : Kept s (s.readAt d) := by
  have hMarker : Kept s (s.documentMarker (if d = '-' then .documentStart else .documentEnd)) :=
    kept_documentMarker (by split <;> rfl) (by split <;> simp)
  refine .ite kept_directive <| .ite hMarker <| .ite (kept_openFlow fun _ => rfl) <|
    .ite (kept_openFlow fun _ => rfl) <| .ite (kept_closeFlow fun _ => rfl) <|
    .ite (kept_closeFlow fun _ => rfl) <| .ite kept_flowEntry <| .ite kept_blockEntry <|
    .ite kept_explicitKey <| .ite kept_value <| .ite (kept_anchor (fun _ => rfl) (by simp)) <|
    .ite (kept_anchor (fun _ => rfl) (by simp)) <| .ite kept_tag <| .ite kept_blockScalar <| .ite kept_blockScalar <|
    .ite kept_quotedScalar <| .ite kept_quotedScalar <| .ite kept_plainScalar .none

theorem keeps_advance (fuel : Nat) : Keeps s (advance fuel s) := by
  induction fuel generalizing s with
  | zero => exact keeps_of_eq rfl (.refl _) rfl
  | succ fuel ih =>
    rw [advance_succ]
    split
    · have hNext : Keeps s
          { s with cursor := s.pastBlanks.skipLine, keyAllowed := s.keyAllowed || !s.inFlow } :=
        keeps_of_eq rfl (.refl _) rfl
      exact hNext.trans ih
    · exact keeps_of_eq rfl (.refl _) rfl

theorem kept_settled : Kept s s.settled := by
  intro s' h
  obtain ⟨s₁, hDrop, rfl⟩ := Option.map_eq_some_iff.mp h
  exact (keeps_advance _).trans ((kept_dropExpired s₁ hDrop).trans keeps_unroll)

end Stream

end DeliveryPipeline.Yaml

import DeliveryPipeline.Proofs.Yaml.Machine
import Mathlib.Data.List.TakeWhile

/-! # The grammar does not look past a document

Every step of the machine, place by place: what it leads to, and that it is the same before the end of the
stream and before the next document. The machine stops only where the tokens of its text have ended.
-/

namespace DeliveryPipeline.Yaml.Machine

set_option autoImplicit false

variable {m m' : Machine} {R : List Token} {p after : Place} {block indentless : Bool}

theorem properties_ending (closes : Closes R) :
    (m.ending R).properties = m.properties.map fun (properties, m') => (properties, m'.ending R) := by
  obtain ⟨tokens, place, returns, handles⟩ := m
  cases tokens with
  | nil => cases closes <;> rfl
  | cons t T =>
    cases t with
    | anchor name =>
      cases T with
      | nil => cases closes <;> rfl
      | cons t' T => cases t' <;> simp [properties, ending, resolveTag, Function.comp_def]
    | tag handle suffix =>
      cases T with
      | nil => cases closes <;> simp [properties, ending, resolveTag, Function.comp_def]
      | cons t' T => cases t' <;> simp [properties, ending, resolveTag, Function.comp_def]
    | _ => rfl

theorem exists_of_properties {properties : Properties} (h : m.properties = some (properties, m')) :
    ∃ P, m.tokens = P ++ m'.tokens ∧ (∀ t ∈ P, t.nest = id) ∧ (properties = noProperties ∨ P ≠ []) ∧
      m' = { m with tokens := m'.tokens } := by
  unfold Machine.properties at h
  split at h
  · rename_i name handle suffix T hTokens
    obtain ⟨tag, -, h⟩ := Option.map_eq_some_iff.mp h
    obtain ⟨rfl, rfl⟩ := Prod.mk.inj h
    exact ⟨[.anchor name, .tag handle suffix], hTokens, by simp [Token.nest, funext_iff], .inr (by simp), rfl⟩
  · rename_i handle suffix name T hTokens
    obtain ⟨tag, -, h⟩ := Option.map_eq_some_iff.mp h
    obtain ⟨rfl, rfl⟩ := Prod.mk.inj h
    exact ⟨[.tag handle suffix, .anchor name], hTokens, by simp [Token.nest, funext_iff], .inr (by simp), rfl⟩
  · rename_i name T _ hTokens
    obtain ⟨rfl, rfl⟩ := Prod.mk.inj (Option.some.inj h)
    exact ⟨[.anchor name], hTokens, by simp [Token.nest, funext_iff], .inr (by simp), rfl⟩
  · rename_i handle suffix T _ hTokens
    obtain ⟨tag, -, h⟩ := Option.map_eq_some_iff.mp h
    obtain ⟨rfl, rfl⟩ := Prod.mk.inj h
    exact ⟨[.tag handle suffix], hTokens, by simp [Token.nest, funext_iff], .inr (by simp), rfl⟩
  · obtain ⟨rfl, rfl⟩ := Prod.mk.inj (Option.some.inj h)
    exact ⟨[], rfl, by simp, .inl rfl, rfl⟩

def inside (m : Machine) (after : Place) : Machine := { m with returns := after :: m.returns }

def content (m : Machine) (block indentless : Bool) (properties : Properties) : Outcome :=
  match m.tokens with
  | .blockEntry :: _ =>
    if indentless then (m.goto .indentlessSequence).emit (.sequenceStart properties)
    else if properties = noProperties then none
    else m.back.emit (.scalar properties "" true)
  | .scalar text plain :: _ =>
    let properties :=
      if properties.tag = some (bytesOf "!") then { properties with tag := none } else properties
    m.skip.back.emit (.scalar properties text plain)
  | .flowSequenceStart :: _ => (m.skip.goto (.flowSequence true)).emit (.sequenceStart properties)
  | .flowMappingStart :: _ => (m.skip.goto (.flowMappingKey true)).emit (.mappingStart properties)
  | token :: _ =>
    if block && token = .blockSequenceStart then
      (m.skip.goto .blockSequence).emit (.sequenceStart properties)
    else if block && token = .blockMappingStart then
      (m.skip.goto .blockMappingKey).emit (.mappingStart properties)
    else if properties = noProperties then none
    else m.back.emit (.scalar properties "" true)
  | [] => none

theorem node_of_alias {name : String} {T : List Token} (h : m.tokens = .alias name :: T) :
    m.node block indentless after = (m.goto after).skip.emit (.alias name) := by
  simp only [node, h, skip, back, goto]

theorem node_of_not_alias (h : ∀ name T, m.tokens ≠ .alias name :: T) :
    m.node block indentless after = (m.inside after).properties.bind fun (properties, m') =>
      m'.content block indentless properties := by
  unfold node
  dsimp only
  split
  · rename_i hTokens
    exact absurd hTokens (h _ _)
  · rfl

theorem uniform_noContent (indentless : Bool) (stacked : (m.goto after).WellStacked) (properties : Properties) :
    Uniform (if properties = noProperties then 4 else 0) (if indentless then 5 else 0) (m.goto after)
      fun R => if properties = noProperties then none
        else ((m.inside after).ending R).back.emit (.scalar properties "" true) := by
  refine .ite (fun _ => .none) fun hSome => ?_
  rw [if_neg hSome]
  exact (Uniform.emit (Leads.refl stacked)).weaken (Nat.zero_le _)

theorem uniform_content (block indentless : Bool) (stacked : (m.goto after).WellStacked)
    (follows : after.followsNode = true) (properties : Properties) :
    Uniform (if properties = noProperties then 4 else 0) (if indentless then 5 else 0) (m.goto after)
      fun R => ((m.inside after).ending R).content block indentless properties := by
  have hEmpty := uniform_noContent indentless stacked properties
  have hFour : (if properties = noProperties then 4 else 0) ≤ 4 := by split <;> omega
  obtain ⟨tokens, place, returns, handles⟩ := m
  -- a token that starts a collection
  have hEnter {t : Token} {T : List Token} (p : Place) (hTokens : tokens = t :: T) (inner : p.inCollection = true)
      (light : p.weight = 0) (opens : ∀ k, t.nest k ≤ k + if p.isFlow then 1 else 0) (e : Event) :
      Uniform (if properties = noProperties then 4 else 0) (if indentless then 5 else 0)
        (goto ⟨tokens, place, returns, handles⟩ after)
        fun R => (ending ⟨T, p, after :: returns, handles⟩ R).emit e := by
    have hLeads := leads_enter (T := [t]) stacked follows inner hTokens opens
    rw [light] at hLeads
    exact (Uniform.emit hLeads).weaken (by rw [List.length_singleton]; omega)
  cases tokens with
  | nil =>
    refine hEmpty.congr fun R hR => ?_
    cases hR with
    | stream _ => cases block <;> rfl
    | document _ => cases block <;> rfl
  | cons t T =>
    cases t with
    | blockEntry =>
      refine .ite (fun hIndentless => ?_) fun _ => hEmpty
      have hTokens : Token.blockEntry :: T = [] ++ .blockEntry :: T := rfl
      have hLeads := leads_enter (p := .indentlessSequence) stacked follows rfl hTokens fun k => Nat.le_refl k
      rw [if_pos hIndentless]
      refine (Uniform.emit hLeads).weaken ?_
      rw [List.length_nil, Place.weight]
      omega
    | scalar text plain =>
      refine (Uniform.emit (leads_skip stacked rfl fun k => Nat.le_refl k)).weaken (by omega)
    | flowSequenceStart => exact hEnter (.flowSequence true) rfl rfl rfl (fun k => Nat.le_refl _) _
    | flowMappingStart => exact hEnter (.flowMappingKey true) rfl rfl rfl (fun k => Nat.le_refl _) _
    | blockSequenceStart =>
      refine .ite (fun _ => hEnter .blockSequence rfl rfl rfl (fun k => Nat.le_refl _) _) fun _ => ?_
      exact .ite (fun h => absurd h (by simp)) fun _ => hEmpty
    | blockMappingStart =>
      refine .ite (fun h => absurd h (by simp)) fun _ => ?_
      exact .ite (fun _ => hEnter .blockMappingKey rfl rfl rfl (fun k => Nat.le_refl _) _) fun _ => hEmpty
    | _ =>
      refine hEmpty.congr fun R hR => ?_
      cases block <;> rfl

theorem uniform_node (block indentless : Bool) (stacked : (m.goto after).WellStacked)
    (follows : after.followsNode = true) :
    Uniform 4 (if indentless then 5 else 0) (m.goto after) fun R => (m.ending R).node block indentless after := by
  by_cases hAlias : ∃ name T, m.tokens = .alias name :: T
  · obtain ⟨name, T, hTokens⟩ := hAlias
    refine ((Uniform.emit (e := .alias name) (leads_skip stacked hTokens fun k => Nat.le_refl k)).weaken ?_).congr
      fun R _ => ?_
    · omega
    · rw [node_of_alias (T := T ++ R) (by rw [ending, hTokens]; rfl), ← ending_skip (m := m.goto after) R hTokens]
      rfl
  · have hNode (R : List Token) (hR : Closes R) : (m.ending R).node block indentless after =
        (m.inside after).properties.bind fun (properties, m') => (m'.ending R).content block indentless properties := by
      rw [node_of_not_alias, show (m.ending R).inside after = (m.inside after).ending R from rfl,
        properties_ending hR, Option.bind_map]
      · rfl
      · intro name T hTokens
        rw [ending] at hTokens
        cases hOwn : m.tokens with
        | nil =>
          rw [hOwn] at hTokens
          cases hR <;> cases hTokens
        | cons t T' =>
          rw [hOwn] at hTokens
          exact hAlias ⟨name, T', by rw [hOwn, (List.cons.inj hTokens).1]⟩
    refine Uniform.congr ?_ hNode
    cases hProperties : (m.inside after).properties with
    | none => exact .none
    | some found =>
      obtain ⟨properties, m'⟩ := found
      obtain ⟨P, hTokens, hNeutral, hConsumed, hRest⟩ := exists_of_properties hProperties
      rw [hRest]
      have hPass := leads_pass (m := m.goto after) (T := P) stacked hTokens
        fun k => Nat.le_of_eq (depth_of_neutral hNeutral k)
      have hContent := uniform_content (m := { m with tokens := m'.tokens }) block indentless hPass.stacked
        follows properties
      refine (hPass.uniform hContent).weaken ?_
      rcases hConsumed with hNone | hSome
      · rw [if_pos hNone]
        omega
      · have hPositive : 0 < P.length := List.length_pos_iff.mpr hSome
        omega

theorem uniform_nodeAt (after : Place) (block indentless : Bool) (stacked : m.WellStacked)
    (here : m.place.inCollection = true) (there : after.inCollection = true) (flow : after.isFlow = m.place.isFlow) :
    Uniform (m.place.weight + 4) (after.weight + if indentless then 5 else 0) m
      fun R => (m.ending R).node block indentless after := by
  have hGoto := leads_goto stacked here there flow
  exact hGoto.uniform (uniform_node block indentless hGoto.stacked (by rw [Place.followsNode, there, Bool.true_or]))

theorem uniform_emptyScalar (after : Place) (stacked : m.WellStacked) (here : m.place.inCollection = true)
    (there : after.inCollection = true) (flow : after.isFlow = m.place.isFlow) :
    Uniform m.place.weight after.weight m fun R => (m.ending R).emptyScalar after :=
  .emit (leads_goto stacked here there flow)

theorem uniform_entry {t : Token} {T : List Token} (after : Place) (block indentless : Bool)
    (stacked : m.WellStacked) (here : m.place.inCollection = true)
    (there : after.inCollection = true) (flow : after.isFlow = m.place.isFlow) (tokens : m.tokens = t :: T)
    (neutral : ∀ k, t.nest k ≤ k) (ends : List Token)
    (others : ends.contains .streamEnd = false ∧ ends.contains .documentStart = false) :
    Uniform 4 (after.weight + if indentless then 1 else 0) m fun R =>
      if (m.ending R).skip.nextIs ends then (m.ending R).skip.emptyScalar after
      else (m.ending R).skip.node block indentless after := by
  have hSkip := leads_skip stacked tokens neutral
  have hEmpty := hSkip.uniform (uniform_emptyScalar (m := m.skip) after hSkip.stacked here there flow)
  have hNode := hSkip.uniform (uniform_nodeAt (m := m.skip) after block indentless hSkip.stacked here there flow)
  refine Uniform.congr (f := fun R => if m.skip.sees ends = true then (m.skip.ending R).emptyScalar after
    else (m.skip.ending R).node block indentless after) ?_ fun R hR => ?_
  · refine .ite (fun _ => hEmpty.weaken (by omega)) fun _ => hNode.weaken ?_
    cases indentless
    · simp only [Bool.false_eq_true, reduceIte]
      omega
    · simp only [reduceIte]
      omega
  · rw [ending_skip R tokens, nextIs_ending hR ends others]

theorem uniform_entryOr (t : Token) (ends : List Token) (after : Place) (block indentless : Bool)
    {g : List Token → Outcome} (stacked : m.WellStacked)
    (here : m.place.inCollection = true) (there : after.inCollection = true) (flow : after.isFlow = m.place.isFlow)
    (light : after.weight + (if indentless then 1 else 0) ≤ 3) (neutral : t.nest = id)
    (inner : [t].contains .streamEnd = false ∧ [t].contains .documentStart = false)
    (others : ends.contains .streamEnd = false ∧ ends.contains .documentStart = false) (rest : Uniform 1 0 m g) :
    Uniform 1 0 m fun R => if (m.ending R).nextIs [t] then
        if (m.ending R).skip.nextIs ends then (m.ending R).skip.emptyScalar after
        else (m.ending R).skip.node block indentless after
      else g R := by
  refine Uniform.congr (f := fun R => if m.sees [t] = true then
      if (m.ending R).skip.nextIs ends then (m.ending R).skip.emptyScalar after
      else (m.ending R).skip.node block indentless after
    else g R) ?_ fun R hR => by rw [nextIs_ending hR [t] inner]
  refine .ite (fun hEntry => ?_) fun _ => rest
  obtain ⟨_, T, hTokens, hMem⟩ := exists_of_sees hEntry
  obtain rfl := List.mem_singleton.mp hMem
  have hNeutral (k : Nat) : Token.nest _ k ≤ k := Nat.le_of_eq (congrFun neutral k)
  exact (uniform_entry after block indentless stacked here there flow hTokens hNeutral ends others).weaken (by omega)

theorem uniform_pairValue (ends : List Token) (after : Place) (stacked : m.WellStacked)
    (here : m.place.inCollection = true) (there : after.inCollection = true) (flow : after.isFlow = m.place.isFlow)
    (lighter : after.weight < m.place.weight) (light : after.weight ≤ 3)
    (others : ends.contains .streamEnd = false ∧ ends.contains .documentStart = false) :
    Uniform 1 0 m fun R => (m.ending R).pairValue ends after :=
  uniform_entryOr .value ends after false false stacked here there flow light rfl (by decide) others
    ((uniform_emptyScalar after stacked here there flow).weaken (by omega))

theorem uniform_back {e : Event} (stacked : m.WellStacked) (here : m.place.outsideDocument = false)
    (flow : m.place.isFlow = false) : Uniform m.place.weight 0 m fun R => (m.ending R).back.emit e :=
  (Uniform.emit (leads_back stacked here flow)).congr fun R _ => by rw [ending_back]

theorem uniform_close {e : Event} {t : Token} {T : List Token} (stacked : m.WellStacked)
    (here : m.place.inCollection = true) (tokens : m.tokens = t :: T) (closes : ∀ k, t.nest k = k - 1) :
    Uniform 4 0 m fun R => (m.ending R).skip.back.emit e :=
  (Uniform.emit (leads_close stacked here tokens closes)).congr fun R _ => by rw [ending_skip R tokens, ending_back]

def flowItem (m : Machine) : Outcome :=
  match m.tokens with
  | .flowSequenceEnd :: _ => m.skip.back.emit .sequenceEnd
  | .key :: _ => (m.skip.goto .flowPairKey).emit (.mappingStart noProperties)
  | _ => m.node false false (.flowSequence false)

theorem flowSequence_eq (first : Bool) : m.flowSequence first =
    if first || m.nextIs [.flowSequenceEnd] then m.flowItem
    else if m.nextIs [.flowEntry] then m.skip.flowItem
    else none := by
  unfold flowSequence
  split
  · rfl
  · split
    · rfl
    · rfl

theorem uniform_flowItem {first : Bool} (stacked : m.WellStacked) (here : m.place = .flowSequence first) :
    Uniform 4 0 m fun R => (m.ending R).flowItem := by
  have hInner : m.place.inCollection = true := by rw [here]; rfl
  have hFlow : (Place.flowSequence false).isFlow = m.place.isFlow := by rw [here]; rfl
  have hNode := (uniform_nodeAt (.flowSequence false) false false stacked hInner rfl hFlow).weaken
    (c := 4) (d := 0) (by simp [Place.weight])
  obtain ⟨tokens, place, returns, handles⟩ := m
  cases tokens with
  | nil =>
    refine hNode.congr fun R hR => ?_
    cases hR <;> rfl
  | cons t T =>
    cases t with
    | flowSequenceEnd => exact uniform_close stacked hInner rfl fun k => rfl
    | key =>
      have hSkip := leads_skip stacked rfl fun k => Nat.le_refl k
      have hGoto := leads_goto (p := .flowPairKey) hSkip.stacked hInner rfl hFlow
      exact (Uniform.emit (hSkip.trans hGoto)).weaken (by simp [Place.weight])
    | _ => exact hNode

theorem uniform_flowSequence {first : Bool} (stacked : m.WellStacked) (here : m.place = .flowSequence first) :
    Uniform 1 0 m fun R => (m.ending R).flowSequence first := by
  refine Uniform.congr (f := fun R => if (first || m.sees [.flowSequenceEnd]) = true then (m.ending R).flowItem
    else if m.sees [.flowEntry] = true then (m.ending R).skip.flowItem else none) ?_ fun R hR => ?_
  · refine .ite (fun _ => (uniform_flowItem stacked here).weaken (by omega)) fun _ => ?_
    refine .ite (fun hEntry => ?_) fun _ => .none
    obtain ⟨t, T, hTokens, hMem⟩ := exists_of_sees hEntry
    obtain rfl := List.mem_singleton.mp hMem
    have hSkip := leads_skip stacked hTokens fun k => Nat.le_refl k
    refine ((hSkip.uniform (uniform_flowItem (m := m.skip) hSkip.stacked here)).weaken (by omega)).congr fun R _ => ?_
    rw [ending_skip R hTokens]
  · rw [flowSequence_eq, nextIs_ending hR _ (by decide), nextIs_ending hR _ (by decide)]

def flowPair (m : Machine) : Outcome :=
  match m.tokens with
  | .flowMappingEnd :: _ => m.skip.back.emit .mappingEnd
  | .key :: _ =>
    if m.skip.nextIs [.value, .flowEntry, .flowMappingEnd] then m.skip.emptyScalar .flowMappingValue
    else m.skip.node false false .flowMappingValue
  | _ => m.node false false .flowMappingNoValue

theorem flowMapping_eq (first : Bool) : m.flowMapping first =
    if first || m.nextIs [.flowMappingEnd] then m.flowPair
    else if m.nextIs [.flowEntry] then m.skip.flowPair
    else none := by
  unfold flowMapping
  split
  · rfl
  · split
    · rfl
    · rfl

theorem uniform_flowPair {first : Bool} (stacked : m.WellStacked) (here : m.place = .flowMappingKey first) :
    Uniform 3 0 m fun R => (m.ending R).flowPair := by
  have hInner : m.place.inCollection = true := by rw [here]; rfl
  have hFlow : true = m.place.isFlow := by rw [here]; rfl
  have hNode := (uniform_nodeAt .flowMappingNoValue false false stacked hInner rfl hFlow).weaken
    (c := 3) (d := 0) (by simp [Place.weight])
  obtain ⟨tokens, place, returns, handles⟩ := m
  cases tokens with
  | nil =>
    refine hNode.congr fun R hR => ?_
    cases hR <;> rfl
  | cons t T =>
    cases t with
    | flowMappingEnd =>
      have hClose := uniform_close (e := .mappingEnd) stacked hInner rfl fun k => rfl
      exact hClose.weaken (by omega)
    | key =>
      refine (uniform_entry .flowMappingValue false false stacked hInner rfl hFlow rfl (fun k => Nat.le_refl k)
        [.value, .flowEntry, .flowMappingEnd] (by decide)).weaken ?_
      simp [Place.weight]
    | _ => exact hNode

theorem uniform_flowMapping {first : Bool} (stacked : m.WellStacked) (here : m.place = .flowMappingKey first) :
    Uniform 1 0 m fun R => (m.ending R).flowMapping first := by
  refine Uniform.congr (f := fun R => if (first || m.sees [.flowMappingEnd]) = true then (m.ending R).flowPair
    else if m.sees [.flowEntry] = true then (m.ending R).skip.flowPair else none) ?_ fun R hR => ?_
  · refine .ite (fun _ => (uniform_flowPair stacked here).weaken (by omega)) fun _ => ?_
    refine .ite (fun hEntry => ?_) fun _ => .none
    obtain ⟨t, T, hTokens, hMem⟩ := exists_of_sees hEntry
    obtain rfl := List.mem_singleton.mp hMem
    have hSkip := leads_skip stacked hTokens fun k => Nat.le_refl k
    refine ((hSkip.uniform (uniform_flowPair (m := m.skip) hSkip.stacked here)).weaken (by omega)).congr fun R _ => ?_
    rw [ending_skip R hTokens]
  · rw [flowMapping_eq, nextIs_ending hR _ (by decide), nextIs_ending hR _ (by decide)]

theorem uniform_blockEnd {e : Event} (stacked : m.WellStacked) (here : m.place.outsideDocument = false)
    (flow : m.place.isFlow = false) :
    Uniform 1 0 m fun R => if (m.ending R).nextIs [.blockEnd] then (m.ending R).skip.back.emit e else none := by
  refine Uniform.congr (f := fun R => if m.sees [.blockEnd] = true then (m.ending R).skip.back.emit e else none) ?_
    fun R hR => by rw [nextIs_ending hR [.blockEnd] (by decide)]
  refine .ite (fun hEnd => ?_) fun _ => .none
  obtain ⟨t, T, hTokens, hMem⟩ := exists_of_sees hEnd
  obtain rfl := List.mem_singleton.mp hMem
  have hSkip := leads_skip stacked hTokens fun k => Nat.le_refl k
  have hBack := hSkip.uniform (uniform_back (e := e) hSkip.stacked here flow)
  exact (hBack.weaken (by omega)).congr fun R _ => by rw [ending_skip R hTokens]

theorem uniform_flowPairKey (stacked : m.WellStacked) (here : m.place = .flowPairKey) :
    Uniform 1 0 m fun R => if (m.ending R).nextIs [.value, .flowEntry, .flowSequenceEnd] then
      (m.ending R).skip.emptyScalar .flowPairValue else (m.ending R).node false false .flowPairValue := by
  have hInner : m.place.inCollection = true := by rw [here]; rfl
  have hFlow : true = m.place.isFlow := by rw [here]; rfl
  refine Uniform.congr (f := fun R => if m.sees [.value, .flowEntry, .flowSequenceEnd] = true then
      (m.ending R).skip.emptyScalar .flowPairValue
    else (m.ending R).node false false .flowPairValue) ?_ fun R hR => by rw [nextIs_ending hR _ (by decide)]
  refine .ite (fun hMissing => ?_) fun _ => ?_
  · obtain ⟨t, T, hTokens, hMem⟩ := exists_of_sees hMissing
    have hCloses (k : Nat) : t.nest k ≤ k := by
      simp only [List.mem_cons, List.not_mem_nil, or_false] at hMem
      rcases hMem with rfl | rfl | rfl
      · exact Nat.le_refl k
      · exact Nat.le_refl k
      · exact Nat.sub_le k 1
    have hSkip := leads_skip stacked hTokens hCloses
    have hEmpty := hSkip.uniform (uniform_emptyScalar (m := m.skip) .flowPairValue hSkip.stacked hInner rfl hFlow)
    refine (hEmpty.weaken ?_).congr fun R _ => by rw [ending_skip R hTokens]
    rw [show Place.weight .flowPairValue = 2 from rfl]
    omega
  · refine (uniform_nodeAt .flowPairValue false false stacked hInner rfl hFlow).weaken ?_
    simp [Place.weight]

theorem uniform_documentNode (stacked : m.WellStacked) (outside : m.place.outsideDocument = false)
    (flow : m.place.isFlow = false) :
    Uniform 4 0 m fun R => (m.ending R).back.node true false (m.ending R).back.place := by
  have hBack := leads_back stacked outside flow
  obtain ⟨next, outer, hReturns, hFollows, -⟩ := exists_returns stacked outside
  have hNext : m.back.place.followsNode = true := by rwa [back_eq hReturns]
  refine ((hBack.uniform (uniform_node true false hBack.stacked hNext)).weaken ?_).congr
    fun R _ => by rw [ending_back]; rfl
  simp

theorem uniform_documentContent {tokens : List Token} {returns : List Place} {handles : List (Bytes × Bytes)}
    (stacked : WellStacked ⟨tokens, .documentContent, returns, handles⟩) :
    Uniform 1 0 ⟨tokens, .documentContent, returns, handles⟩
      fun R => (ending ⟨tokens, .documentContent, returns, handles⟩ R).step := by
  have hBack : Uniform 1 0 _ _ := uniform_back (e := .scalar noProperties "" true) stacked rfl rfl
  cases tokens with
  | nil =>
    refine hBack.congr fun R hR => ?_
    cases hR <;> rfl
  | cons t T =>
    cases t with
    | version | tagDirective | documentStart | documentEnd | streamEnd => exact hBack
    | _ => exact (uniform_documentNode stacked rfl rfl).weaken (by omega)

theorem uniform_documentEnd {tokens : List Token} {returns : List Place} {handles : List (Bytes × Bytes)}
    (stacked : WellStacked ⟨tokens, .documentEnd, returns, handles⟩) :
    Uniform 1 0 ⟨tokens, .documentEnd, returns, handles⟩
      fun R => (ending ⟨tokens, .documentEnd, returns, handles⟩ R).step := by
  obtain rfl : returns = [] := by
    cases stacked with
    | outside _ => rfl
    | document h => cases h
    | collection h _ _ => cases h
  have hStart (T : List Token) : Leads 1 0 ⟨T, .documentEnd, [], handles⟩ ⟨T, .documentStart, [], handles⟩ :=
    ⟨Nat.le_refl _, ⟨[], rfl, fun _ hk => hk⟩, .outside rfl⟩
  cases tokens with
  | nil =>
    refine (Uniform.emit (e := .documentEnd) (hStart [])).congr fun R hR => ?_
    cases hR <;> rfl
  | cons t T =>
    cases t with
    | documentEnd =>
      have hSkip := leads_skip stacked rfl fun k => Nat.le_refl k
      exact (Uniform.emit (e := .documentEnd) (hSkip.trans (hStart T))).weaken (by omega)
    | _ => exact Uniform.emit (e := .documentEnd) (hStart _)

theorem uniform_stepInside (stacked : m.WellStacked)
    (running : m.place ≠ .streamStart ∧ m.place ≠ .documentStart) :
    Uniform 1 0 m fun R => (m.ending R).step := by
  obtain ⟨tokens, place, returns, handles⟩ := m
  cases place with
  | streamStart => exact absurd rfl running.1
  | documentStart => exact absurd rfl running.2
  | documentContent => exact uniform_documentContent stacked
  | documentEnd => exact uniform_documentEnd stacked
  | blockNode => exact (uniform_documentNode stacked rfl rfl).weaken (by omega)
  | blockSequence =>
    exact uniform_entryOr .blockEntry [.blockEntry, .blockEnd] .blockSequence true false stacked rfl rfl rfl
      (by decide) rfl (by decide) (by decide) (uniform_blockEnd stacked rfl rfl)
  | indentlessSequence =>
    exact uniform_entryOr .blockEntry [.blockEntry, .key, .value, .blockEnd] .indentlessSequence true false stacked
      rfl rfl rfl (by decide) rfl (by decide) (by decide) (uniform_back stacked rfl rfl)
  | blockMappingKey =>
    exact uniform_entryOr .key [.key, .value, .blockEnd] .blockMappingValue true true stacked rfl rfl rfl
      (by decide) rfl (by decide) (by decide) (uniform_blockEnd stacked rfl rfl)
  | blockMappingValue =>
    exact uniform_entryOr .value [.key, .value, .blockEnd] .blockMappingKey true true stacked rfl rfl rfl
      (by decide) rfl (by decide) (by decide) (uniform_emptyScalar .blockMappingKey stacked rfl rfl rfl)
  | flowSequence first => exact uniform_flowSequence stacked rfl
  | flowPairKey => exact uniform_flowPairKey stacked rfl
  | flowPairValue =>
    exact uniform_pairValue [.flowEntry, .flowSequenceEnd] .flowPairEnd stacked rfl rfl rfl (by simp [Place.weight])
      (by decide) (by decide)
  | flowPairEnd => exact Uniform.emit (leads_goto (p := .flowSequence false) stacked rfl rfl rfl)
  | flowMappingKey first => exact uniform_flowMapping stacked rfl
  | flowMappingValue =>
    exact uniform_pairValue [.flowEntry, .flowMappingEnd] (.flowMappingKey false) stacked rfl rfl rfl
      (by simp [Place.weight]) (by decide) (by decide)
  | flowMappingNoValue => exact uniform_emptyScalar (.flowMappingKey false) stacked rfl rfl rfl

theorem directives_append {versioned : Bool} {handles found : List (Bytes × Bytes)} {T rest : List Token}
    (h : directives (T ++ [.streamEnd]) versioned handles = some (found, .documentStart :: rest)) :
    ∃ P T', T = P ++ .documentStart :: T' ∧ (∀ t ∈ P, t.nest = id) ∧
      ∀ R, directives (T ++ R) versioned handles = some (found, .documentStart :: (T' ++ R)) := by
  induction T generalizing versioned handles with
  | nil => simp [directives] at h
  | cons t T ih =>
    cases t with
    | version major minor =>
      simp only [List.cons_append, directives] at h ⊢
      split at h
      · cases h
      · rename_i hVersion
        obtain ⟨P, T', rfl, hNeutral, hAll⟩ := ih h
        refine ⟨.version major minor :: P, T', rfl, ?_, fun R => ?_⟩
        · rw [List.forall_mem_cons]
          exact ⟨rfl, hNeutral⟩
        · rw [if_neg hVersion]
          exact hAll R
    | tagDirective handle tagStart =>
      simp only [List.cons_append, directives] at h ⊢
      split at h
      · cases h
      · rename_i hHandle
        obtain ⟨P, T', rfl, hNeutral, hAll⟩ := ih h
        refine ⟨.tagDirective handle tagStart :: P, T', rfl, ?_, fun R => ?_⟩
        · rw [List.forall_mem_cons]
          exact ⟨rfl, hNeutral⟩
        · rw [if_neg hHandle]
          exact hAll R
    | documentStart =>
      refine ⟨[], T, rfl, by simp, fun R => ?_⟩
      obtain ⟨rfl, -⟩ := Prod.mk.inj (Option.some.inj h)
      rfl
    | _ => simp [directives] at h

theorem returns_of_outside (stacked : m.WellStacked) (outside : m.place.outsideDocument = true) : m.returns = [] := by
  rw [WellStacked] at stacked
  generalize m.returns = returns at stacked ⊢
  cases stacked with
  | outside _ => rfl
  | document h => cases hPlace : m.place <;> simp_all [Place.outsideDocument, Place.beginsDocument]
  | collection h _ _ => simp [Place.inCollection, outside] at h

theorem flows_of_outside (stacked : m.WellStacked) (outside : m.place.outsideDocument = true) : m.flows = 0 := by
  have hFlow : m.place.isFlow = false := by
    cases hPlace : m.place <;> simp_all [Place.outsideDocument, Place.isFlow]
  rw [flows_eq, returns_of_outside stacked outside, hFlow]
  rfl

theorem leads_document {P T : List Token} (stacked : m.WellStacked) (outside : m.place.outsideDocument = true)
    (begins : p.beginsDocument = true) (tokens : m.tokens = P ++ T) (neutral : ∀ t ∈ P, t.nest = id)
    (handles : List (Bytes × Bytes)) :
    Leads (m.place.weight + 4 * P.length) (p.weight + 1) m ⟨T, p, .documentEnd :: m.returns, handles⟩ := by
  have hReturns := returns_of_outside stacked outside
  refine ⟨?_, ⟨P, tokens, fun k hk => ?_⟩, ?_⟩
  · simp only [potential_eq, tokens, hReturns, List.length_append, weights, List.map_cons, List.map_nil,
      List.sum_cons, List.sum_nil, Place.weight]
    omega
  · rw [flows_of_outside stacked outside] at hk
    rw [depth_of_neutral neutral]
    exact Nat.le_trans hk (Nat.zero_le _)
  · rw [WellStacked, hReturns]
    exact .document begins

theorem uniform_explicitDocument (stacked : m.WellStacked) (outside : m.place.outsideDocument = true) :
    Uniform 2 0 m fun R => (m.ending R).explicitDocument := by
  intro o h
  obtain ⟨⟨found, rest⟩, hDirectives, h⟩ := Option.bind_eq_some_iff.mp h
  dsimp only at h
  split at h
  · rename_i rest
    obtain ⟨P, T, hTokens, hNeutral, hAll⟩ := directives_append hDirectives
    have hSplit : m.tokens = (P ++ [.documentStart]) ++ T := by rw [hTokens, List.append_assoc]; rfl
    have hNeutral' : ∀ t ∈ P ++ [.documentStart], t.nest = id := by
      simp only [List.mem_append, List.mem_singleton]
      rintro t (hMem | rfl)
      · exact hNeutral t hMem
      · rfl
    refine ⟨.documentStart, _, (leads_document (p := .documentContent) stacked outside rfl hSplit hNeutral'
      (found ++ commonHandles)).weaken ?_, fun R _ => ?_⟩
    · rw [List.length_append, List.length_singleton, show Place.weight .documentContent = 1 from rfl]
      omega
    · show (directives (m.tokens ++ R) false []).bind _ = _
      rw [hAll R]
      rfl
  · cases h

structure Ended (m : Machine) : Prop where
  place : m.place = .streamStart ∧ m.tokens = [] ∨ m.place = .documentStart ∧ ∀ t ∈ m.tokens, t = .documentEnd

theorem uniform_firstDocument (stacked : m.WellStacked) (here : m.place = .streamStart) (more : m.tokens ≠ [])
    (unended : .streamEnd ∉ m.tokens) : Uniform 1 0 m fun R => (m.ending R).startDocument true := by
  have hOutside : m.place.outsideDocument = true := by rw [here]; rfl
  have hExplicit := (uniform_explicitDocument stacked hOutside).weaken (c := 1) (d := 0) (by omega)
  have hBare := leads_document (p := .blockNode) (P := []) stacked hOutside rfl rfl (by simp) commonHandles
  have hBare := (Uniform.emit (e := .documentStart) hBare).weaken (c := 1) (d := 0)
    (by rw [here]; simp [Place.weight])
  obtain ⟨tokens, place, returns, handles⟩ := m
  cases tokens with
  | nil => exact absurd rfl more
  | cons t T =>
    cases t with
    | streamEnd => exact absurd List.mem_cons_self unended
    | version | tagDirective | documentStart => exact hExplicit
    | _ => exact hBare

theorem uniform_nextDocument (stacked : m.WellStacked) (here : m.place = .documentStart)
    (more : ¬∀ t ∈ m.tokens, t = .documentEnd) (unended : .streamEnd ∉ m.tokens) :
    Uniform 1 0 m fun R => (m.ending R).startDocument false := by
  have hSplit := (List.takeWhile_append_dropWhile (p := fun t => decide (t = Token.documentEnd)) (l := m.tokens)).symm
  have hNeutral : ∀ t ∈ m.tokens.takeWhile fun t => decide (t = Token.documentEnd), t.nest = id := by
    intro t ht
    have hEnd : t = .documentEnd := by simpa using List.mem_takeWhile_imp ht
    rw [hEnd]
    rfl
  have hPass := leads_pass stacked hSplit fun k => Nat.le_of_eq (depth_of_neutral hNeutral k)
  have hExplicit := hPass.uniform (uniform_explicitDocument
    (m := { m with tokens := m.tokens.dropWhile fun t => decide (t = .documentEnd) }) hPass.stacked
    (by rw [show Machine.place _ = _ from here]; rfl))
  refine (hExplicit.weaken (by omega)).congr fun R _ => ?_
  have hRest : ∃ t T, (m.tokens.dropWhile fun t => decide (t = Token.documentEnd)) = t :: T := by
    refine List.exists_cons_of_ne_nil fun hNil => more fun t ht => ?_
    simpa using List.dropWhile_eq_nil_iff.mp hNil t ht
  obtain ⟨t, T, hRest⟩ := hRest
  have hEnd : t ≠ .streamEnd := by
    rintro rfl
    refine unended ((List.dropWhile_sublist _).mem (?_ : _ ∈ m.tokens.dropWhile fun t => decide (t = .documentEnd)))
    rw [hRest]
    exact List.mem_cons_self
  have hWithin : ((m.tokens ++ R).dropWhile fun t => decide (t = Token.documentEnd)) = t :: (T ++ R) := by
    rw [List.dropWhile_append, hRest]
    rfl
  rw [hRest]
  simp only [startDocument, ending, hWithin, Bool.false_eq_true, reduceIte]
  cases t with
  | streamEnd => exact absurd rfl hEnd
  | _ => rfl

/-- Each step is the same whatever comes after the text, as long as that has not ended. -/
theorem uniform_step (stacked : m.WellStacked) (unended : .streamEnd ∉ m.tokens) (more : ¬m.Ended) :
    Uniform 1 0 m fun R => (m.ending R).step := by
  by_cases hFirst : m.place = .streamStart
  · refine (uniform_firstDocument stacked hFirst ?_ unended).congr fun R _ => ?_
    · exact fun hTokens => more ⟨.inl ⟨hFirst, hTokens⟩⟩
    · rw [step, show (m.ending R).place = .streamStart from hFirst]
  by_cases hNext : m.place = .documentStart
  · refine (uniform_nextDocument stacked hNext ?_ unended).congr fun R _ => ?_
    · exact fun hTokens => more ⟨.inr ⟨hNext, hTokens⟩⟩
    · rw [step, show (m.ending R).place = .documentStart from hNext]
  exact uniform_stepInside stacked ⟨hFirst, hNext⟩

end DeliveryPipeline.Yaml.Machine

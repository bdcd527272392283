import DeliveryPipeline.Proofs.Yaml.Nesting
import DeliveryPipeline.Yaml.Event
import Mathlib.Algebra.GroupWithZero.Nat
import Mathlib.Data.List.Count

/-! # Steps of the grammar

What one step does to the machine: it uses up tokens or leaves a place for one that weighs less, it stays
among at least as many flow collections as its tokens have opened, and it returns to places that belong
there. Where the tokens end, it does the same before the end of the stream and before a document.
-/

namespace DeliveryPipeline.Yaml

set_option autoImplicit false

namespace Place

/-- How many more events than tokens may be made on the way out of a place. -/
def weight : Place → Nat
  | .streamStart | .flowPairValue => 2
  | .documentContent | .documentEnd | .indentlessSequence | .blockMappingValue | .flowPairEnd
  | .flowMappingValue | .flowMappingNoValue => 1
  | _ => 0

def isFlow : Place → Bool
  | .flowSequence _ | .flowPairKey | .flowPairValue | .flowPairEnd | .flowMappingKey _ | .flowMappingValue
  | .flowMappingNoValue => true
  | _ => false

def outsideDocument : Place → Bool
  | .streamStart | .documentStart | .documentEnd => true
  | _ => false

def beginsDocument : Place → Bool
  | .documentContent | .blockNode => true
  | _ => false

def inCollection (p : Place) : Bool := !p.outsideDocument && !p.beginsDocument

def followsNode (p : Place) : Bool := p.inCollection || p = .documentEnd

end Place

def depth (tokens : List Token) (before : Nat) : Nat := tokens.foldl (fun depth token => token.nest depth) before

theorem nesting_reverse (tokens : List Token) : Stream.nesting tokens.reverse = depth tokens 0 := by
  rw [Stream.nesting, List.foldr_reverse]
  rfl

theorem depth_append (T T' : List Token) (k : Nat) : depth (T ++ T') k = depth T' (depth T k) :=
  List.foldl_append

theorem depth_of_neutral {T : List Token} (h : ∀ t ∈ T, t.nest = id) (k : Nat) : depth T k = k := by
  induction T with
  | nil => rfl
  | cons t T ih =>
    rw [List.forall_mem_cons] at h
    rw [depth, List.foldl_cons, h.1]
    exact ih h.2

namespace Machine

/-- The places to return to: those of the collections around, then the end of the document. -/
inductive Stacked : Place → List Place → Prop
  | outside {p : Place} (h : p.outsideDocument = true) : Stacked p []
  | document {p : Place} (h : p.beginsDocument = true) : Stacked p [.documentEnd]
  | collection {p next : Place} {outer : List Place} (h : p.inCollection = true)
      (follows : next.followsNode = true) (below : Stacked next outer) : Stacked p (next :: outer)

def WellStacked (m : Machine) : Prop := Stacked m.place m.returns

def weights (places : List Place) : Nat := (places.map Place.weight).sum

/-- More than the number of steps that are left. -/
def potential (m : Machine) : Nat := 4 * m.tokens.length + weights (m.place :: m.returns)

def flows (m : Machine) : Nat := (m.place :: m.returns).countP Place.isFlow

/-- Going from one machine to another, with a gain and a loss of potential. -/
structure Leads (loss gain : Nat) (m m' : Machine) : Prop where
  potential : m'.potential + loss ≤ m.potential + gain
  consumes : ∃ P, m.tokens = P ++ m'.tokens ∧ ∀ k ≤ m.flows, depth P k ≤ m'.flows
  stacked : m'.WellStacked

variable {m m' m'' : Machine} {a b c d : Nat} {t : Token} {T T' : List Token} {p after : Place}

theorem Leads.refl (stacked : m.WellStacked) : Leads 0 0 m m :=
  ⟨Nat.le_refl _, ⟨[], rfl, fun _ hk => hk⟩, stacked⟩

theorem Leads.trans (h : Leads a b m m') (h' : Leads c d m' m'') : Leads (a + c) (b + d) m m'' := by
  refine ⟨?_, ?_, h'.stacked⟩
  · have hFirst := h.potential
    have hSecond := h'.potential
    omega
  · obtain ⟨P, hTokens, hDepth⟩ := h.consumes
    obtain ⟨P', hTokens', hDepth'⟩ := h'.consumes
    refine ⟨P ++ P', by rw [hTokens, hTokens', List.append_assoc], fun k hk => ?_⟩
    rw [depth_append]
    exact hDepth' _ (hDepth k hk)

theorem Leads.weaken (h : Leads a b m m') (le : c + b ≤ a + d) : Leads c d m m' := by
  refine ⟨?_, h.consumes, h.stacked⟩
  have hPotential := h.potential
  omega

theorem potential_eq (m : Machine) :
    m.potential = 4 * m.tokens.length + (m.place.weight + weights m.returns) := rfl

theorem flows_eq (m : Machine) :
    m.flows = m.returns.countP Place.isFlow + if m.place.isFlow then 1 else 0 := List.countP_cons

theorem leads_pass (stacked : m.WellStacked) (tokens : m.tokens = T ++ T') (closes : ∀ k, depth T k ≤ k) :
    Leads (4 * T.length) 0 m { m with tokens := T' } := by
  refine ⟨?_, ⟨T, tokens, fun k hk => Nat.le_trans (closes k) hk⟩, stacked⟩
  simp only [potential_eq, tokens, List.length_append]
  omega

theorem leads_skip (stacked : m.WellStacked) (tokens : m.tokens = t :: T) (closes : ∀ k, t.nest k ≤ k) :
    Leads 4 0 m m.skip := by
  have hPass := leads_pass (T := [t]) stacked tokens closes
  rwa [show { m with tokens := T } = m.skip by rw [skip, tokens]; rfl] at hPass

theorem Stacked.of_inCollection {returns : List Place} (h : Stacked p returns) (inner : p.inCollection = true) :
    ∃ next outer, returns = next :: outer ∧ next.followsNode = true ∧ Stacked next outer := by
  cases h with
  | outside h => simp [Place.inCollection, h] at inner
  | document h => simp [Place.inCollection, h] at inner
  | collection _ follows below => exact ⟨_, _, rfl, follows, below⟩

theorem leads_goto (stacked : m.WellStacked) (here : m.place.inCollection = true) (there : p.inCollection = true)
    (flow : p.isFlow = m.place.isFlow) : Leads m.place.weight p.weight m (m.goto p) := by
  obtain ⟨next, outer, hReturns, hFollows, hBelow⟩ := stacked.of_inCollection here
  refine ⟨?_, ⟨[], rfl, fun k hk => ?_⟩, ?_⟩
  · simp only [potential_eq, goto]
    omega
  · rw [flows_eq] at hk ⊢
    rwa [goto, flow]
  · rw [WellStacked, goto, hReturns]
    exact .collection there hFollows hBelow

theorem exists_returns (stacked : m.WellStacked) (here : m.place.outsideDocument = false) :
    ∃ next outer, m.returns = next :: outer ∧ next.followsNode = true ∧ Stacked next outer := by
  rw [WellStacked] at stacked
  generalize m.returns = returns at stacked ⊢
  cases stacked with
  | outside h => rw [h] at here; cases here
  | document _ => exact ⟨_, _, rfl, rfl, .outside rfl⟩
  | collection _ follows below => exact ⟨_, _, rfl, follows, below⟩

theorem back_eq {next : Place} {outer : List Place} (h : m.returns = next :: outer) :
    m.back = { m with place := next, returns := outer } := by
  rw [back, h]

theorem leads_back (stacked : m.WellStacked) (here : m.place.outsideDocument = false)
    (flow : m.place.isFlow = false) : Leads m.place.weight 0 m m.back := by
  obtain ⟨next, outer, hReturns, -, hBelow⟩ := exists_returns stacked here
  rw [back_eq hReturns]
  refine ⟨?_, ⟨[], rfl, fun k hk => ?_⟩, hBelow⟩
  · simp only [potential_eq, hReturns, weights, List.map_cons, List.sum_cons]
    omega
  · rw [flows_eq, flow, hReturns] at hk
    exact hk

theorem leads_close (stacked : m.WellStacked) (here : m.place.inCollection = true) (tokens : m.tokens = t :: T)
    (closes : ∀ k, t.nest k = k - 1) : Leads 4 0 m m.skip.back := by
  obtain ⟨next, outer, hReturns, -, hBelow⟩ := stacked.of_inCollection here
  rw [back_eq (m := m.skip) hReturns]
  refine ⟨?_, ⟨[t], by simp [skip, tokens], fun k hk => ?_⟩, hBelow⟩
  · simp only [potential_eq, skip, hReturns, tokens, weights, List.map_cons, List.sum_cons, List.drop_one,
      List.tail_cons, List.length_cons]
    omega
  · have hOne : (if m.place.isFlow = true then 1 else 0) ≤ 1 := by split <;> omega
    rw [flows_eq, hReturns, List.countP_cons] at hk
    rw [flows_eq, depth, List.foldl_cons, closes]
    dsimp only [List.foldl_nil]
    omega

theorem leads_enter (stacked : m.WellStacked) (follows : m.place.followsNode = true) (inner : p.inCollection = true)
    (tokens : m.tokens = T ++ T') (opens : ∀ k, depth T k ≤ k + if p.isFlow then 1 else 0) :
    Leads (4 * T.length) p.weight m { m with tokens := T', place := p, returns := m.place :: m.returns } := by
  refine ⟨?_, ⟨T, tokens, fun k hk => ?_⟩, .collection inner follows stacked⟩
  · simp only [potential_eq, tokens, weights, List.map_cons, List.sum_cons, List.length_append]
    omega
  · have hOpens := opens k
    rw [flows_eq] at hk ⊢
    simp only [List.countP_cons]
    omega

/-- The tokens that may come after those of a text: the end of the stream, or the next document. -/
inductive Closes : List Token → Prop
  | stream (T : List Token) : Closes (.streamEnd :: T)
  | document (T : List Token) : Closes (.documentStart :: T)

def ending (m : Machine) (R : List Token) : Machine := { m with tokens := m.tokens ++ R }

/-- What is done before the end of the stream is done before whatever comes after the tokens. -/
def Uniform (loss gain : Nat) (m : Machine) (g : List Token → Outcome) : Prop :=
  ∀ o, g [.streamEnd] = some o →
    ∃ e m', Leads loss gain m m' ∧ ∀ R, Closes R → g R = some (some e, m'.ending R)

variable {g g' : List Token → Outcome} {e : Event}

theorem Uniform.none : Uniform a b m fun _ => none := nofun

theorem Uniform.emit (h : Leads a b m m') : Uniform a b m fun R => (m'.ending R).emit e :=
  fun _ _ => ⟨e, m', h, fun _ _ => rfl⟩

theorem Uniform.congr {f : List Token → Outcome} (h : Uniform a b m f) (eq : ∀ R, Closes R → g R = f R) :
    Uniform a b m g := by
  intro o ho
  rw [eq _ (.stream [])] at ho
  obtain ⟨e, m', hLeads, hAll⟩ := h o ho
  exact ⟨e, m', hLeads, fun R hR => (eq R hR).trans (hAll R hR)⟩

theorem Uniform.ite {q : Prop} [Decidable q] (h : q → Uniform a b m g) (h' : ¬q → Uniform a b m g') :
    Uniform a b m fun R => if q then g R else g' R := by
  by_cases hq : q
  · simpa only [if_pos hq] using h hq
  · simpa only [if_neg hq] using h' hq

theorem Leads.uniform (h : Leads a b m m') (h' : Uniform c d m' g) : Uniform (a + c) (b + d) m g := by
  intro o ho
  obtain ⟨e, m'', hLeads, hAll⟩ := h' o ho
  exact ⟨e, m'', h.trans hLeads, hAll⟩

theorem Uniform.weaken (h : Uniform a b m g) (le : c + b ≤ a + d) : Uniform c d m g := by
  intro o ho
  obtain ⟨e, m', hLeads, hAll⟩ := h o ho
  exact ⟨e, m', hLeads.weaken le, hAll⟩

theorem ending_skip (R : List Token) (h : m.tokens = t :: T) : (m.ending R).skip = m.skip.ending R := by
  simp [ending, skip, h]

theorem ending_back (R : List Token) : (m.ending R).back = m.back.ending R := by
  unfold back
  cases hReturns : m.returns with
  | nil => simp [ending, hReturns]
  | cons next outer => simp [ending, hReturns]

def sees (m : Machine) (tokens : List Token) : Bool := m.tokens.head?.any fun token => tokens.contains token

theorem nextIs_ending {R : List Token} (closes : Closes R) (tokens : List Token)
    (others : tokens.contains .streamEnd = false ∧ tokens.contains .documentStart = false) :
    (m.ending R).nextIs tokens = m.sees tokens := by
  unfold nextIs sees ending
  cases hTokens : m.tokens with
  | nil =>
    cases closes with
    | stream _ => exact others.1
    | document _ => exact others.2
  | cons t T => rfl

theorem exists_of_sees {tokens : List Token} (h : m.sees tokens = true) :
    ∃ t T, m.tokens = t :: T ∧ t ∈ tokens := by
  obtain ⟨t, hHead, hMem⟩ := (Option.any_eq_true _ _).mp h
  obtain ⟨T, hTokens⟩ := List.head?_eq_some_iff.mp hHead
  exact ⟨t, T, hTokens, List.contains_iff_mem.mp hMem⟩

end Machine

end DeliveryPipeline.Yaml

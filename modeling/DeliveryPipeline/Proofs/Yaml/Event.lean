import DeliveryPipeline.Proofs.Yaml.Step

/-! # The events of a text before another one

The tokens of two texts with a document marker between them make the events of the first and those of the
second. Between them there may be an empty document: the marker starts one, and a second text that
starts a document itself does not fill it.
-/

namespace DeliveryPipeline.Yaml

set_option autoImplicit false

namespace Machine

variable {m m' : Machine} {E E' : List Event} {T T' : List Token} {n k : Nat}

theorem run_mono (h : run n m = some E) (le : n ≤ k) : run k m = some E := by
  induction n generalizing m E k with
  | zero => cases h
  | succ n ih =>
    obtain _ | k := k
    · omega
    unfold run at h ⊢
    split at h
    · cases h
    · exact h
    · obtain ⟨E, hRun, rfl⟩ := Option.map_eq_some_iff.mp h
      rw [ih hRun (by omega)]
      rfl

theorem run_of_step {e : Event} (h : m.step = some (some e, m')) : run (n + 1) m = (run n m').map (e :: ·) := by
  simp only [run, h]

theorem run_of_stop (h : m.step = some (none, m')) : run (n + 1) m = some [] := by
  simp only [run, h]

theorem dropWhile_of_ends {tokens : List Token} {t : Token} (h : ∀ t ∈ tokens, t = .documentEnd)
    (more : t ≠ .documentEnd) : ((tokens ++ t :: T).dropWhile fun t => decide (t = .documentEnd)) = t :: T := by
  rw [List.dropWhile_append_of_pos (by simpa using h), List.dropWhile_cons_of_neg (by simpa using more)]

theorem step_of_ended (ended : m.Ended) : ∃ m', (m.ending [.streamEnd]).step = some (none, m') := by
  obtain ⟨tokens, place, returns, handles⟩ := m
  rcases ended.place with ⟨rfl, rfl⟩ | ⟨rfl, hEnds⟩
  · exact ⟨_, rfl⟩
  · refine ⟨⟨[.streamEnd], .documentStart, returns, handles⟩, ?_⟩
    simp [step, startDocument, ending, dropWhile_of_ends hEnds]

theorem step_of_ended_document (stacked : m.WellStacked) (ended : m.Ended) :
    (m.ending (.documentStart :: T)).step =
      some (some .documentStart, ⟨T, .documentContent, [.documentEnd], commonHandles⟩) := by
  obtain ⟨tokens, place, returns, handles⟩ := m
  rcases ended.place with ⟨rfl, rfl⟩ | ⟨rfl, hEnds⟩
  · obtain rfl := returns_of_outside stacked rfl
    rfl
  · obtain rfl := returns_of_outside stacked rfl
    simp [step, startDocument, ending, dropWhile_of_ends hEnds, explicitDocument, directives, emit]

/-- Running to the end of a text comes to where its text has ended; with something else behind the text it goes
on from there. -/
theorem run_ending (stacked : m.WellStacked) (unended : .streamEnd ∉ m.tokens)
    (h : run n (m.ending [.streamEnd]) = some E) :
    ∃ m', m'.Ended ∧ Leads E.length 0 m m' ∧ ∀ R, Closes R → ∀ n E', run n (m'.ending R) = some E' →
      run (E.length + n) (m.ending R) = some (E ++ E') := by
  induction n generalizing m E with
  | zero => cases h
  | succ n ih =>
    -- the end of the stream stops the machine only where its own tokens have ended
    by_cases hEnded : m.Ended
    · obtain ⟨m', hStop⟩ := step_of_ended hEnded
      rw [run_of_stop hStop] at h
      obtain rfl := Option.some.inj h
      refine ⟨m, hEnded, .refl stacked, fun R _ n E' hRun => ?_⟩
      rw [List.length_nil, Nat.zero_add]
      exact hRun
    · cases hStep : (m.ending [.streamEnd]).step with
      | none => simp [run, hStep] at h
      | some o =>
        obtain ⟨e, m₁, hLeads, hAll⟩ := uniform_step stacked unended hEnded o hStep
        rw [run_of_step (hAll _ (.stream []))] at h
        obtain ⟨E, hRun, rfl⟩ := Option.map_eq_some_iff.mp h
        obtain ⟨P, hTokens, -⟩ := hLeads.consumes
        have hUnended : .streamEnd ∉ m₁.tokens := by
          rw [hTokens] at unended
          exact fun hMem => unended (List.mem_append_right P hMem)
        obtain ⟨m', hEnded', hLeads', hRest⟩ := ih hLeads.stacked hUnended hRun
        have hBoth : Leads (E.length + 1) 0 m m' := (hLeads.trans hLeads').weaken (by omega)
        refine ⟨m', hEnded', hBoth, fun R hR n E' hRun' => ?_⟩
        rw [List.length_cons, Nat.add_right_comm, run_of_step (hAll R hR), hRest R hR n E' hRun']
        rfl

def emptyDocument : List Event := [.documentStart, .scalar noProperties "" true, .documentEnd]

theorem run_congr (h : m.step = m'.step) : run n m = run n m' := by
  cases n with
  | zero => rfl
  | succ n => simp only [run, h]

theorem run_emptyDocument (stacked : m.WellStacked) (ended : m.Ended)
    (content : step ⟨T, .documentContent, [.documentEnd], commonHandles⟩ =
      some (some (.scalar noProperties "" true), ⟨T, .documentEnd, [], commonHandles⟩))
    (ends : step ⟨T, .documentEnd, [], commonHandles⟩ =
      some (some .documentEnd, ⟨T, .documentStart, [], commonHandles⟩))
    (h : run n ⟨T, .documentStart, [], commonHandles⟩ = some E) :
    run (n + 3) (m.ending (.documentStart :: T)) = some (emptyDocument ++ E) := by
  rw [run_of_step (step_of_ended_document stacked ended), run_of_step content, run_of_step ends, h]
  rfl

theorem run_bareDocument (stacked : m.WellStacked) (ended : m.Ended)
    (starts : step ⟨T, .streamStart, [], []⟩ =
      some (some .documentStart, ⟨T, .blockNode, [.documentEnd], commonHandles⟩))
    (content : step ⟨T, .documentContent, [.documentEnd], commonHandles⟩ =
      step ⟨T, .blockNode, [.documentEnd], commonHandles⟩)
    (h : run (n + 1) ⟨T, .streamStart, [], []⟩ = some E) :
    run (n + 1) (m.ending (.documentStart :: T)) = some E := by
  rw [run_of_step (step_of_ended_document stacked ended), run_congr content, ← run_of_step starts, h]

theorem run_document (stacked : m.WellStacked) (ended : m.Ended)
    (h : run n ⟨T, .streamStart, [], []⟩ = some E) :
    ∃ between, (between = [] ∨ between = emptyDocument) ∧
      run (n + 3) (m.ending (.documentStart :: T)) = some (between ++ E) := by
  obtain _ | n := n
  · cases h
  cases T with
  | nil =>
    -- no node can be read from no tokens
    obtain _ | n := n
    · cases h
    · cases h
  | cons t T =>
    cases t with
    | streamEnd =>
      exact ⟨emptyDocument, .inr rfl, run_emptyDocument stacked ended rfl rfl h⟩
    | version | tagDirective | documentStart =>
      refine ⟨emptyDocument, .inr rfl, run_emptyDocument stacked ended rfl rfl ?_⟩
      exact (run_congr rfl).trans h
    | documentEnd =>
      obtain _ | n := n
      · cases h
      · cases h
    | _ =>
      exact ⟨[], .inl rfl, run_mono (run_bareDocument stacked ended rfl rfl h) (by omega)⟩

theorem event_of_explicitDocument {e : Event} (h : m.explicitDocument = some (some e, m')) :
    e = .documentStart := by
  obtain ⟨⟨handles, tokens⟩, -, h⟩ := Option.bind_eq_some_iff.mp h
  dsimp only at h
  split at h
  · exact (Option.some.inj (Prod.mk.inj (Option.some.inj h)).1).symm
  · cases h

theorem event_of_startDocument {e : Event} (h : m.startDocument true = some (some e, m')) :
    e = .documentStart := by
  unfold startDocument at h
  dsimp only at h
  split at h
  · cases h
  · exact event_of_explicitDocument h
  · exact event_of_explicitDocument h
  · exact event_of_explicitDocument h
  · exact (Option.some.inj (Prod.mk.inj (Option.some.inj h)).1).symm

theorem run_streamStart (h : run n ⟨T, .streamStart, [], []⟩ = some E) :
    E = [] ∨ ∃ rest, E = .documentStart :: rest := by
  obtain _ | n := n
  · cases h
  cases hStep : step ⟨T, .streamStart, [], []⟩ with
  | none => simp [run, hStep] at h
  | some o =>
    obtain ⟨_ | e, m⟩ := o
    · rw [run_of_stop hStep] at h
      exact .inl (Option.some.inj h).symm
    · rw [run_of_step hStep] at h
      obtain ⟨rest, -, rfl⟩ := Option.map_eq_some_iff.mp h
      exact .inr ⟨rest, by rw [event_of_startDocument hStep]⟩

end Machine

def startMachine (tokens : List Token) : Machine := ⟨tokens, .streamStart, [], []⟩

theorem Event.ofTokens?_eq (tokens : List Token) :
    ofTokens? tokens = Machine.run (4 * tokens.length + 8) (startMachine tokens) := rfl

theorem ending_startMachine (T R : List Token) : (startMachine T).ending R = startMachine (T ++ R) := rfl

theorem Event.ofTokens?_append {T T' : List Token} {E E' : List Event}
    (h : ofTokens? (T ++ [.streamEnd]) = some E) (h' : ofTokens? (T' ++ [.streamEnd]) = some E')
    (unended : .streamEnd ∉ T) (unended' : .streamEnd ∉ T') :
    ∃ between, (between = [] ∨ between = Machine.emptyDocument) ∧
      ofTokens? (T ++ .documentStart :: (T' ++ [.streamEnd])) = some (E ++ (between ++ E')) := by
  rw [ofTokens?_eq, ← ending_startMachine] at h h'
  obtain ⟨m, hEnded, hLeads, hRun⟩ := Machine.run_ending (m := startMachine T) (.outside rfl) unended h
  obtain ⟨m', hEnded', hLeads', hRun'⟩ := Machine.run_ending (m := startMachine T') (.outside rfl) unended' h'
  -- the second text alone, with no more steps than it takes
  obtain ⟨_, hStop⟩ := Machine.step_of_ended hEnded'
  have hAlone := hRun' _ (.stream []) 1 [] (Machine.run_of_stop hStop)
  rw [List.append_nil] at hAlone
  obtain ⟨between, hBetween, hSecond⟩ := Machine.run_document hLeads.stacked hEnded hAlone
  have hBoth := hRun _ (.document _) _ _ hSecond
  rw [ending_startMachine] at hBoth
  refine ⟨between, hBetween, ?_⟩
  rw [ofTokens?_eq]
  refine Machine.run_mono hBoth ?_
  have hFirst : E.length ≤ 4 * T.length + 2 := Nat.le_trans (Nat.le_add_left _ _) hLeads.potential
  have hSecond : E'.length ≤ 4 * T'.length + 2 := Nat.le_trans (Nat.le_add_left _ _) hLeads'.potential
  rw [List.length_append, List.length_cons, List.length_append, List.length_singleton]
  omega

theorem Event.depth_eq_zero {T : List Token} {E : List Event} (h : ofTokens? (T ++ [.streamEnd]) = some E)
    (unended : .streamEnd ∉ T) : depth T 0 = 0 := by
  rw [ofTokens?_eq, ← ending_startMachine] at h
  obtain ⟨m, hEnded, hLeads, -⟩ := Machine.run_ending (m := startMachine T) (.outside rfl) unended h
  obtain ⟨P, hTokens, hDepth⟩ := hLeads.consumes
  obtain ⟨hOutside, hNeutral⟩ : m.place.outsideDocument = true ∧ ∀ t ∈ m.tokens, t.nest = id := by
    rcases hEnded.place with ⟨hPlace, hNil⟩ | ⟨hPlace, hEnds⟩
    · exact ⟨by rw [hPlace]; rfl, by simp [hNil]⟩
    · exact ⟨by rw [hPlace]; rfl, fun t ht => by rw [hEnds t ht]; rfl⟩
  have hFlows : m.flows = 0 := Machine.flows_of_outside hLeads.stacked hOutside
  rw [show T = P ++ m.tokens from hTokens, depth_append, depth_of_neutral hNeutral]
  exact Nat.le_zero.mp (hFlows ▸ hDepth 0 (Nat.zero_le _))

end DeliveryPipeline.Yaml

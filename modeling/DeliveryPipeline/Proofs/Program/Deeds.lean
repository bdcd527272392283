import DeliveryPipeline.Session
import DeliveryPipeline.Proofs.Program.Meets

/-! # Deeds in a row

The deeds of a run follow one another: each begins with what was exchanged before, in the world that the
one before left. So what every deed preserves holds all along, and what relates the worlds around every
deed relates any two worlds of the run. A program made of two runs as the first one, and then as the
other from where that ends.
-/

namespace DeliveryPipeline

set_option autoImplicit false

namespace Deed

/-- The reply is one that the world gives under some disturbance, and the world after it is its own. -/
def IsAnswered (deed : Deed) : Prop :=
  ∃ disturbance, deed.before.reply disturbance deed.call = (deed.reply, deed.after)

/-- Deeds that lead from some exchanges and a world to others. -/
inductive Path : List Exchange → World → List Deed → List Exchange → World → Prop
  | nil (past : List Exchange) (world : World) : Path past world [] past world
  | cons (deed : Deed) {rest : List Deed} {past : List Exchange} {world : World} :
    Path (deed.past ++ [deed.exchange]) deed.after rest past world →
      Path deed.past deed.before (deed :: rest) past world

namespace Path

variable {past past' past'' : List Exchange} {world world' world'' : World} {deeds deeds' : List Deed}

theorem append (path : Path past world deeds past' world')
    (next : Path past' world' deeds' past'' world'') :
    Path past world (deeds ++ deeds') past'' world'' := by
  induction path with
  | nil past world => exact next
  | cons deed _ ih => exact .cons deed (ih next)

theorem past_eq (path : Path past world deeds past' world') :
    past' = past ++ deeds.map Deed.exchange := by
  induction path with
  | nil past world => exact (List.append_nil past).symm
  | cons deed _ ih => rw [ih, List.map_cons, List.append_assoc, List.singleton_append]

theorem world_eq (path : Path past world deeds past' world') :
    world' = (deeds.getLast?.map Deed.after).getD world := by
  induction path with
  | nil past world => rfl
  | cons deed _ ih =>
    rw [ih, List.getLast?_cons]
    cases List.getLast? _ <;> rfl

theorem isPrefix_of_mem (path : Path past world deeds past' world') {deed : Deed} (h : deed ∈ deeds) :
    deed.past ++ [deed.exchange] <+: past' := by
  induction path with
  | nil past world => cases h
  | cons first hPath ih =>
    rcases List.mem_cons.mp h with rfl | h
    · exact ⟨_, hPath.past_eq.symm⟩
    · exact ih h

theorem invariant {I : Assertion} (path : Path past world deeds past' world') (start : I past world)
    (step : ∀ deed ∈ deeds, I deed.past deed.before → I (deed.past ++ [deed.exchange]) deed.after) :
    ∀ deed ∈ deeds, I deed.past deed.before ∧ I (deed.past ++ [deed.exchange]) deed.after := by
  induction path with
  | nil past world => simp
  | cons deed _ ih =>
    obtain ⟨hStep, hRest⟩ := List.forall_mem_cons.mp step
    exact List.forall_mem_cons.mpr ⟨⟨start, hStep start⟩, ih (hStep start) hRest⟩

theorem holds_at_end {I : Assertion} (path : Path past world deeds past' world') (start : I past world)
    (step : ∀ deed ∈ deeds, I deed.past deed.before → I (deed.past ++ [deed.exchange]) deed.after) :
    I past' world' := by
  induction path with
  | nil past world => exact start
  | cons deed _ ih =>
    obtain ⟨hStep, hRest⟩ := List.forall_mem_cons.mp step
    exact ih (hStep start) hRest

theorem pairwise {R : World → World → Prop} (trans : ∀ {a b c}, R a b → R b c → R a c)
    (path : Path past world deeds past' world') (step : ∀ deed ∈ deeds, R deed.before deed.after) :
    (world :: deeds.map Deed.after).Pairwise R := by
  induction path with
  | nil past world => exact List.pairwise_singleton R world
  | cons deed _ ih =>
    obtain ⟨hStep, hRest⟩ := List.forall_mem_cons.mp step
    obtain ⟨hLater, hPairs⟩ := List.pairwise_cons.mp (ih hRest)
    refine List.pairwise_cons.mpr ⟨?_, List.pairwise_cons.mpr ⟨hLater, hPairs⟩⟩
    exact List.forall_mem_cons.mpr ⟨hStep, fun w hw => trans hStep (hLater w hw)⟩

theorem pairwise_deeds {R : World → World → Prop} (refl : ∀ w, R w w)
    (trans : ∀ {a b c}, R a b → R b c → R a c) (path : Path past world deeds past' world')
    (step : ∀ deed ∈ deeds, R deed.before deed.after) :
    deeds.Pairwise fun deed later => R deed.after later.before := by
  induction path with
  | nil past world => exact .nil
  | cons deed hPath ih =>
    obtain ⟨-, hRest⟩ := List.forall_mem_cons.mp step
    refine List.pairwise_cons.mpr ⟨fun later hLater => ?_, ih hRest⟩
    exact (hPath.invariant (I := fun _ world => R deed.after world) (refl _)
      (fun deed hDeed hBefore => trans hBefore (hRest deed hDeed)) later hLater).1

end Path

end Deed

namespace Program

variable {σ α : Type} {rule : Rule σ} {command : Api.Command}

theorem path_deeds (rule : Rule σ) (command : Api.Command) (p : Program α) (past : List Exchange)
    (world : World) (state : σ) :
    Deed.Path past world (p.deeds rule command past world state)
      (past ++ (p.run rule world state).exchanges) (p.run rule world state).world := by
  induction p generalizing past world state with
  | done a =>
    change Deed.Path past world [] (past ++ []) world
    rw [List.append_nil]
    exact .nil past world
  | call c next ih =>
    have hRest := ih (world.reply (rule state c).1 c).1
      (past ++ [⟨c, (world.reply (rule state c).1 c).1⟩])
      (world.reply (rule state c).1 c).2 (rule state c).2
    rw [List.append_assoc] at hRest
    exact .cons ⟨command, past, world, c, _, _⟩ hRest

theorem Meets.deeds {allowed : Call → Assertion} {ends : α → Assertion} {p : Program α}
    {past : List Exchange} {world : World} (h : p.Meets allowed ends past world) (state : σ) :
    ∀ deed ∈ p.deeds rule command past world state,
      allowed deed.call deed.past deed.before ∧ deed.IsAnswered ∧ deed.command = command := by
  induction p generalizing past world state with
  | done a => intro deed hDeed; cases hDeed
  | call c next ih =>
    refine List.forall_mem_cons.mpr ⟨⟨h.1, ⟨(rule state c).1, rfl⟩, rfl⟩, ?_⟩
    exact ih _ (h.2 (rule state c).1) (rule state c).2

theorem Meets.after_deeds {I : Assertion} {p : Program α} {past : List Exchange} {world : World}
    (h : p.Meets (fun _ => I) (fun _ => I) past world) (state : σ) :
    ∀ deed ∈ p.deeds rule command past world state, I (deed.past ++ [deed.exchange]) deed.after := by
  induction p generalizing past world state with
  | done a => intro deed hDeed; cases hDeed
  | call c next ih =>
    have hNext := h.2 (rule state c).1
    refine List.forall_mem_cons.mpr ⟨?_, ih _ hNext (rule state c).2⟩
    cases hRest : next (world.reply (rule state c).1 c).1 with
    | done a =>
      rw [hRest] at hNext
      exact hNext
    | call c' next' =>
      rw [hRest] at hNext
      exact hNext.1

theorem Meets.ends_run {allowed : Call → Assertion} {ends : α → Assertion} {p : Program α}
    {past : List Exchange} {world : World} (h : p.Meets allowed ends past world) (rule : Rule σ)
    (state : σ) : ends (p.run rule world state).value (past ++ (p.run rule world state).exchanges)
      (p.run rule world state).world := by
  induction p generalizing past world state with
  | done a =>
    change ends a (past ++ []) world
    rwa [List.append_nil]
  | call c next ih =>
    have hRest := ih _ (h.2 (rule state c).1) (rule state c).2
    rw [List.append_assoc] at hRest
    exact hRest

theorem Meets.allowed_after {allowed : Call → Assertion} {ends : α → Assertion} {p : Program α}
    {past : List Exchange} {world : World} (h : p.Meets allowed ends past world) (rule : Rule σ)
    (state : σ) : ∀ e ∈ (p.run rule world state).exchanges, ∃ own here,
      own ⊆ (p.run rule world state).exchanges ∧ allowed e.call (past ++ own) here := by
  induction p generalizing past world state with
  | done a => intro e he; cases he
  | call c next ih =>
    refine List.forall_mem_cons.mpr ⟨⟨[], world, List.nil_subset _, ?_⟩, fun e he => ?_⟩
    · rw [List.append_nil]
      exact h.1
    · obtain ⟨own, here, hOwn, hAllowed⟩ := ih _ (h.2 (rule state c).1) (rule state c).2 e he
      rw [List.append_assoc] at hAllowed
      exact ⟨_, here, List.cons_subset_cons _ hOwn, hAllowed⟩

theorem Meets.allowed_of_mem_exchanges {allowed : Call → Assertion} {ends : α → Assertion} {p : Program α}
    {past : List Exchange} {world : World} (h : p.Meets allowed ends past world) (rule : Rule σ)
    (state : σ) : ∀ e ∈ (p.run rule world state).exchanges, ∃ past here, allowed e.call past here := by
  intro e he
  obtain ⟨own, here, -, hAllowed⟩ := h.allowed_after rule state e he
  exact ⟨past ++ own, here, hAllowed⟩

theorem run_call (rule : Rule σ) (c : Call) (next : c.Reply → Program α) (world : World) (state : σ) :
    let replied := world.reply (rule state c).1 c
    let rest := (next replied.1).run rule replied.2 (rule state c).2
    (call c next).run rule world state = { rest with exchanges := ⟨c, replied.1⟩ :: rest.exchanges } :=
  rfl

theorem run_bind {β : Type} (rule : Rule σ) (f : α → Program β) (p : Program α) (world : World)
    (state : σ) :
    let first := p.run rule world state
    let rest := (f first.value).run rule first.world first.state
    (bind f p).run rule world state = { rest with exchanges := first.exchanges ++ rest.exchanges } := by
  induction p generalizing world state with
  | done a => rfl
  | call c next ih =>
    simp only [bind, run, ih]
    rfl

end Program

namespace Operation

variable {σ α β : Type} {rule : Rule σ} {world : World} {state : σ} {x : Operation α} {f : α → Operation β}

section

variable {allowed : Call → Assertion} {ends : α → Assertion} {fails : EngineError → Assertion}
  {past : List Exchange}

theorem Meets.ends_of_ok {a : α} (h : x.Meets allowed ends fails past world)
    (ok : (x.run.run rule world state).value = .ok a) :
    ends a (past ++ (x.run.run rule world state).exchanges) (x.run.run rule world state).world := by
  have hEnds := Program.Meets.ends_run h rule state
  rwa [ok] at hEnds

theorem Meets.fails_of_error {e : EngineError} (h : x.Meets allowed ends fails past world)
    (error : (x.run.run rule world state).value = .error e) :
    fails e (past ++ (x.run.run rule world state).exchanges) (x.run.run rule world state).world := by
  have hEnds := Program.Meets.ends_run h rule state
  rwa [error] at hEnds

end

theorem run_bind_of_ok {a : α} (h : (x.run.run rule world state).value = .ok a) :
    let first := x.run.run rule world state
    let rest := (f a).run.run rule first.world first.state
    (x >>= f).run.run rule world state = { rest with exchanges := first.exchanges ++ rest.exchanges } := by
  intro first rest
  have hRun := Program.run_bind rule (fun result => (ExceptT.bindCont f result : Program _)) x.run world state
  dsimp only at hRun
  rw [h] at hRun
  exact hRun

theorem run_bind_of_error {e : EngineError} (h : (x.run.run rule world state).value = .error e) :
    let first := x.run.run rule world state
    (x >>= f).run.run rule world state = ⟨.error e, first.world, first.state, first.exchanges⟩ := by
  intro first
  have hRun := Program.run_bind rule (fun result => (ExceptT.bindCont f result : Program _)) x.run world state
  dsimp only at hRun
  rw [h] at hRun
  exact hRun.trans (congrArg (Run.mk _ _ _) (List.append_nil _))

theorem run_lookup {l : Lookup} {answer : l.Answer}
    (told : (world.reply (rule state (.lookup l)).1 (.lookup l)).1 = .ok answer) :
    (lookup l).run.run rule world state =
      ⟨.ok answer, world, (rule state (.lookup l)).2, [⟨.lookup l, .ok answer⟩]⟩ := by
  have hReply : world.reply (rule state (.lookup l)).1 (.lookup l) = (.ok answer, world) :=
    Prod.ext told (world.reply_lookup _ l)
  refine (Program.run_call rule (.lookup l) _ world state).trans ?_
  rw [hReply]
  rfl

end Operation

end DeliveryPipeline

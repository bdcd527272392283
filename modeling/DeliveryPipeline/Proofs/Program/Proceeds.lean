import DeliveryPipeline.Proofs.Program.Prepares
import DeliveryPipeline.Proofs.Program.Yields

/-! # How far two rules agree

An operation proceeds by calls of one kind until it ends or goes on as another. Under two rules that treat
the calls of this kind alike, it ends alike, or it comes to the same point in the same world, and only from
there on may the runs differ.
-/

namespace DeliveryPipeline

set_option autoImplicit false

variable {σ τ α β : Type}

/-- The other rule does with calls of a kind what this one does, where the states go together. -/
def Rule.Follows (other : Rule τ) (rule : Rule σ) (kind : Call → Bool) (embed : σ → τ) : Prop :=
  ∀ state c, kind c = true → other (embed state) c = ((rule state c).1, embed (rule state c).2)

namespace Operation

/-- The operation makes calls of a kind, whatever they change, until it ends as it should or goes on as one
that is reached. -/
inductive Proceeds (kind : Call → Bool) (ends : Except EngineError α → World → Prop)
    (reached : Operation α → World → Prop) : Operation α → World → Prop
  | ends {result : Except EngineError α} {world : World} (h : ends result world) :
    Proceeds kind ends reached (ExceptT.mk (.done result)) world
  | calls {c : Call} {next : c.Reply → Operation α} {world : World} (made : kind c = true)
    (rest : ∀ disturbance, Proceeds kind ends reached (next (world.reply disturbance c).1)
      (world.reply disturbance c).2) :
    Proceeds kind ends reached (ExceptT.mk (.call c next)) world
  | reaches {x : Operation α} {world : World} (h : reached x world) : Proceeds kind ends reached x world

variable {kind : Call → Bool} {ends : Except EngineError β → World → Prop}
  {reached : Operation β → World → Prop} {world : World}

theorem proceeds_pure {b : β} (h : ends (.ok b) world) :
    Proceeds kind ends reached (pure b : Operation β) world := .ends h

theorem proceeds_of_meets {found : Except EngineError α → World → Prop}
    {f : Except EngineError α → Operation β} {p : Program (Except EngineError α)} {past : List Exchange}
    (h : p.Meets (fun c _ _ => kind c = true) (fun result _ here => found result here) past world)
    (rest : ∀ result here, found result here → Proceeds kind ends reached (f result) here) :
    Proceeds kind ends reached (ExceptT.mk (Program.bind (fun result => (f result).run) p)) world := by
  induction p generalizing past world with
  | done result => exact rest result world h
  | call c next ih => exact .calls h.1 fun disturbance => ih _ (h.2 disturbance)

theorem Meets.proceeds_bind {found : α → World → Prop} {x : Operation α} {f : α → Operation β}
    {past : List Exchange}
    (h : x.Meets (fun c _ _ => kind c = true) (fun a _ here => found a here)
      (fun e _ here => ends (.error e) here) past world)
    (rest : ∀ a here, found a here → Proceeds kind ends reached (f a) here) :
    Proceeds kind ends reached (x >>= f) world := by
  have hMeets : x.run.Meets (fun c _ _ => kind c = true) (fun result _ here =>
      (∀ a, result = .ok a → found a here) ∧ ∀ e, result = .error e → ends (.error e) here) past world := by
    apply Program.Meets.mono h
    rintro (e | a) _ here hEnds
    · constructor
      · rintro _ ⟨⟩
      · rintro _ ⟨⟩
        exact hEnds
    · constructor
      · rintro _ ⟨⟩
        exact hEnds
      · rintro _ ⟨⟩
  have hRest : ∀ result here, (∀ a, result = .ok a → found a here) ∧
      (∀ e, result = .error e → ends (.error e) here) →
      Proceeds kind ends reached (ExceptT.bindCont f result : Operation β) here := by
    rintro (e | a) here ⟨hFound, hEnds⟩
    · exact .ends (hEnds e rfl)
    · exact rest a here (hFound a rfl)
  exact proceeds_of_meets hMeets hRest

theorem Reads.proceeds_bind {found : α → Prop} {x : Operation α} {f : α → Operation β}
    (h : x.Reads world found) (makes : x.OnlyMakes kind) (errors : ∀ e, ends (.error e) world)
    (rest : ∀ a, found a → Proceeds kind ends reached (f a) world) :
    Proceeds kind ends reached (x >>= f) world := by
  have hReads : x.Meets (fun _ _ _ => True) (fun a _ here => here = world ∧ found a)
      (fun e _ here => ends (.error e) here) [] world := by
    apply Program.Reads.meets h fun _ _ _ => trivial
    rintro (e | a) _ hFound -
    · exact errors e
    · exact ⟨rfl, hFound a rfl⟩
  have hBoth : x.Meets (fun c _ _ => kind c = true) (fun a _ here => here = world ∧ found a)
      (fun e _ here => ends (.error e) here) [] world := by
    apply Program.Meets.mono
      (Program.Meets.relax (hReads.and (Program.Obeys.meets (makes []) world)) fun _ _ _ hCall => hCall.2)
    rintro (e | a) _ _ ⟨hEnds, -⟩
    · exact hEnds
    · exact hEnds
  apply hBoth.proceeds_bind
  rintro a _ ⟨rfl, hFound⟩
  exact rest a hFound

theorem proceeds_update_bind {u : Update} {f : u.Answer → Operation β} {answer : u.Answer} {store : Store}
    (applied : world.store.update u = (.ok answer, store)) (plain : ∀ draft, u ≠ .insertJob draft)
    (made : kind (.update u) = true) (errors : ∀ e, ends (.error e) world)
    (rest : Proceeds kind ends reached (f answer) { world with store := store }) :
    Proceeds kind ends reached (update u >>= f) world := by
  have hUpdate : (update u).Meets (fun c _ _ => kind c = true)
      (fun told _ here => told = answer ∧ here = { world with store := store })
      (fun e _ here => ends (.error e) here) [] world :=
    meets_update applied plain made ⟨rfl, rfl⟩ fun _ => errors _
  apply hUpdate.proceeds_bind
  rintro _ _ ⟨rfl, rfl⟩
  exact rest

theorem Proceeds.exists_of_run {x : Operation β} (h : Proceeds kind ends reached x world) {rule : Rule σ}
    {other : Rule τ} {embed : σ → τ} (follows : other.Follows rule kind embed) (state : σ) :
    let run := x.run.run rule world state
    let again := x.run.run other world (embed state)
    (ends run.value run.world ∧ again.value = run.value ∧ again.world = run.world) ∨
      ∃ (y : Operation β) (here : World) (between : σ) (own : List Exchange), reached y here ∧
        (let rest := y.run.run rule here between
         run = { rest with exchanges := own ++ rest.exchanges }) ∧
        let rest := y.run.run other here (embed between)
        again = { rest with exchanges := own ++ rest.exchanges } := by
  intro run again
  -- The states go together all along, so the other rule treats each call as this one does.
  induction h generalizing state with
  | ends h => exact .inl ⟨h, rfl, rfl⟩
  | reaches h => exact .inr ⟨_, _, state, [], h, rfl, rfl⟩
  | @calls c next world made rest ih =>
    have hFollows := follows state c made
    have hRun := Program.run_call rule c (fun reply => (next reply).run) world state
    have hAgain := Program.run_call other c (fun reply => (next reply).run) world (embed state)
    dsimp only at hRun hAgain
    rw [hFollows] at hAgain
    rw [show run = _ from hRun, show again = _ from hAgain]
    rcases ih (rule state c).1 (rule state c).2 with hEnds | ⟨y, here, between, own, hReached, hRun', hAgain'⟩
    · exact .inl hEnds
    · refine .inr ⟨y, here, between, ⟨c, (world.reply (rule state c).1 c).1⟩ :: own, hReached, ?_, ?_⟩
      · rw [hRun']
        rfl
      · rw [hAgain']
        rfl

end Operation

end DeliveryPipeline

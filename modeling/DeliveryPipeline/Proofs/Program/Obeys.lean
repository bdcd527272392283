import DeliveryPipeline.Proofs.Program.Meets

/-! # What holds of a program whatever it is told

While others change the world between two calls of a program, the world of one call says nothing about
that of the next. What remains is what the program has been told so far. A program obeys its rules if
each call is allowed after its own exchanges, and it ends as it should, whatever the replies are.
-/

namespace DeliveryPipeline

set_option autoImplicit false

/-- What may hold of a program's own exchanges so far. -/
abbrev Knowledge := List Exchange → Prop

variable {α β : Type}

namespace Program

def Obeys (allowed : Call → Knowledge) (ends : α → Knowledge) : Program α → Knowledge
  | done a, past => ends a past
  | call c next, past =>
    allowed c past ∧ ∀ reply, Obeys allowed ends (next reply) (past ++ [⟨c, reply⟩])

variable {allowed allowed' : Call → Knowledge} {ends ends' : α → Knowledge} {past : List Exchange}

theorem obeys_bind {f : α → Program β} {p : Program α} {ends : β → Knowledge} :
    Obeys allowed ends (bind f p) past ↔
      Obeys allowed (fun a => Obeys allowed ends (f a)) p past := by
  induction p generalizing past with
  | done a => exact Iff.rfl
  | call c next ih => simp only [bind, Obeys, ih]

theorem Obeys.relax {p : Program α} (h : p.Obeys allowed ends past)
    (calls : ∀ c later, allowed c (past ++ later) → allowed' c (past ++ later))
    (values : ∀ a later, ends a (past ++ later) → ends' a (past ++ later)) :
    p.Obeys allowed' ends' past := by
  induction p generalizing past with
  | done a =>
    have hEnds := values a []
    rw [List.append_nil] at hEnds
    exact hEnds h
  | call c next ih =>
    have hCall := calls c []
    rw [List.append_nil] at hCall
    refine ⟨hCall h.1, fun reply => ih reply (h.2 reply) ?_ ?_⟩
    · intro c' later hAllowed
      rw [List.append_assoc] at hAllowed ⊢
      exact calls c' _ hAllowed
    · intro a later hEnds
      rw [List.append_assoc] at hEnds ⊢
      exact values a _ hEnds

theorem obeys_trivial (p : Program α) (past : List Exchange) :
    p.Obeys (fun _ _ => True) (fun _ _ => True) past := by
  induction p generalizing past with
  | done a => trivial
  | call c next ih => exact ⟨trivial, fun reply => ih reply _⟩

theorem obeys_of_forall (p : Program α) (calls : ∀ c later, allowed c (past ++ later))
    (values : ∀ a later, ends a (past ++ later)) : p.Obeys allowed ends past :=
  (obeys_trivial p past).relax (fun c later _ => calls c later) fun a later _ => values a later

theorem obeys_congr {p : Program α} (same : ∀ a past, ends a past ↔ ends' a past) :
    p.Obeys allowed ends past ↔ p.Obeys allowed ends' past :=
  ⟨fun h => h.relax (fun _ _ => id) fun a _ => (same a _).mp,
    fun h => h.relax (fun _ _ => id) fun a _ => (same a _).mpr⟩

theorem Obeys.meets {p : Program α} (h : p.Obeys allowed ends past) (world : World) :
    p.Meets (fun c past _ => allowed c past) (fun a past _ => ends a past) past world := by
  induction p generalizing past world with
  | done a => exact h
  | call c next ih => exact ⟨h.1, fun disturbance => ih _ (h.2 _) _⟩

end Program

namespace Operation

def known (ends : α → Knowledge) (fails : EngineError → Knowledge) : Except EngineError α → Knowledge
  | .ok a => ends a
  | .error e => fails e

def Obeys (allowed : Call → Knowledge) (ends : α → Knowledge) (fails : EngineError → Knowledge)
    (operation : Operation α) : Knowledge :=
  operation.run.Obeys allowed (known ends fails)

variable {allowed allowed' : Call → Knowledge} {ends ends' : α → Knowledge}
  {fails fails' : EngineError → Knowledge} {past : List Exchange}

theorem obeys_bind {f : α → Operation β} {x : Operation α} {ends : β → Knowledge} :
    Obeys allowed ends fails (x >>= f) past ↔
      Obeys allowed (fun a => Obeys allowed ends fails (f a)) fails x past := by
  unfold Obeys
  change Program.Obeys allowed (known ends fails) (Program.bind _ x.run) past ↔ _
  rw [Program.obeys_bind]
  refine Program.obeys_congr fun result past => ?_
  cases result <;> exact Iff.rfl

theorem obeys_attempt {x : Operation α} {ends : Except EngineError α → Knowledge} :
    Obeys allowed ends fails (attempt x) past ↔
      Obeys allowed (fun a => ends (.ok a)) (fun e => ends (.error e)) x past := by
  unfold Obeys
  change Program.Obeys allowed (known ends fails) (Program.bind _ x.run) past ↔ _
  rw [Program.obeys_bind]
  refine Program.obeys_congr fun result past => ?_
  cases result <;> exact Iff.rfl

theorem Obeys.relax {x : Operation α} (h : Obeys allowed ends fails x past)
    (calls : ∀ c later, allowed c (past ++ later) → allowed' c (past ++ later))
    (values : ∀ a later, ends a (past ++ later) → ends' a (past ++ later))
    (errors : ∀ e later, fails e (past ++ later) → fails' e (past ++ later)) :
    Obeys allowed' ends' fails' x past := by
  refine Program.Obeys.relax h calls fun result later => ?_
  cases result with
  | ok a => exact values a later
  | error e => exact errors e later

theorem Obeys.meets {x : Operation α} (h : Obeys allowed ends fails x past) (world : World) :
    Meets (fun c past _ => allowed c past) (fun a past _ => ends a past) (fun e past _ => fails e past)
      x past world := by
  apply Program.Meets.mono (Program.Obeys.meets h world)
  intro result past world hEnds
  cases result with
  | ok a => exact hEnds
  | error e => exact hEnds

theorem obeys_lookup {l : Lookup} {ends : l.Answer → Knowledge} (calls : allowed (.lookup l) past)
    (values : ∀ answer, ends answer (past ++ [⟨.lookup l, .ok answer⟩]))
    (errors : ∀ e, fails (.storage e) (past ++ [⟨.lookup l, .error e⟩])) :
    Obeys allowed ends fails (lookup l) past := by
  refine ⟨calls, fun reply => ?_⟩
  cases reply with
  | ok answer => exact values answer
  | error e => exact errors e

theorem obeys_update {u : Update} {ends : u.Answer → Knowledge} (calls : allowed (.update u) past)
    (values : ∀ answer, ends answer (past ++ [⟨.update u, .ok answer⟩]))
    (errors : ∀ e, fails (.storage e) (past ++ [⟨.update u, .error e⟩])) :
    Obeys allowed ends fails (update u) past := by
  refine ⟨calls, fun reply => ?_⟩
  cases reply with
  | ok answer => exact values answer
  | error e => exact errors e

theorem obeys_errand {purpose : Purpose} {e : Errand} {ends : e.Answer → Knowledge}
    (calls : allowed (.errand e) past)
    (values : ∀ answer, ends answer (past ++ [⟨.errand e, .ok answer⟩]))
    (errors : ∀ failure, fails (.outside purpose failure) (past ++ [⟨.errand e, .error failure⟩])) :
    Obeys allowed ends fails (errand purpose e) past := by
  refine ⟨calls, fun reply => ?_⟩
  cases reply with
  | ok answer => exact values answer
  | error failure => exact errors failure

theorem obeys_lookup_bind {l : Lookup} {f : l.Answer → Operation β} {ends : β → Knowledge}
    (calls : allowed (.lookup l) past)
    (rest : ∀ answer, (f answer).Obeys allowed ends fails (past ++ [⟨.lookup l, .ok answer⟩]))
    (errors : ∀ e, fails (.storage e) (past ++ [⟨.lookup l, .error e⟩])) :
    (lookup l >>= f).Obeys allowed ends fails past :=
  obeys_bind.mpr (obeys_lookup calls rest errors)

theorem obeys_update_bind {u : Update} {f : u.Answer → Operation β} {ends : β → Knowledge}
    (calls : allowed (.update u) past)
    (rest : ∀ answer, (f answer).Obeys allowed ends fails (past ++ [⟨.update u, .ok answer⟩]))
    (errors : ∀ e, fails (.storage e) (past ++ [⟨.update u, .error e⟩])) :
    (update u >>= f).Obeys allowed ends fails past :=
  obeys_bind.mpr (obeys_update calls rest errors)

theorem obeys_errand_bind {purpose : Purpose} {e : Errand} {f : e.Answer → Operation β}
    {ends : β → Knowledge} (calls : allowed (.errand e) past)
    (rest : ∀ answer, (f answer).Obeys allowed ends fails (past ++ [⟨.errand e, .ok answer⟩]))
    (errors : ∀ failure, fails (.outside purpose failure) (past ++ [⟨.errand e, .error failure⟩])) :
    (errand purpose e >>= f).Obeys allowed ends fails past :=
  obeys_bind.mpr (obeys_errand calls rest errors)

theorem obeys_require {error : EngineError} {value : Option α}
    (values : ∀ a, value = some a → ends a past) (errors : value = none → fails error past) :
    Obeys allowed ends fails (require error value) past := by
  cases value with
  | none => exact errors rfl
  | some a => exact values a rfl

theorem obeys_ensure {condition : Bool} {error : EngineError} {ends : Unit → Knowledge}
    (values : condition = true → ends () past) (errors : condition = false → fails error past) :
    Obeys allowed ends fails (ensure condition error) past := by
  cases condition with
  | false => exact errors rfl
  | true => exact values rfl

end Operation

end DeliveryPipeline

import DeliveryPipeline.Proofs.Program.Meets

/-! # Runs that leave the store alone

While the store is not disturbed, it answers every call as it is, and only errands may fail. What a
program yields holds at the end of every such run; so it says what the program does if the store works,
and not only what it may do.
-/

namespace DeliveryPipeline

set_option autoImplicit false

/-- The disturbance does not touch the store. -/
def Disturbance.Spares (disturbance : Disturbance) : Call → Prop
  | .lookup _ | .update _ => disturbance = .none
  | .errand _ => True

def Rule.SparesStore {σ : Type} (rule : Rule σ) : Prop := ∀ state c, (rule state c).1.Spares c

def Rule.undisturbed : Rule Unit := fun _ _ => (.none, ())

theorem Rule.sparesStore_undisturbed : Rule.undisturbed.SparesStore := by
  intro _ c
  cases c <;> trivial

variable {α β : Type}

namespace Program

def Yields (ends : α → World → Prop) : Program α → World → Prop
  | done a, world => ends a world
  | call c next, world => ∀ disturbance : Disturbance, disturbance.Spares c →
    Yields ends (next (world.reply disturbance c).1) (world.reply disturbance c).2

variable {world : World}

theorem yields_bind {f : α → Program β} {p : Program α} {ends : β → World → Prop} :
    Yields ends (bind f p) world ↔ Yields (fun a => Yields ends (f a)) p world := by
  induction p generalizing world with
  | done a => exact Iff.rfl
  | call c next ih => simp only [bind, Yields, ih]

theorem Yields.mono {p : Program α} {ends ends' : α → World → Prop} (h : Yields ends p world)
    (weaken : ∀ a world, ends a world → ends' a world) : Yields ends' p world := by
  induction p generalizing world with
  | done a => exact weaken a world h
  | call c next ih => exact fun disturbance spares => ih _ (h disturbance spares)

theorem yields_of_forall (p : Program α) {ends : α → World → Prop} (h : ∀ a world, ends a world) :
    Yields ends p world := by
  induction p generalizing world with
  | done a => exact h a world
  | call c next ih => exact fun disturbance _ => ih _

theorem Yields.and {p : Program α} {ends ends' : α → World → Prop} (h : Yields ends p world)
    (h' : Yields ends' p world) : Yields (fun a world => ends a world ∧ ends' a world) p world := by
  induction p generalizing world with
  | done a => exact ⟨h, h'⟩
  | call c next ih => exact fun disturbance spares => ih _ (h disturbance spares) (h' disturbance spares)

theorem Yields.ends_run {σ : Type} {rule : Rule σ} {p : Program α} {ends : α → World → Prop}
    (h : Yields ends p world) (spares : rule.SparesStore) (state : σ) :
    ends (p.run rule world state).value (p.run rule world state).world := by
  induction p generalizing world state with
  | done a => exact h
  | call c next ih => exact ih _ (h _ (spares state c)) _

theorem Meets.yields {allowed : Call → Assertion} {ends : α → Assertion} {past : List Exchange}
    {p : Program α} (h : Meets allowed ends p past world) :
    Yields (fun a world => ∃ past, ends a past world) p world := by
  induction p generalizing past world with
  | done a => exact ⟨past, h⟩
  | call c next ih => exact fun disturbance _ => ih _ (h.2 disturbance)

end Program

namespace Operation

def Yields (ends : Except EngineError α → World → Prop) (x : Operation α) (world : World) : Prop :=
  x.run.Yields ends world

variable {ends : Except EngineError β → World → Prop} {world : World}

theorem Yields.bind {found : Except EngineError α → World → Prop} {x : Operation α}
    {f : α → Operation β} (h : x.Yields found world)
    (values : ∀ a world, found (.ok a) world → (f a).Yields ends world)
    (errors : ∀ e world, found (.error e) world → ends (.error e) world) :
    (x >>= f).Yields ends world := by
  change Program.Yields ends (Program.bind _ x.run) world
  refine Program.yields_bind.mpr (Program.Yields.mono h fun result world hFound => ?_)
  cases result with
  | ok a => exact values a world hFound
  | error e => exact errors e world hFound

theorem yields_attempt_bind {x : Operation α}
    {f : Except EngineError α → Operation β}
    (h : x.Yields (fun result after => (f result).Yields ends after) world) :
    (attempt x >>= f).Yields ends world := by
  have hTried : (attempt x).Yields (fun tried after => ∃ result, tried = .ok result ∧
      (f result).Yields ends after) world :=
    Program.yields_bind.mpr (Program.Yields.mono h fun result after hRest => ⟨result, rfl, hRest⟩)
  refine hTried.bind ?_ ?_
  · rintro _ after ⟨result, hResult, hRest⟩
    rwa [Except.ok.inj hResult]
  · rintro e after ⟨_, hResult, -⟩
    cases hResult

theorem yields_pure {b : β} (h : ends (.ok b) world) : (pure b : Operation β).Yields ends world := h

theorem yields_lookup_bind {l : Lookup} {f : l.Answer → Operation β}
    (rest : (f (world.store.answer l)).Yields ends world) : (lookup l >>= f).Yields ends world := by
  rintro _ rfl
  exact rest

theorem yields_update_bind {u : Update} {f : u.Answer → Operation β} {answer : u.Answer} {store : Store}
    (applied : world.store.update u = (.ok answer, store))
    (rest : (f answer).Yields ends { world with store := store }) :
    (update u >>= f).Yields ends world := by
  rintro _ rfl
  have hReply : world.reply .none (.update u) = (.ok answer, { world with store := store }) := by
    cases u <;> simp_all [World.reply, World.answerUpdate]
  rw [hReply]
  exact rest

theorem yields_require_bind {error : EngineError} {value : Option α} {f : α → Operation β}
    (values : ∀ a, value = some a → (f a).Yields ends world)
    (errors : value = none → ends (.error error) world) :
    (require error value >>= f).Yields ends world := by
  cases value with
  | none => exact errors rfl
  | some a => exact values a rfl

theorem yields_require_some {error : EngineError} {value : Option α} {a : α} {f : α → Operation β}
    (there : value = some a) (rest : (f a).Yields ends world) :
    (require error value >>= f).Yields ends world := by
  rw [there]
  exact rest

theorem yields_ensure_bind {condition : Bool} {error : EngineError} {f : Unit → Operation β}
    (holds : condition = true) (rest : (f ()).Yields ends world) :
    (ensure condition error >>= f).Yields ends world := by
  rw [holds]
  exact rest

theorem yields_find_bind {l : Lookup} {error : EngineError} {read : l.Answer → Option α}
    {f : α → Operation β} (values : ∀ a, read (world.store.answer l) = some a → (f a).Yields ends world)
    (errors : read (world.store.answer l) = none → ends (.error error) world) :
    ((lookup l >>= fun answer => require error (read answer)) >>= f).Yields ends world := by
  rw [bind_assoc]
  exact yields_lookup_bind (yields_require_bind values errors)

theorem yields_find_some {l : Lookup} {error : EngineError} {read : l.Answer → Option α} {a : α}
    {f : α → Operation β} (there : read (world.store.answer l) = some a) (rest : (f a).Yields ends world) :
    ((lookup l >>= fun answer => require error (read answer)) >>= f).Yields ends world := by
  rw [bind_assoc]
  exact yields_lookup_bind (yields_require_some there rest)

end Operation

end DeliveryPipeline

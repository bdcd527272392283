import DeliveryPipeline.Proofs.Program.Deeds
import DeliveryPipeline.Proofs.Program.Reads

/-! # Looking twice

Two runs that only look at the same world may be told different things. What the first has found the second
finds again, if the store answers it as it is and no errand fails that has been answered before. So an
operation is described by what it hears in the first run, and by what it finds in the second.
-/

namespace DeliveryPipeline

set_option autoImplicit false

variable {α β γ : Type}

/-- In the given world the program makes quiet calls only, and what holds of its value as long as it hears
exchanges of a kind. -/
def Program.Hears (heard : Exchange → Prop) (world : World) (found : α → Prop) : Program α → Prop
  | done a => found a
  | call c next => c.isQuiet = true ∧ ∀ disturbance, heard ⟨c, (world.reply disturbance c).1⟩ →
    (next (world.reply disturbance c).1).Hears heard world found

namespace Program

variable {heard : Exchange → Prop} {world : World}

theorem hears_bind {found : β → Prop} {f : α → Program β} {p : Program α} :
    (bind f p).Hears heard world found ↔ p.Hears heard world fun a => (f a).Hears heard world found := by
  induction p with
  | done a => exact Iff.rfl
  | call c next ih => simp only [bind, Hears, ih]

theorem Hears.mono {found found' : α → Prop} {p : Program α} (h : p.Hears heard world found)
    (weaken : ∀ a, found a → found' a) : p.Hears heard world found' := by
  induction p with
  | done a => exact weaken a h
  | call c next ih => exact ⟨h.1, fun disturbance told => ih _ (h.2 disturbance told)⟩

theorem Hears.and {found found' : α → Prop} {p : Program α} (h : p.Hears heard world found)
    (h' : p.Hears heard world found') : p.Hears heard world fun a => found a ∧ found' a := by
  induction p with
  | done a => exact ⟨h, h'⟩
  | call c next ih =>
    exact ⟨h.1, fun disturbance told => ih _ (h.2 disturbance told) (h'.2 disturbance told)⟩

theorem Hears.forall {ι : Type} [Nonempty ι] {found : ι → α → Prop} {p : Program α}
    (h : ∀ i, p.Hears heard world (found i)) : p.Hears heard world fun a => ∀ i, found i a := by
  induction p with
  | done a => exact h
  | call c next ih =>
    exact ⟨(h (Classical.arbitrary ι)).1, fun disturbance told => ih _ fun i => (h i).2 disturbance told⟩

theorem Reads.hears {found : α → Prop} {p : Program α} (h : p.Reads world found) :
    p.Hears heard world found := by
  induction p with
  | done a => exact h
  | call c next ih => exact ⟨h.1, fun disturbance _ => ih _ (h.2 disturbance)⟩

theorem Hears.of_run {σ : Type} {found : α → Prop} {p : Program α} (h : p.Hears heard world found)
    (rule : Rule σ) (state : σ)
    (told : ∀ e ∈ (p.run rule world state).exchanges, e.call.isQuiet = true →
      (∃ told, (world.reply (rule told e.call).1 e.call).1 = e.reply) → heard e) :
    let run := p.run rule world state
    found run.value ∧ run.world = world ∧ Quiet run.exchanges := by
  induction p generalizing state with
  | done a => exact ⟨h, rfl, quiet_nil⟩
  | call c next ih =>
    obtain ⟨hQuiet, hNext⟩ := h
    have hSame := World.reply_of_isQuiet hQuiet world (rule state c).1
    rw [run_call] at told ⊢
    dsimp only at told ⊢
    rw [hSame] at told ⊢
    obtain ⟨hHere, hLater⟩ := List.forall_mem_cons.mp told
    obtain ⟨hFound, hWorld, hSeen⟩ := ih _ (hNext (rule state c).1 (hHere hQuiet ⟨state, rfl⟩)) _ hLater
    exact ⟨hFound, hWorld, List.forall_mem_cons.mpr ⟨hQuiet, hSeen⟩⟩

end Program

namespace Operation

/-- What holds of the operation's value, if it does not end with an error. -/
def Hears (heard : Exchange → Prop) (world : World) (found : α → Prop) (x : Operation α) : Prop :=
  x.run.Hears heard world fun result => ∀ a, result = .ok a → found a

/-- The operation does not end with an error, and what holds of its value. -/
def Finds (heard : Exchange → Prop) (world : World) (found : α → Prop) (x : Operation α) : Prop :=
  x.run.Hears heard world fun result => ∃ a, result = .ok a ∧ found a

variable {heard : Exchange → Prop} {world : World} {found : α → Prop}

theorem Reads.hears {x : Operation α} (h : x.Reads world found) : x.Hears heard world found :=
  Program.Reads.hears h

theorem Reads.of_run {σ : Type} {x : Operation α} {rule : Rule σ} {state : σ} {a : α}
    (h : x.Reads world found) (ok : (x.run.run rule world state).value = .ok a) : found a := by
  have hHears : x.run.Hears (fun _ => True) world _ := Reads.hears h
  exact (hHears.of_run rule state fun _ _ _ _ => trivial).1 a ok

theorem Hears.weaken {found' : α → Prop} {x : Operation α} (h : x.Hears heard world found)
    (weaken : ∀ a, found a → found' a) : x.Hears heard world found' :=
  Program.Hears.mono h fun _ hResult a ha => weaken a (hResult a ha)

theorem Hears.and {found' : α → Prop} {x : Operation α} (h : x.Hears heard world found)
    (h' : x.Hears heard world found') : x.Hears heard world fun a => found a ∧ found' a :=
  Program.Hears.mono (Program.Hears.and h h') fun _ hBoth a ha => ⟨hBoth.1 a ha, hBoth.2 a ha⟩

theorem Hears.bind {found' : β → Prop} {x : Operation α} {f : α → Operation β}
    (h : x.Hears heard world found) (rest : ∀ a, found a → (f a).Hears heard world found') :
    (x >>= f).Hears heard world found' := by
  change Program.Hears heard world _ (Program.bind _ x.run)
  refine Program.hears_bind.mpr (Program.Hears.mono h ?_)
  rintro (e | a) hResult
  · rintro b ⟨⟩
  · exact rest a (hResult a rfl)

theorem hears_pure {a : α} (h : found a) : (pure a : Operation α).Hears heard world found := by
  rintro b ⟨⟩
  exact h

theorem hears_mapM {f : α → Operation β} {found : α → β → Prop}
    (h : ∀ a, (f a).Hears heard world (found a)) (l : List α) :
    (l.mapM f).Hears heard world (List.Forall₂ found l) := by
  induction l with
  | nil => exact hears_pure .nil
  | cons a rest ih =>
    rw [List.mapM_cons]
    apply (h a).bind
    intro b hb
    apply ih.bind
    intro values hValues
    exact hears_pure (.cons hb hValues)

theorem Finds.weaken {found' : α → Prop} {x : Operation α} (h : x.Finds heard world found)
    (weaken : ∀ a, found a → found' a) : x.Finds heard world found' := by
  apply Program.Hears.mono h
  rintro _ ⟨a, rfl, hFound⟩
  exact ⟨a, rfl, weaken a hFound⟩

theorem Finds.bind {found' : β → Prop} {x : Operation α} {f : α → Operation β}
    (h : x.Finds heard world found) (rest : ∀ a, found a → (f a).Finds heard world found') :
    (x >>= f).Finds heard world found' := by
  change Program.Hears heard world _ (Program.bind _ x.run)
  refine Program.hears_bind.mpr (Program.Hears.mono h ?_)
  rintro _ ⟨a, rfl, hFound⟩
  exact rest a hFound

theorem Finds.hears {x : Operation α} (h : x.Finds heard world found) : x.Hears heard world found := by
  apply Program.Hears.mono h
  rintro _ ⟨a, rfl, hFound⟩ _ ⟨⟩
  exact hFound

theorem finds_pure {a : α} (h : found a) : (pure a : Operation α).Finds heard world found :=
  ⟨a, rfl, h⟩

theorem finds_attempt {found : Except EngineError α → Prop} {x : Operation α}
    (h : x.run.Hears heard world found) : (attempt x).Finds heard world found := by
  refine Program.hears_bind.mpr (Program.Hears.mono h ?_)
  intro result hResult
  exact ⟨result, rfl, hResult⟩

theorem finds_ensure {condition : Bool} {error : EngineError} (h : condition = true) :
    (ensure condition error).Finds heard world fun _ => True := by
  rw [h]
  exact finds_pure trivial

theorem finds_mapM {f : α → Operation β} {found : γ → β → Prop} {l : List α} {values : List γ}
    (h : List.Forall₂ (fun a c => (f a).Finds heard world (found c)) l values) :
    (l.mapM f).Finds heard world (List.Forall₂ found values) := by
  induction h with
  | nil => exact finds_pure .nil
  | cons hFirst _ ih =>
    rw [List.mapM_cons]
    apply hFirst.bind
    intro b hb
    apply ih.bind
    intro rest hRest
    exact finds_pure (.cons hb hRest)

end Operation

def IsFaithful (heard : Exchange → Prop) (world : World) : Prop :=
  ∀ l reply, heard ⟨.lookup l, reply⟩ → reply = .ok (world.store.answer l)

theorem IsFaithful.finds_lookup {heard : Exchange → Prop} {world : World} (h : IsFaithful heard world)
    (l : Lookup) :
    (Operation.lookup l).Finds heard world fun answer => answer = world.store.answer l := by
  constructor
  · rfl
  intro disturbance told
  rw [h l _ told]
  exact Operation.finds_pure rfl

/-- What two runs are told that look at the same world, one after the other. The second may be told what
there is; it is told what the store holds, and if the first was answered by an outside system, it is, too. -/
structure Hearing (world : World) where
  first : Exchange → Prop
  again : Exchange → Prop
  calm : ∀ c, again ⟨c, (world.reply .none c).1⟩
  faithful : IsFaithful again world
  errands : ∀ e answer reply, first ⟨.errand e, .ok answer⟩ → again ⟨.errand e, reply⟩ →
    ∃ answer', reply = .ok answer'

namespace Hearing

open Operation

variable {world : World} {hearing : Hearing world}

/-- If the one operation ends with a value in the first run, the other does so in the second, and the two
values go together. -/
def Repeats (hearing : Hearing world) (same : α → β → Prop) (x : Operation α) (y : Operation β) : Prop :=
  x.Hears hearing.first world fun a => y.Finds hearing.again world (same a)

/-- The operation finds in the second run what it has found in the first. -/
abbrev Recalls (hearing : Hearing world) (x : Operation α) : Prop := hearing.Repeats Eq x x

theorem exists_of_hears {found : α → Prop} {p : Program α} (h : p.Hears hearing.again world found) :
    ∃ a, found a := by
  induction p with
  | done a => exact ⟨a, h⟩
  | call c next ih => exact ih _ (h.2 .none (hearing.calm c))

section

variable {α' β' : Type} {same : α → α' → Prop} {same' : β → β' → Prop} {x : Operation α} {y : Operation α'}

theorem Repeats.bind {f : α → Operation β} {g : α' → Operation β'} (h : hearing.Repeats same x y)
    (rest : ∀ a a', same a a' → hearing.Repeats same' (f a) (g a')) :
    hearing.Repeats same' (x >>= f) (y >>= g) := by
  apply Hears.bind h
  intro a hAgain
  -- the first run goes on without knowing what the second has found, so it has to fit all of that
  obtain ⟨_, known, -, hKnown⟩ := hearing.exists_of_hears hAgain
  have : Nonempty { a' // same a a' } := ⟨known, hKnown⟩
  have hAll := Program.Hears.forall fun a' : { a' // same a a' } => rest a a'.1 a'.2
  apply Program.Hears.mono hAll
  rintro result hResult b rfl
  apply hAgain.bind
  intro a' hSame
  exact hResult ⟨a', hSame⟩ b rfl

theorem Recalls.bind {x : Operation α} {f : α → Operation β} {g : α → Operation β'}
    (h : hearing.Recalls x) (rest : ∀ a, hearing.Repeats same' (f a) (g a)) :
    hearing.Repeats same' (x >>= f) (x >>= g) := by
  apply Repeats.bind h
  rintro a _ rfl
  exact rest a

theorem repeats_pure {a : α} {a' : α'} (h : same a a') : hearing.Repeats same (pure a) (pure a') :=
  hears_pure (finds_pure h)

theorem repeats_throw {e : EngineError} : hearing.Repeats same (throw e) y := by
  rintro a ⟨⟩

theorem repeats_of_finds {found : α → Prop} (h : x.Reads world found)
    (again : ∀ a, found a → y.Finds hearing.again world (same a)) : hearing.Repeats same x y :=
  Hears.weaken h.hears again

end

theorem recalls_require (error : EngineError) (value : Option α) :
    hearing.Recalls (require error value) := by
  cases value with
  | none => exact repeats_throw
  | some a => exact repeats_pure rfl

theorem repeats_ensure {condition condition' : Bool} {error error' : EngineError}
    (implies : condition = true → condition' = true) :
    hearing.Repeats Eq (ensure condition error) (ensure condition' error') := by
  cases condition with
  | false => exact repeats_throw
  | true =>
    rw [implies rfl]
    exact repeats_pure rfl

theorem recalls_ensure (condition : Bool) (error : EngineError) :
    hearing.Recalls (ensure condition error) :=
  repeats_ensure id

theorem repeats_lookup (l : Lookup) : hearing.Repeats
    (fun answer answer' => answer' = world.store.answer l ∧ (answer = answer' ∨ answer = l.nothing))
    (lookup l) (lookup l) := by
  apply repeats_of_finds reads_lookup
  intro answer hAnswer
  apply (hearing.faithful.finds_lookup l).weaken
  rintro _ rfl
  exact ⟨rfl, hAnswer⟩

theorem recalls_find {l : Lookup} {error : EngineError} {read : l.Answer → Option α}
    (absent : read l.nothing = none) :
    hearing.Recalls (lookup l >>= fun answer => require error (read answer)) := by
  apply (repeats_lookup l).bind
  rintro answer _ ⟨rfl, rfl | rfl⟩
  · exact recalls_require error _
  · rw [absent]
    exact repeats_throw

theorem recalls_find_bind {l : Lookup} {error : EngineError} {read : l.Answer → Option α}
    {β' : Type} {same : β → β' → Prop} {f : α → Operation β} {g : α → Operation β'}
    (absent : read l.nothing = none) (rest : ∀ a, hearing.Repeats same (f a) (g a)) :
    hearing.Repeats same (lookup l >>= fun answer => require error (read answer) >>= f)
      (lookup l >>= fun answer => require error (read answer) >>= g) := by
  rw [← bind_assoc, ← bind_assoc]
  exact (recalls_find absent).bind rest

theorem recalls_errand {purpose : Purpose} {e : Errand} (quiet : (Call.errand e).isQuiet = true) :
    hearing.Recalls (errand purpose e) := by
  have hSame : ∀ disturbance answer, (world.reply disturbance (.errand e)).1 = .ok answer →
      (world.answerErrand e).1 = .ok answer := by
    intro disturbance answer hReply
    cases disturbance <;> first | exact hReply | cases hReply
  constructor
  · exact quiet
  intro disturbance told
  cases hReply : (world.reply disturbance (.errand e)).1 with
  | error failure => rintro _ ⟨⟩
  | ok answer =>
    rintro _ ⟨⟩
    rw [hReply] at told
    constructor
    · exact quiet
    intro disturbance' told'
    obtain ⟨answer', hReply'⟩ := hearing.errands e answer _ told told'
    have hBoth := (hSame _ _ hReply).symm.trans (hSame _ _ hReply')
    rw [hReply', Except.ok.inj hBoth]
    exact finds_pure rfl

theorem repeats_mapM {f : α → Operation β} {β' : Type} {g : α → Operation β'} {same : β → β' → Prop}
    (h : ∀ a, hearing.Repeats same (f a) (g a)) (l : List α) :
    hearing.Repeats (List.Forall₂ same) (l.mapM f) (l.mapM g) :=
  (hears_mapM h l).weaken fun _ hAgain => finds_mapM hAgain

end Hearing

end DeliveryPipeline

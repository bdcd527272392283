import DeliveryPipeline.Engine.Launch
import DeliveryPipeline.Proofs.World

/-! # What holds of every run of a program

A program meets its obligations in a world if, whatever disturbs its calls, each call is allowed where
it is made, and the program ends as it should. An obligation may look at what has been exchanged so far
and at the world. For operations, the two ways to end are kept apart.
-/

namespace DeliveryPipeline

set_option autoImplicit false

/-- What may hold at a point of a run: after some exchanges, in a world. -/
abbrev Assertion := List Exchange → World → Prop

variable {α β : Type}

namespace Program

def Meets (allowed : Call → Assertion) (ends : α → Assertion) : Program α → Assertion
  | done a, past, world => ends a past world
  | call c next, past, world => allowed c past world ∧ ∀ disturbance,
    Meets allowed ends (next (world.reply disturbance c).1)
      (past ++ [⟨c, (world.reply disturbance c).1⟩]) (world.reply disturbance c).2

variable {allowed : Call → Assertion} {past : List Exchange} {world : World}

theorem meets_bind {f : α → Program β} {p : Program α} {ends : β → Assertion} :
    Meets allowed ends (bind f p) past world ↔
      Meets allowed (fun a => Meets allowed ends (f a)) p past world := by
  induction p generalizing past world with
  | done a => exact Iff.rfl
  | call c next ih => simp only [bind, Meets, ih]

theorem Meets.mono {p : Program α} {ends ends' : α → Assertion} (h : Meets allowed ends p past world)
    (weaken : ∀ a past world, ends a past world → ends' a past world) :
    Meets allowed ends' p past world := by
  induction p generalizing past world with
  | done a => exact weaken a past world h
  | call c next ih => exact ⟨h.1, fun disturbance => ih _ (h.2 disturbance)⟩

theorem Meets.relax {allowed' : Call → Assertion} {p : Program α} {ends : α → Assertion}
    (h : Meets allowed ends p past world)
    (calls : ∀ c past world, allowed c past world → allowed' c past world) :
    Meets allowed' ends p past world := by
  induction p generalizing past world with
  | done a => exact h
  | call c next ih => exact ⟨calls c past world h.1, fun disturbance => ih _ (h.2 disturbance)⟩

theorem Meets.and {allowed' : Call → Assertion} {p : Program α} {ends ends' : α → Assertion}
    (h : Meets allowed ends p past world) (h' : Meets allowed' ends' p past world) :
    Meets (fun c past world => allowed c past world ∧ allowed' c past world)
      (fun a past world => ends a past world ∧ ends' a past world) p past world := by
  induction p generalizing past world with
  | done a => exact ⟨h, h'⟩
  | call c next ih =>
    exact ⟨⟨h.1, h'.1⟩, fun disturbance => ih _ (h.2 disturbance) (h'.2 disturbance)⟩

theorem Meets.forget {p : Program α} {ends : α → Assertion} (h : Meets allowed ends p past world)
    (past' : List Exchange) :
    Meets (fun c _ world => ∃ past, allowed c past world) (fun a _ world => ∃ past, ends a past world)
      p past' world := by
  induction p generalizing past past' world with
  | done a => exact ⟨past, h⟩
  | call c next ih => exact ⟨⟨past, h.1⟩, fun disturbance => ih _ (h.2 disturbance) _⟩

theorem meets_congr {p : Program α} {ends ends' : α → Assertion}
    (same : ∀ a past world, ends a past world ↔ ends' a past world) :
    Meets allowed ends p past world ↔ Meets allowed ends' p past world :=
  ⟨fun h => h.mono fun a past world => (same a past world).mp,
    fun h => h.mono fun a past world => (same a past world).mpr⟩

end Program

namespace Operation

/-- How an operation ends, with a value or with an error. -/
def outcome (ends : α → Assertion) (fails : EngineError → Assertion) :
    Except EngineError α → Assertion
  | .ok a => ends a
  | .error e => fails e

def Meets (allowed : Call → Assertion) (ends : α → Assertion) (fails : EngineError → Assertion)
    (operation : Operation α) : Assertion :=
  Program.Meets allowed (outcome ends fails) operation.run

variable {allowed : Call → Assertion} {ends : α → Assertion} {fails : EngineError → Assertion}
  {past : List Exchange} {world : World}

theorem meets_bind {f : α → Operation β} {x : Operation α} {ends : β → Assertion} :
    Meets allowed ends fails (x >>= f) past world ↔
      Meets allowed (fun a => Meets allowed ends fails (f a)) fails x past world := by
  unfold Meets
  change Program.Meets allowed (outcome ends fails) (Program.bind _ x.run) past world ↔ _
  rw [Program.meets_bind]
  refine Program.meets_congr fun result past world => ?_
  cases result <;> exact Iff.rfl

theorem Meets.weaken {ends' : α → Assertion} {fails' : EngineError → Assertion} {x : Operation α}
    (h : Meets allowed ends fails x past world)
    (values : ∀ a past world, ends a past world → ends' a past world)
    (errors : ∀ e past world, fails e past world → fails' e past world) :
    Meets allowed ends' fails' x past world := by
  refine Program.Meets.mono h fun result past world hEnds => ?_
  cases result with
  | ok a => exact values a past world hEnds
  | error e => exact errors e past world hEnds

theorem meets_attempt {x : Operation α} {ends : Except EngineError α → Assertion} :
    Meets allowed ends fails (attempt x) past world ↔
      Meets allowed (fun a => ends (.ok a)) (fun e => ends (.error e)) x past world := by
  unfold Meets
  change Program.Meets allowed (outcome ends fails) (Program.bind _ x.run) past world ↔ _
  rw [Program.meets_bind]
  refine Program.meets_congr fun result past world => ?_
  cases result <;> exact Iff.rfl

theorem meets_lookup {l : Lookup} {ends : l.Answer → Assertion} (allowed' : allowed (.lookup l) past world)
    (ends' : ∀ answer past, answer = world.store.answer l ∨ answer = l.nothing → ends answer past world)
    (fails' : ∀ e past, fails (.storage e) past world) :
    Meets allowed ends fails (lookup l) past world := by
  refine ⟨allowed', fun disturbance => ?_⟩
  cases disturbance with
  | storeFails e => exact fails' _ _
  | findsNothing => exact ends' _ _ (.inr rfl)
  | none | errandFails _ | scopeBusy _ => exact ends' _ _ (.inl rfl)

theorem meets_require {error : EngineError} {value : Option α}
    (ends' : ∀ a, value = some a → ends a past world) (fails' : value = none → fails error past world) :
    Meets allowed ends fails (require error value) past world := by
  cases value with
  | none => exact fails' rfl
  | some a => exact ends' a rfl

theorem meets_find_bind {l : Lookup} {error : EngineError} {read : l.Answer → Option α}
    {f : α → Operation β} {ends : β → Assertion} (allowed' : allowed (.lookup l) past world)
    (unread : ∀ e, fails (.storage e) (past ++ [⟨.lookup l, .error e⟩]) world)
    (absent : ∀ answer, read answer = none → fails error (past ++ [⟨.lookup l, .ok answer⟩]) world)
    (rest : ∀ answer a, read answer = some a → answer = world.store.answer l ∨ answer = l.nothing →
      (f a).Meets allowed ends fails (past ++ [⟨.lookup l, .ok answer⟩]) world) :
    ((lookup l >>= fun answer => require error (read answer)) >>= f).Meets allowed ends fails past
      world := by
  have hAnswered : ∀ answer, answer = world.store.answer l ∨ answer = l.nothing →
      (require error (read answer)).Meets allowed (fun a => (f a).Meets allowed ends fails) fails
        (past ++ [⟨.lookup l, .ok answer⟩]) world := by
    intro answer hAnswer
    cases hRead : read answer with
    | none => exact absent answer hRead
    | some a => exact rest answer a hRead hAnswer
  apply meets_bind.mpr
  apply meets_bind.mpr
  constructor
  · exact allowed'
  intro disturbance
  cases disturbance with
  | storeFails e => exact unread e
  | findsNothing => exact hAnswered _ (.inr rfl)
  | none | errandFails _ | scopeBusy _ => exact hAnswered _ (.inl rfl)

theorem meets_update {u : Update} {ends : u.Answer → Assertion} {answer : u.Answer} {store : Store}
    (applied : world.store.update u = (.ok answer, store)) (plain : ∀ draft, u ≠ .insertJob draft)
    (allowed' : allowed (.update u) past world)
    (ends' : ends answer (past ++ [⟨.update u, .ok answer⟩]) { world with store := store })
    (fails' : ∀ e, fails (.storage e) (past ++ [⟨.update u, .error e⟩]) world) :
    Meets allowed ends fails (update u) past world := by
  refine ⟨allowed', fun disturbance => ?_⟩
  obtain ⟨e, hReply⟩ | hReply := World.reply_update_eq applied plain disturbance
  · rw [hReply]
    exact fails' e
  · rw [hReply]
    exact ends'

theorem meets_update_bind {u : Update} {f : u.Answer → Operation β} {ends : β → Assertion}
    {answer : u.Answer} {store : Store} (applied : world.store.update u = (.ok answer, store))
    (plain : ∀ draft, u ≠ .insertJob draft) (allowed' : allowed (.update u) past world)
    (rest : (f answer).Meets allowed ends fails (past ++ [⟨.update u, .ok answer⟩])
      { world with store := store })
    (fails' : ∀ e, fails (.storage e) (past ++ [⟨.update u, .error e⟩]) world) :
    (update u >>= f).Meets allowed ends fails past world :=
  meets_bind.mpr (meets_update applied plain allowed' rest fails')

theorem meets_insertJob {draft : JobDraft} {ends : Int64 → Assertion}
    (allowed' : allowed (.update (.insertJob draft)) past world)
    (ends' : ∀ id, (∀ job ∈ world.store.jobs, job.id < id) → world.store.activeJobs draft.scope = [] →
      ends id (past ++ [⟨.update (.insertJob draft), .ok (.created id)⟩]) { world with
        store := { world.store with jobs := world.store.jobs ++ [Job.ofDraft id draft] } })
    (fails' : ∀ e reply, fails e (past ++ [⟨.update (.insertJob draft), reply⟩]) world) :
    Meets allowed ends fails (Engine.insertJob draft) past world := by
  refine meets_bind.mpr ⟨allowed', fun disturbance => ?_⟩
  rcases world.reply_insertJob disturbance draft with ⟨id, hAbove, hIdle, hReply⟩ |
    ⟨reply, hRefused, hReply⟩
  · rw [hReply]
    exact ends' id hAbove hIdle
  · rw [hReply]
    rcases reply with cause | id | jobs
    · exact fails' _ _
    · exact absurd rfl (hRefused id)
    · exact fails' _ _

theorem meets_addConfirmation {draft : ConfirmationDraft} {ends : Int64 → Assertion}
    (allowed' : allowed (.update (.addConfirmation draft)) past world)
    (ends' : ∀ id past, (∀ c ∈ world.store.confirmations, c.id < id) → ends id past { world with
      store := { world.store with confirmations := world.store.confirmations ++ [⟨draft, id⟩] } })
    (fails' : ∀ e past, fails e past world) :
    Meets allowed ends fails (update (.addConfirmation draft)) past world := by
  cases hNext : nextNumber? (world.store.confirmations.map fun c => c.id) with
  | some id =>
    have hApplied : world.store.update (.addConfirmation draft) = (.ok id,
        { world.store with confirmations := world.store.confirmations ++ [⟨draft, id⟩] }) := by
      simp [Store.update, Store.addConfirmation, hNext]
    have hAbove : ∀ c ∈ world.store.confirmations, c.id < id := fun c hc =>
      lt_of_nextNumber? hNext _ (List.mem_map_of_mem hc)
    exact meets_update hApplied (by simp) allowed' (ends' id _ hAbove) fun _ => fails' _ _
  | none =>
    have hApplied : world.store.update (.addConfirmation draft) = (.error .unavailable, world.store) := by
      simp [Store.update, Store.addConfirmation, hNext]
    refine ⟨allowed', fun disturbance => ?_⟩
    have hReply : ∃ e,
        world.reply disturbance (.update (.addConfirmation draft)) = (.error e, world) := by
      cases disturbance <;> simp [World.reply, World.answerUpdate, hApplied]
    obtain ⟨e, hReply⟩ := hReply
    rw [hReply]
    exact fails' _ _

theorem meets_errand {purpose : Purpose} {e : Errand} {ends : e.Answer → Assertion}
    (allowed' : allowed (.errand e) past world)
    (ends' : ∀ answer after, after.store = world.store →
      ends answer (past ++ [⟨.errand e, .ok answer⟩]) after)
    (fails' : ∀ failure, fails (.outside purpose failure)
      (past ++ [⟨.errand e, .error failure⟩]) world) :
    Meets allowed ends fails (errand purpose e) past world := by
  refine ⟨allowed', fun disturbance => ?_⟩
  obtain ⟨failure, hReply⟩ | ⟨answer, after, hReply, hStore⟩ := world.reply_errand disturbance e
  · rw [hReply]
    exact fails' failure
  · rw [hReply]
    exact ends' answer after hStore

end Operation

end DeliveryPipeline

import DeliveryPipeline.Proofs.Program.Deeds
import DeliveryPipeline.Proofs.Program.Obeys
import DeliveryPipeline.Proofs.Program.Yields

/-! # Replays

A strict operation ends with a value only if every call has been answered. While the store works, a run in
which every call was answered goes the same way under any other rule that lets these errands through.
-/

namespace DeliveryPipeline

set_option autoImplicit false

variable {σ τ α β : Type}

theorem exists_eq_ok {ε : Type} {result : Except ε α} (h : result.isOk = true) :
    ∃ a, result = .ok a := by
  cases result with
  | error e => cases h
  | ok a => exact ⟨a, rfl⟩

def Exchange.isAnswered (e : Exchange) : Bool := e.reply.isOk

def Answered : Knowledge := fun past => ∀ e ∈ past, e.isAnswered = true

theorem Answered.snoc {past : List Exchange} (h : Answered past) {e : Exchange}
    (he : e.isAnswered = true) : Answered (past ++ [e]) :=
  List.forall_mem_append.mpr ⟨h, List.forall_mem_singleton.mpr he⟩

/-- The rule never makes the errand fail. -/
def Rule.LetsThrough (rule : Rule σ) (e : Errand) : Prop :=
  ∀ state failure, (rule state (.errand e)).1 ≠ .errandFails failure

theorem Rule.letsThrough_undisturbed (e : Errand) : Rule.undisturbed.LetsThrough e := by
  rintro state failure ⟨⟩

theorem Rule.SparesStore.reply_lookup {rule : Rule σ} (h : rule.SparesStore) (world : World) (state : σ)
    (l : Lookup) : (world.reply (rule state (.lookup l)).1 (.lookup l)).1 = .ok (world.store.answer l) := by
  have hNone : (rule state (.lookup l)).1 = .none := h state (.lookup l)
  rw [hNone]
  rfl

theorem World.reply_errand_of_through (world : World) (e : Errand) {disturbance : Disturbance}
    (through : ∀ failure, disturbance ≠ .errandFails failure) :
    world.reply disturbance (.errand e) = world.answerErrand e := by
  cases disturbance <;> first | rfl | exact absurd rfl (through _)

theorem World.reply_eq_of_answered (world : World) {c : Call} {disturbance other : Disturbance}
    (spares : disturbance.Spares c) (spares' : other.Spares c)
    (answered : (world.reply disturbance c).1.isOk = true)
    (through : ∀ e, c = .errand e → ∀ failure, other ≠ .errandFails failure) :
    world.reply other c = world.reply disturbance c := by
  cases c with
  | lookup l =>
    have hFirst : disturbance = .none := spares
    have hOther : other = .none := spares'
    rw [hFirst, hOther]
  | update u =>
    have hFirst : disturbance = .none := spares
    have hOther : other = .none := spares'
    rw [hFirst, hOther]
  | errand e =>
    have hFirst : world.reply disturbance (.errand e) = world.answerErrand e := by
      cases disturbance <;> first | rfl | cases answered
    rw [hFirst, world.reply_errand_of_through e (through e rfl)]

theorem Program.run_eq_of_answered {rule : Rule σ} {rule' : Rule τ} (spares : rule.SparesStore)
    (spares' : rule'.SparesStore) (p : Program α) (world : World) (state : σ) (state' : τ) :
    let run := p.run rule world state
    let again := p.run rule' world state'
    Answered run.exchanges → (∀ e answer, ⟨.errand e, .ok answer⟩ ∈ run.exchanges → rule'.LetsThrough e) →
      again.value = run.value ∧ again.world = run.world ∧ again.exchanges = run.exchanges := by
  intro run again answered through
  -- As long as both runs have had the same replies they are at the same call, in the same world.
  induction p generalizing world state state' with
  | done a => exact ⟨rfl, rfl, rfl⟩
  | call c next ih =>
    obtain ⟨hHere, hLater⟩ := List.forall_mem_cons.mp answered
    have hThrough : ∀ e, c = .errand e → ∀ failure, (rule' state' c).1 ≠ .errandFails failure := by
      rintro e rfl
      obtain ⟨answer, hAnswer⟩ := exists_eq_ok hHere
      refine through e answer ?_ state'
      rw [← hAnswer]
      exact List.mem_cons_self
    have hReply := world.reply_eq_of_answered (spares state c) (spares' state' c) hHere hThrough
    have hRest := ih (world.reply (rule state c).1 c).1 (world.reply (rule state c).1 c).2 (rule state c).2
      (rule' state' c).2 hLater fun e answer hMem => through e answer (List.mem_cons_of_mem _ hMem)
    have hAgain := run_call rule' c next world state'
    dsimp only at hAgain
    rw [hReply] at hAgain
    obtain ⟨hValue, hWorld, hExchanges⟩ := hRest
    rw [show again = _ from hAgain]
    exact ⟨hValue, hWorld, congrArg (_ :: ·) hExchanges⟩

namespace Operation

def IsStrict (x : Operation α) : Prop :=
  ∀ past, Answered past → x.Obeys (fun _ _ => True) (fun _ => Answered) (fun _ _ => True) past

theorem IsStrict.bind {x : Operation α} {f : α → Operation β} (h : x.IsStrict)
    (rest : ∀ a, (f a).IsStrict) : (x >>= f).IsStrict := by
  intro past hPast
  apply obeys_bind.mpr
  apply (h past hPast).relax
  · intro _ _ _
    trivial
  · intro a later
    exact rest a _
  · intro _ _ _
    trivial

theorem isStrict_pure (a : α) : (pure a : Operation α).IsStrict := fun _ hPast => hPast

theorem isStrict_throw (e : EngineError) : (throw e : Operation α).IsStrict := fun _ _ => trivial

theorem isStrict_update (u : Update) : (update u).IsStrict := fun _ hPast =>
  obeys_update trivial (fun _ => hPast.snoc rfl) fun _ => trivial

theorem isStrict_errand (purpose : Purpose) (e : Errand) : (errand purpose e).IsStrict := fun _ hPast =>
  obeys_errand trivial (fun _ => hPast.snoc rfl) fun _ => trivial

variable {rule : Rule σ} {world : World} {state : σ} {x : Operation α} {f : α → Operation β}

theorem IsStrict.answered_of_run {a : α} (h : x.IsStrict)
    (value : (x.run.run rule world state).value = .ok a) :
    Answered (x.run.run rule world state).exchanges := by
  have hEnds := Program.Meets.ends_run (Program.Obeys.meets (h [] fun _ h => nomatch h) world) rule state
  rw [value] at hEnds
  exact hEnds

theorem run_attempt_bind {f : Except EngineError α → Operation β} :
    let first := x.run.run rule world state
    let rest := (f first.value).run.run rule first.world first.state
    (attempt x >>= f).run.run rule world state = { rest with exchanges := first.exchanges ++ rest.exchanges } := by
  intro first rest
  have hTried : (attempt x).run.run rule world state =
      ⟨.ok first.value, first.world, first.state, first.exchanges⟩ := by
    have hBind := Program.run_bind rule
      (fun result => (.done (.ok result) : Program (Except EngineError (Except EngineError α)))) x.run world state
    refine hBind.trans ?_
    exact congrArg (Run.mk _ _ _) (List.append_nil _)
  have hRun := run_bind_of_ok (f := f) (congrArg Run.value hTried)
  rw [hTried] at hRun
  exact hRun

theorem exists_of_run_bind {y : Operation β} {b : β} (split : y = x >>= f)
    (value : (y.run.run rule world state).value = .ok b) :
    let first := x.run.run rule world state
    ∃ a, first.value = .ok a ∧
      let rest := (f a).run.run rule first.world first.state
      rest.value = .ok b ∧
        y.run.run rule world state = { rest with exchanges := first.exchanges ++ rest.exchanges } := by
  intro first
  subst split
  cases hFirst : first.value with
  | error e =>
    rw [run_bind_of_error hFirst] at value
    cases value
  | ok a =>
    have hRun := run_bind_of_ok (f := f) hFirst
    rw [hRun] at value
    exact ⟨a, rfl, value, hRun⟩

end Operation

end DeliveryPipeline

import DeliveryPipeline.Proofs.Engine.Commands
import DeliveryPipeline.Proofs.Program.Deeds

/-! # What every session obeys

All deeds of a session are sound: they have a warrant, and their world answered them. So a property of
what was exchanged and of the world holds throughout a session if it holds at the start and sound deeds
preserve it. A property of jobs or orders needs to be looked at for few kinds of changes only.
-/

namespace DeliveryPipeline

set_option autoImplicit false

open Api (Command)

structure Deed.IsSound (engine : Engine) (deed : Deed) : Prop where
  warrant : Warrant engine deed.command deed.past deed.before.store deed.call
  answered : deed.IsAnswered

theorem Deed.IsSound.store_after {engine : Engine} {deed : Deed} (h : deed.IsSound engine) :
    deed.after.store = deed.before.store ∨
      ∃ u, deed.call = .update u ∧ deed.after.store = (deed.before.store.update u).2 := by
  obtain ⟨disturbance, hReply⟩ := h.answered
  have hAfter : deed.after = (deed.before.reply disturbance deed.call).2 := by rw [hReply]
  rw [hAfter]
  exact deed.before.store_reply disturbance deed.call

theorem Deed.IsSound.store_eq {engine : Engine} {deed : Deed} (h : deed.IsSound engine) :
    ∃ orders jobs confirmations,
      deed.after.store = { deed.before.store with orders, jobs, confirmations } := by
  rcases h.store_after with hSame | ⟨u, -, hStore⟩
  · exact ⟨_, _, _, hSame⟩
  · rw [hStore]
    exact deed.before.store.update_eq u

namespace Session

variable {σ : Type}

theorem path_deedsFrom (engine : Engine) (rule : Rule σ) (commands : List Command) :
    ∀ past world state, ∃ past' world',
      Deed.Path past world (deedsFrom engine rule commands past world state) past' world' := by
  induction commands with
  | nil => exact fun past world _ => ⟨past, world, .nil past world⟩
  | cons command rest ih =>
    intro past world state
    obtain ⟨past', world', hRest⟩ := ih _ _ _
    have hFirst := Program.path_deeds rule command (command.operation engine).run past world state
    exact ⟨past', world', hFirst.append hRest⟩

theorem isSound_of_mem_deedsFrom (engine : Engine) (rule : Rule σ) (commands : List Command) :
    ∀ past world state, ∀ deed ∈ deedsFrom engine rule commands past world state,
      deed.IsSound engine := by
  induction commands with
  | nil => intro past world state deed hDeed; cases hDeed
  | cons command rest ih =>
    intro past world state deed hDeed
    rcases List.mem_append.mp hDeed with hDeed | hDeed
    · have hMeets := isWarranted_operation engine command past world
      obtain ⟨hWarrant, hAnswered, hCommand⟩ := Program.Meets.deeds hMeets state deed hDeed
      exact ⟨hCommand ▸ hWarrant, hAnswered⟩
    · exact ih _ _ _ deed hDeed

theorem command_mem_of_mem_deedsFrom (engine : Engine) (rule : Rule σ) (commands : List Command) :
    ∀ past world state, ∀ deed ∈ deedsFrom engine rule commands past world state,
      deed.command ∈ commands := by
  induction commands with
  | nil => intro past world state deed hDeed; cases hDeed
  | cons command rest ih =>
    intro past world state deed hDeed
    rcases List.mem_append.mp hDeed with hDeed | hDeed
    · have hMeets := isWarranted_operation engine command past world
      rw [(Program.Meets.deeds hMeets state deed hDeed).2.2]
      exact List.mem_cons_self
    · exact List.mem_cons_of_mem _ (ih _ _ _ deed hDeed)

variable (session : Session σ)

theorem path_deeds : ∃ past world, Deed.Path [] session.start session.deeds past world :=
  path_deedsFrom session.engine session.rule session.commands [] session.start session.state

variable {session}

theorem isSound_of_mem_deeds {deed : Deed} (h : deed ∈ session.deeds) : deed.IsSound session.engine :=
  isSound_of_mem_deedsFrom session.engine session.rule session.commands [] session.start session.state
    deed h

theorem command_mem_of_mem_deeds {deed : Deed} (h : deed ∈ session.deeds) :
    deed.command ∈ session.commands :=
  command_mem_of_mem_deedsFrom session.engine session.rule session.commands [] session.start
    session.state deed h

theorem holds_of_mem_deeds {I : Assertion} (start : I [] session.start)
    (step : ∀ deed : Deed, deed.IsSound session.engine → I deed.past deed.before →
      I (deed.past ++ [deed.exchange]) deed.after) {deed : Deed} (h : deed ∈ session.deeds) :
    I deed.past deed.before ∧ I (deed.past ++ [deed.exchange]) deed.after := by
  obtain ⟨past, world, hPath⟩ := session.path_deeds
  exact hPath.invariant start (fun deed hDeed => step deed (isSound_of_mem_deeds hDeed)) deed h

theorem holds_of_mem_worlds {I : World → Prop} (start : I session.start)
    (step : ∀ deed : Deed, deed.IsSound session.engine → I deed.before → I deed.after) :
    ∀ world ∈ session.worlds, I world := by
  refine List.forall_mem_cons.mpr ⟨start, List.forall_mem_map.mpr fun deed hDeed => ?_⟩
  exact (holds_of_mem_deeds (I := fun _ => I) start step hDeed).2

theorem pairwise_worlds {R : World → World → Prop} (trans : ∀ {a b c}, R a b → R b c → R a c)
    (step : ∀ deed : Deed, deed.IsSound session.engine → R deed.before deed.after) :
    session.worlds.Pairwise R := by
  obtain ⟨past, world, hPath⟩ := session.path_deeds
  exact hPath.pairwise trans fun deed hDeed => step deed (isSound_of_mem_deeds hDeed)

/-- An order that stands in the first of two stages, while a deploy runs for it in the second. -/
def sampleStore : Store where
  projects := [⟨1, "shop", .active⟩]
  apps := []
  repositories := []
  environments := [⟨3, 1, "production", "shop", 21, 22, 23⟩]
  compileEnvironments := []
  arrangements := []
  mappings := []
  orders := [⟨5, 1, "v1.2.0", "spring release", 3, 1, "build", "build", .running, "alice", 1⟩]
  orderApps := []
  snapshots := [⟨1, [⟨3, "production", [⟨1, 1, "build", .build, []⟩]⟩,
    ⟨4, "canary", [⟨1, 2, "deploy", .deploy, []⟩]⟩]⟩]
  jobs := [⟨8, 4, 1, 3, .build, some 70, .success, "alice", []⟩,
    ⟨9, 5, 1, 4, .deploy, some 77, .running, "alice", []⟩]
  confirmations := []
  settings := [⟨21, "ci-main", .ciServer ⟨"http://ci.local", "ci", "ci-token", "/ws"⟩⟩]
  branches := []
  tokens := []

def sample (command : Command) : Session Unit where
  engine := .ofServer "http://conveyor.local"
  rule := fun _ _ => (.none, ())
  state := ()
  start := { store := sampleStore, histories := [], nextRun := 100 }
  commands := [command]

end Session

end DeliveryPipeline

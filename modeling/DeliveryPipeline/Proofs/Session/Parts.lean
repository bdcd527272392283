import DeliveryPipeline.Proofs.Engine.Completion
import DeliveryPipeline.Proofs.Session.Basic

/-! # The parts of a session

A session falls into parts, one for each command. What a command may do can depend on the world that it
found when it began; so a property that the deeds of a part preserve, if it holds where the part begins,
holds throughout the session.
-/

namespace DeliveryPipeline

set_option autoImplicit false

open Api (Command)

namespace Session

variable {σ : Type}

/-- A command, the exchanges before it, the world that it finds, and what is done for it. -/
structure Part where
  command : Command
  past : List Exchange
  start : World
  deeds : List Deed

def partsFrom (engine : Engine) (rule : Rule σ) :
    List Command → List Exchange → World → σ → List Part
  | [], _, _, _ => []
  | command :: rest, past, world, state =>
    let program := (command.operation engine).run
    let run := program.run rule world state
    ⟨command, past, world, program.deeds rule command past world state⟩ ::
      partsFrom engine rule rest (past ++ run.exchanges) run.world run.state

def parts (session : Session σ) : List Part :=
  partsFrom session.engine session.rule session.commands [] session.start session.state

theorem flatMap_deeds_partsFrom (engine : Engine) (rule : Rule σ) (commands : List Command) :
    ∀ past world state, (partsFrom engine rule commands past world state).flatMap Part.deeds =
      deedsFrom engine rule commands past world state := by
  induction commands with
  | nil => exact fun _ _ _ => rfl
  | cons command rest ih =>
    intro past world state
    exact congrArg (_ ++ ·) (ih _ _ _)

theorem flatMap_deeds_parts (session : Session σ) : session.parts.flatMap Part.deeds = session.deeds :=
  flatMap_deeds_partsFrom session.engine session.rule session.commands [] session.start session.state

theorem deeds_of_mem_partsFrom (engine : Engine) (rule : Rule σ) (commands : List Command) :
    ∀ past world state, ∀ part ∈ partsFrom engine rule commands past world state,
      part.command ∈ commands ∧ ∃ state, part.deeds =
        (part.command.operation engine).run.deeds rule part.command part.past part.start state := by
  induction commands with
  | nil => intro past world state part hPart; cases hPart
  | cons command rest ih =>
    intro past world state part hPart
    rcases List.mem_cons.mp hPart with rfl | hPart
    · exact ⟨List.mem_cons_self, state, rfl⟩
    · obtain ⟨hCommand, hDeeds⟩ := ih _ _ _ part hPart
      exact ⟨List.mem_cons_of_mem _ hCommand, hDeeds⟩

def Part.finish (part : Part) : World := (part.deeds.getLast?.map Deed.after).getD part.start

/-- Every part begins in the world in which the one before it is done. -/
inductive Part.Chain : World → List Part → Prop
  | nil (world : World) : Chain world []
  | cons (part : Part) {rest : List Part} : Chain part.finish rest → Chain part.start (part :: rest)

theorem chain_partsFrom (engine : Engine) (rule : Rule σ) (commands : List Command) :
    ∀ past world state, Part.Chain world (partsFrom engine rule commands past world state) := by
  induction commands with
  | nil => exact fun _ world _ => .nil world
  | cons command rest ih =>
    intro past world state
    let program := (command.operation engine).run
    let part : Part := ⟨command, past, world, program.deeds rule command past world state⟩
    have hFinish : part.finish = (program.run rule world state).world :=
      (Program.path_deeds rule command program past world state).world_eq.symm
    refine .cons part ?_
    rw [hFinish]
    exact ih _ _ _

theorem chain_parts (session : Session σ) : Part.Chain session.start session.parts :=
  chain_partsFrom session.engine session.rule session.commands [] session.start session.state

theorem holds_of_mem_partsFrom (engine : Engine) (rule : Rule σ) (commands : List Command)
    {I : World → Prop} : ∀ past world state, I world →
      (∀ part ∈ partsFrom engine rule commands past world state, I part.start →
        ∀ deed ∈ part.deeds, I deed.before → I deed.after) →
      ∀ part ∈ partsFrom engine rule commands past world state,
        I part.start ∧ ∀ deed ∈ part.deeds, I deed.before ∧ I deed.after := by
  induction commands with
  | nil => intro past world state _ _ part hPart; cases hPart
  | cons command rest ih =>
    intro past world state hStart hStep
    obtain ⟨hFirst, hRest⟩ := List.forall_mem_cons.mp hStep
    have hPath := Program.path_deeds rule command (command.operation engine).run past world state
    refine List.forall_mem_cons.mpr ⟨⟨hStart, ?_⟩, ih _ _ _ ?_ hRest⟩
    · exact hPath.invariant (I := fun _ => I) hStart (hFirst hStart)
    · exact hPath.holds_at_end (I := fun _ => I) hStart (hFirst hStart)

variable {session : Session σ} {part : Part}

theorem command_mem_of_mem_parts (h : part ∈ session.parts) : part.command ∈ session.commands :=
  (deeds_of_mem_partsFrom _ _ _ _ _ _ part h).1

theorem mem_deeds_of_mem_parts (h : part ∈ session.parts) {deed : Deed} (hDeed : deed ∈ part.deeds) :
    deed ∈ session.deeds := by
  rw [← session.flatMap_deeds_parts]
  exact List.mem_flatMap.mpr ⟨part, h, hDeed⟩

theorem path_of_mem_parts (h : part ∈ session.parts) :
    ∃ past world, Deed.Path part.past part.start part.deeds past world := by
  obtain ⟨-, state, hDeeds⟩ := deeds_of_mem_partsFrom _ _ _ _ _ _ part h
  rw [hDeeds]
  exact ⟨_, _, Program.path_deeds session.rule part.command _ part.past part.start state⟩

theorem holds_at_finish {I : World → Prop} (h : part ∈ session.parts) (start : I part.start)
    (step : ∀ deed ∈ part.deeds, I deed.before → I deed.after) : I part.finish := by
  obtain ⟨past, world, hPath⟩ := path_of_mem_parts h
  have hEnd := hPath.holds_at_end (I := fun _ => I) start step
  rwa [hPath.world_eq] at hEnd

theorem exists_finish_eq (h : part ∈ session.parts) : ∃ state, part.finish =
    ((part.command.operation session.engine).run.run session.rule part.start state).world := by
  obtain ⟨-, state, hDeeds⟩ := deeds_of_mem_partsFrom _ _ _ _ _ _ part h
  have hPath := Program.path_deeds session.rule part.command
    (part.command.operation session.engine).run part.past part.start state
  refine ⟨state, ?_⟩
  rw [hPath.world_eq, Part.finish, hDeeds]

theorem command_of_mem_deeds (h : part ∈ session.parts) {deed : Deed} (hDeed : deed ∈ part.deeds) :
    deed.command = part.command := by
  obtain ⟨-, state, hDeeds⟩ := deeds_of_mem_partsFrom _ _ _ _ _ _ part h
  have hMeets := isWarranted_operation session.engine part.command part.past part.start
  exact (Program.Meets.deeds hMeets state deed (hDeeds ▸ hDeed)).2.2

theorem departing_of_mem_parts (h : part ∈ session.parts) (completes : part.command.completes = true)
    {deed : Deed} (hDeed : deed ∈ part.deeds) :
    Departing part.command part.start.store deed.call deed.before.store := by
  obtain ⟨-, state, hDeeds⟩ := deeds_of_mem_partsFrom _ _ _ _ _ _ part h
  have hMeets :=
    Engine.departing_operation session.engine part.command completes part.past part.start
  exact (Program.Meets.deeds hMeets state deed (hDeeds ▸ hDeed)).1

theorem holds_of_mem_parts {I : World → Prop} (start : I session.start)
    (step : ∀ part ∈ session.parts, I part.start → ∀ deed ∈ part.deeds, I deed.before → I deed.after) :
    ∀ part ∈ session.parts, I part.start ∧ ∀ deed ∈ part.deeds, I deed.before ∧ I deed.after :=
  holds_of_mem_partsFrom session.engine session.rule session.commands [] session.start session.state
    start step

/-- A property holds in every world of a session if it holds at the start, and the deeds of a part
preserve it if it holds where the part begins. -/
theorem holds_of_parts {I : World → Prop} (start : I session.start)
    (step : ∀ part ∈ session.parts, I part.start → ∀ deed ∈ part.deeds, I deed.before → I deed.after) :
    ∀ world ∈ session.worlds, I world := by
  refine List.forall_mem_cons.mpr ⟨start, List.forall_mem_map.mpr fun deed hDeed => ?_⟩
  rw [← session.flatMap_deeds_parts] at hDeed
  obtain ⟨part, hPart, hDeed⟩ := List.mem_flatMap.mp hDeed
  exact ((holds_of_mem_parts start step part hPart).2 deed hDeed).2

end Session

end DeliveryPipeline

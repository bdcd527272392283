import DeliveryPipeline.Proofs.Session.Finished
import DeliveryPipeline.Proofs.Session.Steps
import Mathlib.Data.List.Pairwise

/-! # Jobs and steps keep in step

The check for active jobs is made within a scope, and the scopes of builds and deploys have nothing to do
with each other. That an order never has two active jobs rests on more than that: its active job is
always the one of the step at which it stands, and it leaves the step only when that job has been
settled, or the step is a manual one that has no job.
-/

namespace DeliveryPipeline

set_option autoImplicit false

open Api (Command)
open Engine (StandsAt stepKindOf)

def Job.IsActiveFor (job : Job) (order : Order) : Prop := job.isActive = true ∧ job.order = order.id

/-- The job is one of the step at which the order stands in its own stage. -/
structure Job.IsOfStep (job : Job) (store : Store) (order : Order) : Prop where
  project : job.project = order.project
  stage : job.stage = order.stage
  stands : ∃ step, StandsAt store order order.stage (stepKindOf job.kind) step

namespace Store

/-- The order has at most one active job, and that is one of its current step. -/
structure KeepsStep (store : Store) (order : Order) : Prop where
  single : store.jobs.Pairwise fun job other => job.IsActiveFor order → ¬ other.IsActiveFor order
  current : ∀ job ∈ store.jobs, job.IsActiveFor order → job.IsOfStep store order

structure InStep (store : Store) : Prop where
  distinctJobs : store.DistinctJobs
  distinctOrders : store.DistinctOrders
  keepsStep : ∀ order ∈ store.orders, store.KeepsStep order

def IsIdle (store : Store) (order : Order) : Prop := ∀ job ∈ store.jobs, ¬ job.IsActiveFor order

end Store

/-- A request for a job names the stage that its order is in. -/
def Api.Command.NamesOwnStage (command : Command) (store : Store) : Prop :=
  match command with
  | .build _ id stage _ | .deploy _ id stage _ => ∀ order ∈ store.orders, order.id = id → stage = order.stage
  | _ => True

theorem Job.Continues.isActiveFor {job job' : Job} {order : Order} (h : job.Continues job')
    (active : job'.IsActiveFor order) : job.IsActiveFor order :=
  ⟨h.active active.1, h.order.symm.trans active.2⟩

theorem Engine.stepKindOf_injective {kind kind' : JobKind} (h : stepKindOf kind = stepKindOf kind') :
    kind = kind' := by
  cases kind <;> cases kind' <;> first | rfl | cases h

theorem Engine.StandsAt.kind_eq {store : Store} {order : Order} {stage : Int64} {kind kind' : StepKind}
    {step step' : Step} (h : StandsAt store order stage kind step)
    (h' : StandsAt store order stage kind' step') : kind = kind' := by
  obtain rfl := h.unique h'
  obtain ⟨_, _, _, _, _, rfl⟩ := h
  obtain ⟨_, _, _, _, _, rfl⟩ := h'
  rfl

theorem Engine.StandsAt.congr {before after : Store} {order : Order} {stage : Int64} {kind : StepKind}
    {step : Step} (h : StandsAt before order stage kind step)
    (snapshots : after.snapshots = before.snapshots) : StandsAt after order stage kind step := by
  obtain ⟨snapshot, found, hSnapshot, hFound⟩ := h
  refine ⟨snapshot, found, ?_, hFound⟩
  rw [← hSnapshot]
  exact congrArg (List.find? _) snapshots

theorem Job.IsOfStep.congr {job : Job} {before after : Store} {order : Order}
    (h : job.IsOfStep before order) (snapshots : after.snapshots = before.snapshots) :
    job.IsOfStep after order := by
  obtain ⟨step, hStands⟩ := h.stands
  exact ⟨h.project, h.stage, step, hStands.congr snapshots⟩

theorem Deed.IsSound.snapshots {engine : Engine} {deed : Deed} (h : deed.IsSound engine) :
    deed.after.store.snapshots = deed.before.store.snapshots := by
  obtain ⟨orders, jobs, confirmations, hStore⟩ := h.store_eq
  rw [hStore]

namespace Store

theorem KeepsStep.not_isActiveFor {store : Store} {order : Order} (h : store.KeepsStep order)
    {job other : Job} (mem : job ∈ store.jobs) (mem' : other ∈ store.jobs) (differ : job ≠ other)
    (active : job.IsActiveFor order) : ¬ other.IsActiveFor order := by
  have hSymm : Std.Symm fun job other : Job => job.IsActiveFor order → ¬ other.IsActiveFor order :=
    ⟨fun _ _ h hActive hActive' => h hActive' hActive⟩
  exact h.single.forall mem mem' differ active

theorem KeepsStep.isIdle_of_manual {store : Store} {order : Order} (h : store.KeepsStep order) {step : Step}
    (stands : StandsAt store order order.stage .manual step) : store.IsIdle order := by
  intro job hJob hActive
  obtain ⟨step', hStands⟩ := (h.current job hJob hActive).stands
  have hKind := hStands.kind_eq stands
  cases hJobKind : job.kind <;> rw [hJobKind] at hKind <;> cases hKind

theorem KeepsStep.of_forall₂ {before after : Store} {order order' : Order} (h : before.KeepsStep order)
    (jobs : List.Forall₂ Job.Continues before.jobs after.jobs)
    (snapshots : after.snapshots = before.snapshots) (id : order'.id = order.id)
    (stands : before.IsIdle order ∨ ∃ status, order' = { order with status := status }) :
    after.KeepsStep order' := by
  have hSame : ∀ {job : Job}, job.IsActiveFor order' → job.IsActiveFor order :=
    fun hActive => ⟨hActive.1, hActive.2.trans id⟩
  refine ⟨?_, fun job' hJob' hActive => ?_⟩
  · refine pairwise_of_forall₂ jobs ?_ (h.single.imp fun hSingle hActive hActive' =>
      hSingle (hSame hActive) (hSame hActive'))
    intro job other job' other' hJob hOther hSingle hActive hActive'
    exact hSingle (hJob.isActiveFor hActive) (hOther.isActiveFor hActive')
  · obtain ⟨job, hJob, hContinues⟩ := exists_of_forall₂_of_mem jobs hJob'
    have hBefore := hSame (hContinues.isActiveFor hActive)
    rcases stands with hIdle | ⟨status, rfl⟩
    · exact absurd hBefore (hIdle job hJob)
    · obtain ⟨hProject, hStage, step, hStands⟩ := h.current job hJob hBefore
      refine ⟨hContinues.project.trans hProject, hContinues.stage.trans hStage, step, ?_⟩
      rw [hContinues.kind]
      exact hStands.congr snapshots

theorem InStep.addJob {before : Store} {id : Int64} {draft : JobDraft} {order : Order} {step : Step}
    (h : before.InStep) (distinct : (before.addJob (Job.ofDraft id draft)).DistinctJobs)
    (idle : before.activeJobs draft.scope = [])
    (found : before.answer (.order draft.order) = some order) (project : draft.project = order.project)
    (stage : draft.stage = order.stage)
    (stands : StandsAt before order order.stage (stepKindOf draft.kind) step) :
    (before.addJob (Job.ofDraft id draft)).InStep := by
  obtain ⟨hMem, hId⟩ := mem_of_answer_order found
  refine ⟨distinct, h.distinctOrders, fun other hOther => ?_⟩
  -- the job is stored for the order that was found, and no other order has the number
  have hOwn : (Job.ofDraft id draft).IsActiveFor other → other = order := by
    intro hActive
    have hFound := h.distinctOrders.answer_order hOther
    rw [← hActive.2] at hFound
    exact Option.some.inj (hFound.symm.trans found)
  obtain ⟨hSingle, hCurrent⟩ := h.keepsStep other hOther
  refine ⟨?_, fun job hJob hActive => ?_⟩
  · refine List.pairwise_append.mpr ⟨hSingle, List.pairwise_singleton _ _, ?_⟩
    intro job hJob new hNew hActive hActive'
    rw [List.mem_singleton.mp hNew] at hActive'
    obtain rfl := hOwn hActive'
    -- an active job of the order is one of the same step, so it would occupy the scope
    obtain ⟨hProject, hStage, step', hStands⟩ := hCurrent job hJob hActive
    have hKind := Engine.stepKindOf_injective (hStands.kind_eq stands)
    have hScope : job.scope = draft.scope := by
      rw [Job.scope_eq, hKind, hProject, hStage, hActive.2, hId, ← project, ← stage]
      rfl
    have hUncovered := activeJobs_eq_nil_iff.mp idle job hJob hActive.1
    rw [JobDraft.covers_scope_iff.mpr hScope] at hUncovered
    cases hUncovered
  · rcases List.mem_append.mp hJob with hOld | hNew
    · exact (hCurrent job hOld hActive).congr rfl
    · obtain rfl := List.mem_singleton.mp hNew
      obtain rfl := hOwn hActive
      exact ⟨project, stage, step, stands.congr rfl⟩

end Store

theorem Departs.isIdle {command : Command} {origin store : Store} (h : Departs command origin store)
    (inStep : origin.InStep) (distinct : store.DistinctJobs) {order : Order}
    (found : store.answer (.order command.order) = some order) : store.IsIdle order := by
  have hOrigin : origin.answer (.order command.order) = some order := by
    rw [← found]
    exact congrArg (List.find? _) h.orders.symm
  obtain ⟨hMem, hId⟩ := Store.mem_of_answer_order hOrigin
  have hKeeps := inStep.keepsStep order hMem
  cases h with
  | @reported _ _ _ report job asked succeeded reported place active =>
    have hOrder : job.order = command.order := (Job.isAt_iff.mp place).1
    have hJob : job ∈ origin.jobs ∧ job.id = report.job := mem_of_find? reported
    intro other hOther hActive
    by_cases hNumber : other.id = report.job
    · have hFound := distinct.answer_job hOther
      rw [hNumber] at hFound
      rw [Option.some.inj (hFound.symm.trans (Store.answer_settle reported _))] at hActive
      cases report.outcome.isActive_status.symm.trans hActive.1
    · rcases mem_changeFirst hOther with hOld | ⟨changed, hChanged, rfl⟩
      · have hNe : job ≠ other := fun hSame => hNumber (hSame ▸ hJob.2)
        exact hKeeps.not_isActiveFor hJob.1 hOld hNe ⟨active, hOrder.trans hId.symm⟩ hActive
      · exact hNumber (mem_of_find? hChanged).2
  | confirmed asked asked' stands =>
    obtain rfl := Option.some.inj (asked'.symm.trans hOrigin)
    exact hKeeps.isIdle_of_manual stands

theorem Departs.stageAt_eq {command : Command} {origin store : Store} (h : Departs command origin store)
    (inStep : origin.InStep) {order : Order} (mem : order ∈ origin.orders)
    (about : order.id = command.order) : command.stageAt order = order.stage := by
  cases h with
  | @reported project stage kind report job asked succeeded found place active =>
    obtain ⟨hOrder, -, hStage, -⟩ := Job.isAt_iff.mp place
    obtain ⟨hJob, -⟩ := mem_of_find? found
    have hStep := (inStep.keepsStep order mem).current job hJob ⟨active, hOrder.trans about.symm⟩
    have hAt : command.stageAt order = stage := by rw [asked]; rfl
    rw [hAt, ← hStage]
    exact hStep.stage
  | confirmed asked => rw [asked]; rfl

namespace Session

variable {σ : Type} {session : Session σ} {part : Part}

theorem stage_eq_of_inserts (h : part ∈ session.parts) {deed : Deed} (hDeed : deed ∈ part.deeds)
    (inserts : deed.call.inserts = true) (launches : part.command.launches = true)
    (stages : part.command.NamesOwnStage session.start.store) (inStep : part.start.store.InStep)
    (precedes : session.start.store.Precedes deed.before.store) {order : Order}
    (found : deed.before.store.answer (.order part.command.order) = some order) :
    part.command.stageAt order = order.stage := by
  obtain ⟨hMem, hId⟩ := Store.mem_of_answer_order found
  by_cases hCompletes : part.command.completes = true
  · obtain ⟨departed, hDeparts⟩ := (departing_of_mem_parts h hCompletes hDeed).inserts inserts
    -- the order is the one that the part found, in the same stage
    obtain ⟨order', hMem', hPrecedes⟩ := exists_of_forall₂_of_mem (precedes_of_mem_part h hDeed) hMem
    have hStage := hDeparts.stageAt_eq inStep hMem' (hPrecedes.id.symm.trans hId)
    rw [hPrecedes.stage, ← hStage]
    exact Api.Command.stageAt_congr hPrecedes.stage
  · obtain ⟨order', hMem', hPrecedes⟩ := exists_of_forall₂_of_mem precedes hMem
    cases hCommand : part.command with
    | build project id stage request | deploy project id stage request =>
      rw [hCommand] at stages hId
      rw [hPrecedes.stage]
      exact stages order' hMem' (hPrecedes.id.symm.trans hId)
    | _ =>
      rw [hCommand] at launches hCompletes
      exact absurd launches hCompletes

theorem inStep_of_mem_deeds (h : part ∈ session.parts) {deed : Deed} (hDeed : deed ∈ part.deeds)
    (stages : part.command.NamesOwnStage session.start.store) (inStep : part.start.store.InStep)
    (precedes : session.start.store.Precedes deed.before.store) (before : deed.before.store.InStep) :
    deed.after.store.InStep := by
  have hSound := isSound_of_mem_deeds (mem_deeds_of_mem_parts h hDeed)
  have hCommand := command_of_mem_deeds h hDeed
  have hDistinct := hSound.distinctJobs before.distinctJobs
  rcases hSound.jobs_cases with hJobs | ⟨id, draft, hCall, -, hIdle, hStored⟩
  · refine ⟨hDistinct, ?_, fun order' hOrder' => ?_⟩
    · refine pairwise_of_forall₂ hSound.precedes ?_ before.distinctOrders
      intro order other order' other' hOrder hOther hDiffer
      rw [hOrder.id, hOther.id]
      exact hDiffer
    · obtain ⟨order, hOrder, hStep⟩ := exists_of_forall₂_of_mem hSound.forall₂_orderStep hOrder'
      refine (before.keepsStep order hOrder).of_forall₂ hJobs hSound.snapshots hStep.precedes.id ?_
      cases hStep with
      | stays status => exact .inr ⟨status, rfl⟩
      | moves call completing =>
        have hFound := completing.found
        rw [hCommand] at hFound
        exact .inl ((departs_of_moves h hDeed call).isIdle inStep before.distinctJobs hFound)
  · have hWarrant := hSound.warrant
    rw [hCall, hCommand] at hWarrant
    cases hWarrant with
    | quiet hQuiet => cases hQuiet
    | insert launches found about project stage stands =>
      have hInserts : deed.call.inserts = true := by rw [hCall]; rfl
      have hStage := stage_eq_of_inserts h hDeed hInserts launches stages inStep precedes found
      rw [hStored] at hDistinct ⊢
      rw [stage, hStage] at stands
      rw [← about] at found
      exact before.addJob hDistinct hIdle found project (stage.trans hStage) stands

/-- Jobs and steps keep in step: if every order has at most one active job at the start of a session, one
of the step at which it stands, then this is so in every world, provided that jobs are requested for the
stage of their order. -/
theorem inStep_of_mem_worlds (start : session.start.store.InStep)
    (stages : ∀ command ∈ session.commands, command.NamesOwnStage session.start.store) :
    ∀ world ∈ session.worlds, world.store.InStep ∧
      ∀ order ∈ world.store.orders, ∀ step, StandsAt world.store order order.stage .manual step →
        world.store.IsIdle order := by
  have hHolds := holds_of_parts
    (I := fun world => session.start.store.Precedes world.store ∧ world.store.InStep)
    ⟨.refl _, start⟩ fun part hPart hStart deed hDeed hBefore => by
      have hSound := isSound_of_mem_deeds (mem_deeds_of_mem_parts hPart hDeed)
      refine ⟨hBefore.1.trans hSound.precedes, ?_⟩
      exact inStep_of_mem_deeds hPart hDeed (stages _ (command_mem_of_mem_parts hPart)) hStart.2
        hBefore.1 hBefore.2
  intro world hWorld
  obtain ⟨-, hInStep⟩ := hHolds world hWorld
  exact ⟨hInStep, fun order hOrder step hStands => (hInStep.keepsStep order hOrder).isIdle_of_manual hStands⟩

def approvalSample : Session Unit :=
  let stage : Stage := ⟨3, "production", [⟨1, 1, "build", .build, []⟩, ⟨2, 2, "approval", .manual, []⟩,
    ⟨3, 3, "deploy", .deploy, []⟩]⟩
  { sample (.abort 1 5) with
    start :=
      { store := { sampleStore with
          snapshots := [⟨1, [stage]⟩]
          jobs := [⟨9, 5, 1, 3, .build, some 77, .running, "alice", []⟩] }
        histories := []
        nextRun := 100 }
    commands := [.complete 1 5 3 .build ⟨9, .success⟩, .confirm 1 5 ⟨"bob", "go"⟩,
      .deploy 1 5 3 ⟨"bob", [⟨12⟩]⟩] }

theorem inStep_approvalSample : approvalSample.start.store.InStep where
  distinctJobs := List.pairwise_singleton _ _
  distinctOrders := List.pairwise_singleton _ _
  keepsStep order hOrder := by
    rw [List.mem_singleton.mp hOrder]
    refine ⟨List.pairwise_singleton _ _, fun job hJob _ => ?_⟩
    rw [List.mem_singleton.mp hJob]
    exact ⟨rfl, rfl, _, _, _, rfl, rfl, rfl, rfl⟩

theorem namesOwnStage_approvalSample :
    ∀ command ∈ approvalSample.commands, command.NamesOwnStage approvalSample.start.store := by
  simp [approvalSample, sample, sampleStore, Api.Command.NamesOwnStage]

theorem inStep_of_mem_approvalSample :
    approvalSample.start.store.InStep ∧
      (∀ command ∈ approvalSample.commands, command.NamesOwnStage approvalSample.start.store) ∧
      ∀ world ∈ approvalSample.worlds, world.store.InStep ∧
        ∀ order ∈ world.store.orders, ∀ step, StandsAt world.store order order.stage .manual step →
          world.store.IsIdle order :=
  ⟨inStep_approvalSample, namesOwnStage_approvalSample,
    inStep_of_mem_worlds inStep_approvalSample namesOwnStage_approvalSample⟩

/-- On its way the order waits for the confirmation, and then for the deploy. -/
example : (approvalSample.worlds.map fun world =>
    (world.store.answer (.order 5)).map Order.stepIndex).dedup = [some 1, some 2, some 3] := by
  decide +kernel

end Session

end DeliveryPipeline

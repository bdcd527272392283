import DeliveryPipeline.Proofs.Engine.Gathering
import DeliveryPipeline.Proofs.Engine.Launch
import DeliveryPipeline.Proofs.Engine.Warrant

/-! # Every call of a command has a warrant

A launch and a completion are the two parts that commands share; the rest of each command is read off
its operation, call by call.
-/

namespace DeliveryPipeline

set_option autoImplicit false

open Api (Command)
open Operation Engine

variable {engine : Engine} {command : Command} {past : List Exchange} {world : World}

theorem Api.Command.stageAt_congr {order order' : Order} (h : order'.stage = order.stage) :
    command.stageAt order' = command.stageAt order := by
  cases command <;> first | rfl | exact h

/-- The command acts on its order in the given stage, as long as the order stays in its own. -/
def Api.Command.ActsIn (command : Command) (store : Store) (stage : Int64) : Prop :=
  ∀ order, store.answer (.order command.order) = some order → command.stageAt order = stage

theorem isFresh_addJob {store : Store} {id : Int64} {draft : JobDraft}
    (above : ∀ job ∈ store.jobs, job.id < id) (order : Int64) :
    IsFresh ((store.addJob (Job.ofDraft id draft)).changeOrder order Order.started)
      (Job.ofDraft id draft) where
  mem := List.mem_append_right _ (List.mem_singleton.mpr rfl)
  status := rfl
  run := rfl
  only := by
    intro other hOther hId
    rcases List.mem_append.mp hOther with hOther | hOther
    · have hBelow : other.id < other.id := hId ▸ above other hOther
      exact absurd hBelow Int64.lt_irrefl
    · exact List.mem_singleton.mp hOther

theorem isWarranted_launch {order : Order} {server : CiServer} {draft : JobDraft}
    {planFor : Int64 → Plan} {step : Step} (launches : command.launches = true)
    (found : world.store.answer (.order command.order) = some order)
    (about : draft.order = command.order) (project : draft.project = order.project)
    (stage : draft.stage = command.stageAt order)
    (stands : StandsAt world.store order draft.stage (stepKindOf draft.kind) step)
    (reports : ∀ id, engine.ReportsOn (planFor id) (Job.ofDraft id draft)) :
    IsWarranted engine command (launch engine order server draft planFor) past world := by
  refine meets_launch (about ▸ found) (.insert launches found about project stage stands)
    (fun _ _ => trivial) ?start ?submit
  case start =>
    intro id here above status stored
    refine ⟨?_, fun _ => trivial⟩
    rw [about]
    have hFound : here.store.answer (.order command.order) = some order := by
      rw [stored]
      exact found
    exact .start hFound status
  case submit =>
    intro id between here above _ stored
    have hFresh : IsFresh _ (Job.ofDraft id draft) := isFresh_addJob above draft.order
    rw [← stored] at hFresh
    refine ⟨.submit hFresh about (reports id), fun _ => trivial, ?_, fun _ _ _ _ => trivial,
      fun _ _ _ => trivial⟩
    intro run after same
    rw [← same] at hFresh
    exact .startJob hFresh about (reports id) (List.mem_append_right _ (List.mem_singleton.mpr rfl))

theorem isWarranted_build (command : Command) (project stage : Int64) (request : BuildRequest)
    (launches : command.launches = true) (acts : command.ActsIn world.store stage) :
    IsWarranted engine command (build engine project command.order stage request) past world := by
  apply (comesTo_build request).meets
  · intro c own _ hQuiet
    exact .quiet hQuiet
  · intro e own _
    trivial
  · rintro _ own - ⟨building, ⟨hStored, -⟩, rfl⟩
    exact isWarranted_launch launches hStored.order rfl hStored.owned.symm (acts _ hStored.order).symm
      hStored.step fun id => ⟨building.token, rfl⟩

theorem isWarranted_deploy (command : Command) (project stage : Int64) (request : DeployRequest)
    (launches : command.launches = true) (acts : command.ActsIn world.store stage) :
    IsWarranted engine command (deploy engine project command.order stage request) past world := by
  apply (comesTo_deploy request).meets
  · intro c own _ hQuiet
    exact .quiet hQuiet
  · intro e own _
    trivial
  · rintro _ own - ⟨deployment, hStored, rfl⟩
    have hOrder := hStored.order
    have hStep := hStored.step
    have hStage : stage = command.stageAt deployment.order := (acts _ hOrder).symm
    refine isWarranted_errand_bind (.apply hOrder hStored.owned.symm hStage) fun _ after hStore => ?_
    rw [← hStore] at hOrder hStep
    exact isWarranted_launch launches hOrder rfl hStored.owned.symm hStage hStep
      fun id => ⟨deployment.token, rfl⟩

theorem isWarranted_launchNext {order : Order} {stage : Int64} {step : Step} {creator : String}
    (launches : command.launches = true) (about : order.id = command.order)
    (acts : command.ActsIn world.store stage) :
    IsWarranted engine command (launchNext engine order stage step creator) past world := by
  unfold launchNext
  split
  · exact isWarranted_pure
  · rename_i kind _
    refine IsWarranted.bind (IsWarranted.attempt ?_) fun launched past world => ?_
    · refine reads_lookup.isWarranted_bind fun apps past _ => ?_
      cases kind with
      | build => rw [about]; exact isWarranted_build command order.project stage _ launches acts
      | deploy => rw [about]; exact isWarranted_deploy command order.project stage _ launches acts
    · cases launched with
      | ok launch => exact isWarranted_pure
      | error e => exact isWarranted_pure

theorem isWarranted_finishStage {order : Order} {snapshot : Snapshot} {stage : Stage}
    (completing : Completing command world.store order snapshot stage)
    (lastStep : stage.isLastIndex order.stepIndex = true) :
    IsWarranted engine command (finishStage order snapshot (command.stageAt order)) past world := by
  have hId : order.id = command.order := (Store.mem_of_answer_order completing.found).2
  unfold finishStage
  rw [hId]
  split
  · rename_i hLast
    exact isWarranted_update_bind rfl (by simp) (.finish completing lastStep hLast) isWarranted_pure
  · rename_i hLast
    have hLast : snapshot.isLastStage (command.stageAt order) = false := by simpa using hLast
    split
    · exact isWarranted_update_bind rfl (by simp) (.rest completing lastStep hLast) isWarranted_pure
    · exact isWarranted_pure

theorem actsIn_moveOrder {store : Store} {stage : Int64} {index : Int32} {step kind : String}
    {status : OrderStatus} (acts : command.ActsIn store stage) :
    command.ActsIn (store.update (.moveOrder command.order index step kind status)).2 stage := by
  intro moved hMoved
  have hAnswer := store.answer_changeOrder command.order
    (fun order => if index < order.stepIndex then order else
      { order with stepIndex := index, step := step, stepType := kind, status := status })
    (fun order => by split <;> rfl)
  obtain ⟨order, hOrder, rfl⟩ := Option.map_eq_some_iff.mp (hAnswer.symm.trans hMoved)
  rw [← acts order hOrder]
  refine Api.Command.stageAt_congr ?_
  split <;> rfl

theorem isWarranted_advance (command : Command) {order : Order} {creator : String}
    (completes : command.completes = true)
    (found : world.store.answer (.order command.order) = some order)
    (allowed : order.status.allows .advance = true) :
    IsWarranted engine command (advance engine order (command.stageAt order) creator) past world := by
  have hId : order.id = command.order := (Store.mem_of_answer_order found).2
  unfold advance
  refine (reads_findSnapshot order).isWarranted_bind fun snapshot past hSnapshot => ?_
  refine (reads_stageOf snapshot (command.stageAt order)).isWarranted_bind fun stage past hStage => ?_
  have completing : Completing command world.store order snapshot stage :=
    ⟨completes, found, allowed, hSnapshot, hStage⟩
  split
  · rename_i hLast
    exact isWarranted_finishStage completing hLast
  · rename_i hLast
    have hLast : stage.isLastIndex order.stepIndex = false := by simpa using hLast
    refine (reads_nextStep stage order).isWarranted_bind fun next past hNext => ?_
    rw [hId]
    refine isWarranted_update_bind rfl (by simp) (.move completing hLast hNext) ?_
    -- the launch looks the order up again, now that it has been moved
    have hStageId : stage.id = command.stageAt order := (mem_of_find? hStage).2
    have acts : command.ActsIn world.store stage.id := by
      intro other hOther
      rw [hStageId, Option.some.inj (hOther.symm.trans found)]
    refine IsWarranted.bind ?_ fun _ _ _ => isWarranted_pure
    exact isWarranted_launchNext (Api.Command.launches_of_completes completes) hId (actsIn_moveOrder acts)

theorem isWarranted_complete (project order stage : Int64) (kind : JobKind) (report : Callback) :
    IsWarranted engine (.complete project order stage kind report)
      (complete engine project order stage kind report) past world := by
  unfold complete
  refine reads_lookup.isWarranted_bind fun answer past hAnswer => ?_
  refine reads_require.isWarranted_bind fun job past hFiltered => ?_
  obtain ⟨hFound, hPlace⟩ := Option.filter_eq_some_iff.mp hFiltered
  have hJob := eq_some_of_answer hAnswer hFound
  refine (reads_findOrder order).isWarranted_bind fun found past hOrder => ?_
  split
  · exact isWarranted_pure
  · rename_i hActive
    have hActive : job.isActive = true := by simpa using hActive
    refine isWarranted_update_bind rfl (by simp) (.settle rfl hJob hPlace hActive) ?_
    split
    · exact isWarranted_pure
    · rename_i hAllowed
      have hAllowed : found.status.allows .advance = true := by simpa using hAllowed
      split
      · rename_i hOutcome
        exact isWarranted_update_bind rfl (by simp) (.fail rfl hOutcome hOrder hAllowed) isWarranted_pure
      · rename_i hOutcome
        refine isWarranted_advance (.complete project order stage kind report) ?_ hOrder hAllowed
        simp [Api.Command.completes, hOutcome]

theorem isWarranted_addConfirmation_bind {β : Type} {draft : ConfirmationDraft} {f : Int64 → Operation β}
    (warrant : Warrant engine command past world.store (.update (.addConfirmation draft)))
    (rest : ∀ id past confirmations, IsWarranted engine command (f id) past
      { world with store := { world.store with confirmations := confirmations } }) :
    IsWarranted engine command (update (.addConfirmation draft) >>= f) past world :=
  meets_bind.mpr (meets_addConfirmation warrant (fun id past _ => rest id past _) fun _ _ => trivial)

theorem isWarranted_confirm (project order : Int64) (request : ConfirmRequest) :
    IsWarranted engine (.confirm project order request) (Engine.confirm engine project order request)
      past world := by
  unfold Engine.confirm
  refine (reads_findOrderOf project order).isWarranted_bind fun found past ⟨hOrder, _⟩ => ?_
  refine (reads_ensureAllowed found .advance).isWarranted_bind fun _ past hAllowed => ?_
  refine (reads_findSnapshot found).isWarranted_bind fun snapshot past _ => ?_
  refine (reads_stageOf snapshot found.stage).isWarranted_bind fun stage past _ => ?_
  refine (reads_currentStep stage found).isWarranted_bind fun step past _ => ?_
  refine reads_ensure.isWarranted_bind fun _ past _ => ?_
  refine isWarranted_addConfirmation_bind (.confirm rfl hOrder hAllowed rfl)
    fun _ past confirmations => ?_
  exact isWarranted_advance (.confirm project order request) rfl hOrder hAllowed

theorem isWarranted_terminate (project order stage : Int64) (request : TerminateRequest) :
    IsWarranted engine (.terminate project order stage request)
      (terminate engine project order stage request.kind) past world := by
  unfold terminate
  refine (reads_findOrder order).isWarranted_bind fun found past hOrder => ?_
  refine (reads_ensureAllowed found .terminate).isWarranted_bind fun _ past hAllowed => ?_
  refine (reads_attempt (reads_findCancelTarget engine project order stage request.kind)).isWarranted_bind
    fun target past hTarget => ?_
  cases target with
  | error e =>
    refine isWarranted_update_bind rfl (by simp) ?_ isWarranted_throw
    exact .terminate rfl hOrder hAllowed (.inr rfl)
  | ok target =>
    obtain ⟨job, hJob, hId, hRun, hName⟩ := hTarget target rfl
    dsimp only
    rw [hName, ← hId]
    refine isWarranted_update_bind rfl (by simp) (.terminate rfl hOrder hAllowed (.inl rfl)) ?_
    refine isWarranted_errand_bind (.cancel rfl hJob hRun) fun _ after hStore => ?_
    refine isWarranted_update rfl (by simp) (.abandon rfl ?_)
    rw [hStore]
    exact hJob

theorem isWarranted_abort (project order : Int64) :
    IsWarranted engine (.abort project order) (abort project order) past world := by
  unfold abort
  refine (reads_findOrderOf project order).isWarranted_bind fun found past ⟨hOrder, _⟩ => ?_
  refine (reads_ensureAllowed found .abort).isWarranted_bind fun _ past hAllowed => ?_
  refine isWarranted_update_bind rfl (by simp) (.abort rfl hOrder hAllowed) ?_
  refine reads_lookup.isWarranted_bind fun latest past hLatest => ?_
  cases latest with
  | none => exact isWarranted_pure
  | some job =>
    have hJob := eq_some_of_answer hLatest rfl
    dsimp only
    by_cases hActive : job.isActive = true
    · rw [if_pos hActive]
      exact isWarranted_update rfl (by simp) (.abortJob rfl hJob hActive)
    · rw [if_neg hActive]
      exact isWarranted_pure

theorem isWarranted_operation (engine : Engine) (command : Command) (past : List Exchange)
    (world : World) : IsWarranted engine command (command.operation engine) past world := by
  cases command with
  | build project order stage request =>
    exact isWarranted_build (.build project order stage request) project stage request rfl
      fun _ _ => rfl
  | deploy project order stage request =>
    exact isWarranted_deploy (.deploy project order stage request) project stage request rfl
      fun _ _ => rfl
  | terminate project order stage request => exact isWarranted_terminate project order stage request
  | abort project order => exact isWarranted_abort project order
  | complete project order stage kind report =>
    exact isWarranted_complete project order stage kind report
  | confirm project order request => exact isWarranted_confirm project order request
  | branches project order stage => exact (reads_branches project order stage).isWarranted
  | history order => exact (reads_history order).isWarranted
  | stepType order index => exact (reads_stepType order index).isWarranted
  | lastStep order stage => exact (reads_lastStep order stage).isWarranted
  | images order => exact (reads_images order).isWarranted

end DeliveryPipeline

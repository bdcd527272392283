import DeliveryPipeline.Proofs.Engine.Report
import DeliveryPipeline.Proofs.Interleaving.Basic
import DeliveryPipeline.Proofs.Program.Hearing

/-! # What inspections tell of a completion

Before a job succeeds, the check of the last step tells what the report will make of the order: whether the
stage ends, and with it the order, or whether the order moves. Of the step to which it moves, the inspection
of steps tells what is going to be stored, before the report and after it.
-/

namespace DeliveryPipeline

set_option autoImplicit false

open Operation

namespace Engine

variable {engine : Engine} {world : World} {order : Order} {snapshot : Snapshot} {stage : Stage}
  {project orderId stageId : Int64} {kind : JobKind} {report : Callback} {job : Job}

theorem yields_stepType {step : Step} {index : Int32} (found : world.store.answer (.order orderId) = some order)
    (follows : world.store.answer (.snapshot order.snapshot) = some snapshot)
    (acts : snapshot.stage? order.stage = some stage) (declared : stage.step? index = some step) :
    (stepType orderId index).Yields (fun result _ => result = .ok ⟨Named.name step.kind, step.name⟩)
      world := by
  unfold stepType findOrder findSnapshot
  exact yields_find_some found (yields_find_some follows (yields_require_some acts
    (yields_require_some declared rfl)))

section Report

variable (addressed : world.store.Addresses project orderId stageId kind report.job job order)
  (active : job.isActive = true) (allowed : order.status.allows .advance = true)
  (success : report.outcome = .success)
  (follows : world.store.answer (.snapshot order.snapshot) = some snapshot)
  (acts : snapshot.stage? stageId = some stage)
include addressed active allowed success follows acts

theorem yields_complete_in :
    (complete engine project orderId stageId kind report).Yields (fun result after =>
        (∃ progress, result = .ok progress ∧
          Advanced (world.store.settle report.job .success) snapshot stage order progress after.store) ∨
        (stage.isLastIndex order.stepIndex = false ∧ ∃ e, result = .error e)) world := by
  have hOrder := Store.answer_order_self addressed.order
  have hId : job.id = report.job := (mem_of_find? addressed.job).2
  refine yields_complete_of_addressed addressed ?_
  rw [active, allowed, success, hId]
  refine yields_update_bind rfl ?_
  have hAdvance : (advance engine order stageId job.creator).Yields _
      { world with store := world.store.settle report.job .success } :=
    yields_advance_in job.creator hOrder follows acts
  refine Program.Yields.mono hAdvance ?_
  rintro result after (hAdvanced | ⟨hInside, -, hError, -⟩)
  · exact .inl hAdvanced
  · exact .inr ⟨hInside, _, hError⟩

theorem yields_complete_of_last (last : stage.isLastIndex order.stepIndex = true) :
    (complete engine project orderId stageId kind report).Yields (fun result after =>
        result = .ok ⟨.success, snapshot.statusAfter stageId, order.stepIndex, none⟩ ∧
        after.store.answer (.order order.id) =
          some { order with status := snapshot.statusAfter stageId }) world := by
  have hStageId : stage.id = stageId := (mem_of_find? acts).2
  refine Program.Yields.mono (yields_complete_in addressed active allowed success follows acts) ?_
  rintro result after (⟨progress, rfl, hAdvanced⟩ | ⟨hInside, -⟩)
  · obtain ⟨rfl, hStored⟩ := hAdvanced.of_last (Store.answer_order_self addressed.order) last
    rw [hStageId] at hStored ⊢
    exact ⟨rfl, hStored⟩
  · cases hInside.symm.trans last

theorem yields_complete_of_inside (inside : stage.isLastIndex order.stepIndex = false) :
    (complete engine project orderId stageId kind report).Yields (fun result after =>
        ∀ progress, result = .ok progress → ∃ next,
          (stage.nextIndex? order.stepIndex).bind stage.step? = some next ∧
          progress.stepIndex = next.index ∧
          after.store.answer (.order order.id) = some (order.movedTo next) ∧
          after.store.answer (.snapshot order.snapshot) = some snapshot) world := by
  refine Program.Yields.mono (yields_complete_in addressed active allowed success follows acts) ?_
  rintro result after (⟨progress, rfl, hAdvanced⟩ | ⟨-, e, rfl⟩) progress' hSame
  · cases hSame
    have hOrder := Store.answer_order_self addressed.order
    obtain ⟨next, hNext, hIndex, hStored, hGain⟩ := hAdvanced.of_inside hOrder inside
    refine ⟨next, hNext, hIndex, hStored, ?_⟩
    rw [← follows]
    exact congrArg (List.find? _) hGain.snapshots
  · cases hSame

end Report

/-- What the check of the last step has told before the job of an order succeeds: at the last step the order
does not move, and it succeeds if the stage is the last one and runs if it is not; elsewhere it moves ahead,
unless the report fails. If the stage is that of the order, the inspection of the step to which it moves tells
the kind and the name that are stored. -/
theorem forecast_of_complete {ρ σ τ : Type} {glance : Rule ρ} {rule : Rule σ} {look : Rule τ} {before : ρ}
    {state : σ} (engine : Engine) (spares : rule.SparesStore) (spares' : look.SparesStore)
    (distinctOrders : world.store.DistinctOrders) (distinctJobs : world.store.DistinctJobs)
    (stored : order ∈ world.store.orders) (running : order.status = .init ∨ order.status = .running)
    (storedJob : job ∈ world.store.jobs) (about : job.order = order.id) (active : job.isActive = true)
    {check : LastStepCheck}
    (inspected : ((lastStep order.id job.stage).run.run glance world before).value = .ok check) :
    let run := (complete engine job.project order.id job.stage job.kind ⟨job.id, .success⟩).run.run rule world
      state
    let ended : OrderStatus := if check.lastStage then .success else .running
    (check.lastStep = true → run.value = .ok ⟨.success, ended, order.stepIndex, none⟩ ∧
        run.world.store.answer (.order order.id) = some { order with status := ended }) ∧
      (check.lastStep = false → ∀ progress, run.value = .ok progress → ∃ moved,
        run.world.store.answer (.order order.id) = some moved ∧ moved.status = .running ∧
        moved.stepIndex = progress.stepIndex ∧ order.stepIndex < moved.stepIndex ∧
        (job.stage = order.stage → ∀ here, here = world ∨ here = run.world → ∀ told : τ,
          ((stepType order.id moved.stepIndex).run.run look here told).value =
            .ok ⟨moved.stepType, moved.step⟩)) := by
  intro run ended
  have hFound := distinctOrders.answer_order stored
  obtain ⟨found, snapshot, stage, hSame, hSnapshot, hStage, rfl⟩ :=
    (reads_lastStep order.id job.stage).of_run inspected
  obtain rfl := Option.some.inj (hSame.symm.trans hFound)
  have hAddressed : world.store.Addresses job.project found.id job.stage job.kind job.id job found :=
    ⟨Job.isAt_iff.mpr ⟨about, rfl, rfl, rfl⟩, distinctJobs.answer_job storedJob, hFound⟩
  have hAllowed := OrderStatus.allows_advance_iff.mpr running
  constructor
  · intro hLast
    have hEnds : (complete engine job.project found.id job.stage job.kind ⟨job.id, .success⟩).Yields _ world :=
      yields_complete_of_last hAddressed active hAllowed rfl hSnapshot hStage hLast
    exact hEnds.ends_run spares state
  · intro hInside progress hProgress
    have hMoves : (complete engine job.project found.id job.stage job.kind ⟨job.id, .success⟩).Yields _ world :=
      yields_complete_of_inside hAddressed active hAllowed rfl hSnapshot hStage hInside
    obtain ⟨next, hNext, hIndex, hStored, hKept⟩ := hMoves.ends_run spares state progress hProgress
    obtain ⟨hAhead, -, hDeclared⟩ := Stage.next_of_follows hNext
    refine ⟨found.movedTo next, hStored, rfl, hIndex.symm, hAhead, fun hOwn here hHere told => ?_⟩
    rw [hOwn] at hStage
    rcases hHere with rfl | rfl
    · exact (yields_stepType hFound hSnapshot hStage hDeclared).ends_run spares' told
    · exact (yields_stepType hStored hKept hStage hDeclared).ends_run spares' told

def building : World where
  store :=
    { Interleaving.sampleStore with
      snapshots := [⟨1, [⟨3, "production", [⟨1, 1, "build", .build, []⟩, ⟨2, 2, "approval", .manual, []⟩]⟩]⟩]
      jobs := [⟨9, 5, 1, 3, .build, some 77, .running, "alice", []⟩] }
  histories := []
  nextRun := 100

theorem forecast_of_complete_in_building :
    let run := (complete (.ofServer "http://conveyor.local") 1 5 3 .build ⟨9, .success⟩).run.run
      Rule.undisturbed building ()
    ((lastStep 5 3).run.run Rule.undisturbed building ()).value = .ok ⟨true, false⟩ ∧
      run.value = .ok ⟨.success, .running, 2, none⟩ ∧
      ∃ moved, run.world.store.answer (.order 5) = some moved ∧ moved.stepIndex = 2 ∧
        ((stepType 5 moved.stepIndex).run.run Rule.undisturbed building ()).value =
          .ok ⟨moved.stepType, moved.step⟩ := by
  intro run
  let order : Order := ⟨5, 1, "v1.2.0", "spring release", 3, 1, "build", "build", .running, "alice", 1⟩
  let job : Job := ⟨9, 5, 1, 3, .build, some 77, .running, "alice", []⟩
  have hInspected : ((lastStep 5 3).run.run Rule.undisturbed building ()).value = .ok ⟨true, false⟩ := by
    decide +kernel
  have hProgress : run.value = .ok ⟨.success, .running, 2, none⟩ := by decide +kernel
  have hOrder : order ∈ building.store.orders := List.mem_singleton.mpr rfl
  have hJob : job ∈ building.store.jobs := List.mem_singleton.mpr rfl
  have hOrders : building.store.DistinctOrders := List.pairwise_singleton _ _
  have hJobs : building.store.DistinctJobs := List.pairwise_singleton _ _
  obtain ⟨-, hMoves⟩ := forecast_of_complete (.ofServer "http://conveyor.local")
    Rule.sparesStore_undisturbed Rule.sparesStore_undisturbed hOrders hJobs hOrder (.inr rfl) hJob rfl rfl
    hInspected
  obtain ⟨moved, hMoved, -, hIndex, -, hStep⟩ := hMoves rfl _ hProgress
  exact ⟨hInspected, hProgress, moved, hMoved, hIndex, hStep rfl building (.inl rfl) ()⟩

end Engine

end DeliveryPipeline

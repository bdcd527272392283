import DeliveryPipeline.Proofs.Engine.Report
import DeliveryPipeline.Proofs.Interleaving.Basic

/-! # The end of a stage

Whether a stage ends with a step is told by its place in the declaration, and which step comes next by the
indices. If the two disagree at the step that is completed, the order is stuck there, or the stage ends while
a step above has been left out. They agree at every declared step exactly if the last one has the greatest
index.
-/

namespace DeliveryPipeline

set_option autoImplicit false

open Operation

/-- The step with the index is completed at the wrong end: it is refused because no step comes next, or the
order stays at it although a step above it is declared. -/
def Stage.Misleads (stage : Stage) (index : Int32) (result : Except EngineError Progress) : Prop :=
  result = .error (.invalid (.noStepAfter stage.name index)) ∨
    ∃ progress, result = .ok progress ∧ progress.stepIndex = index ∧
      ∃ step ∈ stage.steps, index < step.index

theorem Stage.exists_above_iff {stage : Stage} {index : Int32} :
    (∃ step ∈ stage.steps, index < step.index) ↔ stage.nextIndex? index ≠ none := by
  simp [Stage.nextIndex?_eq_none_iff, Int32.not_le]

namespace Engine

variable {engine : Engine} {world : World} {order : Order} {snapshot : Snapshot} {stage : Stage}
  {stageId : Int64}

theorem Advanced.not_misleads {before after : Store} {progress : Progress}
    (h : Advanced before snapshot stage order progress after)
    (alike : stage.EndsAlikeAt order.stepIndex) : ¬ stage.Misleads order.stepIndex (.ok progress) := by
  rintro (hError | ⟨_, hSame, hStays, hAbove⟩)
  · cases hError
  cases hSame
  cases h with
  | ended last => exact Stage.exists_above_iff.mp hAbove (alike.mp last)
  | moved _ leads =>
    have hAhead := (Stage.next_of_follows leads).1
    exact absurd hStays (Int32.ne_of_lt hAhead).symm

theorem Advanced.misleads {before after : Store} {progress : Progress}
    (h : Advanced before snapshot stage order progress after)
    (unlike : ¬ stage.EndsAlikeAt order.stepIndex) : stage.Misleads order.stepIndex (.ok progress) := by
  cases h with
  | ended last =>
    refine .inr ⟨_, rfl, rfl, Stage.exists_above_iff.mpr fun hNone => unlike ?_⟩
    exact iff_of_true last hNone
  | moved inside leads =>
    refine absurd (iff_of_false ?_ fun hNone => ?_) unlike
    · rw [inside]
      exact Bool.false_ne_true
    · rw [hNone] at leads
      cases leads

theorem Stalls.not_misleads {before : Store} {e : EngineError} (h : Stalls before stageId order e)
    (follows : before.answer (.snapshot order.snapshot) = some snapshot)
    (acts : snapshot.stage? stageId = some stage) (alike : stage.EndsAlikeAt order.stepIndex) :
    ¬ stage.Misleads order.stepIndex (.error e) := by
  rintro (hError | ⟨_, hSame, -⟩)
  · cases h with
    | storage | absent => cases hError
    | stuck hSnapshot hStage inside none =>
      obtain rfl := Option.some.inj (hSnapshot.symm.trans follows)
      obtain rfl := Option.some.inj (hStage.symm.trans acts)
      cases inside.symm.trans (alike.mpr none)
  · cases hSame

/-- The two ways to tell the last step agree at all declared steps exactly if the step that is declared last
has the greatest index. Where they agree, no disturbance makes a completion end wrongly; where they do not,
it does so whenever the store works. -/
theorem misleads_of_advance {σ : Type} (engine : Engine) (creator : String) (rule : Rule σ) (state : σ)
    (found : world.store.answer (.order order.id) = some order)
    (follows : world.store.answer (.snapshot order.snapshot) = some snapshot)
    (acts : snapshot.stage? stageId = some stage) :
    let result := ((advance engine order stageId creator).run.run rule world state).value
    ((∀ step ∈ stage.steps, stage.EndsAlikeAt step.index) ↔ stage.EndsHighest) ∧
      (stage.EndsAlikeAt order.stepIndex → ¬ stage.Misleads order.stepIndex result) ∧
      (rule.SparesStore → ¬ stage.EndsAlikeAt order.stepIndex →
        stage.Misleads order.stepIndex result) := by
  intro result
  refine ⟨Stage.endsAlikeAt_iff_endsHighest, fun hAlike => ?_, fun hSpares hUnlike => ?_⟩
  · have hMeets : (advance engine order stageId creator).Meets _ _ _ [] world :=
      meets_advance stageId creator found
    cases hResult : result with
    | ok progress =>
      obtain ⟨snapshot', stage', hSnapshot, hStage, hAdvanced⟩ := hMeets.ends_of_ok hResult
      obtain rfl := Option.some.inj (hSnapshot.symm.trans follows)
      obtain rfl := Option.some.inj (hStage.symm.trans acts)
      exact hAdvanced.not_misleads hAlike
    | error e =>
      exact (hMeets.fails_of_error hResult).1.not_misleads follows acts hAlike
  · have hYields : (advance engine order stageId creator).Yields _ world :=
      yields_advance_in creator found follows acts
    rcases hYields.ends_run hSpares state with ⟨progress, hResult, hAdvanced⟩ | ⟨-, -, hResult, -⟩
    · rw [show result = _ from hResult]
      exact hAdvanced.misleads hUnlike
    · exact .inl hResult

def reversedStage : Stage :=
  ⟨3, "production", [⟨2, 2, "approval", .manual, []⟩, ⟨1, 1, "build", .build, []⟩]⟩

def reversed : World where
  store :=
    { Interleaving.sampleStore with
      snapshots := [⟨1, [reversedStage]⟩]
      jobs := [⟨9, 5, 1, 3, .build, some 77, .running, "alice", []⟩] }
  histories := []
  nextRun := 100

/-- The order succeeds before its step that waits for an approval. -/
theorem succeeded_without_approval :
    reversedStage.steps.Pairwise (fun step other => step.index ≠ other.index) ∧
      reversedStage.isLastIndex 1 = true ∧ reversedStage.nextIndex? 1 = some 2 ∧
      let run := (complete (.ofServer "http://conveyor.local") 1 5 3 .build ⟨9, .success⟩).run.run
        Rule.undisturbed reversed ()
      run.value = .ok ⟨.success, .success, 1, none⟩ ∧
        (run.world.store.answer (.order 5)).map (fun order => (order.status, order.stepIndex)) =
          some (.success, 1) := by
  decide +kernel

theorem misleads_of_advance_in_reversed :
    let order : Order := ⟨5, 1, "v1.2.0", "spring release", 3, 1, "build", "build", .running, "alice", 1⟩
    let result := ((advance (.ofServer "http://conveyor.local") order 3 "alice").run.run Rule.undisturbed
      reversed ()).value
    ¬ reversedStage.EndsAlikeAt 1 ∧ reversedStage.Misleads 1 result := by
  intro order result
  have hUnlike : ¬ reversedStage.EndsAlikeAt 1 := by decide +kernel
  have hFound : reversed.store.answer (.order order.id) = some order := rfl
  have hFollows : reversed.store.answer (.snapshot order.snapshot) = some ⟨1, [reversedStage]⟩ := rfl
  have hActs : (⟨1, [reversedStage]⟩ : Snapshot).stage? 3 = some reversedStage := rfl
  obtain ⟨-, -, hMisleads⟩ := misleads_of_advance (.ofServer "http://conveyor.local") "alice"
    Rule.undisturbed () hFound hFollows hActs
  exact ⟨hUnlike, hMisleads Rule.sparesStore_undisturbed hUnlike⟩

end Engine

end DeliveryPipeline

import DeliveryPipeline.Proofs.Store
import DeliveryPipeline.Snapshot

/-! # The way through a stage

Which step is the last one of a stage is told by its place in the declaration, and which step comes next
by the indices alone. Where the indices ascend, the two fit together: the step that comes next is the one
that is declared next, and none comes next at the last one. That none comes next exactly at the last one
only takes a last step with the greatest index.
-/

namespace DeliveryPipeline

set_option autoImplicit false

theorem exists_getLast?_of_cons_cons {α : Type} {declared before rest : List α} {a next : α}
    (split : declared = before ++ a :: next :: rest) :
    ∃ last ∈ next :: rest, declared.getLast? = some last := by
  refine ⟨(next :: rest).getLast (List.cons_ne_nil _ _), List.getLast_mem _, ?_⟩
  rw [split]
  simp [List.getLast?_eq_some_getLast]

namespace Stage

variable {stage : Stage} {before rest : List Step} {current next : Step}

def Ascends (stage : Stage) : Prop := stage.steps.Pairwise fun step later => step.index < later.index

theorem isLastIndex_of_last (declared : stage.steps = before ++ [current]) :
    stage.isLastIndex current.index = true := by
  simp [isLastIndex, lastIndex?, declared]

namespace Ascends

theorem index_lt_iff (h : stage.Ascends) (declared : stage.steps = before ++ current :: rest)
    {step : Step} (mem : step ∈ stage.steps) : current.index < step.index ↔ step ∈ rest := by
  rw [Ascends, declared] at h
  obtain ⟨-, hRest, hBefore⟩ := List.pairwise_append.mp h
  obtain ⟨hLater, -⟩ := List.pairwise_cons.mp hRest
  constructor
  · intro hAbove
    rw [declared] at mem
    rcases List.mem_append.mp mem with hEarlier | hMem
    · exact absurd hAbove (Int32.lt_asymm (hBefore step hEarlier current List.mem_cons_self))
    rcases List.mem_cons.mp hMem with rfl | hMem
    · exact (Int32.lt_irrefl hAbove).elim
    · exact hMem
  · exact hLater step

theorem isLastIndex_of_next (h : stage.Ascends)
    (declared : stage.steps = before ++ current :: next :: rest) :
    stage.isLastIndex current.index = false := by
  obtain ⟨last, hLater, hLast⟩ := exists_getLast?_of_cons_cons declared
  have hAbove := (h.index_lt_iff declared (List.mem_of_getLast? hLast)).mpr hLater
  simp only [isLastIndex, lastIndex?, hLast, Option.map_some, Option.some.injEq, decide_eq_false_iff_not]
  exact (Int32.ne_of_lt hAbove).symm

theorem nextIndex?_eq (h : stage.Ascends) (declared : stage.steps = before ++ current :: next :: rest) :
    stage.nextIndex? current.index = some next.index := by
  have hNext : next ∈ stage.steps := by simp [declared]
  have hSplit : stage.steps = (before ++ [current]) ++ next :: rest := by simp [declared]
  refine List.min?_eq_some_iff.mpr ⟨?_, fun index hIndex => ?_⟩
  · have hAbove := (h.index_lt_iff declared hNext).mpr List.mem_cons_self
    exact List.mem_filter.mpr ⟨List.mem_map_of_mem hNext, decide_eq_true hAbove⟩
  · obtain ⟨hMem, hAbove⟩ := List.mem_filter.mp hIndex
    obtain ⟨step, hStep, rfl⟩ := List.mem_map.mp hMem
    -- what lies above the current step is declared after it, and so is the next one or lies above that
    have hLater := (h.index_lt_iff declared hStep).mp (of_decide_eq_true hAbove)
    rcases List.mem_cons.mp hLater with rfl | hRest
    · exact Int32.le_refl _
    · exact Int32.le_of_lt ((h.index_lt_iff hSplit hStep).mpr hRest)

theorem step?_eq (h : stage.Ascends) (declared : stage.steps = before ++ current :: rest) :
    stage.step? current.index = some current := by
  rw [Ascends, declared] at h
  obtain ⟨-, -, hBefore⟩ := List.pairwise_append.mp h
  refine List.find?_eq_some_iff_append.mpr ⟨decide_eq_true rfl, before, rest, declared, ?_⟩
  intro step hStep
  have hBelow := hBefore step hStep current List.mem_cons_self
  simpa using Int32.ne_of_lt hBelow

theorem next_eq (h : stage.Ascends) (declared : stage.steps = before ++ current :: next :: rest) :
    (stage.nextIndex? current.index).bind stage.step? = some next := by
  have hSplit : stage.steps = (before ++ [current]) ++ next :: rest := by simp [declared]
  rw [h.nextIndex?_eq declared]
  exact h.step?_eq hSplit

end Ascends

variable {index : Int32}

theorem isLastIndex_iff :
    stage.isLastIndex index = true ↔ ∃ last, stage.steps.getLast? = some last ∧ last.index = index := by
  simp [isLastIndex, lastIndex?]

theorem nextIndex?_eq_none_iff :
    stage.nextIndex? index = none ↔ ∀ step ∈ stage.steps, step.index ≤ index := by
  simp [nextIndex?, List.min?_eq_none_iff, List.filter_eq_nil_iff, Int32.not_lt]

theorem next_of_follows (follows : (stage.nextIndex? index).bind stage.step? = some next) :
    index < next.index ∧ (∀ step ∈ stage.steps, index < step.index → next.index ≤ step.index) ∧
      stage.step? next.index = some next := by
  obtain ⟨least, hLeast, hStep⟩ := Option.bind_eq_some_iff.mp follows
  have hIndex : next.index = least := by simpa [step?] using List.find?_some hStep
  obtain ⟨hMem, hLe⟩ := List.min?_eq_some_iff.mp hLeast
  subst hIndex
  simp only [List.mem_filter, List.mem_map, decide_eq_true_eq] at hMem hLe
  exact ⟨hMem.2, fun step hDeclared hAbove => hLe _ ⟨⟨step, hDeclared, rfl⟩, hAbove⟩, hStep⟩

theorem next_eq_none_iff :
    (stage.nextIndex? index).bind stage.step? = none ↔ stage.nextIndex? index = none := by
  constructor
  · intro hNone
    cases hNext : stage.nextIndex? index with
    | none => rfl
    | some least =>
      obtain ⟨hMem, -⟩ := List.min?_eq_some_iff.mp hNext
      obtain ⟨step, hStep, rfl⟩ := List.mem_map.mp (List.mem_filter.mp hMem).1
      rw [hNext] at hNone
      have hOther := List.find?_eq_none.mp hNone step hStep
      simp at hOther
  · intro hNone
    rw [hNone]
    rfl

/-- The step with the index is the one that is declared last exactly if no step comes next. -/
def EndsAlikeAt (stage : Stage) (index : Int32) : Prop :=
  stage.isLastIndex index = true ↔ stage.nextIndex? index = none

instance : Decidable (stage.EndsAlikeAt index) := inferInstanceAs (Decidable (_ ↔ _))

/-- No step has a greater index than the one that is declared last. -/
def EndsHighest (stage : Stage) : Prop :=
  ∀ last, stage.steps.getLast? = some last → ∀ step ∈ stage.steps, step.index ≤ last.index

theorem Ascends.endsHighest (h : stage.Ascends) : stage.EndsHighest := by
  intro last hLast step hStep
  obtain ⟨before, hDeclared⟩ := List.getLast?_eq_some_iff.mp hLast
  refine Int32.not_lt.mp fun hAbove => ?_
  have hLater := (h.index_lt_iff hDeclared hStep).mp hAbove
  exact List.not_mem_nil hLater

theorem endsAlikeAt_iff_endsHighest :
    (∀ step ∈ stage.steps, stage.EndsAlikeAt step.index) ↔ stage.EndsHighest := by
  constructor
  · intro hAlike last hLast
    have hEnds := hAlike last (List.mem_of_getLast? hLast)
    exact nextIndex?_eq_none_iff.mp (hEnds.mp (isLastIndex_iff.mpr ⟨last, hLast, rfl⟩))
  · intro hHighest step hStep
    obtain ⟨last, hLast⟩ := Option.isSome_iff_exists.mp
      (List.getLast?_isSome.mpr (List.ne_nil_of_mem hStep))
    rw [EndsAlikeAt, isLastIndex_iff, nextIndex?_eq_none_iff]
    constructor
    · rintro ⟨other, hOther, hIndex⟩
      rw [← hIndex]
      exact hHighest other hOther
    · intro hAbove
      refine ⟨last, hLast, Int32.le_antisymm (hAbove last (List.mem_of_getLast? hLast)) ?_⟩
      exact hHighest last hLast step hStep

end Stage

namespace Snapshot

variable {snapshot : Snapshot} {stage : Stage}

def statusAfter (snapshot : Snapshot) (stage : Int64) : OrderStatus :=
  if snapshot.isLastStage stage then .success else .running

def DistinctStages (snapshot : Snapshot) : Prop :=
  snapshot.stages.Pairwise fun stage other => stage.id ≠ other.id

theorem DistinctStages.stage?_eq (distinct : snapshot.DistinctStages) (mem : stage ∈ snapshot.stages) :
    snapshot.stage? stage.id = some stage :=
  find?_of_mem distinct mem

theorem DistinctStages.isLastStage_eq (distinct : snapshot.DistinctStages) {earlier later : List Stage}
    (declared : snapshot.stages = earlier ++ stage :: later) :
    snapshot.isLastStage stage.id = later.isEmpty := by
  unfold isLastStage
  rw [DistinctStages, declared] at distinct
  obtain ⟨-, hLater, -⟩ := List.pairwise_append.mp distinct
  cases later with
  | nil => simp [declared]
  | cons next rest =>
    obtain ⟨last, hMem, hLast⟩ := exists_getLast?_of_cons_cons declared
    have hOther := (List.pairwise_cons.mp hLater).1 last hMem
    simpa [hLast] using hOther.symm

end Snapshot

end DeliveryPipeline

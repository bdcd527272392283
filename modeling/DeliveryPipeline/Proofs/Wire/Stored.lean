import DeliveryPipeline.Proofs.Json.Ordered
import DeliveryPipeline.Proofs.Wire.Message
import DeliveryPipeline.Wire.Project
import DeliveryPipeline.Wire.Setting

/-! # Stages and configurations are read as they were written

The parameters of a task can be any JSON value, and such a value is read as it was written only if its
objects are ordered. So here the values are looked at one by one: a list is read as it was written if each
of its items is, and a record if each of its fields is. A configuration is found by its kind, wherever the
kind stands among the fields.
-/

namespace DeliveryPipeline

set_option autoImplicit false

open Json (Carries Decoder Fields Tree)
open WireRecord (entries)

variable {α : Type}

theorem Wire.ReadsBack.json {value : Json} (ordered : value.IsOrdered) : ReadsBack value :=
  fun _ => Decoder.value_of_rearranged ordered

theorem LawfulWire.ofNames [Named α] {ofName : String → α} (reads : ∀ a, ofName (Named.name a) = a) :
    @LawfulWire α (Wire.ofNames ofName) 0 := by
  let _ : Wire α := Wire.ofNames ofName
  constructor
  · intro a written h
    cases h
    simp only [Json.decodeValue, Wire.decode, Tree.ofJson, Decoder.choice, reads a]
  · intro room _ a
    simp [Wire.encode, Json.fits]

instance : LawfulWire SettingKind 0 := .ofNamed fun kind => by cases kind <;> rfl

instance : LawfulWire StepKind 0 := .ofNames fun kind => by cases kind <;> rfl

instance : LawfulWire TaskKind 0 := .ofNames fun kind => by cases kind <;> rfl

instance : LawfulRecord JobApp 0 where
  recovers {a _} h := by
    cases a
    refine .seq (.seq (.seq (.map (h.field ?_)) (h.field ?_)) (h.field ?_)) (h.field ?_) <;> simp [entries]

theorem Task.readsBack {task : Task} (ordered : task.params.IsOrdered) : Wire.ReadsBack task := by
  refine .record (by simp [entries]) fun h => ?_
  have hParams : Wire.ReadsBack task.params := .json ordered
  cases task
  refine .seq (.seq (.seq (.map (h.field ?_)) (h.field ?_)) (h.field ?_)) (hParams.field h ?_) <;>
    simp [entries]

theorem Step.readsBack {step : Step} (ordered : ∀ task ∈ step.tasks, task.params.IsOrdered) :
    Wire.ReadsBack step := by
  refine .record (by simp [entries]) fun h => ?_
  have hTasks : Wire.ReadsBack step.tasks := .list fun task hTask => Task.readsBack (ordered task hTask)
  cases step
  refine .seq (.seq (.seq (.seq (.map (h.field ?_)) (h.field ?_)) (h.field ?_)) (h.field ?_))
    (hTasks.field h ?_) <;> simp [entries]

theorem Stage.readsBack {stage : Stage}
    (ordered : ∀ step ∈ stage.steps, ∀ task ∈ step.tasks, task.params.IsOrdered) :
    Wire.ReadsBack stage := by
  refine .record (by simp [entries]) fun h => ?_
  have hSteps : Wire.ReadsBack stage.steps := .list fun step hStep => Step.readsBack (ordered step hStep)
  cases stage
  refine .seq (.seq (.map (h.field ?_)) (h.field ?_)) (hSteps.field h ?_) <;> simp [entries]

instance : LawfulRecord CiServer 0 where
  recovers {a _} h := by
    cases a
    refine .seq (.seq (.seq (.map (h.field ?_)) (h.field ?_)) (h.field ?_)) (h.field ?_) <;> simp [entries]

instance : LawfulRecord Cluster 0 where
  recovers {a _} h := by
    cases a
    refine .seq (.map (h.field ?_)) (h.field ?_) <;> simp [entries]

instance : LawfulRecord Registry 0 where
  recovers {a _} h := by
    cases a
    refine .seq (.seq (.map (h.field ?_)) (h.field ?_)) (h.field ?_) <;> simp [entries]

namespace Integration

variable {written : List (String × Json)}

theorem scan_cons_of_ne {key : String} (hKey : key ≠ "type") (value : Json)
    {kind found : Option SettingKind} {others : List (Tree × Tree)}
    (rest : scan (Tree.ofEntries written) kind = .ok (found, others)) :
    scan (Tree.ofEntries ((key, value) :: written)) kind =
      .ok (found, (.text key, Tree.ofJson value) :: others) := by
  obtain ⟨read, hRead⟩ := Decoder.exists_value value
  simp only [Tree.ofEntries, scan, hKey, hRead, rest, imp_false, not_false_eq_true, implies_true]
  rfl

theorem scan_of_notMem (absent : "type" ∉ written.map (·.1)) (kind : Option SettingKind) :
    scan (Tree.ofEntries written) kind = .ok (kind, Tree.ofEntries written) := by
  induction written with
  | nil => rfl
  | cons field rest ih =>
    rw [List.map_cons, List.mem_cons, not_or] at absent
    exact scan_cons_of_ne (Ne.symm absent.1) field.2 (ih absent.2)

theorem scan_of_mem (distinct : (written.map (·.1)).Nodup) {kind : SettingKind}
    (mem : ("type", Wire.encode kind) ∈ written) :
    scan (Tree.ofEntries written) none =
      .ok (some kind, Tree.ofEntries (written.filter (·.1 ≠ "type"))) := by
  induction written with
  | nil => cases mem
  | cons field rest ih =>
    obtain ⟨key, value⟩ := field
    rw [List.map_cons, List.nodup_cons] at distinct
    by_cases hKey : key = "type"
    · subst hKey
      have hValue : value = Wire.encode kind := by
        rcases List.mem_cons.mp mem with h | h
        · cases h
          rfl
        · exact absurd (List.mem_map_of_mem h) distinct.1
      have hRest : rest.filter (·.1 ≠ "type") = rest := by
        rw [List.filter_eq_self]
        intro field hField
        exact decide_eq_true fun h => distinct.1 (List.mem_map.mpr ⟨field, hField, h⟩)
      have hName : decodeName (Tree.ofJson value) = .ok kind := by
        rw [hValue]
        cases kind <;> rfl
      rw [Tree.ofEntries, scan, hName, List.filter_cons_of_neg (by simp), hRest]
      exact scan_of_notMem distinct.1 (some kind)
    · have hMem : ("type", Wire.encode kind) ∈ rest :=
        (List.mem_cons.mp mem).resolve_left fun h => hKey (congrArg Prod.fst h).symm
      rw [List.filter_cons_of_pos (by simpa using hKey)]
      exact scan_cons_of_ne hKey value (ih distinct.2 hMem)

theorem carries_ownEntries {config : Integration} (h : Carries written config.entries) :
    Carries (written.filter (·.1 ≠ "type")) config.ownEntries where
  distinct := h.distinct.sublist (List.filter_sublist.map _)
  value {key value} hMem := by
    obtain ⟨found, hFound, hRearranged⟩ := h.value (List.mem_cons_of_mem _ hMem)
    have hKey : key ≠ "type" := by
      rintro rfl
      revert hMem
      cases config <;> simp [ownEntries, WireRecord.entries]
    exact ⟨found, List.mem_filter.mpr ⟨hFound, by simpa using hKey⟩, hRearranged⟩

theorem decodeKind_of_carries {config : Integration} (h : Carries written config.ownEntries) :
    decodeKind config.kind (Tree.ofJson (.object written)) = .ok config := by
  have hRead : ∀ {α : Type} [WireRecord α] [LawfulRecord α 0] {a : α},
      Carries written (WireRecord.entries a) → Wire.decode (Tree.ofJson (.object written)) = .ok a :=
    fun h => (LawfulRecord.recovers h).decoder h.distinct
  cases config <;>
  · simp only [kind, decodeKind]
    rw [hRead h]
    rfl

theorem readsBack (config : Integration) : Wire.ReadsBack config := by
  intro written h
  have hDistinct : (config.entries.map (·.1)).Nodup := by
    cases config <;> simp [entries, ownEntries, WireRecord.entries]
  obtain ⟨found, rfl, hCarries⟩ := h.carries hDistinct
  obtain ⟨name, hName, hRearranged⟩ := hCarries.value List.mem_cons_self
  cases hRearranged -- the kind is a text, and has no fields to put in another order
  change Integration.decode (.record (Tree.ofEntries found) true) = _
  rw [decode, scan_of_mem hCarries.distinct hName]
  exact decodeKind_of_carries (carries_ownEntries hCarries)

end Integration

end DeliveryPipeline

import DeliveryPipeline.Database.Change
import DeliveryPipeline.Proofs.Wire.Stored

/-! # Stored rows are read as they were written

A row of a job or of an order is read if each of its columns holds a value of its form. What is said about
such a row is said about its columns, so a change of some columns is seen in their fields and in no others.
-/

namespace DeliveryPipeline.Database

set_option autoImplicit false

open Columns

variable {α β : Type} {row : Row}

@[simp] theorem Row.value_nil (column : String) : Row.value [] column = .null := rfl

@[simp] theorem Row.value_cons (name column : String) (value : Value) (row : Row) :
    Row.value ((name, value) :: row) column = if column = name then value else row.value column := by
  rw [Row.value, List.lookup_cons]
  by_cases h : column = name
  · rw [beq_iff_eq.mpr h, if_pos h]
    rfl
  · rw [beq_false_of_ne h, if_neg h]
    rfl

namespace Columns

theorem bind_eq_ok_iff {read : Columns α} {f : α → Columns β} {b : β} :
    (read >>= f) row = .ok b ↔ ∃ a, read row = .ok a ∧ f a row = .ok b :=
  Json.bind_eq_ok_iff

theorem required_eq_ok_iff {column : String} {ofValue? : Value → Option α} {a : α} :
    required column ofValue? row = .ok a ↔ ofValue? (row.value column) = some a := by
  rw [required]
  split <;> simp_all

variable {column : String}

theorem integer_eq_ok_iff {n : Int64} : integer column row = .ok n ↔ row.value column = .integer n := by
  rw [integer, required_eq_ok_iff]
  cases row.value column <;> simp [integer?]

theorem int32_eq_ok_iff {n : Int32} : int32 column row = .ok n ↔ row.value column = .ofInt32 n := by
  rw [int32, required_eq_ok_iff]
  cases row.value column <;> simp [int32?, Value.ofInt32]
  case integer m =>
    constructor
    · rintro ⟨h, rfl⟩
      exact h.symm
    · rintro rfl
      simp

theorem text_eq_ok_iff {s : String} : text column row = .ok s ↔ row.value column = .text s := by
  rw [text, required_eq_ok_iff]
  cases row.value column <;> simp [text?]

theorem time_eq_ok_iff {t : Timestamp} : time column row = .ok t ↔ row.value column = .time t := by
  rw [time, required_eq_ok_iff]
  cases row.value column <;> simp [time?]

theorem json_eq_ok_iff {content : Json} : json column row = .ok content ↔ row.value column = .json content := by
  rw [json, required_eq_ok_iff]
  cases row.value column <;> simp [json?]

theorem optional_integer_eq_ok_iff {n : Option Int64} :
    optional column integer? row = .ok n ↔ row.value column = .ofOption .integer n := by
  rw [Columns.optional, required_eq_ok_iff]
  cases row.value column <;> cases n <;> simp [integer?, Value.ofOption]

end Columns

/-- The columns of the row are those of the job; a kind or a status may be a name without a meaning, and
apps need not be readable. -/
structure HoldsJob (row : Row) (stored : Stamped Job) : Prop where
  id : row.value "id" = .integer stored.value.id
  order : row.value "publish_id" = .integer stored.value.order
  project : row.value "project_id" = .integer stored.value.project
  stage : row.value "stage_id" = .integer stored.value.stage
  kind : ∃ name, row.value "job_type" = .text name ∧ named .build name = stored.value.kind
  run : row.value "run_id" = .ofOption .integer stored.value.run
  status : ∃ name, row.value "status" = .text name ∧ named .init name = stored.value.status
  creator : row.value "creator" = .text stored.value.creator
  apps : ∃ content, row.value "apps" = .json content ∧ (ofJson? content).getD [] = stored.value.apps
  createdAt : row.value "created_at" = .time stored.createdAt
  updatedAt : row.value "updated_at" = .time stored.updatedAt

theorem read_job_iff {stored : Stamped Job} :
    (Stored.read : Columns (Stamped Job)) row = .ok stored ↔ HoldsJob row stored := by
  simp only [Stored.read, bind_eq_ok_iff, integer_eq_ok_iff, text_eq_ok_iff, time_eq_ok_iff,
    json_eq_ok_iff, optional_integer_eq_ok_iff]
  constructor
  · rintro ⟨id, hId, order, hOrder, project, hProject, stage, hStage, kind, hKind, run, hRun, status, hStatus,
      creator, hCreator, apps, hApps, createdAt, hCreated, updatedAt, hUpdated, ⟨⟩⟩
    exact ⟨hId, hOrder, hProject, hStage, ⟨kind, hKind, rfl⟩, hRun, ⟨status, hStatus, rfl⟩, hCreator,
      ⟨apps, hApps, rfl⟩, hCreated, hUpdated⟩
  · intro h
    obtain ⟨kind, hKind, hKindMeant⟩ := h.kind
    obtain ⟨status, hStatus, hStatusMeant⟩ := h.status
    obtain ⟨apps, hApps, hAppsMeant⟩ := h.apps
    refine ⟨_, h.id, _, h.order, _, h.project, _, h.stage, kind, hKind, _, h.run, status, hStatus, _, h.creator,
      apps, hApps, _, h.createdAt, _, h.updatedAt, ?_⟩
    rw [hKindMeant, hStatusMeant, hAppsMeant]
    rfl

/-- The columns of the row are those of the order; a status may be a name without a meaning. -/
structure HoldsOrder (row : Row) (stored : Stamped Order) : Prop where
  id : row.value "id" = .integer stored.value.id
  project : row.value "project_id" = .integer stored.value.project
  version : row.value "version_no" = .text stored.value.version
  name : row.value "name" = .text stored.value.name
  stage : row.value "stage_id" = .integer stored.value.stage
  stepIndex : row.value "step_index" = .ofInt32 stored.value.stepIndex
  step : row.value "step" = .text stored.value.step
  stepType : row.value "step_type" = .text stored.value.stepType
  status : ∃ name, row.value "status" = .text name ∧ named .init name = stored.value.status
  creator : row.value "creator" = .text stored.value.creator
  snapshot : row.value "last_pipeline_instance_id" = .integer stored.value.snapshot
  createdAt : row.value "created_at" = .time stored.createdAt
  updatedAt : row.value "updated_at" = .time stored.updatedAt

theorem read_order_iff {stored : Stamped Order} :
    (Stored.read : Columns (Stamped Order)) row = .ok stored ↔ HoldsOrder row stored := by
  simp only [Stored.read, bind_eq_ok_iff, integer_eq_ok_iff, int32_eq_ok_iff, text_eq_ok_iff, time_eq_ok_iff]
  constructor
  · rintro ⟨id, hId, project, hProject, version, hVersion, name, hName, stage, hStage, stepIndex, hStepIndex,
      step, hStep, stepType, hStepType, status, hStatus, creator, hCreator, snapshot, hSnapshot,
      createdAt, hCreated, updatedAt, hUpdated, ⟨⟩⟩
    exact ⟨hId, hProject, hVersion, hName, hStage, hStepIndex, hStep, hStepType, ⟨status, hStatus, rfl⟩, hCreator,
      hSnapshot, hCreated, hUpdated⟩
  · intro h
    obtain ⟨status, hStatus, hMeant⟩ := h.status
    refine ⟨_, h.id, _, h.project, _, h.version, _, h.name, _, h.stage, _, h.stepIndex, _, h.step, _, h.stepType,
      status, hStatus, _, h.creator, _, h.snapshot, _, h.createdAt, _, h.updatedAt, ?_⟩
    rw [hMeant]
    rfl

theorem named_jobKind (kind : JobKind) : named .build (Named.name kind) = kind := by cases kind <;> rfl

theorem named_jobStatus (status : JobStatus) : named .init (Named.name status) = status := by
  cases status <;> rfl

theorem named_orderStatus (status : OrderStatus) : named .init (Named.name status) = status := by
  cases status <;> rfl

theorem ofJson?_encode [Wire α] {a : α} (h : Wire.ReadsBack a) : ofJson? (Wire.encode a) = some a := by
  rw [ofJson?, h _ (.refl _)]
  rfl

section Job

variable {stored : Stamped Job}

theorem HoldsJob.writeApps (h : HoldsJob row stored) (apps : List JobApp) :
    HoldsJob (("apps", .json (Wire.encode apps)) :: row)
      { stored with value := { stored.value with apps := apps } } := by
  have hApps : ofJson? (Wire.encode apps) = some apps := ofJson?_encode (LawfulWire.readsBack apps)
  constructor <;>
    simp [h.id, h.order, h.project, h.stage, h.kind, h.run, h.status, h.creator, h.createdAt, h.updatedAt, hApps]

theorem HoldsJob.setStatus (h : HoldsJob row stored) (now : Timestamp) (id : Int64) (status : JobStatus) :
    HoldsJob ((change now (.setJobStatus id status)).stored ++ row)
      { stored with value := { stored.value with status := status }, updatedAt := now } := by
  constructor <;>
    simp [change, Statement.stored, Assignment.entry, bindName, named_jobStatus, h.id, h.order, h.project, h.stage,
      h.kind, h.run, h.creator, h.apps, h.createdAt]

theorem HoldsJob.start (h : HoldsJob row stored) (now : Timestamp) (id run : Int64) :
    HoldsJob ((change now (.startJob id run)).stored ++ row)
      { stored with value := { stored.value with run := some run, status := .running }, updatedAt := now } := by
  constructor <;>
    simp [change, Statement.stored, Assignment.entry, setName, named_jobStatus, Value.ofOption, h.id, h.order,
      h.project, h.stage, h.kind, h.creator, h.apps, h.createdAt]

theorem holdsJob_insertion (now : Timestamp) (id : Int64) (draft : JobDraft) :
    HoldsJob (("id", .integer id) :: (insertion now draft).stored) ⟨Job.ofDraft id draft, now, now⟩ := by
  have hApps : ofJson? (Wire.encode draft.apps) = some draft.apps := ofJson?_encode (LawfulWire.readsBack _)
  constructor <;>
    simp [insertion, Statement.stored, Assignment.entry, bindName, setName, named_jobKind, named_jobStatus,
      Job.ofDraft, Value.ofOption, hApps]

end Job

section Order

variable {stored : Stamped Order}

theorem HoldsOrder.setStatus (h : HoldsOrder row stored) (now : Timestamp) (id : Int64) (status : OrderStatus) :
    HoldsOrder ((change now (.setOrderStatus id status)).stored ++ row)
      { stored with value := { stored.value with status := status }, updatedAt := now } := by
  constructor <;>
    simp [change, Statement.stored, Assignment.entry, bindName, named_orderStatus, h.id, h.project, h.version,
      h.name, h.stage, h.stepIndex, h.step, h.stepType, h.creator, h.snapshot, h.createdAt]

theorem HoldsOrder.move (h : HoldsOrder row stored) (now : Timestamp) (id : Int64) (stepIndex : Int32)
    (step stepType : String) (status : OrderStatus) :
    HoldsOrder ((change now (.moveOrder id stepIndex step stepType status)).stored ++ row)
      { stored with
        value := { stored.value with stepIndex := stepIndex, step := step, stepType := stepType, status := status }
        updatedAt := now } := by
  constructor <;>
    simp [change, Statement.stored, Assignment.entry, bindName, named_orderStatus, h.id, h.project, h.version,
      h.name, h.stage, h.creator, h.snapshot, h.createdAt]

end Order

theorem read_snapshot {id : Int64} {stages : List Stage} (hId : row.value "id" = .integer id)
    (hStages : row.value "stages" = .json (Wire.encode stages))
    (ordered : ∀ stage ∈ stages, ∀ step ∈ stage.steps, ∀ task ∈ step.tasks, task.params.IsOrdered) :
    (Stored.read : Columns Snapshot) row = .ok ⟨id, stages⟩ := by
  have hRead : ofJson? (Wire.encode stages) = some stages :=
    ofJson?_encode (.list fun stage hStage => Stage.readsBack (ordered stage hStage))
  simp only [Stored.read, bind_eq_ok_iff, integer_eq_ok_iff, json_eq_ok_iff]
  exact ⟨id, hId, _, hStages, stages, by rw [hRead]; rfl, rfl⟩

theorem read_setting {id : Int64} {name : String} {config : Integration} (hId : row.value "id" = .integer id)
    (hName : row.value "name" = .text name) (hConfig : row.value "config" = .json (Wire.encode config)) :
    (Stored.read : Columns Setting) row = .ok ⟨id, name, config⟩ := by
  have hRead : ofJson? (Wire.encode config) = some config := ofJson?_encode (Integration.readsBack config)
  simp only [Stored.read, bind_eq_ok_iff, integer_eq_ok_iff, text_eq_ok_iff, json_eq_ok_iff]
  exact ⟨id, hId, name, hName, _, hConfig, config, by rw [hRead]; rfl, rfl⟩

/-- Whatever is written to a row is read from it again: the apps, the status and the run of a job, the status and
the place of an order, all that a draft says, the stages of a snapshot, and a configuration. The parameters of
a task can be any JSON value that is read from a text, for all of these are ordered. -/
theorem written_rows_read_back (now : Timestamp) (id : Int64) :
    (∀ {row : Row} {stored : Stamped Job}, (Stored.read : Columns (Stamped Job)) row = .ok stored →
      (∀ apps : List JobApp, (Stored.read : Columns (Stamped Job)) (("apps", .json (Wire.encode apps)) :: row) =
        .ok { stored with value := { stored.value with apps := apps } }) ∧
      (∀ status : JobStatus,
        (Stored.read : Columns (Stamped Job)) ((change now (.setJobStatus id status)).stored ++ row) =
          .ok { stored with value := { stored.value with status := status }, updatedAt := now }) ∧
      (∀ run : Int64, (Stored.read : Columns (Stamped Job)) ((change now (.startJob id run)).stored ++ row) =
        .ok { stored with value := { stored.value with run := some run, status := .running }, updatedAt := now })) ∧
    (∀ {row : Row} {stored : Stamped Order}, (Stored.read : Columns (Stamped Order)) row = .ok stored →
      (∀ status : OrderStatus,
        (Stored.read : Columns (Stamped Order)) ((change now (.setOrderStatus id status)).stored ++ row) =
          .ok { stored with value := { stored.value with status := status }, updatedAt := now }) ∧
      (∀ (stepIndex : Int32) (step stepType : String) (status : OrderStatus),
        (Stored.read : Columns (Stamped Order))
            ((change now (.moveOrder id stepIndex step stepType status)).stored ++ row) =
          .ok ⟨{ stored.value with stepIndex := stepIndex, step := step, stepType := stepType, status := status },
            stored.createdAt, now⟩)) ∧
    (∀ draft : JobDraft,
      (Stored.read : Columns (Stamped Job)) (("id", .integer id) :: (change now (.insertJob draft)).stored) =
        .ok ⟨⟨id, draft.order, draft.project, draft.stage, draft.kind, none, .init, draft.creator, draft.apps⟩,
          now, now⟩) ∧
    (∀ stages : List Stage,
      (∀ stage ∈ stages, ∀ step ∈ stage.steps, ∀ task ∈ step.tasks, task.params.IsOrdered) →
      (Stored.read : Columns Snapshot) [("id", .integer id), ("stages", .json (Wire.encode stages))] =
        .ok ⟨id, stages⟩) ∧
    (∀ (text : String) (value : Json), Json.parse text = .ok value → value.IsOrdered) ∧
    (∀ (name : String) (config : Integration),
      (Stored.read : Columns Setting)
          [("id", .integer id), ("name", .text name), ("config", .json (Wire.encode config))] =
        .ok ⟨id, name, config⟩) := by
  refine ⟨?jobs, ?orders, ?drafts, ?snapshots, ?parsed, ?settings⟩
  case jobs =>
    intro row stored h
    have hRow : HoldsJob row stored := read_job_iff.mp h
    exact ⟨fun apps => read_job_iff.mpr (hRow.writeApps apps),
      fun status => read_job_iff.mpr (hRow.setStatus now id status),
      fun run => read_job_iff.mpr (hRow.start now id run)⟩
  case orders =>
    intro row stored h
    have hRow : HoldsOrder row stored := read_order_iff.mp h
    exact ⟨fun status => read_order_iff.mpr (hRow.setStatus now id status),
      fun stepIndex step stepType status => read_order_iff.mpr (hRow.move now id stepIndex step stepType status)⟩
  case drafts => exact fun draft => read_job_iff.mpr (holdsJob_insertion now id draft)
  case snapshots => exact fun stages ordered => read_snapshot (by simp) (by simp) ordered
  case parsed => exact fun _ _ => Json.isOrdered_of_parse
  case settings => exact fun name config => read_setting (by simp) (by simp) (by simp)

def storedAt : Timestamp := ⟨⟨2024, 2, 28⟩, 3600, 0⟩

def changedAt : Timestamp := ⟨⟨2024, 2, 29⟩, 7200, 0⟩

def jobRow : Row :=
  [("id", .integer 1), ("publish_id", .integer 7), ("project_id", .integer 3), ("stage_id", .integer 2),
    ("job_type", .text "deploy"), ("run_id", .null), ("status", .text "init"), ("creator", .text "ann"),
    ("apps", .json (.array [])), ("created_at", .time storedAt), ("updated_at", .time storedAt)]

def orderRow : Row :=
  [("id", .integer 7), ("project_id", .integer 3), ("version_no", .text "v1"), ("name", .text "release"),
    ("stage_id", .integer 2), ("step_index", .integer 1), ("step", .text "build"), ("step_type", .text "build"),
    ("status", .text "running"), ("creator", .text "ann"), ("last_pipeline_instance_id", .integer 4),
    ("created_at", .time storedAt), ("updated_at", .time storedAt)]

def askedStage : Stage :=
  ⟨2, "test", [⟨1, 5, "wait", .manual, [⟨1, "ask", .manual, .object [("by", .array [.null]), ("of", .bool true)]⟩]⟩]⟩

theorem written_rows_read_back_in_sample :
    (Stored.read : Columns (Stamped Job)) ((change changedAt (.setJobStatus 1 .abort)).stored ++ jobRow) =
      .ok ⟨⟨1, 7, 3, 2, .deploy, none, .abort, "ann", []⟩, storedAt, changedAt⟩ ∧
    (Stored.read : Columns (Stamped Order))
        ((change changedAt (.setOrderStatus 7 .terminateFailed)).stored ++ orderRow) =
      .ok ⟨⟨7, 3, "v1", "release", 2, 1, "build", "build", .terminateFailed, "ann", 4⟩, storedAt, changedAt⟩ ∧
    (Stored.read : Columns Snapshot) [("id", .integer 7), ("stages", .json (Wire.encode [askedStage]))] =
      .ok ⟨7, [askedStage]⟩ := by
  obtain ⟨jobs, -⟩ := written_rows_read_back changedAt 1
  obtain ⟨-, orders, -, snapshots, -⟩ := written_rows_read_back changedAt 7
  have hJob : (Stored.read : Columns (Stamped Job)) jobRow =
      .ok ⟨⟨1, 7, 3, 2, .deploy, none, .init, "ann", []⟩, storedAt, storedAt⟩ := rfl
  have hOrder : (Stored.read : Columns (Stamped Order)) orderRow =
      .ok ⟨⟨7, 3, "v1", "release", 2, 1, "build", "build", .running, "ann", 4⟩, storedAt, storedAt⟩ := rfl
  have hParams : Json.IsOrdered (.object [("by", .array [.null]), ("of", .bool true)]) := by
    refine .object (List.pairwise_pair.mpr (by decide)) ?_
    simp [Json.IsOrdered.bool, Json.IsOrdered.null, Json.IsOrdered.array]
  exact ⟨(jobs hJob).2.1 .abort, (orders hOrder).1 .terminateFailed,
    snapshots [askedStage] (by simp [askedStage, hParams])⟩

end DeliveryPipeline.Database

import DeliveryPipeline.Engine.Basic
import DeliveryPipeline.Text.Blank
import DeliveryPipeline.Proofs.Text.Integer

/-! # Scopes and job names

A scope covers the jobs that have it. Jobs are submitted under a name made of the same parts as their
scope, so two jobs share a name exactly if they share a scope.
-/

namespace DeliveryPipeline

set_option autoImplicit false

open Text (ofInt64)

/-- The scope of the jobs of a kind for an order's stage. -/
def Scope.of (kind : JobKind) (project order stage : Int64) : Scope :=
  match kind with
  | .build => .build project stage order
  | .deploy => .deploy project stage

theorem Job.scope_eq (job : Job) : job.scope = .of job.kind job.project job.order job.stage := rfl

theorem Scope.covers_of_iff {kind : JobKind} {project order stage : Int64} {job : Job} :
    (Scope.of kind project order stage).covers job = true ↔
      job.scope = .of kind project order stage := by
  rw [Scope.covers_iff, Job.scope_eq]
  cases kind <;> cases job.kind <;> simp [Scope.of, Scope.build, Scope.deploy, eq_comm]

theorem JobDraft.covers_scope_iff {draft : JobDraft} {job : Job} :
    draft.scope.covers job = true ↔ job.scope = draft.scope :=
  Scope.covers_of_iff

theorem Job.scope_eq_of_iff_isAt {job : Job} {kind : JobKind} {project stage : Int64} :
    job.scope = .of kind project job.order stage ↔ job.isAt project job.order stage kind = true := by
  rw [Job.scope_eq, Job.isAt]
  cases kind <;> cases job.kind <;> simp [Scope.of, Scope.build, Scope.deploy]

namespace Engine

/-- The name under which a stored job is submitted. -/
def jobNameOf (engine : Engine) (job : Job) : String :=
  engine.jobName job.kind job.project job.order job.stage

theorem toList_jobName (engine : Engine) (kind : JobKind) (project order stage : Int64) :
    (engine.jobName kind project order stage).toList =
      engine.jobPrefix.toList ++ '_' :: ((ofInt64 project).toList ++ '_' ::
        match kind with
        | .build => (ofInt64 order).toList ++ '_' :: (ofInt64 stage).toList
        | .deploy => (ofInt64 stage).toList) := by
  cases kind <;> simp [jobName, String.intercalate_cons_cons, String.toList_append]

theorem underscore_not_mem (n : Int64) : '_' ∉ (ofInt64 n).toList :=
  Text.not_mem_ofInt64 (by decide) (by decide) n

theorem eq_of_number_prefix {a b : Int64} {rest rest' : List Char}
    (h : (ofInt64 a).toList ++ '_' :: rest = (ofInt64 b).toList ++ '_' :: rest') :
    a = b ∧ rest = rest' := by
  have hCut : Text.cut '_' ((ofInt64 a).toList ++ '_' :: rest) = some ((ofInt64 b).toList, rest') :=
    Text.cut_eq_some_iff.mpr ⟨underscore_not_mem b, h⟩
  rw [Text.cut_eq_some_iff.mpr ⟨underscore_not_mem a, rfl⟩] at hCut
  obtain ⟨hNumber, hRest⟩ := Prod.mk.inj (Option.some.inj hCut)
  exact ⟨Text.ofInt64_injective (String.toList_inj.mp hNumber), hRest⟩

theorem eq_of_number {a b : Int64} (h : (ofInt64 a).toList = (ofInt64 b).toList) : a = b :=
  Text.ofInt64_injective (String.toList_inj.mp h)

theorem number_ne_two (a b c : Int64) :
    (ofInt64 a).toList ≠ (ofInt64 b).toList ++ '_' :: (ofInt64 c).toList := by
  intro h
  have hMark : '_' ∈ (ofInt64 a).toList := by rw [h]; simp
  exact underscore_not_mem a hMark

theorem scope_eq_of_jobName_eq {engine : Engine} {kind kind' : JobKind}
    {project order stage project' order' stage' : Int64}
    (h : engine.jobName kind project order stage = engine.jobName kind' project' order' stage') :
    Scope.of kind project order stage = Scope.of kind' project' order' stage' := by
  have hList := congrArg String.toList h
  rw [toList_jobName, toList_jobName] at hList
  -- after the project a build's name has two numbers and a deploy's has one
  obtain ⟨rfl, hRest⟩ := eq_of_number_prefix (List.cons.inj (List.append_cancel_left hList)).2
  cases kind with
  | build =>
    cases kind' with
    | build =>
      obtain ⟨rfl, hStage⟩ := eq_of_number_prefix hRest
      rw [eq_of_number hStage]
    | deploy => exact absurd hRest.symm (number_ne_two stage' order stage)
  | deploy =>
    cases kind' with
    | build => exact absurd hRest (number_ne_two stage order' stage')
    | deploy => rw [Scope.of, Scope.of, eq_of_number hRest]

theorem jobName_eq_of_scope_eq {engine : Engine} {kind kind' : JobKind}
    {project order stage project' order' stage' : Int64}
    (h : Scope.of kind project order stage = Scope.of kind' project' order' stage') :
    engine.jobName kind project order stage = engine.jobName kind' project' order' stage' := by
  cases kind <;> cases kind' <;> simp_all [Scope.of, Scope.build, Scope.deploy, jobName]

theorem jobNameOf_eq_iff {engine : Engine} {job : Job} {kind : JobKind} {project order stage : Int64} :
    engine.jobNameOf job = engine.jobName kind project order stage ↔
      job.scope = .of kind project order stage :=
  ⟨scope_eq_of_jobName_eq, jobName_eq_of_scope_eq⟩

end Engine

def Job.draft (job : Job) : JobDraft where
  order := job.order
  project := job.project
  stage := job.stage
  kind := job.kind
  creator := job.creator
  apps := job.apps

/-- Both are builds for one order in one stage, or both are deploys in one stage. -/
def Job.Contends (job other : Job) : Prop :=
  (job.kind = .build ∧ other.kind = .build ∧ job.project = other.project ∧ job.order = other.order ∧
      job.stage = other.stage) ∨
    (job.kind = .deploy ∧ other.kind = .deploy ∧ job.project = other.project ∧ job.stage = other.stage)

theorem Job.scope_eq_iff_contends {job other : Job} : job.scope = other.scope ↔ job.Contends other := by
  rw [Job.scope_eq, Job.scope_eq, Job.Contends]
  cases hKind : job.kind <;> cases hOther : other.kind
  · simp only [Scope.of, Scope.build, Scope.mk.injEq, Option.some.injEq]
    tauto
  · simp [Scope.of, Scope.build, Scope.deploy]
  · simp [Scope.of, Scope.build, Scope.deploy]
  · simp only [Scope.of, Scope.deploy, Scope.mk.injEq]
    tauto

/-- Two jobs have one name exactly if they have one scope, and that is exactly if the scope of one covers the
other; so covering goes both ways, and from one job over a second to a third. -/
theorem Engine.contends_iff (engine : Engine) (job other third : Job) :
    (engine.jobNameOf job = engine.jobNameOf other ↔ job.draft.scope = other.draft.scope) ∧
      (job.draft.scope = other.draft.scope ↔ job.Contends other) ∧
      (job.draft.scope.covers other = true ↔ job.Contends other) ∧
      (job.draft.scope.covers other = other.draft.scope.covers job) ∧
      (job.draft.scope.covers other = true → other.draft.scope.covers third = true →
        job.draft.scope.covers third = true) := by
  have hCovers : ∀ a b : Job, a.draft.scope.covers b = true ↔ a.scope = b.scope := fun a b =>
    JobDraft.covers_scope_iff.trans eq_comm
  refine ⟨jobNameOf_eq_iff, Job.scope_eq_iff_contends, ?_, ?_, ?_⟩
  · rw [hCovers, Job.scope_eq_iff_contends]
  · rw [Bool.eq_iff_iff, hCovers, hCovers, eq_comm]
  · rw [hCovers, hCovers, hCovers]
    exact Eq.trans

end DeliveryPipeline

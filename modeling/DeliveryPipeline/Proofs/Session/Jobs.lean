import DeliveryPipeline.Proofs.Session.Basic

/-! # Jobs in a session

A deed changes the jobs in three ways: it stores a job whose scope is free, sets a job running that was
just stored, or settles a job. Only the first can bring a second active job into a scope, and the store
refuses that; so a scope never has two, no matter what the engine was told about active jobs.
-/

namespace DeliveryPipeline

set_option autoImplicit false

open Api (Command)
open Store (changeFirst)

/-- What a deed does to the jobs. -/
inductive Deed.JobChange (engine : Engine) (deed : Deed) : Prop
  | nothing (jobs : deed.after.store.jobs = deed.before.store.jobs)
  | stored {id : Int64} {draft : JobDraft}
    (call : deed.call = .update (.insertJob draft))
    (above : ∀ job ∈ deed.before.store.jobs, job.id < id)
    (idle : deed.before.store.activeJobs draft.scope = [])
    (store : deed.after.store = deed.before.store.addJob (Job.ofDraft id draft))
  | started {job : Job} {run : Int64} {server : CiServer} {plan : Plan}
    (call : deed.call = .update (.startJob job.id run))
    (fresh : IsFresh deed.before.store job) (reports : engine.ReportsOn plan job)
    (accepted : ⟨.errand (.submit server (engine.jobNameOf job) plan), .ok run⟩ ∈ deed.past)
    (jobs : deed.after.store.jobs = changeFirst Job.id job.id
      (fun job => { job with run := some run, status := .running }) deed.before.store.jobs)
  | settled {id : Int64} {status : JobStatus}
    (call : deed.call = .update (.setJobStatus id status)) (inactive : status.isActive = false)
    (jobs : deed.after.store.jobs =
      changeFirst Job.id id (fun job => { job with status := status }) deed.before.store.jobs)

theorem Deed.IsSound.jobChange {engine : Engine} {deed : Deed} (h : deed.IsSound engine) :
    deed.JobChange engine := by
  have hWarrant := h.warrant
  rcases h.store_after with hSame | ⟨u, hCall, hStore⟩
  · exact .nothing (by rw [hSame])
  rw [hCall] at hWarrant
  cases hWarrant with
  | quiet hQuiet => cases hQuiet
  | @insert draft =>
    rcases deed.before.store.insertJob_cases draft with ⟨id, hInsert, hAbove, hIdle⟩ | ⟨e, hInsert⟩ |
      ⟨ids, hInsert⟩
    · refine .stored hCall hAbove hIdle ?_
      rw [hStore]
      exact congrArg Prod.snd hInsert
    · refine .nothing ?_
      rw [hStore]
      exact congrArg (fun r => r.2.jobs) hInsert
    · refine .nothing ?_
      rw [hStore]
      exact congrArg (fun r => r.2.jobs) hInsert
  | startJob fresh about reports accepted =>
    exact .started hCall fresh reports accepted (by rw [hStore]; rfl)
  | abandon | abortJob => exact .settled hCall rfl (by rw [hStore]; rfl)
  | @settle _ _ _ report =>
    exact .settled hCall report.outcome.isActive_status (by rw [hStore]; rfl)
  | confirm =>
    refine .nothing ?_
    rw [hStore]
    unfold Store.update Store.addConfirmation
    dsimp only
    split <;> rfl
  | start | terminate | abort | fail | finish | rest | move => exact .nothing (by rw [hStore]; rfl)

/-- The same job later on, which is active only if it was before. -/
structure Job.Continues (job job' : Job) : Prop where
  id : job'.id = job.id
  order : job'.order = job.order
  project : job'.project = job.project
  stage : job'.stage = job.stage
  kind : job'.kind = job.kind
  active : job'.isActive = true → job.isActive = true

theorem Job.Continues.refl (job : Job) : job.Continues job := ⟨rfl, rfl, rfl, rfl, rfl, fun h => h⟩

theorem Job.Continues.scope {job job' : Job} (h : job.Continues job') : job'.scope = job.scope := by
  rw [Job.scope_eq, Job.scope_eq, h.kind, h.project, h.order, h.stage]

theorem Deed.IsSound.jobs_cases {engine : Engine} {deed : Deed} (h : deed.IsSound engine) :
    List.Forall₂ Job.Continues deed.before.store.jobs deed.after.store.jobs ∨
      ∃ id draft, deed.call = .update (.insertJob draft) ∧
        (∀ job ∈ deed.before.store.jobs, job.id < id) ∧
        deed.before.store.activeJobs draft.scope = [] ∧
        deed.after.store = deed.before.store.addJob (Job.ofDraft id draft) := by
  cases h.jobChange with
  | nothing jobs =>
    rw [jobs]
    exact .inl (List.forall₂_same.mpr fun job _ => .refl job)
  | @stored id draft call above idle store => exact .inr ⟨id, draft, call, above, idle, store⟩
  | started call fresh reports accepted jobs =>
    rw [jobs]
    refine .inl (forall₂_changeFirst .refl fun found hFound => ⟨rfl, rfl, rfl, rfl, rfl, fun _ => ?_⟩)
    -- the job that is set running is the fresh one, which was waiting and so active before
    obtain ⟨hMem, hId⟩ := mem_of_find? hFound
    rw [fresh.only found hMem hId, Job.isActive, fresh.status]
    rfl
  | settled call inactive jobs =>
    rw [jobs]
    refine .inl (forall₂_changeFirst .refl fun found _ => ⟨rfl, rfl, rfl, rfl, rfl, fun hActive => ?_⟩)
    rw [Job.isActive, inactive] at hActive
    cases hActive

/-- No two active jobs have the same scope. -/
def Store.Exclusive (store : Store) : Prop :=
  store.jobs.Pairwise fun job other =>
    job.isActive = true → other.isActive = true → job.scope ≠ other.scope

theorem Store.Exclusive.of_forall₂ {before after : Store} (h : before.Exclusive)
    (step : List.Forall₂ Job.Continues before.jobs after.jobs) : after.Exclusive := by
  refine pairwise_of_forall₂ step ?_ h
  intro job other job' other' hJob hOther hDiffer hActive hActive'
  rw [hJob.scope, hOther.scope]
  exact hDiffer (hJob.active hActive) (hOther.active hActive')

theorem Store.Exclusive.addJob {before : Store} {draft : JobDraft} (h : before.Exclusive)
    (idle : before.activeJobs draft.scope = []) (id : Int64) :
    (before.addJob (Job.ofDraft id draft)).Exclusive := by
  refine List.pairwise_append.mpr ⟨h, List.pairwise_singleton _ _, ?_⟩
  intro job hJob stored hStored hActive _ hScope
  rw [List.mem_singleton.mp hStored, Job.scope_ofDraft] at hScope
  have hUncovered := Store.activeJobs_eq_nil_iff.mp idle job hJob hActive
  rw [JobDraft.covers_scope_iff.mpr hScope] at hUncovered
  cases hUncovered

theorem Deed.IsSound.exclusive {engine : Engine} {deed : Deed} (h : deed.IsSound engine)
    (before : deed.before.store.Exclusive) : deed.after.store.Exclusive := by
  rcases h.jobs_cases with hJobs | ⟨id, draft, -, -, hIdle, hStored⟩
  · exact before.of_forall₂ hJobs
  · rw [hStored]
    exact before.addJob hIdle id

/-- A scope that has at most one active job at the start of a session has at most one in every world. -/
theorem Session.exclusive_of_mem_worlds {σ : Type} (session : Session σ)
    (start : session.start.store.Exclusive) :
    ∀ world ∈ session.worlds, world.store.Exclusive :=
  Session.holds_of_mem_worlds (I := fun world => world.store.Exclusive) start
    fun _ hSound hBefore => hSound.exclusive hBefore

theorem Session.exclusive_of_mem_sample_worlds :
    Session.sampleStore.Exclusive ∧
      ∀ world ∈ (Session.sample (.complete 1 5 4 .deploy ⟨9, .success⟩)).worlds,
        world.store.Exclusive := by
  have hStart : Session.sampleStore.Exclusive := by
    unfold Store.Exclusive
    decide
  exact ⟨hStart, Session.exclusive_of_mem_worlds _ hStart⟩

end DeliveryPipeline

import DeliveryPipeline.Proofs.Session.Jobs

/-! # Cancelled runs

A job's run is one that the CI server accepted under the job's own name. A cancellation takes the run
from the latest job of the order and the name from the request, so it addresses that run under its own
name only if the request is about a job of the same kind, in the same project and stage.
-/

namespace DeliveryPipeline

set_option autoImplicit false

open Api (Command)

/-- The run was submitted under the name: before the session, or in the exchanges. -/
def WasSubmitted (earlier : List (String × Int64)) (past : List Exchange) (name : String) (run : Int64) :
    Prop :=
  (name, run) ∈ earlier ∨
    ∃ server plan, (⟨.errand (.submit server name plan), .ok run⟩ : Exchange) ∈ past

theorem WasSubmitted.append {earlier : List (String × Int64)} {past : List Exchange} {name : String}
    {run : Int64} (h : WasSubmitted earlier past name run) (later : List Exchange) :
    WasSubmitted earlier (past ++ later) name run := by
  rcases h with h | ⟨server, plan, h⟩
  · exact .inl h
  · exact .inr ⟨server, plan, List.mem_append_left _ h⟩

/-- Every job that has a run was submitted with it under its own name. -/
def RunsSubmitted (engine : Engine) (earlier : List (String × Int64)) : Assertion := fun past world =>
  ∀ job ∈ world.store.jobs, ∀ run, job.run = some run →
    WasSubmitted earlier past (engine.jobNameOf job) run

theorem Deed.IsSound.runsSubmitted {engine : Engine} {earlier : List (String × Int64)} {deed : Deed}
    (h : deed.IsSound engine) (before : RunsSubmitted engine earlier deed.past deed.before) :
    RunsSubmitted engine earlier (deed.past ++ [deed.exchange]) deed.after := by
  intro job hJob run hRun
  refine WasSubmitted.append ?_ [deed.exchange]
  cases h.jobChange with
  | nothing jobs => exact before job (jobs ▸ hJob) run hRun
  | stored call above idle store =>
    rw [store] at hJob
    rcases List.mem_append.mp hJob with hOld | hNew
    · exact before job hOld run hRun
    · rw [List.mem_singleton.mp hNew] at hRun
      cases hRun
  | @started fresh run' server plan call isFresh reports accepted jobs =>
    rw [jobs] at hJob
    rcases mem_changeFirst hJob with hOld | ⟨found, hFound, rfl⟩
    · exact before job hOld run hRun
    · -- no other job has the number, so it is this one that was accepted under its own name
      obtain ⟨hMem, hId⟩ := mem_of_find? hFound
      rw [isFresh.only found hMem hId, ← Option.some.inj hRun]
      exact .inr ⟨server, plan, accepted⟩
  | settled call inactive jobs =>
    rw [jobs] at hJob
    rcases mem_changeFirst hJob with hOld | ⟨found, hFound, rfl⟩
    · exact before job hOld run hRun
    · obtain ⟨hMem, -⟩ := mem_of_find? hFound
      exact before found hMem run hRun

theorem Warrant.cancel_inv {engine : Engine} {command : Command} {past : List Exchange} {store : Store}
    {server : CiServer} {name : String} {run : Int64}
    (h : Warrant engine command past store (.errand (.cancel server name run))) :
    ∃ project order stage request job, command = .terminate project order stage request ∧
      store.answer (.latestJob order) = some job ∧ job.run = some run ∧
      name = engine.jobName request.kind project order stage := by
  cases h with
  | quiet hQuiet => cases hQuiet
  | cancel asked latest started => exact ⟨_, _, _, _, _, asked, latest, started, rfl⟩

/-- The run that is cancelled was submitted for the latest job of the order. It is addressed under the
name of that job exactly if the request is about the job's kind, project and stage, and under the name
of any job that has the run exactly if such a job has the scope that the request stands for. -/
theorem Session.jobNameOf_eq_iff_of_cancel {σ : Type} {session : Session σ}
    {earlier : List (String × Int64)} (start : RunsSubmitted session.engine earlier [] session.start)
    {deed : Deed} (h : deed ∈ session.deeds) {server : CiServer} {name : String} {run : Int64}
    (call : deed.call = .errand (.cancel server name run)) :
    ∃ project order stage request job, deed.command = .terminate project order stage request ∧
      deed.before.store.answer (.latestJob order) = some job ∧ job.run = some run ∧
      WasSubmitted earlier deed.past (session.engine.jobNameOf job) run ∧
      (session.engine.jobNameOf job = name ↔ job.isAt project order stage request.kind = true) ∧
      ((∃ row ∈ deed.before.store.jobs, row.run = some run ∧ session.engine.jobNameOf row = name) ↔
        ∃ row ∈ deed.before.store.jobs, row.run = some run ∧
          row.scope = .of request.kind project order stage) := by
  have hWarrant := (Session.isSound_of_mem_deeds h).warrant
  rw [call] at hWarrant
  obtain ⟨project, order, stage, request, job, hCommand, hLatest, hRun, rfl⟩ := hWarrant.cancel_inv
  obtain ⟨hMem, hOrder⟩ := Store.mem_of_answer_latestJob hLatest
  have hSubmitted := (Session.holds_of_mem_deeds start
    (fun _ hSound hBefore => hSound.runsSubmitted hBefore) h).1 job hMem run hRun
  refine ⟨project, order, stage, request, job, hCommand, hLatest, hRun, hSubmitted, ?_, ?_⟩
  · rw [Engine.jobNameOf_eq_iff, ← hOrder]
    exact Job.scope_eq_of_iff_isAt
  · simp only [Engine.jobNameOf_eq_iff]

/-- The runs of the sample's jobs, under the names of these jobs. -/
theorem runsSubmitted_sample :
    RunsSubmitted (.ofServer "http://conveyor.local") [("conveyor_1_4_3", 70), ("conveyor_1_4", 77)] []
      { store := Session.sampleStore, histories := [], nextRun := 100 } := by
  intro job hJob run hRun
  rcases List.mem_cons.mp hJob with rfl | hJob
  · rw [← Option.some.inj hRun]
    exact .inl (by decide)
  · rw [List.mem_singleton.mp hJob] at hRun ⊢
    rw [← Option.some.inj hRun]
    exact .inl (by decide)

theorem Session.exists_cancel_in_sample :
    ∃ deed ∈ (Session.sample (.terminate 1 5 3 ⟨.build⟩)).deeds,
      deed.command = .terminate 1 5 3 ⟨.build⟩ ∧
      deed.call = .errand (.cancel ⟨"http://ci.local", "ci", "ci-token", "/ws"⟩ "conveyor_1_5_3" 77) ∧
      deed.before.store.jobs = Session.sampleStore.jobs := by
  have hLook : ((Session.sample (.terminate 1 5 3 ⟨.build⟩)).deeds.map
      fun deed => (deed.command, deed.call, deed.before.store.jobs))[5]? = some
        (.terminate 1 5 3 ⟨.build⟩,
          .errand (.cancel ⟨"http://ci.local", "ci", "ci-token", "/ws"⟩ "conveyor_1_5_3" 77),
          Session.sampleStore.jobs) := by cbv
  obtain ⟨deed, hDeed, hSeen⟩ := List.mem_map.mp (List.mem_of_getElem? hLook)
  obtain ⟨hCommand, hSeen⟩ := Prod.mk.inj hSeen
  obtain ⟨hCall, hJobs⟩ := Prod.mk.inj hSeen
  exact ⟨deed, hDeed, hCommand, hCall, hJobs⟩

theorem Session.jobNameOf_eq_iff_of_cancel_in_sample :
    ∃ deed ∈ (Session.sample (.terminate 1 5 3 ⟨.build⟩)).deeds, ∃ job,
      deed.before.store.answer (.latestJob 5) = some job ∧ job.run = some 77 ∧
      ((Session.sample (.terminate 1 5 3 ⟨.build⟩)).engine.jobNameOf job = "conveyor_1_5_3" ↔
        job.isAt 1 5 3 .build = true) := by
  obtain ⟨deed, hDeed, hCommand, hCall, -⟩ := Session.exists_cancel_in_sample
  have hStart : RunsSubmitted (Session.sample (.terminate 1 5 3 ⟨.build⟩)).engine
      [("conveyor_1_4_3", 70), ("conveyor_1_4", 77)] []
      (Session.sample (.terminate 1 5 3 ⟨.build⟩)).start := runsSubmitted_sample
  obtain ⟨project, order, stage, request, job, hAsked, hLatest, hRun, -, hName, -⟩ :=
    Session.jobNameOf_eq_iff_of_cancel hStart hDeed hCall
  cases hCommand.symm.trans hAsked
  exact ⟨deed, hDeed, job, hLatest, hRun, hName⟩

/-- The run of a deploy can be cancelled under the name of a build: no job with that name has the run. -/
theorem Session.cancel_under_foreign_name :
    RunsSubmitted (Session.sample (.terminate 1 5 3 ⟨.build⟩)).engine
        [("conveyor_1_4_3", 70), ("conveyor_1_4", 77)] []
        (Session.sample (.terminate 1 5 3 ⟨.build⟩)).start ∧
      ∃ deed ∈ (Session.sample (.terminate 1 5 3 ⟨.build⟩)).deeds, ∃ server,
        deed.call = .errand (.cancel server "conveyor_1_5_3" 77) ∧
        ∀ row ∈ deed.before.store.jobs, row.run = some 77 →
          (Session.sample (.terminate 1 5 3 ⟨.build⟩)).engine.jobNameOf row ≠ "conveyor_1_5_3" := by
  obtain ⟨deed, hDeed, -, hCall, hJobs⟩ := Session.exists_cancel_in_sample
  refine ⟨runsSubmitted_sample, deed, hDeed, _, hCall, ?_⟩
  rw [hJobs]
  decide

end DeliveryPipeline

import DeliveryPipeline.Proofs.Session.Jobs

/-! # Finished jobs

A job waits, runs and ends; which status may be written over which is said by `JobStatus.mayBecome`.
Reports and aborts look at a job before they settle it, and so keep to that order. A termination does
not: it settles the latest job of its order, and that job may have ended long before, for instance while
the order waits for a manual step.
-/

namespace DeliveryPipeline

set_option autoImplicit false

open Api (Command)
open Store (changeFirst)

namespace JobStatus

/-- Which status may be written over which. -/
def mayBecome : JobStatus → JobStatus → Bool
  | .init, next => next ≠ .init
  | .running, next => !next.isActive
  | .success, _ | .failed, _ | .abort, _ => false

theorem isActive_of_mayBecome {status next : JobStatus} (h : status.mayBecome next = true) :
    status.isActive = true := by
  cases status <;> first | rfl | cases h

theorem mayBecome_of_isActive {status next : JobStatus} (active : status.isActive = true)
    (ends : next.isActive = false) : status.mayBecome next = true := by
  cases status with
  | init => cases next <;> first | rfl | cases ends
  | running => rw [mayBecome, ends]; rfl
  | success | failed | abort => cases active

end JobStatus

def Call.jobStatus? : Call → Option (Int64 × JobStatus)
  | .update (.setJobStatus id status) => some (id, status)
  | .update (.startJob id _) => some (id, .running)
  | _ => none

def Api.Command.terminates (command : Command) (job : Job) : Prop :=
  ∃ project stage request, command = .terminate project job.order stage request

theorem Warrant.jobStatus_cases {engine : Engine} {command : Command} {past : List Exchange}
    {store : Store} {c : Call} (h : Warrant engine command past store c) (distinct : store.DistinctJobs)
    {id : Int64} {status : JobStatus} (writes : c.jobStatus? = some (id, status)) :
    ∃ job, store.answer (.job id) = some job ∧ (job.status.mayBecome status = true ∨
      status = .abort ∧ command.terminates job ∧ store.answer (.latestJob job.order) = some job) := by
  cases h with
  | @quiet c hQuiet =>
    cases c with
    | update u => cases hQuiet
    | lookup _ | errand _ => cases writes
  | apply | insert | submit | cancel | confirm => cases writes
  | start | terminate | abort | fail | finish | rest | move => cases writes
  | startJob fresh =>
    cases writes
    refine ⟨_, distinct.answer_job fresh.mem, .inl ?_⟩
    rw [fresh.status]
    rfl
  | @abandon project stage request job asked latest =>
    cases writes
    obtain ⟨hMem, hOrder⟩ := Store.mem_of_answer_latestJob latest
    rw [← hOrder] at asked latest
    exact ⟨job, distinct.answer_job hMem, .inr ⟨rfl, ⟨project, stage, request, asked⟩, latest⟩⟩
  | abortJob asked latest active =>
    cases writes
    obtain ⟨hMem, -⟩ := Store.mem_of_answer_latestJob latest
    exact ⟨_, distinct.answer_job hMem, .inl (JobStatus.mayBecome_of_isActive active rfl)⟩
  | @settle _ _ _ report job asked found place active =>
    cases writes
    obtain ⟨-, hId⟩ := mem_of_find? found
    refine ⟨job, ?_, .inl (JobStatus.mayBecome_of_isActive active report.outcome.isActive_status)⟩
    rw [hId]
    exact found

theorem Store.answer_job_changeJob {store : Store} {id : Int64} {job : Job}
    (found : store.answer (.job id) = some job) {changed : Int64} {status : JobStatus}
    (change : Job → Job) (keeps : ∀ job, (change job).id = job.id)
    (writes : ∀ job, (change job).order = job.order ∧ (change job).status = status) :
    ∃ job', (store.changeJob changed change).answer (.job id) = some job' ∧ job'.order = job.order ∧
      (job'.status = job.status ∨ some (changed, status) = some (id, job'.status)) := by
  by_cases hId : id = changed
  · rw [hId] at found ⊢
    refine ⟨change job, store.answer_changeJob found change keeps, (writes job).1, .inr ?_⟩
    rw [(writes job).2]
  · refine ⟨job, ?_, rfl, .inl rfl⟩
    rw [store.answer_changeJob_of_ne hId change keeps]
    exact found

theorem Store.answer_job_update {store : Store} {id : Int64} {job : Job}
    (found : store.answer (.job id) = some job) (u : Update) :
    ∃ job', (store.update u).2.answer (.job id) = some job' ∧ job'.order = job.order ∧
      (job'.status = job.status ∨ Call.jobStatus? (.update u) = some (id, job'.status)) := by
  have hSame : ∃ job', store.answer (.job id) = some job' ∧ job'.order = job.order ∧
      (job'.status = job.status ∨ Call.jobStatus? (.update u) = some (id, job'.status)) :=
    ⟨job, found, rfl, .inl rfl⟩
  cases u with
  | setOrderStatus | moveOrder => exact hSame
  | insertJob draft =>
    rcases store.insertJob_cases draft with ⟨new, hInsert, _⟩ | ⟨e, hInsert⟩ | ⟨ids, hInsert⟩
    · refine ⟨job, ?_, rfl, .inl rfl⟩
      rw [show store.update (.insertJob draft) = _ from hInsert]
      exact answer_addJob_of_found found _
    all_goals
      rw [show store.update (.insertJob draft) = _ from hInsert]
      exact hSame
  | startJob changed run => exact answer_job_changeJob found _ (fun _ => rfl) (fun _ => ⟨rfl, rfl⟩)
  | setJobStatus changed status =>
    exact answer_job_changeJob found _ (fun _ => rfl) (fun _ => ⟨rfl, rfl⟩)
  | addConfirmation draft =>
    unfold update addConfirmation
    dsimp only
    split <;> exact hSame

theorem Deed.IsSound.distinctJobs {engine : Engine} {deed : Deed} (h : deed.IsSound engine)
    (before : deed.before.store.DistinctJobs) : deed.after.store.DistinctJobs := by
  rcases h.jobs_cases with hJobs | ⟨id, draft, -, hAbove, -, hStored⟩
  · refine pairwise_of_forall₂ hJobs ?_ before
    intro job other job' other' hJob hOther hDiffer
    rw [hJob.id, hOther.id]
    exact hDiffer
  · rw [hStored]
    refine List.pairwise_append.mpr ⟨before, List.pairwise_singleton _ _, ?_⟩
    intro job hJob new hNew
    rw [List.mem_singleton.mp hNew]
    exact Int64.ne_of_lt (hAbove job hJob)

/-- The job has the status that it had, or was aborted by one of the commands. -/
def Job.Retains (commands : List Command) (job job' : Job) : Prop :=
  job'.order = job.order ∧ (job'.status = job.status ∨
    job'.status = .abort ∧ ∃ command ∈ commands, command.terminates job)

theorem Job.Retains.trans {commands : List Command} {first second third : Job}
    (h : first.Retains commands second) (h' : second.Retains commands third) :
    first.Retains commands third := by
  obtain ⟨hOrder, hStatus⟩ := h
  obtain ⟨hOrder', hStatus'⟩ := h'
  refine ⟨hOrder'.trans hOrder, ?_⟩
  rcases hStatus' with hSame' | ⟨hAbort', command, hCommand, hTerminates⟩
  · rcases hStatus with hSame | ⟨hAbort, hTerminated⟩
    · exact .inl (hSame'.trans hSame)
    · exact .inr ⟨hSame'.trans hAbort, hTerminated⟩
  · refine .inr ⟨hAbort', command, hCommand, ?_⟩
    unfold Command.terminates at hTerminates ⊢
    rwa [hOrder] at hTerminates

theorem Job.Retains.finished {commands : List Command} {job job' : Job} (h : job.Retains commands job')
    (finished : job.isActive = false) : job'.isActive = false := by
  rcases h.2 with hSame | ⟨hAbort, -⟩
  · rw [Job.isActive, hSame]
    exact finished
  · rw [Job.isActive, hAbort]
    rfl

/-- Finished jobs are found again, and retain their status. -/
def Store.Keeps (commands : List Command) (before after : Store) : Prop :=
  ∀ id job, before.answer (.job id) = some job → job.isActive = false →
    ∃ job', after.answer (.job id) = some job' ∧ job.Retains commands job'

theorem Store.Keeps.trans {commands : List Command} {first second third : Store}
    (h : first.Keeps commands second) (h' : second.Keeps commands third) :
    first.Keeps commands third := by
  intro id job hFound hFinished
  obtain ⟨job', hFound', hRetains⟩ := h id job hFound hFinished
  obtain ⟨job'', hFound'', hRetains'⟩ := h' id job' hFound' (hRetains.finished hFinished)
  exact ⟨job'', hFound'', hRetains.trans hRetains'⟩

theorem Deed.IsSound.keeps {engine : Engine} {deed : Deed} (h : deed.IsSound engine)
    (distinct : deed.before.store.DistinctJobs) {commands : List Command}
    (mem : deed.command ∈ commands) : deed.before.store.Keeps commands deed.after.store := by
  intro id job hFound hFinished
  rcases h.store_after with hSame | ⟨u, hCall, hStore⟩
  · rw [hSame]
    exact ⟨job, hFound, rfl, .inl rfl⟩
  obtain ⟨job', hFound', hOrder, hStatus⟩ := Store.answer_job_update hFound u
  rw [hStore]
  refine ⟨job', hFound', hOrder, ?_⟩
  rcases hStatus with hSame | hWrites
  · exact .inl hSame
  obtain ⟨found, hFound'', hCases⟩ := h.warrant.jobStatus_cases distinct (hCall ▸ hWrites)
  cases Option.some.inj (hFound''.symm.trans hFound)
  rcases hCases with hNext | ⟨hAbort, hTerminates, -⟩
  · rw [Job.isActive, JobStatus.isActive_of_mayBecome hNext] at hFinished
    cases hFinished
  · exact .inr ⟨hAbort, _, mem, hTerminates⟩

/-- Every status that a session writes to an active job may follow the one that the job has. A finished
job gets another status only from a termination that finds it to be the latest job of its order, and
then it is aborted; so it keeps its status for good if no command terminates its order. -/
theorem Session.jobStatus_of_mem_deeds {σ : Type} {session : Session σ}
    (start : session.start.store.DistinctJobs) :
    (∀ deed ∈ session.deeds, ∀ id status, deed.call.jobStatus? = some (id, status) →
      ∃ job, deed.before.store.answer (.job id) = some job ∧
        (job.status.mayBecome status = true ↔ job.isActive = true) ∧
        (job.isActive = false → status = .abort ∧ deed.command.terminates job ∧
          deed.before.store.answer (.latestJob job.order) = some job)) ∧
    session.worlds.Pairwise fun earlier later =>
      ∀ id job, earlier.store.answer (.job id) = some job → job.isActive = false →
        ∃ job', later.store.answer (.job id) = some job' ∧
          (job'.status = job.status ∨
            job'.status = .abort ∧ ∃ command ∈ session.commands, command.terminates job) := by
  have hDistinct : ∀ world ∈ session.worlds, world.store.DistinctJobs :=
    Session.holds_of_mem_worlds (I := fun world => world.store.DistinctJobs) start
      fun _ hSound hBefore => hSound.distinctJobs hBefore
  constructor
  · intro deed hDeed id status hWrites
    have hBefore := (Session.holds_of_mem_deeds (I := fun _ world => world.store.DistinctJobs) start
      (fun _ hSound hBefore => hSound.distinctJobs hBefore) hDeed).1
    obtain ⟨job, hFound, hCases⟩ := (Session.isSound_of_mem_deeds hDeed).warrant.jobStatus_cases hBefore hWrites
    refine ⟨job, hFound, ⟨JobStatus.isActive_of_mayBecome, fun hActive => ?_⟩, fun hFinished => ?_⟩
    · rcases hCases with hNext | ⟨rfl, -⟩
      · exact hNext
      · exact JobStatus.mayBecome_of_isActive hActive rfl
    · rcases hCases with hNext | hTerminated
      · rw [Job.isActive, JobStatus.isActive_of_mayBecome hNext] at hFinished
        cases hFinished
      · exact hTerminated
  · obtain ⟨past, world, hPath⟩ := session.path_deeds
    have hKeeps : session.worlds.Pairwise fun earlier later => earlier.store.DistinctJobs →
        later.store.DistinctJobs ∧ earlier.store.Keeps session.commands later.store := by
      refine hPath.pairwise ?_ fun deed hDeed hBefore => ?_
      · intro first second third h h' hFirst
        obtain ⟨hSecond, hKeeps⟩ := h hFirst
        obtain ⟨hThird, hKeeps'⟩ := h' hSecond
        exact ⟨hThird, hKeeps.trans hKeeps'⟩
      · have hSound := Session.isSound_of_mem_deeds hDeed
        exact ⟨hSound.distinctJobs hBefore, hSound.keeps hBefore (Session.command_mem_of_mem_deeds hDeed)⟩
    refine hKeeps.imp_of_mem fun hEarlier _ h id job hFound hFinished => ?_
    obtain ⟨job', hFound', -, hStatus⟩ := (h (hDistinct _ hEarlier)).2 id job hFound hFinished
    exact ⟨job', hFound', hStatus⟩

def Session.endedSample : Session Unit :=
  { Session.sample (.terminate 1 5 3 ⟨.build⟩) with
    start :=
      { store := { Session.sampleStore with
          jobs := [⟨9, 5, 1, 3, .build, some 77, .running, "alice", []⟩] }
        histories := []
        nextRun := 100 }
    commands := [.complete 1 5 3 .build ⟨9, .success⟩, .terminate 1 5 3 ⟨.build⟩] }

theorem Session.distinctJobs_endedSample : Session.endedSample.start.store.DistinctJobs :=
  List.pairwise_singleton _ _

/-- The status of the job in every world of the sample. -/
theorem Session.statuses_endedSample :
    Session.endedSample.worlds.map (fun world => (world.store.answer (.job 9)).map Job.status) =
      List.replicate 3 (some .running) ++ List.replicate 8 (some .success) ++ [some .abort] := by cbv

theorem Session.jobStatus_of_mem_endedSample :
    Session.endedSample.start.store.DistinctJobs ∧
      Session.endedSample.worlds.Pairwise fun earlier later =>
        ∀ id job, earlier.store.answer (.job id) = some job → job.isActive = false →
          ∃ job', later.store.answer (.job id) = some job' ∧ (job'.status = job.status ∨
            job'.status = .abort ∧ ∃ command ∈ Session.endedSample.commands, command.terminates job) :=
  ⟨Session.distinctJobs_endedSample,
    (Session.jobStatus_of_mem_deeds Session.distinctJobs_endedSample).2⟩

/-- A job that has succeeded can still be aborted, by the termination of its order. -/
theorem Session.abort_over_success :
    Session.endedSample.start.store.DistinctJobs ∧
      ¬ Session.endedSample.worlds.Pairwise fun earlier later =>
        ∀ id job, earlier.store.answer (.job id) = some job → job.isActive = false →
          (later.store.answer (.job id)).map Job.status = some job.status := by
  refine ⟨Session.distinctJobs_endedSample, fun h => ?_⟩
  have hStatuses : (Session.endedSample.worlds.map
      fun world => (world.store.answer (.job 9)).map Job.status).Pairwise
        fun earlier later => earlier = some .success → later = some .success := by
    refine List.pairwise_map.mpr (h.imp fun hKept hSuccess => ?_)
    obtain ⟨job, hFound, hStatus⟩ := Option.map_eq_some_iff.mp hSuccess
    rw [hKept 9 job hFound (by rw [Job.isActive, hStatus]; rfl), hStatus]
  rw [Session.statuses_endedSample] at hStatuses
  revert hStatuses
  decide

end DeliveryPipeline

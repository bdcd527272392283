import DeliveryPipeline.Proofs.Engine.Conflict
import DeliveryPipeline.Proofs.Engine.Idle
import DeliveryPipeline.Proofs.Engine.Termination

/-! # Clearing a job that is stuck

A creation that fails after it has stored its job leaves the job active, and so its scope occupied. By
then the order runs, unless that could not be written. The new job is the latest of the order, so to abort
the order is to abort this job, and the scope is free again.
-/

namespace DeliveryPipeline

set_option autoImplicit false

open Operation

theorem changeFirst_changeFirst {α : Type} {key : α → Int64} {id : Int64} {first second : α → α}
    (keeps : ∀ a, key (first a) = key a) (records : List α) :
    Store.changeFirst key id second (Store.changeFirst key id first records) =
      Store.changeFirst key id (fun a => second (first a)) records := by
  induction records with
  | nil => rfl
  | cons a rest ih =>
    by_cases h : key a = id
    · simp only [Store.changeFirst, if_pos h, keeps]
    · simp only [Store.changeFirst, if_neg h, ih]

theorem Store.answer_latestJob_addJob {store : Store} {job : Job}
    (above : ∀ other ∈ store.jobs, other.id < job.id) :
    (store.addJob job).answer (.latestJob job.order) = some job := by
  have hOfOrder : (store.addJob job).jobs.filter (fun j => j.order = job.order) =
      store.jobs.filter (fun j => j.order = job.order) ++ [job] := by
    simp [addJob]
  refine (congrArg (fun jobs => (sortedBy Job.id jobs).getLast?) hOfOrder).trans ?_
  exact getLast?_sortedBy_append fun other hOther => above other (List.mem_filter.mp hOther).1

/-- A creation has stored an active job in its place and set the order running, and that is all that has
happened to the store. -/
structure IsPending (before : Store) (project order stage : Int64) (kind : JobKind) (job : Job)
    (after : Store) : Prop where
  above : ∀ other ∈ before.jobs, other.id < job.id
  place : job.isAt project order stage kind = true
  active : job.isActive = true
  store : after = (before.addJob job).changeOrder order Order.started

theorem IsNew.isPending {before : Store} {project order stage : Int64} {kind : JobKind} {job : Job}
    (h : IsNew before project order stage kind job) :
    IsPending before project order stage kind job ((before.addJob job).changeOrder order Order.started) where
  above := h.above
  place := h.place
  active := by rw [Job.isActive, h.status]; rfl
  store := rfl

theorem IsNew.isPending_started {before : Store} {project order stage : Int64} {kind : JobKind} {job : Job}
    (h : IsNew before project order stage kind job) (run : Int64) :
    IsPending before project order stage kind (job.started run)
      ((before.addJob (job.started run)).changeOrder order Order.started) where
  above := h.above
  place := h.place
  active := rfl
  store := rfl

theorem Creation.exists_isPending {engine : Engine} {project order stage : Int64} {kind : JobKind}
    {before after : Store} {value : Except EngineError Launch} {past : List Exchange}
    (h : Creation engine project order stage kind before value past after)
    (written : ∀ cause, (⟨.update (.setOrderStatus order .running), .error cause⟩ : Exchange) ∉ past) :
    after = before ∨ ∃ job, IsPending before project order stage kind job after := by
  cases h with
  | refused => exact .inl rfl
  | notStarted => exact absurd (List.mem_append_right _ (List.mem_singleton.mpr rfl)) (written _)
  | launched new => exact .inr ⟨_, new.isPending_started _⟩
  | notSubmitted new | notRecorded new => exact .inr ⟨_, new.isPending⟩

structure Store.Admits (store : Store) (project order : Int64) (found : Order) : Prop where
  goesOn : ∃ record, store.answer (.project project) = some record ∧ record.status ≠ .ended
  stored : store.answer (.order order) = some found
  owned : found.project = project

theorem Engine.reads_findOrderOf_admits (project order : Int64) (world : World) :
    Reads world (fun found => world.store.Admits project order found) (findOrderOf project order) := by
  unfold findOrderOf
  apply reads_lookup.bind
  intro answer hAnswer
  apply reads_require.bind
  intro record hRecord
  apply reads_ensure.bind
  intro _ hGoing
  apply (reads_findOrder order).bind
  intro found hFound
  apply reads_ensure.bind
  intro _ hOwned
  apply reads_pure
  exact ⟨⟨record, eq_some_of_answer hAnswer hRecord, by simpa using hGoing⟩, hFound,
    of_decide_eq_true hOwned⟩

namespace JobRequest

variable {σ : Type} {rule : Rule σ} {engine : Engine} {request : JobRequest}
  {project order stage : Int64} {world : World} {state : σ}

theorem meets_create_admits (engine : Engine) (request : JobRequest) (project order stage : Int64)
    (world : World) :
    (request.create engine project order stage).Meets (fun _ _ _ => True)
      (fun _ _ _ => ∃ found, world.store.Admits project order found)
      (fun _ _ after => after = world ∨ ∃ found, world.store.Admits project order found) [] world := by
  have hCreate : ∃ rest : Order → Operation Launch, request.create engine project order stage =
      (ensure (!request.isEmpty) (.invalid (.noApps request.kind)) >>= fun _ =>
        Engine.findOrderOf project order >>= rest) := by
    cases request <;> exact ⟨_, rfl⟩
  obtain ⟨rest, hCreate⟩ := hCreate
  rw [hCreate]
  apply reads_ensure.meets_bind (fun _ _ _ => trivial) fun _ _ => .inl rfl
  rintro _ past -
  apply (Engine.reads_findOrderOf_admits project order world).meets_bind (fun _ _ _ => trivial)
    fun _ _ => .inl rfl
  intro found past hAdmits
  refine Program.Meets.mono ((Program.obeys_trivial (rest found).run past).meets world) ?_
  rintro (e | launch) _ _ -
  · exact .inr ⟨found, hAdmits⟩
  · exact ⟨found, hAdmits⟩

/-- If the order can be set running, a creation leaves the store as it is, or a job that waits in it. -/
theorem exists_isPending_of_run (spares : rule.SparesUpdates Update.setsOrderStatus)
    (engine : Engine) (request : JobRequest) (project order stage : Int64) (world : World) (state : σ) :
    let run := (request.create engine project order stage).run.run rule world state
    run.world.store = world.store ∨
      (∃ found, world.store.Admits project order found) ∧
        ∃ job, IsPending world.store project order stage request.kind job run.world.store := by
  intro run
  have hAdmits := Program.Meets.ends_run (request.meets_create_admits engine project order stage world)
    rule state
  have hCreation := Program.Meets.ends_run (request.creates engine project order stage world) rule state
  have hWritten : ∀ cause, (⟨.update (.setOrderStatus order .running), .error cause⟩ : Exchange) ∉
      run.exchanges := fun cause =>
    spares.not_mem_exchanges (fun _ => Update.setsStatus_of_setsOrderStatus) rfl
  cases hValue : run.value with
  | ok launch =>
    rw [hValue] at hAdmits hCreation
    exact (hCreation.exists_isPending hWritten).imp id fun hPending => ⟨hAdmits, hPending⟩
  | error e =>
    rw [hValue] at hAdmits hCreation
    rcases hAdmits with hSame | hAdmits
    · exact .inl (congrArg World.store hSame)
    · exact (hCreation.exists_isPending hWritten).imp id fun hPending => ⟨hAdmits, hPending⟩

end JobRequest

/-- The store in which nothing remains of a creation but an aborted job. -/
def Store.cleared (before : Store) (order : Int64) (job : Job) : Store :=
  (before.addJob { job with status := .abort }).changeOrder order fun order =>
    { order with status := .abort }

theorem IsPending.cleared {before after : Store} {project order stage : Int64} {kind : JobKind} {job : Job}
    (h : IsPending before project order stage kind job after) :
    (after.changeOrder order fun order => { order with status := .abort }).changeJob job.id (fun job =>
      { job with status := .abort }) = before.cleared order job := by
  have hJobs : Store.changeFirst Job.id job.id (fun job => { job with status := .abort })
      (before.jobs ++ [job]) = before.jobs ++ [{ job with status := .abort }] :=
    changeFirst_append_of_ne (fun other hOther => Int64.ne_of_lt (h.above other hOther)) rfl
  have hOrders : Store.changeFirst Order.id order (fun order => { order with status := .abort })
      (Store.changeFirst Order.id order Order.started before.orders) =
        Store.changeFirst Order.id order (fun order => { order with status := .abort }) before.orders := by
    rw [changeFirst_changeFirst Order.id_started]
    apply changeFirst_congr
    intro found _
    unfold Order.started
    split <;> rfl
  rw [h.store]
  unfold Store.cleared Store.changeJob Store.changeOrder Store.addJob
  dsimp only
  rw [hJobs, hOrders]

theorem IsPending.latest {before after : Store} {project order stage : Int64} {kind : JobKind} {job : Job}
    (h : IsPending before project order stage kind job after) :
    after.answer (.latestJob order) = some job := by
  obtain ⟨rfl, -⟩ := Job.isAt_iff.mp h.place
  rw [h.store]
  exact Store.answer_latestJob_addJob h.above

theorem IsPending.answer_order {before after : Store} {project order stage : Int64} {kind : JobKind}
    {job : Job} {found : Order} (h : IsPending before project order stage kind job after)
    (stored : before.answer (.order order) = some found)
    (status : found.status = .init ∨ found.status = .running) :
    after.answer (.order order) = some found.started ∧ found.started.status = .running := by
  constructor
  · rw [h.store]
    exact Store.answer_changeOrder_of_found stored Order.started Order.id_started
  · unfold Order.started
    rcases status with hStatus | hStatus
    · rw [if_pos hStatus]
    · rw [if_neg (by rw [hStatus]; decide), hStatus]

theorem Engine.yields_abort_of_isPending {before : Store} {world : World}
    {project order stage : Int64} {kind : JobKind} {job : Job} {found : Order}
    (pending : IsPending before project order stage kind job world.store)
    (admits : before.Admits project order found)
    (status : found.status = .init ∨ found.status = .running) :
    (abort project order).Yields (fun result after => result = .ok () ∧
      after = { world with store := before.cleared order job }) world := by
  obtain ⟨record, hRecord, hGoesOn⟩ := admits.goesOn
  obtain ⟨hOrder, hRunning⟩ := pending.answer_order admits.stored status
  have hProject : world.store.answer (.project project) = some record := by
    rw [pending.store]
    exact hRecord
  have hOwned : found.started.project = project := by
    unfold Order.started
    split <;> exact admits.owned
  have hLatest : (world.store.changeOrder order fun order => { order with status := .abort }).answer
    (.latestJob order) = some job := pending.latest
  unfold abort findOrderOf findOrder
  simp only [bind_assoc]
  apply yields_lookup_bind
  apply yields_require_some hProject
  apply yields_ensure_bind (by simpa using hGoesOn)
  apply yields_lookup_bind
  apply yields_require_some hOrder
  apply yields_ensure_bind (by simpa using hOwned)
  rw [pure_bind, ensureAllowed, hRunning]
  apply yields_update_bind rfl
  apply yields_lookup_bind
  rw [hLatest]
  simp only [pending.active, if_true]
  rintro _ rfl
  exact ⟨rfl, congrArg (fun store => { world with store := store }) pending.cleared⟩

theorem Store.activeJobs_cleared {before : Store} {scope : Scope} (idle : before.activeJobs scope = [])
    (order : Int64) (job : Job) : (before.cleared order job).activeJobs scope = [] := by
  apply activeJobs_eq_nil_iff.mpr
  intro other hOther hActive
  rcases List.mem_append.mp hOther with hOld | hNew
  · exact activeJobs_eq_nil_iff.mp idle other hOld hActive
  · rw [List.mem_singleton.mp hNew] at hActive
    cases hActive

theorem Engine.onlyMakes_abort (project order : Int64) :
    (abort project order).OnlyMakes fun c => !c.isErrand := by
  unfold abort
  apply (onlyMakes_findOrderOf rfl rfl).bind
  intro found
  apply (onlyMakes_ensureAllowed found .abort).bind
  intro _
  apply (onlyMakes_update rfl).bind
  intro _
  apply (onlyMakes_lookup (l := .latestJob order) rfl).bind
  rintro (_ | job)
  · exact onlyMakes_pure ()
  dsimp only
  split
  · exact onlyMakes_update rfl
  · exact onlyMakes_pure ()

theorem JobRequest.idle_of_run {σ : Type} {engine : Engine} {request : JobRequest}
    {project order stage : Int64} {rule : Rule σ} {world : World} {state : σ}
    (changed : ((request.create engine project order stage).run.run rule world state).world ≠ world) :
    world.store.activeJobs (.of request.kind project order stage) = [] := by
  by_contra hBusy
  exact changed (request.run_create_of_busy engine hBusy rule state).2

/-- A job that a creation has newly stored for an order that has yet to start, or runs, is cleared by an
abort of the order: the store is then as before the creation, but for the aborted job and order, and the
same request is not refused with a conflict. -/
theorem JobRequest.cleared_of_abort {σ τ : Type} {rule : Rule σ} {calm : Rule τ}
    (spares : rule.SparesUpdates Update.setsOrderStatus) (works : calm.SparesStore) (engine : Engine)
    (request : JobRequest) {project order stage : Int64} {world : World} {found : Order}
    (stored : world.store.answer (.order order) = some found)
    (status : found.status = .init ∨ found.status = .running) (state : σ) (state' : τ) {job : Job} :
    let run := (request.create engine project order stage).run.run rule world state
    let aborted := (Engine.abort project order).run.run calm run.world state'
    job ∈ run.world.store.jobs → job ∉ world.store.jobs →
      aborted.value = .ok () ∧ (∀ e ∈ aborted.exchanges, e.call.isErrand = false) ∧
      aborted.world = { run.world with store := world.store.cleared order job } ∧
      job.scope = .of request.kind project order stage ∧
      aborted.world.store.activeJobs (.of request.kind project order stage) = [] ∧
      ∀ (υ : Type) (later : Rule υ) (state'' : υ), later.SparesStore → ∀ ids,
        ((request.create engine project order stage).run.run later aborted.world state'').value ≠
          .error (.conflict ids) := by
  intro run aborted hStored hNew
  have hChanged : run.world ≠ world := by
    intro hSame
    rw [hSame] at hStored
    exact hNew hStored
  have hIdle := JobRequest.idle_of_run hChanged
  rcases request.exists_isPending_of_run spares engine project order stage world state with hSame |
    ⟨⟨other, hAdmits⟩, fresh, hPending⟩
  · rw [hSame] at hStored
    exact absurd hStored hNew
  obtain rfl := Option.some.inj (hAdmits.stored.symm.trans stored)
  have hFresh : job = fresh := by
    have hMem : job ∈ world.store.jobs ++ [fresh] := by
      rw [hPending.store] at hStored
      exact hStored
    rcases List.mem_append.mp hMem with hOld | hLast
    · exact absurd hOld hNew
    · exact List.mem_singleton.mp hLast
  subst hFresh
  -- The new job has the greatest number, so it is the latest job, which the abort takes.
  have hYields : (Engine.abort project order).Yields _ run.world :=
    Engine.yields_abort_of_isPending hPending hAdmits status
  obtain ⟨hValue, hWorld⟩ := hYields.ends_run works state'
  have hCleared : aborted.world.store.activeJobs (.of request.kind project order stage) = [] := by
    rw [show aborted.world = _ from hWorld]
    exact Store.activeJobs_cleared hIdle order job
  refine ⟨hValue, ?_, hWorld, ?_, hCleared, ?_⟩
  · intro e he
    obtain ⟨_, _, hCall⟩ := Program.Meets.allowed_of_mem_exchanges
      (Program.Obeys.meets (Engine.onlyMakes_abort project order []) run.world) calm state' e he
    simpa using hCall
  · obtain ⟨hOrder, hProject, hStage, hKind⟩ := Job.isAt_iff.mp hPending.place
    rw [Job.scope_eq, hOrder, hProject, hStage, hKind]
  · intro υ later state'' hWorks ids hConflict
    have hAvoids : (request.create engine project order stage).run.Yields _ aborted.world :=
      request.avoidsConflict_create engine hCleared
    cases hAvoids.ends_run hWorks state'' _ hConflict

def Rule.takesNoPlan : Rule Unit := fun _ c =>
  (if c.submits then .errandFails ⟨["queue full"]⟩ else .none, ())

/-- An order that has been built once, and has yet to start. -/
def builtOnce : World where
  store :=
    { Interleaving.sampleStore with
      orders := [⟨5, 1, "v1.2.0", "spring release", 3, 1, "build", "build", .init, "alice", 1⟩]
      jobs := [⟨8, 5, 1, 3, .build, some 70, .success, "alice", []⟩] }
  histories := []
  nextRun := 100

theorem JobRequest.cleared_of_abort_in_builtOnce :
    let engine : Engine := .ofServer "http://conveyor.local"
    let request : JobRequest := .build ⟨"alice", [⟨12, "dev", "", none⟩], []⟩
    let job : Job := ⟨9, 5, 1, 3, .build, none, .init, "alice",
      [⟨12, some "dev", "https://git.local/team/web.git", none⟩]⟩
    let run := (request.create engine 1 5 3).run.run Rule.takesNoPlan builtOnce ()
    let aborted := (Engine.abort 1 5).run.run Rule.undisturbed run.world ()
    let again := (request.create engine 1 5 3).run.run Rule.undisturbed aborted.world ()
    Rule.takesNoPlan.SparesUpdates Update.setsOrderStatus ∧ job ∈ run.world.store.jobs ∧
      job ∉ builtOnce.store.jobs ∧ aborted.value = .ok () ∧
      aborted.world.store = builtOnce.store.cleared 5 job ∧ again.value ≠ .error (.conflict [9]) := by
  intro engine request job run aborted again
  have hSpares : Rule.takesNoPlan.SparesUpdates Update.setsOrderStatus := by
    rintro state u e - ⟨⟩
  have hStored : builtOnce.store.answer (.order 5) =
    some ⟨5, 1, "v1.2.0", "spring release", 3, 1, "build", "build", .init, "alice", 1⟩ := rfl
  have hJob : job ∈ run.world.store.jobs := by decide +kernel
  have hNew : job ∉ builtOnce.store.jobs := by decide
  obtain ⟨hAborted, -, hWorld, -, -, hAgain⟩ := cleared_of_abort hSpares Rule.sparesStore_undisturbed engine
    request hStored (.inl rfl) () () hJob hNew
  have hStore : aborted.world.store = builtOnce.store.cleared 5 job := congrArg World.store hWorld
  exact ⟨hSpares, hJob, hNew, hAborted, hStore, hAgain Unit _ () Rule.sparesStore_undisturbed [9]⟩

end DeliveryPipeline

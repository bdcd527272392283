import DeliveryPipeline.Proofs.Engine.Reading
import DeliveryPipeline.Proofs.Program.Exchanges
import DeliveryPipeline.Proofs.Session.Orders

/-! # Terminations

A termination reads the order and looks for the run to cancel. The order is marked before the CI server is
asked, and the job only after the server has confirmed. So an order that was marked as terminated refuses
every later termination, also if the server has not confirmed; one that was marked as not terminated may
be terminated again.
-/

namespace DeliveryPipeline

set_option autoImplicit false

open Operation

/-- The job is the one with the highest number among the jobs of the order. -/
structure Store.IsLatestJob (store : Store) (order : Int64) (job : Job) : Prop where
  mem : job ∈ store.jobs
  ofOrder : job.order = order
  greatest : ∀ other ∈ store.jobs, other.order = order → other.id ≤ job.id

theorem Store.isLatestJob_of_answer {store : Store} {order : Int64} {job : Job}
    (h : store.answer (.latestJob order) = some job) : store.IsLatestJob order job := by
  obtain ⟨hMem, hOrder⟩ := mem_of_answer_latestJob h
  refine ⟨hMem, hOrder, fun other hOther hSame => ?_⟩
  exact le_of_getLast?_sortedBy h other (List.mem_filter.mpr ⟨hOther, decide_eq_true hSame⟩)

theorem Store.IsLatestJob.id_eq {store : Store} {order : Int64} {job job' : Job}
    (h : store.IsLatestJob order job) (h' : store.IsLatestJob order job') : job.id = job'.id :=
  Int64.le_antisymm (h'.greatest job h.mem h.ofOrder) (h.greatest job' h'.mem h'.ofOrder)

def World.marked (world : World) (order : Int64) (status : OrderStatus) : World :=
  { world with store := world.store.changeOrder order fun order => { order with status := status } }

def World.abandoned (world : World) (job : Int64) : World :=
  { world with store := world.store.changeJob job fun job => { job with status := .abort } }

theorem World.answer_marked {world : World} {order : Int64} {found : Order}
    (h : world.store.answer (.order order) = some found) (status : OrderStatus) :
    (world.marked order status).store.answer (.order order) = some { found with status := status } :=
  Store.answer_changeOrder_of_found h _ fun _ => rfl

theorem OrderStatus.check_terminate_eq_error {status : OrderStatus} {cause : TransitionError}
    (h : status.check .terminate = .error cause) :
    status = .terminateSuccess ∧ cause = .alreadyTerminated ∨
      status ≠ .terminateSuccess ∧ (status ≠ .running ∧ status ≠ .terminateFailed) ∧
        cause = .notAllowed status .terminate := by
  cases status <;> cases h <;> simp

namespace Engine

variable {engine : Engine} {project order stage : Int64} {kind : JobKind} {before : World}

/-- What the search for the CI server was told, and what it came to. -/
inductive ServerSearch (project stage : Int64) : List Exchange → Except EngineError CiServer → Prop
  | environmentUnread {e : StorageError} : ServerSearch project stage
      [⟨.lookup (.environment project stage), .error e⟩] (.error (.storage e))
  | noEnvironment : ServerSearch project stage [⟨.lookup (.environment project stage), .ok none⟩]
      (.error (.misconfigured (.noEnvironment stage project)))
  | settingUnread {environment : Environment} {e : StorageError} : ServerSearch project stage
      [⟨.lookup (.environment project stage), .ok (some environment)⟩,
        ⟨.lookup (.setting environment.ciServer), .error e⟩]
      (.error (.storage e))
  | noSetting {environment : Environment} : ServerSearch project stage
      [⟨.lookup (.environment project stage), .ok (some environment)⟩,
        ⟨.lookup (.setting environment.ciServer), .ok none⟩]
      (.error (.absent (.setting environment.ciServer)))
  | wrongSetting {environment : Environment} {setting : Setting}
    (other : setting.config.kind ≠ .ciServer) : ServerSearch project stage
      [⟨.lookup (.environment project stage), .ok (some environment)⟩,
        ⟨.lookup (.setting environment.ciServer), .ok (some setting)⟩]
      (.error (.wrongSetting setting.id .ciServer setting.config.kind))
  | incomplete {environment : Environment} {setting : Setting} {server : CiServer}
    (config : setting.config = .ciServer server) (missing : server.missingFields ≠ []) :
    ServerSearch project stage
      [⟨.lookup (.environment project stage), .ok (some environment)⟩,
        ⟨.lookup (.setting environment.ciServer), .ok (some setting)⟩]
      (.error (.misconfigured (.incompleteServer setting.name server.missingFields)))
  | found {environment : Environment} {setting : Setting} {server : CiServer}
    (config : setting.config = .ciServer server) (complete : server.missingFields = []) :
    ServerSearch project stage
      [⟨.lookup (.environment project stage), .ok (some environment)⟩,
        ⟨.lookup (.setting environment.ciServer), .ok (some setting)⟩]
      (.ok server)

/-- What the search for the run to cancel was told, and what it came to. -/
inductive Search (engine : Engine) (project order stage : Int64) (kind : JobKind) (store : Store) :
    List Exchange → Except EngineError CancelTarget → Prop
  | noServer {seen : List Exchange} {e : EngineError} (server : ServerSearch project stage seen (.error e)) :
    Search engine project order stage kind store seen (.error e)
  | jobUnread {seen : List Exchange} {server : CiServer} {e : StorageError}
    (server : ServerSearch project stage seen (.ok server)) :
    Search engine project order stage kind store (seen ++ [⟨.lookup (.latestJob order), .error e⟩])
      (.error (.storage e))
  | noJob {seen : List Exchange} {server : CiServer}
    (server : ServerSearch project stage seen (.ok server)) :
    Search engine project order stage kind store (seen ++ [⟨.lookup (.latestJob order), .ok none⟩])
      (.error (.absent (.jobOfOrder order)))
  | neverStarted {seen : List Exchange} {server : CiServer} {job : Job}
    (server : ServerSearch project stage seen (.ok server)) (latest : store.IsLatestJob order job)
    (run : job.run = none) :
    Search engine project order stage kind store (seen ++ [⟨.lookup (.latestJob order), .ok (some job)⟩])
      (.error (.invalid (.neverStarted job.id)))
  | found {seen : List Exchange} {server : CiServer} {job : Job} {run : Int64}
    (search : ServerSearch project stage seen (.ok server)) (latest : store.IsLatestJob order job)
    (started : job.run = some run) :
    Search engine project order stage kind store (seen ++ [⟨.lookup (.latestJob order), .ok (some job)⟩])
      (.ok ⟨server, engine.jobName kind project order stage, job.id, run⟩)

theorem Search.ne_refused {store : Store} {seen : List Exchange} {e : EngineError}
    (h : Search engine project order stage kind store seen (.error e)) (cause : TransitionError) :
    e ≠ .refused cause := by
  rintro rfl
  cases h with
  | noServer server => cases server

theorem Search.isLatestJob {store : Store} {seen : List Exchange} {target : CancelTarget}
    (h : Search engine project order stage kind store seen (.ok target)) :
    ∃ job, store.IsLatestJob order job ∧ job.id = target.job := by
  cases h with
  | found _ latest => exact ⟨_, latest, rfl⟩

theorem ServerSearch.meets (project stage : Int64) (past : List Exchange) (world : World) :
    (do findServer (← findEnvironment project stage)).Meets (fun _ _ _ => True)
      (fun server past' after => after = world ∧ ∃ seen, past' = past ++ seen ∧
        ServerSearch project stage seen (.ok server))
      (fun e past' after => after = world ∧ ∃ seen, past' = past ++ seen ∧
        ServerSearch project stage seen (.error e)) past world := by
  unfold findEnvironment
  apply meets_find_bind trivial (fun e => ⟨rfl, _, rfl, .environmentUnread⟩)
  · rintro _ rfl
    exact ⟨rfl, _, rfl, .noEnvironment⟩
  rintro _ environment rfl -
  unfold findServer findSetting
  apply meets_find_bind trivial (fun e => ⟨rfl, _, List.append_assoc .., .settingUnread⟩)
  · rintro _ rfl
    exact ⟨rfl, _, List.append_assoc .., .noSetting⟩
  rintro _ setting rfl -
  cases hConfig : setting.config with
  | ciServer server =>
    by_cases hComplete : server.missingFields = []
    · simp only [hComplete]
      exact ⟨rfl, _, List.append_assoc .., .found hConfig hComplete⟩
    · simp only [ensure, List.isEmpty_iff, hComplete]
      exact ⟨rfl, _, List.append_assoc .., .incomplete hConfig hComplete⟩
  | _ =>
    have hOther : setting.config.kind ≠ .ciServer := by
      rw [hConfig]
      exact SettingKind.noConfusion
    have hSearch := @ServerSearch.wrongSetting project stage environment setting hOther
    rw [hConfig] at hSearch
    exact ⟨rfl, _, List.append_assoc .., hSearch⟩

theorem Search.meets (engine : Engine) (project order stage : Int64) (kind : JobKind)
    (past : List Exchange) (world : World) :
    (findCancelTarget engine project order stage kind).Meets (fun _ _ _ => True)
      (fun target past' after => after = world ∧ ∃ seen, past' = past ++ seen ∧
        Search engine project order stage kind world.store seen (.ok target))
      (fun e past' after => after = world ∧ ∃ seen, past' = past ++ seen ∧
        Search engine project order stage kind world.store seen (.error e)) past world := by
  unfold findCancelTarget
  rw [← bind_assoc]
  apply meets_bind.mpr
  refine (ServerSearch.meets project stage past world).weaken ?_ ?_
  · rintro server _ _ ⟨rfl, seen, rfl, hServer⟩
    rw [← bind_assoc]
    apply meets_find_bind trivial (fun e => ⟨rfl, _, List.append_assoc .., .jobUnread hServer⟩)
    · rintro _ rfl
      exact ⟨rfl, _, List.append_assoc .., .noJob hServer⟩
    rintro _ job rfl hStored
    have hLatest := Store.isLatestJob_of_answer (eq_some_of_answer hStored rfl)
    cases hRun : job.run with
    | none => exact ⟨rfl, _, List.append_assoc .., .neverStarted hServer hLatest hRun⟩
    | some run => exact ⟨rfl, _, List.append_assoc .., .found hServer hLatest hRun⟩
  · rintro e _ _ ⟨rfl, seen, rfl, hServer⟩
    exact ⟨rfl, seen, rfl, .noServer hServer⟩

/-- The order was read, and may be terminated. -/
structure MayTerminate (store : Store) (order : Int64) (found : Order) : Prop where
  read : store.answer (.order order) = some found
  status : found.status = .running ∨ found.status = .terminateFailed

/-- The order could not be read or may not be terminated, and nothing is done. -/
inductive Rejection (before : World) (order : Int64) :
    Except EngineError Unit → List Exchange → World → Prop
  | unread {e : StorageError} :
    Rejection before order (.error (.storage e)) [⟨.lookup (.order order), .error e⟩] before
  | absent : Rejection before order (.error (.absent (.order order)))
      [⟨.lookup (.order order), .ok none⟩] before
  | terminated {found : Order} (read : before.store.answer (.order order) = some found)
    (status : found.status = .terminateSuccess) :
    Rejection before order (.error (.refused .alreadyTerminated))
      [⟨.lookup (.order order), .ok (some found)⟩] before
  | unfit {found : Order} (read : before.store.answer (.order order) = some found)
    (notTerminated : found.status ≠ .terminateSuccess)
    (notAllowed : found.status ≠ .running ∧ found.status ≠ .terminateFailed) :
    Rejection before order (.error (.refused (.notAllowed found.status .terminate)))
      [⟨.lookup (.order order), .ok (some found)⟩] before

/-- There is no run to cancel: the order is marked as not terminated. -/
inductive Failure (engine : Engine) (project order stage : Int64) (kind : JobKind) (before : World) :
    Except EngineError Unit → List Exchange → World → Prop
  | intro {found : Order} {seen : List Exchange} {e : EngineError}
    (may : MayTerminate before.store order found)
    (search : Search engine project order stage kind before.store seen (.error e)) :
    Failure engine project order stage kind before (.error e)
      (⟨.lookup (.order order), .ok (some found)⟩ :: seen ++
        [⟨.update (.setOrderStatus order .terminateFailed), .ok ()⟩])
      (before.marked order .terminateFailed)

/-- The order is marked as terminated before the run is cancelled, and the job is aborted exactly if the
server confirms. -/
inductive Cancellation (engine : Engine) (project order stage : Int64) (kind : JobKind) (before : World) :
    Except EngineError Unit → List Exchange → World → Prop
  | confirmed {found : Order} {seen : List Exchange} {target : CancelTarget}
    (may : MayTerminate before.store order found)
    (search : Search engine project order stage kind before.store seen (.ok target)) :
    Cancellation engine project order stage kind before (.ok ())
      (⟨.lookup (.order order), .ok (some found)⟩ :: seen ++
        [⟨.update (.setOrderStatus order .terminateSuccess), .ok ()⟩,
          ⟨.errand (.cancel target.server target.jobName target.run), .ok ()⟩,
          ⟨.update (.setJobStatus target.job .abort), .ok ()⟩])
      ((before.marked order .terminateSuccess).abandoned target.job)
  | unconfirmed {found : Order} {seen : List Exchange} {target : CancelTarget} {cause : ErrandError}
    (may : MayTerminate before.store order found)
    (search : Search engine project order stage kind before.store seen (.ok target)) :
    Cancellation engine project order stage kind before (.error (.outside .cancellation cause))
      (⟨.lookup (.order order), .ok (some found)⟩ :: seen ++
        [⟨.update (.setOrderStatus order .terminateSuccess), .ok ()⟩,
          ⟨.errand (.cancel target.server target.jobName target.run), .error cause⟩])
      (before.marked order .terminateSuccess)

def Unwritten (past : List Exchange) : Prop :=
  ∃ u e, u.setsStatus = true ∧ (⟨.update u, .error e⟩ : Exchange) ∈ past

/-- How a termination ends, if no status fails to be written. -/
inductive Termination (engine : Engine) (project order stage : Int64) (kind : JobKind) (before : World)
    (value : Except EngineError Unit) (past : List Exchange) (after : World) : Prop
  | rejected (h : Rejection before order value past after)
  | failed (h : Failure engine project order stage kind before value past after)
  | cancelled (h : Cancellation engine project order stage kind before value past after)

theorem Rejection.of_check {found : Order} {cause : TransitionError}
    (read : before.store.answer (.order order) = some found) (h : found.status.check .terminate = .error cause) :
    Rejection before order (.error (.refused cause)) [⟨.lookup (.order order), .ok (some found)⟩] before := by
  obtain ⟨hStatus, rfl⟩ | ⟨hNotTerminated, hNotAllowed, rfl⟩ := OrderStatus.check_terminate_eq_error h
  · exact .terminated read hStatus
  · exact .unfit read hNotTerminated hNotAllowed

theorem meets_cancel {allowed : Call → Assertion} {ends : Unit → Assertion}
    {fails : EngineError → Assertion} {past : List Exchange} {world : World} {server : CiServer}
    {name : String} {run : Int64} (allowed' : allowed (.errand (.cancel server name run)) past world)
    (confirmed : ends () (past ++ [⟨.errand (.cancel server name run), .ok ()⟩]) world)
    (unconfirmed : ∀ cause, fails (.outside .cancellation cause)
      (past ++ [⟨.errand (.cancel server name run), .error cause⟩]) world) :
    (errand .cancellation (.cancel server name run)).Meets allowed ends fails past world := by
  constructor
  · exact allowed'
  intro disturbance
  cases disturbance with
  | errandFails cause => exact unconfirmed cause
  | none | storeFails _ | findsNothing | scopeBusy _ => exact confirmed

theorem meets_terminate (engine : Engine) (project order stage : Int64) (kind : JobKind) (world : World) :
    (terminate engine project order stage kind).Meets (fun _ _ _ => True)
      (fun a past after => Termination engine project order stage kind world (.ok a) past after)
      (fun e past after => Termination engine project order stage kind world (.error e) past after ∨
        (∃ found, MayTerminate world.store order found) ∧ Unwritten past) [] world := by
  unfold terminate findOrder
  apply meets_find_bind trivial (fun e => .inl (.rejected .unread))
  · rintro _ rfl
    exact .inl (.rejected .absent)
  rintro _ found rfl hStored
  have hRead := eq_some_of_answer hStored rfl
  rw [ensureAllowed]
  cases hCheck : found.status.check .terminate with
  | error cause => exact .inl (.rejected (.of_check hRead hCheck))
  | ok _ =>
    have hMay : MayTerminate world.store order found := by
      refine ⟨hRead, OrderStatus.allows_terminate_iff.mp ?_⟩
      rw [OrderStatus.allows, hCheck]
      rfl
    rw [pure_bind]
    apply meets_bind.mpr
    apply meets_attempt.mpr
    -- The order is marked in either case, but only what was found can be cancelled.
    refine (Search.meets engine project order stage kind _ world).weaken ?_ ?_
    · rintro target _ _ ⟨rfl, seen, rfl, hSearch⟩
      apply meets_update_bind rfl (by simp) trivial
      · apply meets_bind.mpr
        apply meets_cancel trivial
        · apply meets_update (u := .setJobStatus target.job .abort) rfl (by simp) trivial
          · rw [List.append_assoc, List.append_assoc]
            exact .cancelled (.confirmed hMay hSearch)
          · intro e
            exact .inr ⟨⟨found, hMay⟩, _, e, rfl, List.mem_append_right _ (List.mem_singleton.mpr rfl)⟩
        · intro cause
          rw [List.append_assoc]
          exact .inl (.cancelled (.unconfirmed hMay hSearch))
      · intro e
        exact .inr ⟨⟨found, hMay⟩, _, e, rfl, List.mem_append_right _ (List.mem_singleton.mpr rfl)⟩
    · rintro e _ _ ⟨rfl, seen, rfl, hSearch⟩
      apply meets_update_bind rfl (by simp) trivial
      · exact .inl (.failed (.intro hMay hSearch))
      · intro e
        exact .inr ⟨⟨found, hMay⟩, _, e, rfl, List.mem_append_right _ (List.mem_singleton.mpr rfl)⟩

section

variable {value : Except EngineError Unit} {past : List Exchange} {after : World} {found found' : Order}

def WasRead (order : Int64) (found : Order) (past : List Exchange) : Prop :=
  past.head? = some ⟨.lookup (.order order), .ok (some found)⟩

@[simp] theorem wasRead_cons_iff {reply : Call.Reply (.lookup (.order order))} {rest : List Exchange} :
    WasRead order found (⟨.lookup (.order order), reply⟩ :: rest) ↔ reply = .ok (some found) := by
  constructor
  · intro h
    injection h with h
    injection h
  · rintro rfl
    rfl

theorem WasRead.unique (h : WasRead order found past) (h' : WasRead order found' past) : found = found' := by
  have hSame := h.symm.trans h'
  injection hSame with hSame
  injection hSame with _ hSame
  injection hSame with hSame
  injection hSame

theorem MayTerminate.status_ne {store : Store} (h : MayTerminate store order found) :
    found.status ≠ .terminateSuccess := by
  intro hStatus
  rcases h.status with h | h <;> cases h.symm.trans hStatus

theorem Rejection.not_mayTerminate (h : Rejection before order value past after)
    (read : WasRead order found past) : ¬ MayTerminate before.store order found := by
  intro hMay
  cases h with
  | unread | absent => cases wasRead_cons_iff.mp read
  | terminated _ status =>
    cases wasRead_cons_iff.mp read
    exact hMay.status_ne status
  | unfit _ _ notAllowed =>
    cases wasRead_cons_iff.mp read
    rcases hMay.status with hStatus | hStatus
    · exact notAllowed.1 hStatus
    · exact notAllowed.2 hStatus

theorem Failure.wasRead (h : Failure engine project order stage kind before value past after) :
    ∃ found, WasRead order found past ∧ MayTerminate before.store order found := by
  cases h with
  | intro may => exact ⟨_, rfl, may⟩

theorem Cancellation.wasRead
    (h : Cancellation engine project order stage kind before value past after) :
    ∃ found, WasRead order found past ∧ MayTerminate before.store order found := by
  cases h with
  | confirmed may | unconfirmed may => exact ⟨_, rfl, may⟩

theorem Failure.value_ne (h : Failure engine project order stage kind before value past after)
    (cause : TransitionError) : value ≠ .error (.refused cause) := by
  rintro rfl
  cases h with
  | intro _ search => exact search.ne_refused cause rfl

theorem Cancellation.value_ne
    (h : Cancellation engine project order stage kind before value past after) (cause : TransitionError) :
    value ≠ .error (.refused cause) := by
  rintro rfl
  cases h

theorem Termination.rejection (h : Termination engine project order stage kind before value past after)
    (unfit : ∀ found, ¬ MayTerminate before.store order found) : Rejection before order value past after := by
  cases h with
  | rejected h => exact h
  | failed h =>
    obtain ⟨found, -, hMay⟩ := h.wasRead
    exact absurd hMay (unfit found)
  | cancelled h =>
    obtain ⟨found, -, hMay⟩ := h.wasRead
    exact absurd hMay (unfit found)

theorem Rejection.alreadyTerminated_iff (h : Rejection before order value past after) :
    value = .error (.refused .alreadyTerminated) ↔
      ∃ found, WasRead order found past ∧ found.status = .terminateSuccess := by
  cases h with
  | unread | absent => simp
  | terminated _ status => simp [status]
  | unfit _ notTerminated => simp [notTerminated]

theorem Termination.alreadyTerminated_iff
    (h : Termination engine project order stage kind before value past after) :
    value = .error (.refused .alreadyTerminated) ↔
      ∃ found, WasRead order found past ∧ found.status = .terminateSuccess := by
  have hOther : (∃ found, WasRead order found past ∧ MayTerminate before.store order found) →
      value ≠ .error (.refused .alreadyTerminated) → (value = .error (.refused .alreadyTerminated) ↔
        ∃ found, WasRead order found past ∧ found.status = .terminateSuccess) := by
    rintro ⟨found, hRead, hMay⟩ hValue
    refine iff_of_false hValue ?_
    rintro ⟨other, hOther, hStatus⟩
    rw [hOther.unique hRead] at hStatus
    exact hMay.status_ne hStatus
  cases h with
  | rejected h => exact h.alreadyTerminated_iff
  | failed h => exact hOther h.wasRead (h.value_ne _)
  | cancelled h => exact hOther h.wasRead (h.value_ne _)

theorem Failure.answer_order (h : Failure engine project order stage kind before value past after) :
    ∃ found, after.store.answer (.order order) = some found ∧ found.status = .terminateFailed := by
  cases h with
  | intro may => exact ⟨_, World.answer_marked may.read .terminateFailed, rfl⟩

theorem Cancellation.answer_order
    (h : Cancellation engine project order stage kind before value past after) :
    ∃ found, after.store.answer (.order order) = some found ∧ found.status = .terminateSuccess := by
  cases h with
  | confirmed may | unconfirmed may =>
    exact ⟨_, World.answer_marked may.read .terminateSuccess, rfl⟩

theorem Rejection.answer_of_wasRead (h : Rejection before order value past after)
    (read : WasRead order found past) : before.store.answer (.order order) = some found := by
  cases h with
  | unread | absent => cases wasRead_cons_iff.mp read
  | terminated stored | unfit stored =>
    cases wasRead_cons_iff.mp read
    exact stored

theorem Termination.answer_job (h : Termination engine project order stage kind before value past after)
    (distinct : before.store.DistinctJobs) {job : Job} (latest : before.store.IsLatestJob order job) :
    (value = .ok () → after.store.answer (.job job.id) = some { job with status := .abort }) ∧
      (value ≠ .ok () → after.store.answer (.job job.id) = some job) := by
  have hStored := distinct.answer_job latest.mem
  cases h with
  | rejected h =>
    cases h <;> exact ⟨fun h => (nomatch h), fun _ => hStored⟩
  | failed h =>
    cases h with
    | intro => exact ⟨fun h => (nomatch h), fun _ => hStored⟩
  | cancelled h =>
    cases h with
    | confirmed may search =>
      refine ⟨fun _ => ?_, fun h => absurd rfl h⟩
      obtain ⟨job', hLatest, hId⟩ := search.isLatestJob
      rw [← hId, ← latest.id_eq hLatest]
      have hMarked : (before.marked order .terminateSuccess).store.answer (.job job.id) = some job := hStored
      exact Store.answer_changeJob hMarked _ fun _ => rfl
    | unconfirmed => exact ⟨fun h => (nomatch h), fun _ => hStored⟩

end

variable {σ : Type}

theorem termination_or_unwritten (engine : Engine) (project order stage : Int64) (kind : JobKind)
    (rule : Rule σ) (world : World) (state : σ) :
    let run := (terminate engine project order stage kind).run.run rule world state
    Termination engine project order stage kind world run.value run.exchanges run.world ∨
      (∃ found, MayTerminate world.store order found) ∧ Unwritten run.exchanges := by
  intro run
  have hEnd := Program.Meets.ends_run (meets_terminate engine project order stage kind world) rule state
  cases hValue : run.value with
  | ok a =>
    rw [hValue] at hEnd
    exact .inl hEnd
  | error e =>
    rw [hValue] at hEnd
    exact hEnd

theorem termination_of_sparesUpdates {rule : Rule σ} (spares : rule.SparesUpdates Update.setsStatus)
    (engine : Engine) (project order stage : Int64) (kind : JobKind) (world : World) (state : σ) :
    let run := (terminate engine project order stage kind).run.run rule world state
    Termination engine project order stage kind world run.value run.exchanges run.world := by
  rcases termination_or_unwritten engine project order stage kind rule world state with h | ⟨-, h⟩
  · exact h
  · obtain ⟨u, e, hStatus, hMem⟩ := h
    exact absurd hMem (spares.not_mem_exchanges (fun _ => id) hStatus)

theorem rejection_of_unfit {world : World} (unfit : ∀ found, ¬ MayTerminate world.store order found)
    (engine : Engine) (project stage : Int64) (kind : JobKind) (rule : Rule σ) (state : σ) :
    let run := (terminate engine project order stage kind).run.run rule world state
    Rejection world order run.value run.exchanges run.world := by
  rcases termination_or_unwritten engine project order stage kind rule world state with h | ⟨⟨found, h⟩, -⟩
  · exact h.rejection unfit
  · exact absurd h (unfit found)

end Engine

theorem Session.status_of_isSettled {σ : Type} {session : Session σ} {id : Int64} {order : Order}
    (found : session.start.store.answer (.order id) = some order)
    (settled : order.status.isSettled = true) :
    ∀ world ∈ session.worlds, ∃ order', world.store.answer (.order id) = some order' ∧
      order'.status = order.status := by
  apply Session.holds_of_mem_worlds
  · exact ⟨order, found, rfl⟩
  rintro deed hSound ⟨order', hFound, hStatus⟩
  obtain ⟨order'', hFound', -, hKept | hGraph⟩ :=
    find?_of_forall₂ hSound.forall₂_orders (fun h => h.1) hFound
  · exact ⟨order'', hFound', hKept.trans hStatus⟩
  · rw [hStatus, OrderStatus.mayBecome_eq_false settled] at hGraph
    cases hGraph

namespace Engine

/-- Whoever terminates the order here does no more than to read it, and is told that it is terminated. -/
def RefusesTermination (order : Int64) (world : World) : Prop :=
  ∀ (engine : Engine) (project stage : Int64) (kind : JobKind) (σ : Type) (rule : Rule σ) (state : σ),
    let run := (terminate engine project order stage kind).run.run rule world state
    Rejection world order run.value run.exchanges run.world ∧
      ((∃ found, WasRead order found run.exchanges) → run.value = .error (.refused .alreadyTerminated))

/-- Whoever terminates the order here is not rejected, if the order can be read. -/
def AcceptsTermination (order : Int64) (world : World) : Prop :=
  ∀ (engine : Engine) (project stage : Int64) (kind : JobKind) (σ : Type) (rule : Rule σ) (state : σ),
    rule.SparesUpdates Update.setsStatus →
    let run := (terminate engine project order stage kind).run.run rule world state
    (∃ found, WasRead order found run.exchanges) →
      Failure engine project order stage kind world run.value run.exchanges run.world ∨
        Cancellation engine project order stage kind world run.value run.exchanges run.world

theorem refusesTermination_of_answer {world : World} {order : Int64} {found : Order}
    (stored : world.store.answer (.order order) = some found) (status : found.status = .terminateSuccess) :
    RefusesTermination order world := by
  intro engine project stage kind σ rule state
  have hUnfit : ∀ other, ¬ MayTerminate world.store order other := by
    intro other hMay
    obtain rfl := Option.some.inj (hMay.read.symm.trans stored)
    exact hMay.status_ne status
  have hRejection := rejection_of_unfit hUnfit engine project stage kind rule state
  refine ⟨hRejection, ?_⟩
  rintro ⟨other, hRead⟩
  have hSame := Option.some.inj ((hRejection.answer_of_wasRead hRead).symm.trans stored)
  exact hRejection.alreadyTerminated_iff.mpr ⟨other, hRead, hSame ▸ status⟩

theorem acceptsTermination_of_mayTerminate {world : World} {order : Int64} {found : Order}
    (may : MayTerminate world.store order found) : AcceptsTermination order world := by
  rintro engine project stage kind σ rule state spares run ⟨other, hRead⟩
  cases termination_of_sparesUpdates spares engine project order stage kind world state with
  | failed h => exact .inl h
  | cancelled h => exact .inr h
  | rejected h =>
    obtain rfl := Option.some.inj ((h.answer_of_wasRead hRead).symm.trans may.read)
    exact absurd may (h.not_mayTerminate hRead)

/-- A termination whose status writes succeed is rejected, marks the order as not terminated, or cancels
the run of the latest job. After a cancellation the order refuses to be terminated for good, and after a
failure it does not. -/
theorem termination_of_run {σ : Type} {rule : Rule σ} (spares : rule.SparesUpdates Update.setsStatus)
    {world : World} (distinct : world.store.DistinctJobs) (engine : Engine) (project order stage : Int64)
    (kind : JobKind) (state : σ) :
    let run := (terminate engine project order stage kind).run.run rule world state
    Termination engine project order stage kind world run.value run.exchanges run.world ∧
      (run.value = .error (.refused .alreadyTerminated) ↔
        ∃ found, WasRead order found run.exchanges ∧ found.status = .terminateSuccess) ∧
      (∀ job, world.store.IsLatestJob order job →
        (run.value = .ok () → run.world.store.answer (.job job.id) = some { job with status := .abort }) ∧
        (run.value ≠ .ok () → run.world.store.answer (.job job.id) = some job)) ∧
      (Failure engine project order stage kind world run.value run.exchanges run.world →
        AcceptsTermination order run.world) ∧
      (Cancellation engine project order stage kind world run.value run.exchanges run.world →
        ∀ (τ : Type) (session : Session τ), session.start = run.world →
          ∀ later ∈ session.worlds, RefusesTermination order later) := by
  intro run
  have hTermination := termination_of_sparesUpdates spares engine project order stage kind world state
  refine ⟨hTermination, hTermination.alreadyTerminated_iff, ?_, ?_, ?_⟩
  · intro job hLatest
    exact hTermination.answer_job distinct hLatest
  · intro hFailure
    obtain ⟨found, hStored, hStatus⟩ := hFailure.answer_order
    exact acceptsTermination_of_mayTerminate ⟨hStored, .inr hStatus⟩
  · intro hCancellation τ session hStart later hLater
    obtain ⟨found, hStored, hStatus⟩ := hCancellation.answer_order
    obtain ⟨found', hStored', hKept⟩ := Session.status_of_isSettled (hStart ▸ hStored)
      (by rw [hStatus]; rfl) later hLater
    exact refusesTermination_of_answer hStored' (hKept.trans hStatus)

/-- The server cannot be reached, so that the run goes on; the order is terminated all the same. -/
theorem termination_of_run_in_sample :
    let engine : Engine := .ofServer "http://conveyor.local"
    let world : World := { store := Session.sampleStore, histories := [], nextRun := 100 }
    let run := (terminate engine 1 5 3 .build).run.run Rule.cutOff world ()
    let again := (terminate engine 1 5 3 .build).run.run Rule.undisturbed run.world ()
    Rule.cutOff.SparesUpdates Update.setsStatus ∧ world.store.DistinctJobs ∧
      run.value = .error (.outside .cancellation ⟨["unreachable"]⟩) ∧
      run.world.store.answer (.job 9) = world.store.answer (.job 9) ∧
      again.value = .error (.refused .alreadyTerminated) := by
  intro engine world run again
  have hSpares := Rule.sparesStore_cutOff.sparesUpdates Update.setsStatus
  have hDistinct : world.store.DistinctJobs := by
    unfold Store.DistinctJobs
    decide
  have hValue : run.value = .error (.outside .cancellation ⟨["unreachable"]⟩) := by decide +kernel
  have hStatus : (run.world.store.answer (.order 5)).map Order.status = some .terminateSuccess := by
    decide +kernel
  have hLatest : world.store.IsLatestJob 5 ⟨9, 5, 1, 4, .deploy, some 77, .running, "alice", []⟩ :=
    ⟨by decide, rfl, by decide⟩
  obtain ⟨hTermination, -, hJob, -, hLater⟩ := termination_of_run hSpares hDistinct engine 1 5 3 .build ()
  refine ⟨hSpares, hDistinct, hValue, ?_, ?_⟩
  · exact (hJob _ hLatest).2 fun hOk => nomatch hValue.symm.trans hOk
  · have hCancellation : Cancellation engine 1 5 3 .build world run.value run.exchanges run.world := by
      cases hTermination with
      | rejected h => exact absurd ⟨rfl, .inl rfl⟩ (h.not_mayTerminate rfl)
      | failed h =>
        obtain ⟨found, hStored, hFailed⟩ := h.answer_order
        rw [hStored, Option.map_some, hFailed] at hStatus
        cases hStatus
      | cancelled h => exact h
    have hRefuses := hLater hCancellation Unit ⟨engine, Rule.undisturbed, (), run.world, []⟩ rfl run.world
      List.mem_cons_self
    obtain ⟨found, hStored, -⟩ := hCancellation.answer_order
    refine (hRefuses engine 1 3 .build Unit Rule.undisturbed ()).2 ⟨found, ?_⟩
    rw [WasRead, ← hStored]
    rfl

end Engine

end DeliveryPipeline

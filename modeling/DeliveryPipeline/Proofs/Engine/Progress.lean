import DeliveryPipeline.Proofs.Engine.Undisturbed
import DeliveryPipeline.Proofs.Program.Exchanges
import DeliveryPipeline.Proofs.Program.Proceeds

/-! # What a completion reports

The report of a job and the confirmation of a manual step answer with the statuses of the job and the order,
the index of the step, and the job that was launched next. The store bears all of this out. What comes last is
the launch, and it is only tried: whatever goes wrong there, the answer and the store are as they would have
been, but for the launched job.
-/

namespace DeliveryPipeline

set_option autoImplicit false

open Operation

def Call.startsLaunch : Call → Bool
  | .lookup (.orderApps _) => true
  | _ => false

namespace Rule

variable {σ : Type}

/-- The rule that disturbs what the given one does until a launch begins, and nothing from there on. -/
def sparingLaunch (rule : Rule σ) : Rule (Option σ)
  | none, _ => (.none, none)
  | some state, c =>
    if c.startsLaunch then (.none, none) else ((rule state c).1, some (rule state c).2)

theorem follows_sparingLaunch (rule : Rule σ) :
    rule.sparingLaunch.Follows rule (fun c => !c.startsLaunch) some := by
  intro state c hSpares
  have hNot : ¬ c.startsLaunch = true := by simpa using hSpares
  exact if_neg hNot

theorem run_sparingLaunch_none {α : Type} (rule : Rule σ) (p : Program α) (world : World) :
    let run := p.run Rule.undisturbed world ()
    p.run rule.sparingLaunch world none = ⟨run.value, run.world, none, run.exchanges⟩ := by
  induction p generalizing world with
  | done a => rfl
  | call c next ih =>
    have hRest := ih (world.reply .none c).1 (world.reply .none c).2
    refine (Program.run_call rule.sparingLaunch c next world none).trans ?_
    dsimp only [sparingLaunch] at hRest ⊢
    rw [hRest]
    rfl

theorem run_sparingLaunch_call {α : Type} (rule : Rule σ) {c : Call} (starts : c.startsLaunch = true)
    (next : c.Reply → Program α) (world : World) (state : σ) :
    let run := (Program.call c next).run Rule.undisturbed world ()
    (Program.call c next).run rule.sparingLaunch world (some state) =
      ⟨run.value, run.world, none, run.exchanges⟩ := by
  have hNone : rule.sparingLaunch (some state) c = (.none, none) := if_pos starts
  refine (Program.run_call rule.sparingLaunch c next world (some state)).trans ?_
  rw [hNone, run_sparingLaunch_none]
  rfl

end Rule

namespace Store

variable {store store' : Store}

theorem answer_order_of_orders_eq (h : store.orders = store'.orders) (id : Int64) :
    store.answer (.order id) = store'.answer (.order id) := by
  unfold answer
  rw [h]

theorem answer_job_of_jobs_eq (h : store.jobs = store'.jobs) (id : Int64) :
    store.answer (.job id) = store'.answer (.job id) := by
  unfold answer
  rw [h]

end Store

inductive Completion where
  | report (stage : Int64) (kind : JobKind) (callback : Callback)
  | confirmation (request : ConfirmRequest)

namespace Completion

def operation (engine : Engine) (project order : Int64) : Completion → Operation Progress
  | report stage kind callback => engine.complete project order stage kind callback
  | confirmation request => engine.confirm project order request

def job? : Completion → Option Int64
  | report _ _ callback => some callback.job
  | confirmation _ => none

def settle (completion : Completion) (store : Store) : Store :=
  match completion with
  | report _ _ callback => store.settle callback.job callback.outcome.status
  | confirmation _ => store

/-- The store holds the order and the reported job as they are said to be. -/
structure Bears (completion : Completion) (order : Int64) (store : Store) (progress : Progress) : Prop where
  order : ∃ found, store.answer (.order order) = some found ∧ found.status = progress.orderStatus ∧
    found.stepIndex = progress.stepIndex
  job : ∀ id, completion.job? = some id →
    ∃ found, store.answer (.job id) = some found ∧ found.status = progress.jobStatus

theorem bears_report {order stage : Int64} {kind : JobKind} {callback : Callback} {store : Store}
    {progress : Progress} {found : Order} {job : Job} (stored : store.answer (.order order) = some found)
    (status : found.status = progress.orderStatus) (index : found.stepIndex = progress.stepIndex)
    (reported : store.answer (.job callback.job) = some job) (ended : job.status = progress.jobStatus) :
    (report stage kind callback).Bears order store progress where
  order := ⟨found, stored, status, index⟩
  job := by
    rintro _ ⟨⟩
    exact ⟨job, reported, ended⟩

theorem Bears.of_mayGain {completion : Completion} {order : Int64} {before after : Store}
    {progress : Progress} (h : completion.Bears order before progress) (gain : before.MayGain after)
    (launched : Option Launch) :
    completion.Bears order after { progress with nextJob := launched } where
  order := by
    obtain ⟨found, hFound, hRest⟩ := h.order
    exact ⟨found, (gain.answer_order order).trans hFound, hRest⟩
  job id hJob := by
    obtain ⟨found, hFound, hStatus⟩ := h.job id hJob
    exact ⟨found, gain.keepsRecords.jobs id found hFound, hStatus⟩

end Completion

/-- A job for the order has been added, and runs as the launch says. -/
structure HasLaunched (engine : Engine) (order : Int64) (before after : Store) (past : List Exchange)
    (launch : Launch) (job : Job) : Prop where
  jobs : after.jobs = before.jobs ++ [job]
  order : job.order = order
  status : job.status = .running
  run : job.run = some launch.run
  name : launch.jobName = engine.jobNameOf job
  submitted : ∃ server plan, ⟨.errand (.submit server launch.jobName plan), .ok launch.run⟩ ∈ past

theorem HasLaunched.mono {engine : Engine} {order : Int64} {before after before' : Store}
    {past past' : List Exchange} {launch : Launch} {job : Job}
    (h : HasLaunched engine order before after past launch job) (jobs : before.jobs = before'.jobs)
    (sub : past ⊆ past') : HasLaunched engine order before' after past' launch job where
  jobs := by rw [h.jobs, jobs]
  order := h.order
  status := h.status
  run := h.run
  name := h.name
  submitted := by
    obtain ⟨server, plan, hMem⟩ := h.submitted
    exact ⟨server, plan, sub hMem⟩

def JobRequest.ofApps (kind : JobKind) (creator : String) (apps : List OrderApp) : JobRequest :=
  match kind with
  | .build => .build (Engine.buildRequestOf creator apps)
  | .deploy => .deploy (Engine.deployRequestOf creator apps)

@[simp] theorem JobRequest.kind_ofApps (kind : JobKind) (creator : String) (apps : List OrderApp) :
    (JobRequest.ofApps kind creator apps).kind = kind := by
  cases kind <;> rfl

theorem Creation.exists_hasLaunched {engine : Engine} {project order stage : Int64} {kind : JobKind}
    {before after : Store} {past : List Exchange} {launch : Launch}
    (h : Creation engine project order stage kind before (.ok launch) past after) :
    ∃ job, HasLaunched engine order before after past launch job := by
  cases h with
  | @launched job server plan run _ new accepted =>
    refine ⟨job.started run, ?_⟩
    exact
      { jobs := rfl
        order := (Job.isAt_iff.mp new.place).1
        status := rfl
        run := rfl
        name := rfl
        submitted := ⟨server, plan, accepted⟩ }

namespace Engine

variable {σ : Type} {engine : Engine} {rule : Rule σ} {world : World} {state : σ}

theorem launchApps_eq_bind (engine : Engine) (order : Order) (stage : Int64) (kind : JobKind)
    (creator : String) : launchApps engine order stage kind creator =
      (lookup (.orderApps order.id) >>= fun apps =>
        (JobRequest.ofApps kind creator apps).create engine order.project order.id stage) := by
  unfold launchApps
  cases kind <;> rfl

theorem value_create_ofApps_nil {kind : JobKind} {creator : String} {project order stage : Int64} :
    (((JobRequest.ofApps kind creator []).create engine project order stage).run.run rule world state).value =
      .error (.invalid (.noApps kind)) := by
  cases kind <;> rfl

theorem run_lookup_cases {l : Lookup} {answer : l.Answer}
    (told : ((lookup l).run.run rule world state).value = .ok answer) :
    (answer = world.store.answer l ∨ answer = l.nothing) ∧
      ((lookup l).run.run rule world state).world = world := by
  have hReads : (lookup l).run.Hears (fun _ => True) world _ := Reads.hears reads_lookup
  obtain ⟨hFound, hWorld, -⟩ := hReads.of_run rule state fun _ _ _ _ => trivial
  exact ⟨hFound answer told, hWorld⟩

theorem hasLaunched_of_launchApps {order : Order} {stage : Int64} {kind : JobKind} {creator : String}
    {launch : Launch}
    (launched : ((launchApps engine order stage kind creator).run.run rule world state).value = .ok launch) :
    let run := (launchApps engine order stage kind creator).run.run rule world state
    ∃ job, HasLaunched engine order.id world.store run.world.store run.exchanges launch job := by
  intro run
  obtain ⟨apps, hTold, hCreated, hRun⟩ :=
    exists_of_run_bind (launchApps_eq_bind engine order stage kind creator) launched
  obtain ⟨-, hWorld⟩ := run_lookup_cases hTold
  rw [hWorld] at hCreated hRun
  obtain ⟨job, hLaunched⟩ : ∃ job, HasLaunched engine order.id world.store
      (((JobRequest.ofApps kind creator apps).create engine order.project order.id stage).run.run rule world
        ((lookup (.orderApps order.id)).run.run rule world state).state).world.store
      (((JobRequest.ofApps kind creator apps).create engine order.project order.id stage).run.run rule world
        ((lookup (.orderApps order.id)).run.run rule world state).state).exchanges launch job := by
    have hCreates := (JobRequest.ofApps kind creator apps).creates engine order.project order.id stage world
    have hCreation := Program.Meets.ends_run hCreates rule
      ((lookup (.orderApps order.id)).run.run rule world state).state
    rw [hCreated] at hCreation
    exact hCreation.exists_hasLaunched
  rw [show run = _ from hRun]
  exact ⟨job, hLaunched.mono rfl (List.subset_append_right _ _)⟩

theorem value_launchApps_undisturbed {order : Order} {stage : Int64} {kind : JobKind} {creator : String}
    {launch : Launch}
    (launched : ((launchApps engine order stage kind creator).run.run rule world state).value = .ok launch) :
    ((launchApps engine order stage kind creator).run.run Rule.undisturbed world ()).value = .ok launch := by
  obtain ⟨apps, hTold, hCreated, -⟩ :=
    exists_of_run_bind (launchApps_eq_bind engine order stage kind creator) launched
  obtain ⟨hApps, hWorld⟩ := run_lookup_cases hTold
  rw [hWorld] at hCreated
  rcases hApps with rfl | rfl
  · rw [launchApps_eq_bind]
    have hLookup : ((lookup (.orderApps order.id)).run.run Rule.undisturbed world ()).value =
        .ok (world.store.answer (.orderApps order.id)) := rfl
    have hRun := run_bind_of_ok (f := fun apps =>
      (JobRequest.ofApps kind creator apps).create engine order.project order.id stage) hLookup
    exact (congrArg Run.value hRun).trans (JobRequest.value_undisturbed hCreated)
  · cases value_create_ofApps_nil.symm.trans hCreated

theorem run_launchNext {order : Order} {stage : Int64} {step : Step} {kind : JobKind} {creator : String}
    (runs : jobKindOf? step.kind = some kind) :
    (launchNext engine order stage step creator).run.run rule world state =
      let launch := (launchApps engine order stage kind creator).run.run rule world state
      ⟨.ok launch.value.toOption, launch.world, launch.state, launch.exchanges⟩ := by
  unfold launchNext
  rw [runs]
  refine run_attempt_bind.trans ?_
  dsimp only
  generalize (launchApps engine order stage kind creator).run.run rule world state = launch
  obtain ⟨value, after, last, exchanges⟩ := launch
  cases value with
  | error e => exact congrArg (Run.mk _ _ _) (List.append_nil exchanges)
  | ok launch => exact congrArg (Run.mk _ _ _) (List.append_nil exchanges)

theorem run_launchApps_sparing {order : Order} {stage : Int64} {kind : JobKind} {creator : String} :
    let run := (launchApps engine order stage kind creator).run.run Rule.undisturbed world ()
    (launchApps engine order stage kind creator).run.run rule.sparingLaunch world (some state) =
      ⟨run.value, run.world, none, run.exchanges⟩ :=
  rule.run_sparingLaunch_call (c := .lookup (.orderApps order.id)) rfl _ world state

/-- What comes of a launch that is tried, whether it is disturbed or not. -/
structure Tried (engine : Engine) (order : Int64) (before : Store)
    (run : Run σ (Except EngineError (Option Launch)))
    (calm : Run (Option σ) (Except EngineError (Option Launch))) (launched calmly : Option Launch) : Prop where
  value : run.value = .ok launched
  value_calmly : calm.value = .ok calmly
  same : launched = none ∨ launched = calmly
  gains : before.MayGain run.world.store
  gains_calmly : before.MayGain calm.world.store
  launched : ∀ launch, launched = some launch →
    ∃ job, HasLaunched engine order before run.world.store run.exchanges launch job

theorem exists_tried_of_run (engine : Engine) (rule : Rule σ) (state : σ) {order stored : Order}
    (stage : Int64) (step : Step) (creator : String)
    (asked : world.store.answer (.order order.id) = some stored) (started : stored.status ≠ .init) :
    ∃ launched calmly, Tried engine order.id world.store
      ((launchNext engine order stage step creator).run.run rule world state)
      ((launchNext engine order stage step creator).run.run rule.sparingLaunch world (some state))
      launched calmly := by
  -- An order that has started is not written by the launch, so the launch adds a job at most.
  have hMeets : (launchNext engine order stage step creator).Meets _ _ _ [] world :=
    meets_launchNext stage step creator asked started
  cases hKind : jobKindOf? step.kind with
  | none =>
    have hNone : launchNext engine order stage step creator = pure none := by
      unfold launchNext
      rw [hKind]
    rw [hNone]
    refine ⟨none, none, ?_⟩
    exact
      { value := rfl
        value_calmly := rfl
        same := .inl rfl
        gains := .nothing
        gains_calmly := .nothing
        launched := fun _ h => nomatch h }
  | some kind =>
    let apps := (launchApps engine order stage kind creator).run.run rule world state
    let calmly := (launchApps engine order stage kind creator).run.run rule.sparingLaunch world (some state)
    -- What succeeds in spite of disturbances succeeds without them in the same way.
    have hSame : apps.value.toOption = none ∨ apps.value.toOption = calmly.value.toOption := by
      cases hValue : apps.value with
      | error e => exact .inl rfl
      | ok launch =>
        have hCalm : calmly.value = .ok launch :=
          (congrArg Run.value run_launchApps_sparing).trans (value_launchApps_undisturbed hValue)
        rw [hCalm]
        exact .inr rfl
    have hGains := Program.Meets.ends_run hMeets rule state
    have hGainsCalmly := Program.Meets.ends_run hMeets rule.sparingLaunch (some state)
    rw [run_launchNext hKind] at hGains hGainsCalmly
    rw [run_launchNext hKind, run_launchNext hKind]
    refine ⟨apps.value.toOption, calmly.value.toOption, ?_⟩
    exact
      { value := rfl
        value_calmly := rfl
        same := hSame
        gains := hGains
        gains_calmly := hGainsCalmly
        launched := fun launch hLaunch => hasLaunched_of_launchApps (eq_ok_of_toOption hLaunch) }

/-- A completion has ended without a launch, and with an answer that the store bears out. -/
def EndsWithout (completion : Completion) (order : Int64) (result : Except EngineError Progress)
    (here : World) : Prop :=
  ∀ progress, result = .ok progress → progress.nextJob = none ∧ completion.Bears order here.store progress

/-- A completion has come to the launch, and all that it answers besides is borne out by the store. -/
inductive ComesToLaunch (engine : Engine) (completion : Completion) (order : Int64) (origin : Store) :
    Operation Progress → World → Prop
  | intro {found : Order} {stage : Int64} {next : Step} {creator : String} {progress : Progress} {here : World}
    (id : found.id = order) (running : progress.orderStatus = .running)
    (bears : completion.Bears order here.store progress)
    (jobs : here.store.jobs = (completion.settle origin).jobs) :
    ComesToLaunch engine completion order origin (do
      let launched ← launchNext engine found stage next creator
      pure { progress with nextJob := launched }) here

theorem endsWithout_error {completion : Completion} {order : Int64} (e : EngineError) :
    EndsWithout completion order (.error e) world := by
  rintro progress ⟨⟩

abbrev ProceedsToLaunch (engine : Engine) (completion : Completion) (order : Int64) (origin : Store) :
    Operation Progress → World → Prop :=
  Proceeds (fun c => !c.startsLaunch) (EndsWithout completion order)
    (ComesToLaunch engine completion order origin)

variable {completion : Completion} {order : Int64} {origin : Store} {found : Order}

theorem proceeds_finishStage {snapshot : Snapshot} {stage : Int64}
    (stored : world.store.answer (.order order) = some found)
    (ended : ∀ id, completion.job? = some id →
      ∃ job, world.store.answer (.job id) = some job ∧ job.status = .success) :
    ProceedsToLaunch engine completion order origin (finishStage found snapshot stage) world := by
  obtain rfl : found.id = order := (Store.mem_of_answer_order stored).2
  unfold finishStage
  split
  · apply proceeds_update_bind rfl (by simp) rfl endsWithout_error
    apply proceeds_pure
    rintro _ ⟨⟩
    exact ⟨rfl, ⟨_, Store.answer_changeOrder_of_found stored _ fun _ => rfl, rfl, rfl⟩, ended⟩
  · split
    · apply proceeds_update_bind rfl (by simp) rfl endsWithout_error
      apply proceeds_pure
      rintro _ ⟨⟩
      exact ⟨rfl, ⟨_, Store.answer_changeOrder_of_found stored _ fun _ => rfl, rfl, rfl⟩, ended⟩
    · rename_i hRunning
      apply proceeds_pure
      rintro _ ⟨⟩
      exact ⟨rfl, ⟨found, stored, by simpa using hRunning, rfl⟩, ended⟩

theorem proceeds_advance (stageId : Int64) (creator : String)
    (stored : world.store.answer (.order order) = some found)
    (ended : ∀ id, completion.job? = some id →
      ∃ job, world.store.answer (.job id) = some job ∧ job.status = .success)
    (jobs : world.store.jobs = (completion.settle origin).jobs) :
    ProceedsToLaunch engine completion order origin (advance engine found stageId creator) world := by
  unfold advance
  apply (reads_findSnapshot found).proceeds_bind (onlyMakes_find rfl) endsWithout_error
  rintro snapshot -
  apply (reads_stageOf snapshot stageId).proceeds_bind (onlyMakes_require _ _) endsWithout_error
  rintro stage -
  split
  · exact proceeds_finishStage stored ended
  apply (reads_nextStep stage found).proceeds_bind (onlyMakes_require _ _) endsWithout_error
  intro next hNext
  obtain ⟨hAhead, -, -⟩ := Stage.next_of_follows hNext
  obtain rfl : found.id = order := (Store.mem_of_answer_order stored).2
  apply proceeds_update_bind (Store.update_moveOrder stored hAhead) (by simp) rfl endsWithout_error
  have hMoved := Store.answer_changeOrder_of_found stored (fun order => order.movedTo next) fun _ => rfl
  let moved : World := { world with store := world.store.changeOrder found.id fun order => order.movedTo next }
  have hBears : completion.Bears found.id moved.store ⟨.success, .running, next.index, none⟩ :=
    ⟨⟨_, hMoved, rfl, rfl⟩, ended⟩
  have hJobs : moved.store.jobs = (completion.settle origin).jobs := jobs
  have hComes : ComesToLaunch engine completion found.id origin (do
      let launched ← launchNext engine found stage.id next creator
      pure { (⟨.success, .running, next.index, none⟩ : Progress) with nextJob := launched }) moved :=
    .intro rfl rfl hBears hJobs
  exact .reaches hComes

theorem proceeds_complete (project order stage : Int64) (kind : JobKind) (callback : Callback) :
    ProceedsToLaunch engine (.report stage kind callback) order world.store
      (complete engine project order stage kind callback) world := by
  unfold complete
  apply reads_lookup.proceeds_bind (onlyMakes_lookup rfl) endsWithout_error
  intro answer hAnswer
  apply reads_require.proceeds_bind (onlyMakes_require _ _) endsWithout_error
  intro job hFiltered
  obtain ⟨hFound, -⟩ := Option.filter_eq_some_iff.mp hFiltered
  have hJob := eq_some_of_answer hAnswer hFound
  apply (reads_findOrder order).proceeds_bind (onlyMakes_find rfl) endsWithout_error
  intro found hOrder
  split
  · apply proceeds_pure
    rintro _ ⟨⟩
    exact ⟨rfl, Completion.bears_report hOrder rfl rfl hJob rfl⟩
  obtain ⟨-, hId⟩ := mem_of_find? hJob
  rw [hId]
  apply proceeds_update_bind rfl (by simp) rfl endsWithout_error
  have hSettled := Store.answer_settle hJob callback.outcome.status
  split
  · apply proceeds_pure
    rintro _ ⟨⟩
    exact ⟨rfl, Completion.bears_report hOrder rfl rfl hSettled rfl⟩
  split
  · rename_i hOutcome
    apply proceeds_update_bind rfl (by simp) rfl endsWithout_error
    apply proceeds_pure
    rintro _ ⟨⟩
    exact ⟨rfl, Completion.bears_report (Store.answer_changeOrder_of_found hOrder _ fun _ => rfl) rfl rfl
      hSettled (congrArg Outcome.status hOutcome)⟩
  · rename_i hOutcome
    let settled : World := { world with
      store := world.store.settle callback.job callback.outcome.status }
    have hStored : settled.store.answer (.order order) = some found := hOrder
    have hEnded : ∀ id, (Completion.report stage kind callback).job? = some id →
        ∃ job, settled.store.answer (.job id) = some job ∧ job.status = .success := by
      rintro _ ⟨⟩
      exact ⟨_, hSettled, congrArg Outcome.status hOutcome⟩
    have hAdvances : ProceedsToLaunch engine (.report stage kind callback) order world.store
        (advance engine found stage job.creator) settled :=
      proceeds_advance stage job.creator hStored hEnded rfl
    exact hAdvances

theorem proceeds_confirm (project order : Int64) (request : ConfirmRequest) :
    ProceedsToLaunch engine (.confirmation request) order world.store
      (confirm engine project order request) world := by
  unfold confirm
  apply (reads_findOrderOf project order).proceeds_bind (onlyMakes_findOrderOf rfl rfl) endsWithout_error
  rintro found ⟨hOrder, -⟩
  apply (reads_ensureAllowed found .advance).proceeds_bind (onlyMakes_ensureAllowed _ _) endsWithout_error
  rintro _ -
  apply (reads_findSnapshot found).proceeds_bind (onlyMakes_find rfl) endsWithout_error
  rintro snapshot -
  apply (reads_stageOf snapshot found.stage).proceeds_bind (onlyMakes_require _ _) endsWithout_error
  rintro stage -
  apply (reads_currentStep stage found).proceeds_bind (onlyMakes_require _ _) endsWithout_error
  rintro step -
  apply reads_ensure.proceeds_bind (onlyMakes_ensure _ _) endsWithout_error
  rintro _ -
  have hRecord : ∀ draft, (update (.addConfirmation draft)).Meets (fun c _ _ => (!c.startsLaunch) = true)
      (fun _ _ here => ∃ confirmations, here = { world with
        store := { world.store with confirmations := confirmations } })
      (fun e _ here => EndsWithout (.confirmation request) order (.error e) here) [] world := by
    intro draft
    apply meets_addConfirmation rfl
    · intro _ _ _
      exact ⟨_, rfl⟩
    · intro e _
      exact endsWithout_error e
  apply (hRecord _).proceeds_bind
  rintro _ _ ⟨confirmations, rfl⟩
  exact proceeds_advance found.stage request.creator hOrder (fun _ h => nomatch h) rfl

theorem proceeds_operation (engine : Engine) (completion : Completion) (project order : Int64)
    (world : World) : ProceedsToLaunch engine completion order world.store
      (completion.operation engine project order) world := by
  cases completion with
  | report stage kind callback => exact proceeds_complete project order stage kind callback
  | confirmation request => exact proceeds_confirm project order request

end Engine

def Progress.unlaunched (progress : Progress) : Progress := { progress with nextJob := none }

/-- Two runs that differ at most in what comes of the launch. -/
structure Completion.Alike {σ τ : Type} (before : Store) (run : Run σ (Except EngineError Progress))
    (calm : Run τ (Except EngineError Progress)) : Prop where
  value : run.value.map Progress.unlaunched = calm.value.map Progress.unlaunched
  launched : ∀ progress, run.value = .ok progress → progress.nextJob = none ∨ calm.value = .ok progress
  orders : run.world.store.orders = calm.world.store.orders
  jobs : ∀ id job, before.answer (.job id) = some job →
    run.world.store.answer (.job id) = calm.world.store.answer (.job id)

namespace Completion

variable {σ τ : Type} {engine : Engine} {here : World} {before : Store}
  {completion : Completion} {order : Int64}

theorem exists_settled {id : Int64} {job : Job} (completion : Completion)
    (found : before.answer (.job id) = some job) :
    ∃ settled, (completion.settle before).answer (.job id) = some settled := by
  cases completion with
  | confirmation request => exact ⟨job, found⟩
  | report stage kind callback =>
    by_cases hId : id = callback.job
    · subst hId
      exact ⟨_, Store.answer_settle found callback.outcome.status⟩
    · refine ⟨job, ?_⟩
      rw [← found]
      exact before.answer_changeJob_of_ne hId _ fun _ => rfl

theorem Alike.refl {run : Run σ (Except EngineError Progress)} {calm : Run τ (Except EngineError Progress)}
    (value : calm.value = run.value) (world : calm.world = run.world) : Alike before run calm where
  value := congrArg _ value.symm
  launched progress hProgress := .inr (value.trans hProgress)
  orders := by rw [world]
  jobs id job _ := by rw [world]

theorem bears_and_alike_of_comesToLaunch {x : Operation Progress}
    (h : Engine.ComesToLaunch engine completion order before x here) (rule : Rule σ) (state : σ) :
    let run := x.run.run rule here state
    let calm := x.run.run rule.sparingLaunch here (some state)
    (∀ progress, run.value = .ok progress → completion.Bears order run.world.store progress ∧
      ∀ launch, progress.nextJob = some launch →
        ∃ job, HasLaunched engine order (completion.settle before) run.world.store run.exchanges launch job) ∧
      Alike before run calm := by
  cases h with
  | @intro found stage next creator progress _ id running bears jobs =>
    obtain ⟨stored, hStored, hStatus, -⟩ := bears.order
    have hStarted : stored.status ≠ .init := by
      rw [hStatus, running]
      decide
    subst id
    obtain ⟨launched, calmly, hTried⟩ := Engine.exists_tried_of_run engine rule state stage next
      creator hStored hStarted
    have hRun := run_bind_of_ok (f := fun launched =>
      (pure { progress with nextJob := launched } : Operation Progress)) hTried.value
    have hCalm := run_bind_of_ok (f := fun launched =>
      (pure { progress with nextJob := launched } : Operation Progress)) hTried.value_calmly
    intro run calm
    rw [show run = _ from hRun, show calm = _ from hCalm]
    constructor
    · rintro _ ⟨⟩
      refine ⟨bears.of_mayGain hTried.gains launched, ?_⟩
      intro launch hLaunch
      obtain ⟨job, hJob⟩ := hTried.launched launch hLaunch
      exact ⟨job, hJob.mono jobs (List.subset_append_left _ _)⟩
    · exact
        { value := rfl
          launched := by
            rintro _ ⟨⟩
            apply hTried.same.imp_right
            rintro rfl
            rfl
          orders := hTried.gains.orders.trans hTried.gains_calmly.orders.symm
          jobs := by
            intro id job hJob
            obtain ⟨settled, hSettled⟩ := completion.exists_settled hJob
            have hHere : here.store.answer (.job id) = some settled :=
              (Store.answer_job_of_jobs_eq jobs id).trans hSettled
            exact (hTried.gains.keepsRecords.jobs id settled hHere).trans
              (hTried.gains_calmly.keepsRecords.jobs id settled hHere).symm }

/-- Whatever is disturbed, the answer to a report or to a confirmation is borne out by the store, and so is
the launch in it. If only the launch had been spared, the call would have ended alike. -/
theorem progress_of_run (engine : Engine) (completion : Completion) (project order : Int64) (rule : Rule σ)
    (world : World) (state : σ) :
    let run := (completion.operation engine project order).run.run rule world state
    let calm := (completion.operation engine project order).run.run rule.sparingLaunch world (some state)
    (∀ progress, run.value = .ok progress → completion.Bears order run.world.store progress ∧
      ∀ launch, progress.nextJob = some launch → ∃ job, HasLaunched engine order
        (completion.settle world.store) run.world.store run.exchanges launch job) ∧
      Alike world.store run calm := by
  have hProceeds := Engine.proceeds_operation engine completion project order world
  rcases hProceeds.exists_of_run (Rule.follows_sparingLaunch rule) state with
    ⟨hEnds, hValue, hWorld⟩ | ⟨y, here, between, own, hComes, hRun, hCalm⟩
  · intro run calm
    refine ⟨?_, .refl hValue hWorld⟩
    intro progress hProgress
    obtain ⟨hNone, hBears⟩ := hEnds progress hProgress
    refine ⟨hBears, ?_⟩
    intro launch hLaunch
    cases hNone.symm.trans hLaunch
  · obtain ⟨hBears, hAlike⟩ := bears_and_alike_of_comesToLaunch hComes rule between
    intro run calm
    rw [show run = _ from hRun, show calm = _ from hCalm]
    constructor
    · intro progress hProgress
      obtain ⟨hStore, hLaunched⟩ := hBears progress hProgress
      refine ⟨hStore, ?_⟩
      intro launch hLaunch
      obtain ⟨job, hJob⟩ := hLaunched launch hLaunch
      exact ⟨job, hJob.mono rfl (List.subset_append_right _ _)⟩
    · exact
        { value := hAlike.value
          launched := hAlike.launched
          orders := hAlike.orders
          jobs := hAlike.jobs }

/-- The next step builds once more. If the server cannot be reached, nothing else is lost by it. -/
theorem progress_of_run_in_rebuilt :
    let engine : Engine := .ofServer "http://conveyor.local"
    let report : Completion := .report 3 .build ⟨8, .success⟩
    let world : World :=
      { store := { Interleaving.sampleStore with
          jobs := [⟨8, 5, 1, 3, .build, some 70, .running, "alice", []⟩] }
        histories := []
        nextRun := 100 }
    let run := (report.operation engine 1 5).run.run Rule.undisturbed world ()
    let offline := (report.operation engine 1 5).run.run Rule.cutOff world ()
    let calm := (report.operation engine 1 5).run.run Rule.cutOff.sparingLaunch world (some ())
    let progress : Progress := ⟨.success, .running, 2, some ⟨100, "conveyor_1_5_3"⟩⟩
    run.value = .ok progress ∧ report.Bears 5 run.world.store progress ∧
      (∃ job, HasLaunched engine 5 (report.settle world.store) run.world.store run.exchanges
        ⟨100, "conveyor_1_5_3"⟩ job) ∧
      offline.value = .ok progress.unlaunched ∧ calm.value = .ok progress ∧
      report.Bears 5 offline.world.store progress.unlaunched ∧
      offline.world.store.answer (.order 5) = calm.world.store.answer (.order 5) ∧
      offline.world.store.answer (.job 8) = calm.world.store.answer (.job 8) := by
  intro engine report world run offline calm progress
  have hValue : run.value = .ok progress := by decide +kernel
  have hOffline : offline.value = .ok progress.unlaunched := by decide +kernel
  have hCalm : calm.value = .ok progress := by decide +kernel
  obtain ⟨hRun, -⟩ := progress_of_run engine report 1 5 Rule.undisturbed world ()
  obtain ⟨hBears, hLaunched⟩ := hRun progress hValue
  obtain ⟨hLost, hAlike⟩ := progress_of_run engine report 1 5 Rule.cutOff world ()
  obtain ⟨hKept, -⟩ := hLost progress.unlaunched hOffline
  exact ⟨hValue, hBears, hLaunched _ rfl, hOffline, hCalm, hKept,
    Store.answer_order_of_orders_eq hAlike.orders 5, hAlike.jobs 8 _ rfl⟩

end Completion

end DeliveryPipeline

import DeliveryPipeline.FaultPlan
import DeliveryPipeline.Proofs.Engine.Report
import DeliveryPipeline.Proofs.Session.InStep

/-! # Reports that are delivered again

The CI server may deliver a report again. Once a report was taken, its job has ended for good, and no
report about the job changes anything any more. A report that failed may have broken off after its job
was settled; then delivering it again does not make up for what was not done.
-/

namespace DeliveryPipeline

set_option autoImplicit false

open Api (Command)

theorem Job.Continues.isAt_eq {job job' : Job} (h : job.Continues job') (project order stage : Int64)
    (kind : JobKind) : job'.isAt project order stage kind = job.isAt project order stage kind := by
  rw [Job.isAt, Job.isAt, h.order, h.project, h.stage, h.kind]

theorem Job.Continues.ended {job job' : Job} (h : job.Continues job') (ended : job.isActive = false) :
    job'.isActive = false :=
  Bool.eq_false_iff.mpr fun hActive => Bool.eq_false_iff.mp ended (h.active hActive)

theorem Deed.IsSound.answer_job {engine : Engine} {deed : Deed} (h : deed.IsSound engine) {id : Int64}
    {job : Job} (found : deed.before.store.answer (.job id) = some job) :
    ∃ job', deed.after.store.answer (.job id) = some job' ∧ job.Continues job' := by
  rcases h.jobs_cases with hJobs | ⟨new, draft, -, hAbove, -, hStored⟩
  · exact find?_of_forall₂ hJobs Job.Continues.id found
  · rw [hStored]
    exact ⟨job, (Store.MayGain.job hAbove).keepsRecords.jobs id job found, .refl job⟩

theorem Deed.IsSound.answer_order {engine : Engine} {deed : Deed} (h : deed.IsSound engine) {id : Int64}
    {order : Order} (found : deed.before.store.answer (.order id) = some order) :
    ∃ order', deed.after.store.answer (.order id) = some order' ∧ order.Precedes order' :=
  find?_of_forall₂ h.precedes Order.Precedes.id found

namespace Session

variable {σ : Type} {session : Session σ} {project order stage : Int64} {kind : JobKind} {id : Int64}

theorem addresses_of_mem_worlds
    (start : ∃ job found,
      session.start.store.Addresses project order stage kind id job found ∧ job.isActive = false) :
    ∀ world ∈ session.worlds, ∃ job found,
      world.store.Addresses project order stage kind id job found ∧ job.isActive = false := by
  refine holds_of_mem_worlds (I := fun world => ∃ job found,
    world.store.Addresses project order stage kind id job found ∧ job.isActive = false) start ?_
  rintro deed hSound ⟨job, found, ⟨hPlace, hJob, hOrder⟩, hEnded⟩
  obtain ⟨job', hJob', hContinues⟩ := hSound.answer_job hJob
  obtain ⟨found', hOrder', -⟩ := hSound.answer_order hOrder
  refine ⟨job', found', ⟨?_, hJob', hOrder'⟩, hContinues.ended hEnded⟩
  rw [hContinues.isAt_eq]
  exact hPlace

end Session

namespace Engine

variable {engine : Engine} {project order stage : Int64} {kind : JobKind} {report : Callback}
  {world : World}

theorem addresses_of_run_complete {σ : Type} {rule : Rule σ} {state : σ} {progress : Progress}
    (taken : ((engine.complete project order stage kind report).run.run rule world state).value =
      .ok progress) :
    ∃ job found, ((engine.complete project order stage kind report).run.run rule world
      state).world.store.Addresses project order stage kind report.job job found ∧
        job.isActive = false := by
  have hEnds := Program.Meets.ends_run
    (meets_complete engine project order stage kind report [] world) rule state
  rw [taken] at hEnds
  exact hEnds

theorem world_of_run_complete {σ : Type} (engine : Engine) (report : Callback) (rule : Rule σ) (state : σ)
    (ended : ∀ job found, world.store.Addresses project order stage kind report.job job found →
      job.isActive = false) :
    let run := (engine.complete project order stage kind report).run.run rule world state
    run.world = world ∧ ∀ e ∈ run.exchanges, ∃ l, e.call = .lookup l := by
  have hMeets := meets_complete_of_ended engine [] ended
  refine ⟨?_, fun e he => ?_⟩
  · have hEnds := Program.Meets.ends_run hMeets rule state
    generalize ((engine.complete project order stage kind report).run.run rule world state).value = value at hEnds
    cases value <;> exact hEnds
  · obtain ⟨_, _, hLookup⟩ := Program.Meets.allowed_of_mem_exchanges hMeets rule state e he
    exact hLookup

end Engine

/-- After a report was taken, its job has ended in every later world. There, no report about the job
changes anything or reaches out to another system; and one that is addressed to the job is answered, if
the store works, with where the job and its order stand. -/
theorem Session.unchanged_of_complete {ρ σ : Type} {engine : Engine} {project order stage : Int64}
    {kind : JobKind} {report : Callback} {rule : Rule ρ} {world : World} {state : ρ} {progress : Progress}
    {session : Session σ}
    (taken : ((engine.complete project order stage kind report).run.run rule world state).value =
      .ok progress)
    (start : session.start =
      ((engine.complete project order stage kind report).run.run rule world state).world) :
    ∀ later ∈ session.worlds, ∃ job found, job.isActive = false ∧
      later.store.Addresses project order stage kind report.job job found ∧
      ∀ (τ : Type) (engine : Engine) (project order stage : Int64) (kind : JobKind) (outcome : Outcome)
        (rule : Rule τ) (state : τ),
        let again := (engine.complete project order stage kind ⟨report.job, outcome⟩).run.run rule later state
        again.world = later ∧ (∀ e ∈ again.exchanges, ∃ l, e.call = .lookup l) ∧
          (job.isAt project order stage kind = true → rule.SparesStore →
            again.value = .ok ⟨job.status, found.status, found.stepIndex, none⟩) := by
  have hStart := Engine.addresses_of_run_complete taken
  rw [← start] at hStart
  intro later hLater
  obtain ⟨job, found, hAddresses, hEnded⟩ := addresses_of_mem_worlds hStart later hLater
  refine ⟨job, found, hEnded, hAddresses, fun τ engine' project' order' stage' kind' outcome rule' state' => ?_⟩
  intro again
  have hAll : ∀ job found, later.store.Addresses project' order' stage' kind' report.job job found →
      job.isActive = false := by
    intro other _ hOther
    rwa [Option.some.inj (hOther.job.symm.trans hAddresses.job)]
  obtain ⟨hWorld, hLookups⟩ :=
    Engine.world_of_run_complete engine' ⟨report.job, outcome⟩ rule' state' hAll
  refine ⟨hWorld, hLookups, fun hPlace hSpares => ?_⟩
  -- the job has one place only, so the report names the order of the first one
  obtain ⟨hOrder, -⟩ := Job.isAt_iff.mp hAddresses.place
  obtain ⟨hOrder', -⟩ := Job.isAt_iff.mp hPlace
  have hAddresses' : later.store.Addresses project' order' stage' kind' report.job job found := by
    refine ⟨hPlace, hAddresses.job, ?_⟩
    rw [← hOrder', hOrder]
    exact hAddresses.order
  have hAnswer : (engine'.complete project' order' stage' kind' ⟨report.job, outcome⟩).Yields _ later :=
    Engine.yields_complete_of_ended hAddresses' hEnded
  exact hAnswer.ends_run hSpares state'

def Session.reportedSample : Session Unit :=
  { approvalSample with
    start := ((approvalSample.engine.complete 1 5 3 .build ⟨9, .success⟩).run.run approvalSample.rule
      approvalSample.start ()).world
    commands := [.confirm 1 5 ⟨"bob", "go"⟩, .terminate 1 5 3 ⟨.build⟩, .abort 1 5] }

theorem Session.unchanged_of_complete_in_sample :
    ((approvalSample.engine.complete 1 5 3 .build ⟨9, .success⟩).run.run approvalSample.rule
        approvalSample.start ()).value = .ok ⟨.success, .running, 2, none⟩ ∧
      ∀ later ∈ reportedSample.worlds, ∃ job found, job.isActive = false ∧
        later.store.Addresses 1 5 3 .build 9 job found ∧
        ((approvalSample.engine.complete 1 5 3 .build ⟨9, .failed⟩).run.run FaultPlan.disturb later
          FaultPlan.none).world = later := by
  have hTaken : ((approvalSample.engine.complete 1 5 3 .build ⟨9, .success⟩).run.run approvalSample.rule
      approvalSample.start ()).value = .ok ⟨.success, .running, 2, none⟩ := rfl
  refine ⟨hTaken, fun later hLater => ?_⟩
  have hStart : reportedSample.start = ((approvalSample.engine.complete 1 5 3 .build ⟨9, .success⟩).run.run
      approvalSample.rule approvalSample.start ()).world := rfl
  obtain ⟨job, found, hEnded, hAddresses, hAgain⟩ := unchanged_of_complete hTaken hStart later hLater
  exact ⟨job, found, hEnded, hAddresses,
    (hAgain FaultPlan approvalSample.engine 1 5 3 .build .failed FaultPlan.disturb FaultPlan.none).1⟩

def Store.jobStatus? (store : Store) (id : Int64) : Option JobStatus :=
  (store.answer (.job id)).map Job.status

def Store.standing? (store : Store) (id : Int64) : Option (OrderStatus × Int32 × String × String) :=
  (store.answer (.order id)).map fun order => (order.status, order.place)

theorem Store.jobStatus?_settle {store : Store} {id : Int64} {job : Job}
    (found : store.answer (.job id) = some job) (status : JobStatus) :
    (store.settle id status).jobStatus? id = some status := by
  rw [jobStatus?, answer_settle found]
  rfl

namespace Engine

variable {engine : Engine} {project order stage : Int64} {kind : JobKind} {report : Callback}
  {world : World}

theorem world_of_run_complete_settled {σ : Type} (engine : Engine) {job : Job} {found : Order}
    (addressed : world.store.Addresses project order stage kind report.job job found) (rule : Rule σ)
    (state : σ) :
    let settled : World := { world with store := world.store.settle report.job report.outcome.status }
    ((engine.complete project order stage kind report).run.run rule settled state).world = settled := by
  refine (world_of_run_complete engine report rule state fun other _ hOther => ?_).1
  have hSettled := Store.answer_settle addressed.job report.outcome.status
  rw [Option.some.inj (hOther.job.symm.trans hSettled)]
  exact report.outcome.isActive_status

theorem delivered_of_active {σ : Type} (engine : Engine) {rule : Rule σ} (works : rule.SparesStore)
    (state : σ) {job : Job} {found : Order}
    (addressed : world.store.Addresses project order stage kind report.job job found)
    (active : job.isActive = true) :
    let after := ((engine.complete project order stage kind report).run.run rule world state).world.store
    after.jobStatus? report.job = some report.outcome.status ∧ after.standing? order =
      some ((world.store.afterReport stage found report.outcome).status,
        (world.store.afterReport stage found report.outcome).place) := by
  have hYields : (engine.complete project order stage kind report).Yields _ world :=
    yields_complete addressed active
  obtain ⟨hJob, hOrder⟩ := hYields.ends_run works state
  exact ⟨hJob, by rw [Store.standing?, hOrder]; rfl⟩

theorem delivered_congr {σ τ : Type} (engine : Engine) {rule : Rule σ} {rule' : Rule τ}
    (works : rule.SparesStore) (works' : rule'.SparesStore) (state : σ) (state' : τ) :
    let delivery := (engine.complete project order stage kind report).run
    let after := (delivery.run rule world state).world.store
    let after' := (delivery.run rule' world state').world.store
    after.jobStatus? report.job = after'.jobStatus? report.job ∧
      after.standing? order = after'.standing? order := by
  intro delivery after after'
  by_cases hAwaited : ∃ job found,
      world.store.Addresses project order stage kind report.job job found ∧ job.isActive = true
  · obtain ⟨job, found, hAddresses, hActive⟩ := hAwaited
    obtain ⟨hJob, hOrder⟩ := delivered_of_active engine works state hAddresses hActive
    obtain ⟨hJob', hOrder'⟩ := delivered_of_active engine works' state' hAddresses hActive
    exact ⟨hJob.trans hJob'.symm, hOrder.trans hOrder'.symm⟩
  · have hEnded : ∀ job found, world.store.Addresses project order stage kind report.job job found →
        job.isActive = false := fun job found hAddresses =>
      Bool.eq_false_iff.mpr fun hActive => hAwaited ⟨job, found, hAddresses, hActive⟩
    have hSame : after = world.store :=
      congrArg World.store (world_of_run_complete engine report rule state hEnded).1
    have hSame' : after' = world.store :=
      congrArg World.store (world_of_run_complete engine report rule' state' hEnded).1
    rw [hSame, hSame']
    exact ⟨rfl, rfl⟩

/-- A report that failed is delivered again, and the store works. The job is then as a single delivery
would have left it. The order is so exactly if the first attempt had not settled the job yet, or if there
was nothing to do about the order anyway. -/
theorem standing_redelivered_iff {ρ σ τ : Type} {rule : Rule ρ} {state : ρ} {e : EngineError}
    (failed : ((engine.complete project order stage kind report).run.run rule world state).value =
      .error e)
    {again : Rule σ} {once : Rule τ} (works : again.SparesStore) (works' : once.SparesStore) (state' : σ)
    (state'' : τ) :
    let delivery := (engine.complete project order stage kind report).run
    let broken := (delivery.run rule world state).world
    let redelivered := (delivery.run again broken state').world.store
    let delivered := (delivery.run once world state'').world.store
    redelivered.jobStatus? report.job = delivered.jobStatus? report.job ∧
      (redelivered.standing? order = delivered.standing? order ↔
        broken.store.jobStatus? report.job = world.store.jobStatus? report.job ∨
          delivered.standing? order = world.store.standing? order) := by
  intro delivery broken redelivered delivered
  have hEnds := Program.Meets.ends_run
    (meets_complete engine project order stage kind report [] world) rule state
  rw [failed] at hEnds
  rcases hEnds with hSame | ⟨job, found, hAddresses, hActive, hBroken⟩
  · -- nothing has happened, so the report is delivered once
    have hSame : broken = world := hSame
    have hRedelivered : redelivered = (delivery.run again world state').world.store := by
      simp only [redelivered, hSame]
    obtain ⟨hJob, hOrder⟩ := delivered_congr engine works works' state' state''
    rw [hRedelivered, hSame]
    exact ⟨hJob, iff_of_true hOrder (.inl rfl)⟩
  · -- the job is settled already, so the second delivery does nothing
    have hBroken : broken =
        { world with store := world.store.settle report.job report.outcome.status } := hBroken
    have hRedelivered : redelivered = world.store.settle report.job report.outcome.status := by
      simp only [redelivered, hBroken]
      exact congrArg World.store (world_of_run_complete_settled engine hAddresses again state')
    obtain ⟨hJob, hOrder⟩ := delivered_of_active engine works' state'' hAddresses hActive
    have hStatus := Store.jobStatus?_settle hAddresses.job report.outcome.status
    have hChanged : broken.store.jobStatus? report.job ≠ world.store.jobStatus? report.job := by
      rw [hBroken, hStatus, Store.jobStatus?, hAddresses.job]
      intro hSame
      have hEnd := report.outcome.isActive_status
      rw [Option.some.inj hSame] at hEnd
      cases hEnd.symm.trans hActive
    rw [hRedelivered]
    refine ⟨hStatus.trans hJob.symm, ⟨fun hSame => .inr hSame.symm, fun hLeft => ?_⟩⟩
    exact (hLeft.resolve_left hChanged).symm

def failing (kind : CallKind) : FaultPlan := { FaultPlan.none with failures := [(kind, .after 0)] }

theorem sparesStore_approvalSample : Session.approvalSample.rule.SparesStore := by
  intro state c
  cases c <;> trivial

/-- The job could not be settled at first, so nothing is lost. -/
theorem standing_redelivered_in_sample :
    let delivery := (Session.approvalSample.engine.complete 1 5 3 .build ⟨9, .success⟩).run
    let broken := delivery.run FaultPlan.disturb Session.approvalSample.start (failing .setJobStatus)
    let redelivered := (delivery.run Session.approvalSample.rule broken.world ()).world.store
    let delivered := (delivery.run Session.approvalSample.rule Session.approvalSample.start ()).world.store
    broken.value = .error (.storage .noRow) ∧ Session.approvalSample.rule.SparesStore ∧
      redelivered.jobStatus? 9 = delivered.jobStatus? 9 ∧
      redelivered.standing? 5 = delivered.standing? 5 := by
  intro delivery broken redelivered delivered
  have hFailed : broken.value = .error (.storage .noRow) := rfl
  have hLeft : broken.world.store.jobStatus? 9 = Session.approvalSample.start.store.jobStatus? 9 := rfl
  obtain ⟨hJob, hOrder⟩ := standing_redelivered_iff hFailed sparesStore_approvalSample
    sparesStore_approvalSample () ()
  exact ⟨hFailed, sparesStore_approvalSample, hJob, hOrder.mpr (.inl hLeft)⟩

/-- The snapshot could not be looked up after the job was settled, and the order stays behind for good. -/
theorem step_lost_on_redelivery :
    let delivery := (Session.approvalSample.engine.complete 1 5 3 .build ⟨9, .success⟩).run
    let broken := delivery.run FaultPlan.disturb Session.approvalSample.start (failing .snapshot)
    let redelivered := (delivery.run Session.approvalSample.rule broken.world ()).world.store
    let delivered := (delivery.run Session.approvalSample.rule Session.approvalSample.start ()).world.store
    broken.value = .error (.storage .noRow) ∧
      redelivered.standing? 5 = some (.running, 1, "build", "build") ∧
      delivered.standing? 5 = some (.running, 2, "approval", "manual") := by
  decide +kernel

end Engine

end DeliveryPipeline

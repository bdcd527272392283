import DeliveryPipeline.Proofs.Engine.Launching
import DeliveryPipeline.Proofs.Interleaving.Records
import DeliveryPipeline.Proofs.Json.Reading
import DeliveryPipeline.Proofs.Session.Parts

/-! # Submissions in a session

A job is submitted right after it was stored, under a number that no job had before; so no number is
submitted twice. The run that is recorded for a job is the one under which its only plan was accepted,
and nothing but run and status of a job is ever written.
-/

namespace DeliveryPipeline

set_option autoImplicit false

open Api (Command)
open Operation
open Store (changeFirst)

def Plan.jobNumber? (plan : Plan) : Option Int64 :=
  (plan.callback.body.get? "publish_job_id").bind fun value =>
    (Json.decodeValue Json.Decoder.int64 value).toOption

def Exchange.submittedJob? : Exchange → Option Int64
  | ⟨.errand (.submit _ _ plan), _⟩ => plan.jobNumber?
  | _ => none

/-- A plan is submitted for a job that was stored just before: nothing was submitted in between. -/
def SubmitsNewJob (engine : Engine) (c : Call) : Knowledge := fun past =>
  ∀ server name plan, c = .errand (.submit server name plan) → ∃ before draft id between,
    past = before ++ ⟨.update (.insertJob draft), .ok (.created id)⟩ :: between ∧
      Unsubmitted between ∧ engine.ReportsOn plan (Job.ofDraft id draft)

theorem Engine.ReportsOn.jobNumber? {engine : Engine} {plan : Plan} {job : Job}
    (h : engine.ReportsOn plan job) : plan.jobNumber? = some job.id := by
  obtain ⟨token, hCallback⟩ := h
  rw [Plan.jobNumber?, hCallback]
  change (Json.decodeValue Json.Decoder.int64 (.ofInt64 job.id)).toOption = some job.id
  rw [Json.decodeValue_int64]
  rfl

theorem Exchange.submits_of_submittedJob? {e : Exchange} {id : Int64} (h : e.submittedJob? = some id) :
    ∃ server name plan, e.call = .errand (.submit server name plan) ∧ plan.jobNumber? = some id := by
  unfold submittedJob? at h
  split at h
  · exact ⟨_, _, _, rfl, h⟩
  · cases h

theorem submittedJob?_of_unsubmitted {past : List Exchange} (h : Unsubmitted past) :
    past.filterMap Exchange.submittedJob? = [] := by
  refine List.filterMap_eq_nil_iff.mpr fun e he => ?_
  by_contra hSome
  obtain ⟨id, hId⟩ := Option.ne_none_iff_exists'.mp hSome
  obtain ⟨server, name, plan, hCall, -⟩ := Exchange.submits_of_submittedJob? hId
  have hSubmits := h e he
  rw [hCall] at hSubmits
  cases hSubmits

theorem submitsNewJob_of_submits {engine : Engine} {c : Call} (h : c.submits = false)
    (past : List Exchange) : SubmitsNewJob engine c past := by
  rintro server name plan rfl
  cases h

/-- Whatever it is told, the operation submits plans only for jobs that it has just stored. -/
abbrev Engine.SubmitsNewJobs {α : Type} (engine : Engine) (x : Operation α) : Knowledge :=
  x.Obeys (SubmitsNewJob engine) (fun _ _ => True) (fun _ _ => True)

theorem Operation.Prepares.submitsNewJobs_bind {α β : Type} {engine : Engine} {found : α → Knowledge}
    {x : Operation α} {f : α → Operation β} {past : List Exchange} (h : x.Prepares found)
    (rest : ∀ a past, engine.SubmitsNewJobs (f a) past) : engine.SubmitsNewJobs (x >>= f) past :=
  h.obeys_bind (fun _ _ _ hPrepares => submitsNewJob_of_submits (Call.submits_of_isPreparation hPrepares) _)
    (fun _ _ _ => trivial) fun a own _ _ => rest a (past ++ own)

namespace Engine

variable {α : Type} {engine : Engine}

theorem submitsNewJobs_update_bind {u : Update} {f : u.Answer → Operation α} {past : List Exchange}
    (rest : ∀ answer past, engine.SubmitsNewJobs (f answer) past) :
    engine.SubmitsNewJobs (update u >>= f) past :=
  obeys_update_bind (submitsNewJob_of_submits rfl _) (fun answer => rest answer _) fun _ => trivial

theorem submitsNewJobs_update (u : Update) (past : List Exchange) :
    engine.SubmitsNewJobs (update u) past :=
  obeys_update (submitsNewJob_of_submits rfl _) (fun _ => trivial) fun _ => trivial

theorem submitsNewJobs_create (engine : Engine) (request : JobRequest) (project order stage : Int64)
    (past : List Exchange) : engine.SubmitsNewJobs (request.create engine project order stage) past := by
  have hSpares : ∀ c past, c.sparesJobs = true → SubmitsNewJob engine c past := fun c past hSpares =>
    submitsNewJob_of_submits (Call.submits_of_sparesJobs hSpares) past
  refine (request.leadsTo_launch engine project order stage past).obeys
    (fun c past hPrepares => hSpares c past (Call.sparesJobs_of_isPreparation hPrepares))
    (fun _ _ => trivial) ?_
  rintro _ past ⟨-, -, -, -, hReports⟩
  refine obeys_launch hSpares (submitsNewJob_of_submits rfl _) (fun id between hBetween => ?_)
    fun id run between => submitsNewJob_of_submits rfl _
  rintro _ _ plan hPlan
  cases hPlan
  exact ⟨past, _, id, between, rfl, hBetween, hReports id⟩

theorem submitsNewJobs_advance (engine : Engine) (found : Order) (stage : Int64) (creator : String)
    (past : List Exchange) : engine.SubmitsNewJobs (advance engine found stage creator) past :=
  obeys_advance engine (fun _ past hSpares =>
    submitsNewJob_of_submits (Call.submits_of_sparesJobs hSpares) past)
    (submitsNewJobs_create engine) found stage creator past

theorem submitsNewJobs_complete (engine : Engine) (project order stage : Int64) (kind : JobKind)
    (report : Callback) (past : List Exchange) :
    engine.SubmitsNewJobs (complete engine project order stage kind report) past := by
  unfold complete
  refine prepares_lookup.submitsNewJobs_bind fun answer past => ?_
  refine (onlyMakes_require _ _).onlyPrepares.submitsNewJobs_bind fun job past => ?_
  refine (prepares_findOrder order).submitsNewJobs_bind fun found past => ?_
  split
  · trivial
  refine submitsNewJobs_update_bind fun _ past => ?_
  split
  · trivial
  split
  · exact submitsNewJobs_update_bind fun _ _ => trivial
  · exact submitsNewJobs_advance engine found stage job.creator past

theorem submitsNewJobs_confirm (engine : Engine) (project order : Int64) (request : ConfirmRequest)
    (past : List Exchange) : engine.SubmitsNewJobs (confirm engine project order request) past := by
  unfold confirm
  refine (prepares_findOrderOf project order).submitsNewJobs_bind fun found past => ?_
  refine (onlyMakes_ensureAllowed found .advance).onlyPrepares.submitsNewJobs_bind fun _ past => ?_
  refine (onlyRefers_findSnapshot found).onlyPrepares.submitsNewJobs_bind fun snapshot past => ?_
  refine (onlyMakes_require _ _).onlyPrepares.submitsNewJobs_bind fun stage past => ?_
  refine (onlyRefers_currentStep stage found).onlyPrepares.submitsNewJobs_bind fun step past => ?_
  refine (onlyMakes_ensure _ _).onlyPrepares.submitsNewJobs_bind fun _ past => ?_
  exact submitsNewJobs_update_bind fun _ past =>
    submitsNewJobs_advance engine found found.stage request.creator past

theorem submitsNewJobs_terminate (engine : Engine) (project order stage : Int64) (kind : JobKind)
    (past : List Exchange) : engine.SubmitsNewJobs (terminate engine project order stage kind) past := by
  unfold terminate
  refine (prepares_findOrder order).submitsNewJobs_bind fun found past => ?_
  refine (onlyMakes_ensureAllowed found .terminate).onlyPrepares.submitsNewJobs_bind
    fun _ past => ?_
  refine (onlyRefers_findCancelTarget engine project order stage kind).attempt.onlyPrepares.submitsNewJobs_bind
    fun target past => ?_
  cases target with
  | error e => exact submitsNewJobs_update_bind fun _ _ => trivial
  | ok target =>
    refine submitsNewJobs_update_bind fun _ past => ?_
    exact obeys_errand_bind (submitsNewJob_of_submits rfl _) (fun _ => submitsNewJobs_update _ _)
      fun _ => trivial

theorem submitsNewJobs_abort (engine : Engine) (project order : Int64) (past : List Exchange) :
    engine.SubmitsNewJobs (abort project order) past := by
  unfold abort
  refine (prepares_findOrderOf project order).submitsNewJobs_bind fun found past => ?_
  refine (onlyMakes_ensureAllowed found .abort).onlyPrepares.submitsNewJobs_bind fun _ past => ?_
  refine submitsNewJobs_update_bind fun _ past => ?_
  refine prepares_lookup.submitsNewJobs_bind fun latest past => ?_
  rcases latest with _ | job
  · trivial
  dsimp only
  split
  · exact submitsNewJobs_update _ past
  · trivial

end Engine

theorem Operation.Reads.meets_submitsNewJob {α : Type} {found : α → Prop} {world : World}
    {x : Operation α} (h : Reads world found x) (engine : Engine) (past : List Exchange) :
    x.run.Meets (fun c past _ => SubmitsNewJob engine c past) (fun _ _ _ => True) past world :=
  Program.Reads.meets h (fun _ past hQuiet => submitsNewJob_of_submits
    (Call.submits_of_isQuiet hQuiet) past) fun _ _ _ _ => trivial

theorem Api.Command.meets_submitsNewJob (engine : Engine) (command : Command) (past : List Exchange)
    (world : World) :
    (command.operation engine).run.Meets (fun c past _ => SubmitsNewJob engine c past)
      (fun _ _ _ => True) past world := by
  have hObeys : ∀ {α : Type} {x : Operation α}, engine.SubmitsNewJobs x past →
      x.run.Meets (fun c past _ => SubmitsNewJob engine c past) (fun _ _ _ => True) past world := fun h =>
    Program.Meets.mono (Program.Obeys.meets h world) fun _ _ _ _ => trivial
  cases command with
  | build p o s request => exact hObeys (Engine.submitsNewJobs_create engine (.build request) p o s past)
  | deploy p o s request => exact hObeys (Engine.submitsNewJobs_create engine (.deploy request) p o s past)
  | terminate p o s request => exact hObeys (Engine.submitsNewJobs_terminate engine p o s request.kind past)
  | abort p o => exact hObeys (Engine.submitsNewJobs_abort engine p o past)
  | complete p o s kind report =>
    exact hObeys (Engine.submitsNewJobs_complete engine p o s kind report past)
  | confirm p o request => exact hObeys (Engine.submitsNewJobs_confirm engine p o request past)
  | branches p o s => exact (Engine.reads_branches p o s).meets_submitsNewJob engine past
  | history o => exact (Engine.reads_history o).meets_submitsNewJob engine past
  | stepType o index => exact (Engine.reads_stepType o index).meets_submitsNewJob engine past
  | lastStep o s => exact (Engine.reads_lastStep o s).meets_submitsNewJob engine past
  | images o => exact (Engine.reads_images o).meets_submitsNewJob engine past

theorem filterMap_submittedJob?_snoc (past : List Exchange) (e : Exchange) :
    (past ++ [e]).filterMap Exchange.submittedJob? =
      past.filterMap Exchange.submittedJob? ++ e.submittedJob?.toList := by
  rw [List.filterMap_append]
  cases h : e.submittedJob? <;> simp [h]

def Store.Numbers (store : Store) (id : Int64) : Prop := ∃ job ∈ store.jobs, job.id = id

/-- What is known of the submissions so far: their numbers are different and all belong to stored jobs,
and no job was stored under a number that had been submitted. -/
structure Distinguished (past : List Exchange) (world : World) : Prop where
  once : (past.filterMap Exchange.submittedJob?).Nodup
  stored : ∀ id ∈ past.filterMap Exchange.submittedJob?, world.store.Numbers id
  late : past.Pairwise fun e e' => ∀ id, e'.created? = some id → e.submittedJob? ≠ some id

theorem Distinguished.not_mem_of_submits {engine : Engine} {past : List Exchange} {world : World}
    (h : Distinguished past world) {e : Exchange} (submits : SubmitsNewJob engine e.call past) {id : Int64}
    (names : e.submittedJob? = some id) : id ∉ past.filterMap Exchange.submittedJob? := by
  obtain ⟨server, name, plan, hCall, hPlan⟩ := Exchange.submits_of_submittedJob? names
  obtain ⟨earlier, draft, new, between, rfl, hBetween, hReports⟩ := submits server name plan hCall
  obtain rfl : new = id := Option.some.inj (hReports.jobNumber?.symm.trans hPlan)
  rw [List.filterMap_append, List.filterMap_cons_none rfl, submittedJob?_of_unsubmitted hBetween,
    List.append_nil]
  intro hMem
  obtain ⟨e', he', hNames⟩ := List.mem_filterMap.mp hMem
  exact (List.pairwise_append.mp h.late).2.2 e' he' _ List.mem_cons_self new rfl hNames

/-- If the job is running it has a run, and its run is one under which a plan for it was accepted. -/
def Job.IsTruthful (engine : Engine) (past : List Exchange) (job : Job) : Prop :=
  (job.status = .running → ∃ run, job.run = some run) ∧ ∀ run, job.run = some run →
    ∃ server plan, ⟨.errand (.submit server (engine.jobNameOf job) plan), .ok run⟩ ∈ past ∧
      engine.ReportsOn plan job

theorem Job.IsTruthful.snoc {engine : Engine} {past : List Exchange} {job : Job}
    (h : job.IsTruthful engine past) (e : Exchange) : job.IsTruthful engine (past ++ [e]) := by
  refine ⟨h.1, fun run hRun => ?_⟩
  obtain ⟨server, plan, hAccepted, hReports⟩ := h.2 run hRun
  exact ⟨server, plan, List.mem_append_left _ hAccepted, hReports⟩

/-- The same job later on: all that it was stored with is kept, and so is its run, once it has one. -/
structure Job.Persists (job job' : Job) : Prop where
  record : job' = { job with run := job'.run, status := job'.status }
  run : ∀ run, job.run = some run → job'.run = some run

theorem Job.Persists.refl (job : Job) : job.Persists job := ⟨rfl, fun _ hRun => hRun⟩

theorem Job.Persists.trans {first second third : Job} (h : first.Persists second)
    (h' : second.Persists third) : first.Persists third := by
  refine ⟨?_, fun run hRun => h'.run run (h.run run hRun)⟩
  rw [h'.record, h.record]

theorem Job.Persists.id {job job' : Job} (h : job.Persists job') : job'.id = job.id := by
  rw [h.record]

/-- The jobs of a store are found again, each as it was stored. -/
def Store.Retains (before after : Store) : Prop :=
  ∀ id job, before.answer (.job id) = some job →
    ∃ job', after.answer (.job id) = some job' ∧ job.Persists job'

theorem Store.Retains.trans {first second third : Store} (h : first.Retains second)
    (h' : second.Retains third) : first.Retains third := by
  intro id job hFound
  obtain ⟨job', hFound', hPersists⟩ := h id job hFound
  obtain ⟨job'', hFound'', hPersists'⟩ := h' id job' hFound'
  exact ⟨job'', hFound'', hPersists.trans hPersists'⟩

namespace Deed

variable {engine : Engine} {deed : Deed}

theorem IsSound.numbers (h : deed.IsSound engine) {id : Int64} (stored : deed.before.store.Numbers id) :
    deed.after.store.Numbers id := by
  obtain ⟨job, hJob, hId⟩ := stored
  rcases h.jobs_cases with hJobs | ⟨new, draft, -, -, -, hStored⟩
  · obtain ⟨job', hJob', hContinues⟩ := exists_of_forall₂_of_mem (List.Forall₂.flip hJobs) hJob
    exact ⟨job', hJob', hContinues.id.trans hId⟩
  · rw [hStored]
    exact ⟨job, List.mem_append_left _ hJob, hId⟩

theorem IsSound.numbers_of_submits (h : deed.IsSound engine) {id : Int64}
    (names : deed.exchange.submittedJob? = some id) : deed.before.store.Numbers id := by
  obtain ⟨server, name, plan, hCall, hPlan⟩ := Exchange.submits_of_submittedJob? names
  have hWarrant := h.warrant
  rw [show deed.call = .errand (.submit server name plan) from hCall] at hWarrant
  cases hWarrant with
  | quiet hQuiet => cases hQuiet
  | @submit _ _ job fresh about reports =>
    exact ⟨job, fresh.mem, Option.some.inj (reports.jobNumber?.symm.trans hPlan)⟩

theorem IsSound.lt_of_created (h : deed.IsSound engine) {id : Int64}
    (created : deed.exchange.created? = some id) : ∀ job ∈ deed.before.store.jobs, job.id < id := by
  obtain ⟨draft, hExchange⟩ := Exchange.created?_eq_some_iff.mp created
  obtain ⟨disturbance, hReply⟩ := h.answered
  obtain ⟨command, past, before, call, reply, after⟩ := deed
  cases hExchange
  exact (World.store_of_created (congrArg Prod.fst hReply)).1

theorem IsSound.distinguished (h : deed.IsSound engine) (submits : SubmitsNewJob engine deed.call deed.past)
    (before : Distinguished deed.past deed.before) :
    Distinguished (deed.past ++ [deed.exchange]) deed.after where
  once := by
    rw [filterMap_submittedJob?_snoc]
    refine List.nodup_append.mpr ⟨before.once, by cases deed.exchange.submittedJob? <;> simp, ?_⟩
    intro id hMem other hOther hSame
    have hNames : deed.exchange.submittedJob? = some id := by
      rw [hSame]
      exact Option.mem_toList.mp hOther
    exact before.not_mem_of_submits submits hNames hMem
  stored := by
    intro id hMem
    rw [filterMap_submittedJob?_snoc] at hMem
    rcases List.mem_append.mp hMem with hMem | hNames
    · exact h.numbers (before.stored id hMem)
    · exact h.numbers (h.numbers_of_submits (Option.mem_toList.mp hNames))
  late := by
    refine List.pairwise_append.mpr ⟨before.late, List.pairwise_singleton _ _, ?_⟩
    intro e he e' he' id hCreated hNames
    rw [List.mem_singleton.mp he'] at hCreated
    obtain ⟨job, hJob, hId⟩ := before.stored id (List.mem_filterMap.mpr ⟨e, he, hNames⟩)
    exact Int64.lt_irrefl (hId ▸ h.lt_of_created hCreated job hJob)

theorem IsSound.isTruthful (h : deed.IsSound engine) {old : Store}
    (before : ∀ job ∈ deed.before.store.jobs, ¬ old.Numbers job.id → job.IsTruthful engine deed.past) :
    ∀ job ∈ deed.after.store.jobs, ¬ old.Numbers job.id →
      job.IsTruthful engine (deed.past ++ [deed.exchange]) := by
  intro job hJob hNew
  cases h.jobChange with
  | nothing jobs =>
    rw [jobs] at hJob
    exact (before job hJob hNew).snoc _
  | stored call above idle store =>
    rw [store] at hJob
    rcases List.mem_append.mp hJob with hJob | hJob
    · exact (before job hJob hNew).snoc _
    · rw [List.mem_singleton.mp hJob]
      exact ⟨(fun hRunning => nomatch hRunning), fun _ hRun => nomatch hRun⟩
  | @started fresh run server plan call isFresh reports accepted jobs =>
    rw [jobs] at hJob
    rcases mem_changeFirst hJob with hJob | ⟨found, hFound, rfl⟩
    · exact (before job hJob hNew).snoc _
    · obtain ⟨hMem, hId⟩ := mem_of_find? hFound
      obtain rfl := isFresh.only found hMem hId
      refine ⟨fun _ => ⟨run, rfl⟩, fun run' hRun => ?_⟩
      cases hRun
      exact ⟨server, plan, List.mem_append_left _ accepted, reports⟩
  | @settled id status call inactive jobs =>
    rw [jobs] at hJob
    rcases mem_changeFirst hJob with hJob | ⟨found, hFound, rfl⟩
    · exact (before job hJob hNew).snoc _
    · obtain ⟨hMem, -⟩ := mem_of_find? hFound
      refine ⟨fun hRunning => ?_, ((before found hMem hNew).snoc _).2⟩
      have hStatus : status = .running := hRunning
      rw [hStatus] at inactive
      cases inactive

theorem IsSound.retains (h : deed.IsSound engine) : deed.before.store.Retains deed.after.store := by
  have hRecords : ∀ {change : Job → Job} {id : Int64},
      deed.after.store.jobs = changeFirst Job.id id change deed.before.store.jobs →
      (∀ job, deed.before.store.answer (.job id) = some job → job.Persists (change job)) →
      deed.before.store.Retains deed.after.store := by
    intro change id hJobs hChange other job hFound
    have hStep := forall₂_changeFirst (R := Job.Persists) .refl hChange
    rw [← hJobs] at hStep
    exact find?_of_forall₂ hStep Job.Persists.id hFound
  cases h.jobChange with
  | nothing jobs =>
    intro id job hFound
    exact ⟨job, (congrArg (List.find? _) jobs).trans hFound, .refl job⟩
  | @stored new draft call above idle store =>
    intro id job hFound
    refine ⟨job, ?_, .refl job⟩
    rw [store]
    exact Store.answer_addJob_of_found hFound _
  | started call isFresh reports accepted jobs =>
    refine hRecords jobs fun found hFound => ⟨rfl, fun run hRun => ?_⟩
    -- the job that is started is the fresh one, which had no run
    obtain ⟨hMem, hId⟩ := mem_of_find? hFound
    rw [isFresh.only found hMem hId, isFresh.run] at hRun
    cases hRun
  | settled call inactive jobs => exact hRecords jobs fun _ _ => ⟨rfl, fun _ hRun => hRun⟩

end Deed

theorem filter_eq_singleton {α β : Type} [DecidableEq β] {f : α → Option β} {l : List α} {a : α} {b : β}
    (once : (l.filterMap f).Nodup) (h : a ∈ l) (value : f a = some b) :
    l.filter (fun a => f a = some b) = [a] := by
  induction l with
  | nil => cases h
  | cons first rest ih =>
    by_cases hFirst : f first = some b
    · rw [List.filterMap_cons_some hFirst] at once
      obtain ⟨hOther, -⟩ := List.nodup_cons.mp once
      have hRest : ∀ other ∈ rest, f other ≠ some b := fun other hMem hValue =>
        hOther (List.mem_filterMap.mpr ⟨other, hMem, hValue⟩)
      rw [List.filter_cons_of_pos (by simpa using hFirst),
        List.filter_eq_nil_iff.mpr fun other hMem => by simpa using hRest other hMem]
      rcases List.mem_cons.mp h with rfl | hMem
      · rfl
      · exact absurd value (hRest a hMem)
    · have hMem : a ∈ rest := (List.mem_cons.mp h).resolve_left fun hSame => hFirst (hSame ▸ value)
      rw [List.filter_cons_of_neg (by simpa using hFirst)]
      refine ih (once.sublist ?_) hMem
      exact (List.sublist_cons_self first rest).filterMap f

namespace Session

variable {σ : Type}

def trace (session : Session σ) : List Exchange := session.deeds.map Deed.exchange

theorem submitsNewJob_of_mem_deeds {session : Session σ} {deed : Deed} (h : deed ∈ session.deeds) :
    SubmitsNewJob session.engine deed.call deed.past := by
  rw [← session.flatMap_deeds_parts] at h
  obtain ⟨part, hPart, hDeed⟩ := List.mem_flatMap.mp h
  obtain ⟨-, state, hDeeds⟩ := deeds_of_mem_partsFrom _ _ _ _ _ _ part hPart
  have hMeets := part.command.meets_submitsNewJob session.engine part.past part.start
  exact (Program.Meets.deeds hMeets state deed (hDeeds ▸ hDeed)).1

/-- However a session is disturbed, no job is submitted twice. A job that is stored in the session has a
run if it is running, and a run only if exactly one plan was submitted for it: under the name of the job
and with the address to which its end is reported, and accepted as that run. All that a job was stored
with stays as it is, and so does its run. -/
theorem submissions_of_session (session : Session σ) :
    (session.trace.filterMap Exchange.submittedJob?).Nodup ∧
    (∀ world ∈ session.worlds, ∀ job ∈ world.store.jobs, ¬ session.start.store.Numbers job.id →
      (job.status = .running → ∃ run, job.run = some run) ∧
      ∀ run, job.run = some run → ∃ server plan,
        session.trace.filter (fun e => e.submittedJob? = some job.id) =
          [⟨.errand (.submit server (session.engine.jobNameOf job) plan), .ok run⟩] ∧
        session.engine.ReportsOn plan job) ∧
    session.worlds.Pairwise fun earlier later => earlier.store.Retains later.store := by
  obtain ⟨past, world, hPath⟩ := session.path_deeds
  have hTrace : session.trace = past := hPath.past_eq.symm
  have hStart : Distinguished [] session.start := ⟨List.nodup_nil, (fun _ h => nomatch h), .nil⟩
  have hStep : ∀ deed ∈ session.deeds, Distinguished deed.past deed.before →
      Distinguished (deed.past ++ [deed.exchange]) deed.after := fun deed hDeed =>
    (isSound_of_mem_deeds hDeed).distinguished (submitsNewJob_of_mem_deeds hDeed)
  have hOnce := (hPath.holds_at_end (I := Distinguished) hStart hStep).once
  refine ⟨hTrace ▸ hOnce, ?_, hPath.pairwise Store.Retains.trans fun deed hDeed =>
    (isSound_of_mem_deeds hDeed).retains⟩
  refine List.forall_mem_cons.mpr ⟨fun job hJob hNew => absurd ⟨job, hJob, rfl⟩ hNew, ?_⟩
  refine List.forall_mem_map.mpr fun deed hDeed job hJob hNew => ?_
  have hTruthful := (hPath.invariant
    (I := fun past world => ∀ job ∈ world.store.jobs, ¬ session.start.store.Numbers job.id →
      job.IsTruthful session.engine past)
    (fun job hJob hNew => absurd ⟨job, hJob, rfl⟩ hNew)
    (fun deed hDeed => (isSound_of_mem_deeds hDeed).isTruthful) deed hDeed).2 job hJob hNew
  refine ⟨hTruthful.1, fun run hRun => ?_⟩
  obtain ⟨server, plan, hAccepted, hReports⟩ := hTruthful.2 run hRun
  refine ⟨server, plan, ?_, hReports⟩
  rw [hTrace]
  exact filter_eq_singleton hOnce ((hPath.isPrefix_of_mem hDeed).subset hAccepted) hReports.jobNumber?

def rebuiltSample : Session Unit :=
  { Session.sample (.abort 1 5) with
    start := { store := Interleaving.sampleStore, histories := [], nextRun := 100 }
    commands := [.build 1 5 3 ⟨"alice", [⟨12, "dev", "", none⟩], []⟩,
      .complete 1 5 3 .build ⟨1, .success⟩] }

/-- The job that was launched by itself has the run as which its only plan was accepted. -/
theorem submissions_of_rebuiltSample :
    ∃ world ∈ rebuiltSample.worlds, ∃ job ∈ world.store.jobs,
      job.id = 2 ∧ job.status = .running ∧ job.run = some 101 ∧ ∃ server plan,
        rebuiltSample.trace.filter (fun e => e.submittedJob? = some job.id) =
          [⟨.errand (.submit server (rebuiltSample.engine.jobNameOf job) plan), .ok 101⟩] ∧
        rebuiltSample.engine.ReportsOn plan job := by
  have hLaunched : ∃ world ∈ rebuiltSample.worlds, ∃ job ∈ world.store.jobs,
      job.id = 2 ∧ job.status = .running ∧ job.run = some 101 := by decide +kernel
  obtain ⟨world, hWorld, job, hJob, hId, hStatus, hRun⟩ := hLaunched
  have hNew : ¬ rebuiltSample.start.store.Numbers job.id := by
    rintro ⟨other, hOther, -⟩
    cases hOther
  exact ⟨world, hWorld, job, hJob, hId, hStatus, hRun,
    ((submissions_of_session rebuiltSample).2.1 world hWorld job hJob hNew).2 101 hRun⟩

end Session

end DeliveryPipeline

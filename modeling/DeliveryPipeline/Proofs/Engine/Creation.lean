import DeliveryPipeline.Proofs.Engine.Launch
import DeliveryPipeline.Proofs.Engine.Preparation
import DeliveryPipeline.Proofs.Program.Deeds

/-! # What a creation leaves behind

A build or a deploy changes nothing before it stores its job, and three calls come after that. Nothing is
taken back if one of them fails: the job waits in the store, and the order may be running already. A plan
is handed over once at most, for the job that is stored, to a server that was reached.
-/

namespace DeliveryPipeline

set_option autoImplicit false

open Operation

/-- A job in its place that has not been submitted, under a number above all that were there before. -/
structure IsNew (before : Store) (project order stage : Int64) (kind : JobKind) (job : Job) : Prop where
  above : ∀ other ∈ before.jobs, other.id < job.id
  place : job.isAt project order stage kind = true
  status : job.status = .init
  run : job.run = none

/-- How a creation may end: with which result, after which exchanges, and with what in the store. -/
inductive Creation (engine : Engine) (project order stage : Int64) (kind : JobKind) (before : Store) :
    Except EngineError Launch → List Exchange → Store → Prop
  | launched {job : Job} {server : CiServer} {plan : Plan} {run : Int64} {past : List Exchange}
    (new : IsNew before project order stage kind job)
    (accepted : ⟨.errand (.submit server (engine.jobNameOf job) plan), .ok run⟩ ∈ past) :
    Creation engine project order stage kind before (.ok ⟨run, engine.jobNameOf job⟩) past
      ((before.addJob (job.started run)).changeOrder order Order.started)
  | refused {e : EngineError} {past : List Exchange} (unsubmitted : Unsubmitted past) :
    Creation engine project order stage kind before (.error e) past before
  | notStarted {job : Job} {past : List Exchange} {cause : StorageError}
    (new : IsNew before project order stage kind job) :
    Creation engine project order stage kind before (.error (.storage cause))
      (past ++ [⟨.update (.setOrderStatus order .running), .error cause⟩]) (before.addJob job)
  | notSubmitted {job : Job} {past : List Exchange} {server : CiServer} {plan : Plan} {cause : ErrandError}
    (new : IsNew before project order stage kind job) :
    Creation engine project order stage kind before (.error (.outside (.submission kind) cause))
      (past ++ [⟨.errand (.submit server (engine.jobNameOf job) plan), .error cause⟩])
      ((before.addJob job).changeOrder order Order.started)
  | notRecorded {job : Job} {past : List Exchange} {run : Int64} {cause : StorageError}
    (new : IsNew before project order stage kind job) :
    Creation engine project order stage kind before (.error (.storage cause))
      (past ++ [⟨.update (.startJob job.id run), .error cause⟩])
      ((before.addJob job).changeOrder order Order.started)

/-- Where a plan may be handed over: for the first time, to a server that was reached, for a new job that
is stored. -/
inductive HandsOver (engine : Engine) (project order stage : Int64) (kind : JobKind) (before : Store) :
    Call → Assertion
  | nothing {c : Call} {past : List Exchange} {world : World} (h : c.submits = false) :
    HandsOver engine project order stage kind before c past world
  | plan {server : CiServer} {plan : Plan} {job : Job} {past : List Exchange} {world : World}
    (first : Unsubmitted past) (reached : ⟨.errand (.ping server), .ok ()⟩ ∈ past)
    (new : IsNew before project order stage kind job) (stored : job ∈ world.store.jobs)
    (reports : engine.ReportsOn plan job) :
    HandsOver engine project order stage kind before
      (.errand (.submit server (engine.jobNameOf job) plan)) past world

theorem Call.submits_of_isPreparation {c : Call} (h : c.isPreparation = true) : c.submits = false := by
  cases c with
  | errand e => cases e <;> first | rfl | cases h
  | lookup _ | update _ => rfl

theorem Call.submits_of_isQuiet {c : Call} (h : c.isQuiet = true) : c.submits = false :=
  submits_of_isPreparation (isPreparation_of_isQuiet h)

theorem Prepared.unsubmitted {past : List Exchange} (h : Prepared past) : Unsubmitted past :=
  fun e he => Call.submits_of_isPreparation (h e he)

theorem Quiet.unsubmitted {past : List Exchange} (h : Quiet past) : Unsubmitted past :=
  fun e he => Call.submits_of_isQuiet (h e he)

namespace Engine

abbrev Creates (engine : Engine) (project order stage : Int64) (kind : JobKind) (before : Store)
    (x : Operation Launch) : Assertion :=
  x.Meets (HandsOver engine project order stage kind before)
    (fun launch past world => Creation engine project order stage kind before (.ok launch) past world.store)
    (fun e past world => Creation engine project order stage kind before (.error e) past world.store)

variable {engine : Engine} {project order stage : Int64} {kind : JobKind} {past : List Exchange}
  {world : World} {server : CiServer}

theorem creates_launch {found : Order} {draft : JobDraft} {planFor : Int64 → Plan}
    (asked : world.store.answer (.order order) = some found) (prepared : Prepared past)
    (reached : ⟨.errand (.ping server), .ok ()⟩ ∈ past)
    (place : ∀ id, (Job.ofDraft id draft).isAt project order stage kind = true)
    (reports : ∀ id, engine.ReportsOn (planFor id) (Job.ofDraft id draft)) :
    engine.Creates project order stage kind world.store (launch engine found server draft planFor) past
      world := by
  obtain ⟨rfl, rfl, rfl, rfl⟩ := Job.isAt_iff.mp (place 0)
  have hNew : ∀ id, (∀ job ∈ world.store.jobs, job.id < id) → IsNew world.store draft.project draft.order
      draft.stage draft.kind (Job.ofDraft id draft) := fun id above => ⟨above, place id, rfl, rfl⟩
  refine meets_launch asked (.nothing rfl) ?refused ?start ?submit
  case refused =>
    intro e reply
    exact .refused (prepared.unsubmitted.snoc rfl)
  case start =>
    intro id here above _ stored
    refine ⟨.nothing rfl, fun cause => ?_⟩
    rw [stored]
    exact .notStarted (hNew id above)
  case submit =>
    intro id between here above unsubmitted stored
    refine ⟨.plan ?_ (List.mem_append_left _ reached) (hNew id above) ?_ (reports id), ?_, ?_, ?_, ?_⟩
    · exact List.forall_mem_append.mpr
        ⟨prepared.unsubmitted, List.forall_mem_cons.mpr ⟨rfl, unsubmitted⟩⟩
    · rw [stored]
      exact List.mem_append_right _ (List.mem_singleton.mpr rfl)
    · intro cause
      rw [stored]
      exact .notSubmitted (hNew id above)
    · intro run after _
      exact .nothing rfl
    · intro run after cause same
      rw [same, stored]
      exact .notRecorded (hNew id above)
    · intro run after recorded
      rw [recorded]
      exact .launched (hNew id above)
        (List.mem_append_left _ (List.mem_append_right _ (List.mem_singleton.mpr rfl)))

end Engine

namespace JobRequest

theorem creates (engine : Engine) (request : JobRequest) (project order stage : Int64) (world : World) :
    engine.Creates project order stage request.kind world.store
      (request.create engine project order stage) [] world := by
  refine (request.leadsTo_launch engine project order stage []).meets prepared_nil (fun _ h => nomatch h)
    (fun c past _ hPrepares => .nothing (Call.submits_of_isPreparation hPrepares))
    (fun e past hPrepared => .refused hPrepared.unsubmitted) ?_
  rintro _ past hPrepared hTold ⟨hFound, hReached, -, hPlace, hReports⟩
  obtain ⟨disturbance, hReply⟩ := hTold _ hFound
  exact Engine.creates_launch (World.answer_of_lookup_order hReply) hPrepared hReached hPlace hReports

/-- However the calls of a request are disturbed, its run ends as a creation may, and it hands over one
plan at most. -/
theorem creation_of_run {σ : Type} (engine : Engine) (request : JobRequest) (project order stage : Int64)
    (rule : Rule σ) (command : Api.Command) (world : World) (state : σ) :
    let program := (request.create engine project order stage).run
    let run := program.run rule world state
    Creation engine project order stage request.kind world.store run.value run.exchanges
        run.world.store ∧
      ∀ deed ∈ program.deeds rule command [] world state,
        HandsOver engine project order stage request.kind world.store deed.call deed.past deed.before := by
  have hCreates := request.creates engine project order stage world
  refine ⟨?_, fun deed hDeed => (Program.Meets.deeds hCreates state deed hDeed).1⟩
  have hEnd := Program.Meets.ends_run hCreates rule state
  cases hValue : ((request.create engine project order stage).run.run rule world state).value with
  | ok launch =>
    rw [hValue] at hEnd
    exact hEnd
  | error e =>
    rw [hValue] at hEnd
    exact hEnd

end JobRequest

end DeliveryPipeline

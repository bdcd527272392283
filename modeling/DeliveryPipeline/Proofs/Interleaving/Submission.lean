import DeliveryPipeline.Proofs.Engine.Launching
import DeliveryPipeline.Proofs.Interleaving.Records

/-! # The end of a job is reported while it is submitted

The CI server may run a job and report its end before the request that submitted the job has recorded
the run. The report settles the job; if the run is recorded after that, the job is set running again,
and nobody will report it a second time.
-/

namespace DeliveryPipeline

set_option autoImplicit false

open Operation

variable {α : Type} {project order stage : Int64} {kind : JobKind} {report : Callback}

/-- A status is written only to a job that was created by the same program. -/
def WritesOwnJobs (c : Call) : Knowledge := fun past =>
  ∀ id status, c.jobStatus? = some (id, status) →
    ∃ draft, ⟨.update (.insertJob draft), .ok (.created id)⟩ ∈ past

/-- A job is stored only where it was asked for, after its order was found, and is never settled. -/
structure CreatesAt (project order stage : Int64) (kind : JobKind) (c : Call) (past : List Exchange) :
    Prop where
  place : ∀ draft, c = .update (.insertJob draft) →
    (∀ id, (Job.ofDraft id draft).isAt project order stage kind = true) ∧
      ∃ found : Order, ⟨.lookup (.order order), .ok (some found)⟩ ∈ past
  unsettled : ∀ id status, c ≠ .update (.setJobStatus id status)

/-- What a report does: it looks, settles the job that it has found, and then writes to no job that it
has not created. -/
inductive Reports (report : Callback) : Call → Knowledge
  | looks {c : Call} {past : List Exchange} (quiet : c.isQuiet = true) : Reports report c past
  | settles {job : Job} {past : List Exchange} (quiet : ∀ e ∈ past, e.call.isQuiet = true)
    (found : ⟨.lookup (.job report.job), .ok (some job)⟩ ∈ past) :
    Reports report (.update (.setJobStatus job.id report.outcome.status)) past
  | goesOn {c : Call} {past : List Exchange} (settled : ∃ e ∈ past, e.call.isQuiet = false)
    (own : WritesOwnJobs c past) : Reports report c past

/-- What a report is told while it is on its way to settle its job. -/
def Exchange.LeadsOn (project order stage : Int64) (kind : JobKind) (id : Int64) : Exchange → Prop
  | ⟨.lookup (.job asked), reply⟩ => asked = id → ∃ job : Job, reply = .ok (some job) ∧
      job.isAt project order stage kind = true ∧ job.isActive = true ∧ job.id = id
  | ⟨.lookup (.order asked), reply⟩ => asked = order → ∃ found : Order, reply = .ok (some found)
  | ⟨c, _⟩ => c.isQuiet = true

theorem writesOwnJobs_of_sparesJobs {c : Call} (h : c.sparesJobs = true) (past : List Exchange) :
    WritesOwnJobs c past := by
  intro id status hWrites
  cases c with
  | update u => cases u <;> cases hWrites <;> cases h
  | lookup _ | errand _ => cases hWrites

theorem createsAt_of_sparesJobs {c : Call} (h : c.sparesJobs = true) (past : List Exchange) :
    CreatesAt project order stage kind c past where
  place := by
    rintro draft rfl
    cases h
  unsettled := by
    rintro id status rfl
    cases h

theorem JobRequest.obeys_create (engine : Engine) (request : JobRequest) (past : List Exchange) :
    (request.create engine project order stage).Obeys
      (fun c past => CreatesAt project order stage request.kind c past ∧ WritesOwnJobs c past)
      (fun _ _ => True) (fun _ _ => True) past := by
  have hSpares : ∀ c past, c.sparesJobs = true →
      CreatesAt project order stage request.kind c past ∧ WritesOwnJobs c past := fun c past hSpares =>
    ⟨createsAt_of_sparesJobs hSpares past, writesOwnJobs_of_sparesJobs hSpares past⟩
  refine (request.leadsTo_launch engine project order stage past).obeys
    (fun c past hPrepares => hSpares c past (Call.sparesJobs_of_isPreparation hPrepares))
    (fun _ _ => trivial) ?_
  rintro _ past ⟨hFound, -, -, hPlace, -⟩
  refine Engine.obeys_launch hSpares ?insert (fun id between _ => ?submit) fun id run between => ?record
  case insert =>
    refine ⟨⟨?_, by simp⟩, fun _ _ h => nomatch h⟩
    rintro other hOther
    cases hOther
    exact ⟨hPlace, _, hFound⟩
  case submit => exact ⟨⟨by simp, by simp⟩, fun _ _ h => nomatch h⟩
  case record =>
    refine ⟨⟨by simp, by simp⟩, fun id status hWrites => ?_⟩
    obtain ⟨rfl, -⟩ := Prod.mk.inj (Option.some.inj hWrites)
    exact ⟨_, List.mem_append_right _ List.mem_cons_self⟩

namespace Engine

theorem obeys_complete_of_leadsOn (engine : Engine) :
    (complete engine project order stage kind report).Obeys (Reports report)
      (fun _ past => ∃ e ∈ past, ¬ e.LeadsOn project order stage kind report.job)
      (fun _ past => ∃ e ∈ past, ¬ e.LeadsOn project order stage kind report.job) [] := by
  refine obeys_lookup_bind (.looks rfl) (fun answer => ?_) fun e => ?jobFails
  case jobFails =>
    refine ⟨⟨.lookup (.job report.job), .error e⟩, by simp, fun hLeads => ?_⟩
    obtain ⟨job, hReply, -⟩ := hLeads rfl
    cases hReply
  refine obeys_bind.mpr (obeys_require (fun job hJob => ?_) fun hNone => ?noJob)
  case noJob =>
    refine ⟨⟨.lookup (.job report.job), .ok answer⟩, by simp, fun hLeads => ?_⟩
    obtain ⟨job, hReply, hPlace, -⟩ := hLeads rfl
    cases hReply
    simp [hPlace] at hNone
  obtain ⟨rfl, hPlace⟩ := Option.filter_eq_some_iff.mp hJob
  refine obeys_bind.mpr (obeys_lookup_bind (.looks rfl) (fun answer => ?_) fun e => ?orderFails)
  case orderFails =>
    refine ⟨⟨.lookup (.order order), .error e⟩, by simp, fun hLeads => ?_⟩
    obtain ⟨found, hReply⟩ := hLeads rfl
    cases hReply
  refine obeys_require (fun found hFound => ?_) fun hNone => ?noOrder
  case noOrder =>
    refine ⟨⟨.lookup (.order order), .ok answer⟩, by simp, fun hLeads => ?_⟩
    obtain ⟨found, hReply⟩ := hLeads rfl
    cases hNone.symm.trans (Except.ok.inj hReply)
  split
  · rename_i hInactive
    refine ⟨⟨.lookup (.job report.job), .ok (some job)⟩, by simp, fun hLeads => ?_⟩
    obtain ⟨_, hReply, -, hActive, -⟩ := hLeads rfl
    cases hReply
    simp [hActive] at hInactive
  -- from here on there is an exchange that is not quiet, and the report may end
  have hSettled : ∀ {past : List Exchange} (reply : Except StorageError Unit),
      ⟨.update (.setJobStatus job.id report.outcome.status), reply⟩ ∈ past →
        ∃ e ∈ past, ¬ e.LeadsOn project order stage kind report.job :=
    fun reply hMem => ⟨_, hMem, fun hLeads => nomatch hLeads⟩
  refine obeys_update_bind (.settles ?_ (by simp)) (fun answer => ?_) fun e => hSettled (.error e) (by simp)
  · simp [Call.isQuiet]
  split
  · exact hSettled (.ok answer) (by simp)
  have hGoesOn : ∀ {past : List Exchange} {c : Call},
      ⟨.update (.setJobStatus job.id report.outcome.status), .ok answer⟩ ∈ past →
        WritesOwnJobs c past → Reports report c past :=
    fun hMem hOwn => .goesOn ⟨_, hMem, rfl⟩ hOwn
  split
  · refine obeys_update_bind (hGoesOn (by simp) fun _ _ h => nomatch h) (fun _ => ?_) fun e => ?_
    · exact hSettled (.ok answer) (by simp)
    · exact hSettled (.ok answer) (by simp)
  · have hAdvance := obeys_advance engine
      (fun c past h => writesOwnJobs_of_sparesJobs h past)
      (fun request project order stage past =>
        (request.obeys_create engine past).relax (fun _ _ h => h.2) (fun _ _ => id) fun _ _ => id)
      found stage job.creator
    exact (hAdvance _).relax (fun c later => hGoesOn (by simp))
      (fun _ later _ => hSettled (.ok answer) (by simp)) fun _ later _ => hSettled (.ok answer) (by simp)

end Engine

theorem Exchange.isQuiet_of_leadsOn {e : Exchange} {id : Int64}
    (h : e.LeadsOn project order stage kind id) : e.call.isQuiet = true := by
  obtain ⟨c, reply⟩ := e
  cases c with
  | lookup l => rfl
  | update u => cases h
  | errand e => exact h

theorem Exchange.written?_of_isQuiet {e : Exchange} (h : e.call.isQuiet = true) (id : Int64) :
    e.written? id = none := by
  obtain ⟨c, reply⟩ := e
  cases c with
  | update u => cases h
  | lookup _ | errand _ => rfl

theorem CreatesAt.written? {c : Call} {past : List Exchange}
    (h : CreatesAt project order stage kind c past) (reply : c.Reply) (id : Int64) :
    Exchange.written? ⟨c, reply⟩ id = none ∨ Exchange.written? ⟨c, reply⟩ id = some .running := by
  by_cases hOther : ∀ status, c.jobStatus? ≠ some (id, status)
  · exact .inl (Exchange.written?_of_ne hOther reply)
  obtain ⟨status, hWrites⟩ := not_forall_not.mp hOther
  cases c with
  | lookup _ | errand _ => cases hWrites
  | update u =>
    cases u with
    | startJob changed run =>
      cases hWrites
      cases reply with
      | ok answer => exact .inr (by simp [Exchange.written?, Call.jobStatus?, Except.isOk, Except.toBool])
      | error e => exact .inl (by simp [Exchange.written?, Call.jobStatus?, Except.isOk, Except.toBool])
    | setJobStatus changed status => exact absurd rfl (h.unsettled changed status)
    | setOrderStatus | moveOrder | insertJob | addConfirmation => cases hWrites

theorem Job.isActive_of_written {job job' : Job} {written : Option JobStatus}
    (status : job'.status = written.getD job.status) (active : job.isActive = true)
    (writes : written = none ∨ written = some .running) : job'.isActive = true := by
  rw [Job.isActive, status]
  rcases writes with rfl | rfl
  · exact active
  · rfl

theorem World.leadsOn_move {world : World} {found : Order} {job : Job} {id : Int64} {turn : Turn} {c : Call}
    (stored : world.store.answer (.order order) = some found)
    (waits : world.store.answer (.job id) = some job)
    (place : job.isAt project order stage kind = true) (active : job.isActive = true)
    (undisturbed : turn.disturbance = .none) (quiet : c.isQuiet = true) :
    (world.move turn c).exchange.LeadsOn project order stage kind id := by
  obtain ⟨side, disturbance⟩ := turn
  subst undisturbed
  cases c with
  | lookup l =>
    cases l with
    | job asked =>
      rintro rfl
      refine ⟨job, congrArg Except.ok waits, place, active, (mem_of_find? waits).2⟩
    | order asked =>
      rintro rfl
      exact ⟨found, congrArg Except.ok stored⟩
    | _ => rfl
  | update u => cases quiet
  | errand e => exact quiet

namespace Interleaving

def reportRules (project order stage : Int64) (kind : JobKind) (report : Callback) :
    Rules (Except EngineError Launch) (Except EngineError Progress) where
  calls
    | .left, c, past => CreatesAt project order stage kind c past
    | .right, c, past => Reports report c past
  left := known (fun _ _ => True) fun _ _ => True
  right :=
    known (fun _ past => ∃ e ∈ past, ¬ e.LeadsOn project order stage kind report.job)
      fun _ past => ∃ e ∈ past, ¬ e.LeadsOn project order stage kind report.job

theorem obeys_reportRules (engine : Engine) (request : JobRequest) (world : World) :
    Obeys (reportRules project order stage request.kind report) []
      (start (request.create engine project order stage)
        (engine.complete project order stage request.kind report) world) where
  left := (request.obeys_create engine []).relax (fun _ _ h => h.1) (fun _ _ => id) fun _ _ => id
  right := Engine.obeys_complete_of_leadsOn engine

structure Created (project order stage : Int64) (kind : JobKind) (moves : List Move) (world : World) :
    Prop where
  alone : ∀ move ∈ moves, move.side = .left
  found : StoredIfFound order moves world
  jobs : ∀ draft id,
    (∃ move ∈ moves, move.exchange = ⟨.update (.insertJob draft), .ok (.created id)⟩) →
      (∃ found, world.store.answer (.order order) = some found) ∧
      ∃ job, world.store.answer (.job id) = some job ∧ job.isAt project order stage kind = true ∧
        job.isActive = true

theorem Created.move {moves : List Move} {world : World} {turn : Turn} {c : Call}
    (h : Created project order stage kind moves world) (side : turn.side = .left)
    (allowed : CreatesAt project order stage kind c (Side.left.exchanges moves)) :
    Created project order stage kind (moves ++ [world.move turn c]) (world.move turn c).after where
  alone := List.forall_mem_append.mpr ⟨h.alone, List.forall_mem_singleton.mpr side⟩
  found := h.found.move turn c
  jobs := by
    rintro draft id ⟨move, hMove, hCreated⟩
    rcases List.mem_append.mp hMove with hMove | hMove
    · obtain ⟨⟨found, hFound⟩, job, hJob, hPlace, hActive⟩ := h.jobs draft id ⟨move, hMove, hCreated⟩
      obtain ⟨found', hFound', -⟩ := World.answer_order_reply hFound turn.disturbance c
      obtain ⟨job', hJob', hStatus, hPlace'⟩ := World.answer_job_reply hJob turn.disturbance c
      exact ⟨⟨found', hFound'⟩, job', hJob', by rw [hPlace', hPlace],
        Job.isActive_of_written hStatus hActive (allowed.written? _ id)⟩
    · rw [List.mem_singleton.mp hMove] at hCreated
      obtain ⟨rfl, hReply⟩ := World.eq_of_move_exchange hCreated
      obtain ⟨hAbove, hStore⟩ := World.store_of_created hReply
      obtain ⟨hPlace, found, hFound⟩ := allowed.place draft rfl
      obtain ⟨look, hLook, -, hExchange⟩ := Side.mem_exchanges.mp hFound
      obtain ⟨found', hFound'⟩ := h.found found ⟨look, hLook, hExchange⟩
      obtain ⟨found'', hFound'', -⟩ := World.answer_order_reply hFound' turn.disturbance
        (.update (.insertJob draft))
      refine ⟨⟨found'', hFound''⟩, Job.ofDraft id draft, ?_, hPlace id, rfl⟩
      change (world.reply turn.disturbance (.update (.insertJob draft))).2.store.answer (.job id) = _
      rw [hStore]
      exact Store.answer_addJob hAbove

def Pending (project order stage : Int64) (kind : JobKind) (report : Callback) (moves : List Move) : Prop :=
  ∀ move ∈ moves, move.side = .right → move.exchange.LeadsOn project order stage kind report.job

/-- The report has settled its job; the status is the one it gave, or Running, if the creation has
recorded the job's run after that. -/
def Settled (report : Callback) (moves : List Move) (status : JobStatus) : Prop :=
  ∃ before settle after, moves = before ++ settle :: after ∧ settle.side = .right ∧
    settle.exchange.written? report.job = some report.outcome.status ∧
    ((∀ move ∈ after, move.exchange.written? report.job = none) ∧ status = report.outcome.status ∨
      (∃ move ∈ after, move.side = .left ∧ move.exchange.written? report.job = some .running) ∧
        status = .running)

theorem Settled.move {moves : List Move} {status : JobStatus} {move : Move}
    (h : Settled report moves status)
    (writes : move.exchange.written? report.job = none ∨
      move.side = .left ∧ move.exchange.written? report.job = some .running) :
    Settled report (moves ++ [move]) ((move.exchange.written? report.job).getD status) := by
  obtain ⟨before, settle, after, rfl, hSide, hSettles, hAfter⟩ := h
  refine ⟨before, settle, after ++ [move], by simp, hSide, hSettles, ?_⟩
  rcases writes with hNone | ⟨hLeft, hRunning⟩
  · rw [hNone]
    rcases hAfter with ⟨hQuiet, hStatus⟩ | ⟨⟨recorded, hMem, hRecorded⟩, hStatus⟩
    · exact .inl ⟨List.forall_mem_append.mpr ⟨hQuiet, List.forall_mem_singleton.mpr hNone⟩, hStatus⟩
    · exact .inr ⟨⟨recorded, List.mem_append_left _ hMem, hRecorded⟩, hStatus⟩
  · rw [hRunning]
    exact .inr ⟨⟨move, by simp, hLeft, hRunning⟩, rfl⟩

/-- Once a job is created: it is in its place and waits for the report, or the report has settled it. -/
structure Reported (project order stage : Int64) (kind : JobKind) (report : Callback) (moves : List Move)
    (world : World) : Prop where
  stored : ∃ found, world.store.answer (.order order) = some found
  created : ∀ move ∈ moves, ∀ draft id,
    move.exchange = ⟨.update (.insertJob draft), .ok (.created id)⟩ → id ≠ report.job
  job : ∃ job, world.store.answer (.job report.job) = some job ∧
    job.isAt project order stage kind = true ∧
    (Pending project order stage kind report moves ∧ job.isActive = true ∨
      Settled report moves job.status)

theorem Pending.snoc {moves : List Move} {move : Move}
    (h : Pending project order stage kind report moves)
    (leads : move.side = .right → move.exchange.LeadsOn project order stage kind report.job) :
    Pending project order stage kind report (moves ++ [move]) :=
  List.forall_mem_append.mpr ⟨h, List.forall_mem_singleton.mpr leads⟩

theorem Reported.written?_of_own {moves : List Move} {world : World}
    (h : Reported project order stage kind report moves world) {past : List Exchange} {c : Call}
    (seen : ∀ e ∈ past, ∃ move ∈ moves, move.side = .right ∧ move.exchange = e)
    (own : WritesOwnJobs c past) (reply : c.Reply) :
    Exchange.written? ⟨c, reply⟩ report.job = none := by
  refine Exchange.written?_of_ne (fun status hWrites => ?_) reply
  obtain ⟨draft, hCreated⟩ := own _ _ hWrites
  obtain ⟨move, hMove, -, hExchange⟩ := seen _ hCreated
  exact h.created move hMove draft _ hExchange rfl

theorem Reported.state_of_reports {moves : List Move} {world : World} {turn : Turn} {c : Call}
    {past : List Exchange} {job job' : Job} {found : Order}
    (h : Reported project order stage kind report moves world)
    (stored : world.store.answer (.order order) = some found)
    (waits : world.store.answer (.job report.job) = some job)
    (place : job.isAt project order stage kind = true)
    (state : Pending project order stage kind report moves ∧ job.isActive = true ∨
      Settled report moves job.status)
    (status : job'.status = ((world.move turn c).exchange.written? report.job).getD job.status)
    (side : turn.side = .right) (undisturbed : turn.disturbance = .none)
    (seen : ∀ e ∈ past, ∃ move ∈ moves, move.side = .right ∧ move.exchange = e)
    (all : ∀ move ∈ moves, move.side = .right → move.exchange ∈ past)
    (allowed : Reports report c past) :
    Pending project order stage kind report (moves ++ [world.move turn c]) ∧ job'.isActive = true ∨
      Settled report (moves ++ [world.move turn c]) job'.status := by
  cases allowed with
  | looks quiet =>
    have hNone : (world.move turn c).exchange.written? report.job = none :=
      Exchange.written?_of_isQuiet quiet report.job
    rcases state with ⟨hPending, hActive⟩ | hSettled
    · refine .inl ⟨hPending.snoc fun _ => ?_, Job.isActive_of_written status hActive (.inl hNone)⟩
      exact World.leadsOn_move stored waits place hActive undisturbed quiet
    · rw [status]
      exact .inr (hSettled.move (.inl hNone))
  | @settles looked past quiet looks =>
    rcases state with ⟨hPending, hActive⟩ | ⟨before, settle, after, rfl, hSide, hSettles, -⟩
    · obtain ⟨look, hLook, hLookSide, hExchange⟩ := seen _ looks
      have hLeads := hPending look hLook hLookSide
      rw [hExchange] at hLeads
      obtain ⟨_, hReply, -, -, hId⟩ := hLeads rfl
      cases hReply
      have hWritten : (world.move turn (.update (.setJobStatus looked.id report.outcome.status))).exchange.written?
          report.job = some report.outcome.status := by
        obtain ⟨_, _⟩ := turn
        subst undisturbed
        rw [hId]
        simp [World.move, Move.exchange, Exchange.written?, Call.jobStatus?, World.reply, World.answerUpdate,
          Store.update, Except.isOk, Except.toBool]
      rw [hWritten] at status
      exact .inr ⟨moves, _, [], rfl, side, hWritten, .inl ⟨by simp, status⟩⟩
    · -- the job was settled before, by a call that is not quiet
      have hQuiet := quiet _ (all settle (by simp) hSide)
      rw [Exchange.written?_of_isQuiet hQuiet] at hSettles
      cases hSettles
  | goesOn settled own =>
    have hNone : (world.move turn c).exchange.written? report.job = none :=
      h.written?_of_own seen own _
    rcases state with ⟨hPending, -⟩ | hSettled
    · obtain ⟨e, hMem, hNotQuiet⟩ := settled
      obtain ⟨move, hMove, hMoveSide, rfl⟩ := seen e hMem
      rw [Exchange.isQuiet_of_leadsOn (hPending move hMove hMoveSide)] at hNotQuiet
      cases hNotQuiet
    · rw [status]
      exact .inr (hSettled.move (.inl hNone))

theorem Reported.move {past moves : List Move} {world : World} {turn : Turn} {c : Call}
    (h : Reported project order stage kind report moves world) (alone : ∀ move ∈ past, move.side = .left)
    (undisturbed : turn.side = .right → turn.disturbance = .none)
    (allowed : (reportRules project order stage kind report).calls turn.side c
      (turn.side.exchanges (past ++ moves))) :
    Reported project order stage kind report (moves ++ [world.move turn c]) (world.move turn c).after := by
  obtain ⟨found, hFound⟩ := h.stored
  obtain ⟨job, hJob, hPlace, hState⟩ := h.job
  obtain ⟨found', hFound', -⟩ := World.answer_order_reply hFound turn.disturbance c
  obtain ⟨job', hJob', hStatus, hPlace'⟩ := World.answer_job_reply hJob turn.disturbance c
  refine ⟨⟨found', hFound'⟩, ?_, job', hJob', by rw [hPlace', hPlace], ?_⟩
  · intro move hMove draft id hCreated
    rcases List.mem_append.mp hMove with hMove | hMove
    · exact h.created move hMove draft id hCreated
    · rw [List.mem_singleton.mp hMove] at hCreated
      obtain ⟨rfl, hReply⟩ := World.eq_of_move_exchange hCreated
      obtain ⟨hMem, hId⟩ := mem_of_find? hJob
      exact (Int64.ne_of_lt (hId ▸ (World.store_of_created hReply).1 job hMem)).symm
  cases hSide : turn.side with
  | left =>
    rw [hSide] at allowed
    have hWrites := CreatesAt.written? allowed (world.reply turn.disturbance c).1 report.job
    rcases hState with ⟨hPending, hActive⟩ | hSettled
    · refine .inl ⟨hPending.snoc fun hRight => ?_, Job.isActive_of_written hStatus hActive hWrites⟩
      cases hSide.symm.trans hRight
    · rw [hStatus]
      exact .inr (hSettled.move (hWrites.imp_right fun hRunning => ⟨hSide, hRunning⟩))
  | right =>
    rw [hSide] at allowed
    refine h.state_of_reports hFound hJob hPlace hState hStatus hSide (undisturbed hSide) ?_ ?_ allowed
    · intro e he
      obtain ⟨move, hMove, hMoveSide, hExchange⟩ := Side.mem_exchanges.mp he
      rcases List.mem_append.mp hMove with hMove | hMove
      · cases (alone move hMove).symm.trans hMoveSide
      · exact ⟨move, hMove, hMoveSide, hExchange⟩
    · intro move hMove hMoveSide
      exact Side.mem_exchanges.mpr ⟨move, List.mem_append_right past hMove, hMoveSide, rfl⟩

theorem Settled.after {moves : List Move} {status : JobStatus} (h : Settled report moves status)
    (past : List Move) : Settled report (past ++ moves) status := by
  obtain ⟨before, settle, after, rfl, hSettle⟩ := h
  exact ⟨past ++ before, settle, after, (List.append_assoc _ _ _).symm, hSettle⟩

def submission (engine : Engine) (project order stage : Int64) (request : JobRequest) (report : Callback)
    (world : World) : Interleaving (Except EngineError Launch) (Except EngineError Progress) :=
  start (request.create engine project order stage)
    (engine.complete project order stage request.kind report) world

theorem created_of_alone (engine : Engine) (project order stage : Int64) (request : JobRequest)
    (report : Callback) (world : World) {alone : List Turn} (left : ∀ turn ∈ alone, turn.side = .left) :
    let pair := submission engine project order stage request report world
    Created project order stage request.kind (pair.moves alone) (pair.finish alone).world ∧
      (pair.finish alone).Obeys (reportRules project order stage request.kind report)
        (pair.moves alone) := by
  refine (obeys_reportRules engine request world).holds
    (Created project order stage request.kind) alone ⟨?_, ?_, ?_⟩ ?_
  · exact fun _ h => nomatch h
  · rintro found ⟨move, hMove, -⟩
    cases hMove
  · rintro draft id ⟨move, hMove, -⟩
    cases hMove
  · intro turn hTurn moves world c hAllowed hCreated
    rw [left turn hTurn] at hAllowed
    exact hCreated.move (left turn hTurn) hAllowed

/-- A report that comes once its job is created settles the job, however far the submission is. The job
keeps the status that was reported exactly if its run is not recorded after that. -/
theorem settled_of_moves {engine : Engine} {request : JobRequest} {world : World} {alone rest : List Turn}
    (left : ∀ turn ∈ alone, turn.side = .left)
    (created : ∃ move ∈ (submission engine project order stage request report world).moves alone,
      move.exchange.created? = some report.job)
    (undisturbed : ∀ turn ∈ rest, turn.side = .right → turn.disturbance = .none)
    (done : ((submission engine project order stage request report world).finish
      (alone ++ rest)).right.isDone = true) :
    let pair := submission engine project order stage request report world
    ∃ job, (pair.finish (alone ++ rest)).world.store.answer (.job report.job) = some job ∧
      job.isAt project order stage request.kind = true ∧
      Settled report (pair.moves (alone ++ rest)) job.status := by
  intro pair
  obtain ⟨hCreated, hObeys⟩ := created_of_alone engine project order stage request report world left
  obtain ⟨create, hCreate, hNumber⟩ := created
  obtain ⟨draft, hExchange⟩ := Exchange.created?_eq_some_iff.mp hNumber
  obtain ⟨hStored, job, hJob, hPlace, hActive⟩ := hCreated.jobs draft report.job ⟨create, hCreate, hExchange⟩
  have hStart : Reported project order stage request.kind report [] (pair.finish alone).world :=
    ⟨hStored, (fun _ h => nomatch h), job, hJob, hPlace, .inl ⟨(fun _ h => nomatch h), hActive⟩⟩
  obtain ⟨hReported, hEnd⟩ := hObeys.holds
    (Reported project order stage request.kind report) rest hStart
    fun turn hTurn moves world c hAllowed h => h.move hCreated.alone (undisturbed turn hTurn) hAllowed
  obtain ⟨job, hJob, hPlace, hState⟩ := hReported.job
  rw [finish_append, moves_append]
  refine ⟨job, hJob, hPlace, ?_⟩
  rcases hState with ⟨hPending, -⟩ | hSettled
  · -- a report that is done has been told something that does not lead it on
    rw [finish_append] at done
    obtain ⟨result, hKnown⟩ := hEnd.right.ends_of_isDone done
    obtain ⟨e, hMem, hStops⟩ : ∃ e ∈ Side.right.exchanges (pair.moves alone ++ _),
        ¬ e.LeadsOn project order stage request.kind report.job := by
      cases result <;> exact hKnown
    obtain ⟨move, hMove, hSide, rfl⟩ := Side.mem_exchanges.mp hMem
    rcases List.mem_append.mp hMove with hMove | hMove
    · cases (hCreated.alone move hMove).symm.trans hSide
    · exact absurd (hPending move hMove hSide) hStops
  · exact hSettled.after _

/-- The job 1 is submitted, a build that is followed by a manual step. -/
def submissionSample : Interleaving (Except EngineError Launch) (Except EngineError Progress) :=
  let stage : Stage :=
    ⟨3, "production", [⟨1, 1, "build", .build, []⟩, ⟨2, 2, "approval", .manual, []⟩]⟩
  submission (.ofServer "http://conveyor.local") 1 5 3 (.build ⟨"alice", [⟨12, "dev", "", none⟩], []⟩)
    ⟨1, .success⟩
    { store := { sampleStore with snapshots := [⟨1, [stage]⟩] }
      histories := []
      nextRun := 100 }

def submitted : List Turn := List.replicate 17 ⟨.left, .none⟩

def reported : List Turn := List.replicate 5 ⟨.right, .none⟩

theorem settled_of_submitted :
    (∀ turn ∈ submitted, turn.side = .left) ∧
      (∃ move ∈ submissionSample.moves submitted, move.exchange.created? = some 1) ∧
      (∀ turn ∈ reported, turn.side = .right → turn.disturbance = .none) ∧
      (submissionSample.finish (submitted ++ reported)).right.isDone = true ∧
      ∃ job, (submissionSample.finish (submitted ++ reported)).world.store.answer (.job 1) = some job ∧
        job.isAt 1 5 3 .build = true ∧
        Settled ⟨1, .success⟩ (submissionSample.moves (submitted ++ reported)) job.status := by
  have hLeft : ∀ turn ∈ submitted, turn.side = .left := by decide
  have hCreated : ∃ move ∈ submissionSample.moves submitted, move.exchange.created? = some 1 := by
    decide +kernel
  have hUndisturbed : ∀ turn ∈ reported, turn.side = .right → turn.disturbance = .none := by decide
  have hDone : (submissionSample.finish (submitted ++ reported)).right.isDone = true := by
    decide +kernel
  exact ⟨hLeft, hCreated, hUndisturbed, hDone, settled_of_moves hLeft hCreated hUndisturbed hDone⟩

/-- A job can be running in the end, though the CI server accepted its plan before its success was
reported, and nothing failed. It then occupies its scope. -/
theorem running_after_report :
    let turns := submitted.take 16 ++ reported ++ submitted.drop 16
    (∀ turn ∈ turns, turn.disturbance = .none) ∧
      (submissionSample.finish turns).left.isDone = true ∧
      (submissionSample.finish turns).right.isDone = true ∧
      ((submissionSample.moves turns).map fun move => (move.side, move.call.submits))[15]? =
        some (.left, true) ∧
      (((submissionSample.moves turns).drop 16).map fun move =>
        (move.side, move.exchange.written? 1)).filter (·.2.isSome) =
          [(.right, some .success), (.left, some .running)] ∧
      ((submissionSample.finish turns).world.store.activeJobs (.build 1 3 5)).map
        (fun job => (job.id, job.status)) = [(1, .running)] := by
  decide +kernel

end Interleaving

end DeliveryPipeline

import DeliveryPipeline.Proofs.Engine.Commands
import DeliveryPipeline.Proofs.Engine.Creation
import DeliveryPipeline.Proofs.Snapshot

/-! # Completing a step

Only two things complete the step at which an order stands: the report that an active job succeeded, and
the confirmation of a manual step. Either ends with the order's move, before which nothing but the job's
status or the record of the confirmation is written. What follows the move is a launch, and that leaves
every record as it is. So a report that fails has changed nothing, or only the status of its job.
-/

namespace DeliveryPipeline

set_option autoImplicit false

open Api (Command)
open Operation

/-- Where an order stands in its stage, as it is stored. -/
def Order.place (order : Order) : Int32 × String × String := (order.stepIndex, order.step, order.stepType)

def Order.movedTo (order : Order) (next : Step) : Order :=
  { order with
    stepIndex := next.index, step := next.name, stepType := Named.name next.kind, status := .running }

namespace Store

variable {store : Store}

theorem update_moveOrder {id : Int64} {order : Order} {next : Step}
    (found : store.answer (.order id) = some order) (ahead : order.stepIndex < next.index) :
    store.update (.moveOrder id next.index next.name (Named.name next.kind) .running) =
      (.ok (), store.changeOrder id fun order => order.movedTo next) := by
  refine Prod.ext rfl (congrArg (fun orders => { store with orders := orders })
    (changeFirst_congr fun other hOther => ?_))
  obtain rfl := Option.some.inj (hOther.symm.trans found)
  exact if_neg (Int32.not_lt.mpr (Int32.le_of_lt ahead))

theorem changeOrder_eq_self {id : Int64} {order : Order} (found : store.answer (.order id) = some order)
    {change : Order → Order} (same : change order = order) : store.changeOrder id change = store := by
  refine congrArg (fun orders => { store with orders := orders })
    (changeFirst_eq_self fun other hOther => ?_)
  obtain rfl := Option.some.inj (hOther.symm.trans found)
  exact same

def settle (store : Store) (id : Int64) (status : JobStatus) : Store :=
  store.changeJob id fun job => { job with status := status }

theorem answer_settle {id : Int64} {job : Job} (found : store.answer (.job id) = some job)
    (status : JobStatus) :
    (store.settle id status).answer (.job id) = some { job with status := status } :=
  store.answer_changeJob found _ fun _ => rfl

/-- Jobs that were found are found as they were, and orders that were found are still found. -/
structure KeepsRecords (before after : Store) : Prop where
  jobs : ∀ id job, before.answer (.job id) = some job → after.answer (.job id) = some job
  orders : ∀ id order, before.answer (.order id) = some order →
    ∃ order', after.answer (.order id) = some order'

theorem KeepsRecords.refl (store : Store) : store.KeepsRecords store :=
  ⟨fun _ _ found => found, fun _ order found => ⟨order, found⟩⟩

theorem KeepsRecords.trans {first second third : Store} (h : first.KeepsRecords second)
    (h' : second.KeepsRecords third) : first.KeepsRecords third := by
  refine ⟨fun id job found => h'.jobs id job (h.jobs id job found), fun id order found => ?_⟩
  obtain ⟨order', found'⟩ := h.orders id order found
  exact h'.orders id order' found'

theorem keepsRecords_changeOrder (store : Store) (id : Int64) (change : Order → Order)
    (keeps : ∀ order, (change order).id = order.id) :
    store.KeepsRecords (store.changeOrder id change) := by
  refine ⟨fun _ _ found => found, fun other order found => ?_⟩
  obtain ⟨order', found', -⟩ := answer_order_changeOrder found id change keeps
  exact ⟨order', found'⟩

/-- What a launch may leave: everything as it was, or one job more. -/
inductive MayGain (before : Store) : Store → Prop
  | nothing : MayGain before before
  | job {job : Job} (above : ∀ other ∈ before.jobs, other.id < job.id) :
    MayGain before (before.addJob job)

theorem MayGain.orders {before after : Store} (h : before.MayGain after) :
    after.orders = before.orders := by
  cases h <;> rfl

theorem MayGain.snapshots {before after : Store} (h : before.MayGain after) :
    after.snapshots = before.snapshots := by
  cases h <;> rfl

theorem MayGain.answer_order {before after : Store} (h : before.MayGain after) (id : Int64) :
    after.answer (.order id) = before.answer (.order id) :=
  congrArg (List.find? _) h.orders

theorem MayGain.keepsRecords {before after : Store} (h : before.MayGain after) :
    before.KeepsRecords after := by
  cases h with
  | nothing => exact .refl before
  | @job job above =>
    exact ⟨fun id other found => answer_addJob_of_found found job, fun id order found => ⟨order, found⟩⟩

end Store

def Call.moves : Call → Bool
  | .update (.moveOrder ..) => true
  | _ => false

def Call.inserts : Call → Bool
  | .update (.insertJob _) => true
  | _ => false

theorem Call.moves_of_isQuiet {c : Call} (h : c.isQuiet = true) : c.moves = false := by
  cases c with
  | update u => cases h
  | lookup _ | errand _ => rfl

theorem Warrant.completes_of_moves {engine : Engine} {command : Command} {past : List Exchange}
    {store : Store} {c : Call} (h : Warrant engine command past store c) (moves : c.moves = true) :
    command.completes = true := by
  cases h with
  | quiet hQuiet =>
    rw [Call.moves_of_isQuiet hQuiet] at moves
    cases moves
  | move completing => exact completing.completes
  | _ => cases moves

theorem Creation.mayGain {engine : Engine} {project order stage : Int64} {kind : JobKind}
    {before after : Store} {result : Except EngineError Launch} {past : List Exchange} {found : Order}
    (h : Creation engine project order stage kind before result past after)
    (asked : before.answer (.order order) = some found) (started : found.status ≠ .init) :
    before.MayGain after := by
  have hGain : ∀ {job job' : Job}, IsNew before project order stage kind job → job'.id = job.id →
      before.MayGain ((before.addJob job').changeOrder order Order.started) := by
    intro job job' new hId
    rw [(before.addJob job').changeOrder_started_of_ne asked started]
    exact .job (hId ▸ new.above)
  cases h with
  | launched new accepted => exact hGain new rfl
  | refused => exact .nothing
  | notStarted new => exact .job new.above
  | notSubmitted new | notRecorded new => exact hGain new rfl

variable {engine : Engine} {past : List Exchange} {world : World}

/-- Creating a job for an order that has been started moves no order, and adds one job at most. -/
theorem JobRequest.meets_create {project order stage : Int64} {found : Order} (request : JobRequest)
    (asked : world.store.answer (.order order) = some found) (started : found.status ≠ .init) :
    (request.create engine project order stage).Meets (fun c _ _ => c.moves = false)
      (fun _ _ after => world.store.MayGain after.store) (fun _ _ after => world.store.MayGain after.store)
      past world := by
  have hWarranted : ∃ command : Command, command.completes = false ∧
      IsWarranted engine command (request.create engine project order stage) [] world := by
    cases request with
    | build request =>
      exact ⟨_, rfl, isWarranted_build (.build project order stage request) project stage request rfl
        fun _ _ => rfl⟩
    | deploy request =>
      exact ⟨_, rfl, isWarranted_deploy (.deploy project order stage request) project stage request rfl
        fun _ _ => rfl⟩
  obtain ⟨command, hCompletes, hWarranted⟩ := hWarranted
  have hBoth := ((request.creates engine project order stage world).and hWarranted).forget past
  refine (hBoth.relax ?_).mono ?_
  · rintro c _ _ ⟨_, -, hWarrant⟩
    refine Bool.eq_false_iff.mpr fun hMoves => ?_
    rw [hWarrant.completes_of_moves hMoves] at hCompletes
    cases hCompletes
  · rintro result _ _ ⟨_, hCreation, -⟩
    cases result <;> exact hCreation.mayGain asked started

namespace Engine

theorem meets_launchApps {order found : Order} (stage : Int64) (kind : JobKind) (creator : String)
    (asked : world.store.answer (.order order.id) = some found) (started : found.status ≠ .init) :
    (launchApps engine order stage kind creator).Meets (fun c _ _ => c.moves = false)
      (fun _ _ after => world.store.MayGain after.store) (fun _ _ after => world.store.MayGain after.store)
      past world := by
  refine reads_lookup.meets_bind (fun _ _ => Call.moves_of_isQuiet) (fun _ _ => .nothing)
    fun apps past _ => ?_
  cases kind with
  | build => exact JobRequest.meets_create (.build (buildRequestOf creator apps)) asked started
  | deploy => exact JobRequest.meets_create (.deploy (deployRequestOf creator apps)) asked started

theorem meets_launchNext {order found : Order} (stage : Int64) (step : Step) (creator : String)
    (asked : world.store.answer (.order order.id) = some found) (started : found.status ≠ .init) :
    (launchNext engine order stage step creator).Meets (fun c _ _ => c.moves = false)
      (fun _ _ after => world.store.MayGain after.store) (fun _ _ _ => False) past world := by
  unfold launchNext
  split
  · exact .nothing
  · refine meets_bind.mpr (meets_attempt.mpr ?_)
    exact (meets_launchApps stage _ creator asked started).weaken (fun _ _ _ => id) fun _ _ _ => id

/-- What completing the step of an order in a stage makes of the order: the stage ends at the step that is
declared last, and elsewhere the order moves on to the next step, for which a job may be launched. -/
inductive Advanced (before : Store) (snapshot : Snapshot) (stage : Stage) (order : Order) :
    Progress → Store → Prop
  | ended (last : stage.isLastIndex order.stepIndex = true) :
    Advanced before snapshot stage order
      ⟨.success, snapshot.statusAfter stage.id, order.stepIndex, none⟩
      (before.changeOrder order.id fun order => { order with status := snapshot.statusAfter stage.id })
  | moved {next : Step} {launched : Option Launch} {after : Store}
    (inside : stage.isLastIndex order.stepIndex = false)
    (leads : (stage.nextIndex? order.stepIndex).bind stage.step? = some next)
    (gain : (before.changeOrder order.id fun order => order.movedTo next).MayGain after) :
    Advanced before snapshot stage order ⟨.success, .running, next.index, launched⟩ after

section Advanced

variable {before after : Store} {snapshot : Snapshot} {stage : Stage} {order : Order} {progress : Progress}

theorem Advanced.keepsRecords (h : Advanced before snapshot stage order progress after) :
    before.KeepsRecords after := by
  cases h with
  | ended => exact before.keepsRecords_changeOrder order.id _ fun _ => rfl
  | @moved next _ _ _ _ gain =>
    have hKept := before.keepsRecords_changeOrder order.id (fun order => order.movedTo next) fun _ => rfl
    exact hKept.trans gain.keepsRecords

theorem Advanced.inside_of_moves (h : Advanced before snapshot stage order progress after)
    (moves : progress.stepIndex ≠ order.stepIndex) : stage.isLastIndex order.stepIndex = false := by
  cases h with
  | ended => exact absurd rfl moves
  | moved inside => exact inside

theorem Advanced.of_last (h : Advanced before snapshot stage order progress after)
    (found : before.answer (.order order.id) = some order)
    (last : stage.isLastIndex order.stepIndex = true) :
    progress = ⟨.success, snapshot.statusAfter stage.id, order.stepIndex, none⟩ ∧
      after.answer (.order order.id) = some { order with status := snapshot.statusAfter stage.id } := by
  cases h with
  | ended =>
    exact ⟨rfl, Store.answer_changeOrder_of_found found
      (fun order => { order with status := snapshot.statusAfter stage.id }) fun _ => rfl⟩
  | moved inside => cases inside.symm.trans last

theorem Advanced.of_inside (h : Advanced before snapshot stage order progress after)
    (found : before.answer (.order order.id) = some order)
    (inside : stage.isLastIndex order.stepIndex = false) :
    ∃ next, (stage.nextIndex? order.stepIndex).bind stage.step? = some next ∧
      progress.stepIndex = next.index ∧ after.answer (.order order.id) = some (order.movedTo next) ∧
      (before.changeOrder order.id fun order => order.movedTo next).MayGain after := by
  cases h with
  | ended last => cases inside.symm.trans last
  | @moved next _ _ _ leads gain =>
    refine ⟨next, leads, rfl, ?_, gain⟩
    rw [gain.answer_order]
    exact Store.answer_changeOrder_of_found found (fun order => order.movedTo next) fun _ => rfl

end Advanced

theorem meets_finishStage {order : Order} {snapshot : Snapshot} {stage : Int64}
    (found : world.store.answer (.order order.id) = some order) :
    (finishStage order snapshot stage).Meets (fun c _ _ => c.moves = false)
      (fun progress _ after =>
        progress = ⟨.success, snapshot.statusAfter stage, order.stepIndex, none⟩ ∧
        after.store = world.store.changeOrder order.id fun order =>
          { order with status := snapshot.statusAfter stage })
      (fun e _ after => (∃ cause, e = .storage cause) ∧ after = world) past world := by
  unfold finishStage Snapshot.statusAfter
  split
  · exact meets_update_bind rfl (by simp) rfl ⟨rfl, rfl⟩ fun _ => ⟨⟨_, rfl⟩, rfl⟩
  · split
    · exact meets_update_bind rfl (by simp) rfl ⟨rfl, rfl⟩ fun _ => ⟨⟨_, rfl⟩, rfl⟩
    · rename_i hRunning
      have hRunning : order.status = .running := by simpa using hRunning
      exact ⟨rfl, (Store.changeOrder_eq_self found (by rw [← hRunning])).symm⟩

def AdvancedIn (before : Store) (stageId : Int64) (order : Order) (progress : Progress) (after : Store) :
    Prop :=
  ∃ snapshot stage, before.answer (.snapshot order.snapshot) = some snapshot ∧
    snapshot.stage? stageId = some stage ∧ Advanced before snapshot stage order progress after

theorem AdvancedIn.keepsRecords {before after : Store} {stageId : Int64} {order : Order}
    {progress : Progress} (h : AdvancedIn before stageId order progress after) :
    before.KeepsRecords after := by
  obtain ⟨snapshot, stage, -, -, hAdvanced⟩ := h
  exact hAdvanced.keepsRecords

/-- Why a step is not completed: the store is at fault, or there is no snapshot or no such stage in it, or the
order does not stand at the step that is declared last, and no step comes next. -/
inductive Stalls (before : Store) (stageId : Int64) (order : Order) : EngineError → Prop
  | storage (e : StorageError) : Stalls before stageId order (.storage e)
  | absent (what : Absence) : Stalls before stageId order (.absent what)
  | stuck {snapshot : Snapshot} {stage : Stage}
    (follows : before.answer (.snapshot order.snapshot) = some snapshot)
    (acts : snapshot.stage? stageId = some stage) (inside : stage.isLastIndex order.stepIndex = false)
    (none : stage.nextIndex? order.stepIndex = none) :
    Stalls before stageId order (.invalid (.noStepAfter stage.name order.stepIndex))

/-- An order is moved in the world in which it was found to have completed its step, and if the step
cannot be completed, that world is left as it is. -/
theorem meets_advance {order : Order} (stageId : Int64) (creator : String)
    (found : world.store.answer (.order order.id) = some order) :
    (advance engine order stageId creator).Meets (fun c _ here => c.moves = true → here = world)
      (fun progress _ after => AdvancedIn world.store stageId order progress after.store)
      (fun e _ after => Stalls world.store stageId order e ∧ after = world) past world := by
  unfold advance findSnapshot
  refine meets_find_bind (fun _ => rfl) (fun e => ⟨.storage e, rfl⟩) (fun _ _ => ⟨.absent _, rfl⟩)
    fun answer snapshot hFound hAnswer => ?_
  have hSnapshot := eq_some_of_answer hAnswer hFound
  refine meets_bind.mpr (meets_require (fun stage hStage => ?_) fun _ => ⟨.absent _, rfl⟩)
  have hId : stage.id = stageId := (mem_of_find? hStage).2
  split
  · rename_i hLast
    refine Operation.Meets.weaken (Program.Meets.relax (meets_finishStage found)
      fun c _ here hMoves hMoved => ?_) ?_ ?_
    · rw [hMoves] at hMoved
      cases hMoved
    · rintro _ _ after ⟨rfl, hAfter⟩
      rw [AdvancedIn, hAfter, ← hId]
      exact ⟨snapshot, stage, hSnapshot, hId ▸ hStage, .ended hLast⟩
    · rintro _ _ _ ⟨⟨e, rfl⟩, hSame⟩
      exact ⟨.storage e, hSame⟩
  · rename_i hInside
    have hInside : stage.isLastIndex order.stepIndex = false := Bool.eq_false_iff.mpr hInside
    refine meets_bind.mpr (meets_require (fun next hNext => ?_) fun hNone =>
      ⟨.stuck hSnapshot hStage hInside (Stage.next_eq_none_iff.mp hNone), rfl⟩)
    obtain ⟨hAhead, -, -⟩ := Stage.next_of_follows hNext
    refine meets_update_bind (Store.update_moveOrder found hAhead) (by simp) (fun _ => rfl) ?_
      fun e => ⟨.storage e, rfl⟩
    have hMoved := Store.answer_changeOrder_of_found found (fun order => order.movedTo next) fun _ => rfl
    have hStarted : (order.movedTo next).status ≠ .init := by simp [Order.movedTo]
    refine meets_bind.mpr (Operation.Meets.weaken (Program.Meets.relax
      (meets_launchNext stage.id next creator hMoved hStarted) fun c _ here hMoves hMove => ?_)
      (fun _ _ after hGain => ?_) fun _ _ _ => False.elim)
    · rw [hMoves] at hMove
      cases hMove
    · exact ⟨snapshot, stage, hSnapshot, hStage, .moved hInside hNext hGain⟩

end Engine

/-- The record of the confirmation of the step at which an order stands. -/
def Order.confirmation (order : Order) (step : Step) (request : ConfirmRequest) (id : Int64) :
    Confirmation :=
  ⟨⟨order.id, order.snapshot, order.stage, order.stepIndex, step.name, request.creator, request.message⟩, id⟩

def Store.confirmed (store : Store) (confirmation : Confirmation) : Store :=
  { store with confirmations := store.confirmations ++ [confirmation] }

/-- Where an order leaves the step at which it stood when the command began: its job has been reported to
have succeeded and is settled, or the manual step has been confirmed and the confirmation is recorded. -/
inductive Departs (command : Command) (origin : Store) : Store → Prop
  | reported {project stage : Int64} {kind : JobKind} {report : Callback} {job : Job}
    (asked : command = .complete project command.order stage kind report)
    (succeeded : report.outcome = .success) (found : origin.answer (.job report.job) = some job)
    (place : job.isAt project command.order stage kind = true) (active : job.isActive = true) :
    Departs command origin (origin.settle report.job report.outcome.status)
  | confirmed {project : Int64} {request : ConfirmRequest} {order : Order} {step : Step} {id : Int64}
    (asked : command = .confirm project command.order request)
    (found : origin.answer (.order command.order) = some order)
    (stands : Engine.StandsAt origin order order.stage .manual step)
    (above : ∀ other ∈ origin.confirmations, other.id < id) :
    Departs command origin (origin.confirmed (order.confirmation step request id))

theorem Departs.orders {command : Command} {origin store : Store} (h : Departs command origin store) :
    store.orders = origin.orders := by
  cases h <;> rfl

theorem Departs.snapshots {command : Command} {origin store : Store} (h : Departs command origin store) :
    store.snapshots = origin.snapshots := by
  cases h <;> rfl

theorem Departs.orderApps {command : Command} {origin store : Store} (h : Departs command origin store) :
    store.orderApps = origin.orderApps := by
  cases h <;> rfl

/-- A command that completes a step moves the order where it departs from there, and launches no job
before. -/
structure Departing (command : Command) (origin : Store) (c : Call) (store : Store) : Prop where
  moves : c.moves = true → Departs command origin store
  inserts : c.inserts = true → ∃ departed, Departs command origin departed

theorem departing_of_isQuiet {command : Command} {origin store : Store} {c : Call}
    (h : c.isQuiet = true) : Departing command origin c store := by
  cases c with
  | update u => cases h
  | lookup _ | errand _ => exact ⟨(nomatch ·), (nomatch ·)⟩

namespace Engine

theorem departing_advance {command : Command} {origin : Store} {order : Order} {ends : Progress → Assertion}
    {fails : EngineError → Assertion} (stage : Int64) (creator : String)
    (departs : Departs command origin world.store)
    (found : world.store.answer (.order order.id) = some order)
    (values : ∀ progress past after, AdvancedIn world.store stage order progress after.store →
      ends progress past after)
    (errors : ∀ e past, fails e past world) :
    (advance engine order stage creator).Meets (fun c _ here => Departing command origin c here.store)
      ends fails past world := by
  have hAdvance : (advance engine order stage creator).Meets _ _ _ past world :=
    meets_advance stage creator found
  refine Operation.Meets.weaken (Program.Meets.relax hAdvance fun c _ here hMoves => ?_) values ?_
  · exact ⟨fun hMoved => hMoves hMoved ▸ departs, fun _ => ⟨_, departs⟩⟩
  · rintro e past _ ⟨-, rfl⟩
    exact errors e past

end Engine

/-- A report from the place is about this job and this order. -/
structure Store.Addresses (store : Store) (project orderId stage : Int64) (kind : JobKind) (id : Int64)
    (job : Job) (order : Order) : Prop where
  place : job.isAt project orderId stage kind = true
  job : store.answer (.job id) = some job
  order : store.answer (.order orderId) = some order

namespace Engine

/-- A report departs at most once; when it ends, its job has ended, and if it fails, it has done nothing
or it broke off after its job was settled. -/
theorem meets_complete (engine : Engine) (project order stage : Int64) (kind : JobKind)
    (report : Callback) (past : List Exchange) (world : World) :
    (complete engine project order stage kind report).Meets
      (fun c _ here => Departing (.complete project order stage kind report) world.store c here.store)
      (fun _ _ after => ∃ job found,
        after.store.Addresses project order stage kind report.job job found ∧ job.isActive = false)
      (fun _ _ after => after = world ∨ ∃ job found,
        world.store.Addresses project order stage kind report.job job found ∧ job.isActive = true ∧
          after = { world with store := world.store.settle report.job report.outcome.status })
      past world := by
  unfold complete
  refine reads_lookup.meets_bind (fun _ _ => departing_of_isQuiet) (fun _ _ => .inl rfl)
    fun answer past hAnswer => ?_
  refine reads_require.meets_bind (fun _ _ => departing_of_isQuiet) (fun _ _ => .inl rfl)
    fun job past hFiltered => ?_
  obtain ⟨hFound, hPlace⟩ := Option.filter_eq_some_iff.mp hFiltered
  have hJob := eq_some_of_answer hAnswer hFound
  refine (reads_findOrder order).meets_bind (fun _ _ => departing_of_isQuiet) (fun _ _ => .inl rfl)
    fun found past hOrder => ?_
  split
  · rename_i hInactive
    exact ⟨job, found, ⟨hPlace, hJob, hOrder⟩, by simpa using hInactive⟩
  rename_i hActive
  have hActive : job.isActive = true := by simpa using hActive
  have hId : job.id = report.job := (mem_of_find? hJob).2
  rw [hId]
  refine meets_update_bind rfl (by simp) ⟨(nomatch ·), (nomatch ·)⟩ ?_ fun _ => .inl rfl
  -- the job is settled, and whatever comes now keeps the records as they are here
  let settled : World := { world with store := world.store.settle report.job report.outcome.status }
  have hSettled := Store.answer_settle hJob report.outcome.status
  have hEnds : ∀ {after : World}, settled.store.KeepsRecords after.store → ∃ job found,
      after.store.Addresses project order stage kind report.job job found ∧ job.isActive = false := by
    intro after hKept
    obtain ⟨found', hOrder'⟩ := hKept.orders order found hOrder
    exact ⟨{ job with status := report.outcome.status }, found',
      ⟨hPlace, hKept.jobs _ _ hSettled, hOrder'⟩, report.outcome.isActive_status⟩
  have hBreaks : settled = world ∨ ∃ job found,
      world.store.Addresses project order stage kind report.job job found ∧ job.isActive = true ∧
        settled = { world with store := world.store.settle report.job report.outcome.status } :=
    .inr ⟨job, found, ⟨hPlace, hJob, hOrder⟩, hActive, rfl⟩
  split
  · exact hEnds (.refl settled.store)
  split
  · refine meets_update_bind rfl (by simp) ⟨(nomatch ·), (nomatch ·)⟩ ?_ fun _ => hBreaks
    exact hEnds (settled.store.keepsRecords_changeOrder order _ fun _ => rfl)
  · rename_i hOutcome
    have hDeparts : Departs (.complete project order stage kind report) world.store settled.store :=
      .reported rfl hOutcome hJob hPlace hActive
    have hOrderId : found.id = order := (Store.mem_of_answer_order hOrder).2
    refine departing_advance stage job.creator hDeparts ?_ (fun _ _ _ h => hEnds h.keepsRecords)
      fun _ _ => hBreaks
    rw [hOrderId]
    exact hOrder

end Engine

namespace Engine

/-- The order stood at a manual step, and this was recorded under a number above all others and completed. -/
def ConfirmedIn (before : Store) (orderId : Int64) (request : ConfirmRequest) (progress : Progress)
    (after : Store) : Prop :=
  ∃ order step id, before.answer (.order orderId) = some order ∧
    StandsAt before order order.stage .manual step ∧ (∀ c ∈ before.confirmations, c.id < id) ∧
    AdvancedIn (before.confirmed (order.confirmation step request id)) order.stage order progress after

theorem departing_confirm (project order : Int64) (request : ConfirmRequest) :
    (Engine.confirm engine project order request).Meets
      (fun c _ here => Departing (.confirm project order request) world.store c here.store)
      (fun progress _ after => ConfirmedIn world.store order request progress after.store)
      (fun _ _ _ => True) past world := by
  unfold Engine.confirm
  refine (reads_findOrderOf project order).meets_bind (fun _ _ => departing_of_isQuiet)
    (fun _ _ => trivial) fun found past ⟨hOrder, _⟩ => ?_
  refine (reads_ensureAllowed found .advance).meets_bind (fun _ _ => departing_of_isQuiet)
    (fun _ _ => trivial) fun _ past _ => ?_
  refine (reads_findSnapshot found).meets_bind (fun _ _ => departing_of_isQuiet) (fun _ _ => trivial)
    fun snapshot past hSnapshot => ?_
  refine (reads_stageOf snapshot found.stage).meets_bind (fun _ _ => departing_of_isQuiet)
    (fun _ _ => trivial) fun stage past hStage => ?_
  refine (reads_currentStep stage found).meets_bind (fun _ _ => departing_of_isQuiet)
    (fun _ _ => trivial) fun step past hStep => ?_
  refine reads_ensure.meets_bind (fun _ _ => departing_of_isQuiet) (fun _ _ => trivial)
    fun _ past hManual => ?_
  have hStands : StandsAt world.store found found.stage .manual step :=
    ⟨snapshot, stage, hSnapshot, hStage, hStep, of_decide_eq_true hManual⟩
  have hOrderId : found.id = order := (Store.mem_of_answer_order hOrder).2
  have hSnapshotId : snapshot.id = found.snapshot := (mem_of_find? hSnapshot).2
  refine meets_bind.mpr (meets_addConfirmation ⟨(nomatch ·), (nomatch ·)⟩ (fun id past hAbove => ?_)
    fun _ _ => trivial)
  rw [hSnapshotId, ← hOrderId]
  refine departing_advance found.stage request.creator (.confirmed rfl (hOrderId ▸ hOrder) hStands hAbove) ?_
    (fun progress _ after hAdvanced => ?_) fun _ _ => trivial
  · rw [← hOrderId] at hOrder
    exact hOrder
  · exact ⟨found, step, id, hOrderId ▸ hOrder, hStands, hAbove, hAdvanced⟩

theorem departing_operation (engine : Engine) (command : Command) (completes : command.completes = true)
    (past : List Exchange) (world : World) :
    (command.operation engine).Meets (fun c _ here => Departing command world.store c here.store)
      (fun _ _ _ => True) (fun _ _ _ => True) past world := by
  cases command with
  | complete project order stage kind report =>
    exact (meets_complete engine project order stage kind report past world).weaken (fun _ _ _ _ => trivial)
      fun _ _ _ _ => trivial
  | confirm project order request =>
    exact (departing_confirm project order request).weaken (fun _ _ _ _ => trivial) fun _ _ _ _ => trivial
  | _ => cases completes

end Engine

end DeliveryPipeline

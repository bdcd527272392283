import DeliveryPipeline.Proofs.Engine.Report
import DeliveryPipeline.Proofs.Session.Basic

/-! # Commands that name another project

A command is addressed to an order under a project. Most commands make sure that the order belongs to
that project before they do anything, or take no job from elsewhere; so they are refused. A termination
looks at the order alone, and asks the CI server of the project that it was addressed under.
-/

namespace DeliveryPipeline

set_option autoImplicit false

open Api (Command)
open Operation Engine

def Api.Command.project? : Command → Option Int64
  | build p .. | deploy p .. | terminate p .. | abort p _ | complete p .. | confirm p ..
  | branches p .. => some p
  | history _ | stepType .. | lastStep .. | images _ => none

def Call.isErrand : Call → Bool
  | .errand _ => true
  | .lookup _ | .update _ => false

/-- The run ends with an error, has changed nothing, and has not reached out to any system. -/
structure Run.IsRefusal {σ α : Type} (run : Run σ (Except EngineError α)) (before : World) : Prop where
  refused : ∃ e, run.value = .error e
  unchanged : run.world = before
  alone : ∀ e ∈ run.exchanges, e.call.isErrand = false

/-- There is a run to cancel: the stage has an environment in the project, with all that is needed to
connect to its CI server, and the latest job of the order has been started. -/
structure Store.HasCancelTarget (store : Store) (project order stage : Int64) : Prop where
  server : ∃ environment setting server,
    store.answer (.environment project stage) = some environment ∧
    store.answer (.setting environment.ciServer) = some setting ∧
    setting.config = .ciServer server ∧ server.missingFields = []
  started : ∃ job run, store.answer (.latestJob order) = some job ∧ job.run = some run

/-- The command ends the order, whichever project it is addressed under. -/
def Api.Command.EndsAnyway (command : Command) (store : Store) (order : Order) : Prop :=
  ∃ project stage request, command = .terminate project order.id stage request ∧
    (order.status = .running ∨
      order.status = .terminateFailed ∧ store.HasCancelTarget project order.id stage)

namespace Operation

variable {α β : Type} {past : List Exchange} {world : World}

def Refuses (x : Operation α) : Assertion := fun past world =>
  x.Meets (fun c _ _ => c.isErrand = false) (fun _ _ _ => False) (fun _ _ after => after = world)
    past world

theorem refuses_throw {e : EngineError} : (throw e : Operation α).Refuses past world := rfl

theorem refuses_lookup_bind {l : Lookup} {f : l.Answer → Operation β}
    (rest : ∀ answer past, answer = world.store.answer l ∨ answer = l.nothing →
      (f answer).Refuses past world) : (lookup l >>= f).Refuses past world :=
  meets_bind.mpr (meets_lookup rfl rest fun _ _ => rfl)

theorem refuses_require_bind {error : EngineError} {value : Option α} {f : α → Operation β}
    (rest : ∀ a, value = some a → (f a).Refuses past world) :
    (require error value >>= f).Refuses past world :=
  meets_bind.mpr (meets_require rest fun _ => rfl)

theorem refuses_ensure_bind {condition : Bool} {error : EngineError} {f : Unit → Operation β}
    (rest : condition = true → (f ()).Refuses past world) :
    (ensure condition error >>= f).Refuses past world := by
  cases condition with
  | false => exact refuses_throw
  | true => exact rest rfl

theorem refuses_ensureAllowed_bind {order : Order} {action : OrderAction} {f : Unit → Operation β}
    (rest : order.status.allows action = true → (f ()).Refuses past world) :
    (ensureAllowed order action >>= f).Refuses past world := by
  unfold OrderStatus.allows at rest
  unfold ensureAllowed
  cases hCheck : order.status.check action with
  | error cause => exact refuses_throw
  | ok _ => exact rest (by rw [hCheck]; rfl)

theorem Refuses.isRefusal_run {σ : Type} {x : Operation α} (h : x.Refuses [] world) (rule : Rule σ)
    (state : σ) : (x.run.run rule world state).IsRefusal world := by
  have hEnds := Program.Meets.ends_run h rule state
  have hCalls := Program.Meets.allowed_of_mem_exchanges h rule state
  cases hValue : (x.run.run rule world state).value with
  | ok a =>
    rw [hValue] at hEnds
    exact hEnds.elim
  | error e =>
    rw [hValue] at hEnds
    refine ⟨⟨e, hValue⟩, hEnds, fun exchange hMem => ?_⟩
    obtain ⟨_, _, hCall⟩ := hCalls exchange hMem
    exact hCall

end Operation

namespace Engine

variable {α : Type} {engine : Engine} {project orderId stage : Int64} {past : List Exchange} {world : World}

theorem refuses_findOrderOf_bind {f : Order → Operation α}
    (foreign : ∀ order, world.store.answer (.order orderId) = some order → order.project ≠ project) :
    (findOrderOf project orderId >>= f).Refuses past world := by
  unfold findOrderOf findOrder
  simp only [bind_assoc]
  refine refuses_lookup_bind fun _ past _ => refuses_require_bind fun _ _ => ?_
  refine refuses_ensure_bind fun _ => refuses_lookup_bind fun answer past hAnswer => ?_
  refine refuses_require_bind fun order hFound => refuses_ensure_bind fun hProject => ?_
  exact absurd (of_decide_eq_true hProject) (foreign order (eq_some_of_answer hAnswer hFound))

theorem refuses_complete {kind : JobKind} {report : Callback}
    (elsewhere : ∀ job ∈ world.store.jobs, job.order = orderId → job.project ≠ project) :
    (complete engine project orderId stage kind report).Refuses past world := by
  unfold complete
  refine refuses_lookup_bind fun answer past hAnswer => refuses_require_bind fun job hFiltered => ?_
  obtain ⟨hFound, hPlace⟩ := Option.filter_eq_some_iff.mp hFiltered
  obtain ⟨hMem, -⟩ := mem_of_find? (eq_some_of_answer hAnswer hFound)
  obtain ⟨hOrder, hProject, -⟩ := Job.isAt_iff.mp hPlace
  exact absurd hProject (elsewhere job hMem hOrder)

theorem keepsOrders_cancel (target : CancelTarget) (world : World) :
    (do
      errand .cancellation (.cancel target.server target.jobName target.run)
      update (.setJobStatus target.job .abort)).Yields
      (fun _ after => after.store.orders = world.store.orders) world := by
  have hMeets : (do
      errand .cancellation (.cancel target.server target.jobName target.run)
      update (.setJobStatus target.job .abort)).Meets (fun _ _ _ => True)
      (fun _ _ after => after.store.orders = world.store.orders)
      (fun _ _ after => after.store.orders = world.store.orders) [] world := by
    refine meets_bind.mpr (meets_errand (e := .cancel target.server target.jobName target.run) trivial
      (fun _ after hStore => ?_) fun _ => rfl)
    have hOrders : after.store.orders = world.store.orders := by rw [hStore]
    exact meets_update rfl (by simp) trivial hOrders fun _ => hOrders
  refine Program.Yields.mono (Program.Meets.yields hMeets) ?_
  rintro result after ⟨_, hEnds⟩
  cases result <;> exact hEnds

theorem meets_findCancelTarget (engine : Engine) (project orderId stage : Int64) (kind : JobKind)
    (past : List Exchange) (world : World) :
    (findCancelTarget engine project orderId stage kind).Meets (fun c _ _ => c.isErrand = false)
      (fun _ _ after => after = world ∧ world.store.HasCancelTarget project orderId stage)
      (fun _ _ after => after = world) past world := by
  unfold findCancelTarget findEnvironment findServer findSetting
  simp only [bind_assoc]
  refine meets_bind.mpr (meets_lookup rfl (fun _ past hEnvironment => ?_) fun _ _ => rfl)
  refine meets_bind.mpr (meets_require (fun environment hFound => ?_) fun _ => rfl)
  have hEnvironment := eq_some_of_answer hEnvironment hFound
  refine meets_bind.mpr (meets_lookup rfl (fun _ past hSetting => ?_) fun _ _ => rfl)
  refine meets_bind.mpr (meets_require (fun setting hFound => ?_) fun _ => rfl)
  have hSetting := eq_some_of_answer hSetting hFound
  cases hConfig : setting.config with
  | ciServer server =>
    by_cases hComplete : server.missingFields.isEmpty = true
    · simp only [ensure, if_pos hComplete, pure_bind]
      refine meets_bind.mpr (meets_lookup rfl (fun _ past hJob => ?_) fun _ _ => rfl)
      refine meets_bind.mpr (meets_require (fun job hFound => ?_) fun _ => rfl)
      refine meets_bind.mpr (meets_require (fun run hRun => ?_) fun _ => rfl)
      refine ⟨rfl, ⟨environment, setting, server, hEnvironment, hSetting, hConfig, ?_⟩, job, run, ?_, hRun⟩
      · exact List.isEmpty_iff.mp hComplete
      · exact eq_some_of_answer hJob hFound
    · simp only [ensure, if_neg hComplete]
      rfl
  | _ => rfl

theorem yields_findCancelTarget (engine : Engine) (project orderId stage : Int64) (kind : JobKind)
    (world : World) :
    (findCancelTarget engine project orderId stage kind).Yields
      (fun result after => after = world ∧
        (world.store.HasCancelTarget project orderId stage → ∃ target, result = .ok target)) world := by
  by_cases hTarget : world.store.HasCancelTarget project orderId stage
  · obtain ⟨⟨environment, setting, server, hEnvironment, hSetting, hConfig, hComplete⟩, job, run, hJob,
      hRun⟩ := hTarget
    unfold findCancelTarget findEnvironment findServer findSetting
    simp only [bind_assoc]
    refine yields_lookup_bind (yields_require_some hEnvironment ?_)
    refine yields_lookup_bind (yields_require_some hSetting ?_)
    simp only [hConfig, hComplete, List.isEmpty_nil, ensure]
    refine yields_lookup_bind (yields_require_some hJob (yields_require_some hRun (yields_pure ?_)))
    exact ⟨rfl, fun _ => ⟨_, rfl⟩⟩
  · refine Program.Yields.mono (Program.Meets.yields
      (meets_findCancelTarget engine project orderId stage kind [] world)) ?_
    rintro result after ⟨_, hEnds⟩
    refine ⟨?_, fun hFound => absurd hFound hTarget⟩
    cases result with
    | ok target => exact hEnds.1
    | error e => exact hEnds

theorem refuses_terminate {kind : JobKind} {order : Order}
    (found : world.store.answer (.order orderId) = some order)
    (stays : ¬ (order.status = .running ∨
      order.status = .terminateFailed ∧ world.store.HasCancelTarget project orderId stage)) :
    (terminate engine project orderId stage kind).Refuses past world := by
  unfold terminate findOrder
  simp only [bind_assoc]
  refine refuses_lookup_bind fun answer past hAnswer => refuses_require_bind fun found' hFound => ?_
  obtain rfl := Option.some.inj ((eq_some_of_answer hAnswer hFound).symm.trans found)
  refine refuses_ensureAllowed_bind fun hAllowed => ?_
  have hStatus : found'.status = .terminateFailed := by
    rcases OrderStatus.allows_terminate_iff.mp hAllowed with hRunning | hFailed
    · exact absurd (.inl hRunning) stays
    · exact hFailed
  refine meets_bind.mpr (meets_attempt.mpr (Operation.Meets.weaken
    (meets_findCancelTarget engine project orderId stage kind _ world) ?_ ?_))
  · rintro target _ _ ⟨-, hTarget⟩
    exact absurd (.inr ⟨hStatus, hTarget⟩) stays
  · intro e past after hAfter
    rw [hAfter]
    refine meets_update_bind rfl (by simp) rfl ?_ fun _ => rfl
    refine congrArg (fun orders => { world with store := { world.store with orders := orders } })
      (changeFirst_eq_self fun other hOther => ?_)
    -- the order has this status already
    rw [Option.some.inj (hOther.symm.trans found), ← hStatus]

theorem yields_terminate {kind : JobKind} {order : Order}
    (found : world.store.answer (.order orderId) = some order)
    (ends : order.status = .running ∨
      order.status = .terminateFailed ∧ world.store.HasCancelTarget project orderId stage) :
    (terminate engine project orderId stage kind).Yields
      (fun _ after => ∃ order', after.store.answer (.order orderId) = some order' ∧
        order'.status ≠ order.status) world := by
  have hAllowed : order.status.check .terminate = .ok () := by
    rcases ends with hStatus | ⟨hStatus, -⟩ <;> rw [hStatus] <;> rfl
  have hMarked : ∀ status, (world.store.changeOrder orderId fun order => { order with status := status }).answer
      (.order orderId) = some { order with status := status } :=
    fun status => Store.answer_changeOrder_of_found found _ fun _ => rfl
  unfold terminate findOrder
  simp only [bind_assoc]
  refine yields_lookup_bind (yields_require_some found ?_)
  rw [ensureAllowed, hAllowed]
  refine yields_attempt_bind (Program.Yields.mono
    (yields_findCancelTarget engine project orderId stage kind world) ?_)
  rintro result after ⟨hAfter, hTarget⟩
  rw [hAfter]
  cases result with
  | error e =>
    refine yields_update_bind rfl ⟨_, hMarked .terminateFailed, ?_⟩
    rcases ends with hStatus | ⟨-, hFound⟩
    · simp [hStatus]
    · obtain ⟨target, hResult⟩ := hTarget hFound
      cases hResult
  | ok target =>
    refine yields_update_bind rfl ?_
    have hKeeps := keepsOrders_cancel target
      { world with store := world.store.changeOrder orderId fun order =>
          { order with status := .terminateSuccess } }
    refine Program.Yields.mono hKeeps fun _ after hOrders => ?_
    refine ⟨_, (congrArg (List.find? _) hOrders).trans (hMarked .terminateSuccess), ?_⟩
    rcases ends with hStatus | ⟨hStatus, -⟩ <;> simp [hStatus]

theorem refuses_operation {command : Command} {order : Order} (engine : Engine)
    (addressed : command.project? = some project)
    (found : world.store.answer (.order command.order) = some order) (foreign : order.project ≠ project)
    (owned : ∀ job ∈ world.store.jobs, job.order = command.order → job.project = order.project)
    (stays : ¬ command.EndsAnyway world.store order) :
    (command.operation engine).Refuses past world := by
  have hForeign : ∀ found, world.store.answer (.order command.order) = some found →
      found.project ≠ project := fun other hOther => by
    rwa [Option.some.inj (hOther.symm.trans found)]
  have hId : order.id = command.order := (Store.mem_of_answer_order found).2
  cases command with
  | build p o s request =>
    cases addressed
    exact refuses_ensure_bind fun _ => refuses_findOrderOf_bind hForeign
  | deploy p o s request =>
    cases addressed
    exact refuses_ensure_bind fun _ => refuses_findOrderOf_bind hForeign
  | terminate p o s request =>
    cases addressed
    refine refuses_terminate found fun hEnds => stays ⟨project, s, request, by rw [hId]; rfl, ?_⟩
    rwa [hId]
  | abort p o =>
    cases addressed
    exact refuses_findOrderOf_bind hForeign
  | complete p o s kind report =>
    cases addressed
    refine refuses_complete fun job hMem hOrder => ?_
    rw [owned job hMem hOrder]
    exact foreign
  | confirm p o request =>
    cases addressed
    exact refuses_findOrderOf_bind hForeign
  | branches p o s =>
    cases addressed
    exact refuses_findOrderOf_bind hForeign
  | history | stepType | lastStep | images => cases addressed

/-- A command that names a project to which the order does not belong is refused and leaves no trace,
whatever disturbs its calls, unless it is a termination that finds the order to be running, or finds one
that could not be terminated before and now has a run to cancel. If the store works, these are not
refused. -/
theorem isRefusal_of_foreign {σ : Type} (engine : Engine) (rule : Rule σ) (state : σ) {command : Command}
    {order : Order} (addressed : command.project? = some project)
    (found : world.store.answer (.order command.order) = some order) (foreign : order.project ≠ project)
    (owned : ∀ job ∈ world.store.jobs, job.order = command.order → job.project = order.project) :
    let run := (command.operation engine).run.run rule world state
    (¬ command.EndsAnyway world.store order → run.IsRefusal world) ∧
      (command.EndsAnyway world.store order → rule.SparesStore → ¬ run.IsRefusal world) := by
  refine ⟨fun hStays => ?_, ?_⟩
  · exact (refuses_operation engine addressed found foreign owned hStays).isRefusal_run rule state
  · rintro ⟨p, s, request, rfl, hEnds⟩ hSpares hRefusal
    have hYields : (terminate engine p order.id s request.kind).Yields _ world :=
      yields_terminate found hEnds
    obtain ⟨order', hOrder', hStatus⟩ := hYields.ends_run hSpares state
    have hUnchanged : ((terminate engine p order.id s request.kind).run.run rule world state).world = world :=
      hRefusal.unchanged
    rw [hUnchanged] at hOrder'
    exact hStatus (by rw [Option.some.inj (hOrder'.symm.trans found)])

/-- Another project beside the one of the order, with an environment and a CI server of its own. -/
def neighbours : World where
  store :=
    { Session.sampleStore with
      projects := [⟨1, "shop", .active⟩, ⟨2, "bank", .active⟩]
      environments := [⟨3, 1, "production", "shop", 21, 22, 23⟩, ⟨6, 2, "production", "bank", 24, 22, 23⟩]
      settings := [⟨21, "ci-main", .ciServer ⟨"http://ci.local", "ci", "ci-token", "/ws"⟩⟩,
        ⟨24, "ci-bank", .ciServer ⟨"http://ci.bank", "ci", "bank-token", "/ws"⟩⟩] }
  histories := []
  nextRun := 100

theorem isRefusal_in_neighbours :
    let engine : Engine := .ofServer "http://conveyor.local"
    let order : Order := ⟨5, 1, "v1.2.0", "spring release", 3, 1, "build", "build", .running, "alice", 1⟩
    let abort := ((Command.abort 2 5).operation engine).run
    let terminate := ((Command.terminate 2 5 6 ⟨.build⟩).operation engine).run
    neighbours.store.answer (.order 5) = some order ∧ order.project ≠ 2 ∧
      (∀ job ∈ neighbours.store.jobs, job.order = 5 → job.project = order.project) ∧
      (abort.run Rule.undisturbed neighbours ()).IsRefusal neighbours ∧
      ¬ (terminate.run Rule.undisturbed neighbours ()).IsRefusal neighbours := by
  intro engine order abort terminate
  have hFound : neighbours.store.answer (.order 5) = some order := rfl
  have hForeign : order.project ≠ 2 := by decide
  have hOwned : ∀ job ∈ neighbours.store.jobs, job.order = 5 → job.project = order.project := by decide
  have hAborts : (Command.abort 2 5).project? = some 2 := rfl
  have hTerminates : (Command.terminate 2 5 6 ⟨.build⟩).project? = some 2 := rfl
  refine ⟨hFound, hForeign, hOwned, ?_, ?_⟩
  · refine (isRefusal_of_foreign engine Rule.undisturbed () hAborts hFound hForeign hOwned).1 ?_
    rintro ⟨_, _, _, hCommand, -⟩
    cases hCommand
  · exact (isRefusal_of_foreign engine Rule.undisturbed () hTerminates hFound hForeign hOwned).2
      ⟨2, 6, ⟨.build⟩, rfl, .inl rfl⟩ Rule.sparesStore_undisturbed

/-- Under the address of another project the order is terminated, its job is aborted, and that project's
CI server is asked to cancel the run. -/
theorem terminated_under_other_project :
    let order : Order := ⟨5, 1, "v1.2.0", "spring release", 3, 1, "build", "build", .running, "alice", 1⟩
    let terminate := ((Command.terminate 2 5 6 ⟨.build⟩).operation (.ofServer "http://conveyor.local")).run
    let run := terminate.run Rule.undisturbed neighbours ()
    neighbours.store.answer (.order 5) = some order ∧ order.project ≠ 2 ∧
      (∀ job ∈ neighbours.store.jobs, job.order = 5 → job.project = order.project) ∧
      run.value = .ok () ∧ (run.exchanges.any fun e => e.call.isErrand) = true ∧
      run.world.store.answer (.order 5) = some { order with status := .terminateSuccess } ∧
      (run.world.store.answer (.job 9)).map Job.status = some .abort := by
  refine ⟨rfl, by decide, by decide, ?_⟩
  decide +kernel

end Engine

end DeliveryPipeline

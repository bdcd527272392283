import DeliveryPipeline.Proofs.Program.Prepares

/-! # The calls of a launch

A launch stores its job, sets the order running unless it is so already, submits the plan and records the
run. What holds of these calls where they are made, and of each way in which the launch may end, holds of
every run of it.
-/

namespace DeliveryPipeline

set_option autoImplicit false

open Operation

def Order.started (order : Order) : Order :=
  if order.status = .init then { order with status := .running } else order

@[simp] theorem Order.id_started (order : Order) : order.started.id = order.id := by
  unfold Order.started
  split <;> rfl

@[simp] theorem Order.snapshot_started (order : Order) : order.started.snapshot = order.snapshot := by
  unfold Order.started
  split <;> rfl

def Job.started (job : Job) (run : Int64) : Job := { job with run := some run, status := .running }

namespace Store

variable {store : Store} {id : Int64} {found : Order}

theorem addJob_startJob {job : Job} (above : ∀ other ∈ store.jobs, other.id < job.id) (order run : Int64) :
    ((store.addJob job).changeOrder order Order.started).update (.startJob job.id run) =
      (.ok (), (store.addJob (job.started run)).changeOrder order Order.started) := by
  have hJobs : changeFirst Job.id job.id (fun job => job.started run) (store.jobs ++ [job]) =
      store.jobs ++ [job.started run] :=
    changeFirst_append_of_ne (fun other hOther => Int64.ne_of_lt (above other hOther)) rfl
  exact Prod.ext rfl
    (congrArg (fun jobs => { store.changeOrder order Order.started with jobs := jobs }) hJobs)

theorem changeOrder_started (store : Store) (h : store.answer (.order id) = some found)
    (status : found.status = .init) :
    store.changeOrder id Order.started = (store.update (.setOrderStatus id .running)).2 := by
  refine congrArg (fun orders => { store with orders := orders }) (changeFirst_congr fun other hOther => ?_)
  obtain rfl := Option.some.inj (hOther.symm.trans h)
  exact if_pos status

theorem changeOrder_started_of_ne (store : Store) (h : store.answer (.order id) = some found)
    (status : found.status ≠ .init) : store.changeOrder id Order.started = store := by
  refine congrArg (fun orders => { store with orders := orders })
    (changeFirst_eq_self fun other hOther => ?_)
  obtain rfl := Option.some.inj (hOther.symm.trans h)
  exact if_neg status

end Store

def Unsubmitted : Knowledge := fun past => ∀ e ∈ past, e.call.submits = false

theorem Unsubmitted.snoc {past : List Exchange} {e : Exchange} (h : Unsubmitted past)
    (he : e.call.submits = false) : Unsubmitted (past ++ [e]) :=
  List.forall_mem_append.mpr ⟨h, List.forall_mem_singleton.mpr he⟩

namespace Engine

variable {allowed : Call → Assertion} {ends : Launch → Assertion} {fails : EngineError → Assertion}
  {past : List Exchange} {world : World} {engine : Engine} {server : CiServer} {draft : JobDraft}

/-- What is asked of the last two calls of a launch, in the world that the first two have left. -/
structure SubmitsIn (allowed : Call → Assertion) (ends : Launch → Assertion)
    (fails : EngineError → Assertion) (server : CiServer) (name : String) (plan : Plan) (before : Store)
    (job : Job) (past : List Exchange) (world : World) : Prop where
  submit : allowed (.errand (.submit server name plan)) past world
  notSubmitted : ∀ cause, fails (.outside (.submission job.kind) cause)
    (past ++ [⟨.errand (.submit server name plan), .error cause⟩]) world
  record : ∀ run after, after.store = world.store → allowed (.update (.startJob job.id run))
    (past ++ [⟨.errand (.submit server name plan), .ok run⟩]) after
  notRecorded : ∀ run after cause, after.store = world.store → fails (.storage cause)
    (past ++ [⟨.errand (.submit server name plan), .ok run⟩] ++
      [⟨.update (.startJob job.id run), .error cause⟩]) after
  launched : ∀ run after,
    after.store = (before.addJob (job.started run)).changeOrder job.order Order.started →
    ends ⟨run, name⟩ (past ++ [⟨.errand (.submit server name plan), .ok run⟩] ++
      [⟨.update (.startJob job.id run), .ok ()⟩]) after

theorem SubmitsIn.meets {before : Store} {job : Job} {name : String} {plan : Plan}
    (h : SubmitsIn allowed ends fails server name plan before job past world)
    (above : ∀ other ∈ before.jobs, other.id < job.id)
    (stored : world.store = (before.addJob job).changeOrder job.order Order.started) :
    (do
      let run ← errand (.submission job.kind) (.submit server name plan)
      update (.startJob job.id run)
      pure ⟨run, name⟩ : Operation Launch).Meets allowed ends fails past world := by
  apply meets_bind.mpr
  apply meets_errand h.submit
  · intro run after hAfter
    have hStarted := Store.addJob_startJob above job.order run
    rw [← stored, ← hAfter] at hStarted
    exact meets_update_bind hStarted (by simp) (h.record run after hAfter) (h.launched run _ rfl)
      fun cause => h.notRecorded run after cause hAfter
  · exact h.notSubmitted

theorem meets_launch {found : Order} {planFor : Int64 → Plan}
    (asked : world.store.answer (.order draft.order) = some found)
    (insert : allowed (.update (.insertJob draft)) past world)
    (refused : ∀ e reply, fails e (past ++ [⟨.update (.insertJob draft), reply⟩]) world)
    (start : ∀ id here, (∀ job ∈ world.store.jobs, job.id < id) → found.status = .init →
      here.store = world.store.addJob (Job.ofDraft id draft) →
      allowed (.update (.setOrderStatus draft.order .running))
          (past ++ [⟨.update (.insertJob draft), .ok (.created id)⟩]) here ∧
        ∀ cause, fails (.storage cause) (past ++ [⟨.update (.insertJob draft), .ok (.created id)⟩] ++
          [⟨.update (.setOrderStatus draft.order .running), .error cause⟩]) here)
    (submit : ∀ id between here, (∀ job ∈ world.store.jobs, job.id < id) → Unsubmitted between →
      here.store = (world.store.addJob (Job.ofDraft id draft)).changeOrder draft.order Order.started →
      SubmitsIn allowed ends fails server
        (engine.jobName draft.kind draft.project draft.order draft.stage) (planFor id) world.store
        (Job.ofDraft id draft) (past ++ ⟨.update (.insertJob draft), .ok (.created id)⟩ :: between) here) :
    (launch engine found server draft planFor).Meets allowed ends fails past world := by
  apply meets_bind.mpr
  apply meets_insertJob insert _ refused
  intro id hAbove _
  have hId : found.id = draft.order := (Store.mem_of_answer_order asked).2
  by_cases hStatus : found.status = .init
  · rw [startOrder, if_pos hStatus, hId]
    have hRunning : (world.store.addJob (Job.ofDraft id draft)).update
        (.setOrderStatus draft.order .running) =
          (.ok (), (world.store.addJob (Job.ofDraft id draft)).changeOrder draft.order Order.started) :=
      Prod.ext rfl ((world.store.addJob (Job.ofDraft id draft)).changeOrder_started asked hStatus).symm
    obtain ⟨hStart, hNotStarted⟩ := start id
      { world with store := world.store.addJob (Job.ofDraft id draft) } hAbove hStatus rfl
    apply meets_update_bind hRunning (by simp) hStart _ hNotStarted
    rw [List.append_assoc]
    have hBetween : Unsubmitted [⟨.update (.setOrderStatus draft.order .running), .ok ()⟩] :=
      List.forall_mem_singleton.mpr rfl
    exact (submit id _ _ hAbove hBetween rfl).meets hAbove rfl
  · rw [startOrder, if_neg hStatus]
    have hStored := (world.store.addJob (Job.ofDraft id draft)).changeOrder_started_of_ne asked hStatus
    exact (submit id [] _ hAbove (fun _ h => nomatch h) hStored.symm).meets hAbove hStored.symm

end Engine

end DeliveryPipeline

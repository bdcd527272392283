import DeliveryPipeline.Proofs.Engine.Preparation
import DeliveryPipeline.Proofs.Program.Yields
import DeliveryPipeline.Proofs.Session.Finished

/-! # Commands stay with their orders

Records are found by different keys: an order by its number, a job by its own number or as the latest one
of an order, and the scope of a deploy is shared by many orders. Still every call that changes a record
changes one of the order that the command is about, so nothing that is stored about other orders changes.
-/

namespace DeliveryPipeline

set_option autoImplicit false

open Api (Command)
open Operation

/-- What is stored about other orders is the same as before. -/
structure Store.SparesOthers (order : Int64) (before after : Store) : Prop where
  orders : (after.orders.filter fun o => o.id ≠ order) = before.orders.filter fun o => o.id ≠ order
  jobs : (after.jobs.filter fun job => job.order ≠ order) = before.jobs.filter fun job => job.order ≠ order
  confirmations : (after.confirmations.filter fun c => c.order ≠ order) =
    before.confirmations.filter fun c => c.order ≠ order

/-- The confirmations are the same as before, or one of the order has been added by confirming it. -/
inductive Store.Records (command : Command) (before after : Store) : Prop
  | nothing (same : after.confirmations = before.confirmations)
  | confirmation {project : Int64} {request : ConfirmRequest} {confirmation : Confirmation}
    (asked : command = .confirm project command.order request)
    (about : confirmation.order = command.order)
    (added : after.confirmations = before.confirmations ++ [confirmation])

/-- The update changes no record but one of the order. -/
def Update.Concerns (store : Store) (order : Int64) : Update → Prop
  | setOrderStatus id _ | moveOrder id .. => id = order
  | insertJob draft => draft.order = order
  | startJob id _ | setJobStatus id _ => ∀ job, store.answer (.job id) = some job → job.order = order
  | addConfirmation draft => draft.order = order

namespace Store

variable {order : Int64} {first second third : Store}

theorem SparesOthers.refl (order : Int64) (store : Store) : store.SparesOthers order store := ⟨rfl, rfl, rfl⟩

theorem SparesOthers.trans (h : first.SparesOthers order second) (h' : second.SparesOthers order third) :
    first.SparesOthers order third :=
  ⟨h'.orders.trans h.orders, h'.jobs.trans h.jobs, h'.confirmations.trans h.confirmations⟩

theorem sparesOthers_changeOrder (store : Store) (order : Int64) (change : Order → Order)
    (keeps : ∀ order, (change order).id = order.id) :
    store.SparesOthers order (store.changeOrder order change) := by
  refine ⟨filter_changeFirst fun found hFound => ?_, rfl, rfl⟩
  obtain ⟨-, hId⟩ := mem_of_find? hFound
  simp [keeps, hId]

theorem sparesOthers_changeJob {store : Store} {id : Int64} {change : Job → Job}
    (keeps : ∀ job, (change job).order = job.order)
    (about : ∀ job, store.answer (.job id) = some job → job.order = order) :
    store.SparesOthers order (store.changeJob id change) := by
  refine ⟨rfl, filter_changeFirst fun job hJob => ?_, rfl⟩
  simp [keeps, about job hJob]

theorem sparesOthers_insertJob {store : Store} {draft : JobDraft} (about : draft.order = order) :
    store.SparesOthers order (store.insertJob draft).2 := by
  rcases store.insertJob_cases draft with ⟨id, hInsert, -⟩ | ⟨e, hInsert⟩ | ⟨ids, hInsert⟩
  · rw [hInsert]
    refine ⟨rfl, ?_, rfl⟩
    simp [addJob, Job.ofDraft, about]
  · rw [hInsert]
    exact .refl order store
  · rw [hInsert]
    exact .refl order store

theorem sparesOthers_addConfirmation {store : Store} {draft : ConfirmationDraft}
    (about : draft.order = order) : store.SparesOthers order (store.addConfirmation draft).2 := by
  unfold addConfirmation
  split
  · refine ⟨rfl, rfl, ?_⟩
    simp [about]
  · exact .refl order store

theorem sparesOthers_update {store : Store} {u : Update} (concerns : u.Concerns store order) :
    store.SparesOthers order (store.update u).2 := by
  cases u with
  | setOrderStatus id status =>
    obtain rfl : id = order := concerns
    exact store.sparesOthers_changeOrder id _ fun _ => rfl
  | moveOrder id index step kind status =>
    obtain rfl : id = order := concerns
    exact store.sparesOthers_changeOrder id _ fun _ => by split <;> rfl
  | insertJob draft => exact sparesOthers_insertJob concerns
  | startJob id run => exact sparesOthers_changeJob (fun _ => rfl) concerns
  | setJobStatus id status => exact sparesOthers_changeJob (fun _ => rfl) concerns
  | addConfirmation draft => exact sparesOthers_addConfirmation concerns

end Store

variable {engine : Engine} {command : Command} {past : List Exchange}

theorem Warrant.concerns {store : Store} {u : Update}
    (h : Warrant engine command past store (.update u)) (distinct : store.DistinctJobs) :
    u.Concerns store command.order := by
  have hLatest : ∀ {job : Job}, store.answer (.latestJob command.order) = some job →
      ∀ found, store.answer (.job job.id) = some found → found.order = command.order := by
    intro job hLatest found hFound
    obtain ⟨hMem, hOrder⟩ := Store.mem_of_answer_latestJob hLatest
    rwa [← Option.some.inj ((distinct.answer_job hMem).symm.trans hFound)]
  cases h with
  | quiet hQuiet => cases hQuiet
  | insert launches found about => exact about
  | start | terminate | abort | fail | finish | rest | move => rfl
  | startJob fresh about =>
    intro found hFound
    obtain ⟨hMem, hId⟩ := mem_of_find? hFound
    rw [fresh.only found hMem hId]
    exact about
  | abandon asked latest => exact hLatest latest
  | abortJob asked latest => exact hLatest latest
  | settle asked found place =>
    intro job hJob
    obtain ⟨-, hId⟩ := mem_of_find? found
    rw [hId] at hJob
    rw [← Option.some.inj (found.symm.trans hJob)]
    exact (Job.isAt_iff.mp place).1
  | confirm asked found allowed about => exact about

theorem Deed.IsSound.sparesOthers {deed : Deed} (h : deed.IsSound engine)
    (distinct : deed.before.store.DistinctJobs) :
    deed.before.store.SparesOthers deed.command.order deed.after.store := by
  rcases h.store_after with hSame | ⟨u, hCall, hStore⟩
  · rw [hSame]
    exact .refl _ _
  · have hWarrant := h.warrant
    rw [hCall] at hWarrant
    rw [hStore]
    exact Store.sparesOthers_update (hWarrant.concerns distinct)

theorem Warrant.of_addConfirmation {store : Store} {draft : ConfirmationDraft}
    (h : Warrant engine command past store (.update (.addConfirmation draft))) :
    (∃ project request, command = .confirm project command.order request) ∧
      draft.order = command.order := by
  cases h with
  | quiet hQuiet => cases hQuiet
  | confirm asked found allowed about => exact ⟨⟨_, _, asked⟩, about⟩

/-- If the call records a confirmation, none has been recorded since the given store. -/
def Call.RecordsFirst (store : Store) (c : Call) : Assertion := fun _ here =>
  ∀ draft, c = .update (.addConfirmation draft) → here.store.confirmations = store.confirmations

theorem Operation.IsWarranted.recordsFirst {α : Type} {x : Operation α} {world : World} {store : Store}
    (h : x.IsWarranted engine command past world)
    (other : ∀ project request, command ≠ .confirm project command.order request) :
    x.Meets (Call.RecordsFirst store) (fun _ _ _ => True) (fun _ _ _ => True) past world := by
  refine Program.Meets.relax h fun c past here hWarrant draft hCall => ?_
  subst hCall
  obtain ⟨⟨project, request, hCommand⟩, -⟩ := hWarrant.of_addConfirmation
  exact absurd hCommand (other project request)

theorem Engine.recordsFirst_confirm (engine : Engine) (project order : Int64) (request : ConfirmRequest)
    (past : List Exchange) (world : World) :
    (Engine.confirm engine project order request).Meets (Call.RecordsFirst world.store)
      (fun _ _ _ => True) (fun _ _ _ => True) past world := by
  have hQuiet : ∀ c past, Call.isQuiet c = true → c.RecordsFirst world.store past world :=
    fun _ _ _ _ _ => rfl
  unfold Engine.confirm
  refine (reads_findOrderOf project order).meets_bind hQuiet (fun _ _ => trivial)
    fun found past ⟨hOrder, _⟩ => ?_
  refine (reads_ensureAllowed found .advance).meets_bind hQuiet (fun _ _ => trivial)
    fun _ past hAllowed => ?_
  refine (reads_findSnapshot found).meets_bind hQuiet (fun _ _ => trivial) fun snapshot past _ => ?_
  refine (reads_stageOf snapshot found.stage).meets_bind hQuiet (fun _ _ => trivial) fun stage past _ => ?_
  refine (reads_currentStep stage found).meets_bind hQuiet (fun _ _ => trivial) fun step past _ => ?_
  refine reads_ensure.meets_bind hQuiet (fun _ _ => trivial) fun _ past _ => ?_
  refine meets_bind.mpr (meets_addConfirmation (fun _ _ => rfl) ?_ fun _ _ => trivial)
  intro _ past _
  have hAdvance : ∀ confirmations,
      IsWarranted engine (.complete project order found.stage .build ⟨0, .success⟩)
        (advance engine found found.stage request.creator) past
        { world with store := { world.store with confirmations := confirmations } } := fun _ =>
    isWarranted_advance (.complete project order found.stage .build ⟨0, .success⟩) rfl hOrder hAllowed
  exact (hAdvance _).recordsFirst fun _ _ h => nomatch h

theorem recordsFirst_operation (engine : Engine) (command : Command) (past : List Exchange)
    (world : World) : (command.operation engine).Meets (Call.RecordsFirst world.store)
      (fun _ _ _ => True) (fun _ _ _ => True) past world := by
  have hWarranted := isWarranted_operation engine command past world
  cases command with
  | confirm project order request => exact engine.recordsFirst_confirm project order request past world
  | _ => exact hWarranted.recordsFirst fun _ _ h => nomatch h

theorem Store.confirmations_update {store : Store} {u : Update}
    (other : ∀ draft, u ≠ .addConfirmation draft) :
    (store.update u).2.confirmations = store.confirmations := by
  cases u with
  | setOrderStatus | moveOrder | startJob | setJobStatus => rfl
  | insertJob draft =>
    rcases store.insertJob_cases draft with ⟨id, hInsert, _⟩ | ⟨e, hInsert⟩ | ⟨ids, hInsert⟩
    all_goals exact congrArg (fun r => r.2.confirmations) hInsert
  | addConfirmation draft => exact absurd rfl (other draft)

theorem Deed.IsSound.records {deed : Deed} (h : deed.IsSound engine) {store : Store}
    (first : deed.call.RecordsFirst store deed.past deed.before)
    (before : store.Records deed.command deed.before.store) :
    store.Records deed.command deed.after.store := by
  have hKept : deed.after.store.confirmations = deed.before.store.confirmations →
      store.Records deed.command deed.after.store := by
    intro hSame
    cases before with
    | nothing same => exact .nothing (hSame.trans same)
    | confirmation asked about added => exact .confirmation asked about (hSame.trans added)
  rcases h.store_after with hSame | ⟨u, hCall, hStore⟩
  · exact hKept (congrArg Store.confirmations hSame)
  by_cases hRecords : ∃ draft, u = .addConfirmation draft
  · obtain ⟨draft, rfl⟩ := hRecords
    have hWarrant := h.warrant
    rw [hCall] at hWarrant
    obtain ⟨⟨project, request, hAsked⟩, hAbout⟩ := hWarrant.of_addConfirmation
    have hFirst := first draft hCall
    unfold Store.update Store.addConfirmation at hStore
    dsimp only at hStore
    split at hStore
    · rw [hStore]
      exact .confirmation hAsked hAbout (congrArg (· ++ _) hFirst)
    · exact hKept (congrArg Store.confirmations hStore)
  · refine hKept ?_
    rw [hStore]
    exact Store.confirmations_update fun draft hDraft => hRecords ⟨draft, hDraft⟩

namespace Engine

theorem onlyLooks_findOrder (id : Int64) : (findOrder id).OnlyMakes Call.looks := onlyMakes_find rfl

theorem onlyLooks_findSnapshot (order : Order) : (findSnapshot order).OnlyMakes Call.looks :=
  onlyMakes_find rfl

theorem onlyLooks_stepRecord (snapshot stage : Int64) (index : Int32) :
    (stepRecord snapshot stage index).OnlyMakes Call.looks :=
  (onlyMakes_lookup rfl).bind fun _ => onlyMakes_pure _

theorem onlyLooks_history (order : Int64) : (history order).OnlyMakes Call.looks := by
  refine (onlyLooks_findOrder order).bind fun found => ?_
  refine (onlyLooks_stepRecord found.snapshot found.stage found.stepIndex).bind fun current => ?_
  split
  · exact (onlyLooks_stepRecord _ _ _).bind fun _ => onlyMakes_pure _
  · exact onlyMakes_pure _

theorem onlyLooks_stepType (order : Int64) (index : Int32) :
    (stepType order index).OnlyMakes Call.looks := by
  refine (onlyLooks_findOrder order).bind fun found => (onlyLooks_findSnapshot found).bind fun snapshot => ?_
  refine OnlyMakes.bind (onlyMakes_require _ _) fun stage => ?_
  exact (onlyMakes_require _ _).bind fun _ => onlyMakes_pure _

theorem onlyLooks_lastStep (order stage : Int64) : (lastStep order stage).OnlyMakes Call.looks := by
  refine (onlyLooks_findOrder order).bind fun found => (onlyLooks_findSnapshot found).bind fun snapshot => ?_
  exact OnlyMakes.bind (onlyMakes_require _ _) fun _ => onlyMakes_pure _

theorem onlyLooks_branchChoice (app : OrderApp) : (branchChoice app).OnlyMakes Call.looks := by
  refine (onlyMakes_lookup (l := .app app.app) rfl).bind fun found => ?_
  rcases found with _ | found
  · exact onlyMakes_pure none
  · exact (onlyMakes_lookup rfl).bind fun _ => onlyMakes_pure _

theorem onlyLooks_branches (project order stage : Int64) :
    (branches project order stage).OnlyMakes Call.looks := by
  refine (onlyMakes_findOrderOf rfl rfl).bind fun found => ?_
  refine (onlyLooks_findSnapshot found).bind fun snapshot => ?_
  refine OnlyMakes.bind (onlyMakes_require _ _) fun _ => (onlyMakes_lookup rfl).bind fun apps => ?_
  exact (onlyMakes_mapM onlyLooks_branchChoice apps).bind fun _ => onlyMakes_pure _

theorem onlyLooks_imagePreview (environment : Int64) (app : OrderApp) :
    (imagePreview environment app).OnlyMakes Call.looks := by
  refine (onlyMakes_lookup (l := .app app.app) rfl).bind fun found => ?_
  rcases found with _ | found
  · exact onlyMakes_pure none
  refine (onlyMakes_lookup (l := .repository found.repository) rfl).bind fun repository => ?_
  rcases repository with _ | repository
  · exact onlyMakes_pure _
  · exact (onlyConsults_appImage environment found repository app.branch).onlyLooks.bind
      fun _ => onlyMakes_pure _

theorem onlyLooks_images (order : Int64) : (images order).OnlyMakes Call.looks := by
  refine (onlyLooks_findOrder order).bind fun found => (onlyMakes_lookup rfl).bind fun apps => ?_
  exact (onlyMakes_mapM (onlyLooks_imagePreview found.stage) apps).bind fun _ => onlyMakes_pure _

end Engine

theorem Api.Command.onlyLooks_of_isInspection {command : Command} (h : command.isInspection = true)
    (engine : Engine) : (command.operation engine).OnlyMakes Call.looks := by
  cases command with
  | branches project order stage => exact Engine.onlyLooks_branches project order stage
  | history order => exact Engine.onlyLooks_history order
  | stepType order index => exact Engine.onlyLooks_stepType order index
  | lastStep order stage => exact Engine.onlyLooks_lastStep order stage
  | images order => exact Engine.onlyLooks_images order
  | _ => cases h

/-- Whatever disturbs its calls, a command leaves everything as it is that is stored about other orders,
and takes back no confirmation. It adds one only for the order that it confirms; and an inspection changes
nothing, and asks no CI server and no cluster. -/
theorem Api.Command.sparesOthers_of_run {σ : Type} (engine : Engine) (command : Command) (rule : Rule σ)
    (state : σ) {world : World} (distinct : world.store.DistinctJobs) :
    let run := (command.operation engine).run.run rule world state
    world.store.SparesOthers command.order run.world.store ∧
      world.store.Records command run.world.store ∧
      (command.isInspection = true →
        run.world = world ∧ ∀ e ∈ run.exchanges, e.call.looks = true) := by
  intro run
  have hPath := Program.path_deeds rule command (command.operation engine).run [] world state
  have hWarranted := isWarranted_operation engine command [] world
  have hFirst := recordsFirst_operation engine command [] world
  have hEnd := hPath.holds_at_end
    (I := fun _ here => here.store.DistinctJobs ∧ world.store.SparesOthers command.order here.store ∧
      world.store.Records command here.store)
    ⟨distinct, .refl _ _, .nothing rfl⟩ fun deed hDeed ⟨hDistinct, hSpares, hRecords⟩ => by
      obtain ⟨hWarrant, hAnswered, rfl⟩ := Program.Meets.deeds hWarranted state deed hDeed
      have hSound : deed.IsSound engine := ⟨hWarrant, hAnswered⟩
      obtain ⟨hRecordsFirst, -, -⟩ := Program.Meets.deeds hFirst state deed hDeed
      exact ⟨hSound.distinctJobs hDistinct, hSpares.trans (hSound.sparesOthers hDistinct),
        hSound.records hRecordsFirst hRecords⟩
  refine ⟨hEnd.2.1, hEnd.2.2, fun hInspection => ?_⟩
  exact (Command.onlyLooks_of_isInspection hInspection engine).world_of_run
    (fun _ => Call.isQuiet_of_looks) rule world state

/-- Two orders of one stage: one waits to be confirmed, and the other, confirmed before, is deployed. -/
def Session.neighbouringOrders : World where
  store :=
    { Session.sampleStore with
      snapshots := [⟨1, [⟨3, "production", [⟨1, 1, "approval", .manual, []⟩, ⟨2, 2, "deploy", .deploy, []⟩]⟩]⟩]
      orders := [⟨5, 1, "v1.2.0", "spring release", 3, 1, "approval", "manual", .running, "alice", 1⟩,
        ⟨6, 1, "v1.1.9", "hot fix", 3, 2, "deploy", "deploy", .running, "carol", 1⟩]
      jobs := [⟨9, 6, 1, 3, .deploy, some 77, .running, "carol", []⟩]
      confirmations := [⟨⟨6, 1, 3, 1, "approval", "bob", "go"⟩, 1⟩] }
  histories := []
  nextRun := 100

theorem Api.Command.sparesOthers_of_confirm_in_sample :
    let run := ((Command.confirm 1 5 ⟨"bob", "fine"⟩).operation (.ofServer "http://conveyor.local")).run.run
      Rule.undisturbed Session.neighbouringOrders ()
    Session.neighbouringOrders.store.DistinctJobs ∧
      Session.neighbouringOrders.store.SparesOthers 5 run.world.store ∧
      Session.neighbouringOrders.store.Records (.confirm 1 5 ⟨"bob", "fine"⟩) run.world.store ∧
      run.world.store.confirmations.map (·.order) = [6, 5] ∧
      (run.world.store.answer (.order 5)).map Order.stepIndex = some 2 := by
  intro run
  have hDistinct : Session.neighbouringOrders.store.DistinctJobs := List.pairwise_singleton _ _
  obtain ⟨hSpares, hRecords, -⟩ := sparesOthers_of_run (.ofServer "http://conveyor.local")
    (.confirm 1 5 ⟨"bob", "fine"⟩) Rule.undisturbed () hDistinct
  refine ⟨hDistinct, hSpares, hRecords, ?_⟩
  decide +kernel

end DeliveryPipeline

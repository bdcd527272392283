import DeliveryPipeline.Proofs.Engine.Report
import DeliveryPipeline.Proofs.Engine.Terminal
import DeliveryPipeline.Proofs.Interleaving.Basic
import DeliveryPipeline.Proofs.Session.InStep
import DeliveryPipeline.Proofs.Snapshot

/-! # Walking through a stage

An order that runs at the first step of a stage is through after as many completions as the stage declares
steps. Each of them takes it over one step, whether a job has been reported or a manual step confirmed, and
whether or not the job of the step that comes next can be launched; and in between nothing that asks for a
job or only looks takes it anywhere.
-/

namespace DeliveryPipeline

set_option autoImplicit false

open Api (Command)
open Engine (StandsAt)
open Operation

namespace Store

def progress? (store : Store) (id : Int64) : Option (OrderStatus × Int32) :=
  (store.answer (.order id)).map fun order => (order.status, order.stepIndex)

/-- The order runs in an active project, and follows the snapshot. -/
structure Hosts (store : Store) (order : Order) (snapshot : Snapshot) : Prop where
  found : store.answer (.order order.id) = some order
  running : order.status = .running
  active : ∃ project, store.answer (.project order.project) = some project ∧ project.status = .active
  follows : store.answer (.snapshot order.snapshot) = some snapshot

/-- The command completes the step at which the order stands: it reports the success of an active job that
the order has in its stage, or confirms that the step, a manual one, is done. -/
inductive CompletesStep (store : Store) (order : Order) : Command → Prop
  | report {job : Job} (found : store.answer (.job job.id) = some job) (active : job.isActive = true)
    (about : job.order = order.id) (stage : job.stage = order.stage) :
    CompletesStep store order (.complete job.project order.id order.stage job.kind ⟨job.id, .success⟩)
  | confirmation {step : Step} {number : Int64} {request : ConfirmRequest}
    (stands : StandsAt store order order.stage .manual step)
    -- the confirmation can be recorded
    (room : nextNumber? (store.confirmations.map (·.id)) = some number) :
    CompletesStep store order (.confirm order.project order.id request)

variable {before after store : Store} {order order' : Order} {snapshot : Snapshot}

theorem Hosts.progress?_eq (h : store.Hosts order snapshot) :
    store.progress? order.id = some (.running, order.stepIndex) := by
  rw [progress?, h.found, Option.map_some, h.running]

theorem Hosts.allows_advance (h : store.Hosts order snapshot) : order.status.allows .advance = true := by
  rw [h.running]
  rfl

theorem Hosts.congr (h : before.Hosts order snapshot) (found : after.answer (.order order'.id) = some order')
    (running : order'.status = .running) (project : order'.project = order.project)
    (same : order'.snapshot = order.snapshot) (projects : after.projects = before.projects)
    (snapshots : after.snapshots = before.snapshots) : after.Hosts order' snapshot where
  found := found
  running := running
  active := by
    obtain ⟨owner, hOwner, hActive⟩ := h.active
    rw [project]
    exact ⟨owner, (congrArg (List.find? _) projects).trans hOwner, hActive⟩
  follows := by
    rw [same]
    exact (congrArg (List.find? _) snapshots).trans h.follows

end Store

namespace Api.Command

def Passes (command : Command) (id : Int64) : Prop :=
  command.order = id → command.requestsJob = true ∨ command.isInspection = true

def completesFor (command : Command) (id : Int64) : Bool := command.order = id && command.completes

theorem not_passes_of_completes {command : Command} (h : command.completes = true) :
    ¬ command.Passes command.order := by
  intro hPasses
  cases command with
  | complete | confirm => rcases hPasses rfl with hRequests | hLooks <;> contradiction
  | _ => cases h

theorem completesFor_of_passes {command : Command} {id : Int64} (h : command.Passes id) :
    command.completesFor id = false := by
  refine Bool.eq_false_iff.mpr fun hBoth => ?_
  obtain ⟨hOrder, hCompletes⟩ := Bool.and_eq_true_iff.mp hBoth
  obtain rfl := of_decide_eq_true hOrder
  exact not_passes_of_completes hCompletes h

end Api.Command

theorem Store.CompletesStep.completesFor {store : Store} {order : Order} {command : Command}
    (h : store.CompletesStep order command) : command.completesFor order.id = true := by
  cases h <;> exact Bool.and_eq_true_iff.mpr ⟨decide_eq_true rfl, rfl⟩

theorem Warrant.not_passes {engine : Engine} {command : Command} {past : List Exchange} {store : Store}
    {c : Call} (h : Warrant engine command past store c) {id : Int64} {status : OrderStatus}
    (writes : c.orderStatus? = some (id, status)) {order : Order}
    (found : store.answer (.order id) = some order) (started : order.status ≠ .init) :
    ¬ command.Passes id := by
  cases h with
  | @quiet c hQuiet =>
    cases c with
    | update u => cases hQuiet
    | lookup _ | errand _ => cases writes
  | apply | insert | submit | startJob | cancel | abandon | abortJob | settle | confirm => cases writes
  | start hFound init =>
    cases writes
    obtain rfl := Option.some.inj (hFound.symm.trans found)
    exact absurd init started
  | terminate asked | abort asked | fail asked =>
    cases writes
    intro hPasses
    have hAsks := hPasses rfl
    rw [asked] at hAsks
    rcases hAsks with hRequests | hLooks <;> contradiction
  | finish completing | rest completing | move completing =>
    cases writes
    exact Command.not_passes_of_completes completing.completes

theorem Deed.IsSound.answer_order_of_passes {engine : Engine} {deed : Deed} (h : deed.IsSound engine)
    {order : Order} (passes : deed.command.Passes order.id)
    (found : deed.before.store.answer (.order order.id) = some order) (started : order.status ≠ .init) :
    deed.after.store.answer (.order order.id) = some order := by
  rcases h.store_after with hSame | ⟨u, hCall, hStore⟩
  · rw [hSame]
    exact found
  have hWarrant := h.warrant
  rw [hCall] at hWarrant
  rw [hStore]
  obtain ⟨order', hFound, hChange⟩ :=
    find?_of_forall₂ (deed.before.store.forall₂_orderChange u) Store.OrderChange.id found
  cases hChange with
  | kept => exact hFound
  | marked call | moved call =>
    exact absurd passes (hWarrant.not_passes (by rw [call]; rfl) found started)

theorem Deed.IsSound.projects {engine : Engine} {deed : Deed} (h : deed.IsSound engine) :
    deed.after.store.projects = deed.before.store.projects := by
  obtain ⟨orders, jobs, confirmations, hStore⟩ := h.store_eq
  rw [hStore]

namespace Engine

variable {α : Type} {engine : Engine} {world : World} {order : Order} {snapshot : Snapshot}
  {ends : Except EngineError α → World → Prop}

theorem yields_findOrderOf_bind {f : Order → Operation α} (hosts : world.store.Hosts order snapshot)
    (rest : (f order).Yields ends world) :
    (findOrderOf order.project order.id >>= f).Yields ends world := by
  obtain ⟨project, hProject, hActive⟩ := hosts.active
  simp only [findOrderOf, findOrder, bind_assoc, pure_bind]
  apply yields_lookup_bind
  apply yields_require_some hProject
  apply yields_ensure_bind
  · rw [hActive]
    rfl
  apply yields_lookup_bind
  apply yields_require_some hosts.found
  exact yields_ensure_bind (decide_eq_true rfl) rest

theorem yields_ensureAllowed_bind {action : OrderAction} {f : Unit → Operation α}
    (allowed : order.status.allows action = true) (rest : (f ()).Yields ends world) :
    (ensureAllowed order action >>= f).Yields ends world := by
  unfold OrderStatus.allows at allowed
  unfold ensureAllowed
  cases hCheck : order.status.check action with
  | ok _ => exact rest
  | error cause =>
    rw [hCheck] at allowed
    cases allowed

theorem yields_confirm (hosts : world.store.Hosts order snapshot) {step : Step}
    (stands : StandsAt world.store order order.stage .manual step) {number : Int64}
    (room : nextNumber? (world.store.confirmations.map (·.id)) = some number) (request : ConfirmRequest) :
    (confirm engine order.project order.id request).Yields (fun _ after =>
        after.store.answer (.order order.id) = some (world.store.afterStep order.stage order))
      world := by
  obtain ⟨found, stage, hSnapshot, hStage, hStep, hKind⟩ := stands
  unfold confirm
  apply yields_findOrderOf_bind hosts
  apply yields_ensureAllowed_bind hosts.allows_advance
  apply yields_find_some hSnapshot
  apply yields_require_some hStage
  apply yields_require_some hStep
  apply yields_ensure_bind (decide_eq_true hKind)
  let confirmation : Confirmation := ⟨⟨order.id, found.id, order.stage, order.stepIndex, step.name,
    request.creator, request.message⟩, number⟩
  let recorded : World := { world with
    store := { world.store with confirmations := world.store.confirmations ++ [confirmation] } }
  have hRecorded : world.store.update (.addConfirmation confirmation.toConfirmationDraft) =
      (.ok number, recorded.store) := by
    rw [Store.update, Store.addConfirmation, room]
  apply yields_update_bind hRecorded
  -- orders and snapshots are as before, so the step is left as if nothing had been recorded
  have hAdvance : (advance engine order order.stage request.creator).Yields _ recorded :=
    yields_advance order.stage request.creator hosts.found
  exact Program.Yields.mono hAdvance fun _ after hLeaves => hLeaves.2

end Engine

theorem Store.CompletesStep.answer_of_run {σ : Type} (engine : Engine) {command : Command} {rule : Rule σ}
    {world : World} {order : Order} {snapshot : Snapshot} (h : world.store.CompletesStep order command)
    (hosts : world.store.Hosts order snapshot) (works : rule.SparesStore) (state : σ) :
    ((command.operation engine).run.run rule world state).world.store.answer (.order order.id) =
      some (world.store.afterStep order.stage order) := by
  cases h with
  | @report job found active about stage =>
    have hAddressed : world.store.Addresses job.project order.id order.stage job.kind job.id job order :=
      ⟨Job.isAt_iff.mpr ⟨about, rfl, stage, rfl⟩, found, hosts.found⟩
    let report : Callback := ⟨job.id, .success⟩
    have hYields : (engine.complete job.project order.id order.stage job.kind report).Yields _ world :=
      Engine.yields_complete hAddressed active
    obtain ⟨-, hOrder⟩ := hYields.ends_run works state
    have hAfter : world.store.afterReport order.stage order .success =
        world.store.afterStep order.stage order := by
      simp [Store.afterReport, hosts.allows_advance]
    rw [← hAfter]
    exact hOrder
  | @confirmation step number request stands room =>
    have hYields : (engine.confirm order.project order.id request).Yields _ world :=
      Engine.yields_confirm hosts stands room request
    exact hYields.ends_run works state

namespace Session

variable {σ : Type} {session : Session σ} {part : Part} {id : Int64}

/-- The part passes the order, or completes the step at which it finds it. -/
inductive Part.Walks (id : Int64) (part : Part) : Prop
  | passes (passes : part.command.Passes id)
  | completes {order : Order} (found : part.start.store.answer (.order id) = some order)
    (completes : part.start.store.CompletesStep order part.command)

/-- The parts go through the steps one by one: each finds the order running at its step and leaves it running
at the next one, and the last leaves it at the last step with the status in which the walk ends. -/
inductive Walk (id : Int64) (ending : OrderStatus) : List Part → List Step → Prop
  | last {part : Part} {step : Step}
    (starts : part.start.store.progress? id = some (.running, step.index))
    (finishes : part.finish.store.progress? id = some (ending, step.index)) : Walk id ending [part] [step]
  | step {part : Part} {parts : List Part} {step next : Step} {rest : List Step}
    (starts : part.start.store.progress? id = some (.running, step.index))
    (finishes : part.finish.store.progress? id = some (.running, next.index))
    (walk : Walk id ending parts (next :: rest)) : Walk id ending (part :: parts) (step :: next :: rest)

def completions (session : Session σ) (id : Int64) : List Part :=
  session.parts.filter fun part => part.command.completesFor id

theorem references_at_finish (h : part ∈ session.parts) :
    part.finish.store.projects = part.start.store.projects ∧
      part.finish.store.snapshots = part.start.store.snapshots := by
  refine holds_at_finish (I := fun world => world.store.projects = part.start.store.projects ∧
    world.store.snapshots = part.start.store.snapshots) h ⟨rfl, rfl⟩ ?_
  intro deed hDeed ⟨hProjects, hSnapshots⟩
  have hSound := isSound_of_mem_deeds (mem_deeds_of_mem_parts h hDeed)
  exact ⟨hSound.projects.trans hProjects, hSound.snapshots.trans hSnapshots⟩

theorem hosts_of_passes {order : Order} {snapshot : Snapshot} (h : part ∈ session.parts)
    (passes : part.command.Passes order.id) (hosts : part.start.store.Hosts order snapshot) :
    part.finish.store.Hosts order snapshot := by
  obtain ⟨hProjects, hSnapshots⟩ := references_at_finish h
  have hStarted : order.status ≠ .init := by
    rw [hosts.running]
    decide
  have hFound := holds_at_finish (I := fun world => world.store.answer (.order order.id) = some order) h
    hosts.found fun deed hDeed hBefore => by
      have hSound := isSound_of_mem_deeds (mem_deeds_of_mem_parts h hDeed)
      rw [← command_of_mem_deeds h hDeed] at passes
      exact hSound.answer_order_of_passes passes hBefore hStarted
  exact hosts.congr hFound hosts.running rfl rfl hProjects hSnapshots

theorem answer_at_finish_of_completes {order : Order} {snapshot : Snapshot} (works : session.rule.SparesStore)
    (h : part ∈ session.parts) (completes : part.start.store.CompletesStep order part.command)
    (hosts : part.start.store.Hosts order snapshot) :
    part.finish.store.answer (.order order.id) = some (part.start.store.afterStep order.stage order) := by
  obtain ⟨state, hFinish⟩ := exists_finish_eq h
  rw [hFinish]
  exact completes.answer_of_run session.engine hosts works state

section Stage

variable {order : Order} {snapshot : Snapshot} {stage : Stage} {before rest : List Step} {current next : Step}

theorem progress?_at_finish_of_last (works : session.rule.SparesStore)
    (acts : snapshot.stage? stage.id = some stage) (h : part ∈ session.parts)
    (completes : part.start.store.CompletesStep order part.command)
    (hosts : part.start.store.Hosts order snapshot) (placed : order.stage = stage.id)
    (stands : order.stepIndex = current.index) (declared : stage.steps = before ++ [current]) :
    part.finish.store.progress? order.id =
      some (if snapshot.isLastStage stage.id then .success else .running, current.index) := by
  have hLast : stage.isLastIndex order.stepIndex = true := by
    rw [stands]
    exact Stage.isLastIndex_of_last declared
  rw [Store.progress?, answer_at_finish_of_completes works h completes hosts, placed,
    Store.afterStep_of_last hosts.follows acts hLast, Option.map_some, stands]

theorem hosts_of_completes (works : session.rule.SparesStore) (ascends : stage.Ascends)
    (acts : snapshot.stage? stage.id = some stage) (h : part ∈ session.parts)
    (completes : part.start.store.CompletesStep order part.command)
    (hosts : part.start.store.Hosts order snapshot) (placed : order.stage = stage.id)
    (stands : order.stepIndex = current.index) (declared : stage.steps = before ++ current :: next :: rest) :
    part.finish.store.Hosts (order.movedTo next) snapshot := by
  obtain ⟨hProjects, hSnapshots⟩ := references_at_finish h
  have hNotLast : stage.isLastIndex order.stepIndex = false := by
    rw [stands]
    exact ascends.isLastIndex_of_next declared
  have hNext : (stage.nextIndex? order.stepIndex).bind stage.step? = some next := by
    rw [stands]
    exact ascends.next_eq declared
  have hFound := answer_at_finish_of_completes works h completes hosts
  rw [placed, Store.afterStep_of_next hosts.follows acts hNotLast hNext] at hFound
  exact hosts.congr hFound rfl rfl rfl hProjects hSnapshots

theorem walk_of_chain (works : session.rule.SparesStore) (ascends : stage.Ascends)
    (acts : snapshot.stage? stage.id = some stage) {world : World} {parts : List Part}
    (chain : Part.Chain world parts) (mem : ∀ part ∈ parts, part ∈ session.parts)
    (walks : ∀ part ∈ parts, part.Walks id) (about : order.id = id)
    (hosts : world.store.Hosts order snapshot) (placed : order.stage = stage.id)
    (stands : order.stepIndex = current.index) (declared : stage.steps = before ++ current :: rest)
    (count : (parts.filter fun part => part.command.completesFor id).length = rest.length + 1) :
    Walk id (if snapshot.isLastStage stage.id then .success else .running)
      (parts.filter fun part => part.command.completesFor id) (current :: rest) := by
  -- the walk goes on from the order as the part leaves it, so everything but the stage varies
  induction chain generalizing order before current rest with
  | nil world => cases count
  | @cons part parts chain ih =>
    obtain ⟨hPart, hParts⟩ := List.forall_mem_cons.mp mem
    obtain ⟨hWalks, hRest⟩ := List.forall_mem_cons.mp walks
    obtain rfl := about
    cases hWalks with
    | passes passes =>
      have hPasses := Command.completesFor_of_passes passes
      rw [List.filter_cons_of_neg (by simp [hPasses])] at count ⊢
      exact ih hParts hRest rfl (hosts_of_passes hPart passes hosts) placed stands declared count
    | completes found completes =>
      obtain rfl := Option.some.inj (hosts.found.symm.trans found)
      have hCompletes := completes.completesFor
      rw [List.filter_cons_of_pos (by simp [hCompletes])] at count ⊢
      have hStarts := hosts.progress?_eq
      rw [stands] at hStarts
      cases rest with
      | nil =>
        have hDone : (parts.filter fun part => part.command.completesFor order.id) = [] :=
          List.length_eq_zero_iff.mp (Nat.succ.inj count)
        rw [hDone]
        exact .last hStarts
          (progress?_at_finish_of_last works acts hPart completes hosts placed stands declared)
      | cons next rest =>
        have hMoved := hosts_of_completes works ascends acts hPart completes hosts placed stands declared
        have hSplit : stage.steps = (before ++ [current]) ++ next :: rest := by simp [declared]
        have hId : (order.movedTo next).id = order.id := rfl
        refine .step hStarts hMoved.progress?_eq ?_
        exact ih hParts hRest hId hMoved placed rfl hSplit (Nat.succ.inj count)

end Stage

/-- An order that runs at the first step of a stage walks through the stage if its step is completed as often
as the stage declares steps: the k-th completion finds it at the k-th step, and exactly the last one makes it
succeed, or leaves it running if another stage follows. -/
theorem walk_of_completions (works : session.rule.SparesStore) {order : Order} {snapshot : Snapshot}
    (hosts : session.start.store.Hosts order snapshot) (distinct : snapshot.DistinctStages)
    {earlier later : List Stage} {stage : Stage} (declared : snapshot.stages = earlier ++ stage :: later)
    (ascends : stage.Ascends) (placed : order.stage = stage.id)
    (begins : stage.steps.head?.map (·.index) = some order.stepIndex)
    (walks : ∀ part ∈ session.parts, part.Walks order.id)
    (count : (session.completions order.id).length = stage.steps.length) :
    Walk order.id (if later.isEmpty then .success else .running) (session.completions order.id)
      stage.steps := by
  have hActs : snapshot.stage? stage.id = some stage := distinct.stage?_eq (by simp [declared])
  rw [← distinct.isLastStage_eq declared]
  cases hSteps : stage.steps with
  | nil =>
    rw [hSteps] at begins
    cases begins
  | cons first rest =>
    have hSplit : stage.steps = [] ++ first :: rest := hSteps
    rw [hSteps] at begins count
    exact walk_of_chain works ascends hActs session.chain_parts (fun _ hPart => hPart) walks rfl hosts placed
      (Option.some.inj begins).symm hSplit count

def walkedStage : Stage := ⟨3, "production", [⟨1, 1, "build", .build, []⟩, ⟨4, 2, "approval", .manual, []⟩,
  ⟨7, 3, "rebuild", .build, []⟩]⟩

def walkedSample : Session Unit where
  engine := .ofServer "http://conveyor.local"
  rule := Rule.undisturbed
  state := ()
  start :=
    { store := { Interleaving.sampleStore with snapshots := [⟨1, [walkedStage]⟩] }
      histories := []
      nextRun := 77 }
  commands := [.build 1 5 3 ⟨"alice", [⟨12, "dev", "", none⟩], []⟩, .complete 1 5 3 .build ⟨1, .success⟩,
    .history 5, .confirm 1 5 ⟨"bob", "go"⟩, .complete 1 5 3 .build ⟨2, .success⟩]

def walkedOrder (index : Int32) (step kind : String) : Order :=
  ⟨5, 1, "v1.2.0", "spring release", 3, index, step, kind, .running, "alice", 1⟩

def walkedJob (id run : Int64) (creator : String) : Job :=
  ⟨id, 5, 1, 3, .build, some run, .running, creator,
    [⟨12, some "dev", "https://git.local/team/web.git", none⟩]⟩

theorem walks_of_mem_walkedSample : ∀ part ∈ walkedSample.parts, part.Walks 5 := by
  let store (place : Nat) : Store :=
    ((walkedSample.parts[place]?.map Part.start).getD walkedSample.start).store
  let build := walkedOrder 1 "build" "build"
  let approval := walkedOrder 4 "approval" "manual"
  let rebuild := walkedOrder 7 "rebuild" "build"
  have hBuild : (store 1).answer (.order 5) = some build := by decide +kernel
  have hApproval : (store 3).answer (.order 5) = some approval := by decide +kernel
  have hRebuild : (store 4).answer (.order 5) = some rebuild := by decide +kernel
  have hFirst : (store 1).answer (.job 1) = some (walkedJob 1 77 "alice") := by decide +kernel
  have hSecond : (store 4).answer (.job 2) = some (walkedJob 2 78 "bob") := by decide +kernel
  have hRoom : nextNumber? ((store 3).confirmations.map (·.id)) = some 1 := by decide +kernel
  have hKind : Engine.kindAt? (store 3) approval 3 = some .manual := by decide +kernel
  obtain ⟨step, hStands⟩ := Engine.exists_standsAt_iff.mpr hKind
  have hFirstDone : (store 1).CompletesStep build (.complete 1 5 3 .build ⟨1, .success⟩) :=
    @Store.CompletesStep.report _ _ (walkedJob 1 77 "alice") hFirst rfl rfl rfl
  have hSecondDone : (store 4).CompletesStep rebuild (.complete 1 5 3 .build ⟨2, .success⟩) :=
    @Store.CompletesStep.report _ _ (walkedJob 2 78 "bob") hSecond rfl rfl rfl
  refine List.forall_mem_cons.mpr ⟨.passes fun _ => .inl rfl, ?_⟩
  refine List.forall_mem_cons.mpr ⟨.completes hBuild hFirstDone, ?_⟩
  refine List.forall_mem_cons.mpr ⟨.passes fun _ => .inr rfl, ?_⟩
  refine List.forall_mem_cons.mpr ⟨.completes hApproval (.confirmation hStands hRoom), ?_⟩
  exact List.forall_mem_cons.mpr ⟨.completes hRebuild hSecondDone, fun _ h => nomatch h⟩

theorem walk_of_completions_in_sample :
    walkedSample.start.store.Hosts (walkedOrder 1 "build" "build") ⟨1, [walkedStage]⟩ ∧
      (∀ part ∈ walkedSample.parts, part.Walks 5) ∧
      Walk 5 .success (walkedSample.completions 5) walkedStage.steps := by
  have hHosts : walkedSample.start.store.Hosts (walkedOrder 1 "build" "build") ⟨1, [walkedStage]⟩ :=
    ⟨rfl, rfl, ⟨_, rfl, rfl⟩, rfl⟩
  have hDistinct : Snapshot.DistinctStages ⟨1, [walkedStage]⟩ := List.pairwise_singleton _ _
  have hDeclared : [walkedStage] = [] ++ walkedStage :: [] := rfl
  have hAscends : walkedStage.Ascends := by
    unfold Stage.Ascends
    decide
  refine ⟨hHosts, walks_of_mem_walkedSample, ?_⟩
  exact walk_of_completions Rule.sparesStore_undisturbed hHosts hDistinct hDeclared hAscends rfl rfl
    walks_of_mem_walkedSample rfl

end Session

end DeliveryPipeline

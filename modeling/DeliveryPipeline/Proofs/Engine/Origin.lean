import DeliveryPipeline.Proofs.Engine.Progress

/-! # Where plans come from

A plan is handed over by a request for a job and by nothing else. The request is what a user asks for, or
what a completion makes of the apps of its order for the step that comes next: on behalf of the one who
confirms, or for whom the reported job has run, and where that job is settled or the confirmation is recorded
and the order has been moved.
-/

namespace DeliveryPipeline

set_option autoImplicit false

open Operation

variable {α β : Type}

namespace Api.Command

def creatorIn? (store : Store) : Command → Option String
  | build _ _ _ request => some request.creator
  | deploy _ _ _ request => some request.creator
  | complete _ _ _ _ report => (store.answer (.job report.job)).map (·.creator)
  | confirm _ _ request => some request.creator
  | _ => none

/-- How a command asks for a job: which request it makes in which world, and for which project, order and
stage. A completion asks for the job of the step to which it has moved the order. -/
inductive Asks (before : World) : Command → World → JobRequest → Int64 → Int64 → Int64 → Prop
  | build (project order stage : Int64) (request : BuildRequest) :
    Asks before (.build project order stage request) before (.build request) project order stage
  | deploy (project order stage : Int64) (request : DeployRequest) :
    Asks before (.deploy project order stage request) before (.deploy request) project order stage
  | completion {command : Command} {order : Order} {snapshot : Snapshot} {stage : Stage} {next : Step}
    {kind : JobKind} {creator : String} {departed : Store}
    (completing : Completing command before.store order snapshot stage)
    (departs : Departs command before.store departed)
    (inside : stage.isLastIndex order.stepIndex = false)
    (leads : (stage.nextIndex? order.stepIndex).bind stage.step? = some next)
    (runs : Engine.jobKindOf? next.kind = some kind)
    (behalf : command.creatorIn? before.store = some creator) :
    Asks before command
      { before with store := departed.changeOrder command.order fun order => order.movedTo next }
      (.ofApps kind creator (before.store.answer (.orderApps command.order))) order.project command.order
      (command.stageAt order)

end Api.Command

/-- The order of a completion stands at the step that comes next where the job for it is asked for. -/
theorem Engine.StandsAt.of_completing {command : Api.Command} {origin departed : Store} {order : Order}
    {snapshot : Snapshot} {stage : Stage} {next : Step}
    (completing : Completing command origin order snapshot stage) (departs : Departs command origin departed)
    (leads : (stage.nextIndex? order.stepIndex).bind stage.step? = some next) :
    let here := departed.changeOrder command.order fun order => order.movedTo next
    here.answer (.order command.order) = some (order.movedTo next) ∧
      StandsAt here (order.movedTo next) (command.stageAt order) next.kind next := by
  intro here
  have hStored : departed.answer (.order command.order) = some order :=
    (congrArg (List.find? _) departs.orders).trans completing.found
  have hSnapshot : departed.answer (.snapshot order.snapshot) = some snapshot :=
    (congrArg (List.find? _) departs.snapshots).trans completing.follows
  obtain ⟨-, -, hNext⟩ := Stage.next_of_follows leads
  exact ⟨Store.answer_changeOrder_of_found hStored (fun order => order.movedTo next) fun _ => rfl,
    snapshot, stage, hSnapshot, completing.acts, hNext, rfl⟩

namespace Engine

variable {world : World} {allowed : Call → Assertion}

/-- In the given world the operation makes allowed calls only, whatever came before. -/
def Keeps (allowed : Call → Assertion) (world : World) (x : Operation α) : Prop :=
  ∀ past, x.Meets allowed (fun _ _ _ => True) (fun _ _ _ => True) past world

theorem keeps_pure (a : α) : Keeps allowed world (pure a : Operation α) := fun _ => trivial

theorem keeps_throw (e : EngineError) : Keeps allowed world (throw e : Operation α) := fun _ => trivial

theorem Keeps.bind {x : Operation α} {f : α → Operation β} (h : Keeps allowed world x)
    (rest : ∀ a here, Keeps allowed here (f a)) : Keeps allowed world (x >>= f) := by
  intro past
  refine meets_bind.mpr ((h past).weaken ?_ ?_)
  · intro a past here _
    exact rest a here past
  · intros
    trivial

theorem Keeps.attempt {x : Operation α} (h : Keeps allowed world x) : Keeps allowed world (attempt x) := by
  intro past
  refine meets_attempt.mpr ((h past).weaken ?_ ?_)
  · intros
    trivial
  · intros
    trivial

section Silent

variable (silent : ∀ c past here, c.submits = false → allowed c past here)

include silent

theorem keeps_of_reads {found : α → Prop} {x : Operation α} (h : Reads world found x) :
    Keeps allowed world x := by
  intro past
  refine Program.Reads.meets h (fun c past hQuiet => ?_) fun result _ _ _ => ?_
  · exact silent c past world (Call.submits_of_isQuiet hQuiet)
  · cases result <;> trivial

theorem keeps_bind_of_reads {found : α → Prop} {x : Operation α} {f : α → Operation β}
    (h : Reads world found x) (rest : ∀ a, found a → Keeps allowed world (f a)) :
    Keeps allowed world (x >>= f) := by
  intro past
  refine h.meets_bind (fun c past hQuiet => ?_) (fun _ _ => trivial) ?_
  · exact silent c past world (Call.submits_of_isQuiet hQuiet)
  · intro a past hFound
    exact rest a hFound past

theorem keeps_update_bind {u : Update} {f : u.Answer → Operation α} {answer : u.Answer} {store : Store}
    (applied : world.store.update u = (.ok answer, store)) (plain : ∀ draft, u ≠ .insertJob draft)
    (rest : Keeps allowed { world with store := store } (f answer)) :
    Keeps allowed world (update u >>= f) := by
  intro past
  exact meets_update_bind applied plain (silent _ past world rfl) (rest _) fun _ => trivial

theorem keeps_update {u : Update} {answer : u.Answer} {store : Store}
    (applied : world.store.update u = (.ok answer, store)) (plain : ∀ draft, u ≠ .insertJob draft) :
    Keeps allowed world (update u) := by
  intro past
  exact meets_update applied plain (silent _ past world rfl) trivial fun _ => trivial

theorem keeps_cancel_bind {purpose : Purpose} {server : CiServer} {name : String} {run : Int64}
    {f : Unit → Operation α} (rest : Keeps allowed world (f ())) :
    Keeps allowed world (errand purpose (.cancel server name run) >>= f) := by
  intro past
  refine meets_bind.mpr ⟨silent _ past world rfl, fun disturbance => ?_⟩
  cases disturbance with
  | errandFails failure => trivial
  | none | storeFails _ | findsNothing | scopeBusy _ => exact rest _

variable {engine : Engine} {command : Api.Command}

theorem keeps_launchNext {order : Order} {stage : Int64} {next : Step} {creator : String}
    (create : ∀ kind, jobKindOf? next.kind = some kind → Keeps allowed world
      ((JobRequest.ofApps kind creator (world.store.answer (.orderApps order.id))).create engine order.project
        order.id stage)) :
    Keeps allowed world (launchNext engine order stage next creator) := by
  unfold launchNext
  split
  · exact keeps_pure none
  rename_i kind hRuns
  have hLaunch : Keeps allowed world (launchApps engine order stage kind creator) := by
    rw [launchApps_eq_bind]
    apply keeps_bind_of_reads silent reads_lookup
    rintro _ (rfl | rfl)
    · exact create kind hRuns
    · -- a request without apps is refused at once
      cases kind <;> exact keeps_throw _
  refine hLaunch.attempt.bind fun result _ => ?_
  cases result with
  | ok launch => exact keeps_pure (some launch)
  | error e => exact keeps_pure none

theorem keeps_advance {order : Order} {stageId : Int64} {departed : Store} {creator : String}
    (create : ∀ request project id stage here, command.Asks world here request project id stage →
      Keeps allowed here (request.create engine project id stage))
    (completes : command.completes = true) (acts : command.stageAt order = stageId)
    (found : world.store.answer (.order command.order) = some order)
    (advances : order.status.allows .advance = true) (departs : Departs command world.store departed)
    (behalf : command.creatorIn? world.store = some creator) :
    Keeps allowed { world with store := departed } (advance engine order stageId creator) := by
  subst acts
  unfold advance
  refine keeps_bind_of_reads silent (reads_findSnapshot order) fun snapshot hSnapshot => ?_
  refine keeps_bind_of_reads silent (reads_stageOf snapshot (command.stageAt order)) fun stage hStage => ?_
  have hFollows : world.store.answer (.snapshot order.snapshot) = some snapshot :=
    (congrArg (List.find? _) departs.snapshots.symm).trans hSnapshot
  split
  · unfold finishStage
    split
    · exact keeps_update_bind silent rfl (by simp) (keeps_pure _)
    · split
      · exact keeps_update_bind silent rfl (by simp) (keeps_pure _)
      · exact keeps_pure _
  rename_i hInside
  refine keeps_bind_of_reads silent (reads_nextStep stage order) fun next hNext => ?_
  have hId : order.id = command.order := (Store.mem_of_answer_order found).2
  have hStored : departed.answer (.order order.id) = some order := by
    rw [hId]
    exact (congrArg (List.find? _) departs.orders).trans found
  refine keeps_update_bind silent (Store.update_moveOrder hStored (Stage.next_of_follows hNext).1) (by simp) ?_
  have hApps : departed.answer (.orderApps order.id) = world.store.answer (.orderApps command.order) := by
    rw [hId]
    exact congrArg (fun apps => sortedBy OrderApp.id (apps.filter fun a => a.order = command.order))
      departs.orderApps
  have hLaunch : Keeps allowed
      { world with store := departed.changeOrder order.id fun order => order.movedTo next }
      (launchNext engine order stage.id next creator) := by
    apply keeps_launchNext silent
    intro kind hRuns
    have hAsks := Api.Command.Asks.completion
      ⟨completes, found, advances, hFollows, hStage⟩ departs (Bool.eq_false_iff.mpr hInside) hNext hRuns behalf
    have hCreate := create _ _ _ _ _ hAsks
    rw [← hApps, ← hId, ← (mem_of_find? hStage).2] at hCreate
    exact hCreate
  exact hLaunch.bind fun _ _ => keeps_pure _

theorem keeps_complete (engine : Engine) {project order stage : Int64} {kind : JobKind} {report : Callback}
    (create : ∀ request project' id stage' here,
      Api.Command.Asks world (.complete project order stage kind report) here request project' id stage' →
      Keeps allowed here (request.create engine project' id stage')) :
    Keeps allowed world (complete engine project order stage kind report) := by
  unfold complete
  refine keeps_bind_of_reads silent reads_lookup fun answer hAnswer => ?_
  refine keeps_bind_of_reads silent reads_require fun job hFiltered => ?_
  obtain ⟨hFound, hPlace⟩ := Option.filter_eq_some_iff.mp hFiltered
  have hJob := eq_some_of_answer hAnswer hFound
  refine keeps_bind_of_reads silent (reads_findOrder order) fun found hOrder => ?_
  split
  · exact keeps_pure _
  rename_i hActive
  have hId : job.id = report.job := (mem_of_find? hJob).2
  rw [hId]
  refine keeps_update_bind silent rfl (by simp) ?_
  split
  · exact keeps_pure _
  rename_i hAllowed
  split
  · exact keeps_update_bind silent rfl (by simp) (keeps_pure _)
  rename_i hOutcome
  have hBehalf : Api.Command.creatorIn? world.store (.complete project order stage kind report) =
      some job.creator := congrArg (Option.map Job.creator) hJob
  exact keeps_advance silent create (decide_eq_true hOutcome) rfl hOrder (by simpa using hAllowed)
    (.reported rfl hOutcome hJob hPlace (by simpa using hActive)) hBehalf

theorem keeps_confirm (engine : Engine) {project order : Int64} {request : ConfirmRequest}
    (create : ∀ request' project' id stage here,
      Api.Command.Asks world (.confirm project order request) here request' project' id stage →
      Keeps allowed here (request'.create engine project' id stage)) :
    Keeps allowed world (confirm engine project order request) := by
  unfold confirm
  refine keeps_bind_of_reads silent (reads_findOrderOf project order) fun found hFound => ?_
  refine keeps_bind_of_reads silent (reads_ensureAllowed found .advance) fun _ hAllowed => ?_
  refine keeps_bind_of_reads silent (reads_findSnapshot found) fun snapshot hSnapshot => ?_
  refine keeps_bind_of_reads silent (reads_stageOf snapshot found.stage) fun stage hStage => ?_
  refine keeps_bind_of_reads silent (reads_currentStep stage found) fun step hStep => ?_
  refine keeps_bind_of_reads silent reads_ensure fun _ hManual => ?_
  have hStands : StandsAt world.store found found.stage .manual step :=
    ⟨snapshot, stage, hSnapshot, hStage, hStep, of_decide_eq_true hManual⟩
  have hId : found.id = order := (Store.mem_of_answer_order hFound.1).2
  have hSnapshotId : snapshot.id = found.snapshot := (mem_of_find? hSnapshot).2
  rw [hSnapshotId, ← hId]
  intro past
  refine meets_bind.mpr (meets_addConfirmation (silent _ past world rfl) (fun id past hAbove => ?_) ?_)
  · exact keeps_advance silent create rfl rfl hFound.1 hAllowed
      (.confirmed rfl hFound.1 hStands hAbove) rfl past
  · intros
    trivial

theorem keeps_terminate (engine : Engine) (project order stage : Int64) (kind : JobKind) :
    Keeps allowed world (terminate engine project order stage kind) := by
  unfold terminate
  refine keeps_bind_of_reads silent (reads_findOrder order) fun found _ => ?_
  refine keeps_bind_of_reads silent (reads_ensureAllowed found .terminate) fun _ _ => ?_
  refine keeps_bind_of_reads silent (reads_attempt (reads_findCancelTarget engine project order stage kind))
    fun target _ => ?_
  cases target with
  | error e => exact keeps_update_bind silent rfl (by simp) (keeps_throw e)
  | ok target =>
    refine keeps_update_bind silent rfl (by simp) (keeps_cancel_bind silent ?_)
    exact keeps_update silent rfl (by simp)

theorem keeps_abort (project order : Int64) : Keeps allowed world (abort project order) := by
  unfold abort
  refine keeps_bind_of_reads silent (reads_findOrderOf project order) fun found _ => ?_
  refine keeps_bind_of_reads silent (reads_ensureAllowed found .abort) fun _ _ => ?_
  refine keeps_update_bind silent rfl (by simp) ?_
  refine keeps_bind_of_reads silent reads_lookup fun latest _ => ?_
  cases latest with
  | none => exact keeps_pure ()
  | some job =>
    dsimp only
    split
    · exact keeps_update silent rfl (by simp)
    · exact keeps_pure ()

end Silent

end Engine

theorem Api.Command.meets_of_asks {engine : Engine} {command : Api.Command} {allowed : Call → Assertion}
    {past : List Exchange} {world : World}
    (silent : ∀ c past here, c.submits = false → allowed c past here)
    (create : ∀ request project order stage past here,
      command.Asks world here request project order stage →
      (request.create engine project order stage).Meets allowed (fun _ _ _ => True) (fun _ _ _ => True)
        past here) :
    (command.operation engine).run.Meets allowed (fun _ _ _ => True) past world := by
  have hKeeps : ∀ {α : Type} {x : Operation α}, Engine.Keeps allowed world x →
      x.run.Meets allowed (fun _ _ _ => True) past world := by
    intro α x hKeeps
    refine (hKeeps past).mono fun result _ _ _ => ?_
    trivial
  have hCreate : ∀ request project order stage here, command.Asks world here request project order stage →
      Engine.Keeps allowed here (request.create engine project order stage) :=
    fun request project order stage here hAsks past => create request project order stage past here hAsks
  cases command with
  | build project order stage request => exact hKeeps (hCreate _ _ _ _ _ (.build project order stage request))
  | deploy project order stage request => exact hKeeps (hCreate _ _ _ _ _ (.deploy project order stage request))
  | terminate project order stage request =>
    exact hKeeps (Engine.keeps_terminate silent engine project order stage request.kind)
  | abort project order => exact hKeeps (Engine.keeps_abort silent project order)
  | complete project order stage kind report => exact hKeeps (Engine.keeps_complete silent engine hCreate)
  | confirm project order request => exact hKeeps (Engine.keeps_confirm silent engine hCreate)
  | branches project order stage =>
    exact hKeeps (Engine.keeps_of_reads silent (Engine.reads_branches project order stage))
  | history order => exact hKeeps (Engine.keeps_of_reads silent (Engine.reads_history order))
  | stepType order index => exact hKeeps (Engine.keeps_of_reads silent (Engine.reads_stepType order index))
  | lastStep order stage => exact hKeeps (Engine.keeps_of_reads silent (Engine.reads_lastStep order stage))
  | images order => exact hKeeps (Engine.keeps_of_reads silent (Engine.reads_images order))

end DeliveryPipeline

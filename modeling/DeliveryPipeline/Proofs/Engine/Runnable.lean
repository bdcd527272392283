import DeliveryPipeline.Proofs.Api.Callback
import DeliveryPipeline.Proofs.Engine.Conflict
import DeliveryPipeline.Proofs.Engine.Gathering
import DeliveryPipeline.Proofs.Engine.Launching

/-! # Plans that have something to do

A step that declares no tasks gets the default ones of its kind. A build checks that it can run one of its
tasks, and a deploy only leaves out what it cannot run: if its step declares tasks but no health check, the
plan that it submits is empty, and the run succeeds without anything having been checked.
-/

namespace DeliveryPipeline

set_option autoImplicit false

open Operation

theorem buildSteps_ne_nil_iff {context : JobContext} {apps : List AppBuild} {tasks : List Task} :
    buildSteps context apps tasks ≠ [] ↔ ∃ task ∈ tasks, task.kind.runsInBuild = true := by
  have hRuns : ∀ task : Task, task.buildCommands? context apps = none ↔ task.kind.runsInBuild = false := by
    intro task
    rw [← Option.not_isSome_iff_eq_none, Task.buildCommands?_isSome_iff, Bool.not_eq_true]
  simp [buildSteps, hRuns]

namespace Engine

theorem deploySteps_ne_nil_iff {context : JobContext} {cluster space : String} {workloads : List Workload}
    {tasks : List Task} :
    deploySteps context cluster space workloads tasks ≠ [] ↔ ∃ task ∈ tasks, task.kind = .healthCheck := by
  simp [deploySteps]

theorem exists_healthCheck_tasksOf_iff {step : Step} :
    (∃ task ∈ tasksOf step Task.defaultDeploy, task.kind = .healthCheck) ↔
      step.tasks = [] ∨ ∃ task ∈ step.tasks, task.kind = .healthCheck := by
  unfold tasksOf
  cases step.tasks with
  | nil => simp [Task.defaultDeploy]
  | cons task rest => simp

variable {P : Plan → Prop} {engine : Engine} {project orderId stage : Int64} {past : List Exchange}
  {world : World}

def SubmitsOnly (P : Plan → Prop) (c : Call) : Prop :=
  ∀ server name plan, c = .errand (.submit server name plan) → P plan

theorem submitsOnly_of_submits {c : Call} (h : c.submits = false) : SubmitsOnly P c := by
  rintro server name plan rfl
  cases h

theorem obeys_launch_submitsOnly {found : Order} {server : CiServer} {draft : JobDraft}
    {planFor : Int64 → Plan} (plans : ∀ job, P (planFor job)) :
    (launch engine found server draft planFor).Obeys (fun c _ => SubmitsOnly P c) (fun _ _ => True)
      (fun _ _ => True) past := by
  apply obeys_launch
  · intro c past hSpares
    exact submitsOnly_of_submits (Call.submits_of_sparesJobs hSpares)
  · exact submitsOnly_of_submits rfl
  · rintro job between _ _ _ _ ⟨⟩
    exact plans job
  · intro id run between
    exact submitsOnly_of_submits rfl

theorem meets_build_submitsOnly (request : BuildRequest)
    (plans : ∀ building : Building, building.StoredIn world.store project orderId stage →
      ∀ job, P (building.plan engine project orderId stage request job)) :
    (build engine project orderId stage request).Meets (fun c _ _ => SubmitsOnly P c)
      (fun _ _ _ => True) (fun _ _ _ => True) past world := by
  apply (comesTo_build request).meets
  · intro c own _ hQuiet
    exact submitsOnly_of_submits (Call.submits_of_isQuiet hQuiet)
  · intro e own _
    trivial
  · rintro _ own - ⟨building, ⟨hStored, -⟩, rfl⟩
    exact Obeys.meets (obeys_launch_submitsOnly (plans building hStored)) world

theorem meets_deploy_submitsOnly (request : DeployRequest)
    (plans : ∀ deployment : Deployment, deployment.StoredIn world project orderId stage request →
      ∀ job, P (deployment.plan engine project orderId stage job)) :
    (deploy engine project orderId stage request).Meets (fun c _ _ => SubmitsOnly P c)
      (fun _ _ _ => True) (fun _ _ _ => True) past world := by
  apply (comesTo_deploy request).meets
  · intro c own _ hQuiet
    exact submitsOnly_of_submits (Call.submits_of_isQuiet hQuiet)
  · intro e own _
    trivial
  · rintro _ own - ⟨deployment, hStored, rfl⟩
    apply Obeys.meets
    apply obeys_errand_bind (submitsOnly_of_submits rfl)
    · intro _
      exact obeys_launch_submitsOnly (plans deployment hStored)
    · intro _
      trivial

theorem meets_build_of_not_runnable (engine : Engine) (past : List Exchange) (request : BuildRequest)
    (project : Int64) {found : Order} {step : Step}
    (asked : world.store.answer (.order orderId) = some found)
    (stands : StandsAt world.store found stage .build step) (declared : step.tasks ≠ [])
    (none : ∀ task ∈ step.tasks, task.kind.runsInBuild = false) :
    (build engine project orderId stage request).Meets (fun c _ _ => c.isQuiet = true)
      (fun _ _ _ => False) (fun _ _ here => here = world) past world := by
  apply (comesTo_build request).meets
  · intro c own _ hQuiet
    exact hQuiet
  · intro e own _
    rfl
  · -- whatever is still to do stands on a step with a task that runs, and the store knows only this step
    rintro _ own - ⟨building, ⟨hStored, -⟩, -⟩
    obtain rfl := Option.some.inj (hStored.order.symm.trans asked)
    obtain rfl := stands.unique hStored.step
    obtain ⟨task, hTask, hRuns⟩ := List.any_eq_true.mp hStored.runnable
    rw [Building.tasks, tasksOf, if_neg (by simpa using declared)] at hTask
    rw [none task hTask] at hRuns
    cases hRuns

end Engine

/-- A plan that is submitted has a step exactly if it is that of a build, or its step declares no tasks, or
it declares a health check. A build whose step declares only tasks that no build can run fails, and nothing
has been written, applied or submitted. -/
theorem JobRequest.steps_ne_nil_iff_of_submit {σ : Type} (engine : Engine) (request : JobRequest)
    (project order stage : Int64) (rule : Rule σ) (world : World) (state : σ) :
    let run := (request.create engine project order stage).run.run rule world state
    let Stands := fun step => ∃ found, world.store.answer (.order order) = some found ∧
      Engine.StandsAt world.store found stage (Engine.stepKindOf request.kind) step
    (∀ server name plan reply, ⟨.errand (.submit server name plan), reply⟩ ∈ run.exchanges →
      ∃ step, Stands step ∧ (plan.steps ≠ [] ↔ request.kind = .build ∨ step.tasks = [] ∨
        ∃ task ∈ step.tasks, task.kind = .healthCheck)) ∧
      ∀ step, request.kind = .build → Stands step → step.tasks ≠ [] →
        (∀ task ∈ step.tasks, task.kind.runsInBuild = false) →
        (∃ e, run.value = .error e) ∧ run.world = world ∧
          ∀ e ∈ run.exchanges, e.call.isQuiet = true := by
  intro run Stands
  constructor
  · intro server name plan reply hSubmit
    let P : Plan → Prop := fun plan => ∃ step, Stands step ∧ (plan.steps ≠ [] ↔
      request.kind = .build ∨ step.tasks = [] ∨ ∃ task ∈ step.tasks, task.kind = .healthCheck)
    have hMeets : (request.create engine project order stage).Meets (fun c _ _ => Engine.SubmitsOnly P c)
        (fun _ _ _ => True) (fun _ _ _ => True) [] world := by
      cases request with
      | build request =>
        apply Engine.meets_build_submitsOnly
        intro building hStored job
        refine ⟨building.step, ⟨building.order, hStored.order, hStored.step⟩, iff_of_true ?_ (.inl rfl)⟩
        simpa [Engine.Building.plan, Plan.ofSteps, buildSteps_ne_nil_iff] using hStored.runnable
      | deploy request =>
        apply Engine.meets_deploy_submitsOnly
        intro deployment hStored job
        refine ⟨deployment.step, ⟨deployment.order, hStored.order, hStored.step⟩, ?_⟩
        rw [← Engine.exists_healthCheck_tasksOf_iff]
        simp [Engine.Deployment.plan, Plan.ofSteps, Engine.deploySteps_ne_nil_iff, JobRequest.kind,
          Engine.Deployment.tasks]
    obtain ⟨_, _, hOnly⟩ := Program.Meets.allowed_of_mem_exchanges hMeets rule state _ hSubmit
    exact hOnly server name plan rfl
  · rintro step hBuild ⟨found, hFound, hStands⟩ hDeclared hNone
    cases request with
    | deploy request => cases hBuild
    | build request =>
      have hMeets := engine.meets_build_of_not_runnable [] request project hFound hStands hDeclared hNone
      have hEnds := Program.Meets.ends_run hMeets rule state
      change Operation.outcome _ _ run.value _ run.world at hEnds
      have hFails : (∃ e, run.value = .error e) ∧ run.world = world := by
        generalize run.value = value at hEnds
        cases value with
        | ok launch => exact hEnds.elim
        | error e => exact ⟨⟨e, rfl⟩, hEnds⟩
      refine ⟨hFails.1, hFails.2, fun e he => ?_⟩
      obtain ⟨_, _, hQuiet⟩ := Program.Meets.allowed_of_mem_exchanges hMeets rule state e he
      exact hQuiet

def declaring (kind : StepKind) (tasks : List Task) : World :=
  { Engine.contested with store := { Engine.contested.store with
      jobs := []
      snapshots := [⟨1, [⟨3, "production", [⟨1, 1, "release", kind, tasks⟩]⟩]⟩] } }

/-- The step declares a checkout and nothing else. The manifest is applied, the job is stored, and the plan
that is submitted for it has no steps. -/
theorem Engine.submitted_without_steps :
    let world := declaring .deploy [⟨1, "checkout", .checkout, .null⟩]
    let run := ((Engine.ofServer "http://conveyor.local").deploy 1 5 3 ⟨"alice", [⟨12⟩]⟩).run.run
      Rule.undisturbed world ()
    run.value = .ok ⟨100, "conveyor_1_3"⟩ ∧ (run.exchanges.any fun e => e.call.applies) = true ∧
      (run.exchanges.filterMap fun e => e.call.plan?).map Plan.steps = [[]] := by
  decide +kernel

theorem JobRequest.steps_ne_nil_iff_of_submit_in_sample :
    let engine := Engine.ofServer "http://conveyor.local"
    let checkout : Task := ⟨1, "checkout", .checkout, .null⟩
    let approval : Task := ⟨1, "approval", .manual, .null⟩
    let deploy := (engine.deploy 1 5 3 ⟨"alice", [⟨12⟩]⟩).run.run Rule.undisturbed
      (declaring .deploy [checkout]) ()
    let build := (engine.build 1 5 3 ⟨"alice", [⟨12, "dev", "", none⟩], []⟩).run.run Rule.undisturbed
      (declaring .build [approval]) ()
    (∃ server name plan reply, ⟨.errand (.submit server name plan), reply⟩ ∈ deploy.exchanges ∧
      plan.steps = []) ∧ (∃ e, build.value = .error e) ∧ ∀ e ∈ build.exchanges, e.call.isQuiet = true := by
  intro engine checkout approval deploy build
  have hStands : ∀ kind tasks, Engine.StandsAt (declaring kind tasks).store
      ⟨5, 1, "v1.2.0", "spring release", 3, 1, "deploy", "deploy", .running, "alice", 1⟩ 3 kind
      ⟨1, 1, "release", kind, tasks⟩ := fun kind tasks => ⟨_, _, rfl, rfl, rfl, rfl⟩
  constructor
  · have hSubmits : (deploy.exchanges.any fun e => e.call.submits) = true := by decide +kernel
    obtain ⟨⟨c, reply⟩, hMem, hCall⟩ := List.any_eq_true.mp hSubmits
    obtain ⟨server, name, plan, rfl⟩ := Call.exists_of_submits hCall
    obtain ⟨step, ⟨found, hFound, hStep⟩, hSteps⟩ := (steps_ne_nil_iff_of_submit engine
      (.deploy ⟨"alice", [⟨12⟩]⟩) 1 5 3 Rule.undisturbed (declaring .deploy [checkout]) ()).1
      server name plan reply hMem
    obtain rfl := Option.some.inj (hFound.symm.trans rfl)
    obtain rfl := (hStands .deploy [checkout]).unique hStep
    refine ⟨server, name, plan, reply, hMem, ?_⟩
    by_contra hNonempty
    have hDeclared := hSteps.mp hNonempty
    simp [JobRequest.kind, checkout] at hDeclared
  · have hFails := (steps_ne_nil_iff_of_submit engine
      (.build ⟨"alice", [⟨12, "dev", "", none⟩], []⟩) 1 5 3 Rule.undisturbed
      (declaring .build [approval]) ()).2
    obtain ⟨hError, -, hQuiet⟩ := hFails _ rfl ⟨_, rfl, hStands .build [approval]⟩
      (List.cons_ne_nil _ _) (by simp [approval, TaskKind.runsInBuild])
    exact ⟨hError, hQuiet⟩

end DeliveryPipeline

import DeliveryPipeline.Proofs.Engine.Origin
import DeliveryPipeline.Proofs.Engine.Runnable

/-! # What plans are made of

The plan of a request follows the tasks that the step of its order declares, and leaves out what its kind of
job cannot run. Its containers are the agent, for a build also the image builder, and one for each app that
is compiled; so every command runs in a container of the plan.
-/

namespace DeliveryPipeline

set_option autoImplicit false

open Operation

namespace TaskKind

def runsIn (kind : TaskKind) : JobKind → Bool
  | .build => kind.runsInBuild
  | .deploy => kind = .healthCheck

end TaskKind

def JobKind.defaultTasks : JobKind → List Task
  | .build => Task.defaultBuild
  | .deploy => Task.defaultDeploy

namespace Plan

/-- One step for each declared task that the job can run, in order and under the task's name. -/
def Follows (plan : Plan) (kind : JobKind) (step : Step) : Prop :=
  plan.steps.map (fun rendered => (rendered.name, rendered.kind)) =
    ((Engine.tasksOf step kind.defaultTasks).filter fun task => task.kind.runsIn kind).map
      fun task => (task.name, task.kind)

/-- Every command runs in a container of the plan. -/
def IsClosed (plan : Plan) : Prop :=
  ∀ step ∈ plan.steps, ∀ command ∈ step.commands,
    ∃ template ∈ plan.containers, template.name = command.container

/-- One command for each app in each step, in order; where images are built, for each app with an image. -/
structure Covers (plan : Plan) (apps : List AppBuild) : Prop where
  checkout : ∀ step ∈ plan.steps, step.kind = .checkout → step.commands.map (·.name) = apps.map (·.name)
  compile : ∀ step ∈ plan.steps, step.kind = .compile → step.commands.map (·.name) = apps.map (·.name)
  buildImage : ∀ step ∈ plan.steps, step.kind = .buildImage →
    step.commands.map (·.name) = (apps.filter fun app => app.image.isSome).map (·.name)

end Plan

theorem buildSteps_eq_map (context : JobContext) (apps : List AppBuild) (tasks : List Task) :
    (buildSteps context apps tasks).map (fun rendered => (rendered.name, rendered.kind)) =
      (tasks.filter fun task => task.kind.runsInBuild).map fun task => (task.name, task.kind) := by
  induction tasks with
  | nil => rfl
  | cons task rest ih =>
    have hRuns : (task.buildCommands? context apps).isSome = true ↔ task.kind.runsInBuild = true :=
      Task.buildCommands?_isSome_iff
    rw [buildSteps] at ih ⊢
    cases hCommands : task.buildCommands? context apps with
    | none =>
      have hIdle : task.kind.runsInBuild = false := by
        simpa [hCommands] using hRuns
      simpa [hCommands, hIdle] using ih
    | some commands =>
      have hRun : task.kind.runsInBuild = true := hRuns.mp (by rw [hCommands]; rfl)
      simpa [hCommands, hRun] using ih

theorem exists_task_of_mem_buildSteps {context : JobContext} {apps : List AppBuild} {tasks : List Task}
    {step : RenderedStep} (h : step ∈ buildSteps context apps tasks) :
    ∃ task : Task, task.kind = step.kind ∧ task.buildCommands? context apps = some step.commands := by
  obtain ⟨task, -, hStep⟩ := List.mem_filterMap.mp h
  obtain ⟨commands, hCommands, rfl⟩ := Option.map_eq_some_iff.mp hStep
  exact ⟨task, rfl, hCommands⟩

namespace AppBuild

@[simp]
theorem name_checkoutCommand (context : JobContext) (app : AppBuild) :
    (app.checkoutCommand context).name = app.name :=
  rfl

@[simp]
theorem name_compileCommand (app : AppBuild) : app.compileCommand.name = app.name := by
  unfold compileCommand
  split <;> rfl

theorem map_name_imageCommands (apps : List AppBuild) :
    (apps.filterMap imageCommand?).map (·.name) =
      (apps.filter fun app => app.image.isSome).map (·.name) := by
  induction apps with
  | nil => rfl
  | cons app rest ih => cases hImage : app.image <;> simp [imageCommand?, hImage, ih]

/-- An app is compiled only in an environment. -/
def IsCoherent (app : AppBuild) : Prop := app.compile ≠ .skip → app.environment.isSome = true

theorem container_compileCommand (app : AppBuild) :
    app.compileCommand.container = if app.compile = .skip then agentContainer else app.container := by
  unfold compileCommand
  split <;> simp_all

end AppBuild

theorem Engine.compileMode_eq_skip_iff {environment : Option CompileEnvironment} {command : Option String} :
    compileMode environment command = .skip ↔ environment = none := by
  unfold compileMode
  split <;> simp

theorem buildSteps_covers {context : JobContext} {apps : List AppBuild} {tasks : List Task} {plan : Plan}
    (steps : plan.steps = buildSteps context apps tasks) : plan.Covers apps := by
  have hCommands : ∀ step ∈ plan.steps, ∀ kind, step.kind = kind →
      ∃ task : Task, task.kind = kind ∧ task.buildCommands? context apps = some step.commands := by
    rintro step hStep _ rfl
    rw [steps] at hStep
    exact exists_task_of_mem_buildSteps hStep
  constructor
  · intro step hStep hKind
    obtain ⟨task, hTask, hSome⟩ := hCommands step hStep _ hKind
    simp only [Task.buildCommands?, hTask, Option.some.injEq] at hSome
    simp [← hSome]
  · intro step hStep hKind
    obtain ⟨task, hTask, hSome⟩ := hCommands step hStep _ hKind
    simp only [Task.buildCommands?, hTask, Option.some.injEq] at hSome
    simp [← hSome]
  · intro step hStep hKind
    obtain ⟨task, hTask, hSome⟩ := hCommands step hStep _ hKind
    simp only [Task.buildCommands?, hTask, Option.some.injEq] at hSome
    rw [← hSome, AppBuild.map_name_imageCommands]

theorem container_of_mem_buildSteps {context : JobContext} {apps : List AppBuild} {tasks : List Task}
    (coherent : ∀ app ∈ apps, app.IsCoherent) {step : RenderedStep} {command : StepCommand}
    (h : step ∈ buildSteps context apps tasks) (hCommand : command ∈ step.commands) :
    command.container = agentContainer ∨ command.container = imageBuilderContainer ∨
      ∃ app ∈ apps, app.environment.isSome = true ∧ command.container = app.container := by
  obtain ⟨task, -, hSome⟩ := exists_task_of_mem_buildSteps h
  unfold Task.buildCommands? at hSome
  split at hSome
  · rw [← Option.some.inj hSome] at hCommand
    obtain ⟨app, -, rfl⟩ := List.mem_map.mp hCommand
    exact .inl rfl
  · rw [← Option.some.inj hSome] at hCommand
    obtain ⟨app, hApp, rfl⟩ := List.mem_map.mp hCommand
    rw [app.container_compileCommand]
    split
    · exact .inl rfl
    · rename_i hMode
      exact .inr (.inr ⟨app, hApp, coherent app hApp hMode, rfl⟩)
  · rw [← Option.some.inj hSome] at hCommand
    obtain ⟨app, -, hImage⟩ := List.mem_filterMap.mp hCommand
    obtain ⟨image, -, rfl⟩ := Option.map_eq_some_iff.mp hImage
    exact .inr (.inl rfl)
  · cases hSome

theorem exists_compileContainer (workingDir : String) {apps : List AppBuild} {app : AppBuild}
    (h : app ∈ apps) (environment : app.environment.isSome = true) :
    ∃ template ∈ compileContainers workingDir apps, template.name = app.container := by
  obtain ⟨found, hFound⟩ := Option.isSome_iff_exists.mp environment
  refine ⟨.ofEnvironment app.container found workingDir, List.mem_filterMap.mpr ⟨app, h, ?_⟩, rfl⟩
  rw [AppBuild.containerTemplate?, hFound]
  rfl

namespace Engine

variable {engine : Engine} {project orderId stage : Int64} {world : World} {request : BuildRequest}

theorem Gathers.isCoherent {environment : Int64} {requested : BuildApp} {app : App} {build : AppBuild}
    (h : Gathers world project environment requested app build) : build.IsCoherent := by
  intro hMode
  by_contra hNone
  rw [Bool.not_eq_true, Option.isSome_eq_false_iff, Option.isNone_iff_eq_none] at hNone
  exact hMode (h.mode.trans (compileMode_eq_skip_iff.mpr hNone))

namespace Building

theorem StoredIn.environment_id {building : Building} {store : Store}
    (h : building.StoredIn store project orderId stage) : building.environment.id = stage := by
  have hFound := List.find?_some h.environment
  simp only [Bool.and_eq_true, decide_eq_true_eq] at hFound
  exact hFound.1

def apps (building : Building) : List AppBuild := building.gathered.map (·.1)

theorem Serves.forall₂_apps {building : Building} {requested : List BuildApp}
    (h : building.Serves world project requested) :
    List.Forall₂ (fun request build =>
      ∃ app, Gathers world project building.environment.id request app build) requested building.apps :=
  List.forall₂_map_right_iff.mpr (h.imp fun _ _ ⟨app, _, hGathers, _⟩ => ⟨app, hGathers⟩)

theorem Serves.isCoherent {building : Building} {requested : List BuildApp}
    (h : building.Serves world project requested) : ∀ app ∈ building.apps, app.IsCoherent := by
  intro build hBuild
  obtain ⟨_, -, app, hGathers⟩ := exists_of_forall₂_of_mem h.forall₂_apps hBuild
  exact hGathers.isCoherent

theorem follows_plan (building : Building) (job : Int64) :
    (building.plan engine project orderId stage request job).Follows .build building.step :=
  buildSteps_eq_map _ _ _

theorem covers_plan (building : Building) (job : Int64) :
    (building.plan engine project orderId stage request job).Covers building.apps :=
  buildSteps_covers rfl

theorem isClosed_plan {building : Building} {requested : List BuildApp}
    (stored : building.StoredIn world.store project orderId stage)
    (serves : building.Serves world project requested) (job : Int64) :
    (building.plan engine project orderId stage request job).IsClosed := by
  intro step hStep command hCommand
  rcases container_of_mem_buildSteps serves.isCoherent hStep hCommand with hAgent | hBuilder |
    ⟨app, hApp, hEnvironment, hContainer⟩
  · exact ⟨building.agent, by simp [plan, Plan.ofSteps], stored.agent.trans hAgent.symm⟩
  · exact ⟨building.imageBuilder, by simp [plan, Plan.ofSteps], stored.imageBuilder.trans hBuilder.symm⟩
  · obtain ⟨template, hTemplate, hName⟩ := exists_compileContainer engine.workingDir hApp hEnvironment
    exact ⟨template, List.mem_append_right _ hTemplate, hName.trans hContainer.symm⟩

end Building

namespace Deployment

theorem follows_plan (deployment : Deployment) (job : Int64) :
    (deployment.plan engine project orderId stage job).Follows .deploy deployment.step :=
  List.map_map

theorem isClosed_plan {deployment : Deployment} (agent : deployment.agent.name = agentContainer)
    (job : Int64) : (deployment.plan engine project orderId stage job).IsClosed := by
  intro step hStep command hCommand
  obtain ⟨task, -, rfl⟩ := List.mem_map.mp hStep
  obtain ⟨workload, -, rfl⟩ := List.mem_map.mp hCommand
  exact ⟨deployment.agent, List.mem_singleton.mpr rfl, agent⟩

end Deployment

end Engine

/-- The plans that a request may hand over in a world, and the drafts of the jobs that they are for. -/
inductive JobRequest.Plans (engine : Engine) (world : World) (project order stage : Int64) :
    JobRequest → JobDraft → Plan → Prop
  | build {request : BuildRequest} {building : Engine.Building} (job : Int64)
    (stored : building.StoredIn world.store project order stage)
    (serves : building.Serves world project request.apps) :
    Plans engine world project order stage (.build request) (building.draft project order stage request)
      (building.plan engine project order stage request job)
  | deploy {request : DeployRequest} {deployment : Engine.Deployment} (job : Int64)
    (stored : deployment.StoredIn world project order stage request) :
    Plans engine world project order stage (.deploy request) (deployment.draft project order stage request)
      (deployment.plan engine project order stage job)

def SubmitsAsPlanned (planned : JobDraft → Plan → Prop) (c : Call) : Knowledge := fun past =>
  ∀ server name plan, c = .errand (.submit server name plan) →
    ∃ draft id, ⟨.update (.insertJob draft), .ok (.created id)⟩ ∈ past ∧ planned draft plan

theorem submitsAsPlanned_of_submits {planned : JobDraft → Plan → Prop} {c : Call} (h : c.submits = false)
    (past : List Exchange) : SubmitsAsPlanned planned c past := by
  rintro server name plan rfl
  cases h

theorem Engine.obeys_launch_asPlanned {engine : Engine} {planned : JobDraft → Plan → Prop} {found : Order}
    {server : CiServer} {draft : JobDraft} {planFor : Int64 → Plan} {past : List Exchange}
    (plans : ∀ job, planned draft (planFor job)) :
    (launch engine found server draft planFor).Obeys (SubmitsAsPlanned planned) (fun _ _ => True)
      (fun _ _ => True) past := by
  refine obeys_launch (fun c past hSpares => submitsAsPlanned_of_submits (Call.submits_of_sparesJobs hSpares)
    past) (submitsAsPlanned_of_submits rfl _) ?_ fun _ _ _ => submitsAsPlanned_of_submits rfl _
  rintro job between _ _ _ _ ⟨⟩
  exact ⟨draft, job, List.mem_append_right _ List.mem_cons_self, plans job⟩

theorem JobRequest.meets_asPlanned (engine : Engine) (request : JobRequest) (project order stage : Int64)
    (past : List Exchange) (world : World) :
    (request.create engine project order stage).Meets
      (fun c past _ => SubmitsAsPlanned (request.Plans engine world project order stage) c past)
      (fun _ _ _ => True) (fun _ _ _ => True) past world := by
  have hQuiet : ∀ {planned : JobDraft → Plan → Prop} (c : Call) past, c.isQuiet = true →
      SubmitsAsPlanned planned c past := fun c past hQuiet => submitsAsPlanned_of_submits
    (Call.submits_of_isQuiet hQuiet) past
  cases request with
  | build request =>
    apply (Engine.comesTo_build request).meets
    · intro c own _ hCall
      exact hQuiet c _ hCall
    · intro e own _
      trivial
    · rintro _ own - ⟨building, ⟨hStored, hServes⟩, rfl⟩
      exact Obeys.meets (Engine.obeys_launch_asPlanned fun job => .build job hStored hServes) world
  | deploy request =>
    apply (Engine.comesTo_deploy request).meets
    · intro c own _ hCall
      exact hQuiet c _ hCall
    · intro e own _
      trivial
    · rintro _ own - ⟨deployment, hStored, rfl⟩
      apply Obeys.meets
      apply obeys_errand_bind (submitsAsPlanned_of_submits rfl _)
      · intro _
        exact Engine.obeys_launch_asPlanned fun job => .deploy job hStored
      · intro _
        trivial

/-- Every plan that a command hands over is that of a request which the command makes, and the job it is for
has been stored in the same run. -/
theorem Api.Command.exists_plans_of_submit {σ : Type} {engine : Engine} {command : Api.Command}
    {rule : Rule σ} {world : World} {state : σ} {server : CiServer} {name : String} {plan : Plan}
    {reply : Except ErrandError Int64}
    (submitted : ⟨.errand (.submit server name plan), reply⟩ ∈
      ((command.operation engine).run.run rule world state).exchanges) :
    ∃ here request project order stage draft id,
      command.Asks world here request project order stage ∧
      ⟨.update (.insertJob draft), .ok (.created id)⟩ ∈
        ((command.operation engine).run.run rule world state).exchanges ∧
      request.Plans engine here project order stage draft plan := by
  let allowed : Call → Assertion := fun c past _ => ∀ server name plan,
    c = .errand (.submit server name plan) → ∃ here request project order stage draft id,
      command.Asks world here request project order stage ∧
      ⟨.update (.insertJob draft), .ok (.created id)⟩ ∈ past ∧
      request.Plans engine here project order stage draft plan
  have hMeets : (command.operation engine).run.Meets allowed (fun _ _ _ => True) [] world := by
    apply Api.Command.meets_of_asks
    · rintro c past here hSilent server name plan rfl
      cases hSilent
    · intro request project order stage past here hAsks
      refine (request.meets_asPlanned engine project order stage past here).relax ?_
      intro c past _ hPlanned server name plan hSubmits
      obtain ⟨draft, id, hStored, hPlans⟩ := hPlanned server name plan hSubmits
      exact ⟨here, request, project, order, stage, draft, id, hAsks, hStored, hPlans⟩
  obtain ⟨own, _, hOwn, hAllowed⟩ := hMeets.allowed_after rule state _ submitted
  obtain ⟨here, request, project, order, stage, draft, id, hAsks, hStored, hPlans⟩ := hAllowed _ _ _ rfl
  exact ⟨here, request, project, order, stage, draft, id, hAsks, hOwn hStored, hPlans⟩

theorem JobRequest.Plans.follows_and_isClosed {engine : Engine} {world : World} {request : JobRequest}
    {project order stage : Int64} {draft : JobDraft} {plan : Plan}
    (h : request.Plans engine world project order stage draft plan) :
    ∃ found step, world.store.answer (.order order) = some found ∧
      Engine.StandsAt world.store found stage (Engine.stepKindOf request.kind) step ∧
      plan.Follows request.kind step ∧ plan.IsClosed := by
  cases h with
  | @build request building job stored serves =>
    exact ⟨building.order, building.step, stored.order, stored.step, building.follows_plan job,
      Engine.Building.isClosed_plan stored serves job⟩
  | @deploy request deployment job stored =>
    exact ⟨deployment.order, deployment.step, stored.order, stored.step, deployment.follows_plan job,
      Engine.Deployment.isClosed_plan stored.agent job⟩

/-- The plan that a completion hands over follows the step that comes next after the completed one, and is
for the kind of job which that step runs. -/
theorem Api.Command.follows_next_of_submit {σ : Type} {engine : Engine} {command : Api.Command}
    {rule : Rule σ} {world : World} {state : σ} {server : CiServer} {name : String} {plan : Plan}
    {reply : Except ErrandError Int64} (completes : command.completes = true)
    (submitted : ⟨.errand (.submit server name plan), reply⟩ ∈
      ((command.operation engine).run.run rule world state).exchanges) :
    ∃ order snapshot stage next kind, Completing command world.store order snapshot stage ∧
      stage.isLastIndex order.stepIndex = false ∧
      (stage.nextIndex? order.stepIndex).bind stage.step? = some next ∧
      Engine.jobKindOf? next.kind = some kind ∧ plan.Follows kind next ∧ plan.IsClosed := by
  obtain ⟨here, request, project, id, stageId, draft, _, hAsks, -, hPlans⟩ :=
    exists_plans_of_submit submitted
  obtain ⟨found, step, hFound, hStands, hFollows, hClosed⟩ := hPlans.follows_and_isClosed
  cases hAsks with
  | build | deploy => cases completes
  | @completion _ order snapshot stage next kind creator departed completing departs inside leads runs =>
    obtain ⟨hMoved, hNext⟩ := Engine.StandsAt.of_completing completing departs leads
    rw [Option.some.inj (hFound.symm.trans hMoved)] at hStands
    rw [hNext.unique hStands, JobRequest.kind_ofApps] at hFollows
    exact ⟨order, snapshot, stage, next, kind, completing, inside, leads, runs, hFollows, hClosed⟩

/-- Every plan follows the step at which the order stands when it is asked for, and all its commands run in
containers of its own. The plan of a build has a command for each requested app, and builds the images of
those that are stored with one. -/
theorem Api.Command.follows_and_isClosed_of_submit {σ : Type} (engine : Engine) (command : Api.Command)
    (rule : Rule σ) (world : World) (state : σ) :
    let run := (command.operation engine).run.run rule world state
    ∀ server name plan reply, ⟨.errand (.submit server name plan), reply⟩ ∈ run.exchanges →
      ∃ here request project order stage found step,
        command.Asks world here request project order stage ∧
        here.store.answer (.order order) = some found ∧
        Engine.StandsAt here.store found stage (Engine.stepKindOf request.kind) step ∧
        plan.Follows request.kind step ∧ plan.IsClosed ∧
        ∀ build, request = .build build → ∃ apps draft id,
          ⟨.update (.insertJob draft), .ok (.created id)⟩ ∈ run.exchanges ∧
          draft.apps = apps.map AppBuild.record ∧
          List.Forall₂ (fun requested app =>
            ∃ stored, Engine.Gathers here project stage requested stored app) build.apps apps ∧
          plan.Covers apps := by
  intro run server name plan reply hSubmit
  obtain ⟨here, request, project, order, stage, draft, id, hAsks, hStored, hPlans⟩ :=
    exists_plans_of_submit hSubmit
  obtain ⟨found, step, hFound, hStands, hFollows, hClosed⟩ := hPlans.follows_and_isClosed
  refine ⟨here, request, project, order, stage, found, step, hAsks, hFound, hStands, hFollows, hClosed, ?_⟩
  rintro build rfl
  cases hPlans with
  | @build _ building job stored serves =>
    refine ⟨building.apps, _, id, hStored, rfl, ?_, building.covers_plan job⟩
    rw [← stored.environment_id]
    exact serves.forall₂_apps

def workshop (first second : String) : World where
  store :=
    { Interleaving.sampleStore with
      apps := [⟨12, 1, first, "team/first", "node", 1, "/", some 7⟩,
        ⟨13, 1, second, "team/second", "go", 1, "/", some 8⟩]
      compileEnvironments := Interleaving.sampleStore.compileEnvironments ++
        [⟨7, "node", "node:20", "", ""⟩, ⟨8, "golang", "golang:1.22", "", ""⟩] }
  histories := []
  nextRun := 100

theorem Api.Command.follows_and_isClosed_of_submit_in_workshop :
    let engine := Engine.ofServer "http://conveyor.local"
    let request : BuildRequest := ⟨"alice", [⟨12, "dev", "", some "npm ci"⟩, ⟨13, "dev", "", none⟩], []⟩
    let run := ((Api.Command.build 1 5 3 request).operation engine).run.run Rule.undisturbed
      (workshop "web" "api") ()
    ∃ server name plan reply, ⟨.errand (.submit server name plan), reply⟩ ∈ run.exchanges ∧
      plan.IsClosed ∧ plan.steps.map (fun rendered => (rendered.name, rendered.kind)) =
        Task.defaultBuild.map fun task => (task.name, task.kind) := by
  intro engine request run
  have hSubmits : (run.exchanges.any fun e => e.call.submits) = true := by decide +kernel
  obtain ⟨⟨c, reply⟩, hMem, hCall⟩ := List.any_eq_true.mp hSubmits
  obtain ⟨server, name, plan, rfl⟩ := Call.exists_of_submits hCall
  obtain ⟨here, asked, project, order, stage, found, step, hAsks, hFound, hStands, hFollows, hClosed, -⟩ :=
    follows_and_isClosed_of_submit engine (.build 1 5 3 request) Rule.undisturbed (workshop "web" "api") ()
      server name plan reply hMem
  refine ⟨server, name, plan, reply, hMem, hClosed, ?_⟩
  cases hAsks with
  | completion completing => cases completing.completes
  | build =>
    obtain rfl := Option.some.inj (hFound.symm.trans rfl)
    have hDeclared : Engine.StandsAt (workshop "web" "api").store
        ⟨5, 1, "v1.2.0", "spring release", 3, 1, "build", "build", .running, "alice", 1⟩ 3 .build
        ⟨1, 1, "build", .build, []⟩ := ⟨_, _, rfl, rfl, rfl, rfl⟩
    obtain rfl := hDeclared.unique hStands
    exact hFollows

end DeliveryPipeline

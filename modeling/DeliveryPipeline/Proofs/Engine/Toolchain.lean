import DeliveryPipeline.Proofs.Engine.Planning

/-! # Which toolchain an app is compiled with

An app with a compile environment is compiled in a container named after it, in lower case. The containers
of a plan are put together from all apps and from the system's own, and nothing keeps two of them from having
one name. The name means the app's own environment exactly as long as nothing else has it.
-/

namespace DeliveryPipeline

set_option autoImplicit false

namespace AppBuild

/-- No container of the system is named like that of the app, and none of the other apps. -/
structure NamedAlone (app : AppBuild) (others : List AppBuild) : Prop where
  agent : app.container ≠ agentContainer
  imageBuilder : app.container ≠ imageBuilderContainer
  others : ∀ other ∈ others, other.environment.isSome = true → other.container ≠ app.container

theorem container_compileCommand_of_environment {app : AppBuild} {environment : CompileEnvironment}
    (compiled : app.environment = some environment) (mode : app.compile = .skip ↔ app.environment = none) :
    app.compileCommand.container = app.container := by
  rw [container_compileCommand, if_neg]
  rw [mode, compiled]
  simp

end AppBuild

/-- The container in which an app is compiled is declared once, with the image of the app's environment. -/
def Plan.CompilesApart (plan : Plan) (app : AppBuild) (environment : CompileEnvironment) : Prop :=
  ∃ template, (plan.containers.filter fun container => container.name = app.compileCommand.container) =
    [template] ∧ template.image = environment.image

theorem filter_compileContainers_eq_nil_iff {workingDir name : String} {apps : List AppBuild} :
    ((compileContainers workingDir apps).filter fun container => container.name = name) = [] ↔
      ∀ app ∈ apps, app.environment.isSome = true → app.container ≠ name := by
  rw [List.filter_eq_nil_iff]
  constructor
  · intro hNone app hApp hEnvironment hName
    obtain ⟨template, hTemplate, hContainer⟩ := exists_compileContainer workingDir hApp hEnvironment
    exact hNone template hTemplate (by simp [hContainer, hName])
  · intro hOther template hTemplate
    obtain ⟨app, hApp, hSome⟩ := List.mem_filterMap.mp hTemplate
    obtain ⟨environment, hEnvironment, rfl⟩ := Option.map_eq_some_iff.mp hSome
    have hName := hOther app hApp (by rw [hEnvironment]; rfl)
    exact fun hSame => hName (of_decide_eq_true hSame)

theorem filter_containers_eq_singleton_iff {workingDir : String} {agent imageBuilder : ContainerTemplate}
    {before after : List AppBuild} {app : AppBuild} {environment : CompileEnvironment}
    (agentName : agent.name = agentContainer) (builderName : imageBuilder.name = imageBuilderContainer)
    (compiled : app.environment = some environment) {template : ContainerTemplate} :
    (([agent, imageBuilder] ++ compileContainers workingDir (before ++ app :: after)).filter
        fun container => container.name = app.container) = [template] ↔
      app.NamedAlone (before ++ after) ∧
        template = .ofEnvironment app.container environment workingDir := by
  have hOwn : compileContainers workingDir (before ++ app :: after) =
      compileContainers workingDir before ++
        (.ofEnvironment app.container environment workingDir :: compileContainers workingDir after) := by
    have hTemplate : app.containerTemplate? workingDir =
        some (.ofEnvironment app.container environment workingDir) := by
      rw [AppBuild.containerTemplate?, compiled]
      rfl
    rw [compileContainers, List.filterMap_append, List.filterMap_cons_some hTemplate]
    rfl
  let named : ContainerTemplate → Bool := fun container => container.name = app.container
  have hNamed : named (.ofEnvironment app.container environment workingDir) = true := decide_eq_true rfl
  have hSystem : [agent, imageBuilder].filter named = [] ↔
      app.container ≠ agentContainer ∧ app.container ≠ imageBuilderContainer := by
    simp [List.filter_eq_nil_iff, named, agentName, builderName, @eq_comm _ agentContainer,
      @eq_comm _ imageBuilderContainer]
  rw [hOwn, ← List.append_assoc, List.filter_append, List.filter_append, List.filter_cons_of_pos hNamed,
    List.append_eq_singleton_iff, List.append_eq_nil_iff, hSystem, filter_compileContainers_eq_nil_iff]
  constructor
  · rintro (⟨⟨⟨hAgent, hBuilder⟩, hBefore⟩, hRest⟩ | ⟨-, hNone⟩)
    · obtain ⟨hSame, hAfter⟩ := List.cons.inj hRest
      rw [filter_compileContainers_eq_nil_iff] at hAfter
      exact ⟨⟨hAgent, hBuilder, List.forall_mem_append.mpr ⟨hBefore, hAfter⟩⟩, hSame.symm⟩
    · cases hNone
  · rintro ⟨⟨hAgent, hBuilder, hOthers⟩, rfl⟩
    obtain ⟨hBefore, hAfter⟩ := List.forall_mem_append.mp hOthers
    refine .inl ⟨⟨⟨hAgent, hBuilder⟩, hBefore⟩, ?_⟩
    rw [filter_compileContainers_eq_nil_iff.mpr hAfter]

namespace Engine

variable {engine : Engine} {project orderId stage : Int64} {world : World} {request : BuildRequest}

theorem Gathers.skips_iff {environment : Int64} {requested : BuildApp} {app : App} {build : AppBuild}
    (h : Gathers world project environment requested app build) :
    build.compile = .skip ↔ build.environment = none := by
  rw [h.mode, compileMode_eq_skip_iff]

theorem Building.compilesApart_iff {building : Building}
    (stored : building.StoredIn world.store project orderId stage)
    (serves : building.Serves world project request.apps) (job : Int64) {before after : List AppBuild}
    {app : AppBuild} {environment : CompileEnvironment} (split : building.apps = before ++ app :: after)
    (compiled : app.environment = some environment) :
    (building.plan engine project orderId stage request job).CompilesApart app environment ↔
      app.NamedAlone (before ++ after) := by
  have hApp : app ∈ building.apps := by simp [split]
  obtain ⟨_, -, _, hGathers⟩ := exists_of_forall₂_of_mem serves.forall₂_apps hApp
  have hContainers : (building.plan engine project orderId stage request job).containers =
      [building.agent, building.imageBuilder] ++
        compileContainers engine.workingDir (before ++ app :: after) := by
    rw [← split]
    rfl
  rw [Plan.CompilesApart, AppBuild.container_compileCommand_of_environment compiled hGathers.skips_iff,
    hContainers]
  simp only [filter_containers_eq_singleton_iff stored.agent stored.imageBuilder compiled]
  constructor
  · rintro ⟨_, ⟨hAlone, -⟩, -⟩
    exact hAlone
  · intro hAlone
    exact ⟨_, ⟨hAlone, rfl⟩, rfl⟩

theorem Building.compile_commands (building : Building) (job : Int64) {step : RenderedStep}
    (h : step ∈ (building.plan engine project orderId stage request job).steps)
    (kind : step.kind = .compile) : step.commands = building.apps.map AppBuild.compileCommand := by
  obtain ⟨task, hTask, hCommands⟩ := exists_task_of_mem_buildSteps h
  simp only [Task.buildCommands?, hTask, kind, Option.some.injEq] at hCommands
  exact hCommands.symm

end Engine

/-- In every plan of a build, an app with a compile environment is compiled in a container that is declared
once and has the image of that environment, exactly if no container of the system is named like the app and
no other app that is compiled. -/
theorem Api.Command.compilesApart_iff_of_submit {σ : Type} (engine : Engine) (command : Api.Command)
    (rule : Rule σ) (world : World) (state : σ) :
    let run := (command.operation engine).run.run rule world state
    ∀ server name plan reply, ⟨.errand (.submit server name plan), reply⟩ ∈ run.exchanges →
      ∃ here request project order stage,
        command.Asks world here request project order stage ∧
        ∀ build, request = .build build → ∃ apps draft id,
          ⟨.update (.insertJob draft), .ok (.created id)⟩ ∈ run.exchanges ∧
          draft.apps = apps.map AppBuild.record ∧
          List.Forall₂ (fun requested app =>
            ∃ stored, Engine.Gathers here project stage requested stored app) build.apps apps ∧
          (∀ step ∈ plan.steps, step.kind = .compile → step.commands = apps.map AppBuild.compileCommand) ∧
          ∀ before app after environment, apps = before ++ app :: after →
            app.environment = some environment →
            (plan.CompilesApart app environment ↔ app.NamedAlone (before ++ after)) := by
  intro run server name plan reply hSubmit
  obtain ⟨here, request, project, order, stage, draft, id, hAsks, hStored, hPlans⟩ :=
    exists_plans_of_submit hSubmit
  refine ⟨here, request, project, order, stage, hAsks, ?_⟩
  rintro build rfl
  cases hPlans with
  | @build _ building job stored serves =>
    refine ⟨building.apps, _, id, hStored, rfl, ?_, fun step => building.compile_commands job, ?_⟩
    · rw [← stored.environment_id]
      exact serves.forall₂_apps
    · intro before app after environment hSplit hCompiled
      exact Engine.Building.compilesApart_iff stored serves job hSplit hCompiled

theorem AppBuild.exists_environment_of_container {app : AppBuild} {name : String}
    (mode : app.compile = .skip ↔ app.environment = none) (container : app.compileCommand.container = name)
    (other : name ≠ agentContainer) : ∃ environment, app.environment = some environment := by
  apply Option.ne_none_iff_exists'.mp
  intro hNone
  rw [container_compileCommand, if_pos (mode.mpr hNone)] at container
  exact other container.symm

theorem Api.Command.compilesApart_iff_of_submit_in_workshop :
    let engine := Engine.ofServer "http://conveyor.local"
    let request : BuildRequest := ⟨"alice", [⟨12, "dev", "", some "npm ci"⟩, ⟨13, "dev", "", none⟩], []⟩
    let run := ((Api.Command.build 1 5 3 request).operation engine).run.run Rule.undisturbed
      (workshop "Web" "api") ()
    ∃ server name plan reply, ⟨.errand (.submit server name plan), reply⟩ ∈ run.exchanges ∧
      ∃ web api, web.name = "Web" ∧ api.name = "api" ∧
        (∃ environment, web.environment = some environment ∧ plan.CompilesApart web environment) ∧
        ∃ environment, api.environment = some environment ∧ plan.CompilesApart api environment := by
  intro engine request run
  have hSubmits : (run.exchanges.any fun e => e.call.submits) = true := by decide +kernel
  have hContainers : ((run.exchanges.filterMap fun e => e.call.plan?).all fun plan =>
      (plan.step? .compile).map (fun step => step.commands.map (·.container)) = some ["web", "api"]) =
      true := by
    decide +kernel
  obtain ⟨⟨c, reply⟩, hMem, hCall⟩ := List.any_eq_true.mp hSubmits
  obtain ⟨server, name, plan, rfl⟩ := Call.exists_of_submits hCall
  have hCompiled := of_decide_eq_true (List.all_eq_true.mp hContainers plan
    (List.mem_filterMap.mpr ⟨_, hMem, rfl⟩))
  obtain ⟨step, hStep, hCommands⟩ := Option.map_eq_some_iff.mp hCompiled
  obtain ⟨here, asked, project, order, stage, hAsks, hBuild⟩ :=
    compilesApart_iff_of_submit engine (.build 1 5 3 request) Rule.undisturbed (workshop "Web" "api") ()
      server name plan reply hMem
  refine ⟨server, name, plan, reply, hMem, ?_⟩
  cases hAsks with
  | completion completing => cases completing.completes
  | build =>
    obtain ⟨apps, draft, id, -, -, hApps, hSteps, hApart⟩ := hBuild request rfl
    have hKind : step.kind = .compile := by simpa using List.find?_some hStep
    rw [hSteps step (List.mem_of_find?_eq_some hStep) hKind] at hCommands
    cases hApps with
    | @cons _ web _ _ hWeb hApps =>
    cases hApps with
    | @cons _ api _ _ hApi hApps =>
    cases hApps
    obtain ⟨webStored, hWeb⟩ := hWeb
    obtain ⟨apiStored, hApi⟩ := hApi
    have hWebName : web.name = "Web" := by
      rw [hWeb.name, ← Option.some.inj hWeb.stored]
    have hApiName : api.name = "api" := by
      rw [hApi.name, ← Option.some.inj hApi.stored]
    have hWebContainer : web.container = "web" := by
      rw [AppBuild.container, hWebName]
      decide +kernel
    have hApiContainer : api.container = "api" := by
      rw [AppBuild.container, hApiName]
      decide +kernel
    obtain ⟨hWebCommand, hApiCommand, -⟩ : web.compileCommand.container = "web" ∧
        api.compileCommand.container = "api" ∧ True := by simpa using hCommands
    obtain ⟨webEnvironment, hWebEnvironment⟩ :=
      AppBuild.exists_environment_of_container hWeb.skips_iff hWebCommand (by decide)
    obtain ⟨apiEnvironment, hApiEnvironment⟩ :=
      AppBuild.exists_environment_of_container hApi.skips_iff hApiCommand (by decide)
    refine ⟨web, api, hWebName, hApiName, ⟨webEnvironment, hWebEnvironment, ?_⟩, apiEnvironment,
      hApiEnvironment, ?_⟩
    · refine (hApart [] web [api] webEnvironment rfl hWebEnvironment).mpr ⟨?_, ?_, ?_⟩ <;>
        simp [hWebContainer, hApiContainer, agentContainer, imageBuilderContainer]
    · refine (hApart [web] api [] apiEnvironment rfl hApiEnvironment).mpr ⟨?_, ?_, ?_⟩ <;>
        simp [hWebContainer, hApiContainer, agentContainer, imageBuilderContainer]

/-- Two apps whose names differ only in case. Both are compiled in containers named `web`, and the plan
declares two of these, with different images. -/
theorem Engine.compiled_in_shared_name :
    let request : BuildRequest := ⟨"alice", [⟨12, "dev", "", some "npm ci"⟩, ⟨13, "dev", "", some "go build"⟩],
      []⟩
    let run := ((Engine.ofServer "http://conveyor.local").build 1 5 3 request).run.run Rule.undisturbed
      (workshop "Web" "web") ()
    run.value = .ok ⟨100, "conveyor_1_5_3"⟩ ∧ (run.exchanges.filterMap fun e => e.call.plan?).map (fun plan =>
      (plan.containers.map fun template => (template.name, template.image),
        (plan.step? .compile).map fun step => step.commands.map fun c => (c.name, c.container))) =
      [([("jnlp", "jenkins/agent"), ("kaniko", "kaniko:debug"), ("web", "node:20"), ("web", "golang:1.22")],
        some [("Web", "web"), ("web", "web")])] := by
  decide +kernel

end DeliveryPipeline

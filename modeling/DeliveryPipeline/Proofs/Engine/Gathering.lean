import DeliveryPipeline.Proofs.Engine.Reading

/-! # What a request has gathered

A build looks for everything that its job needs before it stores the job, and a deploy before it applies
its manifests. In one world, either of them fails on the way, or it goes on with records that are all
stored.
-/

namespace DeliveryPipeline

set_option autoImplicit false

open Operation

namespace Engine

/-- The order, the environment, the CI server and the step that a job is asked for. -/
structure Ground where
  order : Order
  environment : Environment
  server : CiServer
  step : Step

structure Ground.StoredIn (ground : Ground) (store : Store) (project orderId stage : Int64)
    (kind : JobKind) : Prop where
  order : store.answer (.order orderId) = some ground.order
  owned : ground.order.project = project
  environment : store.answer (.environment project stage) = some ground.environment
  server : ∃ setting, store.answer (.setting ground.environment.ciServer) = some setting ∧
    setting.config = .ciServer ground.server
  step : StandsAt store ground.order stage (stepKindOf kind) ground.step

variable {engine : Engine} {project orderId stage : Int64} {world : World}

theorem Ground.StoredIn.server_eq {store : Store} {kind kind' : JobKind} {ground ground' : Ground}
    (h : ground.StoredIn store project orderId stage kind)
    (h' : ground'.StoredIn store project orderId stage kind') : ground'.server = ground.server := by
  obtain ⟨setting, hSetting, hServer⟩ := h.server
  obtain ⟨setting', hSetting', hServer'⟩ := h'.server
  rw [Option.some.inj (h'.environment.symm.trans h.environment)] at hSetting'
  rw [Option.some.inj (hSetting'.symm.trans hSetting)] at hServer'
  exact Integration.ciServer.inj (hServer'.symm.trans hServer)

structure Building extends Ground where
  gathered : List (AppBuild × Credential)
  agent : ContainerTemplate
  imageBuilder : ContainerTemplate
  registry : Registry
  token : String

namespace Building

def tasks (building : Building) : List Task := tasksOf building.step Task.defaultBuild

def plan (building : Building) (engine : Engine) (project orderId stage : Int64)
    (request : BuildRequest) (job : Int64) : Plan :=
  .ofSteps (buildVariables building.server building.token (building.gathered.map (·.2))
      building.registry request.jobVariables)
    ([building.agent, building.imageBuilder] ++
      compileContainers engine.workingDir (building.gathered.map (·.1)))
    (buildSteps ⟨project, stage, job, engine.scripts⟩ (building.gathered.map (·.1)) building.tasks)
    (engine.callback building.token .build project orderId stage job)

def draft (building : Building) (project orderId stage : Int64) (request : BuildRequest) : JobDraft where
  order := orderId
  project := project
  stage := stage
  kind := .build
  creator := request.creator
  apps := (building.gathered.map (·.1)).map AppBuild.record

def rest (building : Building) (engine : Engine) (project orderId stage : Int64)
    (request : BuildRequest) : Operation Launch :=
  launch engine building.order building.server (building.draft project orderId stage request)
    (building.plan engine project orderId stage request)

structure StoredIn (building : Building) (store : Store) (project orderId stage : Int64) : Prop extends
    building.toGround.StoredIn store project orderId stage .build where
  runnable : (building.tasks.any fun task => task.kind.runsInBuild) = true
  registry : ∃ setting, store.answer (.setting building.environment.registry) = some setting ∧
    setting.config = .registry building.registry
  agent : building.agent.name = agentContainer
  imageBuilder : building.imageBuilder.name = imageBuilderContainer

/-- What was gathered of the apps is what the world has of those that were asked for, one by one, with the
accounts of their repositories. -/
def Serves (building : Building) (world : World) (project : Int64) (requested : List BuildApp) : Prop :=
  List.Forall₂ (fun request gathered => ∃ app repository,
      Gathers world project building.environment.id request app gathered.1 ∧
      world.store.answer (.repository app.repository) = some repository ∧ gathered.2.Opens repository)
    requested building.gathered

end Building

def gatherBuilding (engine : Engine) (project orderId stage : Int64) (request : BuildRequest) :
    Operation Building := do
  ensure (!request.apps.isEmpty) (.invalid (.noApps .build))
  let order ← findOrderOf project orderId
  ensureIdle (.build project stage orderId)
  let (environment, server) ← reachServer project stage
  let step ← stepFor .build order stage
  ensure ((tasksOf step Task.defaultBuild).any fun task => task.kind.runsInBuild)
    (.invalid (.nothingToRun step.name))
  let gathered ← request.apps.mapM (gatherApp project stage environment server)
  let agent ← findContainer engine agentContainer
  let imageBuilder ← findContainer engine imageBuilderContainer
  let registry ← findRegistry environment
  let token ← findToken engine.serviceAccount
  pure ⟨⟨order, environment, server, step⟩, gathered, agent, imageBuilder, registry, token⟩

theorem build_eq_bind (engine : Engine) (project orderId stage : Int64) (request : BuildRequest) :
    build engine project orderId stage request = gatherBuilding engine project orderId stage request >>=
      fun building => building.rest engine project orderId stage request := by
  unfold build gatherBuilding
  simp only [bind_assoc, pure_bind]
  rfl

theorem reads_gatherBuilding (request : BuildRequest) :
    Reads world (fun building => building.StoredIn world.store project orderId stage ∧
        building.Serves world project request.apps)
      (gatherBuilding engine project orderId stage request) := by
  unfold gatherBuilding
  refine reads_ensure.bind fun _ _ => ?_
  refine (reads_findOrderOf project orderId).bind fun order ⟨hOrder, hProject⟩ => ?_
  refine (reads_ensureIdle _).bind fun _ _ => ?_
  refine (reads_reachServer project stage).bind fun (environment, server) ⟨hEnvironment, hServer⟩ => ?_
  refine (reads_stepFor .build order stage).bind fun step hStep => ?_
  refine reads_ensure.bind fun _ hRunnable => ?_
  refine (reads_mapM (reads_gatherApp project stage environment server) _).bind fun gathered hApps => ?_
  refine (reads_findContainer engine _).bind fun agent ⟨_, _, hAgent⟩ => ?_
  refine (reads_findContainer engine _).bind fun imageBuilder ⟨_, _, hImageBuilder⟩ => ?_
  refine (reads_findRegistry environment).bind fun registry hRegistry => ?_
  refine (reads_findToken _).bind fun token _ => reads_pure ⟨?_, hApps⟩
  exact ⟨⟨hOrder, hProject, hEnvironment, hServer, hStep⟩, hRunnable, hRegistry,
    congrArg ContainerTemplate.name hAgent, congrArg ContainerTemplate.name hImageBuilder⟩

theorem comesTo_build (request : BuildRequest) :
    ComesTo world (fun x => ∃ building : Building,
        (building.StoredIn world.store project orderId stage ∧
          building.Serves world project request.apps) ∧
        x = building.rest engine project orderId stage request)
      (build engine project orderId stage request) := by
  rw [build_eq_bind]
  exact (reads_gatherBuilding request).comesTo_bind fun building hGathered =>
    .reaches ⟨building, hGathered, rfl⟩

structure Deployment extends Ground where
  results : List (Option RenderedApp)
  clusterName : String
  cluster : Cluster
  agent : ContainerTemplate
  token : String
  userToken : String

namespace Deployment

def tasks (deployment : Deployment) : List Task := tasksOf deployment.step Task.defaultDeploy

def rendered (deployment : Deployment) : List RenderedApp := deployment.results.filterMap id

def manifests (deployment : Deployment) (project stage : Int64) : ApplyRequest where
  cluster := deployment.clusterName
  space := deployment.environment.space
  manifest := Manifest.join (deployment.rendered.map (·.manifest))
  project := project
  stage := stage
  waitReady := true

def plan (deployment : Deployment) (engine : Engine) (project orderId stage job : Int64) : Plan :=
  .ofSteps (deployVariables engine deployment.server deployment.token deployment.userToken)
    [deployment.agent]
    (deploySteps ⟨project, stage, job, engine.scripts⟩ deployment.clusterName
      deployment.environment.space (deployment.rendered.flatMap (·.workloads)) deployment.tasks)
    (engine.callback deployment.token .deploy project orderId stage job)

def draft (deployment : Deployment) (project orderId stage : Int64) (request : DeployRequest) :
    JobDraft where
  order := orderId
  project := project
  stage := stage
  kind := .deploy
  creator := request.creator
  apps := deployment.rendered.map (·.record)

def rest (deployment : Deployment) (engine : Engine) (project orderId stage : Int64)
    (request : DeployRequest) : Operation Launch := do
  errand .application (.apply deployment.cluster (deployment.manifests project stage))
  launch engine deployment.order deployment.server (deployment.draft project orderId stage request)
    (deployment.plan engine project orderId stage)

structure StoredIn (deployment : Deployment) (world : World) (project orderId stage : Int64)
    (request : DeployRequest) : Prop extends
    deployment.toGround.StoredIn world.store project orderId stage .deploy where
  results : List.Forall₂ (fun requested result => ∀ rendered, result = some rendered →
    ∃ source : Source, source.RendersTo world orderId deployment.environment.id requested rendered)
      request.apps deployment.results
  rendered : deployment.rendered ≠ []
  cluster : ∃ setting, world.store.answer (.setting deployment.environment.cluster) = some setting ∧
    setting.name = deployment.clusterName ∧ setting.config = .cluster deployment.cluster
  agent : deployment.agent.name = agentContainer

theorem StoredIn.exists_source {deployment : Deployment} {request : DeployRequest}
    (h : deployment.StoredIn world project orderId stage request) {rendered : RenderedApp}
    (mem : rendered ∈ deployment.rendered) : ∃ (source : Source) (requested : DeployApp),
      source.RendersTo world orderId deployment.environment.id requested rendered := by
  obtain ⟨result, hResult, hSome⟩ := List.mem_filterMap.mp mem
  obtain ⟨requested, -, hSource⟩ := exists_of_forall₂_of_mem h.results hResult
  obtain ⟨source, hSource⟩ := hSource rendered hSome
  exact ⟨source, requested, hSource⟩

end Deployment

def gatherDeployment (engine : Engine) (project orderId stage : Int64) (request : DeployRequest) :
    Operation Deployment := do
  ensure (!request.apps.isEmpty) (.invalid (.noApps .deploy))
  let order ← findOrderOf project orderId
  ensureIdle (.deploy project stage)
  let (environment, server) ← reachServer project stage
  let step ← stepFor .deploy order stage
  checkArrangements project environment.id environment.name request.apps
  let results ← request.apps.mapM (renderApp orderId environment.id)
  ensure (!(results.filterMap id).isEmpty) (.invalid .nothingRendered)
  let (clusterName, cluster) ← findCluster environment
  let agent ← findContainer engine agentContainer
  let token ← findToken engine.serviceAccount
  let userToken ← creatorToken request.creator
  pure ⟨⟨order, environment, server, step⟩, results, clusterName, cluster, agent, token, userToken⟩

theorem deploy_eq_bind (engine : Engine) (project orderId stage : Int64) (request : DeployRequest) :
    deploy engine project orderId stage request = gatherDeployment engine project orderId stage request >>=
      fun deployment => deployment.rest engine project orderId stage request := by
  unfold deploy gatherDeployment
  simp only [bind_assoc, pure_bind]
  rfl

theorem reads_gatherDeployment (request : DeployRequest) :
    Reads world (fun deployment => deployment.StoredIn world project orderId stage request)
      (gatherDeployment engine project orderId stage request) := by
  unfold gatherDeployment
  refine reads_ensure.bind fun _ _ => ?_
  refine (reads_findOrderOf project orderId).bind fun order ⟨hOrder, hProject⟩ => ?_
  refine (reads_ensureIdle _).bind fun _ _ => ?_
  refine (reads_reachServer project stage).bind fun (environment, server) ⟨hEnvironment, hServer⟩ => ?_
  refine (reads_stepFor .deploy order stage).bind fun step hStep => ?_
  refine (reads_checkArrangements project environment.id environment.name _).bind fun _ _ => ?_
  refine (reads_mapM (reads_renderApp orderId environment.id) _).bind fun results hResults => ?_
  refine reads_ensure.bind fun _ hRendered => ?_
  refine (reads_findCluster environment).bind fun (clusterName, cluster) hCluster => ?_
  refine (reads_findContainer engine _).bind fun agent ⟨_, _, hAgent⟩ => ?_
  refine (reads_findToken _).bind fun token _ => ?_
  refine (reads_creatorToken _).bind fun userToken _ => reads_pure ⟨⟨hOrder, hProject, hEnvironment,
    hServer, hStep⟩, hResults, ?_, hCluster, congrArg ContainerTemplate.name hAgent⟩
  rw [Bool.not_eq_true', List.isEmpty_eq_false_iff] at hRendered
  exact hRendered

theorem comesTo_deploy (request : DeployRequest) :
    ComesTo world (fun x => ∃ deployment : Deployment,
        deployment.StoredIn world project orderId stage request ∧
        x = deployment.rest engine project orderId stage request)
      (deploy engine project orderId stage request) := by
  rw [deploy_eq_bind]
  exact (reads_gatherDeployment request).comesTo_bind fun deployment hStored =>
    .reaches ⟨deployment, hStored, rfl⟩

end Engine

end DeliveryPipeline

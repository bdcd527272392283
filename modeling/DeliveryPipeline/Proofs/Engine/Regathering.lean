import DeliveryPipeline.Proofs.Engine.Conflict
import DeliveryPipeline.Proofs.Engine.Recall

/-! # Gathering twice

A build and a deploy first gather what their job needs, and then do the rest. In an idle scope, what has been
gathered once can be gathered again: for a build everything, and for a deploy everything that was rendered,
even if the other apps are not asked for any more.
-/

namespace DeliveryPipeline

set_option autoImplicit false

open Operation

variable {world : World} {hearing : Hearing world}

namespace Engine

variable {engine : Engine} {project orderId stage : Int64}

theorem repeats_gatherApp (project stage : Int64) (environment : Environment) (server : CiServer)
    (requested : BuildApp) :
    hearing.Repeats (fun _ _ => True) (gatherApp project stage environment server requested)
      (gatherApp project stage environment server requested) := by
  unfold gatherApp
  apply Hearing.recalls_find_bind rfl
  intro app
  apply Hearing.recalls_find_bind rfl
  intro repository
  have hCompile : (findCompileEnvironment app.compileEnvironment).Finds hearing.again world
      fun _ => True := by
    unfold findCompileEnvironment
    split
    · exact (hearing.faithful.finds_lookup _).weaken fun _ _ => trivial
    · exact finds_pure trivial
  have hImage : (appImage environment.id app repository requested.branch).Finds hearing.again world
      fun _ => True := by
    apply (hearing.faithful.finds_lookup (.arrangement app.id environment.id)).bind
    rintro (_ | arrangement) -
    · exact finds_pure trivial
    apply (finds_mappedImage hearing.faithful arrangement app repository requested.branch).bind
    rintro _ -
    exact finds_pure trivial
  apply (Hearing.repeats_of_finds (reads_findCompileEnvironment _) fun _ _ => hCompile).bind
  rintro _ _ -
  apply (Hearing.repeats_of_finds (reads_appImage _ _ _ _) fun _ _ => hImage).bind
  rintro _ _ -
  exact Hearing.repeats_pure trivial

theorem repeats_gatherBuilding (request : BuildRequest)
    (idle : world.store.activeJobs (.build project stage orderId) = []) :
    hearing.Repeats (fun _ _ => True) (gatherBuilding engine project orderId stage request)
      (gatherBuilding engine project orderId stage request) := by
  unfold gatherBuilding
  apply (Hearing.recalls_ensure _ _).bind
  intro _
  apply (recalls_findOrderOf project orderId).bind
  intro order
  apply (recalls_ensureIdle idle).bind
  intro _
  apply (recalls_reachServer project stage).bind
  rintro ⟨environment, server⟩
  apply (recalls_stepFor .build order stage).bind
  intro step
  apply (Hearing.recalls_ensure _ _).bind
  intro _
  apply (Hearing.repeats_mapM (repeats_gatherApp project stage environment server) _).bind
  rintro gathered gathered' -
  apply (recalls_findContainer engine _).bind
  intro agent
  apply (recalls_findContainer engine _).bind
  intro imageBuilder
  apply (recalls_findRegistry environment).bind
  intro registry
  apply (recalls_findToken _).bind
  intro token
  exact Hearing.repeats_pure trivial

/-- Each part of the deployment is found again. -/
structure Deployment.Recurs (hearing : Hearing world) (deployment : Deployment) (engine : Engine)
    (project orderId stage : Int64) (request : DeployRequest) : Prop where
  stored : world.store.answer (.order orderId) = some deployment.order
  order : (findOrderOf project orderId).Finds hearing.again world (deployment.order = ·)
  reached : (reachServer project stage).Finds hearing.again world
    ((deployment.environment, deployment.server) = ·)
  step : (stepFor .deploy deployment.order stage).Finds hearing.again world (deployment.step = ·)
  arranged : ∀ requested ∈ request.apps,
    Arranges world.store project deployment.environment.id requested.app
  results : List.Forall₂ (fun requested result => ∀ rendered, result = some rendered →
    rendered.record.app = requested.app ∧
      (renderApp orderId deployment.environment.id requested).Finds hearing.again world
        (· = some rendered)) request.apps deployment.results
  rendered : deployment.rendered ≠ []
  cluster : (findCluster deployment.environment).Finds hearing.again world
    ((deployment.clusterName, deployment.cluster) = ·)
  agent : (findContainer engine agentContainer).Finds hearing.again world (deployment.agent = ·)
  token : (findToken engine.serviceAccount).Finds hearing.again world (deployment.token = ·)
  userToken : IsFaithful hearing.first world →
    deployment.userToken = (world.store.answer (.token request.creator)).getD ""

theorem hears_renderApp_again (order environment : Int64) (requested : DeployApp) :
    (renderApp order environment requested).Hears hearing.first world fun result =>
      ∀ rendered, result = some rendered → rendered.record.app = requested.app ∧
        (renderApp order environment requested).Finds hearing.again world (· = some rendered) := by
  have hReads : Reads world _ (renderApp order environment requested) :=
    reads_renderApp order environment requested
  apply (hReads.hears.and (hears_renderApp order environment requested)).weaken
  rintro result ⟨hSource, hAgain⟩ rendered hRendered
  obtain ⟨source, hSource⟩ := hSource rendered hRendered
  rw [hSource.record]
  exact ⟨rfl, hAgain rendered hRendered⟩

theorem hears_creatorToken (user : String) : (creatorToken user).Hears hearing.first world fun token =>
    IsFaithful hearing.first world → token = (world.store.answer (.token user)).getD "" := by
  by_cases hFaithful : IsFaithful hearing.first world
  · exact (finds_creatorToken hFaithful user).hears.weaken fun _ hSame _ => hSame
  · exact (reads_creatorToken user).hears.weaken fun _ _ h => absurd h hFaithful

theorem hears_gatherDeployment (request : DeployRequest)
    (idle : world.store.activeJobs (.deploy project stage) = []) :
    (gatherDeployment engine project orderId stage request).Hears hearing.first world fun deployment =>
      deployment.Recurs hearing engine project orderId stage request := by
  unfold gatherDeployment
  apply reads_ensure.hears.bind
  rintro _ -
  apply ((reads_findOrderOf project orderId).hears.and (recalls_findOrderOf project orderId)).bind
  rintro order ⟨⟨hStored, -⟩, hOrder⟩
  have hIdle : hearing.Recalls (ensureIdle (.deploy project stage)) := recalls_ensureIdle idle
  apply Hears.bind hIdle
  rintro _ -
  apply Hears.bind (recalls_reachServer project stage)
  rintro ⟨environment, server⟩ hReached
  apply Hears.bind (recalls_stepFor .deploy order stage)
  intro step hStep
  apply (reads_checkArrangements_arranges project environment.id environment.name _).hears.bind
  rintro _ hArranged
  apply (hears_mapM (hears_renderApp_again orderId environment.id) _).bind
  intro results hResults
  apply reads_ensure.hears.bind
  intro _ hRendered
  rw [Bool.not_eq_true', List.isEmpty_eq_false_iff] at hRendered
  apply Hears.bind (recalls_findCluster environment)
  rintro ⟨clusterName, cluster⟩ hCluster
  apply Hears.bind (recalls_findContainer engine _)
  intro agent hAgent
  apply Hears.bind (recalls_findToken _)
  intro token hToken
  apply (hears_creatorToken request.creator).bind
  intro userToken hUserToken
  apply hears_pure
  exact
    { stored := hStored
      order := hOrder
      reached := hReached
      step := hStep
      arranged := hArranged
      results := hResults
      rendered := hRendered
      cluster := hCluster
      agent := hAgent
      token := hToken
      userToken := hUserToken }

theorem Deployment.Recurs.finds {deployment : Deployment} {request : DeployRequest}
    (h : deployment.Recurs hearing engine project orderId stage request)
    (idle : world.store.activeJobs (.deploy project stage) = []) {kept : List DeployApp}
    {fits : List (Option RenderedApp) → Prop} (among : ∀ requested ∈ kept, requested ∈ request.apps)
    (results : (kept.mapM (renderApp orderId deployment.environment.id)).Finds hearing.again world fits)
    (rendered : ∀ results, fits results → results.filterMap id ≠ []) :
    (gatherDeployment engine project orderId stage { request with apps := kept }).Finds hearing.again world
      fun gathered => fits gathered.results ∧ gathered = { deployment with
        results := gathered.results
        userToken := (world.store.answer (.token request.creator)).getD "" } := by
  have hNamed : kept.isEmpty = false := by
    cases kept with
    | cons requested rest => rfl
    | nil =>
      obtain ⟨_, ⟨⟩, hFits⟩ := results
      exact absurd rfl (rendered [] hFits)
  unfold gatherDeployment
  apply (finds_ensure (by rw [hNamed]; rfl)).bind
  rintro _ -
  apply h.order.bind
  rintro _ rfl
  apply (finds_ensureIdle hearing.faithful idle).bind
  rintro _ -
  apply h.reached.bind
  rintro _ rfl
  apply h.step.bind
  rintro _ rfl
  apply (finds_checkArrangements hearing.faithful fun requested hKept =>
    h.arranged requested (among requested hKept)).bind
  rintro _ -
  apply results.bind
  intro again hFits
  apply (finds_ensure (by simpa using rendered again hFits)).bind
  rintro _ -
  apply h.cluster.bind
  rintro _ rfl
  apply h.agent.bind
  rintro _ rfl
  apply h.token.bind
  rintro _ rfl
  apply (finds_creatorToken hearing.faithful _).bind
  rintro _ rfl
  exact finds_pure ⟨hFits, rfl⟩

end Engine

theorem JobRequest.idle_of_launched {σ : Type} {engine : Engine} (request : JobRequest)
    {project order stage : Int64} {rule : Rule σ} {state : σ} {launch : Launch}
    (launched : ((request.create engine project order stage).run.run rule world state).value = .ok launch) :
    world.store.activeJobs (.of request.kind project order stage) = [] := by
  by_contra hBusy
  obtain ⟨⟨e, hError⟩, -⟩ := request.run_create_of_busy engine hBusy rule state
  cases launched.symm.trans hError

end DeliveryPipeline

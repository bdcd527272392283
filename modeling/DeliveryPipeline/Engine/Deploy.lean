import DeliveryPipeline.Engine.Launch
import DeliveryPipeline.Engine.Image
import DeliveryPipeline.Engine.Build

/-! # Deploys

A deploy sets the images in the arrangements of the requested apps, applies all manifests together, and
launches a job that checks the health of the workloads in them. An app that cannot be rendered is left
out; a deploy without any app is refused.
-/

namespace DeliveryPipeline.Engine

set_option autoImplicit false

open Operation

structure RenderedApp where
  record : JobApp
  manifest : String
  workloads : List Workload
deriving DecidableEq, Repr

/-- The requested app as it is called in an error, if it has no arrangement in the environment. -/
def missingArrangement? (project environment : Int64) (known : List App) (id : Int64) :
    Operation (Option String) := do
  match known.find? fun app => app.id = id && app.project = project with
  | none => pure (some ("#" ++ Text.ofInt64 id))
  | some app => do
    let arrangement ← lookup (.arrangement app.id environment)
    pure (if arrangement.isSome then none else some app.name)

/-- Every requested app has to have an arrangement in the environment. -/
def checkArrangements (project environment : Int64) (environmentName : String)
    (apps : List DeployApp) : Operation Unit := do
  let ids := apps.map (·.app)
  let known ← lookup (.apps ids)
  let missing ← ids.mapM (missingArrangement? project environment known)
  let missing := missing.filterMap id
  ensure missing.isEmpty (.invalid (.unarranged missing environmentName))

/-- The arrangement's manifest with the image that is deployed. A mapping that keeps its image leaves
the manifest as it is. -/
def manifestFor (arrangement : Arrangement) (mapping : ImageMapping) (image : String) :
    Except ManifestError String :=
  if mapping.policy = .origin then .ok arrangement.manifest
  else Manifest.substitute arrangement.manifest mapping.image image

def renderedApp? (app : App) (branch : String) (arrangement : Arrangement) (mapping : ImageMapping)
    (image : String) : Option RenderedApp := do
  let manifest ← (manifestFor arrangement mapping image).toOption
  let names ← (Manifest.resourceNames manifest).toOption
  some ⟨⟨app.id, some branch, "", some image⟩, manifest, names.map fun name => ⟨app.name, name⟩⟩

def renderApp (order environment : Int64) (request : DeployApp) : Operation (Option RenderedApp) := do
  match ← lookup (.app request.app) with
  | none => pure none
  | some app =>
    match ← lookup (.arrangement app.id environment) with
    | none => pure none
    | some arrangement =>
      match ← lookup (.orderApp order app.id) with
      | none => pure none
      | some orderApp =>
        match ← lookup (.repository app.repository) with
        | none => pure none
        | some repository =>
          let mapped ← mappedImage arrangement app repository orderApp.branch
          pure (mapped.bind fun (mapping, image) =>
            renderedApp? app orderApp.branch arrangement mapping image)

/-- The token of the user who asks for a deploy, or an empty one for a user without token. -/
def creatorToken (user : String) : Operation String := do
  match ← attempt (findToken user) with
  | .ok token => pure token
  | .error (.misconfigured _) => pure ""
  | .error e => throw e

def deployVariables (engine : Engine) (server : CiServer) (token userToken : String) : List Variable :=
  [⟨"CI_WORKSPACE", server.workspace⟩, ⟨"PLATFORM_SERVER", engine.serverUrl⟩,
    ⟨"ACCESS_TOKEN", token⟩, ⟨"USER_TOKEN", userToken⟩]

/-- The steps of a deploy. Tasks other than health checks are left out. -/
def deploySteps (context : JobContext) (cluster space : String) (workloads : List Workload)
    (tasks : List Task) : List RenderedStep :=
  (tasks.filter fun task => task.kind = .healthCheck).map
    (healthCheckStep context cluster space workloads)

/-- Launches the deploy of the order's current step. -/
def deploy (engine : Engine) (project orderId stage : Int64) (request : DeployRequest) :
    Operation Launch := do
  ensure (!request.apps.isEmpty) (.invalid (.noApps .deploy))
  let order ← findOrderOf project orderId
  ensureIdle (.deploy project stage)
  let (environment, server) ← reachServer project stage
  let step ← stepFor .deploy order stage
  let tasks := tasksOf step Task.defaultDeploy
  checkArrangements project environment.id environment.name request.apps
  let rendered ← request.apps.mapM (renderApp orderId environment.id)
  let rendered := rendered.filterMap id
  ensure (!rendered.isEmpty) (.invalid .nothingRendered)
  let (clusterName, cluster) ← findCluster environment
  let agent ← findContainer engine agentContainer
  let token ← findToken engine.serviceAccount
  let userToken ← creatorToken request.creator
  errand .application (.apply cluster
    { cluster := clusterName, space := environment.space,
      manifest := Manifest.join (rendered.map (·.manifest)), project := project, stage := stage,
      waitReady := true })
  let draft : JobDraft :=
    { order := orderId, project := project, stage := stage, kind := .deploy,
      creator := request.creator, apps := rendered.map (·.record) }
  launch engine order server draft fun job =>
    .ofSteps (deployVariables engine server token userToken) [agent]
      (deploySteps ⟨project, stage, job, engine.scripts⟩ clusterName environment.space
        (rendered.flatMap (·.workloads)) tasks)
      (engine.callback token .deploy project orderId stage job)

end DeliveryPipeline.Engine

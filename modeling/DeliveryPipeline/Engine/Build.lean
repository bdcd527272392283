import DeliveryPipeline.Engine.Launch
import DeliveryPipeline.Engine.Image
import DeliveryPipeline.Json.Printer
import DeliveryPipeline.Text.Base64

/-! # Builds

A build checks out, compiles and packs the requested apps in the order's current step. All lookups come
before the job is stored, so a build that is refused leaves nothing behind. An app whose image cannot
be resolved is built without an image.
-/

namespace DeliveryPipeline.Engine

set_option autoImplicit false

open Operation

/-- How an app is compiled: only in a compile environment, and there with the command that the
request gives, if it is more than blanks. -/
def compileMode (environment : Option CompileEnvironment) (command : Option String) : CompileMode :=
  match environment, (command.map fun c => Text.trim c.toList).getD [] with
  | none, _ => .skip
  | some _, [] => .default
  | some _, c :: rest => .custom (.ofList (c :: rest))

structure Credential where
  host : String
  user : String
  token : String
deriving DecidableEq, Repr

/-- Accounts by host, as the checkout script reads them; of two for one host the later counts. -/
def credentialText (credentials : List Credential) : String :=
  Json.render (Json.ofFields (credentials.map fun c => (c.host, Json.ofStrings [c.user, c.token])))

/-- The variables of a build: the reserved ones, then those of the request. -/
def buildVariables (server : CiServer) (token : String) (credentials : List Credential)
    (registry : Registry) (requested : List Variable) : List Variable :=
  [⟨"CI_WORKSPACE", server.workspace⟩, ⟨"ACCESS_TOKEN", token⟩,
    ⟨"REPO_CNF", credentialText credentials⟩,
    ⟨"DOCKER_AUTH", Text.Base64.encodeText (registry.user ++ ":" ++ registry.password)⟩,
    ⟨"REGISTRY_ADDR", Text.hostOfAddress registry.url⟩,
    ⟨"DOCKER_CONFIG", "/kaniko/.docker"⟩] ++ requested

def findCompileEnvironment : Option Int64 → Operation (Option CompileEnvironment)
  | some id => lookup (.compileEnvironment id)
  | none => pure none

def gatherApp (project stage : Int64) (environment : Environment) (server : CiServer)
    (request : BuildApp) : Operation (AppBuild × Credential) := do
  let app ← require (.absent (.app request.app project))
    ((← lookup (.app request.app)).filter fun app => app.project = project)
  let repository ← require (.absent (.repository app.repository)) (← lookup (.repository app.repository))
  let compileEnvironment ← findCompileEnvironment app.compileEnvironment
  let image ← appImage environment.id app repository request.branch
  let build : AppBuild :=
    { app := app.id
      name := app.name
      language := app.language
      branch := request.branch
      cloneUrl := if request.path.isEmpty then repository.cloneUrl app.fullName else request.path
      buildPath := app.buildPath
      directory := checkoutDirectory server.workspace project stage app.name request.branch app.buildPath
      compile := compileMode compileEnvironment request.compileCommand
      environment := compileEnvironment
      image := image }
  pure (build, ⟨repository.host, repository.user, repository.token⟩)

/-- The tasks of a step, or the default ones if it declares none. -/
def tasksOf (step : Step) (default : List Task) : List Task :=
  if step.tasks.isEmpty then default else step.tasks

def build (engine : Engine) (project orderId stage : Int64) (request : BuildRequest) :
    Operation Launch := do
  ensure (!request.apps.isEmpty) (.invalid (.noApps .build))
  let order ← findOrderOf project orderId
  ensureIdle (.build project stage orderId)
  let (environment, server) ← reachServer project stage
  let step ← stepFor .build order stage
  let tasks := tasksOf step Task.defaultBuild
  ensure (tasks.any fun task => task.kind.runsInBuild) (.invalid (.nothingToRun step.name))
  let gathered ← request.apps.mapM (gatherApp project stage environment server)
  let apps := gathered.map (·.1)
  let agent ← findContainer engine agentContainer
  let imageBuilder ← findContainer engine imageBuilderContainer
  let registry ← findRegistry environment
  let token ← findToken engine.serviceAccount
  let draft : JobDraft :=
    { order := orderId, project := project, stage := stage, kind := .build,
      creator := request.creator, apps := apps.map AppBuild.record }
  launch engine order server draft fun job =>
    .ofSteps (buildVariables server token (gathered.map (·.2)) registry request.jobVariables)
      ([agent, imageBuilder] ++ compileContainers engine.workingDir apps)
      (buildSteps ⟨project, stage, job, engine.scripts⟩ apps tasks)
      (engine.callback token .build project orderId stage job)

end DeliveryPipeline.Engine

import DeliveryPipeline.Job
import DeliveryPipeline.Plan
import DeliveryPipeline.Text.Affix
import DeliveryPipeline.Text.Integer
import DeliveryPipeline.Text.LetterCase

/-! # Rendered steps

The commands that the tasks of a build or a deploy step stand for. Each task becomes one rendered
step, in the order of declaration, with one command for each app or workload. Every command of a
helper script names the job that it belongs to.
-/

namespace DeliveryPipeline

set_option autoImplicit false

def agentContainer : String := "jnlp"

def imageBuilderContainer : String := "kaniko"

/-- The job that a command belongs to, and where the helper scripts are. -/
structure JobContext where
  project : Int64
  stage : Int64
  job : Int64
  scripts : String
deriving DecidableEq, Repr

/-- The command of a helper script, with further arguments. -/
def JobContext.script (context : JobContext) (name : String) (arguments : List (String × String)) :
    String :=
  "sh 'python3 " ++ context.scripts ++ "/" ++ name ++
    String.join (([("project-id", Text.ofInt64 context.project), ("stage-id", Text.ofInt64 context.stage),
      ("publish-job-id", Text.ofInt64 context.job)] ++ arguments).map fun (option, value) =>
        " --" ++ option ++ " " ++ value) ++ "'"

inductive CompileMode where
  /-- no compile environment is configured -/
  | skip
  /-- a command, run in the checkout directory -/
  | custom (command : String)
  /-- a compile environment without a command -/
  | default
deriving DecidableEq, Repr

structure AppBuild where
  app : Int64
  name : String
  language : String
  branch : String
  cloneUrl : String
  buildPath : String
  directory : String
  compile : CompileMode
  environment : Option CompileEnvironment
  /-- where the image goes, if that could be resolved -/
  image : Option String
deriving DecidableEq, Repr

/-- Writes one slash for every two that stand side by side, from left to right and without overlap. -/
def mergeSlashes : List Char → List Char
  | '/' :: '/' :: rest => '/' :: mergeSlashes rest
  | c :: rest => c :: mergeSlashes rest
  | [] => []

theorem length_mergeSlashes_le (path : List Char) : (mergeSlashes path).length ≤ path.length := by
  fun_induction mergeSlashes path with
  | case1 rest ih =>
    simp only [List.length_cons]
    omega
  | case2 c rest _ ih => exact Nat.succ_le_succ ih
  | case3 => exact Nat.le_refl 0

theorem length_mergeSlashes_lt {path : List Char} (h : Text.occursIn ['/', '/'] path = true) :
    (mergeSlashes path).length < path.length := by
  fun_induction mergeSlashes path with
  | case1 rest =>
    have hLe := length_mergeSlashes_le rest
    simp only [List.length_cons]
    omega
  | case2 c rest single ih =>
    refine Nat.succ_lt_succ (ih ?_)
    rcases List.infix_cons_iff.mp (Text.occursIn_iff.mp h) with hHere | hLater
    · obtain ⟨more, hMore⟩ := hHere
      obtain ⟨rfl, rfl⟩ := List.cons.inj hMore
      exact absurd rfl (single more rfl)
    · exact Text.occursIn_iff.mpr hLater
  | case3 => cases h

/-- Merges slashes until no two stand side by side. -/
def collapseSlashes (path : List Char) : List Char :=
  if Text.occursIn ['/', '/'] path then collapseSlashes (mergeSlashes path) else path
termination_by path.length
decreasing_by exact length_mergeSlashes_lt ‹_›

/-- The directory of an app's branch in the agent's workspace. -/
def checkoutDirectory (workspace : String) (project stage : Int64) (app branch buildPath : String) :
    String :=
  .ofList (collapseSlashes (String.intercalate "/"
    [workspace, Text.ofInt64 project, Text.ofInt64 stage, app, branch, buildPath]).toList)

namespace AppBuild

/-- An app is compiled in a container of its own, named after it. -/
def container (app : AppBuild) : String := .ofList (Text.LetterCase.lower app.name.toList)

def containerTemplate? (workingDir : String) (app : AppBuild) : Option ContainerTemplate :=
  app.environment.map fun environment =>
    .ofEnvironment app.container environment workingDir

def checkoutCommand (context : JobContext) (app : AppBuild) : StepCommand where
  name := app.name
  container := agentContainer
  command := context.script "app_checkout.py" [("scm-app-id", Text.ofInt64 app.app),
    ("app-name", app.name), ("app-language", app.language), ("branch-url", app.cloneUrl),
    ("vcs-type", "git"), ("build-path", app.buildPath), ("branch-name", app.branch)]

def compileCommand (app : AppBuild) : StepCommand :=
  match app.compile with
  | .skip => ⟨app.name, agentContainer, "echo 'no compile environment configured, skip compile'"⟩
  | .custom command => ⟨app.name, app.container, "sh 'cd " ++ app.directory ++ "; " ++ command ++ "'"⟩
  | .default => ⟨app.name, app.container, "echo 'no compile command defined, skip compile'"⟩

/-- An app without an image is left out of the image build. -/
def imageCommand? (app : AppBuild) : Option StepCommand :=
  app.image.map fun image => ⟨app.name, imageBuilderContainer,
    "sh \"cd " ++ app.directory ++ "; export DOCKER_CONFIG=$DOCKER_CONFIG; " ++
      "/kaniko/executor -f Dockerfile -c ./ -d " ++ image ++
      " --insecure --skip-tls-verify --insecure-pull\""⟩

def record (app : AppBuild) : JobApp := ⟨app.app, some app.branch, app.cloneUrl, app.image⟩

end AppBuild

def compileContainers (workingDir : String) (apps : List AppBuild) : List ContainerTemplate :=
  apps.filterMap (AppBuild.containerTemplate? workingDir)

def Task.buildCommands? (context : JobContext) (apps : List AppBuild) (task : Task) :
    Option (List StepCommand) :=
  match task.kind with
  | .checkout => some (apps.map (AppBuild.checkoutCommand context))
  | .compile => some (apps.map AppBuild.compileCommand)
  | .buildImage => some (apps.filterMap AppBuild.imageCommand?)
  | _ => none

/-- The steps of a build. Tasks that a build cannot run are left out. -/
def buildSteps (context : JobContext) (apps : List AppBuild) (tasks : List Task) : List RenderedStep :=
  tasks.filterMap fun task =>
    (task.buildCommands? context apps).map fun commands => ⟨task.name, task.kind, commands⟩

structure Workload where
  app : String
  resource : String
deriving DecidableEq, Repr

def Workload.command (context : JobContext) (cluster space : String) (workload : Workload) :
    StepCommand where
  name := workload.resource
  container := agentContainer
  command := context.script "healthcheck.py" [("cluster", cluster), ("namespace", space),
    ("app-name", workload.app), ("service-name", workload.resource)]

def healthCheckStep (context : JobContext) (cluster space : String) (workloads : List Workload)
    (task : Task) : RenderedStep :=
  ⟨task.name, task.kind, workloads.map (Workload.command context cluster space)⟩

theorem Task.buildCommands?_isSome_iff {context : JobContext} {apps : List AppBuild} {task : Task} :
    (task.buildCommands? context apps).isSome = true ↔ task.kind.runsInBuild = true := by
  cases h : task.kind <;> simp [Task.buildCommands?, TaskKind.runsInBuild, h]

end DeliveryPipeline

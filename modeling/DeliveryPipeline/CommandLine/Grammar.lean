import DeliveryPipeline.Api.Command
import DeliveryPipeline.CommandLine.Level

/-! # The grammar of the command line

The command line has three levels: the address of the service, a group of forms, and a form with its
parameters. A form turns the values that were given into a command, if none is missing.
-/

namespace DeliveryPipeline.CommandLine

set_option autoImplicit false

namespace Values

variable (values : Values)

def list {α : Type} (valueName : String) (ofValue? : Value → Option α) : List α :=
  values.filterMap fun (key, value) => if key = valueName then ofValue? value else none

def text? (valueName : String) : Option String :=
  (values.list valueName fun | .text s => some s | _ => none).head?

def integers (valueName : String) : List Int64 :=
  values.list valueName fun | .integer n => some n | _ => none

def integer? (valueName : String) : Option Int64 := (values.integers valueName).head?

def index? (valueName : String) : Option Int32 :=
  (values.list valueName fun | .index n => some n | _ => none).head?

def apps (valueName : String) : List BuildApp :=
  values.list valueName fun | .app a => some a | _ => none

def jobVariables (valueName : String) : List Variable :=
  values.list valueName fun | .variable v => some v | _ => none

end Values

def nonempty? {α : Type} : List α → Option (List α)
  | [] => none
  | list => some list

/-- The command that arguments ask for, or what is wrong with a name in them. -/
abbrev Choice := Except String Api.Command

structure Form where
  name : String
  about : String
  parameters : List Parameter
  /-- the command that the values of all required parameters give -/
  choice? : Values → Option Choice

structure Group where
  name : String
  about : String
  forms : List Form

namespace Parameter

def project : Parameter := .positional "PROJECT_ID" Value.ofInteger

def order : Parameter := .positional "PUBLISH_ID" Value.ofInteger

def stage : Parameter := .positional "STAGE_ID" Value.ofInteger

def stepIndex : Parameter := .positional "STEP_INDEX" Value.ofIndex

def creator (about : String) : Parameter :=
  ⟨"CREATOR", some "creator", none, true, false, about, Value.ofText⟩

def buildApps : Parameter :=
  ⟨"APPS", some "app", none, true, true, "App to build as ID:BRANCH[:COMPILE COMMAND], repeatable",
    Value.ofApp⟩

def deployApps : Parameter :=
  ⟨"APPS", some "app", none, true, true, "App id to deploy, repeatable", Value.ofInteger⟩

def jobVariables : Parameter :=
  ⟨"ENV_VARS", some "env", none, false, true, "Extra job variable as KEY=VALUE, repeatable",
    Value.ofVariable⟩

def jobKind : Parameter :=
  ⟨"JOB_TYPE", some "job-type", none, false, false,
    "Type of the running job (build or deploy) [default: build]", Value.ofText⟩

def message : Parameter :=
  ⟨"MESSAGE", some "message", some 'm', false, false, "[default: ]", Value.ofText⟩

def serverUrl : Parameter :=
  ⟨"ORCHESTRATOR_URL", some "orchestrator-url", none, false, false, "Orchestrator URL", Value.ofText⟩

end Parameter

namespace Form

open Parameter

def build : Form where
  name := "build"
  about := "Submit the build step of a publish order"
  parameters :=
    [project, order, stage, creator "User submitting the job", buildApps, jobVariables]
  choice? values := do
    let request : BuildRequest :=
      ⟨← values.text? "CREATOR", ← nonempty? (values.apps "APPS"), values.jobVariables "ENV_VARS"⟩
    return .ok (.build (← values.integer? "PROJECT_ID") (← values.integer? "PUBLISH_ID")
      (← values.integer? "STAGE_ID") request)

def deploy : Form where
  name := "deploy"
  about := "Submit the deploy step of a publish order"
  parameters := [project, order, stage, creator "User submitting the job", deployApps]
  choice? values := do
    let apps ← nonempty? (values.integers "APPS")
    let request : DeployRequest := ⟨← values.text? "CREATOR", apps.map DeployApp.mk⟩
    return .ok (.deploy (← values.integer? "PROJECT_ID") (← values.integer? "PUBLISH_ID")
      (← values.integer? "STAGE_ID") request)

def terminate : Form where
  name := "terminate"
  about := "Terminate the running job of a publish order"
  parameters := [project, order, stage, jobKind]
  choice? values := do
    let project ← values.integer? "PROJECT_ID"
    let order ← values.integer? "PUBLISH_ID"
    let stage ← values.integer? "STAGE_ID"
    let kind : Except String JobKind := Named.read ((values.text? "JOB_TYPE").getD "build")
    return kind.map fun kind => .terminate project order stage ⟨kind⟩

def abort : Form where
  name := "abort"
  about := "Force a publish order into Abort"
  parameters := [project, order]
  choice? values := do
    return .ok (.abort (← values.integer? "PROJECT_ID") (← values.integer? "PUBLISH_ID"))

def confirm : Form where
  name := "confirm"
  about := "Confirm the manual step a publish order waits on"
  parameters := [project, order, creator "", message]
  choice? values := do
    let request : ConfirmRequest :=
      ⟨← values.text? "CREATOR", (values.text? "MESSAGE").getD ""⟩
    return .ok (.confirm (← values.integer? "PROJECT_ID") (← values.integer? "PUBLISH_ID") request)

def info : Form where
  name := "info"
  about := "Show the manual history of the current and previous step"
  parameters := [order]
  choice? values := do return .ok (.history (← values.integer? "PUBLISH_ID"))

def type : Form where
  name := "type"
  about := "Show the declared type of a step in the current stage"
  parameters := [order, stepIndex]
  choice? values := do
    return .ok (.stepType (← values.integer? "PUBLISH_ID") (← values.index? "STEP_INDEX"))

def last : Form where
  name := "last"
  about := "Check whether a stage is the last one and the order is on its last step"
  parameters := [order, stage]
  choice? values := do
    return .ok (.lastStep (← values.integer? "PUBLISH_ID") (← values.integer? "STAGE_ID"))

def branches : Form where
  name := "branches"
  about := "List the branch choices of the order's apps"
  parameters := [project, order, stage]
  choice? values := do
    return .ok (.branches (← values.integer? "PROJECT_ID") (← values.integer? "PUBLISH_ID")
      (← values.integer? "STAGE_ID"))

def images : Form where
  name := "images"
  about := "List the images a deploy would roll out"
  parameters := [order]
  choice? values := do return .ok (.images (← values.integer? "PUBLISH_ID"))

end Form

def groups : List Group :=
  [⟨"publish", "Submit and control publish jobs",
      [Form.build, Form.deploy, Form.terminate, Form.abort, Form.confirm]⟩,
    ⟨"step", "Inspect the steps of a publish order",
      [Form.info, Form.type, Form.last, Form.branches, Form.images]⟩]

/-- A place in the command line that help can be asked for. -/
inductive Topic where
  | top
  | group (g : Group)
  | form (g : Group) (f : Form)
  /-- the word `help` after the given ones -/
  | helpWord (before : List String)

inductive Invocation where
  | command (serverUrl : Option String) (choice : Choice)
  | help (topic : Topic)

inductive UsageError where
  | misuse (cause : Misuse)
  | invalidValue (value label : String) (cause : ArgumentError)
deriving DecidableEq, Repr

namespace Invocation

/-- Reading that stops where help is asked for. -/
def orHelp {α : Type} (topic : Topic) (result : Except Rejection α)
    (next : α → Except UsageError Invocation) : Except UsageError Invocation :=
  match result with
  | .ok a => next a
  | .error .help => .ok (.help topic)
  | .error (.misuse cause) => .error (.misuse cause)
  | .error (.invalidValue value label cause) => .error (.invalidValue value label cause)

def ofHelpWords (words : List String) : Except UsageError Invocation :=
  let unexpected (word : String) : Except UsageError Invocation := .error (.misuse (.unexpected word))
  match words with
  | [] => .ok (.help .top)
  | "help" :: [] => .ok (.help (.helpWord []))
  | "help" :: word :: _ => unexpected word
  | word :: rest =>
    match groups.find? (·.name = word), rest with
    | none, _ => unexpected word
    | some g, [] => .ok (.help (.group g))
    | some g, "help" :: [] => .ok (.help (.helpWord [g.name]))
    | some _, "help" :: word :: _ => unexpected word
    | some g, word :: rest =>
      match g.forms.find? (·.name = word), rest with
      | none, _ => unexpected word
      | some f, [] => .ok (.help (.form g f))
      | some _, word :: _ => unexpected word

def ofForm (g : Group) (f : Form) (arguments : List String)
    (next : Choice → Except UsageError Invocation) : Except UsageError Invocation :=
  orHelp (.form g f) (do (← scan f.parameters [] (.start f.parameters) arguments).1.settle)
    fun reading =>
      match f.choice? reading.values with
      | some choice => next choice
      | none => .error (.misuse .incomplete)

def ofGroup (g : Group) (arguments : List String)
    (next : Choice → Except UsageError Invocation) : Except UsageError Invocation :=
  orHelp (.group g) (scan [] ("help" :: g.forms.map Form.name) (.start []) arguments)
    fun (_, rest) =>
      match rest with
      | none => .error (.misuse .noCommand)
      | some ("help", words) => ofHelpWords (g.name :: words)
      | some (word, arguments) =>
        match g.forms.find? (·.name = word) with
        | some f => ofForm g f arguments next
        | none => .error (.misuse (.unexpected word))

def ofArguments (arguments : List String) : Except UsageError Invocation :=
  let parameters := [Parameter.serverUrl]
  orHelp .top (scan parameters ("help" :: groups.map Group.name) (.start parameters) arguments)
    fun (reading, rest) =>
      match rest with
      | none => .error (.misuse .noCommand)
      | some ("help", words) => ofHelpWords words
      | some (word, arguments) =>
        match groups.find? (·.name = word) with
        | none => .error (.misuse (.unexpected word))
        | some g =>
          ofGroup g arguments fun choice =>
            orHelp .top reading.settle fun reading =>
              .ok (.command (reading.values.text? "ORCHESTRATOR_URL") choice)

end Invocation

end DeliveryPipeline.CommandLine

import DeliveryPipeline.Manifest
import DeliveryPipeline.Call
import DeliveryPipeline.Text.Integer

/-! # Errors of the engine

Why the engine refuses or fails. Every error has a kind, by which callers tell errors apart, and a
message for people.
-/

namespace DeliveryPipeline

set_option autoImplicit false

open Text (ofInt64 ofInt32)

/-- A setting that an administrator has to complete. -/
inductive Misconfiguration where
  | noEnvironment (stage project : Int64)
  | incompleteServer (setting : String) (missing : List String)
  | noToken (user : String)
  | noContainer (name : String)
deriving DecidableEq, Repr

/-- A request that does not fit the state of its order or project. -/
inductive Invalidity where
  | noApps (kind : JobKind)
  | projectEnded (name : String)
  | undeclaredStep (index : Int32) (stage : String)
  | wrongStep (step : String) (kind : StepKind) (wanted : JobKind)
  | nothingToRun (step : String)
  | unarranged (apps : List String) (environment : String)
  | nothingRendered
  | neverStarted (job : Int64)
  | notManual (step : String) (kind : StepKind)
  | noStepAfter (stage : String) (index : Int32)
deriving DecidableEq, Repr

inductive Absence where
  | project (id : Int64)
  | order (id : Int64)
  | orderInProject (order project : Int64)
  | snapshot (id : Int64)
  | stage (id snapshot : Int64)
  | step (index : Int32) (stage : String)
  | app (id project : Int64)
  | repository (id : Int64)
  | setting (id : Int64)
  | jobOfOrder (order : Int64)
  | job (kind : JobKind) (id order stage : Int64)
deriving DecidableEq, Repr

inductive Purpose where
  | reachServer
  | submission (kind : JobKind)
  | cancellation
  | application
  | history (fullName branch : String)
deriving DecidableEq, Repr

inductive EngineError where
  | misconfigured (cause : Misconfiguration)
  | wrongSetting (id : Int64) (expected actual : SettingKind)
  /-- the scope of a new job is occupied -/
  | conflict (jobs : List Int64)
  | refused (cause : TransitionError)
  | invalid (cause : Invalidity)
  | absent (what : Absence)
  | outside (purpose : Purpose) (cause : ErrandError)
  | manifest (cause : ManifestError)
  | storage (cause : StorageError)
deriving DecidableEq, Repr

inductive ErrorKind where
  | config
  | settingKind
  | conflict
  | invalidState
  | validation
  | notFound
  | external
  | manifest
  | database
deriving DecidableEq, Repr

instance : Named ErrorKind where
  all := [.config, .settingKind, .conflict, .invalidState, .validation, .notFound, .external,
    .manifest, .database]
  name
    | .config => "Config"
    | .settingKind => "SettingKind"
    | .conflict => "Conflict"
    | .invalidState => "InvalidState"
    | .validation => "Validation"
    | .notFound => "NotFound"
    | .external => "External"
    | .manifest => "Manifest"
    | .database => "Database"

def Misconfiguration.message : Misconfiguration → String
  | .noEnvironment stage project =>
    "stage " ++ ofInt64 stage ++ " of project " ++ ofInt64 project ++
      " has no environment configured, contact an administrator"
  | .incompleteServer setting missing =>
    "CI server setting " ++ setting ++ " is incomplete (missing " ++
      String.intercalate ", " missing ++ "), check the integration settings"
  | .noToken user => "user " ++ user ++ " has no API token"
  | .noContainer name => "system compile environment " ++ name ++ " is not configured"

def Invalidity.message : Invalidity → String
  | .noApps kind => "no apps selected for the " ++ Named.name kind
  | .projectEnded name =>
    "project " ++ name ++ " has ended, ask an administrator to reopen it and retry"
  | .undeclaredStep index stage => "step " ++ ofInt32 index ++ " is not declared in stage " ++ stage
  | .wrongStep step kind wanted =>
    "current step " ++ step ++ " is a " ++ Named.name kind ++ " step, not a " ++ Named.name wanted ++
      " step"
  | .nothingToRun step => "build step " ++ step ++ " declares no runnable sub-tasks"
  | .unarranged apps environment =>
    "save the arrangement of apps " ++ String.intercalate "," apps ++ " in " ++ environment ++
      " and retry"
  | .nothingRendered => "none of the selected apps could be rendered for deploy"
  | .neverStarted job => "job " ++ ofInt64 job ++ " was never started by the CI server"
  | .notManual step kind =>
    "current step " ++ step ++ " is a " ++ Named.name kind ++ " step, operation not allowed"
  | .noStepAfter stage index => "stage " ++ stage ++ " has no step after " ++ ofInt32 index

def Absence.name : Absence → String
  | .project p => "project " ++ ofInt64 p
  | .order o => "publish order " ++ ofInt64 o
  | .orderInProject o p => "publish order " ++ ofInt64 o ++ " in project " ++ ofInt64 p
  | .snapshot s => "pipeline instance " ++ ofInt64 s
  | .stage st s => "stage " ++ ofInt64 st ++ " in pipeline instance " ++ ofInt64 s
  | .step index stageName => "step " ++ ofInt32 index ++ " in stage " ++ stageName
  | .app a p => "app " ++ ofInt64 a ++ " in project " ++ ofInt64 p
  | .repository r => "repository " ++ ofInt64 r
  | .setting s => "integration setting " ++ ofInt64 s
  | .jobOfOrder o => "job of publish order " ++ ofInt64 o
  | .job kind j o st =>
    Named.name kind ++ " job " ++ ofInt64 j ++ " of publish order " ++ ofInt64 o ++ " stage " ++
      ofInt64 st

def Purpose.failure : Purpose → String
  | .reachServer => "CI server is unreachable"
  | .submission kind => Named.name kind ++ " submission failed"
  | .cancellation => "CI abort failed"
  | .application => "manifest apply failed"
  | .history fullName branch => "commit lookup of " ++ fullName ++ "@" ++ branch ++ " failed"

namespace EngineError

def kind : EngineError → ErrorKind
  | misconfigured _ => .config
  | wrongSetting .. => .settingKind
  | conflict _ => .conflict
  | refused _ => .invalidState
  | invalid _ => .validation
  | absent _ => .notFound
  | outside .. => .external
  | manifest _ => .manifest
  | storage _ => .database

def jobList (jobs : List Int64) : String := String.intercalate "," (jobs.map ofInt64)

def message : EngineError → String
  | misconfigured cause => cause.message
  | wrongSetting id expected actual =>
    "integration setting " ++ ofInt64 id ++ " is of type " ++ Named.name actual ++ ", expected " ++
      Named.name expected
  | conflict jobs =>
    "current stage already has running jobs (" ++ jobList jobs ++ "), retry after they finish"
  | refused cause => cause.message
  | invalid cause => cause.message
  | absent what => what.name ++ " not found"
  | outside purpose cause => purpose.failure ++ ": " ++ cause.text
  | manifest cause => "manifest error: " ++ cause.message
  | storage cause => "database error: " ++ cause.message

end EngineError

end DeliveryPipeline

import DeliveryPipeline.Engine.Error
import DeliveryPipeline.Program
import DeliveryPipeline.Text.Affix

/-! # The engine

What the engine is set up with, the names it gives to jobs, and the operations in which its work is
written: programs that may end with an error.
-/

namespace DeliveryPipeline

set_option autoImplicit false

open Text (ofInt64)

structure Engine where
  /-- the public address of the platform, without slashes at its end -/
  serverUrl : String
  jobPrefix : String
  /-- the user whose token the jobs carry -/
  serviceAccount : String
  /-- where the helper scripts are -/
  scripts : String
  /-- the working directory of containers -/
  workingDir : String
deriving DecidableEq, Repr

namespace Engine

def ofServer (url : String) : Engine where
  serverUrl := Text.baseAddress url
  jobPrefix := "conveyor"
  serviceAccount := "admin"
  scripts := "/home/admin/scripts"
  workingDir := "/home/jenkins/agent"

/-- The name under which a job is submitted; it is the same for all jobs of one scope. -/
def jobName (engine : Engine) (kind : JobKind) (project order stage : Int64) : String :=
  match kind with
  | .build => String.intercalate "_"
    [engine.jobPrefix, ofInt64 project, ofInt64 order, ofInt64 stage]
  | .deploy => String.intercalate "_" [engine.jobPrefix, ofInt64 project, ofInt64 stage]

def callbackPath (kind : JobKind) (project order stage : Int64) : String :=
  "/api/v1/pipelines/" ++ ofInt64 project ++ "/publishes/" ++ ofInt64 order ++ "/stages/" ++
    ofInt64 stage ++ "/steps/" ++ Named.name kind ++ "/callback"

def callback (engine : Engine) (token : String) (kind : JobKind) (project order stage job : Int64) :
    CallbackDescriptor where
  token := token
  url := engine.serverUrl ++ callbackPath kind project order stage
  body := .object [("publish_job_id", .ofInt64 job)]

end Engine

/-- A program that may end with an error. -/
abbrev Operation (α : Type) := ExceptT EngineError Program α

namespace Operation

variable {α : Type}

/-- Asks the store; a failure of the store ends the operation. -/
def lookup (l : Lookup) : Operation l.Answer := ExceptT.mk do
  match ← Program.ask (.lookup l) with
  | .ok answer => pure (.ok answer)
  | .error e => pure (.error (.storage e))

def update (u : Update) : Operation u.Answer := ExceptT.mk do
  match ← Program.ask (.update u) with
  | .ok answer => pure (.ok answer)
  | .error e => pure (.error (.storage e))

def errand (purpose : Purpose) (e : Errand) : Operation e.Answer := ExceptT.mk do
  match ← Program.ask (.errand e) with
  | .ok answer => pure (.ok answer)
  | .error failure => pure (.error (.outside purpose failure))

def require (error : EngineError) : Option α → Operation α
  | some a => pure a
  | none => throw error

def ensure (condition : Bool) (error : EngineError) : Operation Unit :=
  if condition then pure () else throw error

def attempt (operation : Operation α) : Operation (Except EngineError α) :=
  ExceptT.lift operation.run

end Operation

end DeliveryPipeline

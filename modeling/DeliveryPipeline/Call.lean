import DeliveryPipeline.Message
import DeliveryPipeline.Setting

/-! # Calls to collaborators

The engine reaches its store and the systems around it through calls: lookups and updates of the store,
and errands to outside systems. Each call says what type of answer it has; instead of an answer it may
get a failure.
-/

namespace DeliveryPipeline

set_option autoImplicit false

inductive StorageError where
  | noRow
  /-- the database refused, with the given state code -/
  | refused (state : String)
  /-- a stored value has no meaning -/
  | unreadable
  /-- a column does not hold a value of its type -/
  | columnMismatch
  | unavailable
deriving DecidableEq, Repr

def StorageError.message : StorageError → String
  | .noRow => "no rows returned by a query that expected to return at least one row"
  | .refused state => state
  | .unreadable | .columnMismatch | .unavailable => ""

/-- Why an errand failed: what was tried, outermost first. -/
structure ErrandError where
  chain : List String
deriving DecidableEq, Repr

def ErrandError.text (e : ErrandError) : String := String.intercalate ": " e.chain

/-- What the store is asked for. -/
inductive Lookup where
  | project (id : Int64)
  | app (id : Int64)
  | apps (ids : List Int64)
  | environment (project stage : Int64)
  | repository (id : Int64)
  | arrangement (app environment : Int64)
  | imageMapping (arrangement app : Int64)
  | compileEnvironment (id : Int64)
  | compileEnvironmentNamed (name : String)
  | branches (app : Int64)
  | setting (id : Int64)
  | token (user : String)
  | order (id : Int64)
  | orderApps (order : Int64)
  | orderApp (order app : Int64)
  | snapshot (id : Int64)
  | activeJobs (scope : Scope)
  | job (id : Int64)
  | latestJob (order : Int64)
  | confirmations (snapshot stage : Int64) (stepIndex : Int32)
deriving DecidableEq, Repr

namespace Lookup

@[reducible] def Answer : Lookup → Type
  | project _ => Option Project
  | app _ => Option App
  | apps _ => List App
  | environment .. => Option Environment
  | repository _ => Option Repository
  | arrangement .. => Option Arrangement
  | imageMapping .. => Option ImageMapping
  | compileEnvironment _ | compileEnvironmentNamed _ => Option CompileEnvironment
  | branches _ => List String
  | setting _ => Option Setting
  | token _ => Option String
  | order _ => Option Order
  | orderApps _ => List OrderApp
  | orderApp .. => Option OrderApp
  | snapshot _ => Option Snapshot
  | activeJobs _ => List Job
  | job _ | latestJob _ => Option Job
  | confirmations .. => List Confirmation

def nothing : (lookup : Lookup) → lookup.Answer
  | project _ | app _ | environment .. | repository _ | arrangement .. | imageMapping ..
  | compileEnvironment _ | compileEnvironmentNamed _ | setting _ | token _ | order _ | orderApp ..
  | snapshot _ | job _ | latestJob _ => none
  | apps _ | branches _ | orderApps _ | activeJobs _ | confirmations .. => []

end Lookup

/-- The result of storing a job: its number, or the jobs that occupy its scope. -/
inductive Insertion where
  | created (id : Int64)
  | busy (ids : List Int64)
deriving DecidableEq, Repr

/-- What the store is asked to change. -/
inductive Update where
  | setOrderStatus (id : Int64) (status : OrderStatus)
  /-- moves the order to a step, unless it stands at a later one -/
  | moveOrder (id : Int64) (stepIndex : Int32) (step stepType : String) (status : OrderStatus)
  /-- stores a job, unless its scope is occupied -/
  | insertJob (draft : JobDraft)
  /-- records a job's run and sets it running -/
  | startJob (id run : Int64)
  | setJobStatus (id : Int64) (status : JobStatus)
  | addConfirmation (draft : ConfirmationDraft)
deriving DecidableEq, Repr

@[reducible] def Update.Answer : Update → Type
  | setOrderStatus .. | moveOrder .. | startJob .. | setJobStatus .. => Unit
  | insertJob _ => Insertion
  | addConfirmation _ => Int64

/-- What outside systems are asked for. -/
inductive Errand where
  | ping (server : CiServer)
  | submit (server : CiServer) (jobName : String) (plan : Plan)
  | cancel (server : CiServer) (jobName : String) (run : Int64)
  | commits (repository : Repository) (fullName : String) (history : HistoryQuery)
  | apply (cluster : Cluster) (request : ApplyRequest)
deriving Repr

@[reducible] def Errand.Answer : Errand → Type
  | ping _ | cancel .. | apply .. => Unit
  | submit .. => Int64
  | commits .. => List Commit

inductive Call where
  | lookup (lookup : Lookup)
  | update (update : Update)
  | errand (errand : Errand)
deriving Repr

namespace Call

@[reducible] def Answer : Call → Type
  | lookup l => l.Answer
  | update u => u.Answer
  | errand e => e.Answer

@[reducible] def Failure : Call → Type
  | lookup _ | update _ => StorageError
  | errand _ => ErrandError

abbrev Reply (call : Call) : Type := Except call.Failure call.Answer

end Call

end DeliveryPipeline

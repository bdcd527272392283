import DeliveryPipeline.Store
import DeliveryPipeline.Program

/-! # Running programs

A world answers calls: the store from its records, source control from recorded histories or as the host
of the repository lists its commits, and a CI server by accepting every plan under a number of its choice.
Each call may be disturbed: it fails, or a lookup finds nothing, or a job's scope is said to be occupied. A
run asks a given rule, call by call, what disturbs it, and keeps all exchanges in their order.
-/

namespace DeliveryPipeline

set_option autoImplicit false

structure History where
  fullName : String
  branch : String
  commits : List Commit
deriving Repr

structure World where
  store : Store
  histories : List History
  nextRun : Int64
  /-- The plans that have been accepted, by server and job name. -/
  accepted : List (CiServer × String) := []
  /-- The commits that a host lists for a branch of which no history is recorded. -/
  listed : Repository → String → String → List Commit := fun _ _ _ => []
  /-- The number under which a server accepts a plan. It may count over all servers, or depend on the server,
  the job name and all plans that have been accepted before. -/
  numbered : Int64 → List (CiServer × String) → CiServer → String → Int64 := fun next _ _ _ => next

inductive Disturbance where
  | none
  | storeFails (e : StorageError)
  | findsNothing
  | errandFails (e : ErrandError)
  | scopeBusy (jobs : List Int64)
deriving DecidableEq, Repr

namespace World

def commits (world : World) (repository : Repository) (fullName branch : String) : List Commit :=
  ((world.histories.find? fun h => h.fullName = fullName && h.branch = branch).map (·.commits)).getD
    (world.listed repository fullName branch)

def runFor (world : World) (server : CiServer) (name : String) : Int64 :=
  world.numbered world.nextRun world.accepted server name

def accept (world : World) (server : CiServer) (name : String) : World :=
  { world with nextRun := world.nextRun + 1, accepted := world.accepted ++ [(server, name)] }

def answerErrand (world : World) : (errand : Errand) → Except ErrandError errand.Answer × World
  | .ping _ | .cancel .. | .apply .. => (.ok (), world)
  | .submit server name _ => (.ok (world.runFor server name), world.accept server name)
  | .commits repository fullName history => (.ok (world.commits repository fullName history.branch), world)

def answerUpdate (world : World) (update : Update) : Except StorageError update.Answer × World :=
  let (reply, store) := world.store.update update
  (reply, { world with store := store })

/-- What the world replies to a call under a disturbance, and the world after it. A disturbance that
does not fit the call has no effect. -/
def reply (world : World) (disturbance : Disturbance) : (call : Call) → call.Reply × World
  | .lookup l =>
    match disturbance with
    | .storeFails e => (.error e, world)
    | .findsNothing => (.ok l.nothing, world)
    | _ => (.ok (world.store.answer l), world)
  | .update u =>
    match disturbance, u with
    | .storeFails e, _ => (.error e, world)
    | .scopeBusy jobs, .insertJob _ => (.ok (.busy jobs), world)
    | _, u => world.answerUpdate u
  | .errand e =>
    match disturbance with
    | .errandFails failure => (.error failure, world)
    | _ => world.answerErrand e

end World

/-- A rule that says what disturbs each call; it has a state of its own. -/
abbrev Rule (σ : Type) := σ → Call → Disturbance × σ

structure Run (σ α : Type) where
  value : α
  world : World
  state : σ
  exchanges : List Exchange

namespace Program

variable {σ α : Type}

def run (rule : Rule σ) : Program α → World → σ → Run σ α
  | done a, world, state => ⟨a, world, state, []⟩
  | call c next, world, state =>
    let (disturbance, state) := rule state c
    let (reply, world) := world.reply disturbance c
    let rest := run rule (next reply) world state
    { rest with exchanges := ⟨c, reply⟩ :: rest.exchanges }

end Program

end DeliveryPipeline

import DeliveryPipeline.Api.Command
import DeliveryPipeline.Proofs.Engine.Reading
import DeliveryPipeline.Proofs.Scope
import DeliveryPipeline.Proofs.Store

/-! # What commands may do

Every call of a command has a warrant: what the command asks for, what the store holds where the call
is made, and which exchanges came before it. The warrants are all that is needed to show that commands
preserve an invariant, whatever disturbs their calls.
-/

namespace DeliveryPipeline

set_option autoImplicit false

open Api (Command)

namespace Api.Command

def order : Command → Int64
  | build _ o _ _ | deploy _ o _ _ | terminate _ o _ _ | abort _ o | complete _ o _ _ _
  | confirm _ o _ | branches _ o _ | history o | stepType o _ | lastStep o _ | images o => o

/-- The stage in which a command acts on its order: the one that it names, or else the order's own. -/
def stageAt (command : Command) (order : Order) : Int64 :=
  match command with
  | build _ _ s _ | deploy _ _ s _ | terminate _ _ s _ | complete _ _ s _ _ | branches _ _ s
  | lastStep _ s => s
  | abort .. | confirm .. | history _ | stepType .. | images _ => order.stage

def completes : Command → Bool
  | complete _ _ _ _ report => report.outcome = .success
  | confirm .. => true
  | _ => false

/-- Whether a command asks for a job, or may launch the job of the step that comes next. -/
def launches : Command → Bool
  | build .. | deploy .. => true
  | command => command.completes

theorem launches_of_completes {command : Command} (h : command.completes = true) :
    command.launches = true := by
  cases command <;> first | rfl | exact h

end Api.Command

/-- A stored job that has not been submitted, the only one under its number. -/
structure IsFresh (store : Store) (job : Job) : Prop where
  mem : job ∈ store.jobs
  status : job.status = .init
  run : job.run = none
  only : ∀ other ∈ store.jobs, other.id = job.id → other = job

/-- The plan reports on the job when it has run. -/
def Engine.ReportsOn (engine : Engine) (plan : Plan) (job : Job) : Prop :=
  ∃ token, plan.callback = engine.callback token job.kind job.project job.order job.stage job.id

/-- The command completes the step at which its order stands, in the stage that it acts in. -/
structure Completing (command : Command) (store : Store) (order : Order) (snapshot : Snapshot)
    (stage : Stage) : Prop where
  completes : command.completes = true
  found : store.answer (.order command.order) = some order
  allowed : order.status.allows .advance = true
  follows : store.answer (.snapshot order.snapshot) = some snapshot
  acts : snapshot.stage? (command.stageAt order) = some stage

/-- Why a command may make a call, after some exchanges and with what is stored. -/
inductive Warrant (engine : Engine) (command : Command) (past : List Exchange) (store : Store) :
    Call → Prop
  | quiet {c : Call} (quiet : c.isQuiet = true) : Warrant engine command past store c
  | apply {cluster : Cluster} {request : ApplyRequest} {order : Order}
    (found : store.answer (.order command.order) = some order)
    (project : request.project = order.project) (stage : request.stage = command.stageAt order) :
    Warrant engine command past store (.errand (.apply cluster request))
  | insert {draft : JobDraft} {order : Order} {step : Step} (launches : command.launches = true)
    (found : store.answer (.order command.order) = some order)
    (about : draft.order = command.order) (project : draft.project = order.project)
    (stage : draft.stage = command.stageAt order)
    (stands : Engine.StandsAt store order draft.stage (Engine.stepKindOf draft.kind) step) :
    Warrant engine command past store (.update (.insertJob draft))
  | start {order : Order} (found : store.answer (.order command.order) = some order)
    (status : order.status = .init) :
    Warrant engine command past store (.update (.setOrderStatus command.order .running))
  | submit {server : CiServer} {plan : Plan} {job : Job} (fresh : IsFresh store job)
    (about : job.order = command.order) (reports : engine.ReportsOn plan job) :
    Warrant engine command past store (.errand (.submit server (engine.jobNameOf job) plan))
  | startJob {server : CiServer} {plan : Plan} {job : Job} {run : Int64} (fresh : IsFresh store job)
    (about : job.order = command.order) (reports : engine.ReportsOn plan job)
    (accepted : ⟨.errand (.submit server (engine.jobNameOf job) plan), .ok run⟩ ∈ past) :
    Warrant engine command past store (.update (.startJob job.id run))
  | terminate {project stage : Int64} {request : TerminateRequest} {order : Order} {status : OrderStatus}
    (asked : command = .terminate project command.order stage request)
    (found : store.answer (.order command.order) = some order)
    (allowed : order.status.allows .terminate = true)
    (ending : status = .terminateSuccess ∨ status = .terminateFailed) :
    Warrant engine command past store (.update (.setOrderStatus command.order status))
  | cancel {server : CiServer} {project stage : Int64} {request : TerminateRequest} {job : Job}
    {run : Int64} (asked : command = .terminate project command.order stage request)
    (latest : store.answer (.latestJob command.order) = some job) (started : job.run = some run) :
    Warrant engine command past store
      (.errand (.cancel server (engine.jobName request.kind project command.order stage) run))
  | abandon {project stage : Int64} {request : TerminateRequest} {job : Job}
    (asked : command = .terminate project command.order stage request)
    (latest : store.answer (.latestJob command.order) = some job) :
    Warrant engine command past store (.update (.setJobStatus job.id .abort))
  | abort {project : Int64} {order : Order} (asked : command = .abort project command.order)
    (found : store.answer (.order command.order) = some order)
    (allowed : order.status.allows .abort = true) :
    Warrant engine command past store (.update (.setOrderStatus command.order .abort))
  | abortJob {project : Int64} {job : Job} (asked : command = .abort project command.order)
    (latest : store.answer (.latestJob command.order) = some job) (active : job.isActive = true) :
    Warrant engine command past store (.update (.setJobStatus job.id .abort))
  | settle {project stage : Int64} {kind : JobKind} {report : Callback} {job : Job}
    (asked : command = .complete project command.order stage kind report)
    (found : store.answer (.job report.job) = some job)
    (place : job.isAt project command.order stage kind = true) (active : job.isActive = true) :
    Warrant engine command past store (.update (.setJobStatus job.id report.outcome.status))
  | fail {project stage : Int64} {kind : JobKind} {report : Callback} {order : Order}
    (asked : command = .complete project command.order stage kind report)
    (outcome : report.outcome = .failed)
    (found : store.answer (.order command.order) = some order)
    (allowed : order.status.allows .advance = true) :
    Warrant engine command past store (.update (.setOrderStatus command.order .failed))
  | confirm {project : Int64} {request : ConfirmRequest} {order : Order} {draft : ConfirmationDraft}
    (asked : command = .confirm project command.order request)
    (found : store.answer (.order command.order) = some order)
    (allowed : order.status.allows .advance = true) (about : draft.order = command.order) :
    Warrant engine command past store (.update (.addConfirmation draft))
  | finish {order : Order} {snapshot : Snapshot} {stage : Stage}
    (completing : Completing command store order snapshot stage)
    (lastStep : stage.isLastIndex order.stepIndex = true)
    (lastStage : snapshot.isLastStage (command.stageAt order) = true) :
    Warrant engine command past store (.update (.setOrderStatus command.order .success))
  | rest {order : Order} {snapshot : Snapshot} {stage : Stage}
    (completing : Completing command store order snapshot stage)
    (lastStep : stage.isLastIndex order.stepIndex = true)
    (lastStage : snapshot.isLastStage (command.stageAt order) = false) :
    Warrant engine command past store (.update (.setOrderStatus command.order .running))
  | move {order : Order} {snapshot : Snapshot} {stage : Stage} {next : Step}
    (completing : Completing command store order snapshot stage)
    (lastStep : stage.isLastIndex order.stepIndex = false)
    (follows : (stage.nextIndex? order.stepIndex).bind stage.step? = some next) :
    Warrant engine command past store
      (.update (.moveOrder command.order next.index next.name (Named.name next.kind) .running))

namespace Operation

variable {α β : Type} {engine : Engine} {command : Command} {past : List Exchange} {world : World}

def IsWarranted (engine : Engine) (command : Command) (operation : Operation α) : Assertion :=
  operation.Meets (fun c past world => Warrant engine command past world.store c)
    (fun _ _ _ => True) (fun _ _ _ => True)

theorem isWarranted_pure {a : α} : IsWarranted engine command (pure a) past world := trivial

theorem isWarranted_throw {e : EngineError} :
    IsWarranted engine command (throw e : Operation α) past world := trivial

theorem IsWarranted.bind {x : Operation α} {f : α → Operation β}
    (h : IsWarranted engine command x past world)
    (rest : ∀ a past world, IsWarranted engine command (f a) past world) :
    IsWarranted engine command (x >>= f) past world := by
  refine meets_bind.mpr (Program.Meets.mono h fun result past world _ => ?_)
  cases result with
  | ok a => exact rest a past world
  | error e => trivial

theorem IsWarranted.attempt {x : Operation α} (h : IsWarranted engine command x past world) :
    IsWarranted engine command (attempt x) past world :=
  meets_attempt.mpr h

theorem Reads.isWarranted_bind {found : α → Prop} {x : Operation α} {f : α → Operation β}
    (h : Reads world found x)
    (rest : ∀ a past, found a → IsWarranted engine command (f a) past world) :
    IsWarranted engine command (x >>= f) past world :=
  h.meets_bind (fun _ _ hQuiet => .quiet hQuiet) (fun _ _ => trivial) rest

theorem Reads.isWarranted {found : α → Prop} {x : Operation α} (h : Reads world found x) :
    IsWarranted engine command x past world := by
  rw [← bind_pure x]
  exact h.isWarranted_bind fun _ _ _ => isWarranted_pure

theorem isWarranted_update_bind {u : Update} {f : u.Answer → Operation β} {answer : u.Answer}
    {store : Store} (applied : world.store.update u = (.ok answer, store))
    (plain : ∀ draft, u ≠ .insertJob draft)
    (warrant : Warrant engine command past world.store (.update u))
    (rest : IsWarranted engine command (f answer) (past ++ [⟨.update u, .ok answer⟩])
      { world with store := store }) :
    IsWarranted engine command (update u >>= f) past world :=
  meets_update_bind applied plain warrant rest fun _ => trivial

theorem isWarranted_update {u : Update} {answer : u.Answer} {store : Store}
    (applied : world.store.update u = (.ok answer, store)) (plain : ∀ draft, u ≠ .insertJob draft)
    (warrant : Warrant engine command past world.store (.update u)) :
    IsWarranted engine command (update u) past world :=
  meets_update applied plain warrant trivial fun _ => trivial

theorem isWarranted_errand_bind {purpose : Purpose} {e : Errand} {f : e.Answer → Operation β}
    (warrant : Warrant engine command past world.store (.errand e))
    (rest : ∀ answer after, after.store = world.store →
      IsWarranted engine command (f answer) (past ++ [⟨.errand e, .ok answer⟩]) after) :
    IsWarranted engine command (errand purpose e >>= f) past world :=
  meets_bind.mpr (meets_errand warrant rest fun _ => trivial)

end Operation

end DeliveryPipeline

import DeliveryPipeline.Proofs.Engine.Preparation
import DeliveryPipeline.Proofs.Interleaving.Basic
import DeliveryPipeline.Proofs.Program.Agreement
import DeliveryPipeline.Proofs.Program.Deeds
import DeliveryPipeline.Proofs.Program.Yields

/-! # Orders that have ended

Once an order has a terminal status, it is not terminated, aborted or confirmed any more, and a report
settles its job but moves nothing and launches nothing. A request for a job does not look at the status
of its order, except to set an order running that has not been; so it takes an order that has ended for
one that is running.
-/

namespace DeliveryPipeline

set_option autoImplicit false

open Api (Command)
open Operation

/-- Calls that do work for an order: a job is stored, a plan submitted, or a manifest applied. -/
def Call.works : Call → Bool
  | .update (.insertJob _) | .errand (.submit ..) | .errand (.apply ..) => true
  | _ => false

theorem Call.works_of_isQuiet {c : Call} (h : c.isQuiet = true) : c.works = false := by
  cases c with
  | lookup l => rfl
  | update u => cases h
  | errand e => cases e <;> first | rfl | cases h

def Api.Command.requestsJob : Command → Bool
  | build .. | deploy .. => true
  | _ => false

theorem OrderStatus.allows_of_isTerminal {status : OrderStatus} (h : status.isTerminal = true)
    (action : OrderAction) : status.allows action = false := by
  cases action <;> cases status <;> first | rfl | cases h

namespace Operation

variable {α β : Type} {found : α → Prop} {past : List Exchange} {world : World}

def DoesNoWork (x : Operation α) : Assertion :=
  x.Meets (fun c _ _ => c.works = false) (fun _ _ _ => True) fun _ _ _ => True

theorem Reads.doesNoWork {x : Operation α} (h : Reads world found x) : x.DoesNoWork past world := by
  refine Program.Reads.meets h (fun _ _ => Call.works_of_isQuiet) fun result _ _ _ => ?_
  cases result <;> trivial

theorem Reads.doesNoWork_bind {x : Operation α} {f : α → Operation β} (h : Reads world found x)
    (rest : ∀ a past, found a → (f a).DoesNoWork past world) : (x >>= f).DoesNoWork past world :=
  h.meets_bind (fun _ _ => Call.works_of_isQuiet) (fun _ _ => trivial) rest

end Operation

namespace Engine

variable {engine : Engine} {orderId : Int64} {order : Order} {past : List Exchange} {world : World}

theorem doesNoWork_complete (project stage : Int64) (kind : JobKind) (report : Callback)
    (found : world.store.answer (.order orderId) = some order)
    (stays : order.status.allows .advance = false) :
    (complete engine project orderId stage kind report).DoesNoWork past world := by
  unfold complete
  refine reads_lookup.doesNoWork_bind fun answer past _ => ?_
  refine reads_require.doesNoWork_bind fun job past _ => ?_
  refine (reads_findOrder orderId).doesNoWork_bind fun found' past hFound => ?_
  obtain rfl := Option.some.inj (hFound.symm.trans found)
  split
  · trivial
  · refine meets_update_bind rfl (by simp) rfl ?_ fun _ => trivial
    rw [stays]
    trivial

theorem doesNoWork_operation (engine : Engine) {command : Command}
    (found : world.store.answer (.order command.order) = some order)
    (ended : order.status.isTerminal = true) (other : command.requestsJob = false) :
    (command.operation engine).DoesNoWork past world := by
  have hStays := OrderStatus.allows_of_isTerminal ended
  have hRefused : ∀ {found' : Order} {action : OrderAction},
      world.store.answer (.order command.order) = some found' → ¬ found'.status.allows action = true :=
    fun hFound => by
      rw [Option.some.inj (hFound.symm.trans found), hStays]
      exact Bool.false_ne_true
  cases command with
  | build | deploy => cases other
  | terminate p o s request =>
    refine (reads_findOrder o).doesNoWork_bind fun found' past hFound => ?_
    exact (reads_ensureAllowed found' .terminate).doesNoWork_bind fun _ past hAllowed =>
      absurd hAllowed (hRefused hFound)
  | abort p o =>
    refine (reads_findOrderOf p o).doesNoWork_bind fun found' past ⟨hFound, _⟩ => ?_
    exact (reads_ensureAllowed found' .abort).doesNoWork_bind fun _ past hAllowed =>
      absurd hAllowed (hRefused hFound)
  | complete p o s kind report => exact doesNoWork_complete p s kind report found (hStays .advance)
  | confirm p o request =>
    refine (reads_findOrderOf p o).doesNoWork_bind fun found' past ⟨hFound, _⟩ => ?_
    exact (reads_ensureAllowed found' .advance).doesNoWork_bind fun _ past hAllowed =>
      absurd hAllowed (hRefused hFound)
  | branches p o s => exact (reads_branches p o s).doesNoWork
  | history o => exact (reads_history o).doesNoWork
  | stepType o index => exact (reads_stepType o index).doesNoWork
  | lastStep o s => exact (reads_lastStep o s).doesNoWork
  | images o => exact (reads_images o).doesNoWork

theorem launch_congr {order' : Order} (started : order.status ≠ .init) (started' : order'.status ≠ .init) :
    launch engine order = launch engine order' := by
  funext server draft planFor
  simp only [launch, startOrder, started, started', if_false]

theorem onlyMakes_launch (started : order.status ≠ .init) (server : CiServer) (draft : JobDraft)
    (planFor : Int64 → Plan) :
    (launch engine order server draft planFor).OnlyMakes Call.sparesOrders := by
  have hInsert : (insertJob draft).OnlyMakes Call.sparesOrders := by
    refine OnlyMakes.bind (onlyMakes_update rfl) fun answer => ?_
    cases answer with
    | created id => exact onlyMakes_pure id
    | busy ids => exact onlyMakes_throw _
  unfold launch startOrder
  rw [if_neg started]
  refine hInsert.bind fun job => (onlyMakes_pure ()).bind fun _ => ?_
  exact (onlyMakes_errand rfl).bind fun run => (onlyMakes_update rfl).bind fun _ => onlyMakes_pure _

variable {orders : List Order} {status : OrderStatus}

theorem alike_build (engine : Engine) (project stage : Int64) (request : BuildRequest)
    (found : world.store.answer (.order orderId) = some order)
    (found' : (world.withOrders orders).store.answer (.order orderId) = some { order with status := status })
    (started : order.status ≠ .init) (started' : status ≠ .init) :
    (build engine project orderId stage request).run.Alike world (world.withOrders orders)
      (build engine project orderId stage request).run := by
  unfold build
  refine (onlyMakes_ensure _ _).alike_bind fun _ => alike_findOrderOf_bind found found' rfl ?_
  refine (onlyRefers_ensureIdle _).alike_bind fun _ => ?_
  refine (onlyRefers_reachServer project stage).alike_bind fun (environment, server) => ?_
  refine (onlyRefers_stepFor .build order stage).alike_bind fun step => ?_
  refine (onlyMakes_ensure _ _).alike_bind fun _ => ?_
  refine (onlyMakes_mapM (onlyRefers_gatherApp project stage environment server) _).alike_bind
    fun gathered => ?_
  refine (onlyRefers_findContainer engine _).alike_bind fun agent => ?_
  refine (onlyRefers_findContainer engine _).alike_bind fun imageBuilder => ?_
  refine (onlyRefers_findRegistry environment).alike_bind fun registry => ?_
  refine (onlyRefers_findToken _).alike_bind fun token => ?_
  have hLaunch : launch engine { order with status := status } = launch engine order :=
    launch_congr started' started
  rw [hLaunch]
  exact (onlyMakes_launch started _ _ _).alike world orders

theorem alike_deploy (engine : Engine) (project stage : Int64) (request : DeployRequest)
    (found : world.store.answer (.order orderId) = some order)
    (found' : (world.withOrders orders).store.answer (.order orderId) = some { order with status := status })
    (started : order.status ≠ .init) (started' : status ≠ .init) :
    (deploy engine project orderId stage request).run.Alike world (world.withOrders orders)
      (deploy engine project orderId stage request).run := by
  unfold deploy
  refine (onlyMakes_ensure _ _).alike_bind fun _ => alike_findOrderOf_bind found found' rfl ?_
  refine (onlyRefers_ensureIdle _).alike_bind fun _ => ?_
  refine (onlyRefers_reachServer project stage).alike_bind fun (environment, server) => ?_
  refine (onlyRefers_stepFor .deploy order stage).alike_bind fun step => ?_
  refine (onlyRefers_checkArrangements project environment.id environment.name _).alike_bind fun _ => ?_
  refine (onlyMakes_mapM (onlyRefers_renderApp orderId environment.id) _).alike_bind fun rendered => ?_
  refine (onlyMakes_ensure _ _).alike_bind fun _ => ?_
  refine (onlyRefers_findCluster environment).alike_bind fun (clusterName, cluster) => ?_
  refine (onlyRefers_findContainer engine _).alike_bind fun agent => ?_
  refine (onlyRefers_findToken _).alike_bind fun token => ?_
  refine (onlyRefers_creatorToken _).alike_bind fun userToken => ?_
  have hLaunch : launch engine { order with status := status } = launch engine order :=
    launch_congr started' started
  rw [hLaunch]
  exact OnlyMakes.alike ((onlyMakes_errand rfl).bind fun _ => onlyMakes_launch started _ _ _) world orders

end Engine

def World.reopened (world : World) (id : Int64) : World :=
  { world with store := world.store.changeOrder id fun order => { order with status := .running } }

/-- Whatever disturbs its calls, a command does no work for an order that has ended, unless it requests
a job. A request for a job makes the calls that it would make if the order were running, and ends as it
would end then. -/
theorem works_of_isTerminal {σ : Type} (engine : Engine) (rule : Rule σ) (state : σ) (command : Command)
    {world : World} {order : Order}
    (found : world.store.answer (.order command.order) = some order)
    (ended : order.status.isTerminal = true) :
    let run := (command.operation engine).run.run rule world state
    (command.requestsJob = false → ∀ e ∈ run.exchanges, e.call.works = false) ∧
      (command.requestsJob = true →
        run.Agrees ((command.operation engine).run.run rule (world.reopened command.order) state)) := by
  refine ⟨fun hOther e he => ?_, fun hRequests => ?_⟩
  · have hMeets : (command.operation engine).DoesNoWork [] world :=
      Engine.doesNoWork_operation engine found ended hOther
    obtain ⟨_, _, hWorks⟩ := Program.Meets.allowed_of_mem_exchanges hMeets rule state e he
    exact hWorks
  · have hStarted : order.status ≠ .init := by
      intro hInit
      rw [hInit] at ended
      cases ended
    have hReopened : (world.reopened command.order).store.answer (.order command.order) =
        some { order with status := .running } := by
      have hAnswer := world.store.answer_changeOrder command.order
        (fun order => { order with status := .running }) fun _ => rfl
      rw [found] at hAnswer
      exact hAnswer
    cases command with
    | build p o s request =>
      exact Engine.alike_build engine p s request found hReopened hStarted (by simp) σ rule state
    | deploy p o s request =>
      exact Engine.alike_deploy engine p s request found hReopened hStarted (by simp) σ rule state
    | _ => cases hRequests

def abortedSample : World where
  store :=
    { Interleaving.sampleStore with
      orders := [⟨5, 1, "v1.2.0", "spring release", 3, 1, "build", "build", .abort, "alice", 1⟩] }
  histories := []
  nextRun := 77

theorem works_in_abortedSample :
    let engine : Engine := .ofServer "http://conveyor.local"
    let order : Order := ⟨5, 1, "v1.2.0", "spring release", 3, 1, "build", "build", .abort, "alice", 1⟩
    let confirm := ((Command.confirm 1 5 ⟨"bob", "go"⟩).operation engine).run
    let build := ((Command.build 1 5 3 ⟨"alice", [⟨12, "dev", "", none⟩], []⟩).operation engine).run
    abortedSample.store.answer (.order 5) = some order ∧ order.status.isTerminal = true ∧
      (∀ e ∈ (confirm.run Rule.undisturbed abortedSample ()).exchanges, e.call.works = false) ∧
      (build.run Rule.undisturbed abortedSample ()).Agrees
        (build.run Rule.undisturbed (abortedSample.reopened 5) ()) := by
  intro engine order confirm build
  have hFound : abortedSample.store.answer (.order 5) = some order := rfl
  have hEnded : order.status.isTerminal = true := rfl
  refine ⟨hFound, hEnded, ?_, ?_⟩
  · exact (works_of_isTerminal engine Rule.undisturbed () (.confirm 1 5 ⟨"bob", "go"⟩) hFound hEnded).1 rfl
  · exact (works_of_isTerminal engine Rule.undisturbed ()
      (.build 1 5 3 ⟨"alice", [⟨12, "dev", "", none⟩], []⟩) hFound hEnded).2 rfl

/-- For an order that has been aborted, a job is stored and its plan is accepted by the CI server. -/
theorem launched_after_abort :
    let build := (Command.build 1 5 3 ⟨"alice", [⟨12, "dev", "", none⟩], []⟩).operation
      (.ofServer "http://conveyor.local")
    let run := build.run.run Rule.undisturbed abortedSample ()
    (abortedSample.store.answer (.order 5)).map (·.status.isTerminal) = some true ∧
      (run.exchanges.filter fun e => e.call.works).length = 2 ∧
      (run.exchanges.any fun e => e.call.submits) = true ∧
      (run.world.store.answer (.job 1)).map (fun job => (job.order, job.status, job.run)) =
        some (5, .running, some 77) := by
  decide +kernel

end DeliveryPipeline

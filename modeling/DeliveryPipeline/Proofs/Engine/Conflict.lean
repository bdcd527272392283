import DeliveryPipeline.FaultPlan
import DeliveryPipeline.Proofs.Engine.Creation
import DeliveryPipeline.Proofs.Engine.Isolation
import DeliveryPipeline.Proofs.Interleaving.Basic

/-! # Conflicts

Whether a scope is occupied is looked up before any work is done, and seen to once more by the store when
it is to store the job. The lookup may be told that there is nothing; the store cannot be passed. A deploy
that gets past the lookup and is refused by the store has applied its manifests in between.
-/

namespace DeliveryPipeline

set_option autoImplicit false

open Operation

def JobRequest.isEmpty : JobRequest → Bool
  | .build request => request.apps.isEmpty
  | .deploy request => request.apps.isEmpty

def Call.applies : Call → Bool
  | .errand (.apply ..) => true
  | _ => false

theorem Call.applies_of_isQuiet {c : Call} (h : c.isQuiet = true) : c.applies = false := by
  cases c with
  | lookup | update => rfl
  | errand e => cases e <;> first | rfl | cases h

theorem Engine.meets_launch_of_busy {allowed : Call → Assertion} {engine : Engine} {found : Order}
    {server : CiServer} {draft : JobDraft} {planFor : Int64 → Plan} {past : List Exchange} {world : World}
    (busy : world.store.activeJobs draft.scope ≠ [])
    (insert : allowed (.update (.insertJob draft)) past world) :
    (launch engine found server draft planFor).Meets allowed (fun _ _ _ => False)
      (fun _ _ here => here = world) past world := by
  refine meets_bind.mpr (meets_insertJob insert (fun id _ hIdle => ?_) fun _ _ => rfl)
  exact absurd hIdle busy

theorem JobRequest.meets_create_of_busy (engine : Engine) (request : JobRequest)
    {project order stage : Int64} {world : World}
    (busy : world.store.activeJobs (.of request.kind project order stage) ≠ []) :
    (request.create engine project order stage).Meets (fun c _ _ => c.submits = false)
      (fun _ _ _ => False) (fun _ _ here => here = world) [] world := by
  refine (request.leadsTo_launch engine project order stage []).meets prepared_nil (fun _ h => nomatch h)
    (fun _ _ _ => Call.submits_of_isPreparation) (fun _ _ _ => rfl) ?_
  rintro _ past - - ⟨-, -, -, hPlace, -⟩
  obtain ⟨rfl, rfl, rfl, hKind⟩ := Job.isAt_iff.mp (hPlace 0)
  refine Engine.meets_launch_of_busy ?_ rfl
  rw [← hKind] at busy
  exact busy

theorem JobRequest.run_create_of_busy {σ : Type} (request : JobRequest) (engine : Engine)
    {project order stage : Int64} {world : World}
    (busy : world.store.activeJobs (.of request.kind project order stage) ≠ []) (rule : Rule σ) (state : σ) :
    let run := (request.create engine project order stage).run.run rule world state
    (∃ e, run.value = .error e) ∧ run.world = world := by
  intro run
  have hEnds : outcome _ _ run.value _ run.world :=
    Program.Meets.ends_run (request.meets_create_of_busy engine busy) rule state
  cases hValue : run.value with
  | ok launch =>
    rw [hValue] at hEnds
    exact hEnds.elim
  | error e =>
    rw [hValue] at hEnds
    exact ⟨⟨e, rfl⟩, hEnds⟩

section Report

variable {σ : Type} {rule : Rule σ} {world : World} {state : σ}

theorem Engine.run_ensureIdle {scope : Scope} {jobs : List Job}
    (told : (world.reply (rule state (.lookup (.activeJobs scope))).1 (.lookup (.activeJobs scope))).1 =
      .ok jobs) (busy : jobs ≠ []) :
    (ensureIdle scope).run.run rule world state =
      ⟨.error (.conflict (jobs.map (·.id))), world, (rule state (.lookup (.activeJobs scope))).2,
        [⟨.lookup (.activeJobs scope), .ok jobs⟩]⟩ := by
  have hLookup := run_lookup told
  have hActive : (activeJobs scope).run.run rule world state = ⟨.ok (jobs.map (·.id)), world,
      (rule state (.lookup (.activeJobs scope))).2, [⟨.lookup (.activeJobs scope), .ok jobs⟩]⟩ := by
    refine (run_bind_of_ok (congrArg Run.value hLookup)).trans ?_
    rw [hLookup]
    rfl
  refine (run_bind_of_ok (congrArg Run.value hActive)).trans ?_
  rw [hActive]
  cases jobs with
  | nil => exact absurd rfl busy
  | cons job rest => rfl

theorem ensure_bind {α : Type} {condition : Bool} {error : EngineError} {f : Unit → Operation α}
    (h : condition = true) : (ensure condition error >>= f) = f () := by
  rw [h]
  rfl

theorem JobRequest.create_eq_bind (engine : Engine) (project order stage : Int64) {request : JobRequest}
    (named : request.isEmpty = false) :
    ∃ rest : Order → Operation Launch, request.create engine project order stage =
      (Engine.findOrderOf project order >>= fun found =>
        Engine.ensureIdle (.of request.kind project order stage) >>= fun _ => rest found) := by
  have hNamed : (!request.isEmpty) = true := by rw [named]; rfl
  cases request with
  | build request => exact ⟨_, ensure_bind hNamed⟩
  | deploy request => exact ⟨_, ensure_bind hNamed⟩

theorem JobRequest.run_create_of_told (engine : Engine) {request : JobRequest}
    {project order stage : Int64} {found : Order} {jobs : List Job} (named : request.isEmpty = false)
    (busy : jobs ≠ []) :
    let verification := (Engine.findOrderOf project order).run.run rule world state
    let check := Call.lookup (.activeJobs (.of request.kind project order stage))
    let run := (request.create engine project order stage).run.run rule world state
    verification.value = .ok found →
      (world.reply (rule verification.state check).1 check).1 = .ok jobs →
      run.value = .error (.conflict (jobs.map (·.id))) ∧
        ∀ e ∈ run.exchanges, e.call.isErrand = false := by
  intro verification check run verified told
  obtain ⟨rest, hCreate⟩ := request.create_eq_bind engine project order stage named
  have hLooks : (Engine.findOrderOf project order).OnlyMakes fun c => !c.isErrand && c.isQuiet :=
    Engine.onlyMakes_findOrderOf rfl rfl
  obtain ⟨hWorld, hExchanges⟩ := hLooks.world_of_run
    (fun _ hBoth => (Bool.and_eq_true_iff.mp hBoth).2) rule world state
  have hIdle := Engine.run_ensureIdle told busy
  have hRest := run_bind_of_error (f := fun _ => rest found) (congrArg Run.value hIdle)
  have hRun := run_bind_of_ok (f := fun found =>
    Engine.ensureIdle (.of request.kind project order stage) >>= fun _ => rest found) verified
  dsimp only at hRest hRun
  rw [← hCreate, hWorld, hRest, hIdle] at hRun
  rw [show run = _ from hRun]
  refine ⟨rfl, List.forall_mem_append.mpr ⟨fun e he => ?_, List.forall_mem_singleton.mpr rfl⟩⟩
  simpa using (Bool.and_eq_true_iff.mp (hExchanges e he)).1

end Report

theorem Store.activeJobs_ne_nil {store : Store} {job : Job} {scope : Scope} (stored : job ∈ store.jobs)
    (active : job.isActive = true) (covers : scope.covers job = true) : store.activeJobs scope ≠ [] := by
  intro hIdle
  rw [Store.activeJobs_eq_nil_iff.mp hIdle job stored active] at covers
  cases covers

theorem Store.activeJobs_perm (store : Store) (kind : JobKind) (project order stage : Int64) :
    (store.activeJobs (.of kind project order stage)).Perm
      (store.jobs.filter fun job => job.isActive && job.scope = .of kind project order stage) := by
  have hSame : (store.jobs.filter fun job => job.isActive && (Scope.of kind project order stage).covers job) =
      store.jobs.filter fun job => job.isActive && job.scope = .of kind project order stage := by
    refine List.filter_congr fun job _ => ?_
    rw [Bool.eq_iff_iff]
    simp [Scope.covers_of_iff]
  rw [← hSame]
  exact sortedBy_perm _

/-- While an active job occupies its scope, a request fails, changes nothing and submits nothing, whatever
disturbs its calls. If it names apps, its order is found and the lookup of active jobs works, then it fails
with a conflict that lists these jobs in ascending order, and before it has asked any other system. -/
theorem JobRequest.refused_of_busy {σ : Type} (engine : Engine) (request : JobRequest)
    {project order stage : Int64} {job : Job} {world : World} (stored : job ∈ world.store.jobs)
    (active : job.isActive = true) (occupies : job.scope = .of request.kind project order stage)
    (rule : Rule σ) (state : σ) :
    let scope := Scope.of request.kind project order stage
    let run := (request.create engine project order stage).run.run rule world state
    let verification := (Engine.findOrderOf project order).run.run rule world state
    let check := Call.lookup (.activeJobs scope)
    ((∃ e, run.value = .error e) ∧ run.world = world ∧ ∀ e ∈ run.exchanges, e.call.submits = false) ∧
      ∀ found, request.isEmpty = false → verification.value = .ok found →
        (world.reply (rule verification.state check).1 check).1 = .ok (world.store.activeJobs scope) →
        ∃ ids, run.value = .error (.conflict ids) ∧ ids.Pairwise (· ≤ ·) ∧
          ids.Perm ((world.store.jobs.filter fun job => job.isActive && job.scope = scope).map (·.id)) ∧
          (EngineError.conflict ids).message = "current stage already has running jobs (" ++
            String.intercalate "," (ids.map Text.ofInt64) ++ "), retry after they finish" ∧
          ∀ e ∈ run.exchanges, e.call.isErrand = false := by
  intro scope run verification check
  have hBusy : world.store.activeJobs scope ≠ [] :=
    Store.activeJobs_ne_nil stored active (Scope.covers_of_iff.mpr occupies)
  refine ⟨?_, fun found named verified told => ?_⟩
  · have hMeets := request.meets_create_of_busy engine hBusy
    have hRefused : (∃ e, run.value = .error e) ∧ run.world = world := by
      have hEnds : outcome _ _ run.value _ run.world := Program.Meets.ends_run hMeets rule state
      cases hValue : run.value with
      | ok launch =>
        rw [hValue] at hEnds
        exact hEnds.elim
      | error e =>
        rw [hValue] at hEnds
        exact ⟨⟨e, rfl⟩, hEnds⟩
    refine ⟨hRefused.1, hRefused.2, fun e he => ?_⟩
    obtain ⟨_, _, hSubmits⟩ := Program.Meets.allowed_of_mem_exchanges hMeets rule state e he
    exact hSubmits
  · obtain ⟨hValue, hAlone⟩ := request.run_create_of_told engine named hBusy verified told
    refine ⟨_, hValue, ?_, (world.store.activeJobs_perm _ _ _ _).map _, rfl, hAlone⟩
    exact List.pairwise_map.mpr (pairwise_sortedBy _)

theorem JobRequest.refused_of_busy_in_sample :
    let engine : Engine := .ofServer "http://conveyor.local"
    let world : World := { store := Session.sampleStore, histories := [], nextRun := 100 }
    let deploy : JobRequest := .deploy ⟨"alice", [⟨12⟩]⟩
    let run := (deploy.create engine 1 5 4).run.run Rule.undisturbed world ()
    let blind := (deploy.create engine 1 5 4).run.run FaultPlan.disturb world
      { FaultPlan.none with gaps := [(.activeJobs, .always)] }
    (∃ job ∈ world.store.jobs, job.isActive = true ∧ job.scope = .of .deploy 1 5 4) ∧
      run.value = .error (.conflict [9]) ∧ (∀ e ∈ run.exchanges, e.call.isErrand = false) ∧
      (∃ e, blind.value = .error e) ∧ blind.world = world := by
  intro engine world deploy run blind
  have hStored : (⟨9, 5, 1, 4, .deploy, some 77, .running, "alice", []⟩ : Job) ∈ world.store.jobs := by
    decide
  have hScope : (⟨9, 5, 1, 4, .deploy, some 77, .running, "alice", []⟩ : Job).scope =
      .of deploy.kind 1 5 4 := rfl
  obtain ⟨-, hConflict⟩ := refused_of_busy engine deploy hStored rfl hScope Rule.undisturbed ()
  obtain ⟨⟨hRefused, hSame, -⟩, -⟩ := refused_of_busy engine deploy hStored rfl hScope FaultPlan.disturb
    { FaultPlan.none with gaps := [(.activeJobs, .always)] }
  obtain ⟨ids, hValue, -, hPerm, -, hAlone⟩ := hConflict
    ⟨5, 1, "v1.2.0", "spring release", 3, 1, "build", "build", .running, "alice", 1⟩ rfl rfl rfl
  have hIds : ids = [9] := List.perm_singleton.mp hPerm
  exact ⟨⟨_, hStored, rfl, rfl⟩, hIds ▸ hValue, hAlone, hRefused, hSame⟩

namespace Engine

/-- What was exchanged before a deploy ends with a conflict: it has only looked, or it has applied its
manifests, and then the store has reported the scope as occupied. -/
inductive Conflicted (ids : List Int64) : Knowledge
  | early {past : List Exchange} (quiet : ∀ e ∈ past, e.call.isQuiet = true) : Conflicted ids past
  | late {past : List Exchange} {cluster : Cluster} {request : ApplyRequest} {draft : JobDraft}
    (quiet : ∀ e ∈ past, e.call.isQuiet = true) :
    Conflicted ids (past ++ [⟨.errand (.apply cluster request), .ok ()⟩] ++
      [⟨.update (.insertJob draft), .ok (.busy ids)⟩])

abbrev Conflicts {α : Type} (x : Operation α) : Knowledge :=
  x.Obeys (fun _ _ => True) (fun _ _ => True) fun e past => ∀ ids, e = .conflict ids → Conflicted ids past

variable {α β : Type} {past : List Exchange}

theorem conflicts_bind {x : Operation α} {f : α → Operation β} (h : x.OnlyMakes Call.isQuiet)
    (quiet : ∀ e ∈ past, e.call.isQuiet = true)
    (rest : ∀ a past, (∀ e ∈ past, e.call.isQuiet = true) → Conflicts (f a) past) :
    Conflicts (x >>= f) past := by
  refine h.obeys_bind (fun _ _ _ _ => trivial) (fun e own hOwn ids _ => ?_) fun a own hOwn => ?_
  · exact .early (List.forall_mem_append.mpr ⟨quiet, hOwn⟩)
  · exact rest a _ (List.forall_mem_append.mpr ⟨quiet, hOwn⟩)

theorem OnlyRefers.conflicts_bind {x : Operation α} {f : α → Operation β} (h : OnlyRefers x)
    (quiet : ∀ e ∈ past, e.call.isQuiet = true)
    (rest : ∀ a past, (∀ e ∈ past, e.call.isQuiet = true) → Conflicts (f a) past) :
    Conflicts (x >>= f) past :=
  Engine.conflicts_bind (h.mono fun _ => Call.isQuiet_of_isReference) quiet rest

theorem conflicts_launch {engine : Engine} {found : Order} {server : CiServer} {draft : JobDraft}
    {planFor : Int64 → Plan}
    (busy : ∀ ids, Conflicted ids (past ++ [⟨.update (.insertJob draft), .ok (.busy ids)⟩])) :
    Conflicts (launch engine found server draft planFor) past := by
  have hSubmit : ∀ name job past, Conflicts (do
      let run ← errand (.submission draft.kind) (.submit server name (planFor job))
      update (.startJob job run)
      pure (⟨run, name⟩ : Launch)) past := by
    intro name job past
    refine obeys_errand_bind trivial (fun run => ?_) fun _ _ h => nomatch h
    exact obeys_update_bind trivial (fun _ => trivial) fun _ _ h => nomatch h
  refine obeys_bind.mpr (obeys_bind.mpr (obeys_update trivial (fun answer => ?_) fun _ _ h => nomatch h))
  cases answer with
  | busy jobs =>
    intro ids h
    cases h
    exact busy jobs
  | created job =>
    unfold startOrder
    split
    · exact obeys_update_bind trivial (fun _ => hSubmit _ job _) fun _ _ h => nomatch h
    · exact hSubmit _ job _

theorem conflicts_deploy (engine : Engine) (project orderId stage : Int64) (request : DeployRequest) :
    Conflicts (deploy engine project orderId stage request) [] := by
  unfold deploy
  refine OnlyRefers.conflicts_bind (onlyMakes_ensure _ _) (fun _ h => nomatch h) fun _ past quiet => ?_
  refine Engine.conflicts_bind (onlyMakes_findOrderOf rfl rfl) quiet
    fun order past quiet => ?_
  refine (onlyRefers_ensureIdle _).conflicts_bind quiet fun _ past quiet => ?_
  refine (onlyRefers_reachServer project stage).conflicts_bind quiet
    fun (environment, server) past quiet => ?_
  refine (onlyRefers_stepFor .deploy order stage).conflicts_bind quiet fun step past quiet => ?_
  refine (onlyRefers_checkArrangements project environment.id environment.name _).conflicts_bind quiet
    fun _ past quiet => ?_
  refine OnlyRefers.conflicts_bind (onlyMakes_mapM (onlyRefers_renderApp orderId environment.id) _) quiet
    fun rendered past quiet => ?_
  refine OnlyRefers.conflicts_bind (onlyMakes_ensure _ _) quiet fun _ past quiet => ?_
  refine (onlyRefers_findCluster environment).conflicts_bind quiet fun (clusterName, cluster) past quiet => ?_
  refine (onlyRefers_findContainer engine _).conflicts_bind quiet fun agent past quiet => ?_
  refine (onlyRefers_findToken _).conflicts_bind quiet fun token past quiet => ?_
  refine (onlyRefers_creatorToken _).conflicts_bind quiet fun userToken past quiet => ?_
  refine obeys_errand_bind trivial (fun _ => ?_) fun _ _ h => nomatch h
  exact conflicts_launch fun ids => .late quiet

theorem Conflicted.applies_iff {ids : List Int64} {past : List Exchange} (h : Conflicted ids past) :
    (∃ e ∈ past, e.call.applies = true) ↔
      ∃ draft, ⟨.update (.insertJob draft), .ok (.busy ids)⟩ ∈ past := by
  cases h with
  | early quiet =>
    constructor
    · rintro ⟨e, he, hApplies⟩
      rw [Call.applies_of_isQuiet (quiet e he)] at hApplies
      cases hApplies
    · rintro ⟨draft, he⟩
      cases quiet _ he
  | @late past cluster request draft quiet =>
    refine iff_of_true ⟨⟨.errand (.apply cluster request), .ok ()⟩, ?_, rfl⟩ ⟨draft, ?_⟩
    · simp
    · simp

/-- A deploy that ends with a conflict has stored nothing. It has applied its manifests exactly if the
conflict is what the store answered when it was to store the job. -/
theorem applies_iff_of_conflict {σ : Type} (engine : Engine) (project order stage : Int64)
    (request : DeployRequest) (rule : Rule σ) (world : World) (state : σ) {ids : List Int64} :
    let run := (engine.deploy project order stage request).run.run rule world state
    run.value = .error (.conflict ids) →
      run.world.store = world.store ∧ ((∃ e ∈ run.exchanges, e.call.applies = true) ↔
        ∃ draft, ⟨.update (.insertJob draft), .ok (.busy ids)⟩ ∈ run.exchanges) := by
  intro run conflict
  constructor
  · have hCreation := (JobRequest.creation_of_run engine (.deploy request) project order stage rule
      (.deploy project order stage request) world state).1
    change Creation engine project order stage .deploy world.store run.value run.exchanges
      run.world.store at hCreation
    rw [conflict] at hCreation
    generalize run.exchanges = exchanges, run.world.store = after at hCreation
    cases hCreation
    rfl
  · have hEnds := (Program.Obeys.meets (engine.conflicts_deploy project order stage request) world).ends_run
      rule state
    change known _ _ run.value ([] ++ run.exchanges) at hEnds
    rw [conflict] at hEnds
    exact (hEnds ids rfl).applies_iff

/-- A deploy runs in the stage where another order asks for one. -/
def contested : World where
  store :=
    { Interleaving.sampleStore with
      arrangements := [⟨32, 12, 3,
        "kind: Deployment\nmetadata:\n  name: web\nspec:\n  image: registry/app:v1\n"⟩]
      mappings := [⟨42, 32, 12, "registry/app:v1", .latest⟩]
      orders := [⟨5, 1, "v1.2.0", "spring release", 3, 1, "deploy", "deploy", .running, "alice", 1⟩]
      snapshots := [⟨1, [⟨3, "production", [⟨1, 1, "deploy", .deploy, []⟩]⟩]⟩]
      jobs := [⟨9, 6, 1, 3, .deploy, some 77, .running, "carol", []⟩]
      settings := [⟨21, "ci-main", .ciServer ⟨"http://ci.local", "ci", "ci-token", "/ws"⟩⟩,
        ⟨22, "prod-cluster", .cluster ⟨"http://cluster.local", ""⟩⟩] }
  histories := []
  nextRun := 100

/-- The lookup of active jobs finds nothing, so the manifests are applied before the store refuses. -/
theorem applied_despite_conflict :
    let run := ((Engine.ofServer "http://conveyor.local").deploy 1 5 3 ⟨"alice", [⟨12⟩]⟩).run.run
      FaultPlan.disturb contested { FaultPlan.none with gaps := [(.activeJobs, .after 0)] }
    run.value = .error (.conflict [9]) ∧ (run.exchanges.any fun e => e.call.applies) = true := by
  decide +kernel

theorem applies_iff_of_conflict_in_contested :
    let run := ((Engine.ofServer "http://conveyor.local").deploy 1 5 3 ⟨"alice", [⟨12⟩]⟩).run.run
      Rule.undisturbed contested ()
    run.value = .error (.conflict [9]) ∧ run.world.store = contested.store ∧
      ((∃ e ∈ run.exchanges, e.call.applies = true) ↔
        ∃ draft, ⟨.update (.insertJob draft), .ok (.busy [9])⟩ ∈ run.exchanges) := by
  intro run
  have hConflict : run.value = .error (.conflict [9]) := by decide +kernel
  exact ⟨hConflict, applies_iff_of_conflict (Engine.ofServer "http://conveyor.local") 1 5 3
    ⟨"alice", [⟨12⟩]⟩ Rule.undisturbed contested () hConflict⟩

end Engine

end DeliveryPipeline

import DeliveryPipeline.Proofs.Engine.Completion
import DeliveryPipeline.Proofs.Engine.Regathering
import DeliveryPipeline.Proofs.Program.Replay

/-! # Launches that are not disturbed

A job that is launched in spite of disturbances is also launched without them, and the launch is the same:
its run is the one that the CI server gives next to the name, and the name is that of the scope. So all that a
disturbance can do to a launch is to prevent it.
-/

namespace DeliveryPipeline

set_option autoImplicit false

open Operation

theorem foldl_max_lt {numbers : List Int64} {bound : Int64} (below : ∀ n ∈ numbers, n < bound)
    {initial : Int64} (start : initial < bound) : numbers.foldl max initial < bound := by
  induction numbers generalizing initial with
  | nil => exact start
  | cons n rest ih =>
    obtain ⟨hHead, hRest⟩ := List.forall_mem_cons.mp below
    have hMax : max initial n = if initial ≤ n then n else initial := rfl
    apply ih hRest
    rw [hMax]
    split
    · exact hHead
    · exact start

theorem exists_nextNumber? {numbers : List Int64} {bound : Int64} (below : ∀ n ∈ numbers, n < bound) :
    ∃ next, nextNumber? numbers = some next := by
  have hMaxValue : ∀ n ∈ numbers, n < Int64.maxValue := fun n hn =>
    Int64.lt_of_lt_of_le (below n hn) (Int64.le_maxValue bound)
  have hGreatest : numbers.foldl max 0 < Int64.maxValue := foldl_max_lt hMaxValue (by decide)
  unfold nextNumber?
  exact ⟨_, if_pos hGreatest⟩

/-- The world has a next number for a job, and a free scope to store one in. -/
structure World.TakesJob (world : World) (scope : Scope) : Prop where
  idle : world.store.activeJobs scope = []
  next : ∃ id, nextNumber? (world.store.jobs.map (·.id)) = some id

variable {world : World}

namespace Engine

variable {engine : Engine} {server : CiServer} {draft : JobDraft} {found : Order} {planFor : Int64 → Plan}

theorem meets_submit {allowed : Call → Assertion} {ends : Int64 → Assertion} {fails : EngineError → Assertion}
    {past : List Exchange} {purpose : Purpose} {name : String} {plan : Plan}
    (calls : allowed (.errand (.submit server name plan)) past world)
    (values : ∀ after, ends (world.runFor server name)
      (past ++ [⟨.errand (.submit server name plan), .ok (world.runFor server name)⟩]) after)
    (errors : ∀ failure, fails (.outside purpose failure)
      (past ++ [⟨.errand (.submit server name plan), .error failure⟩]) world) :
    (errand purpose (.submit server name plan)).Meets allowed ends fails past world := by
  constructor
  · exact calls
  intro disturbance
  cases disturbance with
  | errandFails failure => exact errors failure
  | none | storeFails _ | findsNothing | scopeBusy _ => exact values _

def nextLaunch (world : World) (server : CiServer) (name : String) : Launch := ⟨world.runFor server name, name⟩

theorem meets_launch_value (engine : Engine) (found : Order) (server : CiServer) (draft : JobDraft)
    (planFor : Int64 → Plan) (past : List Exchange) :
    (launch engine found server draft planFor).Meets (fun _ _ _ => True)
      (fun launched _ _ => world.TakesJob draft.scope ∧ launched = nextLaunch world server
        (engine.jobName draft.kind draft.project draft.order draft.stage))
      (fun _ _ _ => True) past world := by
  apply meets_bind.mpr
  apply meets_insertJob
  · trivial
  · intro id above idle
    have hTakes : world.TakesJob draft.scope :=
      ⟨idle, exists_nextNumber? (List.forall_mem_map.mpr above)⟩
    have hSubmit : ∀ {past : List Exchange} {here : World}, here.runFor = world.runFor → (do
        let run ← errand (.submission draft.kind) (.submit server
          (engine.jobName draft.kind draft.project draft.order draft.stage) (planFor id))
        update (.startJob id run)
        pure ⟨run, engine.jobName draft.kind draft.project draft.order draft.stage⟩ :
          Operation Launch).Meets (fun _ _ _ => True) (fun launched _ _ => world.TakesJob draft.scope ∧
        launched = nextLaunch world server (engine.jobName draft.kind draft.project draft.order draft.stage))
        (fun _ _ _ => True) past here := by
      intro past here hRun
      apply meets_bind.mpr
      apply meets_submit trivial _ fun _ => trivial
      intro after
      rw [hRun]
      exact meets_update_bind rfl (by simp) trivial ⟨hTakes, rfl⟩ fun _ => trivial
    unfold startOrder
    split
    · exact meets_update_bind rfl (by simp) trivial (hSubmit rfl) fun _ => trivial
    · exact hSubmit rfl
  · intro _ _
    trivial

theorem run_launch_undisturbed (takes : world.TakesJob draft.scope) :
    ((launch engine found server draft planFor).run.run Rule.undisturbed world ()).value =
      .ok (nextLaunch world server (engine.jobName draft.kind draft.project draft.order draft.stage)) := by
  obtain ⟨id, hNext⟩ := takes.next
  let stored : World := { world with store := world.store.addJob (.ofDraft id draft) }
  have hReply : world.reply .none (.update (.insertJob draft)) = (.ok (.created id), stored) := by
    change ((world.store.insertJob draft).1, { world with store := (world.store.insertJob draft).2 }) = _
    unfold Store.insertJob
    rw [takes.idle, hNext]
    rfl
  have hInsert : (insertJob draft).run.run Rule.undisturbed world () =
      ⟨.ok id, stored, (), [⟨.update (.insertJob draft), .ok (.created id)⟩]⟩ := by
    refine (Program.run_call Rule.undisturbed (.update (.insertJob draft)) _ world ()).trans ?_
    dsimp only [Rule.undisturbed]
    rw [hReply]
    rfl
  have hRun := run_bind_of_ok (f := fun job => do
    startOrder found
    let run ← errand (.submission draft.kind) (.submit server
      (engine.jobName draft.kind draft.project draft.order draft.stage) (planFor job))
    update (.startJob job run)
    pure (⟨run, engine.jobName draft.kind draft.project draft.order draft.stage⟩ : Launch))
    (congrArg Run.value hInsert)
  refine (congrArg Run.value hRun).trans ?_
  rw [hInsert]
  unfold startOrder
  split <;> rfl

end Engine

/-- The first run may be told anything that the world may reply, and the second is not disturbed. -/
def Hearing.undisturbed (world : World) : Hearing world where
  first _ := True
  again e := (world.reply .none e.call).1 = e.reply
  calm _ := rfl
  faithful _ _ told := told.symm
  errands := by
    rintro e _ _ - told
    obtain ⟨answer, _, hAnswer, -⟩ := world.answerErrand_eq_ok e
    exact ⟨answer, told.symm.trans (congrArg Prod.fst hAnswer)⟩

theorem Hearing.value_of_repeats {α β σ : Type} {gather : Operation α} {rest : α → Operation β}
    {ready : Prop} {found : α → Prop} {outcome : α → β} (reads : gather.Reads world found)
    (repeats : (Hearing.undisturbed world).Repeats (fun _ _ => True) gather gather)
    (only : ∀ a, (rest a).Meets (fun _ _ _ => True) (fun b _ _ => ready ∧ b = outcome a)
      (fun _ _ _ => True) [] world)
    (calm : ready → ∀ a a', found a → found a' →
      ((rest a').run.run Rule.undisturbed world ()).value = .ok (outcome a))
    {rule : Rule σ} {state : σ} {b : β}
    (value : ((gather >>= rest).run.run rule world state).value = .ok b) :
    ((gather >>= rest).run.run Rule.undisturbed world ()).value = .ok b := by
  obtain ⟨a, hGathered, hRest, -⟩ := exists_of_run_bind rfl value
  obtain ⟨hFound, hWorld, -⟩ := Program.Hears.of_run repeats rule state fun _ _ _ _ => trivial
  rw [hWorld] at hRest
  obtain ⟨hReady, rfl⟩ : ready ∧ b = outcome a := by
    have hEnds := Program.Meets.ends_run (only a) rule
      (gather.run.run rule world state).state
    rw [hRest] at hEnds
    exact hEnds
  have hAgain : gather.run.Hears (Hearing.undisturbed world).again world _ := hFound a hGathered
  obtain ⟨⟨a', hValue, -⟩, hWorld', -⟩ := hAgain.of_run Rule.undisturbed () fun e _ _ h =>
    h.elim fun _ hReply => hReply
  have hRun := run_bind_of_ok (f := rest) hValue
  refine (congrArg Run.value hRun).trans ?_
  rw [hWorld']
  exact calm hReady a a' (reads.of_run hGathered) (reads.of_run hValue)

namespace Engine

variable {engine : Engine} {project orderId stage : Int64}

theorem Deployment.Recurs.finds_all {hearing : Hearing world} {deployment : Deployment}
    {request : DeployRequest} (h : deployment.Recurs hearing engine project orderId stage request)
    (idle : world.store.activeJobs (.deploy project stage) = []) :
    (gatherDeployment engine project orderId stage request).Finds hearing.again world fun _ => True := by
  have hResults : (request.apps.mapM (renderApp orderId deployment.environment.id)).Finds hearing.again world
      (List.Forall₂ (fun result result' => ∀ rendered, result = some rendered → result' = some rendered)
        deployment.results) := by
    apply finds_mapM
    apply h.results.imp
    intro requested result hResult
    cases result with
    | none =>
      apply (finds_renderApp hearing.faithful orderId deployment.environment.id requested).weaken
      rintro _ - _ ⟨⟩
    | some rendered =>
      apply (hResult rendered rfl).2.weaken
      rintro _ rfl _ hSame
      exact hSame
  refine (h.finds idle (fun _ hMem => hMem) hResults ?_).weaken fun _ _ => trivial
  intro results hKept hNone
  obtain ⟨rendered, hRendered⟩ := List.exists_mem_of_ne_nil _ h.rendered
  have hResult : some rendered ∈ deployment.results := by
    simpa [Deployment.rendered] using hRendered
  obtain ⟨result, hMem, hSome⟩ := exists_of_forall₂_of_mem hKept.flip hResult
  rw [hSome rendered rfl] at hMem
  have hAbsent := List.filterMap_eq_nil_iff.mp hNone _ hMem
  cases hAbsent

theorem Building.meets_rest_value (building : Building) (request : BuildRequest) :
    (building.rest engine project orderId stage request).Meets (fun _ _ _ => True)
      (fun launched _ _ => world.TakesJob (.build project stage orderId) ∧
        launched = nextLaunch world building.server (engine.jobName .build project orderId stage))
      (fun _ _ _ => True) [] world :=
  meets_launch_value engine building.order building.server (building.draft project orderId stage request)
    (building.plan engine project orderId stage request) []

theorem Deployment.meets_rest_value (deployment : Deployment) (request : DeployRequest) :
    (deployment.rest engine project orderId stage request).Meets (fun _ _ _ => True)
      (fun launched _ _ => world.TakesJob (.deploy project stage) ∧
        launched = nextLaunch world deployment.server (engine.jobName .deploy project orderId stage))
      (fun _ _ _ => True) [] world := by
  have hLaunch : ∀ past, (launch engine deployment.order deployment.server
      (deployment.draft project orderId stage request) (deployment.plan engine project orderId stage)).Meets
      _ _ _ past world := meets_launch_value _ _ _ _ _
  constructor
  · trivial
  intro disturbance
  cases disturbance with
  | errandFails failure => trivial
  | none | storeFails _ | findsNothing | scopeBusy _ => exact hLaunch _

theorem Deployment.run_rest_undisturbed (deployment : Deployment) (request : DeployRequest)
    (takes : world.TakesJob (.deploy project stage)) :
    ((deployment.rest engine project orderId stage request).run.run Rule.undisturbed world ()).value =
      .ok (nextLaunch world deployment.server (engine.jobName .deploy project orderId stage)) :=
  run_launch_undisturbed takes

end Engine

/-- A job that is launched in spite of disturbances is launched without them, too, and by the same run. -/
theorem JobRequest.value_undisturbed {σ : Type} {engine : Engine} {request : JobRequest}
    {project order stage : Int64} {rule : Rule σ} {state : σ} {launch : Launch}
    (launched : ((request.create engine project order stage).run.run rule world state).value = .ok launch) :
    ((request.create engine project order stage).run.run Rule.undisturbed world ()).value = .ok launch := by
  have hIdle := request.idle_of_launched launched
  cases request with
  | build request =>
    change ((Engine.build engine project order stage request).run.run _ world _).value = _ at launched ⊢
    rw [Engine.build_eq_bind] at launched ⊢
    apply Hearing.value_of_repeats (Engine.reads_gatherBuilding request)
      (Engine.repeats_gatherBuilding request hIdle)
      (fun building => building.meets_rest_value request) _ launched
    rintro takes building again ⟨hStored, -⟩ ⟨hAgain, -⟩
    rw [← hStored.server_eq hAgain.toStoredIn]
    exact Engine.run_launch_undisturbed takes
  | deploy request =>
    change ((Engine.deploy engine project order stage request).run.run _ world _).value = _ at launched ⊢
    rw [Engine.deploy_eq_bind] at launched ⊢
    have hRepeats : (Hearing.undisturbed world).Repeats (fun _ _ => True)
        (Engine.gatherDeployment engine project order stage request)
        (Engine.gatherDeployment engine project order stage request) := by
      apply (Engine.hears_gatherDeployment request hIdle).weaken
      intro deployment hRecurs
      exact hRecurs.finds_all hIdle
    apply Hearing.value_of_repeats (Engine.reads_gatherDeployment request) hRepeats
      (fun deployment => deployment.meets_rest_value request) _ launched
    intro takes deployment again hStored hAgain
    rw [← hStored.server_eq hAgain.toStoredIn]
    exact again.run_rest_undisturbed request takes

end DeliveryPipeline

import DeliveryPipeline.Proofs.Engine.Regathering
import DeliveryPipeline.Proofs.Engine.Rollout
import DeliveryPipeline.Proofs.Program.Replay

/-! # Apps that are left out

A deploy leaves out the apps that cannot be rendered. They leave no trace: the same deploy without them
applies the same manifests, stores the same job and submits the same plan. Only source control may fail on
the way, and only for apps that are left out, because every other failure ends the deploy.
-/

namespace DeliveryPipeline

set_option autoImplicit false

open Operation

variable {world : World}

/-- The lookups of both runs are told what the store holds. The first run has had the given exchanges, and
the second is answered where the first was. -/
def Hearing.ofExchanges (world : World) (exchanges : List Exchange) : Hearing world where
  first e := e ∈ exchanges ∧ ∀ l reply, e = ⟨.lookup l, reply⟩ → reply = .ok (world.store.answer l)
  again e := (∀ l reply, e = ⟨.lookup l, reply⟩ → reply = .ok (world.store.answer l)) ∧
    ∀ errand answer reply, e = ⟨.errand errand, reply⟩ → ⟨.errand errand, .ok answer⟩ ∈ exchanges →
      ∃ answer', reply = .ok answer'
  calm := by
    intro c
    constructor
    · rintro l _ ⟨⟩
      rfl
    · rintro e _ _ ⟨⟩ -
      obtain ⟨answer, _, hAnswer, -⟩ := world.answerErrand_eq_ok e
      exact ⟨answer, congrArg Prod.fst hAnswer⟩
  faithful := by
    rintro l reply ⟨hLookup, -⟩
    exact hLookup l reply rfl
  errands := by
    rintro e answer reply ⟨hMem, -⟩ ⟨-, hErrand⟩
    exact hErrand e answer reply rfl hMem

theorem Hearing.faithful_ofExchanges (world : World) (exchanges : List Exchange) :
    IsFaithful (ofExchanges world exchanges).first world := by
  rintro l reply ⟨-, hLookup⟩
  exact hLookup l reply rfl

section

variable {σ α : Type} {rule : Rule σ} {exchanges : List Exchange} {found : α → Prop} {p : Program α}

theorem Program.Hears.of_first_run (h : p.Hears (Hearing.ofExchanges world exchanges).first world found)
    (spares : rule.SparesStore) (state : σ) (among : ∀ e ∈ (p.run rule world state).exchanges, e ∈ exchanges) :
    let run := p.run rule world state
    found run.value ∧ run.world = world ∧ Quiet run.exchanges := by
  apply h.of_run rule state
  rintro e hMem - ⟨told, hReply⟩
  constructor
  · exact among e hMem
  · rintro l _ rfl
    exact hReply.symm.trans (spares.reply_lookup world told l)

theorem Program.Hears.of_second_run (h : p.Hears (Hearing.ofExchanges world exchanges).again world found)
    (spares : rule.SparesStore) (state : σ)
    (through : ∀ e answer, ⟨.errand e, .ok answer⟩ ∈ exchanges → rule.LetsThrough e) :
    let run := p.run rule world state
    found run.value ∧ run.world = world ∧ Quiet run.exchanges := by
  apply h.of_run rule state
  rintro e - - ⟨told, hReply⟩
  constructor
  · rintro l _ rfl
    exact hReply.symm.trans (spares.reply_lookup world told l)
  · rintro errand answer _ rfl hMem
    rw [world.reply_errand_of_through errand (through errand answer hMem told)] at hReply
    obtain ⟨answer', _, hAnswered, -⟩ := world.answerErrand_eq_ok errand
    exact ⟨answer', hReply.symm.trans (congrArg Prod.fst hAnswered)⟩

end

namespace Engine

variable {engine : Engine} {project orderId stage : Int64}

theorem isStrict_launch (engine : Engine) (order : Order) (server : CiServer) (draft : JobDraft)
    (planFor : Int64 → Plan) : (launch engine order server draft planFor).IsStrict := by
  have hInsert : (insertJob draft).IsStrict := by
    apply (isStrict_update _).bind
    rintro (id | ids)
    · exact isStrict_pure id
    · exact isStrict_throw _
  have hStart : (startOrder order).IsStrict := by
    unfold startOrder
    split
    · exact isStrict_update _
    · exact isStrict_pure ()
  apply hInsert.bind
  intro job
  apply hStart.bind
  intro _
  apply (isStrict_errand _ _).bind
  intro run
  apply (isStrict_update _).bind
  intro _
  exact isStrict_pure _

namespace Deployment

variable {deployment : Deployment} {request : DeployRequest}

theorem isStrict_rest (deployment : Deployment) (engine : Engine) (project orderId stage : Int64)
    (request : DeployRequest) : (deployment.rest engine project orderId stage request).IsStrict :=
  (isStrict_errand _ _).bind fun _ => isStrict_launch engine _ _ _ _

def Stores (deployment : Deployment) (before after : Store) : Prop :=
  ∃ job : Job, after.jobs = before.jobs ++ [job] ∧ job.apps = deployment.rendered.map (·.record)

theorem meets_rest (engine : Engine) (project stage : Int64) (request : DeployRequest)
    {past : List Exchange} (stored : world.store.answer (.order orderId) = some deployment.order) :
    (deployment.rest engine project orderId stage request).Meets (fun _ _ _ => True)
      (fun _ _ after => deployment.Stores world.store after.store)
      (fun _ _ after => after.store.jobs = world.store.jobs ∨ deployment.Stores world.store after.store)
      past world := by
  apply meets_bind.mpr
  apply meets_errand (e := .apply deployment.cluster (deployment.manifests project stage))
  · trivial
  · intro _ here hSame
    rw [← hSame] at stored ⊢
    apply meets_launch stored
    · trivial
    · intro _ _
      exact .inl rfl
    · intro _ _ _ _ hHere
      exact ⟨trivial, fun _ => .inr ⟨_, congrArg Store.jobs hHere, rfl⟩⟩
    · intro id between here' above _ hHere
      have hStores : ∀ after : World, after.store = here'.store → deployment.Stores here.store after.store :=
        fun after hAfter => ⟨_, congrArg Store.jobs (hAfter.trans hHere), rfl⟩
      constructor
      · trivial
      · intro _
        exact .inr (hStores here' rfl)
      · intro _ _ _
        trivial
      · intro _ after _ hAfter
        exact .inr (hStores after hAfter)
      · intro run after hAfter
        exact ⟨_, congrArg Store.jobs hAfter, rfl⟩
  · intro _
    exact .inl rfl

theorem rest_eq_of_rendered {other : Deployment} {apps : List DeployApp}
    (rendered : other.rendered = deployment.rendered)
    (same : other = { deployment with results := other.results }) :
    other.rest engine project orderId stage { request with apps := apps } =
      deployment.rest engine project orderId stage request := by
  rw [same] at rendered ⊢
  unfold rest manifests draft plan
  rw [rendered]
  rfl

end Deployment

theorem worksOf_append (past later : List Exchange) :
    worksOf (past ++ later) = worksOf past ++ worksOf later :=
  List.filter_append past later

theorem eq_map_of_forall₂ {α β : Type} {f : β → α} {l : List α} {values : List β}
    (h : List.Forall₂ (fun a b => f b = a) l values) : values.map f = l := by
  induction h with
  | nil => rfl
  | cons hFirst _ ih => rw [List.map_cons, hFirst, ih]

theorem Deployment.Recurs.finds_rest {hearing : Hearing world} {deployment : Deployment}
    {request : DeployRequest} (h : deployment.Recurs hearing engine project orderId stage request)
    (faithful : IsFaithful hearing.first world)
    (idle : world.store.activeJobs (.deploy project stage) = []) :
    let kept : List DeployApp := (deployment.rendered.map (·.record)).map fun app => ⟨app.app⟩
    kept.Sublist request.apps ∧
      (gatherDeployment engine project orderId stage { request with apps := kept }).Finds hearing.again world
        fun gathered => gathered.rest engine project orderId stage { request with apps := kept } =
          deployment.rest engine project orderId stage request := by
  intro kept
  obtain ⟨chosen, hSublist, hChosen⟩ := exists_sublist_of_forall₂ h.results
  have hKept : kept = chosen := by
    have hApps : List.Forall₂ (fun requested (rendered : RenderedApp) =>
        (⟨rendered.record.app⟩ : DeployApp) = requested) chosen deployment.rendered :=
      hChosen.imp fun requested rendered hBoth => congrArg DeployApp.mk hBoth.1
    exact (List.map_map ..).trans (eq_map_of_forall₂ hApps)
  rw [hKept]
  have hResults : (chosen.mapM (renderApp orderId deployment.environment.id)).Finds hearing.again world
      fun results => results.filterMap id = deployment.rendered := by
    have hEach : (chosen.mapM (renderApp orderId deployment.environment.id)).Finds hearing.again world
        (List.Forall₂ (fun rendered result => result = some rendered) deployment.rendered) :=
      finds_mapM (hChosen.imp fun requested rendered hBoth => hBoth.2)
    apply hEach.weaken
    intro results hSame
    have hMap : deployment.rendered.map some = results :=
      eq_map_of_forall₂ (hSame.flip.imp fun result rendered => Eq.symm)
    rw [← hMap, List.filterMap_map]
    exact List.filterMap_some
  refine ⟨hSublist, (h.finds idle (fun _ hMem => hSublist.subset hMem) hResults ?_).weaken ?_⟩
  · rintro results hSame
    rw [hSame]
    exact h.rendered
  · rintro gathered ⟨hSame, hGathered⟩
    rw [← h.userToken faithful] at hGathered
    exact Deployment.rest_eq_of_rendered hSame hGathered

/-- A deploy that succeeds gathers a deployment that can be gathered again, and does the rest of it in the
world in which it began. -/
theorem exists_deployment_of_run {σ : Type} {rule : Rule σ} (spares : rule.SparesStore) (engine : Engine)
    (project orderId stage : Int64) (request : DeployRequest) (world : World) (state : σ)
    {launched : Launch} :
    let run := (deploy engine project orderId stage request).run.run rule world state
    run.value = .ok launched → ∃ (deployment : Deployment) (own : List Exchange) (between : σ),
      let rest := (deployment.rest engine project orderId stage request).run.run rule world between
      deployment.Recurs (Hearing.ofExchanges world run.exchanges) engine project orderId stage request ∧
        Quiet own ∧ rest.value = .ok launched ∧ run = { rest with exchanges := own ++ rest.exchanges } := by
  intro run hLaunched
  have hIdle := JobRequest.idle_of_launched (.deploy request) hLaunched
  obtain ⟨deployment, hGathered, hRest, hRun⟩ :=
    exists_of_run_bind (deploy_eq_bind engine project orderId stage request) hLaunched
  have hHears : (gatherDeployment engine project orderId stage request).run.Hears
      (Hearing.ofExchanges world run.exchanges).first world _ :=
    hears_gatherDeployment request hIdle
  obtain ⟨hFound, hWorld, hQuiet⟩ := hHears.of_first_run spares state fun e hMem => by
    rw [show run = _ from hRun]
    exact List.mem_append_left _ hMem
  rw [hWorld] at hRest hRun
  exact ⟨deployment, _, _, hFound deployment hGathered, hQuiet, hRest, hRun⟩

/-- A deploy that succeeds although source control fails for some apps stores its job for a part of the apps.
The same deploy of this part alone, where source control answers whatever it has answered, has the same
result, leaves the same world, and applies, stores and submits the same. -/
theorem deploy_kept_of_run {σ τ : Type} {rule : Rule σ} {rule' : Rule τ} (spares : rule.SparesStore)
    (spares' : rule'.SparesStore) (engine : Engine) (project orderId stage : Int64)
    (request : DeployRequest) (world : World) (state : σ) (state' : τ) {launched : Launch} :
    let run := (deploy engine project orderId stage request).run.run rule world state
    run.value = .ok launched →
    (∀ e answer, ⟨.errand e, .ok answer⟩ ∈ run.exchanges → rule'.LetsThrough e) →
      ∃ job : Job, run.world.store.jobs = world.store.jobs ++ [job] ∧
        let kept : DeployRequest := { request with apps := job.apps.map fun app => ⟨app.app⟩ }
        let again := (deploy engine project orderId stage kept).run.run rule' world state'
        kept.apps.Sublist request.apps ∧ again.value = .ok launched ∧ again.world = run.world ∧
          worksOf again.exchanges = worksOf run.exchanges := by
  intro run hLaunched hThrough
  have hIdle := JobRequest.idle_of_launched (.deploy request) hLaunched
  obtain ⟨deployment, own, between, hRecurs, hQuiet, hRest, hRun⟩ :=
    exists_deployment_of_run spares engine project orderId stage request world state hLaunched
  obtain ⟨job, hJobs, hApps⟩ : deployment.Stores world.store run.world.store := by
    have hMeets : (deployment.rest engine project orderId stage request).Meets _ _ _ [] world :=
      deployment.meets_rest engine project stage request hRecurs.stored
    rw [show run = _ from hRun]
    exact hMeets.ends_of_ok hRest
  refine ⟨job, hJobs, ?_⟩
  rw [hApps]
  intro kept again
  obtain ⟨hSublist, hFinds⟩ := hRecurs.finds_rest (Hearing.faithful_ofExchanges _ _) hIdle
  -- The smaller request gathers the same deployment, so what is left to do is the same program.
  have hSecond := Program.Hears.of_second_run hFinds spares' state' hThrough
  obtain ⟨⟨gathered, hGathered, hSame⟩, hWorld, hQuiet'⟩ := hSecond
  have hAgain := run_bind_of_ok (f := fun gathered => gathered.rest engine project orderId stage kept)
    hGathered
  rw [← deploy_eq_bind] at hAgain
  dsimp only at hAgain
  rw [hSame, hWorld] at hAgain
  have hThroughRest : ∀ e answer, ⟨.errand e, .ok answer⟩ ∈
      ((deployment.rest engine project orderId stage request).run.run rule world between).exchanges →
      rule'.LetsThrough e := by
    intro e answer hMem
    apply hThrough e answer
    rw [show run = _ from hRun]
    exact List.mem_append_right _ hMem
  obtain ⟨hValue, hAfter, hExchanges⟩ := Program.run_eq_of_answered spares spares'
    (deployment.rest engine project orderId stage request).run world between
    ((gatherDeployment engine project orderId stage kept).run.run rule' world state').state
    ((deployment.isStrict_rest engine project orderId stage request).answered_of_run hRest) hThroughRest
  rw [show again = _ from hAgain, show run = _ from hRun]
  refine ⟨hSublist, hValue.trans hRest, hAfter, ?_⟩
  dsimp only
  rw [worksOf_append, worksOf_append, worksOf_of_quiet hQuiet, worksOf_of_quiet hQuiet']
  exact congrArg worksOf hExchanges

end Engine

/-- The rule under which the first question about a history gets no answer. -/
def Rule.losesHistory : Rule Bool
  | false, .errand (.commits ..) => (.errandFails ⟨["timed out"]⟩, true)
  | lost, _ => (.none, lost)

theorem Rule.sparesStore_losesHistory : losesHistory.SparesStore := by
  intro lost c
  cases lost <;> cases c <;> trivial

namespace Engine

/-- The image that is deployed is tagged with the newest commit. -/
def tagged : World :=
  { contested with
    store := { contested.store with
      jobs := []
      mappings := [⟨42, 32, 12, "registry/app:v1", .systemDefault⟩] }
    histories := [⟨"team/web", "dev", [⟨"0123456789"⟩]⟩] }

/-- The app is asked for twice, and left out the first time. -/
theorem deploy_kept_of_run_in_tagged :
    let engine := Engine.ofServer "http://conveyor.local"
    let request : DeployRequest := ⟨"alice", [⟨12⟩, ⟨12⟩]⟩
    let run := (engine.deploy 1 5 3 request).run.run Rule.losesHistory tagged false
    run.value = .ok ⟨100, "conveyor_1_3"⟩ ∧ ∃ job : Job, job.apps.map (·.app) = [12] ∧
      run.world.store.jobs = tagged.store.jobs ++ [job] ∧
        let kept : DeployRequest := { request with apps := job.apps.map fun app => ⟨app.app⟩ }
        let again := (engine.deploy 1 5 3 kept).run.run Rule.undisturbed tagged ()
        again.value = run.value ∧ again.world = run.world ∧
          worksOf again.exchanges = worksOf run.exchanges := by
  intro engine request run
  have hLaunched : run.value = .ok ⟨100, "conveyor_1_3"⟩ := by decide +kernel
  have hApps : (run.world.store.jobs.map fun job => job.apps.map (·.app)) = [[12]] := by decide +kernel
  have hThrough : ∀ e answer, ⟨.errand e, .ok answer⟩ ∈ run.exchanges → Rule.undisturbed.LetsThrough e :=
    fun e _ _ => Rule.letsThrough_undisturbed e
  obtain ⟨job, hJobs, -, hValue, hWorld, hWorks⟩ := deploy_kept_of_run Rule.sparesStore_losesHistory
    Rule.sparesStore_undisturbed engine 1 5 3 request tagged false () hLaunched hThrough
  rw [hJobs] at hApps
  exact ⟨hLaunched, job, List.singleton_inj.mp hApps, hJobs, hValue.trans hLaunched.symm, hWorld, hWorks⟩

end Engine

end DeliveryPipeline

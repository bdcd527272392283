import DeliveryPipeline.Engine.Completion
import DeliveryPipeline.Engine.Inspection
import DeliveryPipeline.Proofs.Program.Reads

/-! # What the engine's reading operations find

One lemma for each operation that only looks: where it does not end with an error, its value is what
the store holds. A lookup that finds nothing ends most of them, so a value that is there was stored.
-/

namespace DeliveryPipeline.Engine

set_option autoImplicit false

open Operation

variable {world : World}

theorem eq_some_of_answer {α : Type} {answer stored : Option α} {a : α}
    (h : answer = stored ∨ answer = none) (ha : answer = some a) : stored = some a := by
  rcases h with rfl | rfl
  · exact ha
  · cases ha

theorem reads_stored {α : Type} {stored : Option α} {error : EngineError} {x : Operation (Option α)}
    (h : Reads world (fun answer => answer = stored ∨ answer = none) x) :
    Reads world (fun a => stored = some a) (x >>= require error) :=
  h.bind fun _ hAnswer => reads_require.weaken fun _ hFound => eq_some_of_answer hAnswer hFound

theorem reads_findOrder (id : Int64) :
    Reads world (fun order => world.store.answer (.order id) = some order) (findOrder id) :=
  reads_stored reads_lookup

theorem reads_findOrderOf (project id : Int64) :
    Reads world (fun order => world.store.answer (.order id) = some order ∧ order.project = project)
      (findOrderOf project id) := by
  unfold findOrderOf
  refine reads_lookup.bind fun _ _ => reads_require.bind fun _ _ => ?_
  refine reads_ensure.bind fun _ _ => (reads_findOrder id).bind fun order hOrder => ?_
  refine reads_ensure.bind fun _ hProject => reads_pure ⟨hOrder, ?_⟩
  exact of_decide_eq_true hProject

theorem reads_findSnapshot (order : Order) :
    Reads world (fun snapshot => world.store.answer (.snapshot order.snapshot) = some snapshot)
      (findSnapshot order) :=
  reads_stored reads_lookup

theorem reads_stageOf (snapshot : Snapshot) (id : Int64) :
    Reads world (fun stage => snapshot.stage? id = some stage) (stageOf snapshot id) :=
  reads_require

theorem reads_currentStep (stage : Stage) (order : Order) :
    Reads world (fun step => stage.step? order.stepIndex = some step) (currentStep stage order) :=
  reads_require

theorem reads_nextStep (stage : Stage) (order : Order) :
    Reads world (fun step => (stage.nextIndex? order.stepIndex).bind stage.step? = some step)
      (nextStep stage order) :=
  reads_require

theorem reads_findEnvironment (project stage : Int64) :
    Reads world (fun environment => world.store.answer (.environment project stage) = some environment)
      (findEnvironment project stage) :=
  reads_stored reads_lookup

theorem reads_findSetting (id : Int64) :
    Reads world (fun setting => world.store.answer (.setting id) = some setting) (findSetting id) :=
  reads_stored reads_lookup

theorem reads_findServer (environment : Environment) :
    Reads world (fun server => ∃ setting,
        world.store.answer (.setting environment.ciServer) = some setting ∧
        setting.config = .ciServer server ∧ server.missingFields = [])
      (findServer environment) := by
  refine (reads_findSetting environment.ciServer).bind fun setting hSetting => ?_
  cases hConfig : setting.config with
  | ciServer server =>
    refine reads_ensure.bind fun _ hComplete => reads_pure ⟨setting, hSetting, hConfig, ?_⟩
    simpa using hComplete
  | _ => exact reads_throw

theorem reads_findRegistry (environment : Environment) :
    Reads world (fun registry => ∃ setting,
        world.store.answer (.setting environment.registry) = some setting ∧
        setting.config = .registry registry)
      (findRegistry environment) := by
  refine (reads_findSetting environment.registry).bind fun setting hSetting => ?_
  cases hConfig : setting.config with
  | registry registry => exact reads_pure ⟨setting, hSetting, hConfig⟩
  | _ => exact reads_throw

theorem reads_findCluster (environment : Environment) :
    Reads world (fun named => ∃ setting,
        world.store.answer (.setting environment.cluster) = some setting ∧
        setting.name = named.1 ∧ setting.config = .cluster named.2)
      (findCluster environment) := by
  refine (reads_findSetting environment.cluster).bind fun setting hSetting => ?_
  cases hConfig : setting.config with
  | cluster cluster => exact reads_pure ⟨setting, hSetting, rfl, hConfig⟩
  | _ => exact reads_throw

theorem reads_findToken (user : String) :
    Reads world (fun token => world.store.answer (.token user) = some token) (findToken user) :=
  reads_stored reads_lookup

theorem reads_findContainer (engine : Engine) (name : String) :
    Reads world (fun container => ∃ environment,
        world.store.answer (.compileEnvironmentNamed name) = some environment ∧
        container = .ofEnvironment name environment engine.workingDir)
      (findContainer engine name) := by
  refine reads_lookup.bind fun _ hAnswer => reads_require.bind fun _ hFound => ?_
  exact reads_pure ⟨_, eq_some_of_answer hAnswer hFound, rfl⟩

theorem reads_ensureIdle (scope : Scope) : Reads world (fun _ => True) (ensureIdle scope) := by
  have hActive : Reads world (fun _ => True) (activeJobs scope) :=
    reads_lookup.bind fun _ _ => reads_pure trivial
  exact hActive.bind fun _ _ => reads_ensure.weaken fun _ _ => trivial

theorem reads_reachServer (project stage : Int64) :
    Reads world (fun reached =>
        world.store.answer (.environment project stage) = some reached.1 ∧ ∃ setting,
          world.store.answer (.setting reached.1.ciServer) = some setting ∧
          setting.config = .ciServer reached.2)
      (reachServer project stage) := by
  refine (reads_findEnvironment project stage).bind fun environment hEnvironment => ?_
  refine (reads_findServer environment).bind fun server ⟨setting, hSetting, hConfig, _⟩ => ?_
  refine (reads_errand rfl).bind fun _ _ => reads_pure ⟨hEnvironment, setting, hSetting, hConfig⟩

/-- The order stands at a step of the kind in the stage with the number. -/
def StandsAt (store : Store) (order : Order) (stageId : Int64) (kind : StepKind) (step : Step) : Prop :=
  ∃ snapshot stage, store.answer (.snapshot order.snapshot) = some snapshot ∧
    snapshot.stage? stageId = some stage ∧ stage.step? order.stepIndex = some step ∧ step.kind = kind

theorem StandsAt.unique {store : Store} {order : Order} {stage : Int64} {kind kind' : StepKind}
    {step step' : Step} (h : StandsAt store order stage kind step)
    (h' : StandsAt store order stage kind' step') : step' = step := by
  obtain ⟨snapshot, found, hSnapshot, hStage, hStep, _⟩ := h
  obtain ⟨snapshot', found', hSnapshot', hStage', hStep', _⟩ := h'
  obtain rfl := Option.some.inj (hSnapshot'.symm.trans hSnapshot)
  obtain rfl := Option.some.inj (hStage'.symm.trans hStage)
  exact Option.some.inj (hStep'.symm.trans hStep)

def kindAt? (store : Store) (order : Order) (stageId : Int64) : Option StepKind := do
  let snapshot ← store.answer (.snapshot order.snapshot)
  let stage ← snapshot.stage? stageId
  let step ← stage.step? order.stepIndex
  pure step.kind

theorem exists_standsAt_iff {store : Store} {order : Order} {stageId : Int64} {kind : StepKind} :
    (∃ step, StandsAt store order stageId kind step) ↔ kindAt? store order stageId = some kind := by
  unfold kindAt? StandsAt
  constructor
  · rintro ⟨step, snapshot, stage, hSnapshot, hStage, hStep, rfl⟩
    simp [hSnapshot, hStage, hStep]
  · intro hKind
    obtain ⟨snapshot, hSnapshot, hKind⟩ := Option.bind_eq_some_iff.mp hKind
    obtain ⟨stage, hStage, hKind⟩ := Option.bind_eq_some_iff.mp hKind
    obtain ⟨step, hStep, hKind⟩ := Option.bind_eq_some_iff.mp hKind
    exact ⟨step, snapshot, stage, hSnapshot, hStage, hStep, Option.some.inj hKind⟩

theorem reads_stepFor (kind : JobKind) (order : Order) (stage : Int64) :
    Reads world (StandsAt world.store order stage (stepKindOf kind)) (stepFor kind order stage) := by
  refine (reads_findSnapshot order).bind fun snapshot hSnapshot => ?_
  refine (reads_stageOf snapshot stage).bind fun found hStage => ?_
  refine (reads_currentStep found order).bind fun step hStep => ?_
  refine reads_ensure.bind fun _ hKind => reads_pure ⟨snapshot, found, hSnapshot, hStage, hStep, ?_⟩
  exact of_decide_eq_true hKind

/-- The address that a mapping stands for, for a branch with the given commits. -/
def addressOf (mapping : ImageMapping) (branch : String) (commits : List Commit) : String :=
  match mapping.policy with
  | .origin => mapping.image
  | .latest => Image.withTag mapping.image "latest"
  | .systemDefault => Image.withTag mapping.image (Image.defaultTag branch commits)

theorem reads_resolveImage (mapping : ImageMapping) (repository : Repository) (fullName branch : String) :
    Reads world (fun image => image = addressOf mapping branch (world.commits repository fullName branch))
      (resolveImage mapping repository fullName branch) := by
  unfold resolveImage addressOf
  cases mapping.policy with
  | origin => exact reads_pure rfl
  | latest => exact reads_pure rfl
  | systemDefault =>
    refine reads_commits.bind fun commits hCommits => reads_pure ?_
    rw [hCommits]
    rfl

theorem reads_mappedImage (arrangement : Arrangement) (app : App) (repository : Repository)
    (branch : String) :
    Reads world (fun mapped => ∀ mapping image, mapped = some (mapping, image) →
        world.store.answer (.imageMapping arrangement.id app.id) = some mapping ∧
        image = addressOf mapping branch (world.commits repository app.fullName branch))
      (mappedImage arrangement app repository branch) := by
  refine (reads_lookup (l := .imageMapping arrangement.id app.id)).bind fun mapping hAnswer => ?_
  cases mapping with
  | none => exact reads_pure fun _ _ h => nomatch h
  | some mapping =>
    refine (reads_attempt (reads_resolveImage mapping repository app.fullName branch)).bind
      fun r hImage => ?_
    cases r with
    | error e => exact reads_pure fun _ _ h => nomatch h
    | ok image =>
      refine reads_pure fun _ _ h => ?_
      cases h
      exact ⟨eq_some_of_answer hAnswer rfl, hImage image rfl⟩

theorem reads_appImage (environment : Int64) (app : App) (repository : Repository) (branch : String) :
    Reads world (fun resolved => ∀ image, resolved = some image → ∃ arrangement mapping,
        world.store.answer (.arrangement app.id environment) = some arrangement ∧
        world.store.answer (.imageMapping arrangement.id app.id) = some mapping ∧
        image = addressOf mapping branch (world.commits repository app.fullName branch))
      (appImage environment app repository branch) := by
  refine (reads_lookup (l := .arrangement app.id environment)).bind fun arrangement hAnswer => ?_
  cases arrangement with
  | none => exact reads_pure fun _ h => nomatch h
  | some arrangement =>
    have hArrangement := eq_some_of_answer hAnswer rfl
    refine (reads_mappedImage arrangement app repository branch).bind fun mapped hMapped => reads_pure ?_
    intro image hImage
    obtain ⟨⟨mapping, address⟩, rfl, rfl⟩ := Option.map_eq_some_iff.mp hImage
    obtain ⟨hMapping, hAddress⟩ := hMapped mapping address rfl
    exact ⟨arrangement, mapping, hArrangement, hMapping, hAddress⟩

theorem reads_findCompileEnvironment (id : Option Int64) :
    Reads world (fun found => ∀ environment, found = some environment → ∃ number, id = some number ∧
        world.store.answer (.compileEnvironment number) = some environment)
      (findCompileEnvironment id) := by
  cases id with
  | none => exact reads_pure fun _ h => nomatch h
  | some number =>
    exact reads_lookup.weaken fun _ hAnswer environment hFound =>
      ⟨number, rfl, eq_some_of_answer hAnswer hFound⟩

/-- What a build knows of a requested app is what the store has of it. -/
structure Gathers (world : World) (project environment : Int64) (request : BuildApp) (app : App)
    (build : AppBuild) : Prop where
  stored : world.store.answer (.app request.app) = some app
  owned : app.project = project
  number : build.app = app.id
  name : build.name = app.name
  branch : build.branch = request.branch
  compiled : ∀ found, build.environment = some found → ∃ number, app.compileEnvironment = some number ∧
    world.store.answer (.compileEnvironment number) = some found
  mode : build.compile = compileMode build.environment request.compileCommand
  image : ∀ image, build.image = some image → ∃ repository arrangement mapping,
    world.store.answer (.repository app.repository) = some repository ∧
    world.store.answer (.arrangement app.id environment) = some arrangement ∧
    world.store.answer (.imageMapping arrangement.id app.id) = some mapping ∧
    image = addressOf mapping request.branch (world.commits repository app.fullName request.branch)

/-- The account is the one that is used on the host of a repository. -/
def Credential.Opens (credential : Credential) (repository : Repository) : Prop :=
  credential = ⟨repository.host, repository.user, repository.token⟩

theorem reads_gatherApp (project stage : Int64) (environment : Environment) (server : CiServer)
    (request : BuildApp) :
    Reads world (fun gathered => ∃ app repository, Gathers world project environment.id request app gathered.1 ∧
        world.store.answer (.repository app.repository) = some repository ∧ gathered.2.Opens repository)
      (gatherApp project stage environment server request) := by
  unfold gatherApp
  refine reads_lookup.bind fun _ hAnswer => reads_require.bind fun app hFiltered => ?_
  obtain ⟨hFound, hOwned⟩ := Option.filter_eq_some_iff.mp hFiltered
  have hStored := eq_some_of_answer hAnswer hFound
  refine reads_lookup.bind fun _ hAnswer => reads_require.bind fun repository hRepository => ?_
  refine (reads_findCompileEnvironment app.compileEnvironment).bind fun found hCompiled => ?_
  refine (reads_appImage environment.id app repository request.branch).bind fun image hImage => ?_
  have hHosted := eq_some_of_answer hAnswer hRepository
  refine reads_pure ⟨app, repository, ⟨hStored, of_decide_eq_true hOwned, rfl, rfl, rfl, hCompiled, rfl, ?_⟩,
    hHosted, rfl⟩
  intro address hAddress
  obtain ⟨arrangement, mapping, hMapping⟩ := hImage address hAddress
  exact ⟨repository, arrangement, mapping, hHosted, hMapping⟩

theorem reads_missingArrangement? (project environment : Int64) (known : List App) (id : Int64) :
    Reads world (fun _ => True) (missingArrangement? project environment known id) := by
  unfold missingArrangement?
  cases known.find? fun app => app.id = id && app.project = project with
  | none => exact reads_pure trivial
  | some app => exact reads_lookup.bind fun _ _ => reads_pure trivial

theorem reads_checkArrangements (project environment : Int64) (name : String) (apps : List DeployApp) :
    Reads world (fun _ => True) (checkArrangements project environment name apps) := by
  unfold checkArrangements
  refine reads_lookup.bind fun known _ => ?_
  refine (reads_mapM (reads_missingArrangement? project environment known) _).bind fun _ _ => ?_
  exact reads_ensure.weaken fun _ _ => trivial

/-- The records that a requested app is rendered from. -/
structure Source where
  app : App
  repository : Repository
  arrangement : Arrangement
  entry : OrderApp
  mapping : ImageMapping

structure Source.StoredIn (source : Source) (store : Store) (order environment app : Int64) : Prop where
  app : store.answer (.app app) = some source.app
  repository : store.answer (.repository source.app.repository) = some source.repository
  arrangement : store.answer (.arrangement source.app.id environment) = some source.arrangement
  entry : store.answer (.orderApp order source.app.id) = some source.entry
  mapping : store.answer (.imageMapping source.arrangement.id source.app.id) = some source.mapping

def Source.address (source : Source) (world : World) : String :=
  addressOf source.mapping source.entry.branch
    (world.commits source.repository source.app.fullName source.entry.branch)

/-- What a requested app is rendered to: its manifest with the address in it, what the job remembers of
it, and the workloads that the manifest declares. -/
structure Source.RendersTo (source : Source) (world : World) (order environment : Int64)
    (requested : DeployApp) (rendered : RenderedApp) : Prop extends
    source.StoredIn world.store order environment requested.app where
  manifest : if source.mapping.policy = .origin then rendered.manifest = source.arrangement.manifest
    else Manifest.substitute source.arrangement.manifest source.mapping.image (source.address world) =
      .ok rendered.manifest
  record : rendered.record = ⟨requested.app, some source.entry.branch, "", some (source.address world)⟩
  workloads : ∃ names, Manifest.resourceNames rendered.manifest = .ok names ∧
    rendered.workloads = names.map fun name => ⟨source.app.name, name⟩

theorem eq_ok_of_toOption {ε α : Type} {result : Except ε α} {a : α} (h : result.toOption = some a) :
    result = .ok a := by
  cases result with
  | error e => cases h
  | ok b => exact congrArg Except.ok (Option.some.inj h)

theorem Source.rendersTo {source : Source} {order environment : Int64} {requested : DeployApp}
    {rendered : RenderedApp}
    (stored : source.StoredIn world.store order environment requested.app)
    (h : renderedApp? source.app source.entry.branch source.arrangement source.mapping
      (source.address world) = some rendered) :
    source.RendersTo world order environment requested rendered := by
  obtain ⟨manifest, hManifest, h⟩ := Option.bind_eq_some_iff.mp h
  obtain ⟨names, hNames, h⟩ := Option.bind_eq_some_iff.mp h
  obtain rfl := Option.some.inj h
  have hManifest := eq_ok_of_toOption hManifest
  have hId : source.app.id = requested.app := (mem_of_find? stored.app).2
  refine { stored with manifest := ?_, record := ?_, workloads := ⟨names, eq_ok_of_toOption hNames, rfl⟩ }
  · unfold manifestFor at hManifest
    split at hManifest
    · rename_i hOrigin
      rw [if_pos hOrigin]
      exact (Except.ok.inj hManifest).symm
    · rename_i hOther
      rw [if_neg hOther]
      exact hManifest
  · rw [hId]

theorem reads_renderApp (order environment : Int64) (requested : DeployApp) :
    Reads world (fun result => ∀ rendered, result = some rendered → ∃ source : Source,
        source.RendersTo world order environment requested rendered)
      (renderApp order environment requested) := by
  unfold renderApp
  refine (reads_lookup (l := .app requested.app)).bind fun app hApp => ?_
  rcases app with _ | app
  · exact reads_pure fun _ h => nomatch h
  refine (reads_lookup (l := .arrangement app.id environment)).bind fun arrangement hArrangement => ?_
  rcases arrangement with _ | arrangement
  · exact reads_pure fun _ h => nomatch h
  refine (reads_lookup (l := .orderApp order app.id)).bind fun entry hEntry => ?_
  rcases entry with _ | entry
  · exact reads_pure fun _ h => nomatch h
  refine (reads_lookup (l := .repository app.repository)).bind fun repository hRepository => ?_
  rcases repository with _ | repository
  · exact reads_pure fun _ h => nomatch h
  refine (reads_mappedImage arrangement app repository entry.branch).bind fun mapped hMapped => ?_
  refine reads_pure fun rendered hRendered => ?_
  obtain ⟨⟨mapping, image⟩, hSome, hRendered⟩ := Option.bind_eq_some_iff.mp hRendered
  obtain ⟨hMapping, rfl⟩ := hMapped mapping image hSome
  exact ⟨⟨app, repository, arrangement, entry, mapping⟩, Source.rendersTo ⟨eq_some_of_answer hApp rfl,
    eq_some_of_answer hRepository rfl, eq_some_of_answer hArrangement rfl, eq_some_of_answer hEntry rfl,
    hMapping⟩ hRendered⟩

theorem reads_creatorToken (user : String) : Reads world (fun _ => True) (creatorToken user) := by
  refine (reads_attempt (reads_findToken user)).bind fun r _ => ?_
  rcases r with e | token
  · cases e with
    | misconfigured cause => exact reads_pure trivial
    | _ => exact reads_throw
  · exact reads_pure trivial

theorem reads_ensureAllowed (order : Order) (action : OrderAction) :
    Reads world (fun _ => order.status.allows action = true) (ensureAllowed order action) := by
  unfold ensureAllowed OrderStatus.allows
  cases order.status.check action with
  | error cause => exact reads_throw
  | ok _ => exact reads_pure rfl

theorem reads_findCancelTarget (engine : Engine) (project order stage : Int64) (kind : JobKind) :
    Reads world (fun target => ∃ job, world.store.answer (.latestJob order) = some job ∧
        job.id = target.job ∧ job.run = some target.run ∧
        target.jobName = engine.jobName kind project order stage)
      (findCancelTarget engine project order stage kind) := by
  refine (reads_findEnvironment project stage).bind fun environment _ => ?_
  refine (reads_findServer environment).bind fun server _ => reads_lookup.bind fun _ hAnswer => ?_
  refine reads_require.bind fun job hFound => reads_require.bind fun run hRun => ?_
  exact reads_pure ⟨job, eq_some_of_answer hAnswer hFound, rfl, hRun, rfl⟩

theorem reads_stepRecord (snapshot stage : Int64) (index : Int32) :
    Reads world (fun _ => True) (stepRecord snapshot stage index) :=
  reads_lookup.bind fun _ _ => reads_pure trivial

theorem reads_history (order : Int64) : Reads world (fun _ => True) (history order) := by
  refine (reads_findOrder order).bind fun order _ => ?_
  refine (reads_stepRecord order.snapshot order.stage order.stepIndex).bind fun current _ => ?_
  split
  · refine (reads_stepRecord order.snapshot order.stage (order.stepIndex - 1)).bind fun _ _ => ?_
    exact reads_pure trivial
  · exact reads_pure trivial

theorem reads_stepType (order : Int64) (index : Int32) :
    Reads world (fun _ => True) (stepType order index) := by
  refine (reads_findOrder order).bind fun order _ => (reads_findSnapshot order).bind fun snapshot _ => ?_
  refine (reads_stageOf snapshot order.stage).bind fun stage _ => ?_
  exact reads_require.bind fun _ _ => reads_pure trivial

theorem reads_lastStep (order stage : Int64) :
    Reads world (fun check => ∃ (found : Order) (snapshot : Snapshot) (declared : Stage),
        world.store.answer (.order order) = some found ∧
        world.store.answer (.snapshot found.snapshot) = some snapshot ∧
        snapshot.stage? stage = some declared ∧
        check = ⟨snapshot.isLastStage stage, declared.isLastIndex found.stepIndex⟩)
      (lastStep order stage) := by
  refine (reads_findOrder order).bind fun found hOrder => ?_
  refine (reads_findSnapshot found).bind fun snapshot hSnapshot => ?_
  refine (reads_stageOf snapshot stage).bind fun declared hStage => ?_
  exact reads_pure ⟨found, snapshot, declared, hOrder, hSnapshot, hStage, rfl⟩

theorem reads_branchChoice (app : OrderApp) : Reads world (fun _ => True) (branchChoice app) := by
  refine (reads_lookup (l := .app app.app)).bind fun found _ => ?_
  rcases found with _ | found
  · exact reads_pure trivial
  · exact reads_lookup.bind fun _ _ => reads_pure trivial

theorem reads_branches (project order stage : Int64) :
    Reads world (fun _ => True) (branches project order stage) := by
  refine (reads_findOrderOf project order).bind fun found _ => ?_
  refine (reads_findSnapshot found).bind fun snapshot _ => ?_
  refine (reads_stageOf snapshot stage).bind fun _ _ => ?_
  refine reads_lookup.bind fun apps _ => ?_
  exact (reads_mapM reads_branchChoice apps).bind fun _ _ => reads_pure trivial

theorem reads_imagePreview (environment : Int64) (app : OrderApp) :
    Reads world (fun _ => True) (imagePreview environment app) := by
  refine (reads_lookup (l := .app app.app)).bind fun found _ => ?_
  rcases found with _ | found
  · exact reads_pure trivial
  refine (reads_lookup (l := .repository found.repository)).bind fun repository _ => ?_
  rcases repository with _ | repository
  · exact reads_pure trivial
  · exact (reads_appImage environment found repository app.branch).bind fun _ _ => reads_pure trivial

theorem reads_images (order : Int64) : Reads world (fun _ => True) (images order) := by
  refine (reads_findOrder order).bind fun order _ => reads_lookup.bind fun apps _ => ?_
  exact (reads_mapM (reads_imagePreview order.stage) apps).bind fun _ _ => reads_pure trivial

end DeliveryPipeline.Engine

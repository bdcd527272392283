import DeliveryPipeline.Proofs.Engine.Warrant
import DeliveryPipeline.Proofs.Program.Prepares

/-! # From a request to a launch

Whatever it is told, a build or a deploy prepares until it fails or launches its job. By then it has
found the order and reached the CI server, and the job that it launches is the one that was asked for.
-/

namespace DeliveryPipeline

set_option autoImplicit false

inductive JobRequest where
  | build (request : BuildRequest)
  | deploy (request : DeployRequest)

namespace JobRequest

def kind : JobRequest → JobKind
  | build _ => .build
  | deploy _ => .deploy

def create (engine : Engine) (project order stage : Int64) : JobRequest → Operation Launch
  | build request => engine.build project order stage request
  | deploy request => engine.deploy project order stage request

end JobRequest

def Order.FoundIn (order : Order) (stage : Int64) : Knowledge := fun past => ∃ snapshot found,
  ⟨.lookup (.snapshot order.snapshot), .ok (some snapshot)⟩ ∈ past ∧ snapshot.stage? stage = some found

theorem Order.FoundIn.mono {order : Order} {stage : Int64} {own past : List Exchange}
    (h : order.FoundIn stage own) (sub : own ⊆ past) : order.FoundIn stage past := by
  obtain ⟨snapshot, found, hSnapshot, hStage⟩ := h
  exact ⟨snapshot, found, sub hSnapshot, hStage⟩

namespace Engine

open Operation

variable {α : Type}

theorem onlyMakes_findOrderOf {kind : Call → Bool} {project id : Int64}
    (looksUpProject : kind (.lookup (.project project)) = true)
    (looksUpOrder : kind (.lookup (.order id)) = true) : (findOrderOf project id).OnlyMakes kind := by
  refine (onlyMakes_lookup (l := .project project) looksUpProject).bind fun _ => ?_
  refine (onlyMakes_require _ _).bind fun _ => (onlyMakes_ensure _ _).bind fun _ => ?_
  refine OnlyMakes.bind (onlyMakes_find looksUpOrder) fun _ => ?_
  exact (onlyMakes_ensure _ _).bind fun _ => onlyMakes_pure _

theorem onlyMakes_ensureAllowed {kind : Call → Bool} (order : Order) (action : OrderAction) :
    (ensureAllowed order action).OnlyMakes kind := by
  unfold ensureAllowed
  split
  · exact onlyMakes_pure ()
  · exact onlyMakes_throw _

theorem prepares_findOrder (id : Int64) : (findOrder id).Prepares fun order own =>
    ⟨.lookup (.order id), .ok (some order)⟩ ∈ own := by
  refine prepares_lookup.bind fun answer own hOwn => prepares_require fun order hFound => ?_
  rw [hOwn, hFound]
  simp

theorem prepares_findOrderOf (project id : Int64) : (findOrderOf project id).Prepares fun order own =>
    ⟨.lookup (.order id), .ok (some order)⟩ ∈ own := by
  refine (onlyMakes_lookup (l := .project project) rfl).onlyPrepares.bind fun _ _ _ => ?_
  refine (onlyMakes_require _ _).onlyPrepares.bind fun _ _ _ => ?_
  refine (onlyMakes_ensure _ _).onlyPrepares.bind fun _ _ _ => ?_
  refine (prepares_findOrder id).bind fun order own hFound => ?_
  refine (onlyMakes_ensure _ _).onlyPrepares.bind fun _ _ _ => prepares_pure ?_
  simp [hFound]

theorem prepares_findSnapshot (order : Order) : (findSnapshot order).Prepares fun snapshot own =>
    ⟨.lookup (.snapshot order.snapshot), .ok (some snapshot)⟩ ∈ own := by
  refine prepares_lookup.bind fun answer own hOwn => prepares_require fun snapshot hFound => ?_
  rw [hOwn, hFound]
  simp

/-- The operation looks at anything but orders, and asks systems without changing anything. -/
abbrev OnlyRefers (x : Operation α) : Prop := x.OnlyMakes Call.isReference

theorem onlyRefers_findSnapshot (order : Order) : OnlyRefers (findSnapshot order) := onlyMakes_find rfl

theorem onlyRefers_stageOf (snapshot : Snapshot) (stage : Int64) : OnlyRefers (stageOf snapshot stage) :=
  onlyMakes_require _ _

theorem onlyRefers_currentStep (stage : Stage) (order : Order) : OnlyRefers (currentStep stage order) :=
  onlyMakes_require _ _

theorem onlyRefers_findEnvironment (project stage : Int64) : OnlyRefers (findEnvironment project stage) :=
  onlyMakes_find rfl

theorem onlyRefers_findSetting (id : Int64) : OnlyRefers (findSetting id) := onlyMakes_find rfl

theorem onlyRefers_findToken (user : String) : OnlyRefers (findToken user) := onlyMakes_find rfl

theorem onlyRefers_findServer (environment : Environment) : OnlyRefers (findServer environment) := by
  refine (onlyRefers_findSetting _).bind fun setting => ?_
  cases setting.config with
  | ciServer server => exact (onlyMakes_ensure _ _).bind fun _ => onlyMakes_pure server
  | _ => exact onlyMakes_throw _

theorem onlyRefers_findRegistry (environment : Environment) : OnlyRefers (findRegistry environment) := by
  refine (onlyRefers_findSetting _).bind fun setting => ?_
  cases setting.config with
  | registry registry => exact onlyMakes_pure registry
  | _ => exact onlyMakes_throw _

theorem onlyRefers_findCluster (environment : Environment) : OnlyRefers (findCluster environment) := by
  refine (onlyRefers_findSetting _).bind fun setting => ?_
  cases setting.config with
  | cluster cluster => exact onlyMakes_pure (setting.name, cluster)
  | _ => exact onlyMakes_throw _

theorem onlyRefers_findContainer (engine : Engine) (name : String) :
    OnlyRefers (findContainer engine name) :=
  (onlyMakes_lookup rfl).bind fun _ => (onlyMakes_require _ _).bind fun _ => onlyMakes_pure _

theorem onlyRefers_ensureIdle (scope : Scope) : OnlyRefers (ensureIdle scope) := by
  have hActive : OnlyRefers (activeJobs scope) := (onlyMakes_lookup rfl).bind fun _ => onlyMakes_pure _
  exact hActive.bind fun _ => onlyMakes_ensure _ _

theorem onlyRefers_reachServer (project stage : Int64) : OnlyRefers (reachServer project stage) := by
  refine (onlyRefers_findEnvironment project stage).bind fun environment => ?_
  refine (onlyRefers_findServer environment).bind fun server => ?_
  exact (onlyMakes_errand rfl).bind fun _ => onlyMakes_pure _

theorem prepares_reachServer (project stage : Int64) : (reachServer project stage).Prepares
    fun reached own => ⟨.errand (.ping reached.2), .ok ()⟩ ∈ own := by
  refine (onlyRefers_findEnvironment project stage).onlyPrepares.bind fun environment _ _ => ?_
  refine (onlyRefers_findServer environment).onlyPrepares.bind fun server _ _ => ?_
  refine (prepares_errand rfl).bind fun _ own hOwn => prepares_pure ?_
  rw [hOwn]
  simp

theorem onlyRefers_stepFor (kind : JobKind) (order : Order) (stage : Int64) :
    OnlyRefers (stepFor kind order stage) := by
  refine (onlyRefers_findSnapshot order).bind fun snapshot => ?_
  refine (onlyRefers_stageOf snapshot stage).bind fun found => ?_
  refine (onlyRefers_currentStep found order).bind fun step => ?_
  exact (onlyMakes_ensure _ _).bind fun _ => onlyMakes_pure step

theorem prepares_stepFor (kind : JobKind) (order : Order) (stage : Int64) :
    (stepFor kind order stage).Prepares fun _ own => order.FoundIn stage own := by
  refine (prepares_findSnapshot order).bind fun snapshot own hSnapshot => ?_
  have hStages : (stageOf snapshot stage).Prepares fun found _ => snapshot.stage? stage = some found :=
    prepares_require fun _ => id
  refine hStages.bind fun found own' hStage => ?_
  refine (onlyRefers_currentStep found order).onlyPrepares.bind fun step _ _ => ?_
  refine (onlyMakes_ensure _ _).onlyPrepares.bind fun _ _ _ => prepares_pure ?_
  exact ⟨snapshot, found, by simp [hSnapshot], hStage⟩

theorem onlyRefers_findCancelTarget (engine : Engine) (project order stage : Int64) (kind : JobKind) :
    OnlyRefers (findCancelTarget engine project order stage kind) := by
  refine (onlyRefers_findEnvironment project stage).bind fun environment => ?_
  refine (onlyRefers_findServer environment).bind fun server => ?_
  refine (onlyMakes_lookup (l := .latestJob order) rfl).bind fun latest => ?_
  refine (onlyMakes_require _ latest).bind fun job => ?_
  exact (onlyMakes_require _ job.run).bind fun run => onlyMakes_pure _

/-- The operation looks at records other than orders, and at histories. -/
abbrev OnlyConsults (x : Operation α) : Prop := x.OnlyMakes fun c => c.isReference && c.looks

theorem OnlyConsults.onlyRefers {x : Operation α} (h : OnlyConsults x) : OnlyRefers x :=
  h.mono fun _ hBoth => (Bool.and_eq_true_iff.mp hBoth).1

theorem OnlyConsults.onlyLooks {x : Operation α} (h : OnlyConsults x) : x.OnlyMakes Call.looks :=
  h.mono fun _ hBoth => (Bool.and_eq_true_iff.mp hBoth).2

theorem onlyConsults_resolveImage (mapping : ImageMapping) (repository : Repository)
    (fullName branch : String) : OnlyConsults (resolveImage mapping repository fullName branch) := by
  unfold resolveImage
  cases mapping.policy with
  | origin => exact onlyMakes_pure _
  | latest => exact onlyMakes_pure _
  | systemDefault => exact (onlyMakes_errand rfl).bind fun _ => onlyMakes_pure _

theorem onlyConsults_mappedImage (arrangement : Arrangement) (app : App) (repository : Repository)
    (branch : String) : OnlyConsults (mappedImage arrangement app repository branch) := by
  refine (onlyMakes_lookup (l := .imageMapping arrangement.id app.id) rfl).bind fun mapping => ?_
  rcases mapping with _ | mapping
  · exact onlyMakes_pure none
  refine (onlyConsults_resolveImage mapping repository app.fullName branch).attempt.bind fun r => ?_
  cases r with
  | error e => exact onlyMakes_pure none
  | ok image => exact onlyMakes_pure (some (mapping, image))

theorem onlyConsults_appImage (environment : Int64) (app : App) (repository : Repository)
    (branch : String) : OnlyConsults (appImage environment app repository branch) := by
  refine (onlyMakes_lookup (l := .arrangement app.id environment) rfl).bind fun arrangement => ?_
  rcases arrangement with _ | arrangement
  · exact onlyMakes_pure none
  · exact (onlyConsults_mappedImage arrangement app repository branch).bind fun _ => onlyMakes_pure _

theorem onlyRefers_findCompileEnvironment (id : Option Int64) :
    OnlyRefers (findCompileEnvironment id) := by
  cases id with
  | none => exact onlyMakes_pure none
  | some id => exact onlyMakes_lookup rfl

theorem onlyRefers_gatherApp (project stage : Int64) (environment : Environment) (server : CiServer)
    (request : BuildApp) : OnlyRefers (gatherApp project stage environment server request) := by
  unfold gatherApp
  refine (onlyMakes_lookup (l := .app request.app) rfl).bind fun answer => ?_
  refine (onlyMakes_require _ _).bind fun app => ?_
  refine (onlyMakes_lookup (l := .repository app.repository) rfl).bind fun answer => ?_
  refine (onlyMakes_require _ _).bind fun repository => ?_
  refine (onlyRefers_findCompileEnvironment app.compileEnvironment).bind fun _ => ?_
  exact (onlyConsults_appImage environment.id app repository request.branch).onlyRefers.bind
    fun _ => onlyMakes_pure _

theorem onlyRefers_missingArrangement? (project environment : Int64) (known : List App) (id : Int64) :
    OnlyRefers (missingArrangement? project environment known id) := by
  unfold missingArrangement?
  cases known.find? fun app => app.id = id && app.project = project with
  | none => exact onlyMakes_pure _
  | some app => exact (onlyMakes_lookup rfl).bind fun _ => onlyMakes_pure _

theorem onlyRefers_checkArrangements (project environment : Int64) (name : String)
    (apps : List DeployApp) : OnlyRefers (checkArrangements project environment name apps) := by
  refine OnlyMakes.bind (onlyMakes_lookup rfl) fun known => ?_
  exact (onlyMakes_mapM (onlyRefers_missingArrangement? project environment known) _).bind
    fun _ => onlyMakes_ensure _ _

theorem onlyRefers_renderApp (order environment : Int64) (request : DeployApp) :
    OnlyRefers (renderApp order environment request) := by
  refine (onlyMakes_lookup (l := .app request.app) rfl).bind fun app => ?_
  rcases app with _ | app
  · exact onlyMakes_pure none
  refine (onlyMakes_lookup (l := .arrangement app.id environment) rfl).bind fun arrangement => ?_
  rcases arrangement with _ | arrangement
  · exact onlyMakes_pure none
  refine (onlyMakes_lookup (l := .orderApp order app.id) rfl).bind fun orderApp => ?_
  rcases orderApp with _ | orderApp
  · exact onlyMakes_pure none
  refine (onlyMakes_lookup (l := .repository app.repository) rfl).bind fun repository => ?_
  rcases repository with _ | repository
  · exact onlyMakes_pure none
  · exact (onlyConsults_mappedImage arrangement app repository orderApp.branch).onlyRefers.bind
      fun _ => onlyMakes_pure _

theorem onlyRefers_creatorToken (user : String) : OnlyRefers (creatorToken user) := by
  refine (onlyRefers_findToken user).attempt.bind fun r => ?_
  rcases r with e | token
  · cases e with
    | misconfigured cause => exact onlyMakes_pure ""
    | _ => exact onlyMakes_throw _
  · exact onlyMakes_pure token

/-- The launch of a job that was asked for, once the order is found with its stage and the CI server is
reached. -/
inductive Launches (engine : Engine) (project orderId stage : Int64) (kind : JobKind) :
    Operation Launch → Knowledge
  | intro {order : Order} {server : CiServer} {draft : JobDraft} {planFor : Int64 → Plan}
    {past : List Exchange} (found : ⟨.lookup (.order orderId), .ok (some order)⟩ ∈ past)
    (reached : ⟨.errand (.ping server), .ok ()⟩ ∈ past) (declared : order.FoundIn stage past)
    (place : ∀ id, (Job.ofDraft id draft).isAt project orderId stage kind = true)
    (reports : ∀ id, engine.ReportsOn (planFor id) (Job.ofDraft id draft)) :
    Launches engine project orderId stage kind (launch engine order server draft planFor) past

theorem leadsTo_build (engine : Engine) (project orderId stage : Int64) (request : BuildRequest)
    (past : List Exchange) :
    LeadsTo (Launches engine project orderId stage .build) (build engine project orderId stage request)
      past := by
  unfold build
  refine (onlyMakes_ensure _ _).leadsTo_bind fun _ checked => ?_
  refine (prepares_findOrderOf project orderId).leadsTo_bind fun order looked _ hFound => ?_
  refine (onlyRefers_ensureIdle _).leadsTo_bind fun _ idle => ?_
  refine (prepares_reachServer project stage).leadsTo_bind fun (environment, server) pinged _ hReached => ?_
  refine (prepares_stepFor .build order stage).leadsTo_bind fun step stepped _ hDeclared => ?_
  refine (onlyMakes_ensure _ _).leadsTo_bind fun _ runnable => ?_
  refine (onlyMakes_mapM (onlyRefers_gatherApp project stage environment server) _).leadsTo_bind
    fun gathered own => ?_
  refine (onlyRefers_findContainer engine _).leadsTo_bind fun agent own₁ => ?_
  refine (onlyRefers_findContainer engine _).leadsTo_bind fun imageBuilder own₂ => ?_
  refine (onlyRefers_findRegistry environment).leadsTo_bind fun registry own₃ => ?_
  refine (onlyRefers_findToken _).leadsTo_bind fun token own₄ => ?_
  refine .reaches (.intro ?_ ?_ (hDeclared.mono fun e he => ?_) (fun id => ?_) fun id => ⟨token, rfl⟩)
  · simp [hFound]
  · simp [hReached]
  · simp [he]
  · simp [Job.isAt, Job.ofDraft]

theorem leadsTo_deploy (engine : Engine) (project orderId stage : Int64) (request : DeployRequest)
    (past : List Exchange) :
    LeadsTo (Launches engine project orderId stage .deploy)
      (deploy engine project orderId stage request) past := by
  unfold deploy
  refine (onlyMakes_ensure _ _).leadsTo_bind fun _ checked => ?_
  refine (prepares_findOrderOf project orderId).leadsTo_bind fun order looked _ hFound => ?_
  refine (onlyRefers_ensureIdle _).leadsTo_bind fun _ idle => ?_
  refine (prepares_reachServer project stage).leadsTo_bind fun (environment, server) pinged _ hReached => ?_
  refine (prepares_stepFor .deploy order stage).leadsTo_bind fun step stepped _ hDeclared => ?_
  refine (onlyRefers_checkArrangements project environment.id environment.name _).leadsTo_bind
    fun _ arranged => ?_
  refine (onlyMakes_mapM (onlyRefers_renderApp orderId environment.id) _).leadsTo_bind
    fun rendered own => ?_
  refine (onlyMakes_ensure _ _).leadsTo_bind fun _ own₁ => ?_
  refine (onlyRefers_findCluster environment).leadsTo_bind fun (clusterName, cluster) own₂ => ?_
  refine (onlyRefers_findContainer engine _).leadsTo_bind fun agent own₃ => ?_
  refine (onlyRefers_findToken _).leadsTo_bind fun token own₄ => ?_
  refine (onlyRefers_creatorToken _).leadsTo_bind fun userToken own₅ => ?_
  refine (prepares_errand rfl).leadsTo_bind fun _ applied _ _ => ?_
  refine .reaches (.intro ?_ ?_ (hDeclared.mono fun e he => ?_) (fun id => ?_) fun id => ⟨token, rfl⟩)
  · simp [hFound]
  · simp [hReached]
  · simp [he]
  · simp [Job.isAt, Job.ofDraft]

end Engine

theorem JobRequest.leadsTo_launch (engine : Engine) (project order stage : Int64) (request : JobRequest)
    (past : List Exchange) :
    Operation.LeadsTo (engine.Launches project order stage request.kind)
      (request.create engine project order stage) past := by
  cases request with
  | build request => exact Engine.leadsTo_build engine project order stage request past
  | deploy request => exact Engine.leadsTo_deploy engine project order stage request past

end DeliveryPipeline

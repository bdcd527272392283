import DeliveryPipeline.Proofs.Engine.Gathering
import DeliveryPipeline.Proofs.Engine.Preparation
import DeliveryPipeline.Proofs.Program.Yields

/-! # Requests in an idle scope

A conflict is reported by the lookup of active jobs or by the store when it is to store the job, and by
nothing else. So while the store works, a request for an idle scope may fail for many reasons, but not
with a conflict.
-/

namespace DeliveryPipeline

set_option autoImplicit false

open Operation

def EngineError.isConflict : EngineError → Bool
  | .conflict _ => true
  | _ => false

namespace Operation

variable {α β : Type} {world : World}

/-- While the store works, the operation leaves the world as it is and reports no conflict. -/
def IsPeaceful (world : World) (x : Operation α) : Prop :=
  x.Yields (fun result after => after = world ∧ ∀ e, result = .error e → e.isConflict = false) world

theorem IsPeaceful.yields_bind {ends : Except EngineError β → World → Prop} {x : Operation α}
    {f : α → Operation β} (h : x.IsPeaceful world) (rest : ∀ a, (f a).Yields ends world)
    (errors : ∀ e, e.isConflict = false → ends (.error e) world) : (x >>= f).Yields ends world := by
  apply Operation.Yields.bind h
  · rintro a _ ⟨rfl, -⟩
    exact rest a
  · rintro e _ ⟨rfl, hPeace⟩
    exact errors e (hPeace e rfl)

theorem IsPeaceful.bind {x : Operation α} {f : α → Operation β} (h : x.IsPeaceful world)
    (rest : ∀ a, (f a).IsPeaceful world) : (x >>= f).IsPeaceful world := by
  apply h.yields_bind rest
  rintro e hPeace
  refine ⟨rfl, ?_⟩
  rintro _ ⟨⟩
  exact hPeace

theorem isPeaceful_pure (a : α) : (pure a : Operation α).IsPeaceful world :=
  ⟨rfl, fun _ h => nomatch h⟩

theorem isPeaceful_throw {e : EngineError} (h : e.isConflict = false) :
    (throw e : Operation α).IsPeaceful world := by
  refine ⟨rfl, ?_⟩
  rintro _ ⟨⟩
  exact h

theorem isPeaceful_require {error : EngineError} (h : error.isConflict = false) (value : Option α) :
    (require error value).IsPeaceful world := by
  cases value with
  | none => exact isPeaceful_throw h
  | some a => exact isPeaceful_pure a

theorem isPeaceful_ensure {condition : Bool} {error : EngineError} (h : error.isConflict = false) :
    (ensure condition error).IsPeaceful world := by
  cases condition with
  | false => exact isPeaceful_throw h
  | true => exact isPeaceful_pure ()

theorem isPeaceful_lookup (l : Lookup) : (lookup l).IsPeaceful world := by
  rintro _ rfl
  exact isPeaceful_pure _

theorem isPeaceful_errand {purpose : Purpose} {e : Errand} (h : (Call.errand e).isPreparation = true) :
    (errand purpose e).IsPeaceful world := by
  intro disturbance _
  rw [World.reply_of_isPreparation h]
  generalize (world.reply disturbance (.errand e)).1 = reply
  cases reply with
  | ok answer => exact isPeaceful_pure answer
  | error failure => exact isPeaceful_throw rfl

theorem isPeaceful_find {l : Lookup} {error : EngineError} {read : l.Answer → Option α}
    (h : error.isConflict = false) :
    (lookup l >>= fun answer => require error (read answer)).IsPeaceful world :=
  (isPeaceful_lookup l).bind fun _ => isPeaceful_require h _

theorem IsPeaceful.attempt {x : Operation α} (h : x.IsPeaceful world) :
    (attempt x).Yields (fun result after => after = world ∧ ∃ tried, result = .ok tried ∧
      ∀ e, tried = .error e → e.isConflict = false) world := by
  refine Program.yields_bind.mpr (Program.Yields.mono h ?_)
  rintro tried _ ⟨rfl, hPeace⟩
  exact ⟨rfl, tried, rfl, hPeace⟩

theorem IsPeaceful.attempt_bind {x : Operation α} {f : Except EngineError α → Operation β}
    (h : x.IsPeaceful world)
    (rest : ∀ tried, (∀ e, tried = .error e → e.isConflict = false) → (f tried).IsPeaceful world) :
    (Operation.attempt x >>= f).IsPeaceful world := by
  apply Operation.Yields.bind h.attempt
  · rintro _ _ ⟨rfl, tried, hTried, hPeace⟩
    rw [Except.ok.inj hTried]
    exact rest tried hPeace
  · rintro e _ ⟨rfl, tried, hTried, -⟩
    cases hTried

theorem isPeaceful_mapM {f : α → Operation β} (h : ∀ a, (f a).IsPeaceful world) (l : List α) :
    (l.mapM f).IsPeaceful world := by
  induction l with
  | nil => exact isPeaceful_pure []
  | cons a rest ih =>
    rw [List.mapM_cons]
    exact (h a).bind fun _ => ih.bind fun _ => isPeaceful_pure _

end Operation

namespace Engine

variable {world : World}

theorem isPeaceful_findOrderOf (project order : Int64) : (findOrderOf project order).IsPeaceful world := by
  unfold findOrderOf findOrder
  apply (isPeaceful_lookup (.project project)).bind
  intro found
  apply (isPeaceful_require rfl found).bind
  intro _
  apply (isPeaceful_ensure rfl).bind
  intro _
  apply (isPeaceful_find rfl).bind
  intro found
  exact (isPeaceful_ensure rfl).bind fun _ => isPeaceful_pure found

theorem isPeaceful_findSetting (id : Int64) : (findSetting id).IsPeaceful world := isPeaceful_find rfl

theorem isPeaceful_findToken (user : String) : (findToken user).IsPeaceful world := isPeaceful_find rfl

theorem isPeaceful_findServer (environment : Environment) : (findServer environment).IsPeaceful world := by
  apply (isPeaceful_findSetting _).bind
  intro setting
  cases setting.config with
  | ciServer server => exact (isPeaceful_ensure rfl).bind fun _ => isPeaceful_pure server
  | _ => exact isPeaceful_throw rfl

theorem isPeaceful_findRegistry (environment : Environment) :
    (findRegistry environment).IsPeaceful world := by
  apply (isPeaceful_findSetting _).bind
  intro setting
  cases setting.config with
  | registry registry => exact isPeaceful_pure registry
  | _ => exact isPeaceful_throw rfl

theorem isPeaceful_findCluster (environment : Environment) :
    (findCluster environment).IsPeaceful world := by
  apply (isPeaceful_findSetting _).bind
  intro setting
  cases setting.config with
  | cluster cluster => exact isPeaceful_pure (setting.name, cluster)
  | _ => exact isPeaceful_throw rfl

theorem isPeaceful_findContainer (engine : Engine) (name : String) :
    (findContainer engine name).IsPeaceful world :=
  (isPeaceful_lookup _).bind fun found => (isPeaceful_require rfl found).bind fun _ => isPeaceful_pure _

theorem isPeaceful_creatorToken (user : String) : (creatorToken user).IsPeaceful world := by
  apply (isPeaceful_findToken user).attempt_bind
  intro tried hPeace
  rcases tried with e | token
  · cases e with
    | misconfigured cause => exact isPeaceful_pure ""
    | _ => exact isPeaceful_throw (hPeace _ rfl)
  · exact isPeaceful_pure token

theorem isPeaceful_ensureIdle {scope : Scope} (idle : world.store.activeJobs scope = []) :
    (ensureIdle scope).IsPeaceful world := by
  have hIdle : world.store.answer (.activeJobs scope) = [] := idle
  unfold IsPeaceful ensureIdle Engine.activeJobs
  rw [bind_assoc]
  apply yields_lookup_bind
  rw [hIdle]
  exact isPeaceful_pure ()

theorem isPeaceful_reachServer (project stage : Int64) : (reachServer project stage).IsPeaceful world := by
  apply IsPeaceful.bind (isPeaceful_find rfl)
  intro environment
  apply (isPeaceful_findServer environment).bind
  intro server
  exact (isPeaceful_errand rfl).bind fun _ => isPeaceful_pure _

theorem isPeaceful_stepFor (kind : JobKind) (order : Order) (stage : Int64) :
    (stepFor kind order stage).IsPeaceful world := by
  apply IsPeaceful.bind (isPeaceful_find rfl)
  intro snapshot
  apply IsPeaceful.bind (isPeaceful_require rfl _)
  intro found
  apply IsPeaceful.bind (isPeaceful_require rfl _)
  intro step
  exact (isPeaceful_ensure rfl).bind fun _ => isPeaceful_pure step

theorem isPeaceful_mappedImage (arrangement : Arrangement) (app : App) (repository : Repository)
    (branch : String) : (mappedImage arrangement app repository branch).IsPeaceful world := by
  apply (isPeaceful_lookup (.imageMapping arrangement.id app.id)).bind
  rintro (_ | mapping)
  · exact isPeaceful_pure none
  have hImage : (resolveImage mapping repository app.fullName branch).IsPeaceful world := by
    unfold resolveImage
    cases mapping.policy with
    | origin | latest => exact isPeaceful_pure _
    | systemDefault => exact (isPeaceful_errand rfl).bind fun _ => isPeaceful_pure _
  apply hImage.attempt_bind
  rintro (e | image) -
  · exact isPeaceful_pure none
  · exact isPeaceful_pure (some (mapping, image))

theorem isPeaceful_appImage (environment : Int64) (app : App) (repository : Repository)
    (branch : String) : (appImage environment app repository branch).IsPeaceful world := by
  apply (isPeaceful_lookup (.arrangement app.id environment)).bind
  rintro (_ | arrangement)
  · exact isPeaceful_pure none
  · exact (isPeaceful_mappedImage arrangement app repository branch).bind fun _ => isPeaceful_pure _

theorem isPeaceful_gatherApp (project stage : Int64) (environment : Environment) (server : CiServer)
    (request : BuildApp) : (gatherApp project stage environment server request).IsPeaceful world := by
  unfold gatherApp
  apply (isPeaceful_lookup (.app request.app)).bind
  intro found
  apply (isPeaceful_require rfl _).bind
  intro app
  apply (isPeaceful_lookup (.repository app.repository)).bind
  intro found
  apply (isPeaceful_require rfl found).bind
  intro repository
  have hCompile : (findCompileEnvironment app.compileEnvironment).IsPeaceful world := by
    unfold findCompileEnvironment
    split
    · exact isPeaceful_lookup _
    · exact isPeaceful_pure none
  apply hCompile.bind
  intro compileEnvironment
  exact (isPeaceful_appImage environment.id app repository request.branch).bind fun _ => isPeaceful_pure _

theorem isPeaceful_checkArrangements (project environment : Int64) (name : String)
    (apps : List DeployApp) : (checkArrangements project environment name apps).IsPeaceful world := by
  apply (isPeaceful_lookup (.apps (apps.map (·.app)))).bind
  intro known
  have hMissing : ∀ id, (missingArrangement? project environment known id).IsPeaceful world := by
    intro id
    unfold missingArrangement?
    split
    · exact isPeaceful_pure _
    · exact (isPeaceful_lookup _).bind fun _ => isPeaceful_pure _
  exact (isPeaceful_mapM hMissing _).bind fun _ => isPeaceful_ensure rfl

theorem isPeaceful_renderApp (order environment : Int64) (request : DeployApp) :
    (renderApp order environment request).IsPeaceful world := by
  apply (isPeaceful_lookup (.app request.app)).bind
  rintro (_ | app)
  · exact isPeaceful_pure none
  apply (isPeaceful_lookup (.arrangement app.id environment)).bind
  rintro (_ | arrangement)
  · exact isPeaceful_pure none
  apply (isPeaceful_lookup (.orderApp order app.id)).bind
  rintro (_ | entry)
  · exact isPeaceful_pure none
  apply (isPeaceful_lookup (.repository app.repository)).bind
  rintro (_ | repository)
  · exact isPeaceful_pure none
  · exact (isPeaceful_mappedImage arrangement app repository entry.branch).bind fun _ => isPeaceful_pure _

/-- While the store works, the operation does not end with a conflict. -/
def AvoidsConflict {α : Type} (world : World) (x : Operation α) : Prop :=
  x.Yields (fun result _ => ∀ e, result = .error e → e.isConflict = false) world

theorem AvoidsConflict.of_bind {α β : Type} {x : Operation α} {f : α → Operation β}
    (h : x.IsPeaceful world) (rest : ∀ a, AvoidsConflict world (f a)) : AvoidsConflict world (x >>= f) := by
  apply h.yields_bind rest
  rintro e hPeace _ ⟨⟩
  exact hPeace

theorem avoidsConflict_submission {order : Order} {purpose : Purpose} {server : CiServer} {name : String}
    {plan : Plan} {job : Int64} :
    AvoidsConflict world (do
      startOrder order
      let run ← errand purpose (.submit server name plan)
      update (.startJob job run)
      pure (⟨run, name⟩ : Launch)) := by
  have hSubmit : ∀ past, (do
      let run ← errand purpose (.submit server name plan)
      update (.startJob job run)
      pure (⟨run, name⟩ : Launch)).Obeys (fun _ _ => True) (fun _ _ => True)
      (fun e _ => e.isConflict = false) past := by
    intro past
    apply obeys_errand_bind trivial _ fun _ => rfl
    intro run
    exact obeys_update_bind trivial (fun _ => trivial) fun _ => rfl
  have hRest : (do
      startOrder order
      let run ← errand purpose (.submit server name plan)
      update (.startJob job run)
      pure (⟨run, name⟩ : Launch)).Obeys (fun _ _ => True) (fun _ _ => True)
      (fun e _ => e.isConflict = false) [] := by
    unfold startOrder
    split
    · exact obeys_update_bind trivial (fun _ => hSubmit _) fun _ => rfl
    · exact hSubmit []
  refine Program.Yields.mono (Program.Meets.yields (hRest.meets world)) ?_
  rintro _ _ ⟨_, hEnds⟩ e rfl
  exact hEnds

theorem avoidsConflict_launch {engine : Engine} {found : Order} {server : CiServer} {draft : JobDraft}
    {planFor : Int64 → Plan} (idle : world.store.activeJobs draft.scope = []) :
    AvoidsConflict world (launch engine found server draft planFor) := by
  rintro _ rfl
  have hReply : world.reply .none (.update (.insertJob draft)) =
    ((world.store.insertJob draft).1, { world with store := (world.store.insertJob draft).2 }) := rfl
  rw [hReply]
  unfold Store.insertJob
  rw [idle]
  cases nextNumber? (world.store.jobs.map (·.id)) with
  | none =>
    rintro e ⟨⟩
    rfl
  | some id => exact avoidsConflict_submission

theorem avoidsConflict_build {engine : Engine} {project orderId stage : Int64} {request : BuildRequest}
    (idle : world.store.activeJobs (.of .build project orderId stage) = []) :
    AvoidsConflict world (build engine project orderId stage request) := by
  unfold build
  apply AvoidsConflict.of_bind (isPeaceful_ensure rfl)
  intro _
  apply AvoidsConflict.of_bind (isPeaceful_findOrderOf project orderId)
  intro order
  apply AvoidsConflict.of_bind (isPeaceful_ensureIdle idle)
  intro _
  apply AvoidsConflict.of_bind (isPeaceful_reachServer project stage)
  rintro ⟨environment, server⟩
  apply AvoidsConflict.of_bind (isPeaceful_stepFor .build order stage)
  intro step
  apply AvoidsConflict.of_bind (isPeaceful_ensure rfl)
  intro _
  apply AvoidsConflict.of_bind (isPeaceful_mapM (isPeaceful_gatherApp project stage environment server) _)
  intro gathered
  apply AvoidsConflict.of_bind (isPeaceful_findContainer engine _)
  intro agent
  apply AvoidsConflict.of_bind (isPeaceful_findContainer engine _)
  intro imageBuilder
  apply AvoidsConflict.of_bind (isPeaceful_findRegistry environment)
  intro registry
  apply AvoidsConflict.of_bind (isPeaceful_findToken _)
  intro token
  exact avoidsConflict_launch idle

theorem avoidsConflict_deploy {engine : Engine} {project orderId stage : Int64} {request : DeployRequest}
    (idle : world.store.activeJobs (.of .deploy project orderId stage) = []) :
    AvoidsConflict world (deploy engine project orderId stage request) := by
  unfold deploy
  apply AvoidsConflict.of_bind (isPeaceful_ensure rfl)
  intro _
  apply AvoidsConflict.of_bind (isPeaceful_findOrderOf project orderId)
  intro order
  apply AvoidsConflict.of_bind (isPeaceful_ensureIdle idle)
  intro _
  apply AvoidsConflict.of_bind (isPeaceful_reachServer project stage)
  rintro ⟨environment, server⟩
  apply AvoidsConflict.of_bind (isPeaceful_stepFor .deploy order stage)
  intro step
  apply AvoidsConflict.of_bind (isPeaceful_checkArrangements project environment.id environment.name _)
  intro _
  apply AvoidsConflict.of_bind (isPeaceful_mapM (isPeaceful_renderApp orderId environment.id) _)
  intro rendered
  apply AvoidsConflict.of_bind (isPeaceful_ensure rfl)
  intro _
  apply AvoidsConflict.of_bind (isPeaceful_findCluster environment)
  rintro ⟨clusterName, cluster⟩
  apply AvoidsConflict.of_bind (isPeaceful_findContainer engine _)
  intro agent
  apply AvoidsConflict.of_bind (isPeaceful_findToken _)
  intro token
  apply AvoidsConflict.of_bind (isPeaceful_creatorToken _)
  intro userToken
  apply AvoidsConflict.of_bind (isPeaceful_errand rfl)
  intro _
  exact avoidsConflict_launch idle

end Engine

theorem JobRequest.avoidsConflict_create (engine : Engine) (request : JobRequest)
    {project order stage : Int64} {world : World}
    (idle : world.store.activeJobs (.of request.kind project order stage) = []) :
    Engine.AvoidsConflict world (request.create engine project order stage) := by
  cases request with
  | build request => exact Engine.avoidsConflict_build idle
  | deploy request => exact Engine.avoidsConflict_deploy idle

end DeliveryPipeline

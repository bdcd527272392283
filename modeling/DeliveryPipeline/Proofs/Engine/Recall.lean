import DeliveryPipeline.Proofs.Engine.Gathering
import DeliveryPipeline.Proofs.Program.Hearing

/-! # What the engine finds again

What one run has found in the store and at outside systems another run finds again in the same world, if it
is told no less. So whatever a build or a deploy has gathered can be gathered once more, for all of its apps
or only for some.
-/

namespace DeliveryPipeline

set_option autoImplicit false

open Operation

variable {world : World} {hearing : Hearing world}

namespace Engine

theorem recalls_findOrderOf (project order : Int64) : hearing.Recalls (findOrderOf project order) := by
  unfold findOrderOf findOrder
  apply Hearing.recalls_find_bind rfl
  intro found
  apply (Hearing.recalls_ensure _ _).bind
  intro _
  apply (Hearing.recalls_find rfl).bind
  intro order
  apply (Hearing.recalls_ensure _ _).bind
  intro _
  exact Hearing.repeats_pure rfl

theorem recalls_findSetting (id : Int64) : hearing.Recalls (findSetting id) := Hearing.recalls_find rfl

theorem recalls_findToken (user : String) : hearing.Recalls (findToken user) := Hearing.recalls_find rfl

theorem recalls_findServer (environment : Environment) : hearing.Recalls (findServer environment) := by
  apply (recalls_findSetting _).bind
  intro setting
  cases setting.config with
  | ciServer server =>
    apply (Hearing.recalls_ensure _ _).bind
    intro _
    exact Hearing.repeats_pure rfl
  | _ => exact Hearing.repeats_throw

theorem recalls_findRegistry (environment : Environment) : hearing.Recalls (findRegistry environment) := by
  apply (recalls_findSetting _).bind
  intro setting
  cases setting.config with
  | registry registry => exact Hearing.repeats_pure rfl
  | _ => exact Hearing.repeats_throw

theorem recalls_findCluster (environment : Environment) : hearing.Recalls (findCluster environment) := by
  apply (recalls_findSetting _).bind
  intro setting
  cases setting.config with
  | cluster cluster => exact Hearing.repeats_pure rfl
  | _ => exact Hearing.repeats_throw

theorem recalls_findContainer (engine : Engine) (name : String) :
    hearing.Recalls (findContainer engine name) := by
  apply Hearing.recalls_find_bind rfl
  intro environment
  exact Hearing.repeats_pure rfl

theorem finds_ensureIdle {heard : Exchange → Prop} (faithful : IsFaithful heard world) {scope : Scope}
    (idle : world.store.activeJobs scope = []) :
    (ensureIdle scope).Finds heard world fun _ => True := by
  have hIdle : world.store.answer (.activeJobs scope) = [] := idle
  unfold ensureIdle Engine.activeJobs
  rw [bind_assoc]
  apply (faithful.finds_lookup _).bind
  rintro _ rfl
  rw [hIdle]
  exact finds_pure trivial

theorem recalls_ensureIdle {scope : Scope} (idle : world.store.activeJobs scope = []) :
    hearing.Recalls (ensureIdle scope) := by
  apply Hearing.repeats_of_finds (reads_ensureIdle scope)
  rintro _ -
  exact (finds_ensureIdle hearing.faithful idle).weaken fun _ _ => rfl

theorem recalls_reachServer (project stage : Int64) : hearing.Recalls (reachServer project stage) := by
  apply (Hearing.recalls_find rfl).bind
  intro environment
  apply (recalls_findServer environment).bind
  intro server
  apply (Hearing.recalls_errand rfl).bind
  intro _
  exact Hearing.repeats_pure rfl

theorem recalls_stepFor (kind : JobKind) (order : Order) (stage : Int64) :
    hearing.Recalls (stepFor kind order stage) := by
  apply (Hearing.recalls_find rfl).bind
  intro snapshot
  apply (Hearing.recalls_require _ _).bind
  intro found
  apply (Hearing.recalls_require _ _).bind
  intro step
  apply (Hearing.recalls_ensure _ _).bind
  intro _
  exact Hearing.repeats_pure rfl

theorem finds_creatorToken {heard : Exchange → Prop} (faithful : IsFaithful heard world) (user : String) :
    (creatorToken user).Finds heard world fun token =>
      token = (world.store.answer (.token user)).getD "" := by
  have hToken : (findToken user).run.Hears heard world fun result =>
      result = (world.store.answer (.token user)).elim (.error (.misconfigured (.noToken user))) .ok := by
    constructor
    · rfl
    intro disturbance told
    rw [faithful _ _ told]
    cases world.store.answer (.token user) with
    | none => rfl
    | some token => rfl
  apply (finds_attempt hToken).bind
  rintro _ rfl
  cases world.store.answer (.token user) with
  | none => exact finds_pure rfl
  | some token => exact finds_pure rfl

theorem recalls_resolveImage (mapping : ImageMapping) (repository : Repository) (fullName branch : String) :
    hearing.Recalls (resolveImage mapping repository fullName branch) := by
  unfold resolveImage
  cases mapping.policy with
  | origin | latest => exact Hearing.repeats_pure rfl
  | systemDefault =>
    apply (Hearing.recalls_errand rfl).bind
    intro commits
    exact Hearing.repeats_pure rfl

theorem finds_mappedImage {heard : Exchange → Prop} (faithful : IsFaithful heard world)
    (arrangement : Arrangement) (app : App) (repository : Repository) (branch : String) :
    (mappedImage arrangement app repository branch).Finds heard world fun _ => True := by
  apply (faithful.finds_lookup (.imageMapping arrangement.id app.id)).bind
  rintro (_ | mapping) -
  · exact finds_pure trivial
  have hImage : Reads world _ (resolveImage mapping repository app.fullName branch) :=
    reads_resolveImage mapping repository app.fullName branch
  apply (finds_attempt (Program.Reads.hears hImage)).bind
  rintro (e | image) -
  · exact finds_pure trivial
  · exact finds_pure trivial

theorem hears_mappedImage (arrangement : Arrangement) (app : App) (repository : Repository)
    (branch : String) :
    (mappedImage arrangement app repository branch).Hears hearing.first world fun mapped =>
      ∀ found, mapped = some found →
        (mappedImage arrangement app repository branch).Finds hearing.again world (· = some found) := by
  apply (reads_lookup (l := .imageMapping arrangement.id app.id)).hears.bind
  rintro (_ | mapping) hAnswer
  · exact hears_pure fun _ h => nomatch h
  have hMapping := eq_some_of_answer hAnswer rfl
  have hImage : hearing.Recalls (resolveImage mapping repository app.fullName branch) :=
    recalls_resolveImage mapping repository app.fullName branch
  apply (finds_attempt hImage).hears.bind
  rintro (e | image) hAgain
  · exact hears_pure fun _ h => nomatch h
  apply hears_pure
  rintro _ ⟨⟩
  apply (hearing.faithful.finds_lookup (.imageMapping arrangement.id app.id)).bind
  rintro _ rfl
  rw [hMapping]
  apply (finds_attempt (hAgain image rfl)).bind
  rintro _ ⟨_, rfl, rfl⟩
  exact finds_pure rfl

theorem finds_renderApp {heard : Exchange → Prop} (faithful : IsFaithful heard world)
    (order environment : Int64) (requested : DeployApp) :
    (renderApp order environment requested).Finds heard world fun _ => True := by
  apply (faithful.finds_lookup (.app requested.app)).bind
  rintro (_ | app) -
  · exact finds_pure trivial
  apply (faithful.finds_lookup (.arrangement app.id environment)).bind
  rintro (_ | arrangement) -
  · exact finds_pure trivial
  apply (faithful.finds_lookup (.orderApp order app.id)).bind
  rintro (_ | entry) -
  · exact finds_pure trivial
  apply (faithful.finds_lookup (.repository app.repository)).bind
  rintro (_ | repository) -
  · exact finds_pure trivial
  apply (finds_mappedImage faithful arrangement app repository entry.branch).bind
  rintro mapped -
  exact finds_pure trivial

theorem hears_renderApp (order environment : Int64) (requested : DeployApp) :
    (renderApp order environment requested).Hears hearing.first world fun result =>
      ∀ rendered, result = some rendered →
        (renderApp order environment requested).Finds hearing.again world (· = some rendered) := by
  apply (reads_lookup (l := .app requested.app)).hears.bind
  rintro (_ | app) hAnswer
  · exact hears_pure fun _ h => nomatch h
  have hApp := eq_some_of_answer hAnswer rfl
  apply (reads_lookup (l := .arrangement app.id environment)).hears.bind
  rintro (_ | arrangement) hAnswer
  · exact hears_pure fun _ h => nomatch h
  have hArrangement := eq_some_of_answer hAnswer rfl
  apply (reads_lookup (l := .orderApp order app.id)).hears.bind
  rintro (_ | entry) hAnswer
  · exact hears_pure fun _ h => nomatch h
  have hEntry := eq_some_of_answer hAnswer rfl
  apply (reads_lookup (l := .repository app.repository)).hears.bind
  rintro (_ | repository) hAnswer
  · exact hears_pure fun _ h => nomatch h
  have hRepository := eq_some_of_answer hAnswer rfl
  apply (hears_mappedImage arrangement app repository entry.branch).bind
  intro mapped hAgain
  apply hears_pure
  intro rendered hRendered
  obtain ⟨found, hFound, -⟩ := Option.bind_eq_some_iff.mp hRendered
  apply (hearing.faithful.finds_lookup (.app requested.app)).bind
  rintro _ rfl
  rw [hApp]
  apply (hearing.faithful.finds_lookup (.arrangement app.id environment)).bind
  rintro _ rfl
  rw [hArrangement]
  apply (hearing.faithful.finds_lookup (.orderApp order app.id)).bind
  rintro _ rfl
  rw [hEntry]
  apply (hearing.faithful.finds_lookup (.repository app.repository)).bind
  rintro _ rfl
  rw [hRepository]
  apply (hAgain found hFound).bind
  rintro _ rfl
  rw [hFound] at hRendered
  exact finds_pure hRendered

def Arranges (store : Store) (project environment id : Int64) : Prop :=
  (∃ app ∈ store.apps, app.id = id ∧ app.project = project) ∧
    ∃ arrangement, store.answer (.arrangement id environment) = some arrangement

theorem reads_checkArrangements_arranges (project environment : Int64) (name : String)
    (apps : List DeployApp) :
    Reads world (fun _ => ∀ requested ∈ apps, Arranges world.store project environment requested.app)
      (checkArrangements project environment name apps) := by
  unfold checkArrangements
  apply (reads_lookup (l := .apps (apps.map (·.app)))).bind
  intro known hKnown
  have hStored : ∀ app ∈ known, app ∈ world.store.apps := by
    rintro app hApp
    rcases hKnown with rfl | rfl
    · exact (List.mem_filter.mp (mem_sortedBy.mp hApp)).1
    · cases hApp
  have hMissing : ∀ id, Reads world (fun missing => missing = none →
      Arranges world.store project environment id) (missingArrangement? project environment known id) := by
    intro id
    unfold missingArrangement?
    cases hFound : known.find? fun app => app.id = id && app.project = project with
    | none =>
      apply reads_pure
      rintro ⟨⟩
    | some app =>
      obtain ⟨rfl, hProject⟩ : app.id = id ∧ app.project = project := by
        simpa using List.find?_some hFound
      apply (reads_lookup (l := .arrangement app.id environment)).bind
      rintro (_ | arrangement) hAnswer
      · apply reads_pure
        rintro ⟨⟩
      · apply reads_pure
        rintro -
        exact ⟨⟨app, hStored app (List.mem_of_find?_eq_some hFound), rfl, hProject⟩, arrangement,
          eq_some_of_answer hAnswer rfl⟩
  apply (reads_mapM hMissing _).bind
  intro missing hEach
  apply reads_ensure.weaken
  intro _ hNone requested hRequested
  have hId : requested.app ∈ apps.map (·.app) := List.mem_map_of_mem hRequested
  obtain ⟨result, hResult, hArranges⟩ := exists_of_forall₂_of_mem hEach.flip hId
  exact hArranges (List.filterMap_eq_nil_iff.mp (List.isEmpty_iff.mp hNone) result hResult)

theorem finds_checkArrangements {heard : Exchange → Prop} (faithful : IsFaithful heard world)
    {project environment : Int64} {name : String} {apps : List DeployApp}
    (arranged : ∀ requested ∈ apps, Arranges world.store project environment requested.app) :
    (checkArrangements project environment name apps).Finds heard world fun _ => True := by
  have hMissing : ∀ requested ∈ apps,
      (missingArrangement? project environment (world.store.answer (.apps (apps.map (·.app))))
        requested.app).Finds heard world (· = none) := by
    intro requested hRequested
    obtain ⟨⟨app, hApp, hId, hProject⟩, arrangement, hArrangement⟩ := arranged requested hRequested
    have hKnown : app ∈ world.store.answer (.apps (apps.map (·.app))) := by
      have hListed : (apps.map (·.app)).contains app.id = true := by
        rw [hId, List.contains_iff_mem]
        exact List.mem_map_of_mem hRequested
      exact mem_sortedBy.mpr (List.mem_filter.mpr ⟨hApp, hListed⟩)
    unfold missingArrangement?
    cases hFound : (world.store.answer (.apps (apps.map (·.app)))).find? fun app =>
        app.id = requested.app && app.project = project with
    | none =>
      have hNot := List.find?_eq_none.mp hFound app hKnown
      simp [hId, hProject] at hNot
    | some known =>
      -- another record may have the same number, and is then found first; the arrangement is the same
      obtain ⟨hSame, -⟩ : known.id = requested.app ∧ known.project = project := by
        simpa using List.find?_some hFound
      apply (faithful.finds_lookup (.arrangement known.id environment)).bind
      rintro _ rfl
      rw [hSame, hArrangement]
      exact finds_pure rfl
  unfold checkArrangements
  apply (faithful.finds_lookup _).bind
  rintro _ rfl
  have hEach : ((apps.map (·.app)).mapM (missingArrangement? project environment
      (world.store.answer (.apps (apps.map (·.app)))))).Finds heard world
      (List.Forall₂ (fun _ result => result = none) apps) := by
    apply finds_mapM
    apply List.forall₂_map_left_iff.mpr
    exact List.forall₂_same.mpr hMissing
  apply hEach.bind
  intro missing hNone
  apply finds_ensure
  apply List.isEmpty_iff.mpr
  apply List.filterMap_eq_nil_iff.mpr
  intro result hResult
  obtain ⟨_, -, hNone⟩ := exists_of_forall₂_of_mem hNone hResult
  exact hNone

end Engine

end DeliveryPipeline

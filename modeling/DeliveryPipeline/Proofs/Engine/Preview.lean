import DeliveryPipeline.Proofs.Engine.Omission
import DeliveryPipeline.Proofs.Engine.Undisturbed

/-! # What the preview of images is worth

The preview lists the apps of the order with the images that their mappings stand for in the order's stage.
A deploy finds its images on another way, through the requested apps and the environment of the stage. If
nothing disturbs the preview, it lists every image that the deploy rolls out.
-/

namespace DeliveryPipeline

set_option autoImplicit false

open Operation

namespace World

def image? (world : World) (environment : Int64) (app : App) (repository : Repository) (branch : String) :
    Option String :=
  (world.store.answer (.arrangement app.id environment)).bind fun arrangement =>
    (world.store.answer (.imageMapping arrangement.id app.id)).map fun mapping =>
      Engine.addressOf mapping branch (world.commits repository app.fullName branch)

/-- What the preview says of an app of the order. -/
def preview? (world : World) (environment : Int64) (entry : OrderApp) : Option AppImage :=
  (world.store.answer (.app entry.app)).map fun app =>
    ⟨app.id, app.name, "app", (world.store.answer (.repository app.repository)).bind fun repository =>
      world.image? environment app repository entry.branch⟩

end World

variable {world : World}

theorem Hearing.value_of_finds {α : Type} {x : Operation α} {a : α}
    (h : x.Finds (Hearing.undisturbed world).again world (· = a)) :
    (x.run.run Rule.undisturbed world ()).value = .ok a := by
  obtain ⟨⟨_, hValue, rfl⟩, -⟩ := Program.Hears.of_run h Rule.undisturbed () fun e _ _ told =>
    told.elim fun _ hReply => hReply
  exact hValue

theorem Operation.finds_mapM_eq {α β : Type} {heard : Exchange → Prop} {f : α → Operation β} {g : α → β}
    (h : ∀ a, (f a).Finds heard world (· = g a)) (l : List α) :
    (l.mapM f).Finds heard world (· = l.map g) := by
  have hSame : List.Forall₂ (fun a a' => (f a).Finds heard world (g a' = ·)) l l :=
    List.forall₂_same.mpr fun a _ => (h a).weaken fun _ => Eq.symm
  apply (finds_mapM hSame).weaken
  intro results hResults
  exact (Engine.eq_map_of_forall₂ (List.Forall₂.flip hResults)).symm

namespace Engine

theorem finds_commits {purpose : Purpose} {repository : Repository} {fullName : String}
    {history : HistoryQuery} :
    (errand purpose (.commits repository fullName history)).Finds (Hearing.undisturbed world).again world
      (· = world.commits repository fullName history.branch) := by
  constructor
  · rfl
  intro disturbance told
  have hReply : (world.reply disturbance (.errand (.commits repository fullName history))).1 =
      .ok (world.commits repository fullName history.branch) := told.symm
  rw [hReply]
  exact finds_pure rfl

theorem finds_resolveImage (mapping : ImageMapping) (repository : Repository) (fullName branch : String) :
    (resolveImage mapping repository fullName branch).Finds (Hearing.undisturbed world).again world
      (· = addressOf mapping branch (world.commits repository fullName branch)) := by
  unfold resolveImage addressOf
  cases mapping.policy with
  | origin | latest => exact finds_pure rfl
  | systemDefault =>
    apply finds_commits.bind
    rintro _ rfl
    exact finds_pure rfl

theorem finds_mappedImage_calmly (arrangement : Arrangement) (app : App) (repository : Repository)
    (branch : String) :
    (mappedImage arrangement app repository branch).Finds (Hearing.undisturbed world).again world
      (· = (world.store.answer (.imageMapping arrangement.id app.id)).map fun mapping =>
        (mapping, addressOf mapping branch (world.commits repository app.fullName branch))) := by
  apply ((Hearing.undisturbed world).faithful.finds_lookup (.imageMapping arrangement.id app.id)).bind
  rintro _ rfl
  cases world.store.answer (.imageMapping arrangement.id app.id) with
  | none => exact finds_pure rfl
  | some mapping =>
    apply (finds_attempt (finds_resolveImage mapping repository app.fullName branch)).bind
    rintro _ ⟨_, rfl, rfl⟩
    exact finds_pure rfl

theorem finds_appImage (environment : Int64) (app : App) (repository : Repository) (branch : String) :
    (appImage environment app repository branch).Finds (Hearing.undisturbed world).again world
      (· = world.image? environment app repository branch) := by
  unfold World.image?
  apply ((Hearing.undisturbed world).faithful.finds_lookup (.arrangement app.id environment)).bind
  rintro _ rfl
  cases world.store.answer (.arrangement app.id environment) with
  | none => exact finds_pure rfl
  | some arrangement =>
    apply (finds_mappedImage_calmly arrangement app repository branch).bind
    rintro _ rfl
    exact finds_pure (Option.map_map _ _ _)

theorem finds_imagePreview (environment : Int64) (entry : OrderApp) :
    (imagePreview environment entry).Finds (Hearing.undisturbed world).again world
      (· = world.preview? environment entry) := by
  unfold World.preview?
  apply ((Hearing.undisturbed world).faithful.finds_lookup (.app entry.app)).bind
  rintro _ rfl
  cases world.store.answer (.app entry.app) with
  | none => exact finds_pure rfl
  | some app =>
    apply ((Hearing.undisturbed world).faithful.finds_lookup (.repository app.repository)).bind
    rintro _ rfl
    rw [Option.map_some]
    cases world.store.answer (.repository app.repository) with
    | none => exact finds_pure rfl
    | some repository =>
      apply (finds_appImage environment app repository entry.branch).bind
      rintro _ rfl
      exact finds_pure rfl

theorem finds_images {orderId : Int64} {order : Order}
    (found : world.store.answer (.order orderId) = some order) :
    (images orderId).Finds (Hearing.undisturbed world).again world
      (· = (world.store.answer (.orderApps orderId)).filterMap (world.preview? order.stage)) := by
  unfold images findOrder
  rw [bind_assoc]
  apply ((Hearing.undisturbed world).faithful.finds_lookup (.order orderId)).bind
  rintro _ rfl
  rw [found]
  apply ((Hearing.undisturbed world).faithful.finds_lookup (.orderApps orderId)).bind
  rintro _ rfl
  apply (finds_mapM_eq (finds_imagePreview order.stage) _).bind
  rintro _ rfl
  apply finds_pure
  rw [List.filterMap_map]
  rfl

theorem Source.preview?_eq {source : Source} {orderId environment app : Int64}
    (stored : source.StoredIn world.store orderId environment app) :
    source.entry ∈ world.store.answer (.orderApps orderId) ∧
      world.preview? environment source.entry =
        some ⟨app, source.app.name, "app", some (source.address world)⟩ := by
  have hId : source.app.id = app := (mem_of_find? stored.app).2
  have hEntry : source.entry.order = orderId ∧ source.entry.app = source.app.id := by
    simpa using List.find?_some stored.entry
  constructor
  · apply mem_sortedBy.mpr
    exact List.mem_filter.mpr ⟨List.mem_of_find?_eq_some stored.entry, decide_eq_true hEntry.1⟩
  · have hApp : world.store.answer (.app source.entry.app) = some source.app := by
      rw [hEntry.2, hId]
      exact stored.app
    have hImage : world.image? environment source.app source.repository source.entry.branch =
        some (source.address world) := by
      rw [World.image?, stored.arrangement, Option.bind_some, stored.mapping]
      rfl
    rw [World.preview?, hApp, Option.map_some, stored.repository, Option.bind_some, hImage, hId]

/-- A job that the deploy has stored is for apps whose images the preview lists. -/
def IsPreviewed (world : World) (orderId stage : Int64) (apps : List JobApp) : Prop :=
  ∀ entry ∈ apps, ∃ address, entry.image = some address ∧
    ∃ preview ∈ (world.store.answer (.orderApps orderId)).filterMap (world.preview? stage),
      preview.app = entry.app ∧ preview.image = some address

theorem meets_deploy_previewed (engine : Engine) (world : World) (project orderId stage : Int64)
    (request : DeployRequest) :
    let ends (after : Store) : Prop := ∀ job ∈ after.jobs, job ∈ world.store.jobs ∨
      IsPreviewed world orderId stage job.apps
    (deploy engine project orderId stage request).Meets (fun _ _ _ => True)
      (fun _ _ after => ends after.store) (fun _ _ after => ends after.store) [] world := by
  intro ends
  have hKept : ∀ {after : Store}, after.jobs = world.store.jobs → ends after := fun hSame job hJob =>
    .inl (hSame ▸ hJob)
  rw [deploy_eq_bind]
  refine (reads_gatherDeployment request).meets_bind (fun _ _ _ => trivial) (fun _ _ => hKept rfl)
    fun deployment past hStored => ?_
  have hEnvironment : deployment.environment.id = stage := by
    have hFound := List.find?_some hStored.environment
    simp only [Bool.and_eq_true, decide_eq_true_eq] at hFound
    exact hFound.1
  have hPreviewed : IsPreviewed world orderId stage (deployment.rendered.map (·.record)) := by
    intro entry hEntry
    obtain ⟨rendered, hRendered, rfl⟩ := List.mem_map.mp hEntry
    obtain ⟨source, requested, hSource⟩ := hStored.exists_source hRendered
    obtain ⟨hListed, hPreview⟩ := source.preview?_eq hSource.toStoredIn
    rw [hEnvironment] at hPreview
    rw [hSource.record]
    exact ⟨_, rfl, _, List.mem_filterMap.mpr ⟨source.entry, hListed, hPreview⟩, rfl, rfl⟩
  have hGained : ∀ {after : Store}, deployment.Stores world.store after → ends after := by
    rintro after ⟨job, hJobs, hApps⟩ other hOther
    rw [hJobs] at hOther
    rcases List.mem_append.mp hOther with hOld | hNew
    · exact .inl hOld
    · rw [List.mem_singleton.mp hNew, hApps]
      exact .inr hPreviewed
  exact (deployment.meets_rest engine project stage request hStored.order).weaken
    (fun _ _ _ hStores => hGained hStores) fun _ _ _ hEnds => hEnds.elim hKept hGained

/-- Whatever disturbs a deploy of an order in its stage: if it stores a job, the preview of the order's images
in the world before it, undisturbed, lists for each app of the job the very image that is rolled out. -/
theorem previewed_of_deploy {σ : Type} (engine : Engine) (project : Int64) (request : DeployRequest)
    (rule : Rule σ) (state : σ) {orderId : Int64} {order : Order}
    (found : world.store.answer (.order orderId) = some order) :
    let run := (deploy engine project orderId order.stage request).run.run rule world state
    ∃ previews, ((images orderId).run.run Rule.undisturbed world ()).value = .ok previews ∧
      ∀ job ∈ run.world.store.jobs, job ∉ world.store.jobs → ∀ entry ∈ job.apps,
        ∃ address, entry.image = some address ∧
          ∃ preview ∈ previews, preview.app = entry.app ∧ preview.image = some address := by
  intro run
  refine ⟨_, Hearing.value_of_finds (finds_images found), fun job hJob hNew => ?_⟩
  have hMeets : (deploy engine project orderId order.stage request).Meets _ _ _ [] world :=
    meets_deploy_previewed engine world project orderId order.stage request
  cases hValue : run.value with
  | ok launch => exact (hMeets.ends_of_ok hValue job hJob).resolve_left hNew
  | error e => exact (hMeets.fails_of_error hValue job hJob).resolve_left hNew

theorem previewed_of_deploy_in_tagged :
    let run := (deploy (.ofServer "http://conveyor.local") 1 5 3 ⟨"alice", [⟨12⟩]⟩).run.run Rule.undisturbed
      tagged ()
    ∃ previews, ((images 5).run.run Rule.undisturbed tagged ()).value = .ok previews ∧
      ∃ job ∈ run.world.store.jobs, job.apps.map (·.app) = [12] ∧ ∀ entry ∈ job.apps,
        ∃ address, entry.image = some address ∧
          ∃ preview ∈ previews, preview.app = entry.app ∧ preview.image = some address := by
  intro run
  let order : Order := ⟨5, 1, "v1.2.0", "spring release", 3, 1, "deploy", "deploy", .running, "alice", 1⟩
  have hFound : tagged.store.answer (.order 5) = some order := rfl
  have hJobs : (run.world.store.jobs.map fun job => job.apps.map (·.app)) = [[12]] := by decide +kernel
  obtain ⟨previews, hPreviews, hListed⟩ := previewed_of_deploy (.ofServer "http://conveyor.local") 1
    ⟨"alice", [⟨12⟩]⟩ Rule.undisturbed () hFound
  obtain ⟨job, hJob⟩ := List.map_eq_singleton_iff.mp hJobs
  have hMem : job ∈ run.world.store.jobs := by
    rw [hJob.1]
    exact List.mem_singleton.mpr rfl
  exact ⟨previews, hPreviews, job, hMem, hJob.2, hListed job hMem List.not_mem_nil⟩

end Engine

end DeliveryPipeline

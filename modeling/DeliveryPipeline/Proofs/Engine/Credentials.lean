import DeliveryPipeline.Proofs.Engine.Planning
import DeliveryPipeline.Proofs.Json.Ordered
import DeliveryPipeline.Proofs.Text.Base64

/-! # The accounts that a build is given

The agent checks out and pushes with what it finds in the variables of a plan: the accounts of the source
control hosts as one JSON object, and the account of the registry in base64. Whoever reads these variables
gets the accounts as they are stored.
-/

namespace DeliveryPipeline

set_option autoImplicit false

open Json (Ascending)

namespace Engine

/-- One entry for each host, in ascending order; it holds the user and the token of the last of the
repositories on this host. -/
structure AccountsOf (repositories : List Repository) (accounts : List (String × Json)) : Prop where
  ascending : Ascending accounts
  keys : ∀ host, host ∈ accounts.map (·.1) ↔ host ∈ repositories.map Repository.host
  last : ∀ before repository after, repositories = before ++ repository :: after →
    (∀ later ∈ after, later.host ≠ repository.host) →
    (repository.host, .array [.string repository.user, .string repository.token]) ∈ accounts

def account (repository : Repository) : String × Json :=
  (repository.host, Json.ofStrings [repository.user, repository.token])

theorem exists_accounts (repositories : List Repository) :
    ∃ accounts, Json.ofFields (repositories.map account) = .object accounts ∧
      AccountsOf repositories accounts ∧ ∀ entry ∈ accounts, entry ∈ repositories.map account := by
  obtain ⟨accounts, hAccounts, hAscending, mem_iff⟩ :=
    Json.exists_ofFields_ascending (repositories.map account)
  have hMem : ∀ entry ∈ accounts, entry ∈ repositories.map account :=
    fun entry hEntry => ((mem_iff entry).mp hEntry).mem
  refine ⟨accounts, hAccounts, ⟨hAscending, fun host => ⟨?found, ?kept⟩, ?last⟩, hMem⟩
  case found =>
    intro hHost
    obtain ⟨entry, hEntry, rfl⟩ := List.mem_map.mp hHost
    obtain ⟨repository, hRepository, rfl⟩ := List.mem_map.mp (hMem entry hEntry)
    exact List.mem_map.mpr ⟨repository, hRepository, rfl⟩
  case kept =>
    intro hHost
    have hKey : host ∈ (repositories.map account).map (·.1) := by rwa [List.map_map]
    obtain ⟨value, hLast⟩ := Json.exists_isLast hKey
    exact List.mem_map.mpr ⟨(host, value), (mem_iff _).mpr hLast, rfl⟩
  case last =>
    rintro before repository after rfl hLast
    apply (mem_iff _).mpr
    refine ⟨before.map account, after.map account, by simp [account, Json.ofStrings, Json.ofList], ?_⟩
    intro later hLater
    obtain ⟨other, hOther, rfl⟩ := List.mem_map.mp hLater
    exact hLast other hOther

/-- The text of some accounts is written with one for each host, and whoever reads it finds them so. -/
theorem exists_accounts_of_credentialText {credentials : List Credential} {repositories : List Repository}
    (opens : List.Forall₂ Credential.Opens credentials repositories) :
    ∃ accounts, credentialText credentials = Json.render (.object accounts) ∧
      Json.parse (credentialText credentials) = .ok (.object accounts) ∧
      AccountsOf repositories accounts := by
  have hFields : (credentials.map fun c => (c.host, Json.ofStrings [c.user, c.token])) =
      repositories.map account := by
    induction opens with
    | nil => rfl
    | cons hFirst _ ih =>
      cases hFirst
      rw [List.map_cons, ih]
      rfl
  obtain ⟨accounts, hAccounts, hOf, hMem⟩ := exists_accounts repositories
  have hText : credentialText credentials = Json.render (.object accounts) := by
    rw [credentialText, hFields, hAccounts]
  refine ⟨accounts, hText, ?_, hOf⟩
  rw [hText]
  refine Json.parse_render (.object hOf.ascending ?_) (Json.fieldsFit_iff.mpr ?_)
  · intro entry hEntry
    obtain ⟨repository, -, rfl⟩ := List.mem_map.mp (hMem entry hEntry)
    refine .array ?_
    simp [Json.IsOrdered.string]
  · intro entry hEntry
    obtain ⟨repository, -, rfl⟩ := List.mem_map.mp (hMem entry hEntry)
    rfl

def IsRepositoryOf (store : Store) (project : Int64) (request : BuildApp) (repository : Repository) : Prop :=
  ∃ app, store.answer (.app request.app) = some app ∧ app.project = project ∧
    store.answer (.repository app.repository) = some repository

def IsRegistryOf (store : Store) (project stage : Int64) (registry : Registry) : Prop :=
  ∃ environment setting, store.answer (.environment project stage) = some environment ∧
    store.answer (.setting environment.registry) = some setting ∧ setting.config = .registry registry

theorem Building.Serves.exists_repositories {building : Building} {world : World} {project : Int64}
    {requested : List BuildApp} (h : building.Serves world project requested) :
    ∃ repositories, List.Forall₂ (IsRepositoryOf world.store project) requested repositories ∧
      List.Forall₂ Credential.Opens (building.gathered.map (·.2)) repositories := by
  rw [Serves] at h
  generalize building.gathered = gathered at h
  induction h with
  | nil => exact ⟨[], .nil, .nil⟩
  | cons hFirst _ ih =>
    obtain ⟨repositories, hRepositories, hOpens⟩ := ih
    obtain ⟨app, repository, hGathers, hRepository, hOpen⟩ := hFirst
    exact ⟨repository :: repositories, .cons ⟨app, hGathers.stored, hGathers.owned, hRepository⟩ hRepositories,
      .cons hOpen hOpens⟩

end Engine

/-- The variables of the plan are the reserved ones and then those of the request. One of them holds the
accounts of the repositories, and one that of the registry. -/
def Plan.Authorizes (plan : Plan) (repositories : List Repository) (registry : Registry)
    (requested : List Variable) : Prop :=
  ∃ workspace token hosts auth address,
    plan.jobVariables =
      [⟨"CI_WORKSPACE", workspace⟩, ⟨"ACCESS_TOKEN", token⟩, ⟨"REPO_CNF", hosts⟩, ⟨"DOCKER_AUTH", auth⟩,
        ⟨"REGISTRY_ADDR", address⟩, ⟨"DOCKER_CONFIG", "/kaniko/.docker"⟩] ++ requested ∧
    (∃ accounts, hosts = Json.render (.object accounts) ∧ Json.parse hosts = .ok (.object accounts) ∧
      Engine.AccountsOf repositories accounts) ∧
    Text.Base64.decode? auth.toList = some (registry.user ++ ":" ++ registry.password).toUTF8.toList

theorem Engine.Building.authorizes_plan {engine : Engine} {building : Building} {project orderId stage : Int64}
    {request : BuildRequest} {repositories : List Repository}
    (opens : List.Forall₂ Credential.Opens (building.gathered.map (·.2)) repositories) (job : Int64) :
    (building.plan engine project orderId stage request job).Authorizes repositories building.registry
      request.jobVariables :=
  ⟨_, _, _, _, _, rfl, exists_accounts_of_credentialText opens, Text.Base64.decode?_encodeText _⟩

/-- In every plan that reports a build, the accounts are those of the repositories of all requested apps and
that of the registry of the stage, and the variables of the request follow the reserved ones as they are. -/
theorem Api.Command.authorizes_of_submit {σ : Type} (engine : Engine) (command : Api.Command) (rule : Rule σ)
    (world : World) (state : σ) :
    let run := (command.operation engine).run.run rule world state
    ∀ server name plan reply, ⟨.errand (.submit server name plan), reply⟩ ∈ run.exchanges →
      ∃ (here : World) (request : JobRequest) (project order stage : Int64) (token : String) (job : Int64),
        command.Asks world here request project order stage ∧
        plan.callback = engine.callback token request.kind project order stage job ∧
        ∀ build, request = .build build → ∃ repositories registry,
          List.Forall₂ (Engine.IsRepositoryOf here.store project) build.apps repositories ∧
          Engine.IsRegistryOf here.store project stage registry ∧
          plan.Authorizes repositories registry build.jobVariables := by
  intro run server name plan reply hSubmit
  obtain ⟨here, request, project, order, stage, draft, id, hAsks, -, hPlans⟩ := exists_plans_of_submit hSubmit
  cases hPlans with
  | @build request building job stored serves =>
    refine ⟨here, .build request, project, order, stage, building.token, job, hAsks, rfl, ?_⟩
    rintro _ ⟨⟩
    obtain ⟨repositories, hRepositories, hOpens⟩ := serves.exists_repositories
    obtain ⟨setting, hSetting, hConfig⟩ := stored.registry
    exact ⟨repositories, building.registry, hRepositories,
      ⟨building.environment, setting, stored.environment, hSetting, hConfig⟩,
      Engine.Building.authorizes_plan hOpens job⟩
  | @deploy request deployment job =>
    refine ⟨here, .deploy request, project, order, stage, deployment.token, job, hAsks, rfl, ?_⟩
    rintro _ ⟨⟩

theorem Api.Command.authorizes_of_submit_in_workshop :
    let engine := Engine.ofServer "http://conveyor.local"
    let request : BuildRequest :=
      ⟨"alice", [⟨12, "dev", "", some "npm ci"⟩, ⟨13, "dev", "", none⟩], [⟨"REPO_CNF", "none"⟩]⟩
    let run := ((Api.Command.build 1 5 3 request).operation engine).run.run Rule.undisturbed
      (workshop "web" "api") ()
    ∃ server name plan reply, ⟨.errand (.submit server name plan), reply⟩ ∈ run.exchanges ∧
      ∃ repository : Repository, repository.host = "git.local" ∧
        plan.Authorizes [repository, repository] ⟨"https://registry.local", "push", "secret"⟩
          [⟨"REPO_CNF", "none"⟩] := by
  intro engine request run
  have hSubmits : (run.exchanges.any fun e => e.call.submits) = true := by decide +kernel
  obtain ⟨⟨c, reply⟩, hMem, hCall⟩ := List.any_eq_true.mp hSubmits
  obtain ⟨server, name, plan, rfl⟩ := Call.exists_of_submits hCall
  obtain ⟨here, asked, project, order, stage, token, job, hAsks, -, hBuild⟩ :=
    authorizes_of_submit engine (.build 1 5 3 request) Rule.undisturbed (workshop "web" "api") ()
      server name plan reply hMem
  refine ⟨server, name, plan, reply, hMem, ⟨1, .gitea, "https://git.local/", "bot", "git-token"⟩,
    by decide +kernel, ?_⟩
  cases hAsks with
  | completion completing => cases completing.completes
  | build =>
    obtain ⟨repositories, registry, hApps, ⟨environment, setting, hEnvironment, hSetting, hRegistry⟩, hPlan⟩ :=
      hBuild request rfl
    obtain rfl := Option.some.inj (hEnvironment.symm.trans rfl)
    obtain rfl := Option.some.inj (hSetting.symm.trans rfl)
    obtain rfl := Integration.registry.inj hRegistry
    cases hApps with
    | @cons _ first _ _ hFirst hApps =>
    cases hApps with
    | @cons _ second _ _ hSecond hApps =>
    cases hApps
    obtain ⟨web, hWeb, -, hFirst⟩ := hFirst
    obtain ⟨api, hApi, -, hSecond⟩ := hSecond
    obtain rfl := Option.some.inj (hWeb.symm.trans rfl)
    obtain rfl := Option.some.inj (hApi.symm.trans rfl)
    obtain rfl := Option.some.inj (hFirst.symm.trans rfl)
    obtain rfl := Option.some.inj (hSecond.symm.trans rfl)
    exact hPlan

end DeliveryPipeline

import DeliveryPipeline.Proofs.Engine.Preview
import DeliveryPipeline.Proofs.Image

/-! # What an image is tagged with

A mapping that does not keep its image as it is puts a fresh tag behind the name of the image. The address is
one of the same repository, and the tag is replaced when the address is tagged again, unless the tag is made
from a branch or a commit with a slash or a colon: then the old tag counts as a part of the name.
-/

namespace DeliveryPipeline.Engine

set_option autoImplicit false

variable {world : World}

/-- The tag that a policy asks for; `origin` keeps the image. -/
def freshTag? (policy : TagPolicy) (branch : String) (commits : List Commit) : Option String :=
  match policy with
  | .origin => none
  | .latest => some "latest"
  | .systemDefault => some (Image.defaultTag branch commits)

theorem addressOf_of_freshTag? {mapping : ImageMapping} {branch tag : String} {commits : List Commit}
    (h : freshTag? mapping.policy branch commits = some tag) :
    addressOf mapping branch commits = Image.withTag mapping.image tag := by
  unfold freshTag? at h
  unfold addressOf
  cases hPolicy : mapping.policy with
  | origin => simp [hPolicy] at h
  | latest | systemDefault =>
    simp only [hPolicy, Option.some.injEq] at h
    rw [h]

/-- The fresh tag stays a tag: it is `latest`, or the branch has no slash and no colon before its first at
sign, and neither has the newest commit, unless the branch has an at sign. -/
def StaysTag (policy : TagPolicy) (branch : String) (commits : List Commit) : Prop :=
  policy = .latest ∨ Image.IsReadAsTag branch ∧
    ('@' ∈ branch.toList ∨ ∀ commit ∈ commits.head?, Image.IsReadAsTag (Image.shortSha commit.sha))

instance (policy : TagPolicy) (branch : String) (commits : List Commit) :
    Decidable (StaysTag policy branch commits) := inferInstanceAs (Decidable (_ ∨ _))

theorem isReadAsTag_iff_of_freshTag? {policy : TagPolicy} {branch tag : String} {commits : List Commit}
    (h : freshTag? policy branch commits = some tag) :
    Image.IsReadAsTag tag ↔ StaysTag policy branch commits := by
  cases policy with
  | origin => cases h
  | latest =>
    cases h
    exact iff_of_true (Image.isReadAsTag_of_isTag (by decide)) (.inl rfl)
  | systemDefault =>
    cases h
    rw [Image.isReadAsTag_defaultTag_iff]
    simp [StaysTag]

/-- Whatever the image, the branch and the commits: the address is the name of the image with a fresh tag. It
has the name of the image exactly if the tag stays a tag, and exactly then the next tag replaces it. -/
theorem stripTag_resolved_iff {mapping : ImageMapping} (retags : mapping.policy ≠ .origin)
    (repository : Repository) (fullName branch : String) (world : World) :
    let commits := world.commits repository fullName branch
    let resolve := (resolveImage mapping repository fullName branch).run
    ∃ address tag, freshTag? mapping.policy branch commits = some tag ∧
      address = Image.stripTag mapping.image ++ ":" ++ tag ∧
      (resolve.run Rule.undisturbed world ()).value = .ok address ∧
      (∀ {σ : Type} (rule : Rule σ) (state : σ) (other : String),
        (resolve.run rule world state).value = .ok other → other = address) ∧
      (Image.stripTag address = Image.stripTag mapping.image ↔ StaysTag mapping.policy branch commits) ∧
      ∀ other, Image.withTag address other = Image.withTag mapping.image other ↔
        StaysTag mapping.policy branch commits := by
  intro commits resolve
  obtain ⟨tag, hTag⟩ : ∃ tag, freshTag? mapping.policy branch commits = some tag := by
    cases hPolicy : mapping.policy with
    | origin => exact absurd hPolicy retags
    | latest | systemDefault => exact ⟨_, rfl⟩
  have hAddress := addressOf_of_freshTag? hTag
  have hStays := isReadAsTag_iff_of_freshTag? hTag
  refine ⟨Image.withTag mapping.image tag, tag, hTag, rfl, ?_, ?_, ?_, fun other => ?_⟩
  · rw [← hAddress]
    exact Hearing.value_of_finds (finds_resolveImage mapping repository fullName branch)
  · intro σ rule state other hValue
    rw [← hAddress]
    exact (reads_resolveImage mapping repository fullName branch).of_run hValue
  · exact (Image.stripTag_tagged_iff mapping.image tag).trans hStays
  · exact (Image.withTag_tagged_iff mapping.image tag other).trans hStays

def branched : World :=
  { tagged with histories := [⟨"team/web", "feature/login", [⟨"0a1b2c3d4e5f"⟩]⟩,
      ⟨"team/web", "dev", [⟨"0a1b2c3d4e5f"⟩]⟩] }

def hosted : Repository := ⟨1, .gitea, "https://git.local/", "bot", "git-token"⟩

theorem stripTag_resolved_of_dev :
    let mapping : ImageMapping := ⟨42, 32, 12, "host:5000/app:v1", .systemDefault⟩
    mapping.policy ≠ .origin ∧
      ((resolveImage mapping hosted "team/web" "dev").run.run Rule.undisturbed branched ()).value =
        .ok "host:5000/app:dev-0a1b2c3" ∧
      Image.stripTag "host:5000/app:dev-0a1b2c3" = Image.stripTag mapping.image ∧
      Image.withTag "host:5000/app:dev-0a1b2c3" "latest" = Image.withTag mapping.image "latest" := by
  intro mapping
  have hRetags : mapping.policy ≠ .origin := by decide
  obtain ⟨address, tag, hTag, hText, hValue, -, hName, hNext⟩ :=
    stripTag_resolved_iff hRetags hosted "team/web" "dev" branched
  obtain rfl := Option.some.inj hTag
  have hAddress : address = "host:5000/app:dev-0a1b2c3" := hText.trans (by decide +kernel)
  have hStays : StaysTag mapping.policy "dev" (branched.commits hosted "team/web" "dev") := by decide +kernel
  rw [hAddress] at hValue hName hNext
  exact ⟨hRetags, hValue, hName.mpr hStays, (hNext "latest").mpr hStays⟩

/-- The tag from a branch with a slash counts as a part of the name, and the next tag is put behind it. -/
theorem tag_kept_of_slash_in_branch :
    let mapping : ImageMapping := ⟨42, 32, 12, "registry/app:v1", .systemDefault⟩
    ∃ address, ((resolveImage mapping hosted "team/web" "feature/login").run.run Rule.undisturbed branched
        ()).value = .ok address ∧
      Image.stripTag address ≠ Image.stripTag mapping.image ∧
      Image.withTag address "latest" = "registry/app:feature/login-0a1b2c3:latest" :=
  ⟨"registry/app:feature/login-0a1b2c3", by decide +kernel, by decide +kernel, by decide +kernel⟩

end DeliveryPipeline.Engine

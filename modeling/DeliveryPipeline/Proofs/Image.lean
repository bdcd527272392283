import DeliveryPipeline.Image
import Mathlib.Data.List.Infix
import Mathlib.Tactic.Common

/-! # References taken apart

A reference consists of a name, a tag and a digest, and what is left without the tag and the digest is the
name. For a text that was tagged this is so exactly if the tag is read as a tag again: a slash or a colon in
it moves the place where the tag is taken to begin.
-/

namespace DeliveryPipeline.Image

set_option autoImplicit false

open DeliveryPipeline.Text

/-- A name has no at sign, and a slash after every colon: a colon that no path follows would start a tag. -/
def IsName (name : List Char) : Prop :=
  '@' ∉ name ∧ ∀ part ∈ name.tails, part.head? = some ':' → '/' ∈ part

def IsTag (tag : List Char) : Prop := ∀ c ∈ tag, c ≠ '/' ∧ c ≠ ':' ∧ c ≠ '@'

instance (name : List Char) : Decidable (IsName name) := inferInstanceAs (Decidable (_ ∧ _))

instance (tag : List Char) : Decidable (IsTag tag) := List.decidableBAll _ _

structure Reference where
  name : String
  tag : Option String
  digest : Option String
  isName : IsName name.toList
  isTag : ∀ text ∈ tag, IsTag text.toList

def Reference.text (reference : Reference) : String :=
  reference.name ++ reference.tag.elim "" (":" ++ ·) ++ reference.digest.elim "" ("@" ++ ·)

theorem withoutDigest_cons (c : Char) (s : List Char) :
    withoutDigest (c :: s) = if c = '@' then [] else c :: withoutDigest s := by
  unfold withoutDigest
  rw [cut]
  by_cases hc : c = '@'
  · simp [hc]
  · cases h : cut '@' s <;> simp [hc]

theorem withoutDigest_append (s t : List Char) :
    withoutDigest (s ++ t) = if '@' ∈ s then withoutDigest s else s ++ withoutDigest t := by
  induction s with
  | nil => rfl
  | cons c rest ih =>
    by_cases hc : c = '@'
    · simp [withoutDigest_cons, hc]
    · by_cases hRest : '@' ∈ rest <;> simp [withoutDigest_cons, hc, Ne.symm hc, ih, hRest]

theorem not_mem_withoutDigest (s : List Char) : '@' ∉ withoutDigest s := by
  induction s with
  | nil => exact List.not_mem_nil
  | cons c rest ih =>
    rw [withoutDigest_cons]
    by_cases hc : c = '@'
    · simp [hc]
    · simp [hc, ih, Ne.symm hc]

theorem withoutDigest_eq_self {s : List Char} (h : '@' ∉ s) : withoutDigest s = s := by
  have hAll := withoutDigest_append s []
  rw [if_neg h, List.append_nil] at hAll
  exact hAll.trans (List.append_nil s)

theorem exists_last_colon {s : List Char} (h : ':' ∈ s) :
    ∃ before after, s = before ++ ':' :: after ∧ ':' ∉ after := by
  cases hCut : cutLast ':' s with
  | none => exact absurd h (cutLast_eq_none_iff.mp hCut)
  | some parts =>
    obtain ⟨hLast, hSplit⟩ := cutLast_eq_some_iff.mp hCut
    exact ⟨parts.1, parts.2, hSplit, hLast⟩

theorem nameOf_of_colon {image before after : List Char}
    (split : withoutDigest image = before ++ ':' :: after) (last : ':' ∉ after) :
    nameOf image = if '/' ∈ after then before ++ ':' :: after else before := by
  rw [nameOf, split, cutLast_eq_some_iff.mpr ⟨last, rfl⟩]

theorem nameOf_of_not_mem {image : List Char} (h : ':' ∉ withoutDigest image) :
    nameOf image = withoutDigest image := by
  rw [nameOf, cutLast_eq_none_iff.mpr h]

theorem not_mem_nameOf (image : List Char) : '@' ∉ nameOf image := by
  have hFree := not_mem_withoutDigest image
  by_cases hColon : ':' ∈ withoutDigest image
  · obtain ⟨before, after, hSplit, hLast⟩ := exists_last_colon hColon
    rw [nameOf_of_colon hSplit hLast]
    rw [hSplit] at hFree
    split
    · exact hFree
    · exact fun h => hFree (List.mem_append_left _ h)
  · rwa [nameOf_of_not_mem hColon]

theorem nameOf_eq_self {name : List Char} (h : IsName name) : nameOf name = name := by
  have hWhole : withoutDigest name = name := withoutDigest_eq_self h.1
  by_cases hColon : ':' ∈ name
  · obtain ⟨host, path, hSplit, hLast⟩ := exists_last_colon hColon
    have hPath : '/' ∈ ':' :: path := h.2 _ ((List.mem_tails _ _).mpr ⟨host, hSplit.symm⟩) rfl
    rw [nameOf_of_colon (hWhole.trans hSplit) hLast, if_pos (by simpa using hPath), hSplit]
  · rw [nameOf_of_not_mem (hWhole.symm ▸ hColon), hWhole]

theorem isTag_iff {tag : List Char} : IsTag tag ↔ '/' ∉ tag ∧ ':' ∉ tag ∧ '@' ∉ tag := by
  unfold IsTag
  grind

theorem nameOf_tagged_iff {name : List Char} (h : '@' ∉ name) (tag : List Char) :
    nameOf (name ++ ':' :: tag) = name ↔ IsTag (withoutDigest tag) := by
  have hWhole : withoutDigest (name ++ ':' :: tag) = name ++ ':' :: withoutDigest tag := by
    rw [withoutDigest_append, if_neg h, withoutDigest_cons, if_neg (by decide)]
  rw [isTag_iff]
  by_cases hColon : ':' ∈ withoutDigest tag
  · -- then a later colon is the last one, and more than the name stands before it
    obtain ⟨before, after, hSplit, hLast⟩ := exists_last_colon hColon
    have hLater : withoutDigest (name ++ ':' :: tag) = (name ++ ':' :: before) ++ ':' :: after := by
      rw [hWhole, hSplit, List.append_assoc, List.cons_append]
    rw [nameOf_of_colon hLater hLast]
    by_cases hSlash : '/' ∈ after <;> simp [hSlash, hColon]
  · rw [nameOf_of_colon hWhole hColon]
    by_cases hSlash : '/' ∈ withoutDigest tag <;> simp [hColon, hSlash, not_mem_withoutDigest]

/-- Behind a colon the text is read as a tag, which may have a digest after it. -/
def IsReadAsTag (tag : String) : Prop := IsTag (withoutDigest tag.toList)

instance (tag : String) : Decidable (IsReadAsTag tag) := inferInstanceAs (Decidable (IsTag _))

theorem stripTag_eq_iff {image name : String} : stripTag image = name ↔ nameOf image.toList = name.toList := by
  rw [stripTag, ← String.toList_inj, String.toList_ofList]

theorem toList_withTag (image tag : String) :
    (withTag image tag).toList = nameOf image.toList ++ ':' :: tag.toList := by
  simp [withTag, stripTag]

theorem stripTag_tagged_iff (image tag : String) :
    stripTag (withTag image tag) = stripTag image ↔ IsReadAsTag tag := by
  rw [stripTag_eq_iff, toList_withTag, stripTag, String.toList_ofList]
  exact nameOf_tagged_iff (not_mem_nameOf _) _

theorem withTag_tagged_iff (image tag other : String) :
    withTag (withTag image tag) other = withTag image other ↔ IsReadAsTag tag := by
  rw [← stripTag_tagged_iff image tag]
  unfold withTag
  simp

theorem isReadAsTag_of_isTag {tag : String} (h : IsTag tag.toList) : IsReadAsTag tag := by
  unfold IsReadAsTag
  rwa [withoutDigest_eq_self (isTag_iff.mp h).2.2]

theorem isReadAsTag_append_iff {s t : String} :
    IsReadAsTag (s ++ t) ↔ IsReadAsTag s ∧ ('@' ∈ s.toList ∨ IsReadAsTag t) := by
  unfold IsReadAsTag
  rw [String.toList_append, withoutDigest_append]
  by_cases hDigest : '@' ∈ s.toList
  · simp [hDigest]
  · simp only [hDigest, if_false, false_or, withoutDigest_eq_self hDigest]
    exact List.forall_mem_append

/-- The short form of a commit does no harm after a branch with an at sign. -/
theorem isReadAsTag_defaultTag_iff {branch : String} {commits : List Commit} :
    IsReadAsTag (defaultTag branch commits) ↔ IsReadAsTag branch ∧
      ('@' ∈ branch.toList ∨ ∀ commit ∈ commits.head?, IsReadAsTag (shortSha commit.sha)) := by
  have hDash : IsReadAsTag "-" := isReadAsTag_of_isTag (by decide)
  have hLatest : IsReadAsTag "-latest" := isReadAsTag_of_isTag (by decide)
  cases commits with
  | nil => simp [defaultTag, isReadAsTag_append_iff, hLatest]
  | cons commit rest => simp [defaultTag, isReadAsTag_append_iff, hDash]

theorem withoutDigest_append_digest {s : List Char} (h : '@' ∉ s) (digest : Option String) :
    withoutDigest (s ++ digest.elim [] ('@' :: ·.toList)) = s := by
  rw [withoutDigest_append, if_neg h]
  cases digest with
  | none => exact List.append_nil s
  | some text => rw [Option.elim_some, withoutDigest_cons, if_pos rfl, List.append_nil]

theorem nameOf_withoutDigest (image : List Char) : nameOf (withoutDigest image) = nameOf image := by
  unfold nameOf
  rw [withoutDigest_eq_self (not_mem_withoutDigest image)]

theorem Reference.toList_text (reference : Reference) :
    reference.text.toList = reference.name.toList ++ reference.tag.elim [] (':' :: ·.toList) ++
      reference.digest.elim [] ('@' :: ·.toList) := by
  unfold Reference.text
  cases reference.tag <;> cases reference.digest <;> simp

theorem Reference.nameOf_text (reference : Reference) :
    nameOf reference.text.toList = reference.name.toList := by
  have hName : '@' ∉ reference.name.toList := reference.isName.1
  rw [reference.toList_text]
  cases hTag : reference.tag with
  | none =>
    rw [Option.elim_none, List.append_nil, ← nameOf_withoutDigest, withoutDigest_append_digest hName]
    exact nameOf_eq_self reference.isName
  | some tag =>
    have hPlain : IsTag tag.toList := reference.isTag tag hTag
    rw [Option.elim_some, List.append_assoc, List.cons_append, nameOf_tagged_iff hName,
      withoutDigest_append_digest (isTag_iff.mp hPlain).2.2]
    exact hPlain

/-- Without its tag and digest a reference is its name. Whatever was tagged, well-formed or not, has the same
name as before, and the next tag takes the place of the last one. -/
theorem stripTag_text_and_tagged :
    (∀ reference : Reference, stripTag reference.text = reference.name) ∧
      ∀ image tag : String, IsTag tag.toList → stripTag (withTag image tag) = stripTag image ∧
        ∀ other, withTag (withTag image tag) other = withTag image other := by
  refine ⟨fun reference => stripTag_eq_iff.mpr reference.nameOf_text, fun image tag plain => ?_⟩
  have hRead : IsReadAsTag tag := isReadAsTag_of_isTag plain
  exact ⟨(stripTag_tagged_iff image tag).mpr hRead, fun other => (withTag_tagged_iff image tag other).mpr hRead⟩

theorem stripTag_text_and_tagged_in_samples :
    let reference : Reference := ⟨"host:5000/team/app", some "1.2", some "sha256:abcd", by decide, by decide⟩
    reference.text = "host:5000/team/app:1.2@sha256:abcd" ∧
      stripTag reference.text = "host:5000/team/app" ∧ IsTag "rc-2".toList ∧
      stripTag (withTag "a:b/c:d:e" "rc-2") = "a:b/c:d" ∧
      withTag (withTag "a:b/c:d:e" "rc-2") "v2" = "a:b/c:d:v2" := by
  intro reference
  have hTag : IsTag "rc-2".toList := by decide
  obtain ⟨hName, hTagged⟩ := stripTag_text_and_tagged
  obtain ⟨hKept, hReplaced⟩ := hTagged "a:b/c:d:e" "rc-2" hTag
  have hMalformed : stripTag "a:b/c:d:e" = "a:b/c:d" := by decide +kernel
  exact ⟨rfl, hName reference, hTag, hKept.trans hMalformed,
    (hReplaced "v2").trans (congrArg (· ++ ":" ++ "v2") hMalformed)⟩

end DeliveryPipeline.Image

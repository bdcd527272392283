import DeliveryPipeline.Proofs.Manifest.Occurrences

/-! # Setting an image

A substitution succeeds exactly if the image has one whole occurrence, which is replaced, and otherwise tells
how many there are. Between image texts it can be taken back, and leaves nothing of the image that was
replaced: seen as a list of runs, a manifest changes in one entry.
-/

namespace DeliveryPipeline.Manifest

set_option autoImplicit false

variable {manifest image replacement rendered : String}

theorem substitute_eq (h : IsImageText image.toList) (manifest replacement : String) :
    substitute manifest image replacement =
      match wholePositions image.toList manifest.toList with
      | [] => .error (.absent image)
      | [position] =>
        let (before, after) := around image.toList manifest.toList position
        .ok (.ofList (before ++ replacement.toList ++ after))
      | positions => .error (.repeated image positions.length) := by
  have hNamed : image.isEmpty = false := by
    rw [← Bool.not_eq_true, String.isEmpty_iff]
    rintro rfl
    exact h.ne_nil rfl
  rw [substitute, hNamed, wholeOccurrences_eq h]
  rcases wholePositions image.toList manifest.toList with _ | ⟨first, _ | ⟨second, more⟩⟩
  · rfl
  · rfl
  · simp

theorem substitute_eq_ok (h : IsImageText image.toList) {before after : List Char}
    (split : manifest.toList = before ++ (image.toList ++ after))
    (single : wholePositions image.toList manifest.toList = [before.length]) (replacement : String) :
    substitute manifest image replacement = .ok (.ofList (before ++ replacement.toList ++ after)) := by
  rw [substitute_eq h, single, split]
  simp only [around_length]

theorem substitute_eq_ok_iff (h : IsImageText image.toList) :
    substitute manifest image replacement = .ok rendered ↔
      ∃ before after, manifest.toList = before ++ (image.toList ++ after) ∧
        wholePositions image.toList manifest.toList = [before.length] ∧
        rendered.toList = before ++ (replacement.toList ++ after) := by
  constructor
  · intro hOk
    have hMatch := substitute_eq h manifest replacement
    rcases hPositions : wholePositions image.toList manifest.toList with _ | ⟨position, _ | ⟨second, more⟩⟩
    · rw [hPositions, hOk] at hMatch
      cases hMatch
    · have hWhole := isWholeAt_of_eq_singleton h.ne_nil hPositions
      obtain ⟨before, after, hSplit, rfl, -⟩ := hWhole.exists_split h.ne_nil
      refine ⟨before, after, hSplit, rfl, ?_⟩
      rw [substitute_eq_ok h hSplit hPositions, Except.ok.injEq] at hOk
      rw [← hOk, String.toList_ofList, List.append_assoc]
    · rw [hPositions, hOk] at hMatch
      cases hMatch
  · rintro ⟨before, after, hSplit, hSingle, hRendered⟩
    rw [substitute_eq_ok h hSplit hSingle, List.append_assoc, ← hRendered, String.ofList_toList]

theorem substitute_eq_error_iff (h : IsImageText image.toList) {error : ManifestError} :
    substitute manifest image replacement = .error error ↔
      (wholePositions image.toList manifest.toList = [] ∧ error = .absent image) ∨
        (1 < (wholePositions image.toList manifest.toList).length ∧
          error = .repeated image (wholePositions image.toList manifest.toList).length) := by
  rw [substitute_eq h]
  rcases wholePositions image.toList manifest.toList with _ | ⟨first, _ | ⟨second, more⟩⟩
  · simp [eq_comm]
  · simp
  · simp [eq_comm]

/-- The positions are those of the whole occurrences, overlapping candidates included. One of them is needed,
and all else stays as it is; the error tells how many there are. -/
theorem substitute_iff (h : IsImageText image.toList) (manifest replacement : String) :
    let positions := wholePositions image.toList manifest.toList
    positions.Nodup ∧
      (∀ position, position ∈ positions ↔ IsWholeAt image.toList manifest.toList position) ∧
      ((∃ rendered, substitute manifest image replacement = .ok rendered) ↔ positions.length = 1) ∧
      (∀ rendered, substitute manifest image replacement = .ok rendered ↔
        ∃ before after, manifest.toList = before ++ (image.toList ++ after) ∧
          positions = [before.length] ∧ rendered.toList = before ++ (replacement.toList ++ after)) ∧
      ∀ error, substitute manifest image replacement = .error error ↔
        (positions = [] ∧ error = .absent image) ∨
          (1 < positions.length ∧ error = .repeated image positions.length) := by
  intro positions
  refine ⟨nodup_wholePositions, fun _ => mem_wholePositions h.ne_nil, ?_,
    fun rendered => substitute_eq_ok_iff h, fun error => substitute_eq_error_iff h⟩
  constructor
  · rintro ⟨rendered, hOk⟩
    obtain ⟨before, after, -, hSingle, -⟩ := (substitute_eq_ok_iff h).mp hOk
    exact congrArg List.length hSingle
  · intro hSingle
    cases hResult : substitute manifest image replacement with
    | ok rendered => exact ⟨rendered, rfl⟩
    | error e =>
      rcases (substitute_eq_error_iff h).mp hResult with ⟨hNone, -⟩ | ⟨hMany, -⟩
      · exact absurd (congrArg List.length hNone) (by rw [hSingle]; decide)
      · exact absurd hSingle (Nat.ne_of_gt hMany)

/-- Two of the three candidates overlap inside a longer reference. -/
theorem substitute_iff_in_sample :
    let manifest := "image: app/app/app\nimage: app/app\n"
    IsImageText "app/app".toList ∧ wholePositions "app/app".toList manifest.toList = [26] ∧
      substitute manifest "app/app" "app:v2" = .ok "image: app/app/app\nimage: app:v2\n" := by
  intro manifest
  have hImage : IsImageText "app/app".toList := by decide
  have hSingle : wholePositions "app/app".toList manifest.toList = [26] := by decide +kernel
  obtain ⟨-, -, -, hOk, -⟩ := substitute_iff hImage manifest "app:v2"
  refine ⟨hImage, hSingle, (hOk _).mpr ⟨"image: app/app/app\nimage: ".toList, "\n".toList, ?_, ?_, ?_⟩⟩
  · decide
  · exact hSingle
  · decide

/-- Two texts that differ in one place, where one has the image as a whole and the other its replacement. -/
def Exchanged (image replacement text text' : List Char) : Prop :=
  ∃ before after, isWhole before after = true ∧ text = before ++ (image ++ after) ∧
    text' = before ++ (replacement ++ after)

theorem Exchanged.symm {image replacement text text' : List Char}
    (h : Exchanged image replacement text text') : Exchanged replacement image text' text := by
  obtain ⟨before, after, hFree, hText, hText'⟩ := h
  exact ⟨before, after, hFree, hText', hText⟩

theorem Exchanged.count_runs {image replacement text text' : List Char}
    (h : Exchanged image replacement text text') (chars : ∀ c ∈ image, isImageChar c = true)
    (chars' : ∀ c ∈ replacement, isImageChar c = true) (run : List Char) :
    (runs text').count run + (if image = run then 1 else 0) =
      (runs text).count run + (if replacement = run then 1 else 0) := by
  obtain ⟨before, after, hFree, rfl, rfl⟩ := h
  obtain ⟨earlier, later, hRuns⟩ := exists_runs hFree
  rw [hRuns image chars, hRuns replacement chars', List.count_append, List.count_append, List.count_cons,
    List.count_cons]
  simp only [beq_iff_eq]
  omega

theorem wholePositions_eq_singleton {image before after : List Char} (h : IsImageText image)
    (free : isWhole before after = true)
    (once : (runs (before ++ (image ++ after))).count image = 1) :
    wholePositions image (before ++ (image ++ after)) = [before.length] := by
  rw [← length_wholePositions h] at once
  obtain ⟨position, hSingle⟩ := List.length_eq_one_iff.mp once
  have hMem : before.length ∈ wholePositions image (before ++ (image ++ after)) :=
    (mem_wholePositions h.ne_nil).mpr (isWholeAt_append_iff.mpr ⟨after, rfl, free⟩)
  rw [hSingle, List.mem_singleton] at hMem
  rw [hSingle, hMem]

theorem substitute_eq_ok_iff_exchanged (h : IsImageText image.toList) :
    substitute manifest image replacement = .ok rendered ↔
      Exchanged image.toList replacement.toList manifest.toList rendered.toList ∧
        (runs manifest.toList).count image.toList = 1 := by
  rw [substitute_eq_ok_iff h]
  constructor
  · rintro ⟨before, after, hSplit, hSingle, hRendered⟩
    have hWhole := isWholeAt_of_eq_singleton h.ne_nil hSingle
    rw [hSplit] at hWhole
    obtain ⟨same, hSame, hFree⟩ := isWholeAt_append_iff.mp hWhole
    obtain rfl := List.append_cancel_left hSame
    refine ⟨⟨before, after, hFree, hSplit, hRendered⟩, ?_⟩
    rw [← length_wholePositions h, hSingle, List.length_singleton]
  · rintro ⟨⟨before, after, hFree, hSplit, hRendered⟩, hOnce⟩
    rw [hSplit] at hOnce ⊢
    exact ⟨before, after, rfl, wholePositions_eq_singleton h hFree hOnce, hRendered⟩

theorem substitute_eq_absent_iff (h : IsImageText image.toList) :
    substitute manifest image replacement = .error (.absent image) ↔
      (runs manifest.toList).count image.toList = 0 := by
  rw [substitute_eq_error_iff h, ← length_wholePositions h, List.length_eq_zero_iff]
  simp

/-- A substitution by an image that does not occur is undone by the opposite one, and nothing is left of the
image that was replaced. -/
theorem substitute_substitute (h : IsImageText image.toList) (h' : IsImageText replacement.toList)
    (ok : substitute manifest image replacement = .ok rendered)
    (absent : ∀ position, ¬ IsWholeAt replacement.toList manifest.toList position) :
    substitute rendered replacement image = .ok manifest ∧
      ∀ other, substitute rendered image other = .error (.absent image) := by
  obtain ⟨hExchanged, hOnce⟩ := (substitute_eq_ok_iff_exchanged h).mp ok
  have hNone : (runs manifest.toList).count replacement.toList = 0 := by
    rw [← length_wholePositions h', List.length_eq_zero_iff, List.eq_nil_iff_forall_not_mem]
    exact fun position hMem => absent position ((mem_wholePositions h'.ne_nil).mp hMem)
  have hOther : image.toList ≠ replacement.toList := by
    intro hSame
    rw [hSame, hNone] at hOnce
    cases hOnce
  have hReplacement := hExchanged.count_runs h.chars h'.chars replacement.toList
  have hImage := hExchanged.count_runs h.chars h'.chars image.toList
  rw [if_neg hOther, if_pos rfl, hNone] at hReplacement
  rw [if_pos rfl, if_neg hOther.symm, hOnce] at hImage
  constructor
  · exact (substitute_eq_ok_iff_exchanged h').mpr ⟨hExchanged.symm, hReplacement⟩
  · intro other
    exact (substitute_eq_absent_iff h).mpr (Nat.succ.inj hImage)

theorem substitute_substitute_in_sample :
    let manifest := "image: app:v10\nimage: app:v1\n"
    let rendered := "image: app:v10\nimage: app:v2\n"
    substitute manifest "app:v1" "app:v2" = .ok rendered ∧
      (∀ position, ¬ IsWholeAt "app:v2".toList manifest.toList position) ∧
      substitute rendered "app:v2" "app:v1" = .ok manifest ∧
      substitute rendered "app:v1" "app:v3" = .error (.absent "app:v1") := by
  intro manifest rendered
  have hImage : IsImageText "app:v1".toList := by decide
  have hReplacement : IsImageText "app:v2".toList := by decide
  have hOk : substitute manifest "app:v1" "app:v2" = .ok rendered := by decide +kernel
  have hAbsent : ∀ position, ¬ IsWholeAt "app:v2".toList manifest.toList position := by
    have hNone : wholePositions "app:v2".toList manifest.toList = [] := by decide +kernel
    intro position
    rw [← mem_wholePositions hReplacement.ne_nil, hNone]
    exact List.not_mem_nil
  obtain ⟨hBack, hGone⟩ := substitute_substitute hImage hReplacement hOk hAbsent
  exact ⟨hOk, hAbsent, hBack, hGone "app:v3"⟩

end DeliveryPipeline.Manifest

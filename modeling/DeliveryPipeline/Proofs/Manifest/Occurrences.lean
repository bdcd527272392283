import DeliveryPipeline.Manifest
import Mathlib.Data.List.Infix
import Mathlib.Tactic.Common

/-! # Whole occurrences of an image

An image is looked for from left to right and without overlap, and what is found inside a longer reference is
dropped afterwards. No whole occurrence gets lost on the way: what overlaps a text of image characters, found
or dropped, has an image character right before it. So the whole occurrences are the maximal runs of image
characters that are equal to the image.
-/

namespace DeliveryPipeline.Manifest

set_option autoImplicit false

/-- The image stands at a position of the text, and no image character stands right before or after it. -/
structure IsWholeAt (image text : List Char) (position : Nat) : Prop where
  stands : image <+: text.drop position
  before : (text.take position).getLast?.any isImageChar = false
  after : (text.drop (position + image.length)).head?.any isImageChar = false

instance (image text : List Char) (position : Nat) : Decidable (IsWholeAt image text position) :=
  decidable_of_iff (_ ∧ _ ∧ _) ⟨fun ⟨stands, before, after⟩ => ⟨stands, before, after⟩,
    fun h => ⟨h.stands, h.before, h.after⟩⟩

def wholePositions (image text : List Char) : List Nat :=
  (List.range (text.length + 1)).filter (IsWholeAt image text ·)

structure IsImageText (image : List Char) : Prop where
  ne_nil : image ≠ []
  chars : ∀ c ∈ image, isImageChar c = true

instance (image : List Char) : Decidable (IsImageText image) :=
  decidable_of_iff (image ≠ [] ∧ image.all isImageChar = true)
    ⟨fun ⟨ne_nil, chars⟩ => ⟨ne_nil, List.all_eq_true.mp chars⟩,
      fun h => ⟨h.ne_nil, List.all_eq_true.mpr h.chars⟩⟩

variable {image before text rest : List Char} {c : Char}

theorem isWhole_iff {after : List Char} : isWhole before after = true ↔
    before.getLast?.any isImageChar = false ∧ after.head?.any isImageChar = false := by
  rw [isWhole, Bool.and_eq_true, Bool.not_eq_true', Bool.not_eq_true']

theorem isWholeAt_append_iff : IsWholeAt image (before ++ text) before.length ↔
    ∃ after, text = image ++ after ∧ isWhole before after = true := by
  have hDrop : (before ++ text).drop (before.length + image.length) = text.drop image.length := by simp
  constructor
  · intro h
    obtain ⟨after, hAfter⟩ := h.stands
    rw [List.drop_left] at hAfter
    refine ⟨after, hAfter.symm, isWhole_iff.mpr ⟨?_, ?_⟩⟩
    · simpa using h.before
    · have hFree := h.after
      rwa [hDrop, ← hAfter, List.drop_left] at hFree
  · rintro ⟨after, rfl, hWhole⟩
    obtain ⟨hBefore, hAfter⟩ := isWhole_iff.mp hWhole
    constructor
    · simp
    · simpa using hBefore
    · rwa [hDrop, List.drop_left]

theorem IsWholeAt.exists_split (named : image ≠ []) {position : Nat} (h : IsWholeAt image text position) :
    ∃ before after, text = before ++ (image ++ after) ∧ before.length = position ∧
      isWhole before after = true := by
  obtain ⟨before, rest, rfl, rfl⟩ : ∃ before rest, text = before ++ rest ∧ before.length = position := by
    refine ⟨text.take position, text.drop position, (List.take_append_drop position text).symm, ?_⟩
    have hLength := h.stands.length_le
    have hPositive := List.length_pos_iff.mpr named
    rw [List.length_drop] at hLength
    rw [List.length_take]
    omega
  obtain ⟨after, rfl, hWhole⟩ := isWholeAt_append_iff.mp h
  exact ⟨before, after, rfl, rfl, hWhole⟩

theorem mem_wholePositions (named : image ≠ []) {position : Nat} :
    position ∈ wholePositions image text ↔ IsWholeAt image text position := by
  unfold wholePositions
  rw [List.mem_filter, List.mem_range, decide_eq_true_eq, and_iff_right_iff_imp]
  intro h
  obtain ⟨before, after, rfl, rfl, -⟩ := h.exists_split named
  rw [List.length_append]
  omega

theorem isWholeAt_of_eq_singleton (named : image ≠ []) {position : Nat}
    (single : wholePositions image text = [position]) : IsWholeAt image text position := by
  rw [← mem_wholePositions named, single]
  exact List.mem_singleton_self _

theorem nodup_wholePositions : (wholePositions image text).Nodup := List.nodup_range.filter _

/-- The whole occurrences that begin after the first part of a text. -/
def wholeFrom (image before text : List Char) : List Nat :=
  (List.range' before.length (text.length + 1)).filter (IsWholeAt image (before ++ text) ·)

theorem wholePositions_eq_wholeFrom : wholePositions image text = wholeFrom image [] text := by
  rw [wholePositions, wholeFrom, List.range_eq_range']
  rfl

theorem wholeFrom_nil (named : image ≠ []) : wholeFrom image before [] = [] := by
  have hNone : ¬ IsWholeAt image (before ++ []) before.length := by
    rw [isWholeAt_append_iff]
    rintro ⟨after, hSplit, -⟩
    exact named (List.append_eq_nil_iff.mp hSplit.symm).1
  simpa [wholeFrom, List.range'_succ] using hNone

theorem wholeFrom_cons : wholeFrom image before (c :: rest) =
    (if IsWholeAt image (before ++ c :: rest) before.length then [before.length] else []) ++
      wholeFrom image (before ++ [c]) rest := by
  have hSame : before ++ c :: rest = before ++ [c] ++ rest := by simp
  rw [wholeFrom, List.length_cons, List.range'_succ, List.filter_cons]
  by_cases hWhole : IsWholeAt image (before ++ c :: rest) before.length
  · simp [wholeFrom, hWhole]
  · simp [wholeFrom, hWhole]

theorem wholeFrom_append (h : before.getLast?.any isImageChar = true) {run : List Char}
    (chars : ∀ c ∈ run, isImageChar c = true) :
    wholeFrom image before (run ++ rest) = wholeFrom image (before ++ run) rest := by
  induction run generalizing before with
  | nil => simp
  | cons c run ih =>
    obtain ⟨hChar, hRun⟩ := List.forall_mem_cons.mp chars
    -- the character before this place is the last one of the part that is passed
    have hInside : ¬ IsWholeAt image (before ++ c :: (run ++ rest)) before.length := by
      intro hWhole
      have hFree := hWhole.before
      rw [List.take_left, h] at hFree
      cases hFree
    rw [List.cons_append, wholeFrom_cons, if_neg hInside, List.nil_append,
      ih (by simpa using hChar) hRun, List.append_assoc, List.singleton_append]

theorem wholeFrom_image_append (h : IsImageText image) {after : List Char} :
    wholeFrom image before (image ++ after) =
      (if isWhole before after = true then [before.length] else []) ++
        wholeFrom image (before ++ image) after := by
  have hHere : IsWholeAt image (before ++ (image ++ after)) before.length ↔ isWhole before after = true := by
    rw [isWholeAt_append_iff]
    simp
  obtain ⟨c, run, rfl⟩ := List.exists_cons_of_ne_nil h.ne_nil
  obtain ⟨hChar, hRun⟩ := List.forall_mem_cons.mp h.chars
  rw [List.cons_append] at hHere ⊢
  rw [wholeFrom_cons, wholeFrom_append (by simpa using hChar) hRun]
  simp only [hHere, List.append_assoc, List.singleton_append]

theorem occurrences_of_append {fuel : Nat} {after : List Char} :
    occurrences image (fuel + 1) before (image ++ after) =
      (before.reverse, after) :: occurrences image fuel (image.reverse ++ before) after := by
  have hFound : image.isPrefixOf? (image ++ after) = some after :=
    List.isPrefixOf?_eq_some_iff_append_eq.mpr rfl
  simp only [occurrences, hFound]

theorem occurrences_of_absent {fuel : Nat} (absent : ¬ image <+: c :: rest) :
    occurrences image (fuel + 1) before (c :: rest) = occurrences image fuel (c :: before) rest := by
  cases hFound : image.isPrefixOf? (c :: rest) with
  | some after => exact absurd ⟨after, List.isPrefixOf?_eq_some_iff_append_eq.mp hFound⟩ absent
  | none => simp only [occurrences, hFound]

theorem occurrences_nil (named : image ≠ []) (fuel : Nat) : occurrences image fuel before [] = [] := by
  cases fuel with
  | zero => rfl
  | succ fuel =>
    cases hFound : image.isPrefixOf? [] with
    | some after =>
      have hEmpty := List.isPrefixOf?_eq_some_iff_append_eq.mp hFound
      exact absurd (List.append_eq_nil_iff.mp hEmpty).1 named
    | none => simp only [occurrences, hFound]

def around (image text : List Char) (position : Nat) : List Char × List Char :=
  (text.take position, text.drop (position + image.length))

theorem around_length {after : List Char} :
    around image (before ++ (image ++ after)) before.length = (before, after) := by
  simp [around]

/-- The search keeps what it has passed in reverse. -/
theorem filter_occurrences (h : IsImageText image) {fuel : Nat} (enough : text.length < fuel) :
    (occurrences image fuel before text).filter (fun (before, after) => isWhole before after) =
      (wholeFrom image before.reverse text).map (around image (before.reverse ++ text)) := by
  induction fuel generalizing before text with
  | zero => exact absurd enough (Nat.not_lt_zero _)
  | succ fuel ih =>
    by_cases hFound : image <+: text
    · -- the search goes on after the image, whether this occurrence counts or not
      obtain ⟨after, rfl⟩ := hFound
      have hEnough : after.length < fuel := by
        have hPositive := List.length_pos_iff.mpr h.ne_nil
        rw [List.length_append] at enough
        omega
      have hRest := @ih (image.reverse ++ before) after hEnough
      rw [List.reverse_append, List.reverse_reverse, List.append_assoc] at hRest
      rw [occurrences_of_append, List.filter_cons, hRest, wholeFrom_image_append h, List.map_append]
      by_cases hWhole : isWhole before.reverse after = true
      · rw [if_pos hWhole, if_pos hWhole, List.map_singleton, around_length, List.singleton_append]
      · rw [if_neg hWhole, if_neg hWhole, List.map_nil, List.nil_append]
    · have hHere : ¬ IsWholeAt image (before.reverse ++ text) before.reverse.length := by
        rw [isWholeAt_append_iff]
        rintro ⟨after, rfl, -⟩
        exact hFound (List.prefix_append _ _)
      cases text with
      | nil => rw [occurrences_nil h.ne_nil, wholeFrom_nil h.ne_nil]; rfl
      | cons c rest =>
        rw [occurrences_of_absent hFound, wholeFrom_cons, if_neg hHere,
          ih (Nat.lt_of_succ_lt_succ enough)]
        simp

theorem wholeOccurrences_eq (h : IsImageText image) :
    wholeOccurrences image text = (wholePositions image text).map (around image text) := by
  rw [wholeOccurrences, filter_occurrences h (Nat.lt_succ_self _), wholePositions_eq_wholeFrom]
  rfl

/-- The runs of image characters between the other characters; a run may be empty. -/
def runs (text : List Char) : List (List Char) := Text.pieces (fun c => !isImageChar c) text

theorem runs_nil : runs [] = [[]] := rfl

theorem runs_cons_of_not (h : isImageChar c = false) : runs (c :: rest) = [] :: runs rest := by
  simp [runs, Text.pieces, h]

theorem runs_eq_cons (text : List Char) : runs text = text.takeWhile isImageChar :: (runs text).tail := by
  induction text with
  | nil => rfl
  | cons c rest ih =>
    by_cases hc : isImageChar c = true
    · rw [runs, Text.pieces, ← runs, ih]
      simp [hc]
    · rw [Bool.not_eq_true] at hc
      simp [runs_cons_of_not hc, hc]

theorem tail_runs_cons :
    (runs (c :: rest)).tail = if isImageChar c = true then (runs rest).tail else runs rest := by
  by_cases hc : isImageChar c = true
  · rw [runs, Text.pieces, ← runs, runs_eq_cons rest]
    simp [hc]
  · rw [if_neg hc, runs_cons_of_not (Bool.not_eq_true _ ▸ hc), List.tail_cons]

theorem isWholeAt_iff_takeWhile (h : IsImageText image) :
    IsWholeAt image (before ++ text) before.length ↔
      before.getLast?.any isImageChar = false ∧ text.takeWhile isImageChar = image := by
  rw [isWholeAt_append_iff]
  constructor
  · rintro ⟨after, rfl, hWhole⟩
    obtain ⟨hBefore, hAfter⟩ := isWhole_iff.mp hWhole
    refine ⟨hBefore, ?_⟩
    rw [List.takeWhile_append_of_pos h.chars]
    cases after with
    | nil => simp
    | cons c after => simp [show isImageChar c = false from hAfter]
  · rintro ⟨hBefore, rfl⟩
    refine ⟨text.dropWhile isImageChar, (List.takeWhile_append_dropWhile).symm, ?_⟩
    refine isWhole_iff.mpr ⟨hBefore, ?_⟩
    have hHead := List.head?_dropWhile_not isImageChar text
    cases hAfter : (text.dropWhile isImageChar).head? with
    | none => rfl
    | some c => simpa [hAfter] using hHead

def runsAfter (before text : List Char) : List (List Char) :=
  if before.getLast?.any isImageChar = true then (runs text).tail else runs text

theorem length_wholeFrom (h : IsImageText image) :
    (wholeFrom image before text).length = (runsAfter before text).count image := by
  -- of the part that is passed only the last character matters: it may begin the run that comes next
  induction text generalizing before with
  | nil =>
    rw [wholeFrom_nil h.ne_nil, runsAfter, runs_nil]
    split <;> simp [h.ne_nil.symm]
  | cons c rest ih =>
    have hLater : runsAfter (before ++ [c]) rest = (runs (c :: rest)).tail := by
      rw [tail_runs_cons, runsAfter]
      by_cases hc : isImageChar c = true <;> simp [hc]
    rw [wholeFrom_cons, List.length_append, ih, hLater, runsAfter]
    by_cases hJoined : before.getLast?.any isImageChar = true
    · have hInside : ¬ IsWholeAt image (before ++ c :: rest) before.length := by
        simp [isWholeAt_iff_takeWhile h, hJoined]
      rw [if_pos hJoined, if_neg hInside]
      exact Nat.zero_add _
    · have hFree : before.getLast?.any isImageChar = false := (Bool.not_eq_true _).mp hJoined
      rw [if_neg hJoined, runs_eq_cons (c :: rest), List.count_cons, List.tail_cons, Nat.add_comm]
      by_cases hRun : (c :: rest).takeWhile isImageChar = image
      · rw [if_pos ((isWholeAt_iff_takeWhile h).mpr ⟨hFree, hRun⟩), if_pos (beq_iff_eq.mpr hRun)]
        rfl
      · rw [if_neg fun hWhole => hRun ((isWholeAt_iff_takeWhile h).mp hWhole).2, if_neg (by simpa using hRun)]
        rfl

theorem length_wholePositions (h : IsImageText image) :
    (wholePositions image text).length = (runs text).count image := by
  rw [wholePositions_eq_wholeFrom, length_wholeFrom h]
  simp [runsAfter]

theorem exists_runs {after : List Char} (h : isWhole before after = true) :
    ∃ earlier later, ∀ run, (∀ c ∈ run, isImageChar c = true) →
      runs (before ++ (run ++ after)) = earlier ++ run :: later := by
  obtain ⟨hBefore, hAfter⟩ := isWhole_iff.mp h
  obtain ⟨later, hLater⟩ : ∃ later, runs after = [] :: later := by
    cases after with
    | nil => exact ⟨[], rfl⟩
    | cons c after => exact ⟨runs after, runs_cons_of_not hAfter⟩
  have hRun : ∀ run, (∀ c ∈ run, isImageChar c = true) → runs (run ++ after) = run :: later :=
    fun run chars => Text.pieces_append (fun c hc => by simp [chars c hc]) hLater
  rcases List.eq_nil_or_concat before with rfl | ⟨init, last, rfl⟩
  · exact ⟨[], later, hRun⟩
  · refine ⟨runs init, later, fun run chars => ?_⟩
    have hLast : isImageChar last = false := by simpa using hBefore
    rw [List.concat_eq_append, List.append_assoc, List.singleton_append, ← hRun run chars]
    exact Text.pieces_append_cons (by simp [hLast]) init (run ++ after)

end DeliveryPipeline.Manifest

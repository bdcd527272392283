import DeliveryPipeline.Plan.Rendering
import Mathlib.Data.List.MinMax
import Mathlib.Data.List.SplitBy
import Mathlib.Data.Nat.Log
import Mathlib.Logic.Function.Iterate

/-! # Directories without double slashes

The directory of a branch is joined from six parts, and each of them may begin or end with slashes or hold
several in a row. One round of merging leaves every run of slashes in its place and makes it half as long. So
the rounds come to an end, and then one slash is left of each run.
-/

namespace DeliveryPipeline

set_option autoImplicit false

/-- The runs of slashes in a path, each as long as it goes. Any other character is a run of its own. -/
def slashRuns (path : List Char) : List (List Char) := path.splitBy fun c d => c = '/' && d = '/'

def longestRun (path : List Char) : Nat := ((slashRuns path).map List.length).foldr max 0

def firstHalf (run : List Char) : List Char := run.take ((run.length + 1) / 2)

theorem length_firstHalf (run : List Char) : (firstHalf run).length = (run.length + 1) / 2 := by
  rw [firstHalf, List.length_take]
  omega

theorem take_one_firstHalf (run : List Char) : (firstHalf run).take 1 = run.take 1 := by
  cases run with
  | nil => rfl
  | cons c rest =>
    rw [firstHalf, List.take_take, Nat.min_eq_left]
    simp only [List.length_cons]
    omega

theorem firstHalf_replicate (n : Nat) (c : Char) :
    firstHalf (List.replicate (n + 1) c) = List.replicate (n / 2 + 1) c := by
  have hMin : min ((n + 1 + 1) / 2) (n + 1) = n / 2 + 1 := by omega
  rw [firstHalf, List.length_replicate, List.take_replicate, hMin]

variable {c : Char} {rest : List Char}

theorem slashRuns_cons (h : c ≠ '/') : slashRuns (c :: rest) = [c] :: slashRuns rest := by
  have hApart : ∀ x ∈ [c].getLast?, ∀ d ∈ rest.head?, (decide (x = '/') && decide (d = '/')) = false := by
    simp [h]
  exact List.splitBy_append hApart

theorem slashRuns_replicate (n : Nat) (h : rest.head? ≠ some '/') :
    slashRuns (List.replicate (n + 1) '/' ++ rest) = List.replicate (n + 1) '/' :: slashRuns rest := by
  have hApart : ∀ x ∈ (List.replicate (n + 1) '/').getLast?, ∀ d ∈ rest.head?,
      (decide (x = '/') && decide (d = '/')) = false := by
    intro x _ d hd
    have hOther : d ≠ '/' := by
      rintro rfl
      exact h hd
    simp [hOther]
  have hRun : slashRuns (List.replicate (n + 1) '/') = [List.replicate (n + 1) '/'] :=
    List.splitBy_of_isChain (by simp) (List.isChain_replicate_of_rel _ (by decide))
  exact (List.splitBy_append hApart).trans (congrArg (· ++ slashRuns rest) hRun)

theorem longestRun_cons (h : c ≠ '/') : longestRun (c :: rest) = max 1 (longestRun rest) := by
  rw [longestRun, slashRuns_cons h]
  rfl

theorem longestRun_replicate (n : Nat) (h : rest.head? ≠ some '/') :
    longestRun (List.replicate (n + 1) '/' ++ rest) = max (n + 1) (longestRun rest) := by
  rw [longestRun, slashRuns_replicate n h, List.map_cons, List.length_replicate]
  rfl

theorem length_le_longestRun {path run : List Char} (h : run ∈ slashRuns path) :
    run.length ≤ longestRun path :=
  List.le_max_of_le' 0 (List.mem_map_of_mem h) (Nat.le_refl _)

theorem induction_on_runs {motive : List Char → Prop} (nil : motive [])
    (other : ∀ c rest, c ≠ '/' → motive rest → motive (c :: rest))
    (slashes : ∀ n rest, rest.head? ≠ some '/' → motive rest →
      motive (List.replicate (n + 1) '/' ++ rest)) (path : List Char) : motive path := by
  -- the slashes that were passed already wait in front of the path
  suffices hAll : ∀ n, motive (List.replicate n '/' ++ path) from hAll 0
  induction path with
  | nil =>
    rintro (_ | n)
    · exact nil
    · exact slashes n [] (by simp) nil
  | cons c rest ih =>
    intro n
    by_cases hc : c = '/'
    · subst hc
      have hJoined : List.replicate n '/' ++ '/' :: rest = List.replicate (n + 1) '/' ++ rest := by
        rw [List.replicate_succ', List.append_assoc, List.singleton_append]
      exact hJoined ▸ ih (n + 1)
    · have hHere : motive (c :: rest) := other c rest hc (ih 0)
      cases n with
      | zero => exact hHere
      | succ n => exact slashes n (c :: rest) (by simpa using hc) hHere

theorem head?_mergeSlashes (path : List Char) : (mergeSlashes path).head? = path.head? := by
  fun_cases mergeSlashes path <;> rfl

theorem mergeSlashes_cons (h : c ≠ '/') : mergeSlashes (c :: rest) = c :: mergeSlashes rest := by
  rw [mergeSlashes]
  exact fun _ hc => absurd hc h

theorem mergeSlashes_replicate (n : Nat) (h : rest.head? ≠ some '/') :
    mergeSlashes (List.replicate (n + 1) '/' ++ rest) = List.replicate (n / 2 + 1) '/' ++ mergeSlashes rest := by
  induction n using Nat.twoStepInduction with
  | zero =>
    change mergeSlashes ('/' :: rest) = '/' :: mergeSlashes rest
    rw [mergeSlashes]
    rintro more - rfl
    exact h rfl
  | one => rfl
  | more n ih _ =>
    have hHalf : (n + 2) / 2 = n / 2 + 1 := by omega
    rw [hHalf]
    exact congrArg ('/' :: ·) ih

/-- A round halves every run. -/
theorem slashRuns_mergeSlashes (path : List Char) :
    slashRuns (mergeSlashes path) = (slashRuns path).map firstHalf := by
  induction path using induction_on_runs with
  | nil => rfl
  | other c rest hc ih =>
    have hHalf : firstHalf [c] = [c] := firstHalf_replicate 0 c
    rw [mergeSlashes_cons hc, slashRuns_cons hc, slashRuns_cons hc, ih, List.map_cons, hHalf]
  | slashes n rest hEnd ih =>
    have hEnd' : (mergeSlashes rest).head? ≠ some '/' := by rwa [head?_mergeSlashes]
    rw [mergeSlashes_replicate n hEnd, slashRuns_replicate _ hEnd', slashRuns_replicate _ hEnd, ih,
      List.map_cons, firstHalf_replicate]

theorem longestRun_mergeSlashes (path : List Char) :
    longestRun (mergeSlashes path) = (longestRun path + 1) / 2 := by
  unfold longestRun
  rw [slashRuns_mergeSlashes]
  induction slashRuns path with
  | nil => rfl
  | cons run runs ih =>
    simp only [List.map_cons, List.foldr_cons, length_firstHalf, ih]
    omega

theorem doubled_iff (path : List Char) : ['/', '/'] <:+: path ↔ 1 < longestRun path := by
  induction path using induction_on_runs with
  | nil => simp [longestRun, slashRuns]
  | other c rest hc ih =>
    have hPrefix : ¬ ['/', '/'] <+: c :: rest := fun h => hc (List.cons_prefix_cons.mp h).1.symm
    rw [List.infix_cons_iff, or_iff_right hPrefix, ih, longestRun_cons hc]
    omega
  | slashes n rest hEnd ih =>
    rw [longestRun_replicate n hEnd]
    cases n with
    | zero =>
      have hPrefix : ¬ ['/', '/'] <+: '/' :: rest := by
        intro h
        obtain ⟨more, rfl⟩ := (List.cons_prefix_cons.mp h).2
        exact hEnd rfl
      rw [List.replicate_one, List.singleton_append, List.infix_cons_iff, or_iff_right hPrefix, ih]
      omega
    | succ n =>
      have hHere : ['/', '/'] <:+: List.replicate (n + 2) '/' ++ rest :=
        ⟨[], List.replicate n '/' ++ rest, rfl⟩
      exact iff_of_true hHere (by omega)

theorem filter_mergeSlashes (path : List Char) :
    (mergeSlashes path).filter (· ≠ '/') = path.filter (· ≠ '/') := by
  fun_induction mergeSlashes path with
  | case1 rest ih => simpa using ih
  | case2 c rest _ ih => rw [List.filter_cons, List.filter_cons, ih]
  | case3 => rfl

theorem firsts_mergeSlashes (path : List Char) :
    (slashRuns (mergeSlashes path)).flatMap (List.take 1) = (slashRuns path).flatMap (List.take 1) := by
  rw [slashRuns_mergeSlashes, List.flatMap_map]
  simp only [take_one_firstHalf]

theorem firsts_eq_self {path : List Char} (h : ¬ ['/', '/'] <:+: path) :
    (slashRuns path).flatMap (List.take 1) = path := by
  have hLongest : longestRun path ≤ 1 := Nat.not_lt.mp (mt (doubled_iff path).mpr h)
  have hRuns : (slashRuns path).map (List.take 1) = (slashRuns path).map id :=
    List.map_congr_left fun run hRun => List.take_of_length_le (Nat.le_trans (length_le_longestRun hRun) hLongest)
  rw [List.flatMap_def, hRuns, List.map_id]
  exact List.flatten_splitBy _ path

theorem doubled_iterate_iff (path : List Char) (k : Nat) :
    ['/', '/'] <:+: mergeSlashes^[k] path ↔ k < Nat.clog 2 (longestRun path) := by
  rw [doubled_iff, ← Nat.not_le, ← Nat.not_le, Nat.clog_le_iff_le_pow Nat.one_lt_two, not_iff_not]
  induction k generalizing path with
  | zero => rfl
  | succ k ih =>
    rw [Function.iterate_succ_apply, ih, longestRun_mergeSlashes, Nat.pow_succ]
    omega

theorem collapseSlashes_of_doubled {path : List Char} (h : ['/', '/'] <:+: path) :
    collapseSlashes path = collapseSlashes (mergeSlashes path) := by
  conv_lhs => rw [collapseSlashes, if_pos (Text.occursIn_iff.mpr h)]

theorem collapseSlashes_eq_self {path : List Char} (h : ¬ ['/', '/'] <:+: path) :
    collapseSlashes path = path := by
  rw [collapseSlashes, if_neg (mt Text.occursIn_iff.mp h)]

theorem collapseSlashes_eq_iterate {path : List Char} {rounds : Nat}
    (h : ∀ k, ['/', '/'] <:+: mergeSlashes^[k] path ↔ k < rounds) :
    collapseSlashes path = mergeSlashes^[rounds] path := by
  induction rounds generalizing path with
  | zero => exact collapseSlashes_eq_self (mt (h 0).mp (Nat.lt_irrefl 0))
  | succ rounds ih =>
    have hMore : ∀ k, ['/', '/'] <:+: mergeSlashes^[k] (mergeSlashes path) ↔ k < rounds :=
      fun k => (h (k + 1)).trans Nat.succ_lt_succ_iff
    rw [Function.iterate_succ_apply, ← ih hMore]
    exact collapseSlashes_of_doubled ((h 0).mpr (Nat.succ_pos rounds))

theorem not_doubled_collapseSlashes (path : List Char) : ¬ ['/', '/'] <:+: collapseSlashes path := by
  rw [collapseSlashes_eq_iterate (doubled_iterate_iff path), doubled_iterate_iff]
  exact Nat.lt_irrefl _

theorem kept_by_collapseSlashes {α : Type} {f : List Char → α} (kept : ∀ path, f (mergeSlashes path) = f path)
    (path : List Char) : f (collapseSlashes path) = f path := by
  rw [collapseSlashes_eq_iterate (doubled_iterate_iff path)]
  exact congrFun (Function.iterate_invariant (funext kept) _) path

theorem collapseSlashes_eq_firsts (path : List Char) :
    collapseSlashes path = (slashRuns path).flatMap (List.take 1) := by
  have hKept := kept_by_collapseSlashes (f := fun path => (slashRuns path).flatMap (List.take 1))
    firsts_mergeSlashes path
  exact (firsts_eq_self (not_doubled_collapseSlashes path)).symm.trans hKept

/-- The parts of a directory are joined by slashes, and as long as two slashes stand side by side a further round
merges them. There are as many rounds as it takes to halve the longest run down to one slash, and no more. In
the end no two slashes stand side by side, each run has become one slash, all other characters are as they
were, and there is nothing left to merge. -/
theorem checkoutDirectory_collapsed (workspace : String) (project stage : Int64)
    (app branch buildPath : String) :
    let path := (String.intercalate "/"
      [workspace, Text.ofInt64 project, Text.ofInt64 stage, app, branch, buildPath]).toList
    let directory := (checkoutDirectory workspace project stage app branch buildPath).toList
    let rounds := Nat.clog 2 (longestRun path)
    (∀ k, ['/', '/'] <:+: mergeSlashes^[k] path ↔ k < rounds) ∧ directory = mergeSlashes^[rounds] path ∧
      ¬ ['/', '/'] <:+: directory ∧ directory = (slashRuns path).flatMap (List.take 1) ∧
      directory.filter (· ≠ '/') = path.filter (· ≠ '/') ∧ collapseSlashes directory = directory := by
  intro path directory rounds
  have hDirectory : directory = collapseSlashes path := String.toList_ofList
  rw [hDirectory]
  refine ⟨doubled_iterate_iff path, ?_, not_doubled_collapseSlashes path, collapseSlashes_eq_firsts path, ?_, ?_⟩
  · exact collapseSlashes_eq_iterate (doubled_iterate_iff path)
  · exact kept_by_collapseSlashes filter_mergeSlashes path
  · exact collapseSlashes_eq_self (not_doubled_collapseSlashes path)

/-- A run of three within the branch, and runs of two where the parts meet. -/
example : checkoutDirectory "/ws/" 1 2 "api" "feature///x" "/" = "/ws/1/2/api/feature/x/" := by
  decide +kernel

end DeliveryPipeline

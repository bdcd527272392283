/-! # Blank characters

The characters with the Unicode property `White_Space`, and the two operations on texts that look at
them: trimming both ends and splitting into words. All texts are lists of characters here.
-/

namespace DeliveryPipeline.Text

set_option autoImplicit false

def isBlank (c : Char) : Bool :=
  let n := c.toNat
  (9 ≤ n && n ≤ 13) || n = 0x20 || n = 0x85 || n = 0xA0 || n = 0x1680 ||
    (0x2000 ≤ n && n ≤ 0x200A) || n = 0x2028 || n = 0x2029 || n = 0x202F || n = 0x205F || n = 0x3000

def dropEndWhile (p : Char → Bool) : List Char → List Char
  | [] => []
  | c :: rest =>
    match dropEndWhile p rest with
    | [] => if p c then [] else [c]
    | kept => c :: kept

def trim (s : List Char) : List Char := dropEndWhile isBlank (s.dropWhile isBlank)

/-- The pieces between the characters that satisfy the test; there is always one more piece than
such characters. -/
def pieces (p : Char → Bool) : List Char → List (List Char)
  | [] => [[]]
  | c :: rest =>
    if p c then [] :: pieces p rest
    else
      match pieces p rest with
      | [] => [[c]]
      | piece :: more => (c :: piece) :: more

def words (s : List Char) : List (List Char) := (pieces isBlank s).filter fun w => !w.isEmpty

def cut (mark : Char) : List Char → Option (List Char × List Char)
  | [] => none
  | c :: rest =>
    if c = mark then some ([], rest)
    else (cut mark rest).map fun (before, after) => (c :: before, after)

theorem pieces_ne_nil (p : Char → Bool) (s : List Char) : pieces p s ≠ [] := by
  cases s with
  | nil => simp [pieces]
  | cons c rest =>
    unfold pieces
    split
    · simp
    · split <;> simp

theorem pieces_append {p : Char → Bool} {s t : List Char} {more : List (List Char)}
    (unmarked : ∀ c ∈ s, p c = false) (h : pieces p t = [] :: more) :
    pieces p (s ++ t) = s :: more := by
  induction s with
  | nil => exact h
  | cons c s ih =>
    obtain ⟨hChar, hRest⟩ := List.forall_mem_cons.mp unmarked
    rw [List.cons_append, pieces, hChar, ih hRest]
    rfl

theorem pieces_append_cons {p : Char → Bool} {mark : Char} (h : p mark = true) (s t : List Char) :
    pieces p (s ++ mark :: t) = pieces p s ++ pieces p t := by
  induction s with
  | nil => simp [pieces, h]
  | cons c s ih =>
    rw [List.cons_append, pieces, pieces, ih]
    by_cases hc : p c = true
    · simp [hc]
    · cases hs : pieces p s with
      | nil => exact absurd hs (pieces_ne_nil p s)
      | cons piece more => simp [hc]

theorem cut_eq_some_iff {mark : Char} {s before after : List Char} :
    cut mark s = some (before, after) ↔ mark ∉ before ∧ s = before ++ mark :: after := by
  induction s generalizing before with
  | nil => simp [cut]
  | cons c rest ih =>
    unfold cut
    by_cases h : c = mark
    · subst h
      cases before with
      | nil => simp
      | cons d ds => simp; grind
    · cases before with
      | nil => simp [h]
      | cons d ds => simp [h]; grind

theorem cut_eq_none_iff {mark : Char} {s : List Char} : cut mark s = none ↔ mark ∉ s := by
  induction s with
  | nil => simp [cut]
  | cons c rest ih =>
    unfold cut
    by_cases h : c = mark
    · simp [h]
    · simp [h, ih, Ne.symm h]

end DeliveryPipeline.Text

import DeliveryPipeline.Text.Integer
import Mathlib.Tactic.Common

/-! # Decimal texts read back

The decimal text of a number reads as that number, so different numbers have different texts. The text
consists of digits, after a minus sign if the number is negative.
-/

namespace DeliveryPipeline.Text

set_option autoImplicit false

theorem digit?_of_isDigit {c : Char} (h : c.isDigit = true) : digit? c = some (c.toNat - '0'.toNat) := by
  have hBounds : '0' ≤ c ∧ c ≤ '9' := by
    simpa [Char.isDigit, Char.le_def] using h
  rw [digit?, if_pos hBounds]

theorem le_ofDigitChars (digits : List Char) (n : Nat) : n ≤ Nat.ofDigitChars 10 digits n := by
  rw [Nat.ofDigitChars_eq_ofDigitChars_zero]
  have hPower : 0 < 10 ^ digits.length := Nat.pow_pos (by decide)
  have hScale : n ≤ 10 ^ digits.length * n := Nat.le_mul_of_pos_left n hPower
  omega

theorem appendDigits_eq_ok {sign lo hi : Int} (hSign : sign = 1 ∨ sign = -1) (hZero : lo ≤ 0 ∧ 0 ≤ hi)
    {digits : List Char} (hDigits : ∀ c ∈ digits, c.isDigit = true) {n : Nat}
    (hLo : lo ≤ sign * Nat.ofDigitChars 10 digits n) (hHi : sign * Nat.ofDigitChars 10 digits n ≤ hi) :
    appendDigits sign lo hi (sign * n) digits = .ok (sign * Nat.ofDigitChars 10 digits n) := by
  induction digits generalizing n with
  | nil => rw [appendDigits, Nat.ofDigitChars_nil]
  | cons c rest ih =>
    obtain ⟨hDigit, hRest⟩ := List.forall_mem_cons.mp hDigits
    rw [Nat.ofDigitChars_cons] at hLo hHi ⊢
    have hNext : sign * n * 10 + sign * ((c.toNat - '0'.toNat : Nat) : Int) =
        sign * ((10 * n + (c.toNat - '0'.toNat) : Nat) : Int) := by
      rw [Int.natCast_add, Int.natCast_mul, Int.mul_add, Int.mul_assoc, Int.mul_comm (n : Int)]
      rfl
    -- further digits only lead further away from zero, so the range is not left on the way
    have hGrows := le_ofDigitChars rest (10 * n + (c.toNat - '0'.toNat))
    have hRange : lo ≤ sign * ((10 * n + (c.toNat - '0'.toNat) : Nat) : Int) ∧
        sign * ((10 * n + (c.toNat - '0'.toNat) : Nat) : Int) ≤ hi := by
      rcases hSign with rfl | rfl <;> omega
    simp only [appendDigits, digit?_of_isDigit hDigit, hNext]
    rw [if_neg (by omega), if_neg (by omega)]
    exact ih hRest hLo hHi

theorem isDigit_of_mem_toDigits {c : Char} {n : Nat} (h : c ∈ Nat.toDigits 10 n) : c.isDigit = true :=
  Nat.isDigit_of_mem_toDigits (by decide) (by decide) h

theorem appendDigits_toDigits {sign lo hi : Int} (hSign : sign = 1 ∨ sign = -1)
    (hZero : lo ≤ 0 ∧ 0 ≤ hi) {n : Nat} (hLo : lo ≤ sign * n) (hHi : sign * n ≤ hi) :
    appendDigits sign lo hi 0 (Nat.toDigits 10 n) = .ok (sign * n) := by
  have hValue : Nat.ofDigitChars 10 (Nat.toDigits 10 n) 0 = n := Nat.ofDigitChars_ten_toDigits
  have hRead := appendDigits_eq_ok (n := 0) hSign hZero (fun c hc => isDigit_of_mem_toDigits hc)
    (by rw [hValue]; exact hLo) (by rw [hValue]; exact hHi)
  rw [hValue] at hRead
  simpa using hRead

theorem toList_repr_of_nonneg {n : Int} (h : 0 ≤ n) : (Int.repr n).toList = Nat.toDigits 10 n.toNat := by
  rw [Int.repr_eq_if, if_pos h, Nat.toList_repr]

theorem toList_repr_of_neg {n : Int} (h : n < 0) :
    (Int.repr n).toList = '-' :: Nat.toDigits 10 (-n).toNat := by
  rw [Int.repr_eq_if, if_neg (by omega), String.toList_append, Nat.toList_repr]
  rfl

theorem toList_repr_ne_nil (n : Int) : (Int.repr n).toList ≠ [] := by
  by_cases hSign : 0 ≤ n
  · rw [toList_repr_of_nonneg hSign]
    exact Nat.toDigits_ne_nil
  · rw [toList_repr_of_neg (by omega)]
    exact List.cons_ne_nil _ _

theorem mem_repr {c : Char} {n : Int} (h : c ∈ (Int.repr n).toList) : c = '-' ∨ c.isDigit = true := by
  by_cases hSign : 0 ≤ n
  · rw [toList_repr_of_nonneg hSign] at h
    exact .inr (isDigit_of_mem_toDigits h)
  · rw [toList_repr_of_neg (by omega)] at h
    rcases List.mem_cons.mp h with h | h
    · exact .inl h
    · exact .inr (isDigit_of_mem_toDigits h)

theorem readInteger_of_isDigit {lo hi : Int} {digits : List Char} (hNonempty : digits ≠ [])
    (hDigits : ∀ c ∈ digits, c.isDigit = true) :
    readInteger lo hi digits = appendDigits 1 lo hi 0 digits := by
  cases digits with
  | nil => exact absurd rfl hNonempty
  | cons c rest =>
    have hDigit := hDigits c List.mem_cons_self
    have hPlus : c ≠ '+' := by rintro rfl; exact absurd hDigit (by decide)
    have hMinus : c ≠ '-' := by rintro rfl; exact absurd hDigit (by decide)
    unfold readInteger
    split <;> simp_all

theorem readInteger_repr {lo hi n : Int} (hZero : lo ≤ 0 ∧ 0 ≤ hi) (hLo : lo ≤ n) (hHi : n ≤ hi) :
    readInteger lo hi (Int.repr n).toList = .ok n := by
  by_cases hSign : 0 ≤ n
  · have hRead := appendDigits_toDigits (n := n.toNat) (.inl rfl) hZero (by omega) (by omega)
    rw [show (1 : Int) * n.toNat = n by omega] at hRead
    rw [toList_repr_of_nonneg hSign, readInteger_of_isDigit Nat.toDigits_ne_nil
      fun c hc => isDigit_of_mem_toDigits hc]
    exact hRead
  · have hRead := appendDigits_toDigits (n := (-n).toNat) (.inr rfl) hZero (by omega) (by omega)
    rw [show (-1 : Int) * (-n).toNat = n by omega] at hRead
    rw [toList_repr_of_neg (by omega)]
    obtain ⟨c, rest, hDigits⟩ :=
      List.exists_cons_of_ne_nil (Nat.toDigits_ne_nil (n := (-n).toNat) (b := 10))
    rw [hDigits] at hRead ⊢
    exact hRead

theorem readInt64_ofInt64 (n : Int64) : readInt64 (ofInt64 n) = .ok n := by
  rw [readInt64, ofInt64, readInteger_repr (by decide) n.minValue_le_toInt n.toInt_le]
  exact congrArg Except.ok (Int64.ofInt_toInt n)

theorem readInt32_ofInt32 (n : Int32) : readInt32 (ofInt32 n) = .ok n := by
  rw [readInt32, ofInt32, readInteger_repr (by decide) n.minValue_le_toInt n.toInt_le]
  exact congrArg Except.ok (Int32.ofInt_toInt n)

theorem ofInt64_injective : Function.Injective ofInt64 := by
  intro a b h
  have hRead : (Except.ok a : Except IntegerError Int64) = .ok b := by
    rw [← readInt64_ofInt64 a, h, readInt64_ofInt64]
  exact Except.ok.inj hRead

def IsNumeral (digits : List Char) : Prop := digits ≠ [] ∧ ∀ c ∈ digits, c.isDigit = true

/-- A numeral after at most one sign, and the integer that it stands for. -/
inductive IsDecimal : List Char → Int → Prop
  | unsigned {digits : List Char} (h : IsNumeral digits) :
    IsDecimal digits (Nat.ofDigitChars 10 digits 0)
  | plus {digits : List Char} (h : IsNumeral digits) :
    IsDecimal ('+' :: digits) (Nat.ofDigitChars 10 digits 0)
  | minus {digits : List Char} (h : IsNumeral digits) :
    IsDecimal ('-' :: digits) (-Nat.ofDigitChars 10 digits 0)

theorem isDigit_of_digit?_eq_some {c : Char} {d : Nat} (h : digit? c = some d) : c.isDigit = true := by
  unfold digit? at h
  split at h
  · rename_i hBounds
    simpa [Char.isDigit, Char.le_def] using hBounds
  · cases h

theorem isDigit_of_appendDigits {sign lo hi m : Int} {digits : List Char} {n : Nat}
    (hStart : lo ≤ sign * n ∧ sign * n ≤ hi) (h : appendDigits sign lo hi (sign * n) digits = .ok m) :
    (∀ c ∈ digits, c.isDigit = true) ∧ m = sign * Nat.ofDigitChars 10 digits n ∧ lo ≤ m ∧ m ≤ hi := by
  induction digits generalizing n with
  | nil =>
    rw [appendDigits] at h
    cases h
    exact ⟨nofun, by rw [Nat.ofDigitChars_nil], hStart⟩
  | cons c rest ih =>
    rw [appendDigits] at h
    cases hDigit : digit? c with
    | none => simp [hDigit] at h
    | some d =>
      have hIsDigit := isDigit_of_digit?_eq_some hDigit
      obtain rfl := Option.some.inj ((digit?_of_isDigit hIsDigit).symm.trans hDigit)
      have hNext : sign * n * 10 + sign * ((c.toNat - '0'.toNat : Nat) : Int) =
          sign * ((10 * n + (c.toNat - '0'.toNat) : Nat) : Int) := by
        rw [Int.natCast_add, Int.natCast_mul, Int.mul_add, Int.mul_assoc, Int.mul_comm (n : Int)]
        rfl
      simp only [hDigit, hNext] at h
      split at h
      · cases h
      split at h
      · cases h
      obtain ⟨hDigits, hValue⟩ := ih ⟨by omega, by omega⟩ h
      rw [← Nat.ofDigitChars_cons] at hValue
      exact ⟨List.forall_mem_cons.mpr ⟨hIsDigit, hDigits⟩, hValue⟩

/-- Exactly the decimal texts of the integers in a range are read. -/
theorem readInteger_eq_ok_iff {lo hi n : Int} {s : List Char} (hZero : lo ≤ 0 ∧ 0 ≤ hi) :
    readInteger lo hi s = .ok n ↔ IsDecimal s n ∧ lo ≤ n ∧ n ≤ hi := by
  constructor
  · intro hRead
    have hDigits : ∀ {sign : Int} {digits : List Char}, appendDigits sign lo hi 0 digits = .ok n →
        (∀ c ∈ digits, c.isDigit = true) ∧ n = sign * Nat.ofDigitChars 10 digits 0 ∧ lo ≤ n ∧ n ≤ hi := by
      intro sign digits h
      exact isDigit_of_appendDigits (n := 0) (by simpa using hZero) (by simpa using h)
    unfold readInteger at hRead
    split at hRead
    · cases hRead
    · cases hRead
    · cases hRead
    · rename_i digits hSome
      obtain ⟨hAll, hValue, hRange⟩ := hDigits hRead
      rw [Int.one_mul] at hValue
      rw [hValue]
      exact ⟨.plus ⟨fun hNil => hSome (by rw [hNil]), hAll⟩, hValue ▸ hRange⟩
    · rename_i digits hSome
      obtain ⟨hAll, hValue, hRange⟩ := hDigits hRead
      rw [Int.neg_one_mul] at hValue
      rw [hValue]
      exact ⟨.minus ⟨fun hNil => hSome (by rw [hNil]), hAll⟩, hValue ▸ hRange⟩
    · rename_i hNil _ _ _ _
      obtain ⟨hAll, hValue, hRange⟩ := hDigits hRead
      rw [Int.one_mul] at hValue
      rw [hValue]
      exact ⟨.unsigned ⟨hNil, hAll⟩, hValue ▸ hRange⟩
  · rintro ⟨hDecimal, hLow, hHigh⟩
    cases hDecimal with
    | @unsigned digits h =>
      rw [readInteger_of_isDigit h.1 h.2]
      have hRead := appendDigits_eq_ok (n := 0) (.inl rfl) hZero h.2 (by omega) (by omega)
      simpa using hRead
    | @plus digits h =>
      have hRead := appendDigits_eq_ok (n := 0) (.inl rfl) hZero h.2 (by omega) (by omega)
      obtain ⟨c, rest, rfl⟩ := List.exists_cons_of_ne_nil h.1
      simpa [readInteger] using hRead
    | @minus digits h =>
      have hRead := appendDigits_eq_ok (n := 0) (.inr rfl) hZero h.2 (by omega) (by omega)
      obtain ⟨c, rest, rfl⟩ := List.exists_cons_of_ne_nil h.1
      simpa [readInteger] using hRead

theorem readInt64_eq_ok_iff {s : String} {n : Int64} :
    readInt64 s = .ok n ↔ IsDecimal s.toList n.toInt := by
  have hRead : ∀ {m : Int}, readInteger Int64.minValue.toInt Int64.maxValue.toInt s.toList = .ok m ↔
      IsDecimal s.toList m ∧ Int64.minValue.toInt ≤ m ∧ m ≤ Int64.maxValue.toInt :=
    readInteger_eq_ok_iff (by decide)
  constructor
  · intro h
    cases hResult : readInteger Int64.minValue.toInt Int64.maxValue.toInt s.toList with
    | error e =>
      rw [readInt64, hResult] at h
      cases h
    | ok m =>
      obtain ⟨hDecimal, hLow, hHigh⟩ := hRead.mp hResult
      rw [readInt64, hResult] at h
      cases h
      rwa [Int64.toInt_ofInt_of_le hLow (Int.lt_of_le_of_lt hHigh (by decide))]
  · intro h
    rw [readInt64, hRead.mpr ⟨h, n.minValue_le_toInt, n.toInt_le⟩]
    exact congrArg Except.ok (Int64.ofInt_toInt n)

theorem isDecimal_ofInt64 (n : Int64) : IsDecimal (ofInt64 n).toList n.toInt :=
  readInt64_eq_ok_iff.mp (readInt64_ofInt64 n)

theorem IsDecimal.mem {s : List Char} {n : Int} (h : IsDecimal s n) {c : Char} (mem : c ∈ s) :
    c = '+' ∨ c = '-' ∨ c.isDigit = true := by
  cases h with
  | unsigned h => exact .inr (.inr (h.2 c mem))
  | plus h => exact (List.mem_cons.mp mem).imp_right fun hMem => .inr (h.2 c hMem)
  | minus h => exact .inr ((List.mem_cons.mp mem).imp_right (h.2 c))

theorem not_mem_ofInt64 {mark : Char} (hMinus : mark ≠ '-') (hDigit : mark.isDigit = false) (n : Int64) :
    mark ∉ (ofInt64 n).toList := by
  intro h
  rcases mem_repr h with rfl | hMark
  · exact hMinus rfl
  · rw [hDigit] at hMark
    cases hMark

end DeliveryPipeline.Text

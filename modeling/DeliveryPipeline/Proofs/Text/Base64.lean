import DeliveryPipeline.Text.Base64

/-! # Encoded bytes are decoded again

Each character gives back the six bits that it was written for, and no six bits are written as padding. So
three bytes at a time come back, and one or two at the end.
-/

namespace DeliveryPipeline.Text.Base64

set_option autoImplicit false

theorem value?_symbol_of_mem : ∀ n ∈ List.range 64, value? (symbol n) = some n := by decide +kernel

theorem value?_symbol {n : Nat} (small : n < 64) : value? (symbol n) = some n :=
  value?_symbol_of_mem n (List.mem_range.mpr small)

theorem symbol_ne_padding {n : Nat} (small : n < 64) : symbol n ≠ '=' := by
  intro h
  have hNone : value? '=' = none := by decide +kernel
  rw [← h, value?_symbol small] at hNone
  cases hNone

theorem decode?_cons {w x y z : Nat} (hw : w < 64) (hx : x < 64) (hy : y < 64) (hz : z < 64) {rest : List Char}
    {more : List UInt8} (h : decode? rest = some more) :
    decode? (symbol w :: symbol x :: symbol y :: symbol z :: rest) =
      let n := ((w * 64 + x) * 64 + y) * 64 + z
      some (UInt8.ofNat (n / 65536) :: UInt8.ofNat (n / 256 % 256) :: UInt8.ofNat (n % 256) :: more) := by
  rw [decode?]
  · simp only [value?_symbol hw, value?_symbol hx, value?_symbol hy, value?_symbol hz, h]
    rfl
  · exact fun _ hPadding => absurd hPadding (symbol_ne_padding hz)
  · exact fun hPadding => absurd hPadding (symbol_ne_padding hz)

theorem decode?_encode (bytes : List UInt8) : decode? (encode bytes) = some bytes := by
  induction bytes using encode.induct with
  | case1 => rfl
  | case2 a =>
    have ha : a.toNat < 256 := a.toNat_lt
    have hGroups : a.toNat * 16 / 64 * 64 + a.toNat * 16 % 64 = a.toNat * 16 := by omega
    rw [encode, decode?, value?_symbol (by omega), value?_symbol (by omega)]
    simp only [Option.bind_eq_bind, Option.bind_some, hGroups]
    rw [if_pos (by omega), Nat.mul_div_cancel _ (by decide), UInt8.ofNat_toNat]
  | case3 a b =>
    have ha : a.toNat < 256 := a.toNat_lt
    have hb : b.toNat < 256 := b.toNat_lt
    let n := (a.toNat * 256 + b.toNat) * 4
    have hGroups : (n / 4096 * 64 + n / 64 % 64) * 64 + n % 64 = n := by omega
    have hFirst : n / 4 / 256 = a.toNat := by omega
    have hSecond : n / 4 % 256 = b.toNat := by omega
    rw [encode, decode?, value?_symbol (by omega), value?_symbol (by omega), value?_symbol (by omega)]
    · simp only [Option.bind_eq_bind, Option.bind_some]
      rw [hGroups, if_pos (by omega), hFirst, hSecond, UInt8.ofNat_toNat, UInt8.ofNat_toNat]
    · exact fun hPadding => symbol_ne_padding (by omega) hPadding
  | case4 a b c rest ih =>
    have ha : a.toNat < 256 := a.toNat_lt
    have hb : b.toNat < 256 := b.toNat_lt
    have hc : c.toNat < 256 := c.toNat_lt
    let n := (a.toNat * 256 + b.toNat) * 256 + c.toNat
    have hGroups : ((n / 262144 * 64 + n / 4096 % 64) * 64 + n / 64 % 64) * 64 + n % 64 = n := by omega
    have hFirst : n / 65536 = a.toNat := by omega
    have hSecond : n / 256 % 256 = b.toNat := by omega
    have hThird : n % 256 = c.toNat := by omega
    rw [encode, decode?_cons (by omega) (by omega) (by omega) (by omega) ih]
    simp only
    rw [hGroups, hFirst, hSecond, hThird, UInt8.ofNat_toNat, UInt8.ofNat_toNat, UInt8.ofNat_toNat]

theorem decode?_encodeText (s : String) : decode? (encodeText s).toList = some s.toUTF8.toList := by
  rw [encodeText, String.toList_ofList, decode?_encode]

end DeliveryPipeline.Text.Base64

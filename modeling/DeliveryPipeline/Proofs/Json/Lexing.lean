import DeliveryPipeline.Json.Printer
import DeliveryPipeline.Json.Token
import DeliveryPipeline.Proofs.Text.Integer

/-! # Printed JSON is cut into tokens again

The text of a value is cut into the tokens of that value: a printed text ends at its own closing quote,
whatever stands in it, and a printed integer ends where a comma or a closing bracket stands, so that no
token runs into the next one.
-/

namespace DeliveryPipeline.Json

set_option autoImplicit false

open DeliveryPipeline.Text

/-- What may stand behind a value. -/
def Ends : List Char → Prop
  | [] => True
  | c :: _ => c = ',' ∨ c = ']' ∨ c = '}'

theorem spanDigits_append {digits rest : List Char} (hDigits : ∀ c ∈ digits, c.isDigit = true)
    (hRest : Ends rest) :
    spanDigits (digits ++ rest) = (digits.map fun c => c.toNat - '0'.toNat, rest) := by
  induction digits with
  | nil =>
    cases rest with
    | nil => rfl
    | cons c rest => rcases hRest with rfl | rfl | rfl <;> rfl
  | cons c digits ih =>
    obtain ⟨hDigit, hRest⟩ := List.forall_mem_cons.mp hDigits
    simp [spanDigits, digit?_of_isDigit hDigit, ih hRest]

theorem scanExponent_of_ends {rest : List Char} (h : Ends rest) :
    scanExponent rest = some (none, rest) := by
  cases rest with
  | nil => rfl
  | cons c rest => rcases h with rfl | rfl | rfl <;> rfl

theorem toNat_digitChar {n : Nat} (h : n < 10) : n.digitChar.toNat - '0'.toNat = n := by
  revert n
  decide

theorem toDigits_ne_zero_cons {n : Nat} (h : 0 < n) (rest : List Char) :
    Nat.toDigits 10 n ≠ '0' :: rest := by
  induction n using Nat.strongRecOn generalizing rest with
  | ind n ih =>
    rw [Nat.toDigits_eq_if (by decide)]
    split
    · rename_i hSmall
      intro hDigits
      have hDigit : n.digitChar.toNat - '0'.toNat = 0 := by rw [(List.cons.inj hDigits).1]; rfl
      rw [toNat_digitChar hSmall] at hDigit
      omega
    · obtain ⟨c, more, hDigits⟩ := List.exists_cons_of_ne_nil (Nat.toDigits_ne_nil (n := n / 10) (b := 10))
      rw [hDigits]
      intro hSame
      obtain ⟨rfl, -⟩ := List.cons.inj hSame
      exact ih (n / 10) (by omega) (by omega) more hDigits

theorem foldl_digits (digits : List Char) (n : Nat) :
    (digits.map fun c => c.toNat - '0'.toNat).foldl (fun n d => n * 10 + d) n =
      Nat.ofDigitChars 10 digits n := by
  rw [Nat.ofDigitChars_eq_foldl, List.foldl_map]
  simp only [Nat.mul_comm]

def Literal.ofInt (n : Int) : Literal where
  negative := n < 0
  whole := (Nat.toDigits 10 n.natAbs).map fun c => c.toNat - '0'.toNat
  fraction := []
  exponent := none
  hasFraction := false

theorem exists_whole_eq_cons (n : Nat) : ∃ d ds,
    (Nat.toDigits 10 n).map (fun c => c.toNat - '0'.toNat) = d :: ds ∧ (d = 0 → ds = []) := by
  obtain ⟨c, digits, hDigits⟩ := List.exists_cons_of_ne_nil (Nat.toDigits_ne_nil (n := n) (b := 10))
  have hDigit : c.isDigit = true := isDigit_of_mem_toDigits (by rw [hDigits]; exact List.mem_cons_self)
  refine ⟨_, _, by rw [hDigits, List.map_cons], fun hZero => ?_⟩
  rcases Nat.eq_zero_or_pos n with rfl | hPos
  · rw [Nat.toDigits_zero] at hDigits
    rw [← (List.cons.inj hDigits).2]
    rfl
  · have hChar : c = '0' := by
      simp only [Char.isDigit, Bool.and_eq_true, decide_eq_true_eq] at hDigit
      refine Char.toNat_inj.mp ?_
      have hLow : '0'.toNat ≤ c.toNat := hDigit.1
      omega
    exact absurd (hChar ▸ hDigits) (toDigits_ne_zero_cons hPos digits)

theorem toDigits_append_ne_minus (n : Nat) (rest more : List Char) :
    Nat.toDigits 10 n ++ rest ≠ '-' :: more := by
  obtain ⟨c, digits, hDigits⟩ := List.exists_cons_of_ne_nil (Nat.toDigits_ne_nil (n := n) (b := 10))
  have hDigit : c.isDigit = true := isDigit_of_mem_toDigits (by rw [hDigits]; exact List.mem_cons_self)
  rw [hDigits]
  intro hMinus
  obtain ⟨rfl, -⟩ := List.cons.inj hMinus
  cases hDigit

theorem scanLiteral_repr (n : Int) {rest : List Char} (h : Ends rest) :
    scanLiteral ((Int.repr n).toList ++ rest) = some (.ofInt n, rest) := by
  have hSpan : spanDigits (Nat.toDigits 10 n.natAbs ++ rest) = _ :=
    spanDigits_append (fun _ hc => isDigit_of_mem_toDigits hc) h
  obtain ⟨d, ds, hWhole, hZero⟩ := exists_whole_eq_cons n.natAbs
  rw [hWhole] at hSpan
  unfold scanLiteral
  split
  rename_i negative text hSigned
  obtain ⟨rfl, rfl⟩ : negative = decide (n < 0) ∧ text = Nat.toDigits 10 n.natAbs ++ rest := by
    by_cases hSign : n < 0
    · rw [toList_repr_of_neg hSign, show (-n).toNat = n.natAbs by omega, List.cons_append] at hSigned
      cases hSigned
      simp [hSign]
    · rw [toList_repr_of_nonneg (by omega), show n.toNat = n.natAbs by omega] at hSigned
      split at hSigned
      · rename_i hMinus
        exact absurd hMinus (toDigits_append_ne_minus _ _ _)
      · cases hSigned
        simp [hSign]
  rw [hSpan]
  split
  · rename_i hNil
    cases hNil
  · rename_i hCons
    cases hCons
    cases hZero rfl
  · rename_i hDot
    obtain ⟨-, rfl⟩ := Prod.mk.inj hDot
    simp [Ends] at h
  · rename_i hSpanned
    cases hSpanned
    rw [Literal.ofInt, hWhole]
    simp [scanExponent_of_ends h]

theorem Literal.value?_ofInt {n : Int} (hLow : Int64.minValue.toInt ≤ n) (hHigh : n ≤ wordLimit) :
    (Literal.ofInt n).value? = some (.integer n) := by
  have hWhole : (Literal.ofInt n).whole.foldl (fun n d => n * 10 + d) 0 = n.natAbs := by
    rw [Literal.ofInt, foldl_digits, Nat.ofDigitChars_ten_toDigits]
  unfold Literal.value?
  rw [hWhole]
  by_cases hSign : n < 0
  · have hRange : (decide (0 < n.natAbs) && decide (Int64.minValue.toInt ≤ -(n.natAbs : Int))) = true := by
      simp only [Bool.and_eq_true, decide_eq_true_eq]
      omega
    simp only [Literal.ofInt, Option.isSome_none, Bool.or_self, Bool.false_eq_true, if_false,
      decide_eq_true_eq, hSign, if_true, hRange]
    rw [show -(n.natAbs : Int) = n by omega]
  · have hRange : n.natAbs ≤ wordLimit := by omega
    simp only [Literal.ofInt, Option.isSome_none, Bool.or_self, Bool.false_eq_true, if_false,
      decide_eq_true_eq, hSign, hRange, if_true]
    rw [show (n.natAbs : Int) = n by omega]

theorem hex4?_hexDigit {n : Nat} (h : n < 0x20) :
    hex4? '0' '0' (hexDigit (n / 16)) (hexDigit (n % 16)) = some n := by
  revert n
  decide

theorem scanText_escape (c : Char) (rest : List Char) :
    scanText none (escape c ++ rest) = (scanText none rest).prepend c := by
  unfold escape
  split
  · subst_vars; simp [scanText, unescape?]
  split
  · subst_vars; simp [scanText, unescape?]
  split
  · subst_vars; simp [scanText, unescape?]
  split
  · subst_vars; simp [scanText, unescape?]
  split
  · subst_vars; simp [scanText, unescape?]
  split
  · subst_vars; simp [scanText, unescape?]
  split
  · subst_vars; simp [scanText, unescape?]
  split
  · rename_i hControl
    have hHigh : isHighSurrogate c.toNat = false := by
      simp only [isHighSurrogate, Bool.and_eq_false_iff, decide_eq_false_iff_not]
      omega
    have hLow : isLowSurrogate c.toNat = false := by
      simp only [isLowSurrogate, Bool.and_eq_false_iff, decide_eq_false_iff_not]
      omega
    simp [scanText, hex4?_hexDigit hControl, hHigh, hLow, Char.ofNat_toNat]
  · rename_i hQuote hSlash _ _ _ _ _ hControl
    rw [List.singleton_append, scanText.eq_def]
    simp [hQuote, hSlash, hControl]

theorem scanText_quoted (s rest : List Char) :
    scanText none (s.flatMap escape ++ '"' :: rest) = some (some s, rest) := by
  induction s with
  | nil =>
    rw [scanText.eq_def]
    simp
  | cons c s ih =>
    rw [List.flatMap_cons, List.append_assoc, scanText_escape, ih]
    rfl

/-- The text is cut into these tokens. -/
inductive Lexes : List Char → List Token → Prop
  | nil : Lexes [] []
  | cons {s rest : List Char} {token : Token} {tokens : List Token} (blank : s.dropWhile isSpace = s)
    (scanned : scanToken s = some (token, rest)) (shorter : rest.length < s.length)
    (more : Lexes rest tokens) : Lexes s (token :: tokens)

theorem Lexes.tokens_eq {s : List Char} {ts : List Token} (h : Lexes s ts) {fuel : Nat}
    (enough : s.length < fuel) : tokens fuel s = ts := by
  induction h generalizing fuel with
  | nil => cases fuel <;> rfl
  | @cons s rest token ts blank scanned shorter _ ih =>
    obtain ⟨fuel, rfl⟩ : ∃ n, fuel = n + 1 := ⟨fuel - 1, by omega⟩
    rw [tokens, blank]
    cases s with
    | nil => cases scanned
    | cons c s =>
      simp only [scanned]
      rw [ih (by simp only [List.length_cons] at enough shorter ⊢; omega)]

theorem Lexes.ofChars_eq {s : List Char} {ts : List Token} (h : Lexes s ts) : Token.ofChars s = ts :=
  h.tokens_eq (Nat.lt_succ_self _)

theorem Lexes.mark {c : Char} {token : Token} {rest : List Char} {ts : List Token} (h : Lexes rest ts)
    (blank : isSpace c = false) (scanned : ∀ rest, scanToken (c :: rest) = some (token, rest)) :
    Lexes (c :: rest) (token :: ts) :=
  .cons (by rw [List.dropWhile_cons_of_neg (by simp [blank])]) (scanned rest) (by simp) h

theorem Lexes.quoted {rest : List Char} {ts : List Token} (h : Lexes rest ts) (s : String) :
    Lexes (quoted s.toList ++ rest) (.text s :: ts) := by
  refine .cons rfl ?_ (by simp [Json.quoted]; omega) h
  rw [Json.quoted, List.cons_append, List.append_assoc]
  change (scanText none _).map _ = _
  rw [List.singleton_append, scanText_quoted]
  simp

theorem scanToken_of_literal {c : Char} (h : c = '-' ∨ c.isDigit = true) (rest : List Char) :
    scanToken (c :: rest) = (scanLiteral (c :: rest)).map fun (literal, rest) =>
      (match literal.value? with
        | some n => .number n
        | none => .unreadable, rest) := by
  unfold scanToken
  split <;> first | rfl | simp_all

theorem Lexes.integer {rest : List Char} {ts : List Token} (h : Lexes rest ts) (ends : Ends rest) {n : Int}
    (hLow : Int64.minValue.toInt ≤ n) (hHigh : n ≤ wordLimit) :
    Lexes ((Int.repr n).toList ++ rest) (.number (.integer n) :: ts) := by
  have hLiteral := scanLiteral_repr n ends
  obtain ⟨c, more, hText⟩ : ∃ c more, (Int.repr n).toList = c :: more :=
    List.exists_cons_of_ne_nil (toList_repr_ne_nil n)
  have hChar : c = '-' ∨ c.isDigit = true := mem_repr (n := n) (by rw [hText]; exact List.mem_cons_self)
  rw [hText, List.cons_append] at hLiteral ⊢
  refine .cons ?_ ?_ (by simp only [List.length_cons, List.length_append]; omega) h
  · refine List.dropWhile_cons_of_neg ?_
    rcases hChar with rfl | hDigit
    · decide
    · intro hSpace
      simp only [isSpace, Bool.or_eq_true, decide_eq_true_eq] at hSpace
      rcases hSpace with ((rfl | rfl) | rfl) | rfl <;> cases hDigit
  · rw [scanToken_of_literal hChar, hLiteral]
    simp [Literal.value?_ofInt hLow hHigh]

mutual

/-- Whether the numbers of a value are integers that fit a word, and its lists and objects nest no
deeper than given. -/
def fits : Nat → Json → Bool
  | _, .number (.integer n) => Int64.minValue.toInt ≤ n && n ≤ wordLimit
  | _, .number (.float _) => false
  | 0, .array _ | 0, .object _ => false
  | room + 1, .array items => itemsFit room items
  | room + 1, .object fields => fieldsFit room fields
  | _, .null | _, .bool _ | _, .string _ => true

def itemsFit : Nat → List Json → Bool
  | _, [] => true
  | room, item :: rest => fits room item && itemsFit room rest

def fieldsFit : Nat → List (String × Json) → Bool
  | _, [] => true
  | room, (_, value) :: rest => fits room value && fieldsFit room rest

end

mutual

def tokensOf : Json → List Token
  | .null => [.null]
  | .bool b => [.bool b]
  | .number n => [.number n]
  | .string s => [.text s]
  | .array items => .openList :: (itemsTokens items ++ [.closeList])
  | .object fields => .openRecord :: (fieldsTokens fields ++ [.closeRecord])

def itemsTokens : List Json → List Token
  | [] => []
  | [item] => tokensOf item
  | item :: rest => tokensOf item ++ .comma :: itemsTokens rest

def fieldsTokens : List (String × Json) → List Token
  | [] => []
  | [(key, value)] => .text key :: .colon :: tokensOf value
  | (key, value) :: rest => .text key :: .colon :: (tokensOf value ++ .comma :: fieldsTokens rest)

end

theorem Lexes.comma {rest : List Char} {ts : List Token} (h : Lexes rest ts) :
    Lexes (',' :: rest) (.comma :: ts) :=
  h.mark rfl fun _ => rfl

theorem Lexes.colon {rest : List Char} {ts : List Token} (h : Lexes rest ts) :
    Lexes (':' :: rest) (.colon :: ts) :=
  h.mark rfl fun _ => rfl

mutual

theorem Lexes.chars {rest : List Char} {ts : List Token} (h : Lexes rest ts) (ends : Ends rest) :
    ∀ (room : Nat) (value : Json), fits room value = true →
      Lexes (value.chars ++ rest) (tokensOf value ++ ts)
  | _, .null, _ => .cons rfl rfl (by simp [Json.chars]; omega) h
  | _, .bool true, _ => .cons rfl rfl (by simp [Json.chars]; omega) h
  | _, .bool false, _ => .cons rfl rfl (by simp [Json.chars]; omega) h
  | _, .number (.integer n), fit => by
    simp only [fits, Bool.and_eq_true, decide_eq_true_eq] at fit
    exact h.integer ends fit.1 fit.2
  | _, .string s, _ => h.quoted s
  | room + 1, .array items, fit => by
    have hClose : Lexes (']' :: rest) (.closeList :: ts) := h.mark rfl fun _ => rfl
    have hItems := Lexes.itemsChars hClose (.inr (.inl rfl)) room items fit
    rw [Json.chars, tokensOf, List.cons_append, List.cons_append, List.append_assoc, List.append_assoc]
    exact hItems.mark rfl fun _ => rfl
  | room + 1, .object fields, fit => by
    have hClose : Lexes ('\x7d' :: rest) (.closeRecord :: ts) := h.mark rfl fun _ => rfl
    have hFields := Lexes.fieldsChars hClose (.inr (.inr rfl)) room fields fit
    rw [Json.chars, tokensOf, List.cons_append, List.cons_append, List.append_assoc, List.append_assoc]
    exact hFields.mark rfl fun _ => rfl

theorem Lexes.itemsChars {rest : List Char} {ts : List Token} (h : Lexes rest ts) (ends : Ends rest) :
    ∀ (room : Nat) (items : List Json), itemsFit room items = true →
      Lexes (Json.itemsChars items ++ rest) (itemsTokens items ++ ts)
  | _, [], _ => h
  | _, [item], fit => by
    simp only [itemsFit, Bool.and_true] at fit
    exact Lexes.chars h ends _ item fit
  | _, item :: next :: more, fit => by
    rw [itemsFit, Bool.and_eq_true] at fit
    have hMore := (Lexes.itemsChars h ends _ (next :: more) fit.2).comma
    rw [Json.itemsChars, itemsTokens, List.append_assoc, List.append_assoc]
    · exact Lexes.chars hMore (.inl rfl) _ item fit.1
    · exact List.cons_ne_nil _ _
    · exact List.cons_ne_nil _ _

theorem Lexes.fieldsChars {rest : List Char} {ts : List Token} (h : Lexes rest ts) (ends : Ends rest) :
    ∀ (room : Nat) (fields : List (String × Json)), fieldsFit room fields = true →
      Lexes (Json.fieldsChars fields ++ rest) (fieldsTokens fields ++ ts)
  | _, [], _ => h
  | _, [(key, value)], fit => by
    simp only [fieldsFit, Bool.and_true] at fit
    rw [Json.fieldsChars, fieldsTokens, List.append_assoc]
    exact (Lexes.chars h ends _ value fit).colon.quoted key
  | _, (key, value) :: next :: more, fit => by
    rw [fieldsFit, Bool.and_eq_true] at fit
    have hMore := (Lexes.fieldsChars h ends _ (next :: more) fit.2).comma
    have hValue := (Lexes.chars hMore (.inl rfl) _ value fit.1).colon.quoted key
    rw [Json.fieldsChars, fieldsTokens]
    · simpa using hValue
    · exact List.cons_ne_nil _ _
    · exact List.cons_ne_nil _ _

end

end DeliveryPipeline.Json

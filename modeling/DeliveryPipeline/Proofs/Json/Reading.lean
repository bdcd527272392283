import DeliveryPipeline.Json.Decoder
import DeliveryPipeline.Proofs.Json.Lexing

/-! # Printed JSON is read again

From the tokens of a value its tree is built: every value is handed to the list or the record around it,
and closes nothing but itself. So a reader that is given a printed text sees what it would see of the
value itself.
-/

namespace DeliveryPipeline.Json

set_option autoImplicit false

def Expectation.BeginsValue : Expectation → Prop
  | .value | .firstItem => True
  | _ => False

/-- The key of a field may stand here, after some fields. -/
def Expectation.BeginsField (fields : List (Tree × Tree)) : Expectation → Prop
  | .firstKey done | .nextKey done => done = fields
  | _ => False

theorem atDepth_of_le {depth : Nat} (h : depth ≤ depthLimit) (tree : Tree) : atDepth depth tree = tree :=
  if_neg (Nat.not_lt.mpr h)

theorem foldl_step_key {done : List (Tree × Tree)} {next : Expectation} (begins : next.BeginsField done)
    (key : String) (frames : List Frame) (ts : List Token) :
    (.text key :: .colon :: ts).foldl step (.reading frames next) =
      ts.foldl step (.reading (.record done (.text key) :: frames) .value) := by
  cases next <;> cases begins <;> rfl

mutual

theorem foldl_step_tokensOf : ∀ (room : Nat) (value : Json), fits room value = true →
    ∀ (frames : List Frame) (next : Expectation) (ts : List Token), next.BeginsValue →
      frames.length + room ≤ depthLimit →
      (tokensOf value ++ ts).foldl step (.reading frames next) =
        ts.foldl step (deliver frames (Tree.ofJson value))
  | _, .null, _, _, next, _, begins, _ => by cases next <;> first | rfl | cases begins
  | _, .bool _, _, _, next, _, begins, _ => by cases next <;> first | rfl | cases begins
  | _, .number _, _, _, next, _, begins, _ => by cases next <;> first | rfl | cases begins
  | _, .string _, _, _, next, _, begins, _ => by cases next <;> first | rfl | cases begins
  | room + 1, .array items, fit, frames, next, ts, begins, enough => by
    have hOpen : step (.reading frames next) .openList = .reading (.list [] :: frames) .firstItem := by
      cases next <;> first | rfl | cases begins
    have hDepth : atDepth (frames.length + 1) (.list (Tree.ofItems items) true) =
        Tree.ofJson (.array items) := atDepth_of_le (by omega) _
    rw [tokensOf, List.cons_append, List.foldl_cons, hOpen, List.append_assoc, ← hDepth]
    -- a first item is expected in another way than the next ones, and so is the end of an empty list
    cases items with
    | nil => rfl
    | cons item rest =>
      rw [foldl_step_itemsTokens room (item :: rest) fit (List.cons_ne_nil _ _) frames [] .firstItem _
        trivial (by omega), List.append_nil]
      change ts.foldl step (deliver frames (atDepth _ (.list (List.reverse _) true))) = _
      rw [List.reverse_reverse]
  | room + 1, .object fields, fit, frames, next, ts, begins, enough => by
    have hOpen : step (.reading frames next) .openRecord = .reading frames (.firstKey []) := by
      cases next <;> first | rfl | cases begins
    have hDepth : atDepth (frames.length + 1) (.record (Tree.ofEntries fields) true) =
        Tree.ofJson (.object fields) := atDepth_of_le (by omega) _
    rw [tokensOf, List.cons_append, List.foldl_cons, hOpen, List.append_assoc, ← hDepth]
    cases fields with
    | nil => rfl
    | cons field rest =>
      rw [foldl_step_fieldsTokens room (field :: rest) fit (List.cons_ne_nil _ _) frames [] (.firstKey [])
        _ rfl (by omega), List.append_nil]
      change ts.foldl step (deliver frames (atDepth _ (.record (List.reverse _) true))) = _
      rw [List.reverse_reverse]

theorem foldl_step_itemsTokens : ∀ (room : Nat) (items : List Json), itemsFit room items = true →
    items ≠ [] → ∀ (frames : List Frame) (done : List Tree) (next : Expectation) (ts : List Token),
      next.BeginsValue → frames.length + 1 + room ≤ depthLimit →
      (itemsTokens items ++ ts).foldl step (.reading (.list done :: frames) next) =
        ts.foldl step (.reading (.list ((Tree.ofItems items).reverse ++ done) :: frames) .itemEnd)
  | _, [], _, nonempty, _, _, _, _, _, _ => absurd rfl nonempty
  | room, [item], fit, _, frames, done, next, ts, begins, enough => by
    simp only [itemsFit, Bool.and_true] at fit
    exact foldl_step_tokensOf room item fit (.list done :: frames) next ts begins enough
  | room, item :: second :: rest, fit, _, frames, done, next, ts, begins, enough => by
    rw [itemsFit, Bool.and_eq_true] at fit
    have hItem := foldl_step_tokensOf room item fit.1 (.list done :: frames) next
      (.comma :: itemsTokens (second :: rest) ++ ts) begins enough
    have hRest := foldl_step_itemsTokens room (second :: rest) fit.2 (List.cons_ne_nil _ _) frames
      (Tree.ofJson item :: done) .value ts trivial enough
    have hTokens : itemsTokens (item :: second :: rest) ++ ts =
        tokensOf item ++ (.comma :: itemsTokens (second :: rest) ++ ts) := by simp [itemsTokens]
    rw [hTokens, hItem]
    refine hRest.trans ?_
    simp [Tree.ofItems]

theorem foldl_step_fieldsTokens : ∀ (room : Nat) (fields : List (String × Json)),
    fieldsFit room fields = true → fields ≠ [] →
    ∀ (frames : List Frame) (done : List (Tree × Tree)) (next : Expectation) (ts : List Token),
      next.BeginsField done → frames.length + 1 + room ≤ depthLimit →
      (fieldsTokens fields ++ ts).foldl step (.reading frames next) =
        ts.foldl step (.reading frames (.fieldEnd ((Tree.ofEntries fields).reverse ++ done)))
  | _, [], _, nonempty, _, _, _, _, _, _ => absurd rfl nonempty
  | room, [(key, value)], fit, _, frames, done, next, ts, begins, enough => by
    simp only [fieldsFit, Bool.and_true] at fit
    refine (foldl_step_key begins key frames _).trans ?_
    exact foldl_step_tokensOf room value fit (.record done (.text key) :: frames) .value ts trivial enough
  | room, (key, value) :: second :: rest, fit, _, frames, done, next, ts, begins, enough => by
    rw [fieldsFit, Bool.and_eq_true] at fit
    have hValue := foldl_step_tokensOf room value fit.1 (.record done (.text key) :: frames) .value
      (.comma :: fieldsTokens (second :: rest) ++ ts) trivial enough
    have hRest := foldl_step_fieldsTokens room (second :: rest) fit.2 (List.cons_ne_nil _ _) frames
      ((.text key, Tree.ofJson value) :: done) (.nextKey _) ts rfl enough
    have hTokens : fieldsTokens ((key, value) :: second :: rest) ++ ts =
        .text key :: .colon :: (tokensOf value ++ (.comma :: fieldsTokens (second :: rest) ++ ts)) := by
      simp [fieldsTokens]
    rw [hTokens, foldl_step_key begins, hValue]
    refine hRest.trans ?_
    simp [Tree.ofEntries]

end

theorem ofChars_chars {value : Json} (fit : fits depthLimit value = true) :
    Document.ofChars value.chars = ⟨Tree.ofJson value, true⟩ := by
  have hTokens : Token.ofChars value.chars = tokensOf value := by
    have hLexes := Lexes.chars .nil trivial depthLimit value fit
    rw [List.append_nil, List.append_nil] at hLexes
    exact hLexes.ofChars_eq
  have hBuilt := foldl_step_tokensOf depthLimit value fit [] .value [] trivial (Nat.le_of_eq (Nat.zero_add _))
  rw [List.append_nil] at hBuilt
  rw [Document.ofChars, hTokens, hBuilt]
  rfl

/-- The text holds the value and nothing else. -/
def Denotes (text : String) (value : Json) : Prop :=
  Document.ofChars text.toList = ⟨Tree.ofJson value, true⟩

theorem denotes_render {value : Json} (fit : fits depthLimit value = true) :
    Denotes (render value) value := by
  rw [Denotes, render, String.toList_ofList, ofChars_chars fit]

theorem Denotes.decodeText {text : String} {value : Json} (h : Denotes text value) {α : Type}
    (decode : Decoder α) : decodeText decode text = decodeValue decode value := by
  unfold Json.decodeText decodeValue
  rw [h]
  dsimp only
  cases decode (Tree.ofJson value) <;> rfl

theorem fits_ofInt {room : Nat} {n : Int} (low : Int64.minValue.toInt ≤ n) (high : n ≤ Int64.maxValue.toInt) :
    fits room (.ofInt n) = true := by
  have hLimit : Int64.maxValue.toInt ≤ wordLimit := by decide
  simp only [ofInt, fits, Bool.and_eq_true, decide_eq_true_eq]
  omega

theorem integer_ofInt {lo hi n : Int} (low : lo ≤ n) (high : n ≤ hi) :
    Decoder.integer lo hi (Tree.ofJson (.ofInt n)) = .ok n :=
  if_pos ⟨low, high⟩

theorem fits_ofInt64 (room : Nat) (n : Int64) : fits room (.ofInt64 n) = true :=
  fits_ofInt n.minValue_le_toInt n.toInt_le

theorem fits_ofInt32 (room : Nat) (n : Int32) : fits room (.ofInt32 n) = true := by
  have hLow : Int64.minValue.toInt ≤ Int32.minValue.toInt := by decide
  have hHigh : Int32.maxValue.toInt ≤ Int64.maxValue.toInt := by decide
  exact fits_ofInt (Int.le_trans hLow n.minValue_le_toInt) (Int.le_trans n.toInt_le hHigh)

theorem decodeValue_int64 (n : Int64) : decodeValue Decoder.int64 (.ofInt64 n) = .ok n := by
  rw [decodeValue, Decoder.int64, ofInt64, integer_ofInt n.minValue_le_toInt n.toInt_le]
  exact congrArg Except.ok (Int64.ofInt_toInt n)

theorem decodeValue_int32 (n : Int32) : decodeValue Decoder.int32 (.ofInt32 n) = .ok n := by
  rw [decodeValue, Decoder.int32, ofInt32, integer_ofInt n.minValue_le_toInt n.toInt_le]
  exact congrArg Except.ok (Int32.ofInt_toInt n)

end DeliveryPipeline.Json

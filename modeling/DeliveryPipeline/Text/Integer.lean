/-! # Integers in decimal

Reading a signed integer of a given range from its decimal text, digit by digit: a sign may stand in
front, a character that is no digit and a value outside the range are told apart, and whichever of
the two comes first in the text decides.
-/

namespace DeliveryPipeline.Text

set_option autoImplicit false

inductive IntegerError where
  | empty
  | invalidDigit
  | tooLarge
  | tooSmall
deriving DecidableEq, Repr

def IntegerError.message : IntegerError → String
  | .empty => "cannot parse integer from empty string"
  | .invalidDigit => "invalid digit found in string"
  | .tooLarge => "number too large to fit in target type"
  | .tooSmall => "number too small to fit in target type"

def digit? (c : Char) : Option Nat :=
  if '0' ≤ c ∧ c ≤ '9' then some (c.toNat - '0'.toNat) else none

/-- Appends digits to a number and stops at the first one that leaves the range. -/
def appendDigits (sign : Int) (lo hi : Int) : Int → List Char → Except IntegerError Int
  | value, [] => .ok value
  | value, c :: rest =>
    match digit? c with
    | none => .error .invalidDigit
    | some d =>
      let next := value * 10 + sign * d
      if next < lo then .error .tooSmall
      else if hi < next then .error .tooLarge
      else appendDigits sign lo hi next rest

def readInteger (lo hi : Int) : List Char → Except IntegerError Int
  | [] => .error .empty
  | ['+'] | ['-'] => .error .invalidDigit
  | '+' :: digits => appendDigits 1 lo hi 0 digits
  | '-' :: digits => appendDigits (-1) lo hi 0 digits
  | digits => appendDigits 1 lo hi 0 digits

def readInt64 (s : String) : Except IntegerError Int64 :=
  (readInteger Int64.minValue.toInt Int64.maxValue.toInt s.toList).map Int64.ofInt

def readInt32 (s : String) : Except IntegerError Int32 :=
  (readInteger Int32.minValue.toInt Int32.maxValue.toInt s.toList).map Int32.ofInt

def readUInt64 (s : String) : Except IntegerError UInt64 :=
  match s.toList with
  | '-' :: _ => .error .invalidDigit
  | digits => (readInteger 0 (UInt64.size - 1) digits).map fun n => UInt64.ofNat n.toNat

def ofInt64 (n : Int64) : String := Int.repr n.toInt

def ofInt32 (n : Int32) : String := Int.repr n.toInt

end DeliveryPipeline.Text

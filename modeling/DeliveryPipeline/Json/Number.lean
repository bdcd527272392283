import DeliveryPipeline.Json.Basic
import DeliveryPipeline.Text.Integer

/-! # Numbers in JSON texts

The literal of a number and the value it stands for. A literal without fraction and exponent that
fits 64 bits (unsigned, or signed when a minus stands in front) is an integer. Every other literal is
a floating-point number: the digits that fit 64 bits, times or divided by a power of ten, in
floating-point arithmetic. A literal beyond the largest finite number has no value.
-/

namespace DeliveryPipeline.Json

set_option autoImplicit false

open DeliveryPipeline.Text

structure Literal where
  negative : Bool
  whole : List Nat
  fraction : List Nat
  /-- the exponent's sign (true for a minus) and digits -/
  exponent : Option (Bool × List Nat)
  hasFraction : Bool
deriving DecidableEq, Repr

def spanDigits : List Char → List Nat × List Char
  | [] => ([], [])
  | c :: rest =>
    match digit? c with
    | some d => let (ds, after) := spanDigits rest; (d :: ds, after)
    | none => ([], c :: rest)

def scanExponent : List Char → Option (Option (Bool × List Nat) × List Char)
  | c :: rest =>
    if c = 'e' ∨ c = 'E' then
      let (negative, digits) := match rest with
        | '-' :: more => (true, more)
        | '+' :: more => (false, more)
        | more => (false, more)
      match spanDigits digits with
      | ([], _) => none
      | (ds, after) => some (some (negative, ds), after)
    else some (none, c :: rest)
  | [] => some (none, [])

/-- Reads the literal of a number; a number has no leading zeros, and a digit on both sides of its
point. -/
def scanLiteral (s : List Char) : Option (Literal × List Char) := do
  let (negative, s) := match s with
    | '-' :: rest => (true, rest)
    | rest => (false, rest)
  match spanDigits s with
  | ([], _) => none
  | (0 :: _ :: _, _) => none
  | (whole, '.' :: rest) =>
    match spanDigits rest with
    | ([], _) => none
    | (fraction, rest) =>
      let (exponent, rest) ← scanExponent rest
      some (⟨negative, whole, fraction, exponent, true⟩, rest)
  | (whole, rest) =>
    let (exponent, rest) ← scanExponent rest
    some (⟨negative, whole, [], exponent, false⟩, rest)

def wordLimit : Nat := UInt64.size - 1

/-- Appends digits while the result fits a word, and counts the digits that were appended. -/
def fill (value : Nat) : List Nat → Nat × Nat
  | [] => (value, 0)
  | d :: rest =>
    if wordLimit < value * 10 + d then (value, 0)
    else let (value, count) := fill (value * 10 + d) rest; (value, count + 1)

def scaled (x : Float) (exponent : Int) : Option Float :=
  if exponent.natAbs ≤ 308 then
    if 0 ≤ exponent then
      let y := x * Float.ofScientific 1 false exponent.natAbs
      if y.isInf then none else some y
    else some (x / Float.ofScientific 1 false exponent.natAbs)
  else if x == 0 then some x
  else if 0 ≤ exponent then none
  else scaled (x / Float.ofScientific 1 false 308) (exponent + 308)
termination_by exponent.natAbs
decreasing_by omega

/-- The exponent's value, or none when it leaves 32 bits. -/
def exponentValue (digits : List Nat) : Option Int :=
  let n : Nat := digits.foldl (fun n d => n * 10 + d) 0
  if (n : Int) ≤ Int32.maxValue.toInt then some (n : Int) else none

def signed (negative : Bool) (x : Float) : Float := if negative then -x else x

def floatValue (l : Literal) : Option Number :=
  let (head, used) := fill 0 l.whole
  let (word, places) := fill head l.fraction
  let base : Int := (l.whole.length - used : Nat) - (places : Int)
  let x := (UInt64.ofNat word).toFloat
  match l.exponent with
  | none => (scaled x base).map fun y => .float (signed l.negative y)
  | some (down, digits) =>
    match exponentValue digits with
    | some e =>
      (scaled x (if down then base - e else base + e)).map fun y => .float (signed l.negative y)
    | none => if word ≠ 0 && !down then none else some (.float (signed l.negative 0))

/-- The value of a literal; none when it is out of range. -/
def Literal.value? (l : Literal) : Option Number :=
  let n : Nat := l.whole.foldl (fun n d => n * 10 + d) 0
  if l.hasFraction || l.exponent.isSome then floatValue l
  else if l.negative then
    if 0 < n && Int64.minValue.toInt ≤ -(n : Int) then some (.integer (-n)) else floatValue l
  else if n ≤ wordLimit then some (.integer n)
  else floatValue l

end DeliveryPipeline.Json

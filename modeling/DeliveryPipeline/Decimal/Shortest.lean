/-! # Shortest decimals of floating-point numbers

The decimal with the fewest digits that reads back as a given finite number, and of those the
nearest one. A positive finite number is `mantissa * 2 ^ exponent`; the reals that round to it form
an interval around it, whose ends belong to it when the mantissa is even.
-/

namespace DeliveryPipeline.Decimal

set_option autoImplicit false

/-- `digits * 10 ^ exponent`. -/
structure Numeral where
  digits : Nat
  exponent : Int
deriving DecidableEq, Repr

/-- A positive finite number, scaled so that it, half its distance to the neighbours above and below
and all grid points in question are whole: `value / scale` is the number. -/
structure Interval where
  scale : Nat
  value : Nat
  below : Nat
  above : Nat
  closed : Bool

def Interval.ofParts (mantissa : Nat) (exponent : Int) (lowest : Bool) : Interval :=
  let up := exponent.toNat
  let down := (-exponent).toNat
  let unit := Nat.pow 2 up
  { scale := 4 * Nat.pow 2 down
    value := 4 * mantissa * unit
    below := if lowest then unit else 2 * unit
    above := 2 * unit
    closed := mantissa % 2 = 0 }

def Interval.contains (i : Interval) (d : Numeral) : Bool :=
  let num := d.digits * i.scale * Nat.pow 10 d.exponent.toNat
  let den := Nat.pow 10 (-d.exponent).toNat
  let value := i.value * den
  if value ≤ num then
    let gap := num - value
    gap < i.above * den || (i.closed && gap = i.above * den)
  else
    let gap := value - num
    gap < i.below * den || (i.closed && gap = i.below * den)

/-- Distance of a decimal from the number, times a common factor of all decimals of one exponent. -/
def Interval.distance (i : Interval) (d : Numeral) : Nat :=
  let num := d.digits * i.scale * Nat.pow 10 d.exponent.toNat
  let value := i.value * Nat.pow 10 (-d.exponent).toNat
  (num - value) + (value - num)

/-- The greatest grid point `digits * 10 ^ exponent` that is at most the number. -/
def Interval.floor (i : Interval) (exponent : Int) : Numeral :=
  ⟨i.value * Nat.pow 10 (-exponent).toNat / (i.scale * Nat.pow 10 exponent.toNat), exponent⟩

/-- The nearer of the two grid points around the number, if one of them reads back as it. -/
def Interval.onGrid (i : Interval) (exponent : Int) : Option Numeral :=
  let low := i.floor exponent
  let high : Numeral := ⟨low.digits + 1, exponent⟩
  match i.contains low && low.digits ≠ 0, i.contains high with
  | true, true => if i.distance high < i.distance low then some high else some low
  | true, false => some low
  | false, true => some high
  | false, false => none

def digitCount (n : Nat) : Nat := (toString n).length

/-- The exponent `e` with `10 ^ e ≤ number < 10 ^ (e + 1)`, up to one. -/
def Interval.magnitude (i : Interval) : Int :=
  let estimate := (digitCount i.value : Int) - digitCount i.scale
  if (i.floor estimate).digits = 0 then estimate - 1 else estimate

def Interval.search (i : Interval) (top : Int) : Nat → Nat → Numeral
  | 0, tried => i.floor (top - tried)
  | fuel + 1, tried =>
    match i.onGrid (top - tried) with
    | some d => d
    | none => i.search top fuel (tried + 1)

def Interval.shortest (i : Interval) : Numeral := i.search i.magnitude 18 0

/-- The shortest decimal of a positive finite number. -/
def shortest (x : Float) : Numeral :=
  let bits := x.toBits.toNat
  let fraction : Nat := bits % Nat.pow 2 52
  let biased : Nat := bits / Nat.pow 2 52 % Nat.pow 2 11
  if biased = 0 then (Interval.ofParts fraction (-1074) false).shortest
  else
    (Interval.ofParts (fraction + Nat.pow 2 52) ((biased : Int) - 1075)
      (fraction = 0 && 1 < biased)).shortest

def Numeral.trimmed (d : Numeral) : Nat → Numeral
  | 0 => d
  | fuel + 1 =>
    if d.digits ≠ 0 && d.digits % 10 = 0 then Numeral.trimmed ⟨d.digits / 10, d.exponent + 1⟩ fuel
    else d

end DeliveryPipeline.Decimal

import DeliveryPipeline.Text.Blank
import DeliveryPipeline.Text.Integer

/-! # Points in time

A point in time in UTC, to the nanosecond, with leap seconds. It is read from an RFC 3339 text in a
lenient form (blanks before numbers and separators, one-digit fields, a sign on the year, `UTC` for
the offset) and written in the strict one, with as many thousands of fraction digits as it needs.
-/

namespace DeliveryPipeline

set_option autoImplicit false

structure CalendarDay where
  year : Int
  month : Nat
  day : Nat
deriving DecidableEq, Repr

namespace CalendarDay

def isLeapYear (year : Int) : Bool :=
  year % 4 = 0 && (year % 100 ≠ 0 || year % 400 = 0)

def daysInMonth (year : Int) (month : Nat) : Nat :=
  if month = 2 then if isLeapYear year then 29 else 28
  else if month = 4 || month = 6 || month = 9 || month = 11 then 30
  else 31

def firstYear : Int := -262143

def lastYear : Int := 262142

def isValid (d : CalendarDay) : Bool :=
  firstYear ≤ d.year && d.year ≤ lastYear && 1 ≤ d.month && d.month ≤ 12 && 1 ≤ d.day &&
    d.day ≤ daysInMonth d.year d.month

def next (d : CalendarDay) : CalendarDay :=
  if d.day < daysInMonth d.year d.month then { d with day := d.day + 1 }
  else if d.month < 12 then { d with month := d.month + 1, day := 1 }
  else ⟨d.year + 1, 1, 1⟩

def previous (d : CalendarDay) : CalendarDay :=
  if 1 < d.day then { d with day := d.day - 1 }
  else if 1 < d.month then { d with month := d.month - 1, day := daysInMonth d.year (d.month - 1) }
  else ⟨d.year - 1, 12, 31⟩

end CalendarDay

/-- A second of a day and a fraction of it; within a leap second the nanoseconds exceed one second. -/
structure Timestamp where
  day : CalendarDay
  second : Nat
  nanosecond : Nat
deriving DecidableEq, Repr

namespace Timestamp

open DeliveryPipeline.Text

def digits (most : Nat) (s : List Char) : Option (Nat × List Char) :=
  let run := (s.take most).takeWhile fun c => (digit? c).isSome
  if run.isEmpty then none
  else some (run.foldl (fun n c => n * 10 + (digit? c).getD 0) 0, s.drop run.length)

def skipBlanks (s : List Char) : List Char := s.dropWhile isBlank

def field (s : List Char) : Option (Nat × List Char) := digits 2 (skipBlanks s)

def year (s : List Char) : Option (Int × List Char) :=
  match skipBlanks s with
  | '-' :: rest => (digits rest.length rest).map fun (n, rest) => (-(n : Int), rest)
  | '+' :: rest => (digits rest.length rest).map fun (n, rest) => ((n : Int), rest)
  | rest => (digits 4 rest).map fun (n, rest) => ((n : Int), rest)

def literal (c : Char) (s : List Char) : Option (List Char) :=
  match s with
  | d :: rest => if c = d then some rest else none
  | [] => none

/-- Reads an optional fraction; digits after the ninth are dropped. -/
def fraction : List Char → Option (Nat × List Char)
  | '.' :: rest => do
    let (n, after) ← digits 9 rest
    let count := rest.length - after.length
    some (n * Nat.pow 10 (9 - count), after.dropWhile fun c => (digit? c).isSome)
  | s => some (0, s)

def offset (s : List Char) : Option (Int × List Char) :=
  match s with
  | 'Z' :: rest | 'z' :: rest => some (0, rest)
  | sign :: rest => do
    let factor ← if sign = '+' then some (1 : Int)
      else if sign = '-' || sign = '−' then some (-1) else none
    match rest with
    | h1 :: h2 :: rest => do
      let hours := (← digit? h1) * 10 + (← digit? h2)
      match rest.dropWhile fun c => c = ':' || isBlank c with
      | m1 :: m2 :: rest => do
        let minutes := (← digit? m1) * 10 + (← digit? m2)
        if minutes < 60 then some (factor * (hours * 3600 + minutes * 60 : Nat), rest) else none
      | _ => none
    | _ => none
  | [] => none

def zone (s : List Char) : Option (Int × List Char) :=
  match s with
  | a :: b :: c :: rest =>
    if a.toUpper = 'U' && b.toUpper = 'T' && c.toUpper = 'C' then some (0, rest) else offset s
  | _ => offset s

def ofLocal (day : CalendarDay) (second nanosecond : Nat) (offset : Int) : Timestamp :=
  let utc := (second : Int) - offset
  if utc < 0 then ⟨day.previous, (utc + 86400).toNat, nanosecond⟩
  else if 86400 ≤ utc then ⟨day.next, (utc - 86400).toNat, nanosecond⟩
  else ⟨day, utc.toNat, nanosecond⟩

def ofChars? (s : List Char) : Option Timestamp := do
  let (year, s) ← year s
  let s ← literal '-' (skipBlanks s)
  let (month, s) ← field s
  let s ← literal '-' (skipBlanks s)
  let (day, s) ← field s
  let s ← match s with
    | c :: rest => if c = 'T' || c = 't' || c = ' ' then some rest else none
    | [] => none
  let (hour, s) ← field s
  let s ← literal ':' (skipBlanks s)
  let (minute, s) ← field s
  let s ← literal ':' (skipBlanks s)
  let (second, s) ← field s
  let (nanosecond, s) ← fraction s
  let (offset, s) ← zone (skipBlanks s)
  let day : CalendarDay := ⟨year, month, day⟩
  if !(skipBlanks s).isEmpty || !day.isValid || 23 < hour || 59 < minute || 60 < second then none
  else if offset ≤ -86400 || 86400 ≤ offset then none
  else
    let leap := second = 60
    let point := ofLocal day (hour * 3600 + minute * 60 + if leap then 59 else second)
      (nanosecond + if leap then 1000000000 else 0) offset
    if point.day.isValid then some point else none

def ofString? (s : String) : Option Timestamp := ofChars? s.toList

def padded (width n : Nat) : String :=
  let s := toString n
  String.ofList (List.replicate (width - s.length) '0') ++ s

/-- Years outside 0 to 9999 carry a sign. -/
def yearText (year : Int) : String :=
  if year < 0 then "-" ++ padded 4 year.natAbs
  else if 9999 < year then "+" ++ padded 4 year.natAbs
  else padded 4 year.natAbs

def fractionText (nanosecond : Nat) : String :=
  if nanosecond = 0 then ""
  else if nanosecond % 1000000 = 0 then "." ++ padded 3 (nanosecond / 1000000)
  else if nanosecond % 1000 = 0 then "." ++ padded 6 (nanosecond / 1000)
  else "." ++ padded 9 nanosecond

def toText (t : Timestamp) : String :=
  let leap := 1000000000 ≤ t.nanosecond
  yearText t.day.year ++ "-" ++ padded 2 t.day.month ++ "-" ++ padded 2 t.day.day ++ "T" ++
    padded 2 (t.second / 3600) ++ ":" ++ padded 2 (t.second / 60 % 60) ++ ":" ++
    padded 2 (t.second % 60 + if leap then 1 else 0) ++
    fractionText (t.nanosecond - if leap then 1000000000 else 0) ++ "Z"

end Timestamp

end DeliveryPipeline

import DeliveryPipeline.Call
import DeliveryPipeline.Timestamp

/-! # Rows

A row of a table holds a value under each of its columns; a column that is not named holds no value. A
record is read from a row column by column, and the first column that does not fit is reported.
-/

namespace DeliveryPipeline.Database

set_option autoImplicit false

inductive Value where
  | null
  | integer (n : Int64)
  | integers (list : List Int64)
  | text (s : String)
  | time (t : Timestamp)
  | json (content : Json)
deriving Repr

namespace Value

def ofInt32 (n : Int32) : Value := .integer n.toInt64

def ofOption {α : Type} (f : α → Value) : Option α → Value
  | some a => f a
  | none => .null

end Value

abbrev Row := List (String × Value)

def Row.value (row : Row) (column : String) : Value := (row.lookup column).getD .null

abbrev Columns (α : Type) := ReaderT Row (Except StorageError) α

namespace Columns

variable {α : Type}

/-- Reads a column whose values are of one form. -/
def required (column : String) (ofValue? : Value → Option α) : Columns α := fun row =>
  match ofValue? (row.value column) with
  | some a => .ok a
  | none => .error .columnMismatch

/-- Reads a column that may hold no value. -/
def optional (column : String) (ofValue? : Value → Option α) : Columns (Option α) :=
  required column fun
    | .null => some none
    | value => (ofValue? value).map some

def integer? : Value → Option Int64
  | .integer n => some n
  | _ => none

def int32? : Value → Option Int32
  | .integer n => if n.toInt32.toInt64 = n then some n.toInt32 else none
  | _ => none

def text? : Value → Option String
  | .text s => some s
  | _ => none

def time? : Value → Option Timestamp
  | .time t => some t
  | _ => none

def json? : Value → Option Json
  | .json content => some content
  | _ => none

def integer (column : String) : Columns Int64 := required column integer?

def int32 (column : String) : Columns Int32 := required column int32?

def text (column : String) : Columns String := required column text?

def time (column : String) : Columns Timestamp := required column time?

def json (column : String) : Columns Json := required column json?

def meaning (a : Option α) : Columns α := fun _ =>
  match a with
  | some a => .ok a
  | none => .error .unreadable

end Columns

end DeliveryPipeline.Database

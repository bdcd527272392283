/-! # JSON values

A JSON value. A number is an integer of at most 64 bits or a floating-point number; an object is a
list of fields, and objects that were read from a text have their fields in ascending order of the
keys, each key once.
-/

namespace DeliveryPipeline

set_option autoImplicit false

inductive Number where
  | integer (value : Int)
  | float (value : Float)
deriving Repr, Inhabited

inductive Json where
  | null
  | bool (value : Bool)
  | number (value : Number)
  | string (value : String)
  | array (items : List Json)
  | object (fields : List (String × Json))
deriving Repr, Inhabited

namespace Json

/-- Puts a field in its place among fields in ascending order; an earlier field of the same key is
replaced. -/
def insertField (key : String) (value : Json) : List (String × Json) → List (String × Json)
  | [] => [(key, value)]
  | (k, v) :: rest =>
    if key < k then (key, value) :: (k, v) :: rest
    else if key = k then (key, value) :: rest
    else (k, v) :: insertField key value rest

/-- The object in which the last field of each key counts. -/
def ofFields (fields : List (String × Json)) : Json :=
  .object (fields.foldl (fun sorted (key, value) => insertField key value sorted) [])

def get? (key : String) : Json → Option Json
  | .object fields => fields.lookup key
  | _ => none

def string? : Json → Option String
  | .string s => some s
  | _ => none

def ofInt (n : Int) : Json := .number (.integer n)

def ofInt64 (n : Int64) : Json := ofInt n.toInt

def ofInt32 (n : Int32) : Json := ofInt n.toInt

def ofOption {α : Type} (f : α → Json) : Option α → Json
  | none => .null
  | some a => f a

def ofList {α : Type} (f : α → Json) (items : List α) : Json := .array (items.map f)

def ofStrings (items : List String) : Json := ofList .string items

end Json

end DeliveryPipeline

import DeliveryPipeline.Json.Tree
import DeliveryPipeline.Timestamp

/-! # Typed readers of JSON

A reader walks a tree from left to right and stops at the first problem: the text is malformed there,
or it holds a value of another shape than the one asked for. A wrong container is refused at its
bracket; any other token is read first, so that a malformed one is reported as such.

A record type is read from a record or from a list of its fields in their declared order. `Fields`
describes such a type once, and both ways of reading come from it.
-/

namespace DeliveryPipeline.Json

set_option autoImplicit false

inductive Problem where
  | malformed
  | mismatch
deriving DecidableEq, Repr

abbrev Decoder (α : Type) := Tree → Except Problem α

def Tree.problem : Tree → Problem
  | .unreadable => .malformed
  | .broken => .malformed
  | _ => .mismatch

namespace Decoder

def text : Decoder String
  | .text s => .ok s
  | tree => .error tree.problem

def bool : Decoder Bool
  | .bool b => .ok b
  | tree => .error tree.problem

def integer (lo hi : Int) : Decoder Int
  | .number (.integer n) => if lo ≤ n ∧ n ≤ hi then .ok n else .error .mismatch
  | tree => .error tree.problem

def int64 : Decoder Int64 := fun tree =>
  (integer Int64.minValue.toInt Int64.maxValue.toInt tree).map Int64.ofInt

def int32 : Decoder Int32 := fun tree =>
  (integer Int32.minValue.toInt Int32.maxValue.toInt tree).map Int32.ofInt

def timestamp : Decoder Timestamp := fun tree => do
  match Timestamp.ofString? (← text tree) with
  | some t => .ok t
  | none => .error .mismatch

def optional {α : Type} (decode : Decoder α) : Decoder (Option α)
  | .null => .ok none
  | tree => (decode tree).map some

def items {α : Type} (decode : Decoder α) : List Tree → Except Problem (List α)
  | [] => .ok []
  | item :: rest => do
    let a ← decode item
    let more ← items decode rest
    .ok (a :: more)

def list {α : Type} (decode : Decoder α) : Decoder (List α)
  | .list trees closed => do
    let read ← items decode trees
    if closed then .ok read else .error .malformed
  | .deep (.list ..) => .error .malformed
  | tree => .error tree.problem

/-- One of finitely many names, written as a text or as the only key of a record with the value
null. Nothing else is even looked at. -/
def choice {α : Type} (ofName? : String → Option α) : Decoder α
  | .text s =>
    match ofName? s with
    | some a => .ok a
    | none => .error .mismatch
  | .record fields closed =>
    match fields with
    | (.text s, value) :: more =>
      match ofName? s, value with
      | none, _ => .error .mismatch
      | some a, .null => if more.isEmpty && closed then .ok a else .error .malformed
      | some _, tree => .error tree.problem
    | (key, _) :: _ => .error key.problem
    | [] => .error .malformed
  | _ => .error .malformed

end Decoder

mutual

/-- Walks over a value that nobody asks for; its numbers and texts need not be readable. -/
def Tree.skip : Tree → Except Problem Unit
  | .list trees closed => do
    Tree.skipItems trees
    if closed then .ok () else .error .malformed
  | .record fields closed => do
    Tree.skipFields fields
    if closed then .ok () else .error .malformed
  | .deep inner => Tree.skip inner
  | .broken => .error .malformed
  | _ => .ok ()

def Tree.skipItems : List Tree → Except Problem Unit
  | [] => .ok ()
  | item :: rest => do
    Tree.skip item
    Tree.skipItems rest

def Tree.skipFields : List (Tree × Tree) → Except Problem Unit
  | [] => .ok ()
  | (.text _, value) :: rest | (.unreadable, value) :: rest => do
    Tree.skip value
    Tree.skipFields rest
  | _ :: _ => .error .malformed

end

mutual

def Decoder.value : Tree → Except Problem Json
  | .null => .ok .null
  | .bool b => .ok (.bool b)
  | .number n => .ok (.number n)
  | .text s => .ok (.string s)
  | .list trees closed => do
    let items ← Decoder.values trees
    if closed then .ok (.array items) else .error .malformed
  | .record fields closed => do
    let entries ← Decoder.entries fields
    if closed then .ok (Json.ofFields entries) else .error .malformed
  | .unreadable | .broken | .deep _ => .error .malformed

def Decoder.values : List Tree → Except Problem (List Json)
  | [] => .ok []
  | item :: rest => do
    let a ← Decoder.value item
    let more ← Decoder.values rest
    .ok (a :: more)

def Decoder.entries : List (Tree × Tree) → Except Problem (List (String × Json))
  | [] => .ok []
  | (.text key, value) :: rest => do
    let a ← Decoder.value value
    let more ← Decoder.entries rest
    .ok ((key, a) :: more)
  | _ :: _ => .error .malformed

end

/-- A field of a record type: the keys it goes by and the check its value has to pass. -/
structure FieldSpec where
  keys : List String
  check : Tree → Except Problem Unit

/-- How the fields of a record type are read: which keys it knows, how the value is put together
from the entries of a record, and how from the items of a list, whose rest is handed on. -/
structure Fields (α : Type) where
  specs : List FieldSpec
  ofEntries : List (Tree × Tree) → Except Problem α
  ofItems : List Tree → Bool → Except Problem (α × List Tree)

namespace Fields

variable {α β : Type}

def entry? (keys : List String) : List (Tree × Tree) → Option Tree
  | [] => none
  | (.text key, value) :: rest => if keys.contains key then some value else entry? keys rest
  | _ :: rest => entry? keys rest

/-- A field under one of several keys. `absent` is its value in a record without it, `short` its
value in a list that is too short for it. -/
def field (keys : List String) (decode : Decoder α) (absent short : Option α) : Fields α where
  specs := [⟨keys, fun tree => (decode tree).map fun _ => ()⟩]
  ofEntries entries :=
    match entry? keys entries, absent with
    | some tree, _ => decode tree
    | none, some a => .ok a
    | none, none => .error .mismatch
  ofItems trees closed :=
    match trees, closed, short with
    | tree :: rest, _, _ => (decode tree).map fun a => (a, rest)
    | [], false, _ => .error .malformed
    | [], true, some a => .ok (a, [])
    | [], true, none => .error .mismatch

def required (key : String) (decode : Decoder α) : Fields α := field [key] decode none none

def optional (key : String) (decode : Decoder α) : Fields (Option α) :=
  field [key] (Decoder.optional decode) (some none) none

/-- A field with a value of its own where it is missing; it may not be null. -/
def withDefault (key : String) (decode : Decoder α) (value : α) : Fields α :=
  field [key] decode (some value) (some value)

def pure (a : α) : Fields α where
  specs := []
  ofEntries _ := .ok a
  ofItems trees _ := .ok (a, trees)

def apply (f : Fields (α → β)) (x : Fields α) : Fields β where
  specs := f.specs ++ x.specs
  ofEntries entries := do
    let g ← f.ofEntries entries
    let a ← x.ofEntries entries
    .ok (g a)
  ofItems trees closed := do
    let (g, rest) ← f.ofItems trees closed
    let (a, rest) ← x.ofItems rest closed
    .ok (g a, rest)

instance : Applicative Fields where
  pure := pure
  seq f x := apply f (x ())

/-- Walks over the entries of a record in their order: a value of the type is checked, a second one
of the same field is refused before it is looked at, and an unknown entry is skipped. -/
def scan (specs : List FieldSpec) : List (Tree × Tree) → List Nat → Except Problem Unit
  | [], _ => .ok ()
  | (.text key, value) :: rest, seen =>
    match specs.findIdx? fun spec => spec.keys.contains key with
    | some i =>
      if seen.contains i then .error .mismatch
      else do
        match specs[i]? with
        | some spec => spec.check value
        | none => .ok ()
        scan specs rest (i :: seen)
    | none => do
      value.skip
      scan specs rest seen
  | _ :: _, _ => .error .malformed

def decodeEntries (f : Fields α) (entries : List (Tree × Tree)) (closed : Bool) :
    Except Problem α := do
  scan f.specs entries []
  if closed then f.ofEntries entries else .error .malformed

def decodeItems (f : Fields α) (trees : List Tree) (closed : Bool) : Except Problem α := do
  let (a, rest) ← f.ofItems trees closed
  if rest.isEmpty && closed then .ok a else .error .malformed

def decoder (f : Fields α) : Decoder α
  | .record entries closed => f.decodeEntries entries closed
  | .list trees closed => f.decodeItems trees closed
  | .deep _ => .error .malformed
  | tree => .error tree.problem

end Fields

def decodeText {α : Type} (decode : Decoder α) (s : String) : Except Problem α := do
  let document := Document.ofChars s.toList
  let a ← decode document.root
  if document.clean then .ok a else .error .malformed

def decodeValue {α : Type} (decode : Decoder α) (value : Json) : Except Problem α :=
  decode (Tree.ofJson value)

def parse (s : String) : Except Problem Json := decodeText Decoder.value s

end DeliveryPipeline.Json

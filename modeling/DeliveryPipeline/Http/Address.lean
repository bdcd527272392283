import DeliveryPipeline.Text.Affix

/-! # Addresses

How an address is put on the wire. Its path is cut into segments; a segment of one or two dots stands
for its place in the path and is carried out, and characters that no path may hold are escaped. A query
that is given as names and values is written as a form.
-/

namespace DeliveryPipeline.Http

set_option autoImplicit false

def hexDigits : List Char := "0123456789ABCDEF".toList

def escapeByte (b : UInt8) : List Char :=
  ['%', hexDigits.getD (b.toNat / 16) '0', hexDigits.getD (b.toNat % 16) '0']

def escapeChar (c : Char) : List Char := (String.singleton c).toUTF8.toList.flatMap escapeByte

def isControl (c : Char) : Bool := c.toNat < 0x20 || 0x7E < c.toNat

def isEscapedInPath (c : Char) : Bool :=
  isControl c || [' ', '"', '#', '<', '>', '?', Char.ofNat 0x60, '\x7b', '\x7d'].contains c

def isEscapedInQuery (c : Char) : Bool := isControl c || [' ', '"', '#', '<', '>', '\''].contains c

def escape (p : Char → Bool) (s : List Char) : List Char :=
  s.flatMap fun c => if p c then escapeChar c else [c]

/-- A segment's number of dots, if it stands for a place in the path. -/
def dots? (segment : List Char) : Option Nat :=
  let s := String.ofList (segment.map Char.toLower)
  if s = "." || s = "%2e" then some 1
  else if [ "..", ".%2e", "%2e.", "%2e%2e" ].contains s then some 2
  else none

/-- The segments of a path after the dots in it are carried out. `done` holds those before, the last
one first. -/
def resolveDots : List (List Char) → List (List Char) → List (List Char)
  | done, [] => done.reverse
  | done, segment :: rest =>
    match dots? segment, rest with
    | some 1, [] => ([] :: done).reverse
    | some 1, rest => resolveDots done rest
    | some _, [] => ([] :: done.drop 1).reverse
    | some _, rest => resolveDots (done.drop 1) rest
    | none, rest => resolveDots (segment :: done) rest

def sentPath (path : List Char) : List Char :=
  match Text.pieces (fun c => c = '/' || c = '\\') path with
  | [] :: segments => (resolveDots [] segments).flatMap fun s => '/' :: escape isEscapedInPath s
  | segments => (resolveDots [] segments).flatMap fun s => '/' :: escape isEscapedInPath s

/-- The part of an address from its path to its query, as it is sent; what follows a number sign is
not. -/
def sentTarget (target : String) : String :=
  let s := (target.toList.filter fun c => c ≠ '\t' && c ≠ '\n' && c ≠ '\r').takeWhile (· ≠ '#')
  match Text.cut '?' s with
  | some (path, query) => .ofList (sentPath path ++ '?' :: escape isEscapedInQuery query)
  | none => .ofList (sentPath s)

def formText (s : String) : List Char :=
  s.toList.flatMap fun c =>
    if ('0' ≤ c && c ≤ '9') || ('A' ≤ c && c ≤ 'Z') || ('a' ≤ c && c ≤ 'z') ||
        ['*', '-', '.', '_'].contains c then [c]
    else if c = ' ' then ['+']
    else escapeChar c

def formQuery (pairs : List (String × String)) : String :=
  .ofList (List.intercalate ['&'] (pairs.map fun (name, value) => formText name ++ '=' :: formText value))

end DeliveryPipeline.Http

import DeliveryPipeline.Yaml.Token
import DeliveryPipeline.Text.Integer

/-! # YAML nodes

The values that a YAML text stands for. A plain scalar is null, a truth value, a number or a text,
whichever its characters spell; a scalar in any other style is a text. A tag of the core schema asks
for one of these meanings; any other tag makes a scalar a text, and a local tag stays with its node.
-/

namespace DeliveryPipeline.Yaml

set_option autoImplicit false

inductive Node where
  | null
  | bool (value : Bool)
  | integer (value : Int)
  | float (value : Float)
  | text (value : String)
  | sequence (items : List Node)
  | mapping (entries : List (Node × Node))
  | tagged (tag : String) (content : Node)
deriving Inhabited, Repr

def tagName (tag : String) : String :=
  match tag.toList with
  | '!' :: c :: rest => .ofList (c :: rest)
  | _ => tag

namespace Node

mutual

/-- Whether two nodes are the same key. The order of a mapping's entries does not matter. -/
def same : Node → Node → Bool
  | .null, .null => true
  | .bool a, .bool b => a = b
  | .integer a, .integer b => a = b
  | .float a, .float b => a == b || (a.isNaN && b.isNaN)
  | .text a, .text b => a = b
  | .sequence a, .sequence b => sameItems a b
  | .mapping a, .mapping b => a.length = b.length && sameEntries a b
  | .tagged t a, .tagged u b => tagName t = tagName u && same a b
  | _, _ => false

def sameItems : List Node → List Node → Bool
  | [], [] => true
  | a :: rest, b :: more => same a b && sameItems rest more
  | _, _ => false

def sameEntries : List (Node × Node) → List (Node × Node) → Bool
  | [], _ => true
  | (key, value) :: rest, entries =>
    entries.any (fun (k, v) => same key k && same value v) && sameEntries rest entries

end

def content : Node → Node
  | .tagged _ node => node.content
  | node => node

def text? (node : Node) : Option String :=
  match node.content with
  | .text s => some s
  | _ => none

def get? (key : String) (node : Node) : Option Node :=
  match node.content with
  | .mapping entries => (entries.find? fun (k, _) => k.same (.text key)).map (·.2)
  | _ => none

end Node

def digitIn? (radix : Nat) (c : Char) : Option Nat :=
  let value? : Option Nat :=
    if '0' ≤ c ∧ c ≤ '9' then some (c.toNat - '0'.toNat)
    else if 'a' ≤ c ∧ c ≤ 'f' then some (c.toNat - 'a'.toNat + 10)
    else if 'A' ≤ c ∧ c ≤ 'F' then some (c.toNat - 'A'.toNat + 10)
    else none
  value?.filter (· < radix)

def readDigits (radix : Nat) : List Char → Option Nat
  | [] => none
  | digits => digits.foldlM (fun n c => (digitIn? radix c).map fun d => n * radix + d) 0

/-- The magnitude of an integer: digits behind a mark of their radix, or decimal digits. -/
def magnitude? : List Char → Option Nat
  | '0' :: 'x' :: digits => readDigits 16 digits
  | '0' :: 'o' :: digits => readDigits 8 digits
  | '0' :: 'b' :: digits => readDigits 2 digits
  | digits => readDigits 10 digits

def signOf : List Char → Bool × List Char
  | '-' :: rest => (true, rest)
  | '+' :: rest => (false, rest)
  | s => (false, s)

/-- Digits with a zero in front are no number. -/
def isZeroPadded (s : List Char) : Bool :=
  match (signOf s).2 with
  | '0' :: c :: rest => (c :: rest).all fun d => '0' ≤ d && d ≤ '9'
  | _ => false

def integer? (s : List Char) : Option Int :=
  if isZeroPadded s then none
  else
    let (negative, digits) := signOf s
    (magnitude? digits).map fun n => if negative then -n else n

structure DecimalText where
  digits : Nat
  exponent : Int

def decimal? (s : List Char) : Option DecimalText := do
  let isDigit (c : Char) : Bool := '0' ≤ c && c ≤ '9'
  let whole := s.takeWhile isDigit
  let s := s.dropWhile isDigit
  let (fraction, s) := match s with
    | '.' :: rest => (rest.takeWhile isDigit, rest.dropWhile isDigit)
    | s => ([], s)
  let digits ← readDigits 10 (whole ++ fraction)
  let exponent ← match s with
    | [] => some (0 : Int)
    | c :: rest =>
      if c = 'e' || c = 'E' then
        let (negative, power) := signOf rest
        (readDigits 10 power).map fun (n : Nat) => if negative then -(n : Int) else (n : Int)
      else none
  some ⟨digits, exponent - fraction.length⟩

def DecimalText.value? (d : DecimalText) : Option Float :=
  let magnitude : Int := (Nat.toDigits 10 d.digits).length + d.exponent
  if d.digits = 0 || magnitude < -400 then some 0
  else if 400 < magnitude then none
  else
    let value := Float.ofScientific d.digits (d.exponent < 0) d.exponent.natAbs
    if value.isFinite then some value else none

def float? (s : List Char) : Option Float :=
  let (negative, rest) := signOf s
  let signed (x : Float) : Float := if negative then -x else x
  if [".inf".toList, ".Inf".toList, ".INF".toList].contains rest then
    some (signed (Float.ofBits 0x7FF0000000000000))
  else if [".nan".toList, ".NaN".toList, ".NAN".toList].contains s then
    some (Float.ofBits 0x7FF8000000000000)
  else ((decimal? rest).bind DecimalText.value?).map signed

def bool? (s : String) : Option Bool :=
  if ["true", "True", "TRUE"].contains s then some true
  else if ["false", "False", "FALSE"].contains s then some false
  else none

def isNull (s : String) : Bool := ["null", "Null", "NULL", "~"].contains s

def Node.ofInteger? (n : Int) : Option Node :=
  if Int64.minValue.toInt ≤ n ∧ n < (UInt64.size : Int) then some (.integer n) else none

/-- Integers of more than 64 bits are refused; those of more than 128 bits count as
floating-point numbers. -/
def isWide (n : Int) : Bool := -(Nat.pow 2 127 : Int) ≤ n ∧ n < (Nat.pow 2 128 : Int)

def Node.ofPlain? (s : String) : Option Node :=
  let chars := s.toList
  let other : Node :=
    match if isZeroPadded chars then none else float? chars with
    | some x => .float x
    | none => .text s
  if s.isEmpty || isNull s then some .null
  else
    match bool? s, integer? chars with
    | some b, _ => some (.bool b)
    | none, some n => if isWide n then ofInteger? n else some other
    | none, none => some other

def coreTag (name : String) : Bytes := bytesOf "tag:yaml.org,2002:" ++ bytesOf name

def Node.ofTagged? (tag : Bytes) (s : String) : Option Node :=
  if tag = coreTag "bool" then (bool? s).map .bool
  else if tag = coreTag "int" then (integer? s.toList).bind ofInteger?
  else if tag = coreTag "float" then (float? s.toList).map .float
  else if tag = coreTag "null" then if isNull s then some .null else none
  else some (.text s)

end DeliveryPipeline.Yaml

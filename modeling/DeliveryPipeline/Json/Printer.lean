import DeliveryPipeline.Json.Basic
import DeliveryPipeline.Decimal.Shortest

/-! # Writing JSON

The compact text of a value: no blanks, a control character as an escape, every other character as
it is. A floating-point number is written with the fewest digits that read back, positionally while
its decimal point falls within sixteen digits.
-/

namespace DeliveryPipeline.Json

set_option autoImplicit false

def hexDigit (n : Nat) : Char := "0123456789abcdef".toList.getD n '0'

def escape (c : Char) : List Char :=
  if c = '"' then ['\\', '"']
  else if c = '\\' then ['\\', '\\']
  else if c = '\n' then ['\\', 'n']
  else if c = '\r' then ['\\', 'r']
  else if c = '\t' then ['\\', 't']
  else if c = '\x08' then ['\\', 'b']
  else if c = '\x0c' then ['\\', 'f']
  else if c.toNat < 0x20 then ['\\', 'u', '0', '0', hexDigit (c.toNat / 16), hexDigit (c.toNat % 16)]
  else [c]

def quoted (s : List Char) : List Char := '"' :: (s.flatMap escape ++ ['"'])

/-- A decimal's text. `point` is the number of digits before its decimal point. -/
def decimalChars (d : Decimal.Numeral) : List Char :=
  let digits := (toString d.digits).toList
  let count := digits.length
  let point := (count : Int) + d.exponent
  if 0 ≤ d.exponent && point ≤ 16 then
    digits ++ List.replicate d.exponent.toNat '0' ++ ['.', '0']
  else if 0 < point && point ≤ 16 then
    digits.take point.toNat ++ '.' :: digits.drop point.toNat
  else if -5 < point && point ≤ 0 then
    '0' :: '.' :: (List.replicate (-point).toNat '0' ++ digits)
  else
    let exponent := (toString (point - 1)).toList
    match digits with
    | [d] => d :: 'e' :: exponent
    | d :: more => d :: '.' :: (more ++ 'e' :: exponent)
    | [] => []

def floatChars (x : Float) : List Char :=
  let sign := if x.toBits.toNat / Nat.pow 2 63 = 1 then ['-'] else []
  if x == 0 then sign ++ ['0', '.', '0']
  else if x.isFinite then sign ++ decimalChars ((Decimal.shortest x).trimmed 20)
  else "null".toList

def numberChars : Number → List Char
  | .integer n => (toString n).toList
  | .float x => floatChars x

mutual

def chars : Json → List Char
  | .null => "null".toList
  | .bool true => "true".toList
  | .bool false => "false".toList
  | .number n => numberChars n
  | .string s => quoted s.toList
  | .array items => '[' :: (itemsChars items ++ [']'])
  | .object fields => '{' :: (fieldsChars fields ++ ['}'])

def itemsChars : List Json → List Char
  | [] => []
  | [item] => chars item
  | item :: rest => chars item ++ ',' :: itemsChars rest

def fieldsChars : List (String × Json) → List Char
  | [] => []
  | [(key, value)] => quoted key.toList ++ ':' :: chars value
  | (key, value) :: rest => quoted key.toList ++ ':' :: (chars value ++ ',' :: fieldsChars rest)

end

def render (value : Json) : String := .ofList value.chars

end DeliveryPipeline.Json

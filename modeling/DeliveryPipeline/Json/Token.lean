import DeliveryPipeline.Json.Number

/-! # Tokens of JSON texts

A text is cut into tokens as far as it goes: the list ends with `broken` where no token can be read.
A token whose form is right but which stands for no value (a number out of range, a text with half of
a surrogate pair) is `unreadable`.
-/

namespace DeliveryPipeline.Json

set_option autoImplicit false

open DeliveryPipeline.Text

inductive Token where
  | openList
  | closeList
  | openRecord
  | closeRecord
  | comma
  | colon
  | null
  | bool (value : Bool)
  | number (value : Number)
  | text (value : String)
  | unreadable
  | broken
deriving Repr

def hexDigit? (c : Char) : Option Nat :=
  if '0' ≤ c ∧ c ≤ '9' then some (c.toNat - '0'.toNat)
  else if 'a' ≤ c ∧ c ≤ 'f' then some (c.toNat - 'a'.toNat + 10)
  else if 'A' ≤ c ∧ c ≤ 'F' then some (c.toNat - 'A'.toNat + 10)
  else none

def hex4? (a b c d : Char) : Option Nat := do
  some ((((← hexDigit? a) * 16 + (← hexDigit? b)) * 16 + (← hexDigit? c)) * 16 + (← hexDigit? d))

def unescape? (c : Char) : Option Char :=
  if c = '"' ∨ c = '\\' ∨ c = '/' then some c
  else if c = 'b' then some '\x08'
  else if c = 'f' then some '\x0c'
  else if c = 'n' then some '\n'
  else if c = 'r' then some '\r'
  else if c = 't' then some '\t'
  else none

def isHighSurrogate (n : Nat) : Bool := 0xD800 ≤ n && n < 0xDC00

def isLowSurrogate (n : Nat) : Bool := 0xDC00 ≤ n && n < 0xE000

/-- A text up to its closing quote: its characters, or none inside if half of a surrogate pair stands
in it, and the rest of the input. None if the text has no right form. -/
abbrev TextScan := Option (Option (List Char) × List Char)

def TextScan.prepend (c : Char) (scan : TextScan) : TextScan :=
  scan.map fun (content, rest) => (content.map (c :: ·), rest)

def TextScan.spoil (scan : TextScan) : TextScan :=
  scan.map fun (_, rest) => (none, rest)

/-- Reads a text after its opening quote, or the rest of it after the first half of a surrogate
pair. A first half that the second one does not follow spoils the text. -/
def scanText (half : Option Nat) : List Char → TextScan
  | [] => none
  | c :: rest =>
    if c = '"' then some (if half.isSome then none else some [], rest)
    else if c = '\\' then
      match rest with
      | 'u' :: a :: b :: d :: e :: more =>
        match hex4? a b d e, half with
        | none, _ => none
        | some unit, some high =>
          if isLowSurrogate unit then
            (scanText none more).prepend
              (Char.ofNat (0x10000 + (high - 0xD800) * 0x400 + (unit - 0xDC00)))
          else (scanText none more).spoil
        | some unit, none =>
          if isHighSurrogate unit then scanText (some unit) more
          else if isLowSurrogate unit then (scanText none more).spoil
          else (scanText none more).prepend (Char.ofNat unit)
      | e :: more =>
        match unescape? e with
        | some c =>
          if half.isSome then (scanText none more).spoil else (scanText none more).prepend c
        | none => none
      | [] => none
    else if c.toNat < 0x20 then none
    else if half.isSome then (scanText none rest).spoil
    else (scanText none rest).prepend c

def scanToken (s : List Char) : Option (Token × List Char) :=
  match s with
  | [] => none
  | '[' :: rest => some (.openList, rest)
  | ']' :: rest => some (.closeList, rest)
  | '{' :: rest => some (.openRecord, rest)
  | '}' :: rest => some (.closeRecord, rest)
  | ',' :: rest => some (.comma, rest)
  | ':' :: rest => some (.colon, rest)
  | '"' :: rest =>
    (scanText none rest).map fun (content, rest) =>
      (match content with
        | some chars => .text (.ofList chars)
        | none => .unreadable, rest)
  | 'n' :: 'u' :: 'l' :: 'l' :: rest => some (.null, rest)
  | 't' :: 'r' :: 'u' :: 'e' :: rest => some (.bool true, rest)
  | 'f' :: 'a' :: 'l' :: 's' :: 'e' :: rest => some (.bool false, rest)
  | s =>
    (scanLiteral s).map fun (literal, rest) =>
      (match literal.value? with
        | some n => .number n
        | none => .unreadable, rest)

def isSpace (c : Char) : Bool := c = ' ' || c = '\n' || c = '\t' || c = '\r'

/-- Cuts a text into at most `fuel` tokens; a token that cannot be read ends the list. -/
def tokens : Nat → List Char → List Token
  | 0, _ => []
  | fuel + 1, s =>
    match s.dropWhile isSpace with
    | [] => []
    | s =>
      match scanToken s with
      | none => [.broken]
      | some (token, rest) => token :: tokens fuel rest

/-- All tokens of a text: no token is empty, so there are at most as many as characters. -/
def Token.ofChars (s : List Char) : List Token := tokens (s.length + 1) s

end DeliveryPipeline.Json

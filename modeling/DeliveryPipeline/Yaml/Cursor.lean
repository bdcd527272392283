/-! # Positions in a YAML text

A cursor is the rest of a text together with the place where it starts: the number of characters
before it, its line and its column. The line breaks are those of YAML 1.1: besides line feed and
carriage return also next line, line separator and paragraph separator.
-/

namespace DeliveryPipeline.Yaml

set_option autoImplicit false

def isPrintable (c : Char) : Bool :=
  let n := c.toNat
  n = 9 || n = 10 || n = 13 || (0x20 ≤ n && n ≤ 0x7E) || n = 0x85 || (0xA0 ≤ n && n ≤ 0xD7FF) ||
    (0xE000 ≤ n && n ≤ 0xFFFD) || 0x10000 ≤ n

def isSpaceOrTab (c : Char) : Bool := c = ' ' || c = '\t'

def isBreak (c : Char) : Bool :=
  c = '\n' || c = '\r' || c.toNat = 0x85 || c.toNat = 0x2028 || c.toNat = 0x2029

def isWordChar (c : Char) : Bool :=
  ('0' ≤ c && c ≤ '9') || ('A' ≤ c && c ≤ 'Z') || ('a' ≤ c && c ≤ 'z') || c = '_' || c = '-'

structure Cursor where
  rest : List Char
  index : Nat
  line : Nat
  column : Nat
deriving Repr

namespace Cursor

def start (text : List Char) : Cursor := ⟨text, 0, 0, 0⟩

def char? (c : Cursor) : Option Char := c.rest.head?

def ahead? (c : Cursor) (n : Nat) : Option Char := c.rest[n]?

def atEnd (c : Cursor) : Bool := c.rest.isEmpty

def is (c : Cursor) (d : Char) : Bool := c.char? = some d

def aheadIs (c : Cursor) (n : Nat) (d : Char) : Bool := c.ahead? n = some d

def onBlank (c : Cursor) : Bool := c.char?.any isSpaceOrTab

def onBreak (c : Cursor) : Bool := c.char?.any isBreak

def onBreakOrEnd (c : Cursor) : Bool := c.char?.all isBreak

/-- Whether a blank, a break or the end of the text stands a number of places ahead. -/
def blankAhead (c : Cursor) (n : Nat) : Bool :=
  (c.ahead? n).all fun d => isSpaceOrTab d || isBreak d

def skip (c : Cursor) : Cursor :=
  { c with rest := c.rest.drop 1, index := c.index + 1, column := c.column + 1 }

def skips (c : Cursor) (n : Nat) : Cursor :=
  { c with rest := c.rest.drop n, index := c.index + n, column := c.column + n }

/-- Moves over a line break, if one stands here. A carriage return and a line feed are one break. -/
def skipLine (c : Cursor) : Cursor :=
  match c.rest with
  | '\r' :: '\n' :: rest => ⟨rest, c.index + 2, c.line + 1, 0⟩
  | d :: rest => if isBreak d then ⟨rest, c.index + 1, c.line + 1, 0⟩ else c
  | [] => c

/-- The character that the line break here contributes to a scalar. -/
def breakText (c : Cursor) : List Char :=
  match c.rest with
  | d :: _ =>
    if d.toNat = 0x2028 || d.toNat = 0x2029 then [d]
    else if isBreak d then ['\n'] else []
  | [] => []

def skipWhile (c : Cursor) (p : Char → Bool) : Cursor := c.skips (c.rest.takeWhile p).length

/-- Whether a line starts here with the marker of a document's start or end. -/
def onDocumentMarker (c : Cursor) : Bool :=
  c.column = 0 && c.blankAhead 3 &&
    (["---".toList, "...".toList].contains (c.rest.take 3))

end Cursor

end DeliveryPipeline.Yaml

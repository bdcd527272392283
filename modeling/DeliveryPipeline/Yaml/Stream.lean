import DeliveryPipeline.Yaml.Token
import DeliveryPipeline.Yaml.Scalar

/-! # Token streams of YAML texts

Cutting a YAML text into tokens. Two things reach back: a block collection starts where the
indentation first exceeds that of the block around it, and a scalar (or any other token that may
begin a key) turns out to be a simple key when a colon follows it on its line. So the stream keeps the
indentation of the open blocks and, for each open flow collection, the place of a possible key.
-/

namespace DeliveryPipeline.Yaml

set_option autoImplicit false

/-- A place where a simple key may have started. -/
structure KeyPlace where
  token : Nat
  index : Nat
  line : Nat
  column : Nat
  /-- whether only a key can stand there -/
  required : Bool

structure Stream where
  cursor : Cursor
  tokens : List Token
  /-- indentations of the open blocks, innermost first -/
  indents : List Nat
  /-- possible keys of the open flow collections, innermost first, and of the block around them -/
  keys : List (Option KeyPlace)
  keyAllowed : Bool
  finished : Bool

namespace Stream

def start (text : List Char) : Stream := ⟨.start text, [], [], [none], true, false⟩

/-- The tokens are held in reverse. -/
def push (s : Stream) (token : Token) : Stream := { s with tokens := token :: s.tokens }

def tokenCount (s : Stream) : Nat := s.tokens.length

def inFlow (s : Stream) : Bool := 1 < s.keys.length

def insertAt (s : Stream) (number : Nat) (token : Token) : Stream :=
  let behind := s.tokenCount - number
  { s with tokens := s.tokens.take behind ++ token :: s.tokens.drop behind }

/-- Forgets the possible key of the innermost collection, unless a key has to stand there. -/
def dropKey (s : Stream) : Option Stream :=
  match s.keys with
  | some place :: outer => if place.required then none else some { s with keys := none :: outer }
  | _ => some s

def noteKey (s : Stream) : Option Stream := do
  if s.keyAllowed then
    let required := !s.inFlow && s.indents.head? = some s.cursor.column
    let s ← s.dropKey
    let place : KeyPlace :=
      ⟨s.tokenCount, s.cursor.index, s.cursor.line, s.cursor.column, required⟩
    some { s with keys := some place :: s.keys.drop 1 }
  else some s

/-- A simple key ends on its line, within 1024 characters. -/
def KeyPlace.expired (place : KeyPlace) (c : Cursor) : Bool :=
  place.line < c.line || place.index + 1024 < c.index

def dropExpired (s : Stream) : Option Stream := do
  let keys ← s.keys.mapM fun key =>
    match key with
    | some place =>
      if KeyPlace.expired place s.cursor then if place.required then none else some none
      else some (some place)
    | none => some none
  some { s with keys := keys }

def closeBlocks (column : Nat) : List Nat → List Token → List Nat × List Token
  | [], tokens => ([], tokens)
  | indent :: outer, tokens =>
    if column < indent then closeBlocks column outer (.blockEnd :: tokens)
    else (indent :: outer, tokens)

def unroll (s : Stream) : Stream :=
  if s.inFlow then s
  else
    let (indents, tokens) := closeBlocks s.cursor.column s.indents s.tokens
    { s with indents := indents, tokens := tokens }

def unrollAll (s : Stream) : Stream :=
  if s.inFlow then s
  else { s with indents := [], tokens := List.replicate s.indents.length .blockEnd ++ s.tokens }

/-- Starts a block at a column that exceeds the indentation, in front of the token with a number. -/
def roll (s : Stream) (column number : Nat) (token : Token) : Stream :=
  if s.inFlow then s
  else if s.indents.head?.all (· < column) then
    { s.insertAt number token with indents := column :: s.indents }
  else s

def indicator (s : Stream) (length : Nat) (token : Token) : Stream :=
  { s with cursor := s.cursor.skips length }.push token

def openFlow (s : Stream) (token : Token) : Option Stream := do
  let s ← s.noteKey
  some ({ s with keys := none :: s.keys, keyAllowed := true }.indicator 1 token)

def closeFlow (s : Stream) (token : Token) : Option Stream := do
  let s ← s.dropKey
  let keys := match s.keys with
    | _ :: outer => if outer.isEmpty then s.keys else outer
    | [] => []
  some ({ s with keys := keys, keyAllowed := false }.indicator 1 token)

def flowEntry (s : Stream) : Option Stream := do
  let s ← s.dropKey
  some ({ s with keyAllowed := true }.indicator 1 .flowEntry)

def blockEntry (s : Stream) : Option Stream := do
  if !s.inFlow && !s.keyAllowed then none
  else
    let s := s.roll s.cursor.column s.tokenCount .blockSequenceStart
    let s ← s.dropKey
    some ({ s with keyAllowed := true }.indicator 1 .blockEntry)

def explicitKey (s : Stream) : Option Stream := do
  if !s.inFlow && !s.keyAllowed then none
  else
    let s := s.roll s.cursor.column s.tokenCount .blockMappingStart
    let s ← s.dropKey
    some ({ s with keyAllowed := !s.inFlow }.indicator 1 .key)

/-- Reads a colon: the end of a simple key, or of a key that is marked as one. -/
def value (s : Stream) : Option Stream :=
  match s.keys with
  | some place :: outer =>
    let s := s.insertAt place.token .key
    let s := s.roll place.column place.token .blockMappingStart
    some ({ s with keys := none :: outer, keyAllowed := false }.indicator 1 .value)
  | _ =>
    if !s.inFlow && !s.keyAllowed then none
    else
      let s := s.roll s.cursor.column s.tokenCount .blockMappingStart
      some ({ s with keyAllowed := !s.inFlow }.indicator 1 .value)

/-- The grave accent is reserved. -/
def graveAccent : Char := Char.ofNat 0x60

def endsAnchor (c : Char) : Bool :=
  ['?', ':', ',', ']', '\x7d', '%', '@', graveAccent].contains c

def anchor (s : Stream) (token : String → Token) : Option Stream := do
  let s ← s.noteKey
  let c := s.cursor.skip
  let name := c.rest.takeWhile isWordChar
  let c := c.skips name.length
  let ended := c.blankAhead 0 || c.char?.any fun d => endsAnchor d
  if name.isEmpty || !ended then none
  else some ({ s with keyAllowed := false, cursor := c }.push (token (.ofList name)))

/-- Characters of a tag's URI. Flow indicators count only inside angle brackets. -/
def isUriChar (bracketed : Bool) (c : Char) : Bool :=
  isWordChar c ||
    [';', '/', '?', ':', '@', '&', '=', '+', '$', '.', '%', '!', '~', '*', '\'', '(', ')'].contains c ||
    (bracketed && (c = ',' || c = '[' || c = ']'))

def sequenceLength? (byte : Nat) : Option Nat :=
  if byte < 0x80 then some 1
  else if byte / 0x20 = 6 then some 2
  else if byte / 0x10 = 14 then some 3
  else if byte / 8 = 30 then some 4
  else none

def readByte (c : Cursor) : Option (Nat × Cursor) :=
  match c.rest with
  | '%' :: high :: low :: _ => do
    some ((← Json.hexDigit? high) * 16 + (← Json.hexDigit? low), c.skips 3)
  | _ => none

def readBytes : Nat → Cursor → Option (Bytes × Cursor)
  | 0, c => some ([], c)
  | n + 1, c => do
    let (byte, c) ← readByte c
    if byte / 0x40 = 2 then
      let (more, c) ← readBytes n c
      some (UInt8.ofNat byte :: more, c)
    else none

def readUri (bracketed : Bool) : Nat → Bytes → Cursor → Option (Bytes × Cursor)
  | 0, _, _ => none
  | fuel + 1, bytes, c =>
    match c.char? with
    | some d =>
      if !isUriChar bracketed d then some (bytes, c)
      else if d = '%' then do
        let (byte, c) ← readByte c
        let length ← sequenceLength? byte
        let (more, c) ← readBytes (length - 1) c
        readUri bracketed fuel (bytes ++ UInt8.ofNat byte :: more) c
      else readUri bracketed fuel (bytes ++ [UInt8.ofNat d.toNat]) c.skip
    | none => some (bytes, c)

/-- Reads a URI that is not empty, `head` counting as its start. -/
def uri (bracketed : Bool) (head : Bytes) (c : Cursor) : Option (Bytes × Cursor) := do
  let (bytes, after) ← readUri bracketed (c.rest.length + 1) [] c
  if head.isEmpty && after.index = c.index then none else some (head.drop 1 ++ bytes, after)

def handle (c : Cursor) : Option (String × Cursor) :=
  if c.is '!' then
    let name := (c.rest.drop 1).takeWhile isWordChar
    let c := c.skips (name.length + 1)
    if c.is '!' then some (.ofList ('!' :: name ++ ['!']), c.skip) else some (.ofList ('!' :: name), c)
  else none

/-- A handle is written between two exclamation marks. -/
def isHandle (s : String) : Bool := 1 < s.length && s.toList.getLast? = some '!'

def tagContent (c : Cursor) : Option (Bytes × Bytes × Cursor) := do
  if c.aheadIs 1 '<' then
    let (suffix, c) ← uri true [] (c.skips 2)
    if c.is '>' then some ([], suffix, c.skip) else none
  else
    let (name, c) ← handle c
    if isHandle name then
      let (suffix, c) ← uri false [] c
      some (bytesOf name, suffix, c)
    else
      let (suffix, c) ← uri false (bytesOf name) c
      if suffix.isEmpty then some ([], bytesOf "!", c) else some (bytesOf "!", suffix, c)

def tag (s : Stream) : Option Stream := do
  let s ← s.noteKey
  let (handle, suffix, c) ← tagContent s.cursor
  if c.blankAhead 0 || (s.inFlow && c.is ',') then
    some ({ s with keyAllowed := false, cursor := c }.push (.tag handle suffix))
  else none

def blockScalar (s : Stream) (literal : Bool) : Option Stream := do
  let s ← s.dropKey
  let (text, c) ← readBlock literal s.indents.head? s.cursor.skip
  some ({ s with keyAllowed := true, cursor := c }.push (.scalar (.ofList text) false))

def quotedScalar (s : Stream) (single : Bool) : Option Stream := do
  let s ← s.noteKey
  let c := s.cursor.skip
  let (text, c) ← readQuoted single (c.rest.length + 1) [] c
  some ({ s with keyAllowed := false, cursor := c }.push (.scalar (.ofList text) false))

def plainScalar (s : Stream) : Option Stream := do
  let s ← s.noteKey
  let indent := match s.indents.head? with
    | some n => n + 1
    | none => 0
  let scalar ← readPlain s.inFlow indent (s.cursor.rest.length + 1) [] Gap.none s.cursor
  some ({ s with keyAllowed := scalar.broken, cursor := scalar.cursor }.push
    (.scalar (.ofList scalar.text) true))

def versionNumber (c : Cursor) : Option (Nat × Cursor) :=
  let digits := c.rest.takeWhile fun d => '0' ≤ d && d ≤ '9'
  if digits.isEmpty || 9 < digits.length then none
  else some (digits.foldl (fun n d => n * 10 + (d.toNat - '0'.toNat)) 0, c.skips digits.length)

def directiveContent (name : List Char) (c : Cursor) : Option (Token × Cursor) := do
  if name = "YAML".toList then
    let (major, c) ← versionNumber (c.skipWhile isSpaceOrTab)
    if c.is '.' then
      let (minor, c) ← versionNumber c.skip
      some (.version major minor, c)
    else none
  else if name = "TAG".toList then
    let (handle, c) ← handle (c.skipWhile isSpaceOrTab)
    if (isHandle handle || handle = "!") && c.onBlank then
      let (tagStart, c) ← uri true [] (c.skipWhile isSpaceOrTab)
      if c.blankAhead 0 then some (.tagDirective (bytesOf handle) tagStart, c) else none
    else none
  else none

def directive (s : Stream) : Option Stream := do
  let s ← s.unrollAll.dropKey
  let c := s.cursor.skip
  let name := c.rest.takeWhile isWordChar
  let c := c.skips name.length
  if name.isEmpty || !c.blankAhead 0 then none
  else
    let (token, c) ← directiveContent name c
    let c ← finishLine c
    some ({ s with keyAllowed := false, cursor := c }.push token)

def documentMarker (s : Stream) (token : Token) : Option Stream := do
  let s ← s.unrollAll.dropKey
  some ({ s with keyAllowed := false }.indicator 3 token)

def endOfText (s : Stream) : Option Stream := do
  let s ← s.unrollAll.dropKey
  some { s.push .streamEnd with finished := true }

/-- Moves to the next token, over blanks, comments and line breaks. Outside flow collections a tab
counts as a blank only where no key may start. -/
def advance : Nat → Stream → Stream
  | 0, s => s
  | fuel + 1, s =>
    let c := s.cursor
    let c := if c.column = 0 && c.char?.any (fun d => d.toNat = 0xFEFF) then c.skip else c
    let c := c.skipWhile fun d => d = ' ' || ((s.inFlow || !s.keyAllowed) && d = '\t')
    let c := if c.is '#' then c.skipWhile fun d => !isBreak d else c
    if c.onBreak then
      advance fuel { s with cursor := c.skipLine, keyAllowed := s.keyAllowed || !s.inFlow }
    else { s with cursor := c }

def isIndicator (c : Char) : Bool :=
  ['-', '?', ':', ',', '[', ']', '\x7b', '\x7d', '#', '&', '*', '!', '|', '>', '\'', '"', '%', '@',
    graveAccent].contains c

def beginsPlain (s : Stream) (d : Char) : Bool :=
  let c := s.cursor
  !(c.blankAhead 0 || isIndicator d) || (d = '-' && !(c.ahead? 1).any isSpaceOrTab) ||
    (!s.inFlow && (d = '?' || d = ':') && !c.blankAhead 1)

def next (s : Stream) : Option Stream := do
  let s := advance (s.cursor.rest.length + 1) s
  let s ← s.dropExpired
  let s := s.unroll
  let c := s.cursor
  match c.char? with
  | none => s.endOfText
  | some d =>
    if c.column = 0 && d = '%' then s.directive
    else if c.onDocumentMarker then
      s.documentMarker (if d = '-' then .documentStart else .documentEnd)
    else if d = '[' then s.openFlow .flowSequenceStart
    else if d = '\x7b' then s.openFlow .flowMappingStart
    else if d = ']' then s.closeFlow .flowSequenceEnd
    else if d = '\x7d' then s.closeFlow .flowMappingEnd
    else if d = ',' then s.flowEntry
    else if d = '-' && c.blankAhead 1 then s.blockEntry
    else if d = '?' && (s.inFlow || c.blankAhead 1) then s.explicitKey
    else if d = ':' && (s.inFlow || c.blankAhead 1) then s.value
    else if d = '*' then s.anchor .alias
    else if d = '&' then s.anchor .anchor
    else if d = '!' then s.tag
    else if d = '|' && !s.inFlow then s.blockScalar true
    else if d = '>' && !s.inFlow then s.blockScalar false
    else if d = '\'' then s.quotedScalar true
    else if d = '"' then s.quotedScalar false
    else if s.beginsPlain d then s.plainScalar
    else none

/-- Reads tokens up to the end of the text; each takes up a character, the last one excepted. -/
def finish : Nat → Stream → Option (List Token)
  | 0, _ => none
  | fuel + 1, s =>
    if s.finished then some s.tokens.reverse
    else
      match s.next with
      | some s => finish fuel s
      | none => none

end Stream

def Token.ofChars? (text : List Char) : Option (List Token) :=
  if text.all isPrintable then Stream.finish (text.length + 2) (.start text) else none

end DeliveryPipeline.Yaml

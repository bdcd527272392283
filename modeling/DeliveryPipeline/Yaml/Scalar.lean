import DeliveryPipeline.Yaml.Cursor
import DeliveryPipeline.Json.Token

/-! # Scalars in YAML texts

The four ways in which a YAML text writes a scalar: plain, in single quotes, in double quotes and as
a block. Within the first three a line break between two lines becomes a blank and further ones stay;
a block keeps its breaks, or folds those between lines that are not indented further.

Every reader gives the characters of the scalar and the cursor behind it, or none if the text is
wrong there. The loops count down from the length of the text, which none of them exceeds.
-/

namespace DeliveryPipeline.Yaml

set_option autoImplicit false

/-- Blanks and breaks between two parts of a scalar, as far as they are read. -/
structure Gap where
  blanks : List Char
  /-- whether a line break has been met, or taken back by an escape -/
  broken : Bool
  firstBreak : List Char
  moreBreaks : List Char

def Gap.none : Gap := ⟨[], false, [], []⟩

def Gap.text (gap : Gap) : List Char :=
  if gap.broken then
    if gap.firstBreak.head? = some '\n' then
      if gap.moreBreaks.isEmpty then [' '] else gap.moreBreaks
    else gap.firstBreak ++ gap.moreBreaks
  else gap.blanks

/-- Reads blanks and breaks. Between the lines of a plain scalar no tab may stand left of its
indentation. -/
def readGap (tabLimit : Nat) : Nat → Gap → Cursor → Option (Gap × Cursor)
  | 0, _, _ => none
  | fuel + 1, gap, c =>
    match c.char? with
    | some d =>
      if isSpaceOrTab d then
        if gap.broken then
          if c.column < tabLimit && d = '\t' then none else readGap tabLimit fuel gap c.skip
        else readGap tabLimit fuel { gap with blanks := gap.blanks ++ [d] } c.skip
      else if isBreak d then
        if gap.broken then
          readGap tabLimit fuel { gap with moreBreaks := gap.moreBreaks ++ c.breakText } c.skipLine
        else readGap tabLimit fuel ⟨[], true, c.breakText, gap.moreBreaks⟩ c.skipLine
      else some (gap, c)
    | none => some (gap, c)

def endsPlain (flow : Bool) (c : Cursor) : Bool :=
  (c.is ':' && c.blankAhead 1) ||
    (flow && c.char?.any fun d => d = ',' || d = '[' || d = ']' || d = '\x7b' || d = '\x7d')

/-- A colon inside a plain scalar may not stand before an indicator of a flow collection. -/
def misplacedColon (flow : Bool) (c : Cursor) : Bool :=
  flow && c.is ':' && (c.ahead? 1).any fun d =>
    d = ',' || d = '?' || d = '[' || d = ']' || d = '\x7b' || d = '\x7d'

/-- Reads the characters of a plain scalar up to the next blank; a gap before them counts only if
there are any. -/
def readPlainRun (flow : Bool) : Nat → List Char → Cursor → Option (List Char × Cursor)
  | 0, _, _ => none
  | fuel + 1, run, c =>
    if c.blankAhead 0 then some (run, c)
    else if misplacedColon flow c then none
    else if endsPlain flow c then some (run, c)
    else
      match c.char? with
      | some d => readPlainRun flow fuel (d :: run) c.skip
      | none => some (run, c)

structure PlainScalar where
  text : List Char
  /-- whether a line break stands behind the scalar -/
  broken : Bool
  cursor : Cursor

/-- Reads a plain scalar; outside flow collections it ends before a line that is indented less. -/
def readPlain (flow : Bool) (indent : Nat) : Nat → List Char → Gap → Cursor → Option PlainScalar
  | 0, _, _, _ => none
  | fuel + 1, text, gap, c =>
    if c.onDocumentMarker || c.is '#' then some ⟨text, gap.broken, c⟩
    else do
      let (run, c) ← readPlainRun flow (c.rest.length + 1) [] c
      let (text, gap) := if run.isEmpty then (text, gap) else (text ++ gap.text ++ run.reverse, Gap.none)
      if !(c.onBlank || c.onBreak) then some ⟨text, gap.broken, c⟩
      else
        let (gap, c) ← readGap indent (c.rest.length + 1) gap c
        if !flow && c.column < indent then some ⟨text, gap.broken, c⟩
        else readPlain flow indent fuel text gap c

def escaped? (c : Char) : Option Char :=
  if c = '0' then some (Char.ofNat 0)
  else if c = 'a' then some '\x07'
  else if c = 'b' then some '\x08'
  else if c = 't' || c = '\t' then some '\t'
  else if c = 'n' then some '\n'
  else if c = 'v' then some '\x0b'
  else if c = 'f' then some '\x0c'
  else if c = 'r' then some '\r'
  else if c = 'e' then some '\x1b'
  else if c = ' ' || c = '"' || c = '/' || c = '\\' then some c
  else if c = 'N' then some (Char.ofNat 0x85)
  else if c = '_' then some (Char.ofNat 0xA0)
  else if c = 'L' then some (Char.ofNat 0x2028)
  else if c = 'P' then some (Char.ofNat 0x2029)
  else none

def escapeLength? (c : Char) : Option Nat :=
  if c = 'x' then some 2 else if c = 'u' then some 4 else if c = 'U' then some 8 else none

def hexValue (digits : List Char) : Option Nat :=
  digits.foldlM (fun n c => (Json.hexDigit? c).map fun d => n * 16 + d) 0

def readEscape (c : Cursor) : Option (Char × Cursor) := do
  let letter ← c.char?
  match escapeLength? letter with
  | some count =>
    let digits := (c.rest.drop 1).take count
    if digits.length < count then none
    else
      let n ← hexValue digits
      if (0xD800 ≤ n && n ≤ 0xDFFF) || 0x10FFFF < n then none
      else some (Char.ofNat n, c.skips (count + 1))
  | none => (escaped? letter).map fun d => (d, c.skip)

/-- Reads the characters of a quoted scalar up to a blank or its closing quote. The flag says whether
an escaped line break ended them. -/
def readQuotedRun (single : Bool) : Nat → List Char → Cursor → Option (List Char × Bool × Cursor)
  | 0, _, _ => none
  | fuel + 1, run, c =>
    if c.blankAhead 0 then some (run, false, c)
    else if single && c.is '\'' && c.aheadIs 1 '\'' then
      readQuotedRun single fuel ('\'' :: run) (c.skips 2)
    else if c.is (if single then '\'' else '"') then some (run, false, c)
    else if !single && c.is '\\' then
      if (c.ahead? 1).any isBreak then some (run, true, c.skip.skipLine)
      else do
        let (d, c) ← readEscape c.skip
        readQuotedRun single fuel (d :: run) c
    else
      match c.char? with
      | some d => readQuotedRun single fuel (d :: run) c.skip
      | none => none

/-- Reads a quoted scalar after its opening quote, with the closing quote. -/
def readQuoted (single : Bool) : Nat → List Char → Cursor → Option (List Char × Cursor)
  | 0, _, _ => none
  | fuel + 1, text, c =>
    if c.onDocumentMarker || c.atEnd then none
    else do
      let (run, escapedBreak, c) ← readQuotedRun single (c.rest.length + 1) [] c
      let text := text ++ run.reverse
      if c.is (if single then '\'' else '"') then some (text, c.skip)
      else
        let (gap, c) ← readGap 0 (c.rest.length + 1) ⟨[], escapedBreak, [], []⟩ c
        readQuoted single fuel (text ++ gap.text) c

inductive Chomping where
  | strip
  | clip
  | keep
deriving DecidableEq

/-- Reads empty lines and the indentation of the next line of a block scalar. With no indentation
given, it looks for the deepest one on the way. -/
def readIndentation (indent : Nat) : Nat → Nat → List Char → Cursor →
    Option (Nat × List Char × Cursor)
  | 0, _, _, _ => none
  | fuel + 1, deepest, breaks, c =>
    let spaces := (c.rest.takeWhile (· = ' ')).length
    let c := c.skips (if indent = 0 then spaces else min spaces (indent - c.column))
    let deepest := max deepest c.column
    if (indent = 0 || c.column < indent) && c.is '\t' then none
    else if c.onBreak then readIndentation indent fuel deepest (breaks ++ c.breakText) c.skipLine
    else some (deepest, breaks, c)

def readBlockLines (literal : Bool) (indent : Nat) :
    Nat → List Char → List Char → List Char → Bool → Cursor →
      Option (List Char × List Char × List Char × Cursor)
  | 0, _, _, _, _, _ => none
  | fuel + 1, text, lastBreak, breaks, indented, c =>
    if c.column = indent && !c.atEnd then do
      let blank := c.onBlank
      let joined :=
        if !literal && lastBreak.head? = some '\n' && !indented && !blank then
          if breaks.isEmpty then [' '] else []
        else lastBreak
      let line := c.rest.takeWhile fun d => !isBreak d
      let c := c.skips line.length
      let text := text ++ joined ++ breaks ++ line
      let (_, breaks, after) ← readIndentation indent (c.rest.length + 1) 0 [] c.skipLine
      readBlockLines literal indent fuel text c.breakText breaks blank after
    else some (text, lastBreak, breaks, c)

def readBlockHeader (c : Cursor) : Option (Chomping × Nat × Cursor) :=
  let chomping (c : Cursor) : Chomping × Cursor :=
    if c.is '+' then (.keep, c.skip) else if c.is '-' then (.strip, c.skip) else (.clip, c)
  let indentation (c : Cursor) : Option (Nat × Cursor) :=
    match c.char? with
    | some d =>
      if d = '0' then none
      else if '1' ≤ d ∧ d ≤ '9' then some (d.toNat - '0'.toNat, c.skip)
      else some (0, c)
    | none => some (0, c)
  if c.is '+' || c.is '-' then do
    let (mode, c) := chomping c
    let (increment, c) ← indentation c
    some (mode, increment, c)
  else do
    let (increment, c) ← indentation c
    if increment = 0 then some (.clip, 0, c)
    else
      let (mode, c) := chomping c
      some (mode, increment, c)

def finishLine (c : Cursor) : Option Cursor :=
  let c := c.skipWhile isSpaceOrTab
  let c := if c.is '#' then c.skipWhile fun d => !isBreak d else c
  if c.onBreakOrEnd then some c.skipLine else none

/-- Reads a block scalar after its sign, within a block that is indented to `outer` (none at the
outermost level). -/
def readBlock (literal : Bool) (outer : Option Nat) (c : Cursor) : Option (List Char × Cursor) := do
  let (mode, increment, c) ← readBlockHeader c
  let c ← finishLine c
  let given := if increment = 0 then 0 else outer.getD 0 + increment
  let (deepest, breaks, c) ← readIndentation given (c.rest.length + 1) 0 [] c
  let indent :=
    if given = 0 then max (max deepest (match outer with | some n => n + 1 | none => 0)) 1 else given
  let (text, lastBreak, breaks, c) ←
    readBlockLines literal indent (c.rest.length + 1) [] [] breaks false c
  match mode with
  | .strip => some (text, c)
  | .clip => some (text ++ lastBreak, c)
  | .keep => some (text ++ lastBreak ++ breaks, c)

end DeliveryPipeline.Yaml

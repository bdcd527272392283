import DeliveryPipeline.Yaml.Token

/-! # YAML events

The structure of a token stream: documents, collections and scalars in the order of the text. The
grammar is a machine with a stack of places to return to; each step makes one event.
-/

namespace DeliveryPipeline.Yaml

set_option autoImplicit false

structure Properties where
  anchor : Option String
  tag : Option Bytes
deriving DecidableEq, Repr

inductive Event where
  | documentStart
  | documentEnd
  | alias (name : String)
  | scalar (properties : Properties) (text : String) (plain : Bool)
  | sequenceStart (properties : Properties)
  | sequenceEnd
  | mappingStart (properties : Properties)
  | mappingEnd
deriving DecidableEq, Repr

/-- Where in the grammar the machine is. -/
inductive Place where
  | streamStart
  | documentStart
  | documentContent
  | documentEnd
  | blockNode
  | blockSequence
  | indentlessSequence
  | blockMappingKey
  | blockMappingValue
  | flowSequence (first : Bool)
  | flowPairKey
  | flowPairValue
  | flowPairEnd
  | flowMappingKey (first : Bool)
  | flowMappingValue
  | flowMappingNoValue
deriving DecidableEq, Repr

structure Machine where
  tokens : List Token
  place : Place
  returns : List Place
  /-- the meaning of tag handles in the current document -/
  handles : List (Bytes × Bytes)

/-- An event and the machine after it, no event at the end of the stream, or none for an error. -/
abbrev Outcome := Option (Option Event × Machine)

namespace Machine

def noProperties : Properties := ⟨none, none⟩

def emit (m : Machine) (event : Event) : Outcome := some (some event, m)

def skip (m : Machine) : Machine := { m with tokens := m.tokens.drop 1 }

def goto (m : Machine) (place : Place) : Machine := { m with place := place }

def back (m : Machine) : Machine :=
  match m.returns with
  | place :: outer => { m with place := place, returns := outer }
  | [] => m

def emptyScalar (m : Machine) (next : Place) : Outcome :=
  (m.goto next).emit (.scalar noProperties "" true)

def resolveTag (m : Machine) (handle suffix : Bytes) : Option Bytes :=
  if handle.isEmpty then some suffix else (m.handles.lookup handle).map (· ++ suffix)

def properties (m : Machine) : Option (Properties × Machine) :=
  match m.tokens with
  | .anchor name :: .tag handle suffix :: rest | .tag handle suffix :: .anchor name :: rest =>
    (m.resolveTag handle suffix).map fun tag => (⟨some name, some tag⟩, { m with tokens := rest })
  | .anchor name :: rest => some (⟨some name, none⟩, { m with tokens := rest })
  | .tag handle suffix :: rest =>
    (m.resolveTag handle suffix).map fun tag => (⟨none, some tag⟩, { m with tokens := rest })
  | _ => some (noProperties, m)

/-- Reads a node and returns to a place after it. Block collections count only in a block; entries
without a collection around them count where a mapping's key or value stands. -/
def node (m : Machine) (block indentless : Bool) (after : Place) : Outcome := do
  let m := { m with returns := after :: m.returns }
  match m.tokens with
  | .alias name :: _ => m.skip.back.emit (.alias name)
  | _ =>
    let (properties, m) ← m.properties
    match m.tokens with
    | .blockEntry :: _ =>
      if indentless then (m.goto .indentlessSequence).emit (.sequenceStart properties)
      else if properties = noProperties then none
      else m.back.emit (.scalar properties "" true)
    | .scalar text plain :: _ =>
      let properties :=
        if properties.tag = some (bytesOf "!") then { properties with tag := none } else properties
      m.skip.back.emit (.scalar properties text plain)
    | .flowSequenceStart :: _ => (m.skip.goto (.flowSequence true)).emit (.sequenceStart properties)
    | .flowMappingStart :: _ => (m.skip.goto (.flowMappingKey true)).emit (.mappingStart properties)
    | token :: _ =>
      if block && token = .blockSequenceStart then
        (m.skip.goto .blockSequence).emit (.sequenceStart properties)
      else if block && token = .blockMappingStart then
        (m.skip.goto .blockMappingKey).emit (.mappingStart properties)
      else if properties = noProperties then none
      else m.back.emit (.scalar properties "" true)
    | [] => none

def directives : List Token → Bool → List (Bytes × Bytes) → Option (List (Bytes × Bytes) × List Token)
  | .version major minor :: rest, versioned, handles =>
    if versioned || major ≠ 1 || (minor ≠ 1 && minor ≠ 2) then none
    else directives rest true handles
  | .tagDirective handle tagStart :: rest, versioned, handles =>
    if handles.any fun (h, _) => h = handle then none
    else directives rest versioned (handles ++ [(handle, tagStart)])
  | tokens, _, handles => some (handles, tokens)

def commonHandles : List (Bytes × Bytes) :=
  [(bytesOf "!", bytesOf "!"), (bytesOf "!!", bytesOf "tag:yaml.org,2002:")]

def explicitDocument (m : Machine) : Outcome := do
  let (handles, tokens) ← directives m.tokens false []
  match tokens with
  | .documentStart :: rest =>
    emit ⟨rest, .documentContent, .documentEnd :: m.returns, handles ++ commonHandles⟩ .documentStart
  | _ => none

def startDocument (m : Machine) (first : Bool) : Outcome :=
  let m := if first then m
    else { m with tokens := m.tokens.dropWhile fun token => token = .documentEnd }
  match m.tokens with
  | .streamEnd :: _ => some (none, m)
  | .version .. :: _ | .tagDirective .. :: _ | .documentStart :: _ => m.explicitDocument
  | _ =>
    if first then
      emit { m with place := .blockNode, returns := .documentEnd :: m.returns,
                    handles := commonHandles } .documentStart
    else m.explicitDocument

/-- Whether a node is missing because one of these tokens comes next. -/
def nextIs (m : Machine) (tokens : List Token) : Bool :=
  match m.tokens with
  | token :: _ => tokens.contains token
  | [] => true

def flowSequence (m : Machine) (first : Bool) : Outcome :=
  let m? : Option Machine :=
    if first || m.nextIs [.flowSequenceEnd] then some m
    else if m.nextIs [.flowEntry] then some m.skip
    else none
  match m? with
  | none => none
  | some m =>
    match m.tokens with
    | .flowSequenceEnd :: _ => m.skip.back.emit .sequenceEnd
    | .key :: _ => (m.skip.goto .flowPairKey).emit (.mappingStart noProperties)
    | _ => m.node false false (.flowSequence false)

def flowMapping (m : Machine) (first : Bool) : Outcome :=
  let m? : Option Machine :=
    if first || m.nextIs [.flowMappingEnd] then some m
    else if m.nextIs [.flowEntry] then some m.skip
    else none
  match m? with
  | none => none
  | some m =>
    match m.tokens with
    | .flowMappingEnd :: _ => m.skip.back.emit .mappingEnd
    | .key :: _ =>
      let m := m.skip
      if m.nextIs [.value, .flowEntry, .flowMappingEnd] then m.emptyScalar .flowMappingValue
      else m.node false false .flowMappingValue
    | _ => m.node false false .flowMappingNoValue

def pairValue (m : Machine) (ends : List Token) (after : Place) : Outcome :=
  if m.nextIs [.value] then
    let m := m.skip
    if m.nextIs ends then m.emptyScalar after else m.node false false after
  else m.emptyScalar after

def step (m : Machine) : Outcome :=
  match m.place with
  | .streamStart => m.startDocument true
  | .documentStart => m.startDocument false
  | .documentContent =>
    match m.tokens with
    | .version .. :: _ | .tagDirective .. :: _ | .documentStart :: _ | .documentEnd :: _
    | .streamEnd :: _ => m.back.emit (.scalar noProperties "" true)
    | _ => m.back.node true false m.back.place
  | .documentEnd =>
    let m := if m.nextIs [.documentEnd] then m.skip else m
    (m.goto .documentStart).emit .documentEnd
  | .blockNode => m.back.node true false m.back.place
  | .blockSequence =>
    if m.nextIs [.blockEntry] then
      let m := m.skip
      if m.nextIs [.blockEntry, .blockEnd] then m.emptyScalar .blockSequence
      else m.node true false .blockSequence
    else if m.nextIs [.blockEnd] then m.skip.back.emit .sequenceEnd
    else none
  | .indentlessSequence =>
    if m.nextIs [.blockEntry] then
      let m := m.skip
      if m.nextIs [.blockEntry, .key, .value, .blockEnd] then m.emptyScalar .indentlessSequence
      else m.node true false .indentlessSequence
    else m.back.emit .sequenceEnd
  | .blockMappingKey =>
    if m.nextIs [.key] then
      let m := m.skip
      if m.nextIs [.key, .value, .blockEnd] then m.emptyScalar .blockMappingValue
      else m.node true true .blockMappingValue
    else if m.nextIs [.blockEnd] then m.skip.back.emit .mappingEnd
    else none
  | .blockMappingValue =>
    if m.nextIs [.value] then
      let m := m.skip
      if m.nextIs [.key, .value, .blockEnd] then m.emptyScalar .blockMappingKey
      else m.node true true .blockMappingKey
    else m.emptyScalar .blockMappingKey
  | .flowSequence first => m.flowSequence first
  | .flowPairKey =>
    if m.nextIs [.value, .flowEntry, .flowSequenceEnd] then m.skip.emptyScalar .flowPairValue
    else m.node false false .flowPairValue
  | .flowPairValue => m.pairValue [.flowEntry, .flowSequenceEnd] .flowPairEnd
  | .flowPairEnd => (m.goto (.flowSequence false)).emit .mappingEnd
  | .flowMappingKey first => m.flowMapping first
  | .flowMappingValue => m.pairValue [.flowEntry, .flowMappingEnd] (.flowMappingKey false)
  | .flowMappingNoValue => m.emptyScalar (.flowMappingKey false)

def run : Nat → Machine → Option (List Event)
  | 0, _ => none
  | fuel + 1, m =>
    match m.step with
    | none => none
    | some (none, _) => some []
    | some (some event, m) => (run fuel m).map (event :: ·)

end Machine

/-- The events of a token stream. Each token makes at most four of them. -/
def Event.ofTokens? (tokens : List Token) : Option (List Event) :=
  Machine.run (4 * tokens.length + 8) ⟨tokens, .streamStart, [], []⟩

end DeliveryPipeline.Yaml

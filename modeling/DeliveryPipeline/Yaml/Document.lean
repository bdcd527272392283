import DeliveryPipeline.Yaml.Node
import DeliveryPipeline.Yaml.Event
import DeliveryPipeline.Yaml.Stream

/-! # YAML documents

The nodes of a text's documents. An alias stands for the node at an earlier anchor; nodes may nest
128 deep, a document may follow at most a hundred aliases per event, and no mapping may have one key
twice. A text with a problem anywhere has no documents at all.
-/

namespace DeliveryPipeline.Yaml

set_option autoImplicit false

/-- The events of one document, and the places that its aliases lead to. An alias is given by the
number of its anchor. -/
structure Document where
  events : Array Event
  /-- the number that each alias refers to, by the place of the alias -/
  references : List (Nat × Nat)
  /-- the place of each anchor, by its number, the latest first -/
  targets : List (Nat × Nat)
  /-- the number of each anchor's name, the latest first -/
  names : List (String × Nat)

namespace Document

def empty : Document := ⟨#[], [], [], []⟩

def nameCount (d : Document) : Nat := (d.names.map (·.1)).eraseDups.length

def Event.anchor? : Event → Option String
  | .scalar p _ _ | .sequenceStart p | .mappingStart p => p.anchor
  | _ => none

/-- Adds an event; an alias must name an anchor in front of it. A new anchor gets the number of names
before it, so one that takes up an old name may later lose its place to another. -/
def add (d : Document) (event : Event) : Option Document :=
  let place := d.events.size
  match event with
  | .alias name =>
    (d.names.lookup name).map fun number =>
      { d with events := d.events.push event, references := (place, number) :: d.references }
  | event =>
    match Event.anchor? event with
    | some name =>
      let number := d.nameCount
      some { d with events := d.events.push event, names := (name, number) :: d.names,
                    targets := (number, place) :: d.targets }
    | none => some { d with events := d.events.push event }

def target? (d : Document) (place : Nat) : Option Nat :=
  (d.references.lookup place).bind fun number => d.targets.lookup number

/-- The events of a stream, document by document. -/
def split : List Event → Document → Option (List Document)
  | [], _ => some []
  | .documentStart :: rest, _ => split rest empty
  | .documentEnd :: rest, d => (split rest empty).map (d :: ·)
  | event :: rest, d => (d.add event).bind (split rest)

def aliasLimit (d : Document) : Nat := 100 * d.events.size

end Document

def localMark : UInt8 := 0x21

/-- A local tag's name: what follows its exclamation mark, if that is a text. -/
def localTag? : Option Bytes → Option String
  | some (mark :: name) =>
    if mark = localMark then String.fromUTF8? ⟨name.toArray⟩ else none
  | _ => none

structure Progress where
  place : Nat
  followed : Nat

/-- What is being read: a node, the rest of a sequence, or the rest of a mapping. -/
inductive Task where
  | node (tagRead : Bool)
  | items (read : List Node)
  | entries (read : List (Node × Node))

/-- Reads the task's node, beginning at the event of the given progress. The nodes nest at most
`depth` more levels. -/
def Document.read (d : Document) : Nat → Nat → Task → Progress → Option (Node × Progress)
  | 0, _, _, _ => none
  | fuel + 1, depth, .node tagRead, p => do
    let event ← d.events[p.place]?
    let next : Progress := { p with place := p.place + 1 }
    let tag : Option Bytes := match event with
      | .scalar properties _ _ | .sequenceStart properties | .mappingStart properties => properties.tag
      | _ => none
    match if tagRead then none else localTag? tag with
    | some name =>
      if name.isEmpty then none
      else
        let (node, p) ← d.read fuel depth (.node true) p
        some (.tagged name node, p)
    | none =>
      match event with
      | .alias _ =>
        let target ← d.target? p.place
        if d.aliasLimit < p.followed + 1 then none
        else
          let (node, after) ← d.read fuel depth (.node false) ⟨target, p.followed + 1⟩
          some (node, { next with followed := after.followed })
      | .scalar properties text plain =>
        let node ← match if tagRead then none else properties.tag with
          | some tag =>
            if plain && tag.head? = some localMark then Node.ofPlain? text else Node.ofTagged? tag text
          | none => if plain then Node.ofPlain? text else some (.text text)
        some (node, next)
      | .sequenceStart _ =>
        match depth with
        | 0 => none
        | depth + 1 => d.read fuel depth (.items []) next
      | .mappingStart _ =>
        match depth with
        | 0 => none
        | depth + 1 => d.read fuel depth (.entries []) next
      | _ => none
  | fuel + 1, depth, .items read, p =>
    if d.events[p.place]? = some .sequenceEnd then
      some (.sequence read.reverse, { p with place := p.place + 1 })
    else do
      let (node, p) ← d.read fuel depth (.node false) p
      d.read fuel depth (.items (node :: read)) p
  | fuel + 1, depth, .entries read, p =>
    if d.events[p.place]? = some .mappingEnd then
      some (.mapping read.reverse, { p with place := p.place + 1 })
    else do
      let (key, p) ← d.read fuel depth (.node false) p
      if read.any fun (k, _) => k.same key then none
      else
        let (value, p) ← d.read fuel depth (.node false) p
        d.read fuel depth (.entries ((key, value) :: read)) p

def nestingLimit : Nat := 128

/-- The node of a document. No step is taken twice for one event without an alias in between. -/
def Document.node? (d : Document) : Option Node :=
  (d.read (3 * (d.events.size + 1) * (d.aliasLimit + 2)) nestingLimit (.node false) ⟨0, 0⟩).map (·.1)

/-- The documents of a text. A text without any is one document, which is null. -/
def Node.documents? (text : List Char) : Option (List Node) := do
  let tokens ← Token.ofChars? text
  let events ← Event.ofTokens? tokens
  match ← Document.split events .empty with
  | [] => some [.null]
  | documents => documents.mapM Document.node?

end DeliveryPipeline.Yaml

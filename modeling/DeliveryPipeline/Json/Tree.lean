import DeliveryPipeline.Json.Token

/-! # Trees of JSON texts

The values of a text in their order, as far as the text is well formed. Where it is not, the tree
holds `broken` in the place of the missing value and marks the lists and records around it as not
closed. So a reader that walks a tree from left to right meets the problems of the text in their
order, and nothing behind the first one matters to it.

A container nested more than `depthLimit` deep is wrapped in `deep`: it can be skipped, not entered.
-/

namespace DeliveryPipeline.Json

set_option autoImplicit false

/-- The keys of a record are trees too: a text, an unreadable text, or any other value, which is
then an error of form. -/
inductive Tree where
  | null
  | bool (value : Bool)
  | number (value : Number)
  | text (value : String)
  | list (items : List Tree) (closed : Bool)
  | record (fields : List (Tree × Tree)) (closed : Bool)
  | unreadable
  | broken
  | deep (inner : Tree)
deriving Inhabited

def depthLimit : Nat := 127

/-- A container that is open, with what it holds so far in reverse; a record waits for the value of
its last key. -/
inductive Frame where
  | list (items : List Tree)
  | record (fields : List (Tree × Tree)) (key : Tree)

inductive Expectation where
  | value
  | firstItem
  | itemEnd
  | firstKey (fields : List (Tree × Tree))
  | nextKey (fields : List (Tree × Tree))
  | colon (fields : List (Tree × Tree)) (key : Tree)
  | fieldEnd (fields : List (Tree × Tree))

inductive State where
  | reading (frames : List Frame) (next : Expectation)
  | finished (tree : Tree) (clean : Bool)

def atDepth (depth : Nat) (tree : Tree) : Tree :=
  if depthLimit < depth then .deep tree else tree

/-- Hands a complete value to the container around it. -/
def deliver (frames : List Frame) (tree : Tree) : State :=
  match frames with
  | [] => .finished tree true
  | .list items :: outer => .reading (.list (tree :: items) :: outer) .itemEnd
  | .record fields key :: outer => .reading outer (.fieldEnd ((key, tree) :: fields))

/-- Closes all open containers around the place where the text breaks off. -/
def abandon : List Frame → Tree → Tree
  | [], tree => tree
  | .list items :: outer, tree =>
    abandon outer (atDepth (outer.length + 1) (.list (tree :: items).reverse false))
  | .record fields key :: outer, tree =>
    abandon outer (atDepth (outer.length + 1) (.record ((key, tree) :: fields).reverse false))

/-- The list that ends here without its bracket. -/
def brokenList (frames : List Frame) : Tree :=
  match frames with
  | .list items :: outer => abandon outer (atDepth (outer.length + 1) (.list items.reverse false))
  | frames => abandon frames .broken

def brokenRecord (frames : List Frame) (fields : List (Tree × Tree)) : Tree :=
  abandon frames (atDepth (frames.length + 1) (.record fields.reverse false))

def Token.scalar? : Token → Option Tree
  | .null => some .null
  | .bool b => some (.bool b)
  | .number n => some (.number n)
  | .text s => some (.text s)
  | .unreadable => some .unreadable
  | _ => none

def beginValue (frames : List Frame) (token : Token) : State :=
  match token with
  | .openList => .reading (.list [] :: frames) .firstItem
  | .openRecord => .reading frames (.firstKey [])
  | token =>
    match token.scalar? with
    | some tree => deliver frames tree
    | none => .finished (abandon frames .broken) true

/-- Reads the token in the place of a key. -/
def readKey (frames : List Frame) (fields : List (Tree × Tree)) (token : Token) : State :=
  match token with
  | .text s => .reading frames (.colon fields (.text s))
  | .unreadable => .reading frames (.colon fields .unreadable)
  | token =>
    let stray := match token with
      | .openList => .list [] false
      | .openRecord => .record [] false
      | token => token.scalar?.getD .broken
    .finished (brokenRecord frames ((stray, .broken) :: fields)) true

def step : State → Token → State
  | .finished tree _, _ => .finished tree false
  | .reading frames next, token =>
    match next, token with
    | .value, token => beginValue frames token
    | .firstItem, .closeList | .itemEnd, .closeList =>
      match frames with
      | .list items :: outer =>
        deliver outer (atDepth (outer.length + 1) (.list items.reverse true))
      | frames => .finished (abandon frames .broken) true
    | .firstItem, token => beginValue frames token
    | .itemEnd, .comma => .reading frames .value
    | .itemEnd, _ => .finished (brokenList frames) true
    | .firstKey fields, .closeRecord | .fieldEnd fields, .closeRecord =>
      deliver frames (atDepth (frames.length + 1) (.record fields.reverse true))
    | .firstKey fields, token | .nextKey fields, token => readKey frames fields token
    | .fieldEnd fields, .comma => .reading frames (.nextKey fields)
    | .fieldEnd fields, _ => .finished (brokenRecord frames fields) true
    | .colon fields key, .colon => .reading (.record fields key :: frames) .value
    | .colon fields key, _ =>
      .finished (brokenRecord frames ((key, .broken) :: fields)) true

def State.tree : State → Tree
  | .finished tree _ => tree
  | .reading frames .value => abandon frames .broken
  | .reading frames .firstItem | .reading frames .itemEnd => brokenList frames
  | .reading frames (.firstKey fields) | .reading frames (.nextKey fields)
  | .reading frames (.fieldEnd fields) => brokenRecord frames fields
  | .reading frames (.colon fields key) => brokenRecord frames ((key, .broken) :: fields)

def State.clean : State → Bool
  | .finished _ clean => clean
  | .reading .. => true

/-- A text's tree, and whether nothing but blanks stands behind its value. -/
structure Document where
  root : Tree
  clean : Bool

def Document.ofChars (s : List Char) : Document :=
  let state := (Token.ofChars s).foldl step (.reading [] .value)
  ⟨state.tree, state.clean⟩

mutual

def Tree.ofJson : Json → Tree
  | .null => .null
  | .bool b => .bool b
  | .number n => .number n
  | .string s => .text s
  | .array items => .list (Tree.ofItems items) true
  | .object fields => .record (Tree.ofEntries fields) true

def Tree.ofItems : List Json → List Tree
  | [] => []
  | item :: rest => Tree.ofJson item :: Tree.ofItems rest

def Tree.ofEntries : List (String × Json) → List (Tree × Tree)
  | [] => []
  | (key, value) :: rest => (.text key, Tree.ofJson value) :: Tree.ofEntries rest

end

end DeliveryPipeline.Json

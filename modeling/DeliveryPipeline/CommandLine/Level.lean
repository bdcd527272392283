import DeliveryPipeline.CommandLine.Argument

/-! # Levels of a command line

A command line has levels: at each one stand options and positional arguments, until a word names the
next level. Arguments are read from left to right. A value that follows its option, or stands alone, is
checked when the next argument is taken up or the level ends; a value that is attached to its option is
checked at once. After a double dash everything is positional.
-/

namespace DeliveryPipeline.CommandLine

set_option autoImplicit false

/-- An argument that has a meaning at a level. -/
structure Parameter where
  /-- what its value is called -/
  valueName : String
  /-- the word of an option, without dashes; positional arguments have none -/
  long : Option String
  short : Option Char
  required : Bool
  repeatable : Bool
  about : String
  read : String → Except ArgumentError Value

namespace Parameter

def positional (valueName : String) (read : String → Except ArgumentError Value) : Parameter :=
  ⟨valueName, none, none, true, false, "", read⟩

def label (p : Parameter) : String :=
  match p.long with
  | some word => "--" ++ word ++ " <" ++ p.valueName ++ ">"
  | none => "<" ++ p.valueName ++ ">"

end Parameter

inductive Misuse where
  | unexpected (argument : String)
  | noValue (label : String)
  | repeated (label : String)
  | incomplete
  | noCommand
deriving DecidableEq, Repr

def Misuse.message : Misuse → String
  | .unexpected argument => "unexpected argument '" ++ argument ++ "' found"
  | .noValue label => "a value is required for '" ++ label ++ "' but none was supplied"
  | .repeated label => "the argument '" ++ label ++ "' cannot be used multiple times"
  | .incomplete => "a required argument was not provided"
  | .noCommand => "a subcommand is required but one was not provided"

inductive Rejection where
  | help
  | misuse (cause : Misuse)
  | invalidValue (value label : String) (cause : ArgumentError)
deriving DecidableEq, Repr

abbrev Values := List (String × Value)

inductive Token where
  | escape
  | long (word : String) (attached : Option String)
  | short (c : Char) (attached : String)
  | plain
deriving DecidableEq, Repr

def Token.ofArgument (argument : String) : Token :=
  match argument.toList with
  | ['-', '-'] => .escape
  | '-' :: '-' :: rest =>
    match Text.cut '=' rest with
    | some (word, value) => .long (.ofList word) (some (.ofList value))
    | none => .long (.ofList rest) none
  | '-' :: c :: rest => .short c (.ofList rest)
  | _ => .plain

/-- The value attached to a short option, with or without an equals sign. -/
def attachedValue (attached : String) : Option String :=
  match attached.toList with
  | [] => none
  | '=' :: value => some (.ofList value)
  | value => some (.ofList value)

/-- How far the reading of a level has come. -/
structure Reading where
  values : Values
  /-- a parameter whose value is not checked yet, with the value if there is one -/
  pending : Option (Parameter × Option String)
  positionals : List Parameter
  escaped : Bool

namespace Reading

def start (parameters : List Parameter) : Reading :=
  ⟨[], none, parameters.filter (·.long.isNone), false⟩

/-- Whether the next argument is the value of an option. -/
def isExpecting (state : Reading) : Bool :=
  match state.pending with
  | some (_, none) => true
  | _ => false

def accept (state : Reading) (p : Parameter) (value : String) : Except Rejection Reading :=
  if !p.repeatable && (state.values.lookup p.valueName).isSome then
    .error (.misuse (.repeated p.label))
  else
    match p.read value with
    | .ok v => .ok { state with values := state.values ++ [(p.valueName, v)], pending := none }
    | .error e => .error (.invalidValue value p.label e)

def settle (state : Reading) : Except Rejection Reading :=
  match state.pending with
  | none => .ok state
  | some (p, some value) => state.accept p value
  | some (p, none) => .error (.misuse (.noValue p.label))

def takeOption (state : Reading) (p : Parameter) (attached : Option String) :
    Except Rejection Reading := do
  let state ← state.settle
  match attached with
  | some value => state.accept p value
  | none => .ok { state with pending := some (p, none) }

def takePositional (state : Reading) (argument : String) : Except Rejection Reading :=
  match state.positionals with
  | [] => .error (.misuse (.unexpected argument))
  | p :: rest => do
    let state ← state.settle
    .ok { state with pending := some (p, some argument), positionals := rest }

/-- Stops at a request for help, unless something before it is wrong. -/
def askHelp (state : Reading) : Except Rejection Reading := do
  let _ ← state.settle
  .error .help

def take (parameters : List Parameter) (state : Reading) (argument : String) :
    Except Rejection Reading :=
  let unexpected : Except Rejection Reading := .error (.misuse (.unexpected argument))
  match if state.escaped then .plain else Token.ofArgument argument with
  | .escape => .ok { state with escaped := true }
  | .long "help" none => state.askHelp
  | .short 'h' _ => state.askHelp
  | .long word attached =>
    match parameters.find? fun p => p.long = some word with
    | some p => state.takeOption p attached
    | none => unexpected
  | .short c attached =>
    match parameters.find? fun p => p.short = some c with
    | some p => state.takeOption p (attachedValue attached)
    | none => unexpected
  | .plain =>
    match state.pending with
    | some (p, none) =>
      if state.escaped then state.takePositional argument
      else .ok { state with pending := some (p, some argument) }
    | _ => state.takePositional argument

end Reading

/-- Reads the arguments of a level up to the name of the next level, if there is one; gives what was
read, and that name with the arguments after it. -/
def scan (parameters : List Parameter) (members : List String) :
    Reading → List String → Except Rejection (Reading × Option (String × List String))
  | state, [] => .ok (state, none)
  | state, argument :: rest =>
    if !state.escaped && !state.isExpecting && members.contains argument then
      .ok (state, some (argument, rest))
    else do
      let state ← state.take parameters argument
      scan parameters members state rest

end DeliveryPipeline.CommandLine

import DeliveryPipeline.Message
import DeliveryPipeline.Text.Integer

/-! # Arguments

How a single argument of a command line is read: as a text, as a number, as an app to build, written
`ID:BRANCH` or `ID:BRANCH:COMMAND`, or as a variable, written `KEY=VALUE`.
-/

namespace DeliveryPipeline

set_option autoImplicit false

inductive ArgumentError where
  | integer (cause : Text.IntegerError)
  | indexRange (n : Int64)
  | noBranch (argument : String)
  | badAppId (text : String)
  | noKey (argument : String)
deriving DecidableEq, Repr

def ArgumentError.message : ArgumentError → String
  | .integer cause => cause.message
  | .indexRange n => Text.ofInt64 n ++ " is not in -2147483648..=2147483647"
  | .noBranch argument => "expected ID:BRANCH[:COMMAND], got " ++ argument
  | .badAppId text => "invalid app id: " ++ text
  | .noKey argument => "expected KEY=VALUE, got " ++ argument

/-- Reads an app to build. Only the first two colons separate, so a command may hold more of them. -/
def BuildApp.ofArgument (argument : String) : Except ArgumentError BuildApp :=
  match Text.cut ':' argument.toList with
  | none => .error (.noBranch argument)
  | some (id, rest) =>
    let (branch, command) := match Text.cut ':' rest with
      | some (branch, command) => (branch, some (String.ofList command))
      | none => (rest, none)
    if branch.isEmpty then .error (.noBranch argument)
    else
      match Text.readInt64 (.ofList id) with
      | .ok n => .ok ⟨n, .ofList branch, "", command⟩
      | .error _ => .error (.badAppId (.ofList id))

/-- Reads a variable. Only the first equals sign separates. -/
def Variable.ofArgument (argument : String) : Except ArgumentError Variable :=
  match Text.cut '=' argument.toList with
  | some (c :: key, value) => .ok ⟨.ofList (c :: key), .ofList value⟩
  | _ => .error (.noKey argument)

namespace CommandLine

inductive Value where
  | text (s : String)
  | integer (n : Int64)
  | index (n : Int32)
  | app (a : BuildApp)
  | variable (v : Variable)
deriving DecidableEq, Repr

namespace Value

def ofText (s : String) : Except ArgumentError Value := .ok (.text s)

def ofInteger (s : String) : Except ArgumentError Value :=
  match Text.readInt64 s with
  | .ok n => .ok (.integer n)
  | .error e => .error (.integer e)

def ofIndex (s : String) : Except ArgumentError Value :=
  match Text.readInt64 s with
  | .ok n => if n.toInt32.toInt64 = n then .ok (.index n.toInt32) else .error (.indexRange n)
  | .error e => .error (.integer e)

def ofApp (s : String) : Except ArgumentError Value := (BuildApp.ofArgument s).map app

def ofVariable (s : String) : Except ArgumentError Value := (Variable.ofArgument s).map .variable

end Value

end CommandLine

end DeliveryPipeline

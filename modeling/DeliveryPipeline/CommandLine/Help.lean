import DeliveryPipeline.CommandLine.Grammar

/-! # Help texts

The text that explains a place in the command line: what it is for, how it is written, and the words or
parameters that may stand there, in two columns.
-/

namespace DeliveryPipeline.CommandLine

set_option autoImplicit false

structure Entry where
  term : String
  about : String

namespace Entry

def spaces (n : Nat) : String := .ofList (List.replicate n ' ')

/-- The entries with their explanations beside them. -/
def columns (entries : List Entry) : List String :=
  let width := (entries.map (·.term.length)).foldl max 0
  entries.map fun e => "  " ++ e.term ++ spaces (width - e.term.length + 2) ++ e.about

/-- The entries with their explanations below them. -/
def stacked (entries : List Entry) : List String :=
  entries.flatMap fun e => ["  " ++ e.term, spaces 10 ++ e.about]

end Entry

namespace Parameter

def entry (p : Parameter) : Entry :=
  match p.long, p.short with
  | none, _ => ⟨p.label, p.about⟩
  | some _, some c => ⟨"-" ++ String.singleton c ++ ", " ++ p.label, p.about⟩
  | some _, none => ⟨"    " ++ p.label, p.about⟩

end Parameter

namespace Topic

def helpEntry : Entry := ⟨"-h, --help", "Print help"⟩

def helpWordAbout : String := "Print this message or the help of the given subcommand(s)"

def commands (entries : List Entry) : List String :=
  "Commands:" :: Entry.columns (entries ++ [⟨"help", helpWordAbout⟩])

def usage (parameters : List Parameter) : List String :=
  let options := parameters.filter (·.long.isSome)
  (if options.all (·.required) then [] else ["[OPTIONS]"]) ++
    (options.filter (·.required)).map Parameter.label ++
    (parameters.filter (·.long.isNone)).map Parameter.label

def parameterLists (parameters : List Parameter) : List (List String) :=
  let positionals := parameters.filter (·.long.isNone)
  let options := (parameters.filter (·.long.isSome)).map Parameter.entry
  (if positionals.isEmpty then []
    else ["Arguments:" :: Entry.columns (positionals.map Parameter.entry)]) ++
    ["Options:" :: Entry.columns (options ++ [helpEntry])]

def blocks (serverUrl : String) : Topic → List (List String)
  | top =>
    let about := "Orchestrator URL [env: CONVEYOR_ORCHESTRATOR_URL=" ++ serverUrl ++
      "] [default: http://localhost:8080]"
    [["Conveyor delivery pipeline CLI"], ["Usage: conveyor [OPTIONS] <COMMAND>"],
      commands (groups.map fun g => ⟨g.name, g.about⟩),
      "Options:" :: Entry.stacked [⟨"    " ++ Parameter.serverUrl.label, about⟩, helpEntry]]
  | group g =>
    [[g.about], ["Usage: conveyor " ++ g.name ++ " <COMMAND>"],
      commands (g.forms.map fun f => ⟨f.name, f.about⟩),
      "Options:" :: Entry.columns [helpEntry]]
  | form g f =>
    [f.about] ::
      ["Usage: " ++ String.intercalate " " (["conveyor", g.name, f.name] ++ usage f.parameters)] ::
      parameterLists f.parameters
  | helpWord before =>
    [[helpWordAbout],
      ["Usage: " ++ String.intercalate " " ("conveyor" :: before ++ ["help", "[COMMAND]..."])],
      "Arguments:" :: Entry.columns [⟨"[COMMAND]...", "Print help for the subcommand(s)"⟩]]

def text (serverUrl : String) (topic : Topic) : String :=
  String.intercalate "\n\n" ((topic.blocks serverUrl).map fun lines => String.intercalate "\n" lines) ++
    "\n"

end Topic

end DeliveryPipeline.CommandLine

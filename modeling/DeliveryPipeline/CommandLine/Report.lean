import DeliveryPipeline.Api.Client
import DeliveryPipeline.CommandLine.Help

/-! # Reports

What the command line prints and the status it ends with: zero for a command that was carried out, one
for a command that failed, two for arguments that cannot be carried out.
-/

namespace DeliveryPipeline.CommandLine

set_option autoImplicit false

open Text (ofInt64 ofInt32)

structure Report where
  exit : UInt32
  out : String
  err : String
deriving DecidableEq, Repr

def unlines (lines : List String) : String := String.join (lines.map (· ++ "\n"))

def done : String := "✓ "

def launchLines (kind : String) (launch : Launch) : List String :=
  [done ++ kind ++ " job submitted", "  Job: " ++ launch.jobName, "  Run: " ++ ofInt64 launch.run]

def progressLines (progress : Progress) : List String :=
  ["  Publish: " ++ Named.name progress.orderStatus, "  Step: " ++ ofInt32 progress.stepIndex] ++
    (progress.nextJob.map fun job => "  Next job: " ++ job.jobName ++ " run " ++ ofInt64 job.run).toList

def yesNo (answer : Bool) : String := if answer then "true" else "false"

/-- A manual confirmation; one that nobody made has no more than a name. -/
def recordLines (title : String) (r : StepRecord) : List String :=
  [title, "  Name: " ++ r.name] ++
    if r.creator.isEmpty then [] else ["  Confirmed by: " ++ r.creator, "  Message: " ++ r.message]

def choiceLine (c : BranchChoice) : String :=
  "  " ++ c.appName ++ " [" ++ c.language ++ "] " ++ c.branch ++ " <- " ++
    String.intercalate ", " c.history

def imageLine (a : AppImage) : String := "  " ++ a.name ++ " " ++ a.image.getD "unresolved"

def resultLines : (command : Api.Command) → command.Result → List String
  | .build .., launch => launchLines "Build" launch
  | .deploy .., launch => launchLines "Deploy" launch
  | .terminate _ order _ request, _ =>
    [done ++ Named.name request.kind ++ " job of publish " ++ ofInt64 order ++ " terminated"]
  | .abort _ order, _ => [done ++ "Publish " ++ ofInt64 order ++ " aborted"]
  | .complete .., progress => progressLines progress
  | .confirm .., progress => (done ++ "Manual step confirmed") :: progressLines progress
  | .history _, history =>
    recordLines "Current step" history.current ++
      match history.previous with
      | some r => recordLines "Previous step" r
      | none => ["No previous manual record."]
  | .stepType .., info => [info.name ++ " (" ++ info.stepType ++ ")"]
  | .lastStep .., check =>
    ["  Last stage: " ++ yesNo check.lastStage, "  Last step: " ++ yesNo check.lastStep]
  | .branches .., preview =>
    (preview.name ++ " (" ++ preview.version ++ ")") :: preview.apps.map choiceLine
  | .images _, [] => ["No apps in this publish order."]
  | .images _, images => images.map imageLine

/-- What was being done, for commands that say so when they fail. -/
def context : Api.Command → List String
  | .build .. => ["Build submission failed"]
  | .deploy .. => ["Deploy submission failed"]
  | _ => []

/-- A text whose further lines are indented. -/
def hanging (indent text : String) : String :=
  String.intercalate ("\n" ++ indent) ((Text.pieces (· = '\n') text.toList).map String.ofList)

def fiveWide (n : Nat) : String :=
  let digits := Nat.repr n
  Entry.spaces (5 - digits.length) ++ digits

/-- The causes of an error, numbered if there are several. -/
def causeLines : List String → List String
  | [cause] => ["    " ++ hanging "    " cause]
  | causes =>
    causes.zipIdx.map fun (cause, n) => fiveWide n ++ ": " ++ hanging (Entry.spaces 7) cause

def errorText : List String → String
  | [] => ""
  | [message] => "Error: " ++ message ++ "\n"
  | message :: causes => "Error: " ++ message ++ "\n\n" ++ unlines ("Caused by:" :: causeLines causes)

namespace Report

def failure (chain : List String) : Report := ⟨1, "", errorText chain⟩

def ofResult (command : Api.Command) : Except Api.ClientError command.Result → Report
  | .ok result => ⟨0, unlines (resultLines command result), ""⟩
  | .error e => failure (context command ++ e.chain)

def usageText (e : UsageError) : String :=
  let message := match e with
    | .misuse cause => cause.message
    | .invalidValue value label cause =>
      "invalid value '" ++ value ++ "' for '" ++ label ++ "': " ++ cause.message
  "error: " ++ message ++ "\n\nFor more information, try '--help'.\n"

def ofUsage (e : UsageError) : Report := ⟨2, "", usageText e⟩

end Report

/-- Carries a command line out: `serverUrl` is where the service is, unless the arguments say so, and
`deliver` sends a request. -/
def run {m : Type → Type} [Monad m] (serverUrl : String)
    (deliver : Http.Outgoing → m Http.Delivery) (arguments : List String) : m Report :=
  match Invocation.ofArguments arguments with
  | .error e => pure (.ofUsage e)
  | .ok (.help topic) => pure ⟨0, topic.text serverUrl, ""⟩
  | .ok (.command _ (.error message)) => pure (.failure [message])
  | .ok (.command url (.ok command)) => do
    let client := Api.Client.ofUrl (url.getD serverUrl)
    let delivery ← deliver (client.send command)
    return .ofResult command (Api.Client.outcome command delivery)

end DeliveryPipeline.CommandLine

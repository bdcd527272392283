import DeliveryPipeline.Snapshot
import DeliveryPipeline.Project
import DeliveryPipeline.Text.Blank

/-! # Plans

A plan is everything a CI server needs to run one job: variables, containers, the rendered steps and
where to report the result. The server reads the steps from one text, the stages.
-/

namespace DeliveryPipeline

set_option autoImplicit false

structure Variable where
  key : String
  value : String
deriving DecidableEq, Repr

structure ContainerTemplate where
  name : String
  image : String
  workingDir : String
  command : List String
  args : List String
deriving DecidableEq, Repr

def ContainerTemplate.ofEnvironment (name : String) (environment : CompileEnvironment)
    (workingDir : String) : ContainerTemplate where
  name := name
  image := environment.image
  workingDir := workingDir
  command := (Text.words environment.command.toList).map String.ofList
  args := (Text.words environment.args.toList).map String.ofList

structure StepCommand where
  name : String
  container : String
  command : String
deriving DecidableEq, Repr

structure RenderedStep where
  name : String
  kind : TaskKind
  commands : List StepCommand
deriving DecidableEq, Repr

def StepCommand.text (c : StepCommand) : String :=
  "    container('" ++ c.container ++ "') \x7b\n        " ++ c.command ++ "\n    \x7d\n"

def RenderedStep.text (step : RenderedStep) : String :=
  "stage('" ++ step.name ++ "') \x7b\n" ++ String.join (step.commands.map StepCommand.text) ++ "\x7d"

/-- Where a job's result is reported, and with what. -/
structure CallbackDescriptor where
  token : String
  url : String
  body : Json
deriving Repr

structure Plan where
  jobVariables : List Variable
  containers : List ContainerTemplate
  steps : List RenderedStep
  stages : String
  callback : CallbackDescriptor
deriving Repr

def stagesText (steps : List RenderedStep) : String :=
  String.intercalate "\n" (steps.map RenderedStep.text)

namespace Plan

def ofSteps (jobVariables : List Variable) (containers : List ContainerTemplate)
    (steps : List RenderedStep) (callback : CallbackDescriptor) : Plan where
  jobVariables := jobVariables
  containers := containers
  steps := steps
  stages := stagesText steps
  callback := callback

def step? (plan : Plan) (kind : TaskKind) : Option RenderedStep :=
  plan.steps.find? fun step => step.kind = kind

end Plan

end DeliveryPipeline

import DeliveryPipeline.Api.Command
import DeliveryPipeline.Http.Path
import DeliveryPipeline.Http.MediaType

/-! # Routes

Which command a request asks for. A request is refused at the first thing that does not fit: its path,
its method, the numbers in its path, its content type, the form of its body, the shape of its body.
-/

namespace DeliveryPipeline.Api

set_option autoImplicit false

inductive Rejection where
  | noRoute
  | wrongMethod
  | badPath
  | noJson
  | malformedBody
  | mismatchedBody
deriving DecidableEq, Repr

def Rejection.status : Rejection → Nat
  | .noRoute => 404
  | .wrongMethod => 405
  | .badPath => 400
  | .noJson => 415
  | .malformedBody => 400
  | .mismatchedBody => 422

/-- The routes, with the segments that stand for arguments as they are written. -/
inductive Route where
  | health
  | build (project order stage : String)
  | deploy (project order stage : String)
  | terminate (project order stage : String)
  | abort (project order : String)
  | complete (project order stage kind : String)
  | confirm (project order : String)
  | branches (project order stage : String)
  | history (order : String)
  | stepType (order index : String)
  | lastStep (order stage : String)
  | images (order : String)
deriving DecidableEq, Repr

namespace Route

def ofSegments? : List String → Option Route
  | ["health"] => some health
  | ["api", "v1", "pipelines", p, "publishes", o, "stages", s, "build"] => some (build p o s)
  | ["api", "v1", "pipelines", p, "publishes", o, "stages", s, "deploy"] => some (deploy p o s)
  | ["api", "v1", "pipelines", p, "publishes", o, "stages", s, "terminate"] => some (terminate p o s)
  | ["api", "v1", "pipelines", p, "publishes", o, "abort"] => some (abort p o)
  | ["api", "v1", "pipelines", p, "publishes", o, "stages", s, "steps", kind, "callback"] =>
    some (complete p o s kind)
  | ["api", "v1", "pipelines", p, "publishes", o, "manual"] => some (confirm p o)
  | ["api", "v1", "pipelines", p, "publishes", o, "stages", s, "branches"] => some (branches p o s)
  | ["api", "v1", "publishes", o, "steps", "current"] => some (history o)
  | ["api", "v1", "publishes", o, "steps", index] => some (stepType o index)
  | ["api", "v1", "publishes", o, "stages", s, "last"] => some (lastStep o s)
  | ["api", "v1", "publishes", o, "deploy", "apps"] => some (images o)
  | _ => none

/-- The route of a request; no segment of it may be empty. -/
def ofTarget? (target : String) : Option Route := do
  let segments ← Http.segments (Http.pathOf target.toList)
  if segments.any String.isEmpty then none else ofSegments? segments

def isInspection : Route → Bool
  | health | branches .. | history _ | stepType .. | lastStep .. | images _ => true
  | _ => false

/-- Whether a method fits the route. A request for the head of an answer is carried out as well. -/
def admits (route : Route) (method : String) : Bool :=
  if route.isInspection then method = "GET" || method = "HEAD" else method = "POST"

end Route

def idOf (segment : String) : Except Rejection Int64 :=
  match (Http.unescape? segment).map Text.readInt64 with
  | some (.ok n) => .ok n
  | _ => .error .badPath

def indexOf (segment : String) : Except Rejection Int32 :=
  match (Http.unescape? segment).map Text.readInt32 with
  | some (.ok n) => .ok n
  | _ => .error .badPath

def kindOf (segment : String) : Except Rejection JobKind :=
  match (Http.unescape? segment).bind Named.ofName? with
  | some kind => .ok kind
  | none => .error .badPath

def bodyOf {α : Type} [Wire α] (request : Http.Request) : Except Rejection α :=
  if Http.announcesJson request.contentType then
    match Wire.ofText request.body with
    | .ok a => .ok a
    | .error .malformed => .error .malformedBody
    | .error .mismatch => .error .mismatchedBody
  else .error .noJson

/-- The command on a route; there is none for a health check. -/
def Route.command (route : Route) (request : Http.Request) : Except Rejection (Option Command) :=
  match route with
  | .health => .ok none
  | .build p o s => do
    let (p, o, s) := (← idOf p, ← idOf o, ← idOf s)
    .ok (some (.build p o s (← bodyOf request)))
  | .deploy p o s => do
    let (p, o, s) := (← idOf p, ← idOf o, ← idOf s)
    .ok (some (.deploy p o s (← bodyOf request)))
  | .terminate p o s => do
    let (p, o, s) := (← idOf p, ← idOf o, ← idOf s)
    .ok (some (.terminate p o s (← bodyOf request)))
  | .abort p o => do .ok (some (.abort (← idOf p) (← idOf o)))
  | .complete p o s kind => do
    let (p, o, s, kind) := (← idOf p, ← idOf o, ← idOf s, ← kindOf kind)
    .ok (some (.complete p o s kind (← bodyOf request)))
  | .confirm p o => do
    let (p, o) := (← idOf p, ← idOf o)
    .ok (some (.confirm p o (← bodyOf request)))
  | .branches p o s => do .ok (some (.branches (← idOf p) (← idOf o) (← idOf s)))
  | .history o => do .ok (some (.history (← idOf o)))
  | .stepType o index => do .ok (some (.stepType (← idOf o) (← indexOf index)))
  | .lastStep o s => do .ok (some (.lastStep (← idOf o) (← idOf s)))
  | .images o => do .ok (some (.images (← idOf o)))

/-- The command that a request asks for; none for a health check. -/
def Command.ofRequest? (request : Http.Request) : Except Rejection (Option Command) :=
  match Route.ofTarget? request.target with
  | none => .error .noRoute
  | some route =>
    if route.admits request.method then route.command request else .error .wrongMethod

end DeliveryPipeline.Api

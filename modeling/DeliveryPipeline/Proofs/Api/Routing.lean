import DeliveryPipeline.Api.Server
import DeliveryPipeline.Proofs.Http.Address
import DeliveryPipeline.Proofs.Wire.Message

/-! # Requests find their command

The path of a command leads to the route of this command and to no other, whatever numbers stand in it, and
the arguments that are read from it and from the body are those of the command.
-/

namespace DeliveryPipeline

set_option autoImplicit false

open Text (ofInt64 ofInt32)

namespace Api

theorem isSimple_ofInt64 (n : Int64) : Http.IsSimple (ofInt64 n) := Http.isSimple_repr n.toInt

theorem isSimple_ofInt32 (n : Int32) : Http.IsSimple (ofInt32 n) := Http.isSimple_repr n.toInt

theorem isSimple_name (kind : JobKind) : Http.IsSimple (Named.name kind) := by
  cases kind <;> decide

theorem ofInt32_ne {word : String} {c : Char} (mem : c ∈ word.toList) (minus : c ≠ '-')
    (digit : c.isDigit = false) (n : Int32) : ofInt32 n ≠ word := by
  rintro rfl
  rcases Text.mem_repr mem with hMinus | hDigit
  · exact minus hMinus
  · rw [digit] at hDigit
    cases hDigit

theorem ofTarget?_joined {segments : List String} (simple : ∀ segment ∈ segments, Http.IsSimple segment) :
    Route.ofTarget? (Http.joined segments) = Route.ofSegments? segments := by
  have hNonempty : segments.any String.isEmpty = false := by
    apply List.any_eq_false.mpr
    intro segment hSegment hEmpty
    exact (simple segment hSegment).nonempty (String.isEmpty_iff.mp hEmpty)
  rw [Route.ofTarget?, Http.segments_joined fun segment hSegment => (simple segment hSegment).isPlain,
    Option.bind_eq_bind, Option.bind_some, if_neg (by rw [hNonempty]; decide)]

def orderSegments (project order : Int64) : List String :=
  ["api", "v1", "pipelines", ofInt64 project, "publishes", ofInt64 order]

def stageSegments (project order stage : Int64) : List String :=
  orderSegments project order ++ ["stages", ofInt64 stage]

def inspectionSegments (order : Int64) : List String := ["api", "v1", "publishes", ofInt64 order]

def Command.segments : Command → List String
  | build p o s _ => stageSegments p o s ++ ["build"]
  | deploy p o s _ => stageSegments p o s ++ ["deploy"]
  | terminate p o s _ => stageSegments p o s ++ ["terminate"]
  | abort p o => orderSegments p o ++ ["abort"]
  | complete p o s kind _ => stageSegments p o s ++ ["steps", Named.name kind] ++ ["callback"]
  | confirm p o _ => orderSegments p o ++ ["manual"]
  | branches p o s => stageSegments p o s ++ ["branches"]
  | history o => inspectionSegments o ++ ["steps", "current"]
  | stepType o index => inspectionSegments o ++ ["steps", ofInt32 index]
  | lastStep o s => inspectionSegments o ++ ["stages", ofInt64 s] ++ ["last"]
  | images o => inspectionSegments o ++ ["deploy", "apps"]

theorem append_joined_pair (path word argument : String) :
    path ++ Http.joined [word, argument] = path ++ ("/" ++ word ++ "/") ++ argument := by
  apply String.toList_inj.mp
  simp [Http.toList_joined]

theorem joined_orderSegments (project order : Int64) :
    Http.joined (orderSegments project order) = Command.orderPath project order := by
  unfold orderSegments Command.orderPath
  generalize ofInt64 project = p, ofInt64 order = o
  apply String.toList_inj.mp
  simp [Http.toList_joined]

theorem joined_stageSegments (project order stage : Int64) :
    Http.joined (stageSegments project order stage) = Command.stagePath project order stage := by
  rw [stageSegments, Http.joined_append, joined_orderSegments, append_joined_pair]
  rfl

theorem joined_inspectionSegments (order : Int64) :
    Http.joined (inspectionSegments order) = Command.inspectionPath order := by
  unfold inspectionSegments Command.inspectionPath
  generalize ofInt64 order = o
  apply String.toList_inj.mp
  simp [Http.toList_joined]

theorem Command.joined_segments (command : Command) : Http.joined command.segments = command.path := by
  cases command with
  | history order | images order =>
    rw [segments, Http.joined_append, joined_inspectionSegments]
    rfl
  | _ =>
    simp only [segments, Http.joined_append, joined_orderSegments, joined_stageSegments,
      joined_inspectionSegments, append_joined_pair]
    rfl

theorem Command.isSimple_of_mem_segments (command : Command) :
    ∀ segment ∈ command.segments, Http.IsSimple segment := by
  cases command <;>
    simp only [Command.segments, stageSegments, orderSegments, inspectionSegments, List.cons_append,
      List.nil_append, List.forall_mem_cons, isSimple_ofInt64, isSimple_ofInt32, isSimple_name, true_and,
      List.not_mem_nil, false_imp_iff, implies_true, and_true] <;>
    decide

def Command.route : Command → Route
  | build p o s _ => .build (ofInt64 p) (ofInt64 o) (ofInt64 s)
  | deploy p o s _ => .deploy (ofInt64 p) (ofInt64 o) (ofInt64 s)
  | terminate p o s _ => .terminate (ofInt64 p) (ofInt64 o) (ofInt64 s)
  | abort p o => .abort (ofInt64 p) (ofInt64 o)
  | complete p o s kind _ => .complete (ofInt64 p) (ofInt64 o) (ofInt64 s) (Named.name kind)
  | confirm p o _ => .confirm (ofInt64 p) (ofInt64 o)
  | branches p o s => .branches (ofInt64 p) (ofInt64 o) (ofInt64 s)
  | history o => .history (ofInt64 o)
  | stepType o index => .stepType (ofInt64 o) (ofInt32 index)
  | lastStep o s => .lastStep (ofInt64 o) (ofInt64 s)
  | images o => .images (ofInt64 o)

theorem ofSegments?_steps {order index : String} (other : index ≠ "current") :
    Route.ofSegments? ["api", "v1", "publishes", order, "steps", index] = some (.stepType order index) := by
  unfold Route.ofSegments?
  split <;> simp_all

theorem Command.ofSegments?_segments (command : Command) :
    Route.ofSegments? command.segments = some command.route := by
  cases command with
  | stepType order index =>
    have hOther : ofInt32 index ≠ "current" :=
      ofInt32_ne (c := 'c') (by decide) (by decide) (by decide) index
    exact ofSegments?_steps hOther
  | _ => rfl

theorem Command.ofTarget?_path (command : Command) : Route.ofTarget? command.path = some command.route := by
  rw [← command.joined_segments, ofTarget?_joined command.isSimple_of_mem_segments,
    command.ofSegments?_segments]

theorem Command.sentTarget_path (command : Command) : Http.sentTarget command.path = command.path := by
  rw [← command.joined_segments, Http.sentTarget_joined command.isSimple_of_mem_segments]

theorem idOf_ofInt64 (n : Int64) : idOf (ofInt64 n) = .ok n := by
  rw [idOf, Http.unescape?_of_isPlain (isSimple_ofInt64 n).isPlain, Option.map_some, Text.readInt64_ofInt64]

theorem indexOf_ofInt32 (n : Int32) : indexOf (ofInt32 n) = .ok n := by
  rw [indexOf, Http.unescape?_of_isPlain (isSimple_ofInt32 n).isPlain, Option.map_some, Text.readInt32_ofInt32]

theorem kindOf_name (kind : JobKind) : kindOf (Named.name kind) = .ok kind := by
  rw [kindOf, Http.unescape?_of_isPlain (isSimple_name kind).isPlain]
  cases kind <;> rfl

theorem bodyOf_of_heldIn {α : Type} {depth : Nat} [Wire α] [LawfulWire α depth] {request : Http.Request}
    {a : α} (announced : Http.announcesJson request.contentType = true) (body : (Wire.encode a).HeldIn request.body) :
    bodyOf request = .ok a := by
  rw [bodyOf, if_pos announced, LawfulWire.ofText body]

def Command.BodyIn (command : Command) (request : Http.Request) : Prop :=
  ∀ value, command.body? = some value →
    Http.announcesJson request.contentType = true ∧ value.HeldIn request.body

theorem Command.command_route {command : Command} {request : Http.Request} (body : command.BodyIn request) :
    command.route.command request = .ok (some command) := by
  have hRead : ∀ {α : Type} {depth : Nat} [Wire α] [LawfulWire α depth] (a : α),
      command.body? = some (Wire.encode a) → bodyOf request = .ok a := by
    intro α depth _ _ a hBody
    obtain ⟨hAnnounced, hHeld⟩ := body _ hBody
    exact bodyOf_of_heldIn hAnnounced hHeld
  -- the numbers of the path are read first; only then a body is looked at, if there is one
  cases command with
  | build p o s r | deploy p o s r | terminate p o s r | complete p o s kind r | confirm p o r =>
    simp only [Command.route, Route.command, idOf_ofInt64, kindOf_name, hRead r rfl]
    rfl
  | _ =>
    simp only [Command.route, Route.command, idOf_ofInt64, indexOf_ofInt32]
    rfl

theorem Command.admits_route (command : Command) : command.route.admits command.method = true := by
  cases command <;> rfl

/-- A request with the method, the path and the body of a command asks for this command. -/
theorem Command.ofRequest?_eq_ok {command : Command} {request : Http.Request}
    (method : request.method = command.method) (target : request.target = command.path)
    (body : command.BodyIn request) : Command.ofRequest? request = .ok (some command) := by
  rw [Command.ofRequest?, target, command.ofTarget?_path, method]
  simp only [command.admits_route, if_true]
  exact Command.command_route body

def respond (command : Command) : Except EngineError command.Result → Http.Answer
  | .ok result => resultAnswer command result
  | .error e => errorAnswer e.kind e.message

theorem answerCommand_eq (engine : Engine) (command : Command) :
    answerCommand engine command =
      Program.bind (fun ended => .done (respond command ended)) (command.operation engine).run := by
  change Program.bind _ _ = _
  congr 1
  funext ended
  cases ended <;> rfl

theorem answer_of_ofRequest? (engine : Engine) {request : Http.Request} {command : Command}
    (head : request.method ≠ "HEAD") (options : request.method ≠ "OPTIONS")
    (asks : Command.ofRequest? request = .ok (some command)) :
    answer engine request = answerCommand engine command := by
  have hHead : ∀ answer : Http.Answer, headOf answer request.method = answer := fun _ => if_neg head
  unfold answer
  rw [if_neg options, asks]
  simp only [hHead]
  exact bind_pure (answerCommand engine command)

end Api

end DeliveryPipeline

import DeliveryPipeline.World

/-! # Two programs at once

Requests are carried out at the same time. The programs of two of them share a world that answers one
call after another, and nothing orders the calls of one against those of the other: a list of turns says
whose call comes next, and what disturbs it. Every call is kept as a move, so that statements can be made
about every world on the way.
-/

namespace DeliveryPipeline

set_option autoImplicit false

inductive Side where
  | left
  | right
deriving DecidableEq, Repr

structure Turn where
  side : Side
  disturbance : Disturbance

/-- A call that one of the programs makes, with the worlds around it. -/
structure Move where
  side : Side
  before : World
  call : Call
  reply : call.Reply
  after : World

def Move.exchange (move : Move) : Exchange := ⟨move.call, move.reply⟩

variable {α β : Type}

def Program.isDone : Program α → Bool
  | .done _ => true
  | .call .. => false

/-- Two programs on their way, and the world that they share. -/
structure Interleaving (α β : Type) where
  left : Program α
  right : Program β
  world : World

namespace Interleaving

/-- One turn: the call that is made and where it leads. A program that is done lets its turn pass. -/
def step (pair : Interleaving α β) (turn : Turn) : Option Move × Interleaving α β :=
  match turn.side, pair with
  | .left, ⟨.call c next, right, world⟩ =>
    let (reply, after) := world.reply turn.disturbance c
    (some ⟨.left, world, c, reply, after⟩, ⟨next reply, right, after⟩)
  | .right, ⟨left, .call c next, world⟩ =>
    let (reply, after) := world.reply turn.disturbance c
    (some ⟨.right, world, c, reply, after⟩, ⟨left, next reply, after⟩)
  | _, pair => (none, pair)

def moves : Interleaving α β → List Turn → List Move
  | _, [] => []
  | pair, turn :: rest => (pair.step turn).1.toList ++ moves (pair.step turn).2 rest

def finish : Interleaving α β → List Turn → Interleaving α β
  | pair, [] => pair
  | pair, turn :: rest => finish (pair.step turn).2 rest

end Interleaving

end DeliveryPipeline

import DeliveryPipeline.Database.Change
import DeliveryPipeline.Remote.Errand

/-! # Collaborators

The systems that answer a program's calls: a database, and whatever is reached over HTTP. They are given
by what can be done with them, in any monad.
-/

namespace DeliveryPipeline

set_option autoImplicit false

structure Collaborators (m : Type → Type) where
  connection : Database.Connection m
  deliver : Http.Outgoing → m Http.Delivery
  now : m Timestamp

namespace Collaborators

variable {m : Type → Type} [Monad m]

def reply (c : Collaborators m) : (call : Call) → m call.Reply
  | .lookup l => (Database.answer c.connection l).run
  | .update u => do (Database.apply c.connection (← c.now) u).run
  | .errand e => do return e.outcome (← c.deliver e.request)

def unreachable (now : m Timestamp) : Collaborators m where
  connection := .none
  deliver request := pure (.error (.unreachable request))
  now := now

end Collaborators

end DeliveryPipeline

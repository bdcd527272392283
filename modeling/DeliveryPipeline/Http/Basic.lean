import DeliveryPipeline.Json.Basic

/-! # HTTP messages

Requests and answers, as far as anything here looks at them.
-/

namespace DeliveryPipeline.Http

set_option autoImplicit false

structure Request where
  method : String
  /-- the path with its query -/
  target : String
  contentType : Option String
  body : String
deriving DecidableEq, Repr

inductive Body where
  | empty
  | text (content : String)
  | json (content : Json)
deriving Repr

structure Answer where
  status : Nat
  body : Body
deriving Repr

namespace Answer

def ofStatus (status : Nat) : Answer := ⟨status, .empty⟩

end Answer

end DeliveryPipeline.Http

/-! # Enumerations with names

A finite type whose values are written as fixed names. Reading a name is looking it up among all
values, so writing a value and reading it back gives the value wherever the names differ.
-/

namespace DeliveryPipeline

set_option autoImplicit false

class Named (α : Type) where
  all : List α
  name : α → String

/-- A type with names that says what is wrong with any other text. -/
class NamedText (α : Type) extends Named α where
  complaint : String

namespace Named

variable {α : Type} [Named α]

def ofName? (s : String) : Option α := (all : List α).find? fun a => name a == s

def read {α : Type} [NamedText α] (s : String) : Except String α :=
  match ofName? s with
  | some a => .ok a
  | none => .error (NamedText.complaint α ++ ": " ++ s)

end Named

end DeliveryPipeline

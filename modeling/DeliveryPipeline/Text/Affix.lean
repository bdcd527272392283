import DeliveryPipeline.Text.Blank

/-! # Leading and trailing parts

Removing a leading literal as often as it stands there, removing a trailing character likewise, and
the two address rules built from them: a base address ends in no slash, and the host of an address
carries no scheme.
-/

namespace DeliveryPipeline.Text

set_option autoImplicit false

def dropLeading (lead s : List Char) : List Char :=
  match lead.isPrefixOf? s with
  | none => s
  | some rest => if rest.length < s.length then dropLeading lead rest else s
termination_by s.length

def dropTrailing (c : Char) (s : List Char) : List Char := dropEndWhile (· = c) s

def baseAddress (url : String) : String := .ofList (dropTrailing '/' url.toList)

/-- An address without scheme and without the slashes at its end. -/
def hostOfAddress (url : String) : String :=
  .ofList (dropTrailing '/' (dropLeading "http://".toList (dropLeading "https://".toList url.toList)))

def occursIn (part : List Char) : List Char → Bool
  | [] => part.isEmpty
  | c :: rest => part.isPrefixOf (c :: rest) || occursIn part rest

theorem occursIn_iff {part s : List Char} : occursIn part s = true ↔ part <:+: s := by
  induction s with
  | nil => rw [occursIn, List.isEmpty_iff, List.infix_nil]
  | cons c rest ih => rw [occursIn, Bool.or_eq_true, List.isPrefixOf_iff_prefix, ih, List.infix_cons_iff]

end DeliveryPipeline.Text

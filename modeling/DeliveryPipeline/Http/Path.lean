import DeliveryPipeline.Text.Blank
import DeliveryPipeline.Json.Token

/-! # Paths of requests

A request's path is cut into segments before escapes in it are read, so an escaped slash does not
separate anything.
-/

namespace DeliveryPipeline.Http

set_option autoImplicit false

def pathOf (target : List Char) : List Char := target.takeWhile fun c => c ≠ '?' && c ≠ '#'

/-- The segments of a path, the empty one in front of its first slash left out. -/
def segments (path : List Char) : Option (List String) :=
  match Text.pieces (· = '/') path with
  | [] :: rest => some (rest.map String.ofList)
  | _ => none

/-- The bytes of a text in which a percent sign and two hexadecimal digits stand for a byte. -/
def unescapeBytes : List UInt8 → List UInt8
  | p :: h :: l :: rest =>
    if p = 0x25 then
      match Json.hexDigit? (Char.ofNat h.toNat), Json.hexDigit? (Char.ofNat l.toNat) with
      | some high, some low => UInt8.ofNat (high * 16 + low) :: unescapeBytes rest
      | _, _ => p :: unescapeBytes (h :: l :: rest)
    else p :: unescapeBytes (h :: l :: rest)
  | bytes => bytes

/-- The text that a segment stands for, if its escapes make one. -/
def unescape? (segment : String) : Option String :=
  String.fromUTF8? ⟨(unescapeBytes segment.toUTF8.toList).toArray⟩

end DeliveryPipeline.Http

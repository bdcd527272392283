import DeliveryPipeline.Message
import DeliveryPipeline.Text.Blank

/-! # Image references

A reference is a name, optionally followed by a tag behind a colon and a digest behind an at sign. A
colon starts a tag only when no slash follows it, so the port of a registry belongs to the name.
-/

namespace DeliveryPipeline.Image

set_option autoImplicit false

open DeliveryPipeline.Text

/-- The part before the last occurrence of a character and the part after it. -/
def cutLast (mark : Char) : List Char → Option (List Char × List Char)
  | [] => none
  | c :: rest =>
    match cutLast mark rest with
    | some (before, after) => some (c :: before, after)
    | none => if c = mark then some ([], rest) else none

def withoutDigest (image : List Char) : List Char :=
  match cut '@' image with
  | some (name, _) => name
  | none => image

def nameOf (image : List Char) : List Char :=
  match cutLast ':' (withoutDigest image) with
  | some (name, tag) => if '/' ∈ tag then withoutDigest image else name
  | none => withoutDigest image

def stripTag (image : String) : String := .ofList (nameOf image.toList)

def withTag (image tag : String) : String := stripTag image ++ ":" ++ tag

/-- The first characters of a text that take up exactly a number of UTF-8 bytes, if some do. -/
def takeBytes (size : Nat) : List Char → Option (List Char)
  | [] => if size = 0 then some [] else none
  | c :: rest =>
    if size = 0 then some []
    else if c.utf8Size ≤ size then (takeBytes (size - c.utf8Size) rest).map (c :: ·)
    else none

/-- A commit's short form: seven bytes of it, or all of it where seven bytes are no whole number of
characters. -/
def shortSha (sha : String) : String :=
  match takeBytes 7 sha.toList with
  | some chars => .ofList chars
  | none => sha

/-- The branch and its newest commit, or the branch and `latest` without commits. -/
def defaultTag (branch : String) (commits : List Commit) : String :=
  match commits with
  | commit :: _ => branch ++ "-" ++ shortSha commit.sha
  | [] => branch ++ "-latest"

theorem cutLast_eq_none_iff {mark : Char} {s : List Char} : cutLast mark s = none ↔ mark ∉ s := by
  induction s with
  | nil => simp [cutLast]
  | cons c rest ih =>
    rw [cutLast, List.mem_cons, not_or, ← ih]
    cases cutLast mark rest with
    | some parts => simp
    | none => simp [eq_comm]

theorem cutLast_eq_some_iff {mark : Char} {s before after : List Char} :
    cutLast mark s = some (before, after) ↔ mark ∉ after ∧ s = before ++ mark :: after := by
  induction s generalizing before with
  | nil => simp [cutLast]
  | cons c rest ih =>
    have hFree : cutLast mark rest = none ↔ mark ∉ rest := cutLast_eq_none_iff
    unfold cutLast
    cases before with
    | nil => cases h : cutLast mark rest <;> grind
    | cons d ds => cases h : cutLast mark rest <;> grind

end DeliveryPipeline.Image

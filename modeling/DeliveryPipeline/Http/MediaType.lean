import DeliveryPipeline.Text.Blank

/-! # Media types

A media type is a type and a subtype, and parameters behind semicolons. A message holds JSON if its
type is `application` and its subtype or the suffix of that is `json`, in any case of letters.
-/

namespace DeliveryPipeline.Http

set_option autoImplicit false

def isTokenChar (c : Char) : Bool :=
  ('0' ≤ c && c ≤ '9') || ('A' ≤ c && c ≤ 'Z') || ('a' ≤ c && c ≤ 'z') ||
    ['!', '#', '$', '%', '&', '\'', '*', '+', '-', '.', '^', '_', Char.ofNat 0x60, '|', '~'].contains c

def isQuotedChar (c : Char) : Bool := 0x20 ≤ c.toNat && c.toNat ≤ 0x7E && c ≠ '"'

/-- Whether the parameters of a media type are well formed: names and values, the values possibly in
quotes, and blanks only behind semicolons. Empty parameters do not matter. -/
def parametersOk : Nat → List Char → Bool
  | 0, _ => false
  | fuel + 1, s =>
    match s.dropWhile fun c => c = ' ' || c = ';' with
    | [] => true
    | s =>
      let name := s.takeWhile isTokenChar
      if name.isEmpty then false
      else
        match s.drop name.length with
        | '=' :: '"' :: rest =>
          match (rest.dropWhile isQuotedChar : List Char) with
          | '"' :: rest =>
            match (rest.dropWhile (· = ' ') : List Char) with
            | [] => true
            | ';' :: rest => parametersOk fuel rest
            | _ => false
          | _ => false
        | '=' :: rest =>
          let value := rest.takeWhile isTokenChar
          match (rest.drop value.length : List Char) with
          | [] => true
          | ';' :: rest => !value.isEmpty && parametersOk fuel rest
          | _ => false
        | _ => false

structure MediaType where
  type : String
  subtype : String
  /-- what stands behind the last plus sign of the subtype -/
  suffix : Option String
deriving DecidableEq, Repr

/-- A subtype without its suffix, and the suffix. A plus sign in front starts none. -/
def splitSuffix (subtype : List Char) : List Char × Option (List Char) :=
  let suffix := (subtype.reverse.takeWhile (· ≠ '+')).reverse
  let front := subtype.take (subtype.length - suffix.length - 1)
  if suffix.length < subtype.length && !front.isEmpty then (front, some suffix) else (subtype, none)

/-- Reads a media type and puts it into lower case. -/
def MediaType.ofString? (s : String) : Option MediaType :=
  match Text.cut '/' s.toList with
  | none => none
  | some (type, rest) =>
    let name := rest.takeWhile isTokenChar
    let parameters := rest.drop name.length
    let ended := parameters.head?.all fun c => c = ';' || c = ' '
    if type.isEmpty || !type.all isTokenChar || name.isEmpty || !ended ||
        !parametersOk (parameters.length + 1) parameters then none
    else
      let lower (s : List Char) : String := .ofList (s.map Char.toLower)
      let (subtype, suffix) := splitSuffix name
      some ⟨lower type, lower subtype, suffix.map lower⟩

def MediaType.isJson (m : MediaType) : Bool :=
  m.type = "application" && (m.subtype = "json" || m.suffix = some "json")

def announcesJson (contentType : Option String) : Bool :=
  (contentType.bind MediaType.ofString?).any MediaType.isJson

end DeliveryPipeline.Http

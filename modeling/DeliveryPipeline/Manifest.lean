import DeliveryPipeline.Yaml.Document
import DeliveryPipeline.Text.Blank

/-! # Deployment manifests

A manifest is a stream of YAML documents. A deploy sets one image in it, and takes from it the names of
the workloads to wait for. The image has to occur exactly once as a whole reference: an occurrence
inside a longer reference does not count.
-/

namespace DeliveryPipeline

set_option autoImplicit false

inductive ManifestError where
  | emptyImage
  | absent (image : String)
  | repeated (image : String) (count : Nat)
  | unreadable
deriving DecidableEq, Repr

def ManifestError.message : ManifestError → String
  | .emptyImage => "image reference is empty"
  | .absent image => "image " ++ image ++ " does not occur in the manifest"
  | .repeated image count =>
    "image " ++ image ++ " occurs " ++ Nat.repr count ++ " times in the manifest, expected exactly once"
  | .unreadable => "invalid manifest"

namespace Manifest

def isImageChar (c : Char) : Bool :=
  ('0' ≤ c && c ≤ '9') || ('A' ≤ c && c ≤ 'Z') || ('a' ≤ c && c ≤ 'z') ||
    ['.', '-', '_', ':', '/', '@'].contains c

/-- The texts before and after the occurrences of an image, found from left to right without overlap.
`before` is the part of the text that is passed already, in reverse. -/
def occurrences (image : List Char) : Nat → List Char → List Char → List (List Char × List Char)
  | 0, _, _ => []
  | fuel + 1, before, text =>
    match image.isPrefixOf? text, text with
    | some after, _ => (before.reverse, after) :: occurrences image fuel (image.reverse ++ before) after
    | none, c :: rest => occurrences image fuel (c :: before) rest
    | none, [] => []

def isWhole (before after : List Char) : Bool :=
  !before.getLast?.any isImageChar && !after.head?.any isImageChar

def wholeOccurrences (image text : List Char) : List (List Char × List Char) :=
  (occurrences image (text.length + 1) [] text).filter fun (before, after) => isWhole before after

/-- Puts another reference in the place of the only whole occurrence of an image. -/
def substitute (manifest image replacement : String) : Except ManifestError String :=
  if image.isEmpty then .error .emptyImage
  else
    match wholeOccurrences image.toList manifest.toList with
    | [] => .error (.absent image)
    | [(before, after)] => .ok (.ofList (before ++ replacement.toList ++ after))
    | many => .error (.repeated image many.length)

def isWorkload (kind : String) : Bool := ["Deployment", "StatefulSet", "DaemonSet"].contains kind

def workloadName? (document : Yaml.Node) : Option String := do
  let kind ← (← document.get? "kind").text?
  if isWorkload kind then (← (← document.get? "metadata").get? "name").text? else none

def resourceNames (manifest : String) : Except ManifestError (List String) :=
  match Yaml.Node.documents? manifest.toList with
  | some documents => .ok (documents.filterMap workloadName?)
  | none => .error .unreadable

def separator : String := "\n---\n"

def trimmed (manifest : String) : String :=
  .ofList (Text.dropEndWhile (· = '\n') (manifest.toList.dropWhile (· = '\n')))

def join (manifests : List String) : String := String.intercalate separator (manifests.map trimmed)

end Manifest

end DeliveryPipeline

import DeliveryPipeline.Wire.Basic
import DeliveryPipeline.Setting

/-! # Wire forms of settings

A configuration carries its kind under the key `type`, which may stand anywhere among its fields. So a
configuration is read in two passes: the first finds the kind and requires that everything else is
well formed, the second reads the fields. A setting holds its configuration's fields beside its own.
-/

namespace DeliveryPipeline

set_option autoImplicit false

open Wire
open Json (Decoder Fields Problem Tree)

instance : Wire SettingKind := Wire.ofNamed

instance : WireRecord CiServer where
  fields := CiServer.mk <$> field "url" <*> field "user" <*> field "token" <*> field "workspace"
  entries s := [("url", encode s.url), ("user", encode s.user), ("token", encode s.token),
    ("workspace", encode s.workspace)]

instance : WireRecord Cluster where
  fields := Cluster.mk <$> field "url" <*> withDefault "token" ""
  entries c := [("url", encode c.url), ("token", encode c.token)]

instance : WireRecord Registry where
  fields := Registry.mk <$> field "url" <*> field "user" <*> field "password"
  entries r := [("url", encode r.url), ("user", encode r.user), ("password", encode r.password)]

namespace Integration

/-- Reads the configuration of a kind from a value that is known to be well formed. -/
def decodeKind (kind : SettingKind) (tree : Tree) : Except Problem Integration :=
  let config : Except Problem Integration := match kind with
    | .ciServer => (Wire.decode tree).map ciServer
    | .cluster => (Wire.decode tree).map cluster
    | .registry => (Wire.decode tree).map registry
  config.mapError fun _ => .mismatch

def decodeName : Decoder SettingKind := fun tree => do
  match Named.ofName? (← Decoder.text tree) with
  | some kind => .ok kind
  | none => .error .mismatch

def scan : List (Tree × Tree) → Option SettingKind →
    Except Problem (Option SettingKind × List (Tree × Tree))
  | [], kind => .ok (kind, [])
  | (.text "type", value) :: rest, none => do
    let kind ← decodeName value
    scan rest (some kind)
  | (.text "type", _) :: _, some _ => .error .mismatch
  | (.text key, value) :: rest, kind => do
    let _ ← Decoder.value value
    let (kind, others) ← scan rest kind
    .ok (kind, (.text key, value) :: others)
  | _ :: _, _ => .error .malformed

/-- A configuration is an object, or a list with its kind in front. -/
def decode : Decoder Integration
  | .record entries closed => do
    let (kind?, others) ← scan entries none
    if !closed then .error .malformed
    else
      match kind? with
      | some kind => decodeKind kind (.record others true)
      | none => .error .mismatch
  | .list (name :: rest) closed => do
    let kind ← decodeName name
    let _ ← Decoder.values rest
    if closed then decodeKind kind (.list rest true) else .error .malformed
  | .list [] closed => .error (if closed then .mismatch else .malformed)
  | .deep _ => .error .malformed
  | tree => .error tree.problem

def ownEntries : Integration → List (String × Json)
  | .ciServer s => WireRecord.entries s
  | .cluster c => WireRecord.entries c
  | .registry r => WireRecord.entries r

def entries (config : Integration) : List (String × Json) :=
  ("type", encode config.kind) :: config.ownEntries

instance : Wire Integration := ⟨fun config => Json.ofFields config.entries, decode⟩

/-- A kind inside a setting: its name, or its place among the kinds. -/
def decodeNameOrPlace (tree : Tree) : Except Problem SettingKind :=
  match tree with
  | .number (.integer n) =>
    match (Named.all : List SettingKind)[n.toNat]? with
    | some kind => if 0 ≤ n then .ok kind else .error .mismatch
    | none => .error .mismatch
  | tree => (decodeName tree).mapError fun _ => .mismatch

def ofEntries (entries : List (Tree × Tree)) : Except Problem Integration := do
  let isKind (entry : Tree × Tree) : Bool := match entry.1 with
    | .text key => key = "type"
    | _ => false
  match entries.filter isKind with
  | [(_, value)] => decodeKind (← decodeNameOrPlace value) (.record (entries.filter (!isKind ·)) true)
  | _ => .error .mismatch

end Integration

namespace Setting

structure Found where
  id : Option Int64
  name : Option String
  others : List (Tree × Tree)

def scan : List (Tree × Tree) → Found → Except Problem Found
  | [], found => .ok { found with others := found.others.reverse }
  | (.text "id", value) :: rest, found =>
    if found.id.isSome then .error .mismatch
    else do scan rest { found with id := some (← Wire.decode value) }
  | (.text "name", value) :: rest, found =>
    if found.name.isSome then .error .mismatch
    else do scan rest { found with name := some (← Wire.decode value) }
  | (.text key, value) :: rest, found => do
    let _ ← Decoder.value value
    scan rest { found with others := (.text key, value) :: found.others }
  | _ :: _, _ => .error .malformed

def decode : Decoder Setting
  | .record entries closed => do
    let found ← scan entries ⟨none, none, []⟩
    if !closed then .error .malformed
    else
      match found.id, found.name with
      | some id, some name => do .ok ⟨id, name, ← Integration.ofEntries found.others⟩
      | _, _ => .error .mismatch
  | .deep _ => .error .malformed
  | tree => .error tree.problem

def entries (setting : Setting) : List (String × Json) :=
  [("id", encode setting.id), ("name", encode setting.name)] ++ setting.config.entries

instance : Wire Setting := ⟨fun setting => Json.ofFields setting.entries, decode⟩

end Setting

end DeliveryPipeline

import DeliveryPipeline.Json.Decoder
import DeliveryPipeline.Json.Printer
import DeliveryPipeline.Named

/-! # Wire forms

How a type is written in JSON and read from it. A record type gives its fields once; a value of it is
written as an object and read from an object or from a list of the fields in their order.
-/

namespace DeliveryPipeline

set_option autoImplicit false

open Json (Decoder Fields)

class Wire (α : Type) where
  encode : α → Json
  decode : Decoder α

/-- A record type: how its fields are read, and the entries that they are written as. -/
class WireRecord (α : Type) where
  fields : Fields α
  entries : α → List (String × Json)

namespace Wire

variable {α : Type}

instance [WireRecord α] : Wire α where
  encode a := Json.ofFields (WireRecord.entries a)
  decode := Fields.decoder WireRecord.fields

instance : Wire String := ⟨.string, Decoder.text⟩

instance : Wire Bool := ⟨.bool, Decoder.bool⟩

instance : Wire Int64 := ⟨Json.ofInt64, Decoder.int64⟩

instance : Wire Int32 := ⟨Json.ofInt32, Decoder.int32⟩

instance : Wire Json := ⟨id, Decoder.value⟩

instance : Wire Timestamp := ⟨fun t => .string t.toText, Decoder.timestamp⟩

instance [Wire α] : Wire (Option α) := ⟨Json.ofOption encode, Decoder.optional decode⟩

instance [Wire α] : Wire (List α) := ⟨Json.ofList encode, Decoder.list decode⟩

@[reducible] def ofNamed [Named α] : Wire α :=
  ⟨fun a => .string (Named.name a), Decoder.choice Named.ofName?⟩

/-- The wire form of a type in which every name has a meaning. -/
@[reducible] def ofNames [Named α] (ofName : String → α) : Wire α :=
  ⟨fun a => .string (Named.name a), Decoder.choice fun s => some (ofName s)⟩

def field [Wire α] (key : String) : Fields α := Fields.required key decode

def optional [Wire α] (key : String) : Fields (Option α) := Fields.optional key decode

def withDefault [Wire α] (key : String) (value : α) : Fields α := Fields.withDefault key decode value

def ofText [Wire α] (s : String) : Except Json.Problem α := Json.decodeText decode s

end Wire

/-- A stored record with the times at which it was made and last changed. -/
structure Stamped (α : Type) where
  value : α
  createdAt : Timestamp
  updatedAt : Timestamp

instance {α : Type} [WireRecord α] : WireRecord (Stamped α) where
  fields := Stamped.mk <$> WireRecord.fields <*> Wire.field "created_at" <*> Wire.field "updated_at"
  entries a := WireRecord.entries a.value ++
    [("created_at", Wire.encode a.createdAt), ("updated_at", Wire.encode a.updatedAt)]

/-- A stored record with the time at which it was made. -/
structure Dated (α : Type) where
  value : α
  createdAt : Timestamp

instance {α : Type} [WireRecord α] : WireRecord (Dated α) where
  fields := Dated.mk <$> WireRecord.fields <*> Wire.field "created_at"
  entries a := WireRecord.entries a.value ++ [("created_at", Wire.encode a.createdAt)]

end DeliveryPipeline

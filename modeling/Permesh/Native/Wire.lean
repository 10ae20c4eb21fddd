import Permesh.Native.Request
import Permesh.Serde

/-!
# Native.Wire — how a request frame is decoded

The `Deserialize` that serde derives for `WireRequest`, over what the reader of `serde_json` hands
to it. An object is read field by field: unknown and repeated names are refused, a field that may
be left out has its default, and `present` refuses a null. The derived code also takes an array,
with the fields in the order of the declaration.
-/

namespace Permesh.Native

open Serde

variable {K : Crates}

/-- The fields of a frame whose types are not of this crate. -/
structure Decoders (A : Adapter K) where
  network : Document → Option NetworkContext
  configuration : Document → Option A.Configuration
  credentials : Document → Option A.Credentials

/-- `u32::deserialize`. -/
def decodeU32 : Document → Option Nat
  | .number (.posInt n) => if n < UInt32.size then some n else none
  | _ => none

/-- `String::deserialize`. -/
def decodeString : Document → Option String
  | .string s => some s
  | _ => none

/-- `Vec::<String>::deserialize`. -/
def decodeStrings : Document → Option (List String)
  | .array items => items.mapM decodeString
  | _ => none

/-- `Operation::deserialize`: a variant is its name, or an object with the name and a null. -/
def decodeOperation : Document → Option Operation
  | .string "check" | .object [("check", .null)] => some .check
  | .string "discover" | .object [("discover", .null)] => some .discover
  | _ => none

/-- `present`. -/
def present {α : Type} (decode : Document → Option α) : Document → Option (Option α)
  | .null => none
  | d => (decode d).map some

namespace WireRequest

/-- The fields of `WireRequest` in the order of the declaration. -/
def names : List String := ["protocol", "protocol_version", "operation", "features", "network", "id",
  "method", "instance", "configuration", "credentials"]

/-- A field with a default, if it is given. -/
def optional {α : Type} (decode : Document → Option α) : Option Document → Option (Option α)
  | none => some none
  | some d => present decode d

variable {A : Adapter K} (decoders : Decoders A)

/-- The fields of a frame, each of them as it is given. -/
def build (given : String → Option Document) : Option (WireRequest A) := do
  let protocol ← optional decodeU32 (given "protocol")
  let protocolVersion ← optional decodeU32 (given "protocol_version")
  let operation ← optional decodeOperation (given "operation")
  let features ← optional decodeStrings (given "features")
  let network ← optional decoders.network (given "network")
  let id ← (given "id").bind decodeString
  let method ← (given "method").bind decodeString
  let instanceId ← optional decodeString (given "instance")
  let configuration ← optional decoders.configuration (given "configuration")
  let credentials ← optional decoders.credentials (given "credentials")
  return ⟨protocol, protocolVersion, operation, features, network, id, method, instanceId,
    configuration, credentials⟩

/-- `visit_map`. -/
def visitMap (fields : List (String × Document)) : Option (WireRequest A) :=
  if fields.any fun field => !names.contains field.1 then none
  else if ¬(fields.map Prod.fst).Nodup then none
  else build decoders fun name => fields.lookup name

/-- `visit_seq`, with no item left over. -/
def visitSeq (items : List Document) : Option (WireRequest A) :=
  if names.length < items.length then none
  else build decoders fun name => (names.zip items).lookup name

/-- The derived `deserialize`. -/
def deserialize : Document → Option (WireRequest A)
  | .object fields => visitMap decoders fields
  | .array items => visitSeq decoders items
  | _ => none

/-- `serde_json::from_slice`. -/
def fromSlice (read : List UInt8 → Option Document) (bytes : List UInt8) :
    Option (WireRequest A) :=
  (read bytes).bind (deserialize decoders)

end WireRequest

end Permesh.Native

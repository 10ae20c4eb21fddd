import Permesh.Aws.Transport
import Permesh.Serde

/-!
# IdentityCenter.Transport — responses before the SDK sees them

`transport.rs` of the Identity Center connector. The SDK takes a list that is missing for an empty one,
so a response has to contain the list that was asked for. Its body is read as a document without
repeated fields, by `serde_json`, which is a parameter.
-/

namespace Permesh.IdentityCenter

open Permesh.Json Permesh.Serde Permesh.Aws

/-! ## Documents -/

mutual

/-- `Unique::deserialize`: a field that is repeated is an error. -/
def unique : Document → Option Value
  | .null => some .null
  | .bool b => some (.bool b)
  | .number n => some (.number n)
  | .string s => some (.string s)
  | .array items => (uniqueItems items).map .array
  | .object fields => (uniqueFields [] fields).map .object

def uniqueItems : List Document → Option (List Value)
  | [] => some []
  | d :: rest => (unique d).bind fun v => (uniqueItems rest).map fun vs => v :: vs

def uniqueFields : List (String × Value) → List (String × Document) →
    Option (List (String × Value))
  | out, [] => some out
  | out, (name, d) :: rest => (unique d).bind fun v =>
    if (out.lookup name).isSome then none else uniqueFields (insertField name v out) rest

end

mutual

/-- `reflects`, of a document. -/
def reflectsValue (credentials : Credentials) : Value → Bool
  | .string s => reflects credentials s
  | .array items => reflectsItems credentials items
  | .object fields => reflectsFields credentials fields
  | _ => false

def reflectsItems (credentials : Credentials) : List Value → Bool
  | [] => false
  | v :: rest => reflectsValue credentials v || reflectsItems credentials rest

def reflectsFields (credentials : Credentials) : List (String × Value) → Bool
  | [] => false
  | (name, v) :: rest =>
    (reflects credentials name || reflectsValue credentials v) || reflectsFields credentials rest

end

section

variable (reader : List UInt8 → Option Document)

/-- `serde_json::from_slice::<Unique>`. -/
def readUnique (bytes : List UInt8) : Option Value := (reader bytes).bind unique

def explicitArray (bytes : List UInt8) (field : String) : Bool :=
  (readUnique reader bytes).any fun v => (v.get field).any fun v => v.asArray.isSome

end

/-- A `NextToken` that is there, but cannot be one. -/
def unusableToken (v : Value) : Bool :=
  !v.isNull && v.asStr.all fun s =>
    s.isEmpty || Text.len s > 4096 || s.toList.any Text.isControl

/-! ## Operations -/

/-- The field that the response to an operation has to contain as an array. -/
def listField : String → Option (Option String)
  | "ListInstances" => some (some "Instances")
  | "ListUsers" => some (some "Users")
  | "ListGroups" => some (some "Groups")
  | "ListGroupMemberships" => some (some "GroupMemberships")
  | "ListPermissionSetsProvisionedToAccount" => some (some "PermissionSets")
  | "ListAccountAssignments" => some (some "AccountAssignments")
  | "ListAccounts" => some (some "Accounts")
  | "DescribePermissionSet" => some none
  | _ => none

/-- The operation that a request names: the last part of its target. -/
def operation (request : HttpRequest) : Option String :=
  (request.headers.lookup "x-amz-target").bind fun target => (Text.split '.' target).getLast?

/-- The operation and the field of a request; a request without an operation asks for the caller. -/
def target (request : HttpRequest) (body : List UInt8) : Option (Option String × Option String) :=
  match operation request with
  | some name => (listField name).map fun field => (some name, field)
  | none =>
    if containsBytes (Text.asBytes "Action=GetCallerIdentity") body then some (none, none) else none

/-- The transport of the connector. -/
def transport (allowed : List String) (credentials : Credentials)
    (reader : List UInt8 → Option Document) : Transport (Option String × Option String) where
  allowed := allowed
  attempts := 1000
  target := target
  passes := fun (operation, field) status bytes =>
    if status = 200 ∧ operation.isSome then
      match readUnique reader bytes with
      | none => false
      | some value =>
        !(reflectsValue credentials value ||
          (field.any fun field => !explicitArray reader bytes field) ||
          (operation == some "DescribePermissionSet" &&
            !((value.get "PermissionSet").any Value.isObject)) ||
          ((value.get "NextToken").any unusableToken))
    else true

end Permesh.IdentityCenter

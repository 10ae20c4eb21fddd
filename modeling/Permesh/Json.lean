import Mathlib.Data.Rat.Defs
import Permesh.Text

/-!
# Json — decoded documents

`serde_json::Value` and the accessors the providers use. An object is the list of its fields in
the order of their names, each name once, as the map of `serde_json` keeps them. A number that is
no integer is the rational it stands for, so two numbers are equal here when `serde_json` finds
them equal.
-/

namespace Permesh.Json

inductive Number where
  | posInt (n : Nat)
  | negInt (n : Int)
  | float (value : Rat)
  deriving DecidableEq

inductive Value where
  | null
  | bool (b : Bool)
  | number (n : Number)
  | string (s : String)
  | array (items : List Value)
  | object (fields : List (String × Value))

mutual

/-- Equality of documents is decided by walking both. -/
def Value.decEq : (a b : Value) → Decidable (a = b)
  | .null, .null => isTrue rfl
  | .bool a, .bool b => decidable_of_iff (a = b) (by simp)
  | .number a, .number b => decidable_of_iff (a = b) (by simp)
  | .string a, .string b => decidable_of_iff (a = b) (by simp)
  | .array a, .array b =>
    match Value.decEqItems a b with
    | isTrue h => isTrue (by rw [h])
    | isFalse h => isFalse (by simpa using h)
  | .object a, .object b =>
    match Value.decEqFields a b with
    | isTrue h => isTrue (by rw [h])
    | isFalse h => isFalse (by simpa using h)
  | .null, .bool _ | .null, .number _ | .null, .string _ | .null, .array _ | .null, .object _
  | .bool _, .null | .bool _, .number _ | .bool _, .string _ | .bool _, .array _
  | .bool _, .object _ | .number _, .null | .number _, .bool _ | .number _, .string _
  | .number _, .array _ | .number _, .object _ | .string _, .null | .string _, .bool _
  | .string _, .number _ | .string _, .array _ | .string _, .object _ | .array _, .null
  | .array _, .bool _ | .array _, .number _ | .array _, .string _ | .array _, .object _
  | .object _, .null | .object _, .bool _ | .object _, .number _ | .object _, .string _
  | .object _, .array _ => isFalse (by simp)

def Value.decEqItems : (a b : List Value) → Decidable (a = b)
  | [], [] => isTrue rfl
  | a :: as, b :: bs =>
    match Value.decEq a b, Value.decEqItems as bs with
    | isTrue h, isTrue hs => isTrue (by rw [h, hs])
    | isFalse h, _ => isFalse (by simp [h])
    | _, isFalse hs => isFalse (by simp [hs])
  | [], _ :: _ | _ :: _, [] => isFalse (by simp)

def Value.decEqFields : (a b : List (String × Value)) → Decidable (a = b)
  | [], [] => isTrue rfl
  | (m, a) :: as, (n, b) :: bs =>
    match instDecidableEqString m n, Value.decEq a b, Value.decEqFields as bs with
    | isTrue hn, isTrue h, isTrue hs => isTrue (by rw [hn, h, hs])
    | isFalse hn, _, _ => isFalse (by simp [hn])
    | _, isFalse h, _ => isFalse (by simp [h])
    | _, _, isFalse hs => isFalse (by simp [hs])
  | [], _ :: _ | _ :: _, [] => isFalse (by simp)

end

instance : DecidableEq Value := Value.decEq

/-- `Value::get` with a name. -/
def Value.get : Value → String → Option Value
  | .object fields, name => fields.lookup name
  | _, _ => none

def Value.asStr : Value → Option String
  | .string s => some s
  | _ => none

def Value.asBool : Value → Option Bool
  | .bool b => some b
  | _ => none

def Value.asU64 : Value → Option Nat
  | .number (.posInt n) => some n
  | _ => none

def Value.asArray : Value → Option (List Value)
  | .array items => some items
  | _ => none

/-- The names of an object, in order. -/
def Value.keys : Value → Option (List String)
  | .object fields => some (fields.map Prod.fst)
  | _ => none

def Value.isObject (value : Value) : Bool := value.keys.isSome

def Value.isNull : Value → Bool
  | .null => true
  | _ => false

mutual

/-- `reflects`: some string or name of the document contains the secret. -/
def Value.reflects (secret : String) : Value → Bool
  | .string text => Text.contains secret text
  | .array items => Value.reflectsItems secret items
  | .object fields => Value.reflectsFields secret fields
  | _ => false

def Value.reflectsItems (secret : String) : List Value → Bool
  | [] => false
  | value :: rest => value.reflects secret || Value.reflectsItems secret rest

def Value.reflectsFields (secret : String) : List (String × Value) → Bool
  | [] => false
  | (key, value) :: rest =>
    Text.contains secret key || value.reflects secret || Value.reflectsFields secret rest

end

example : (Value.object [("id", .number (.posInt 7))]).get "id" = some (.number (.posInt 7)) := by
  decide

end Permesh.Json

import Permesh.Json

/-!
# Serde — documents as a visitor sees them

`serde_json` hands a document to a visitor in the order of its text: the fields of an object come
one after another, with a name that is repeated each time it is written. `Document` is what is
handed over. Reading the bytes is code of the crate: whoever decodes takes the reader
`List UInt8 → Option Document` as a parameter, and what it refuses is no document.

`Document.value` is the visitor of `serde_json::Value`, whose map keeps the last of several fields
with one name.
-/

namespace Permesh.Serde

open Json

inductive Document where
  | null
  | bool (b : Bool)
  | number (n : Number)
  | string (s : String)
  | array (items : List Document)
  | object (fields : List (String × Document))

/-- `Map::insert`: the value of a name is replaced. -/
def insertField (name : String) (value : Value) : List (String × Value) → List (String × Value)
  | [] => [(name, value)]
  | (other, old) :: rest =>
    if name = other then (name, value) :: rest
    else if name < other then (name, value) :: (other, old) :: rest
    else (other, old) :: insertField name value rest

mutual

/-- `Value::deserialize`. -/
def Document.value : Document → Value
  | .null => .null
  | .bool b => .bool b
  | .number n => .number n
  | .string s => .string s
  | .array items => .array (Document.values items)
  | .object fields => .object (Document.fieldValues [] fields)

def Document.values : List Document → List Value
  | [] => []
  | d :: rest => d.value :: Document.values rest

def Document.fieldValues : List (String × Value) → List (String × Document) →
    List (String × Value)
  | out, [] => out
  | out, (name, d) :: rest => Document.fieldValues (insertField name d.value out) rest

end

/-- `e` is `d`, or stands somewhere in it. -/
inductive Document.Holds : Document → Document → Prop where
  | here (d : Document) : Holds d d
  | item {items : List Document} {d e : Document} : d ∈ items → Holds d e → Holds (.array items) e
  | field {fields : List (String × Document)} {name : String} {d e : Document} :
      (name, d) ∈ fields → Holds d e → Holds (.object fields) e

end Permesh.Serde

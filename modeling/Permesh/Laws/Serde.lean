import Permesh.Lib.Maps
import Permesh.Serde

/-!
# Laws.Serde — documents without repeated fields

Where no object of a document repeats a field, the visitor of `serde_json::Value` loses nothing: the
value has the fields that are written, and the texts.

The induction is on documents, with arrays and objects as lists of documents inside. For documents that
do repeat a field nothing is claimed.
-/

namespace Permesh.Serde

open Json Lib

/-- Documents are taken apart field by field. -/
@[elab_as_elim]
theorem Document.induct {P : Document → Prop} (null : P .null) (bool : ∀ b, P (.bool b))
    (number : ∀ n, P (.number n)) (string : ∀ s, P (.string s))
    (array : ∀ items, (∀ d ∈ items, P d) → P (.array items))
    (object : ∀ fields, (∀ field ∈ fields, P field.2) → P (.object fields)) : ∀ d, P d
  | .null => null
  | .bool b => bool b
  | .number n => number n
  | .string s => string s
  | .array items => array items fun d _ =>
    Document.induct null bool number string array object d
  | .object fields => object fields fun field _ =>
    Document.induct null bool number string array object field.2
termination_by d => sizeOf d
decreasing_by
  · have lt := List.sizeOf_lt_of_mem ‹_ ∈ items›
    simp only [Document.array.sizeOf_spec]
    omega
  · have lt := List.sizeOf_lt_of_mem ‹_ ∈ fields›
    have part : sizeOf field.2 < sizeOf field := by
      obtain ⟨name, d⟩ := field
      simp only [Prod.mk.sizeOf_spec]
      omega
    simp only [Document.object.sizeOf_spec]
    omega

/-! ## What is in a document -/

/-- No object of the document repeats a field. -/
def Distinct (d : Document) : Prop := ∀ fields, d.Holds (.object fields) → (fields.map Prod.fst).Nodup

/-- A string or the name of a field, anywhere in the document. -/
def Texts (d : Document) (s : String) : Prop :=
  d.Holds (.string s) ∨ ∃ fields, d.Holds (.object fields) ∧ s ∈ fields.map Prod.fst

theorem holds_array {items : List Document} {e : Document} :
    (Document.array items).Holds e ↔ e = .array items ∨ ∃ d ∈ items, d.Holds e := by
  constructor
  · intro h
    cases h with
    | here => exact .inl rfl
    | item mem inner => exact .inr ⟨_, mem, inner⟩
  · rintro (rfl | ⟨d, mem, inner⟩)
    · exact .here _
    · exact .item mem inner

theorem holds_object {fields : List (String × Document)} {e : Document} :
    (Document.object fields).Holds e ↔ e = .object fields ∨ ∃ field ∈ fields, field.2.Holds e := by
  constructor
  · intro h
    cases h with
    | here => exact .inl rfl
    | field mem inner => exact .inr ⟨_, mem, inner⟩
  · rintro (rfl | ⟨field, mem, inner⟩)
    · exact .here _
    · exact .field mem inner

/-- Null, a truth value, a number or a string holds nothing else. -/
theorem holds_plain {d e : Document} (no_array : ∀ items, d ≠ .array items)
    (no_object : ∀ fields, d ≠ .object fields) : d.Holds e ↔ e = d := by
  constructor
  · intro h
    cases h with
    | here => rfl
    | item => exact absurd rfl (no_array _)
    | field => exact absurd rfl (no_object _)
  · rintro rfl
    exact .here _

theorem distinct_plain {d : Document} (no_array : ∀ items, d ≠ .array items)
    (no_object : ∀ fields, d ≠ .object fields) : Distinct d := fun fields h =>
  absurd ((holds_plain no_array no_object).mp h).symm (no_object fields)

theorem distinct_array {items : List Document} :
    Distinct (.array items) ↔ ∀ d ∈ items, Distinct d := by
  constructor
  · exact fun h d mem fields inner => h fields (.item mem inner)
  · intro h fields inner
    rcases holds_array.mp inner with same | ⟨d, mem, inner⟩
    · cases same
    · exact h d mem fields inner

theorem distinct_object {fields : List (String × Document)} : Distinct (.object fields) ↔
    (fields.map Prod.fst).Nodup ∧ ∀ field ∈ fields, Distinct field.2 := by
  constructor
  · exact fun h => ⟨h fields (.here _), fun field mem inner there => h inner (.field mem there)⟩
  · rintro ⟨once, all⟩ inner there
    rcases holds_object.mp there with same | ⟨field, mem, there⟩
    · cases same
      exact once
    · exact all field mem inner there

theorem texts_plain {d : Document} (no_array : ∀ items, d ≠ .array items)
    (no_object : ∀ fields, d ≠ .object fields) {s : String} : Texts d s ↔ d = .string s := by
  unfold Texts
  simp only [holds_plain no_array no_object]
  constructor
  · rintro (same | ⟨fields, same, -⟩)
    · exact same.symm
    · exact absurd same.symm (no_object fields)
  · exact fun same => .inl same.symm

theorem texts_array {items : List Document} {s : String} :
    Texts (.array items) s ↔ ∃ d ∈ items, Texts d s := by
  unfold Texts
  simp only [holds_array]
  constructor
  · rintro ((same | ⟨d, mem, inner⟩) | ⟨fields, same | ⟨d, mem, inner⟩, named⟩)
    · cases same
    · exact ⟨d, mem, .inl inner⟩
    · cases same
    · exact ⟨d, mem, .inr ⟨fields, inner, named⟩⟩
  · rintro ⟨d, mem, inner | ⟨fields, inner, named⟩⟩
    · exact .inl (.inr ⟨d, mem, inner⟩)
    · exact .inr ⟨fields, .inr ⟨d, mem, inner⟩, named⟩

theorem texts_object {fields : List (String × Document)} {s : String} : Texts (.object fields) s ↔
    ∃ field ∈ fields, field.1 = s ∨ Texts field.2 s := by
  unfold Texts
  simp only [holds_object]
  constructor
  · rintro ((same | ⟨field, mem, inner⟩) | ⟨other, same | ⟨field, mem, inner⟩, named⟩)
    · cases same
    · exact ⟨field, mem, .inr (.inl inner)⟩
    · cases same
      obtain ⟨field, mem, rfl⟩ := List.mem_map.mp named
      exact ⟨field, mem, .inl rfl⟩
    · exact ⟨field, mem, .inr (.inr ⟨other, inner, named⟩)⟩
  · rintro ⟨field, mem, rfl | inner | ⟨other, inner, named⟩⟩
    · exact .inr ⟨fields, .inl rfl, List.mem_map_of_mem mem⟩
    · exact .inl (.inr ⟨field, mem, inner⟩)
    · exact .inr ⟨other, .inr ⟨field, mem, inner⟩, named⟩

/-! ## Values -/

theorem values_eq (items : List Document) : Document.values items = items.map Document.value := by
  induction items with
  | nil => rfl
  | cons d items ih => rw [Document.values, ih, List.map_cons]

/-- A field that is new is put between the others. -/
theorem insertField_perm {name : String} {v : Value} {out : List (String × Value)}
    (fresh : name ∉ out.map Prod.fst) : (insertField name v out).Perm ((name, v) :: out) := by
  induction out with
  | nil => exact .refl _
  | cons first out ih =>
    obtain ⟨other, old⟩ := first
    rw [List.map_cons, List.mem_cons, not_or] at fresh
    rw [insertField, if_neg fresh.1]
    split
    · exact .refl _
    · exact ((ih fresh.2).cons _).trans (.swap ..)

theorem mem_keys_insertField {name : String} {v : Value} {out : List (String × Value)}
    (fresh : name ∉ out.map Prod.fst) {other : String} :
    other ∈ (insertField name v out).map Prod.fst ↔ other = name ∨ other ∈ out.map Prod.fst :=
  ((insertField_perm fresh).map Prod.fst).mem_iff.trans List.mem_cons

/-- The fields of a value are those that are written. -/
theorem fieldValues_perm {fields : List (String × Document)} {out : List (String × Value)}
    (once : (fields.map Prod.fst).Nodup)
    (fresh : ∀ name ∈ fields.map Prod.fst, name ∉ out.map Prod.fst) :
    (Document.fieldValues out fields).Perm (out ++ fields.map fun field =>
      (field.1, field.2.value)) := by
  induction fields generalizing out with
  | nil =>
    rw [List.map_nil, List.append_nil]
    exact .refl _
  | cons field fields ih =>
    obtain ⟨name, d⟩ := field
    rw [List.map_cons, List.nodup_cons] at once
    rw [List.map_cons, List.forall_mem_cons] at fresh
    refine (ih once.2 fun other mem there => ?_).trans ?_
    · rcases (mem_keys_insertField fresh.1).mp there with rfl | there
      · exact once.1 mem
      · exact fresh.2 other mem there
    · exact ((insertField_perm fresh.1).append_right _).trans List.perm_middle.symm

theorem objectValue_perm {fields : List (String × Document)} (once : (fields.map Prod.fst).Nodup) :
    (Document.fieldValues [] fields).Perm (fields.map fun field => (field.1, field.2.value)) :=
  fieldValues_perm once fun _ _ => List.not_mem_nil

/-- A field of a value is the value of the field. -/
theorem get_value {fields : List (String × Document)} (once : (fields.map Prod.fst).Nodup)
    {name : String} {v : Value} : (Document.object fields).value.get name = some v ↔
      ∃ d, (name, d) ∈ fields ∧ d.value = v := by
  have perm := objectValue_perm once
  have keys : ((Document.fieldValues [] fields).map Prod.fst).Nodup := by
    apply (perm.map Prod.fst).nodup_iff.mpr
    rw [List.map_map]
    exact once
  rw [Document.value, Value.get, lookup_eq_some keys, perm.mem_iff, List.mem_map]
  constructor
  · rintro ⟨⟨_, d⟩, mem, same⟩
    cases same
    exact ⟨d, mem, rfl⟩
  · rintro ⟨d, mem, rfl⟩
    exact ⟨_, mem, rfl⟩

end Permesh.Serde

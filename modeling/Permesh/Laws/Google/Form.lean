import Permesh.Google.Auth
import Permesh.Laws.Text
import Permesh.Lib.Percent

/-!
# Laws.Google.Form — credentials in a body

What a write adds to the buffer is known before it is made (`Writes`), so the capacity that is reserved
up front is enough for all of them, and no credential is left behind in an earlier allocation. The body
holds no byte of a value that a decoder could take for a mark.

Writes are composed like functions on the buffer, with the bytes they add; lengths are then a sum. The
decoder is the one of the URL standard, read as a function on bytes. Memory that the allocator keeps
is out of the model.
-/

namespace Permesh.Google

open Permesh.Lib
open Text (asBytes fromUtf8 fromUtf8_asBytes)

/-! ## Writes -/

/-- What a write adds to a buffer in which there is room for it. -/
def Writes (write : Buffer → Buffer) (out : List UInt8) : Prop :=
  ∀ b : Buffer, b.bytes.length + out.length ≤ b.capacity →
    write b = { b with bytes := b.bytes ++ out }

theorem writes_nil : Writes id [] := fun b _ => by rw [List.append_nil]; rfl

theorem writes_extend (slice : List UInt8) : Writes (·.extend slice) slice := fun _ fits => if_pos fits

theorem Writes.then {write write' : Buffer → Buffer} {out out' : List UInt8} (h : Writes write out)
    (h' : Writes write' out') : Writes (fun b => write' (write b)) (out ++ out') := by
  intro b fits
  rw [List.length_append] at fits
  have room : (b.bytes ++ out).length + out'.length ≤ b.capacity := by
    rw [List.length_append]
    omega
  show write' (write b) = _
  rw [h b (by omega), h' _ room, List.append_assoc]

theorem Writes.foldl {α : Type} {write : Buffer → α → Buffer} {out : α → List UInt8}
    (h : ∀ x, Writes (write · x) (out x)) (l : List α) :
    Writes (fun b => l.foldl write b) (l.flatMap out) := by
  induction l with
  | nil => exact writes_nil
  | cons x l ih => exact (h x).then ih

/-! ## Bytes -/

/-- What a byte of a value is written as. -/
def escape (byte : UInt8) : List UInt8 :=
  if unreserved byte then [byte] else [0x25, hexAt (byte >>> 4), hexAt (byte &&& 15)]

theorem writes_byte (byte : UInt8) : Writes (writeByte · byte) (escape byte) := by
  unfold writeByte escape
  split
  · exact writes_extend _
  · exact writes_extend _

/-- A statement about all bytes. -/
theorem forall_byte {p : UInt8 → Prop} (h : ∀ n : Fin 256, p (UInt8.ofFin n)) (b : UInt8) : p b :=
  h b.toFin

/-- Every byte is read back from its two digits. -/
theorem escaped_hex : ∀ b : UInt8, escaped 0x25 (hexAt (b >>> 4)) (hexAt (b &&& 15)) = some b :=
  forall_byte (by decide +kernel)

theorem escape_alphabet : ∀ b : UInt8, ∀ c ∈ escape b, unreserved c = true ∨ c = 0x25 := by
  have alphabet : ∀ b : UInt8, (escape b).all (fun c => unreserved c || c == 0x25) = true :=
    forall_byte (by decide +kernel)
  intro b c mem
  simpa using List.all_eq_true.mp (alphabet b) c mem

theorem unreserved_plain : ∀ b : UInt8, unreserved b = true → b ≠ 0x25 ∧ b ≠ 0x26 ∧ b ≠ 0x3d ∧ b ≠ 0x2b :=
  forall_byte (by decide +kernel)

theorem escapes : Escapes escape where
  read b := by
    unfold escape
    split
    case isTrue kept => exact .inl ⟨rfl, (unreserved_plain b kept).1⟩
    case isFalse => exact .inr ⟨_, _, rfl, escaped_hex b⟩
  unmarked b c mem := by
    rcases escape_alphabet b c mem with kept | rfl
    · exact (unreserved_plain c kept).2
    · decide

/-! ## Fields -/

/-- What a field is written as. -/
def encoded (field : String × String) : List UInt8 :=
  asBytes field.1 ++ 0x3d :: (asBytes field.2).flatMap escape

/-- What a field is written as behind `index` others. -/
def encodedAt (field : (String × String) × Nat) : List UInt8 :=
  (if field.2 > 0 then [0x26] else []) ++ encoded field.1

theorem writes_field (field : (String × String) × Nat) :
    Writes (fun b => writeField b field.2 field.1) (encodedAt field) := by
  have mark : Writes (fun b => if field.2 > 0 then b.push 0x26 else b)
      (if field.2 > 0 then [0x26] else []) := by
    split
    · exact writes_extend [0x26]
    · exact writes_nil
  have body := ((mark.then (writes_extend (asBytes field.1.1))).then (writes_extend [0x3d])).then
    (Writes.foldl writes_byte (asBytes field.1.2))
  have same : encodedAt field = (if field.2 > 0 then [0x26] else []) ++ asBytes field.1.1 ++ [0x3d] ++
      (asBytes field.1.2).flatMap escape := by
    simp only [encodedAt, encoded, List.append_assoc, List.singleton_append]
  rw [same]
  exact body

theorem writes_fields (fields : List (String × String)) :
    Writes (fun b => fields.zipIdx.foldl (fun body (field, index) => writeField body index field) b)
      (fields.zipIdx.flatMap encodedAt) :=
  Writes.foldl writes_field fields.zipIdx

/-- The capacity is enough for all fields. -/
theorem encoded_length_le (fields : List (String × String)) (n : Nat) :
    ((fields.zipIdx n).flatMap encodedAt).length ≤ formCapacity fields := by
  induction fields generalizing n with
  | nil => exact Nat.le_refl _
  | cons field fields ih =>
    have tail := ih (n + 1)
    have value := escapes.length_flatMap_le (asBytes field.2)
    have mark : (if n > 0 then [(0x26 : UInt8)] else []).length ≤ 1 := by
      split <;> simp
    have name : (asBytes field.1).length = Text.len field.1 := rfl
    have text : (asBytes field.2).length = Text.len field.2 := rfl
    have single : (encodedAt (field, n)).length ≤ Text.len field.1 + 2 + 3 * Text.len field.2 := by
      simp only [encodedAt, encoded, List.length_append, List.length_cons]
      omega
    rw [List.zipIdx_cons, List.flatMap_cons, List.length_append]
    show _ ≤ Text.len field.1 + 2 + 3 * Text.len field.2 + formCapacity fields
    omega

theorem form_eq (clientId refreshToken clientSecret : String) :
    form clientId refreshToken clientSecret =
      ⟨(formFields clientId refreshToken clientSecret).zipIdx.flatMap encodedAt,
        formCapacity (formFields clientId refreshToken clientSecret), false⟩ := by
  apply writes_fields _ (.withCapacity _)
  show 0 + _ ≤ _
  rw [Nat.zero_add]
  exact encoded_length_le _ 0

/-! ## Reading back -/

/-- The fields of a body as texts. -/
def decodeForm (body : List UInt8) : Option (List (String × String)) :=
  (formPairs body).mapM fun (name, value) =>
    (fromUtf8 name).bind fun name => (fromUtf8 value).map fun value => (name, value)

/-- The names are written as they are. -/
theorem escape_names {clientId refreshToken clientSecret : String} :
    ∀ field ∈ formFields clientId refreshToken clientSecret,
      (asBytes field.1).flatMap escape = asBytes field.1 := by
  simp only [formFields, List.forall_mem_cons, List.not_mem_nil, false_imp_iff, implies_true, and_true]
  decide +kernel

theorem encoded_alphabet {clientId refreshToken clientSecret : String} {field : String × String}
    (mem : field ∈ formFields clientId refreshToken clientSecret) {c : UInt8}
    (written : c ∈ encoded field) : unreserved c = true ∨ c = 0x25 ∨ c = 0x3d := by
  have escaped {bytes : List UInt8} (written : c ∈ bytes.flatMap escape) :
      unreserved c = true ∨ c = 0x25 := by
    obtain ⟨b, -, written⟩ := List.mem_flatMap.mp written
    exact escape_alphabet b c written
  rcases List.mem_append.mp written with name | rest
  · rw [← escape_names field mem] at name
    exact (escaped name).imp_right .inl
  · rcases List.mem_cons.mp rest with rfl | value
    · exact .inr (.inr rfl)
    · exact (escaped value).imp_right .inl

/-- The fields behind the first one are led by a mark. -/
theorem form_bytes (clientId refreshToken clientSecret : String) :
    (form clientId refreshToken clientSecret).bytes = [0x26].intercalate
      ((formFields clientId refreshToken clientSecret).map encoded) := by
  rw [form_eq]
  simp [formFields, List.zipIdx_cons, encodedAt, List.intercalate]

theorem form_pairs (clientId refreshToken clientSecret : String) :
    formPairs (form clientId refreshToken clientSecret).bytes =
      (formFields clientId refreshToken clientSecret).map fun field =>
        (asBytes field.1, asBytes field.2) := by
  have written : (formFields clientId refreshToken clientSecret).map encoded =
      ((formFields clientId refreshToken clientSecret).map fun field =>
        (asBytes field.1, asBytes field.2)).map fun field =>
          field.1.flatMap escape ++ 0x3d :: field.2.flatMap escape := by
    rw [List.map_map]
    apply List.map_congr_left
    intro field mem
    rw [Function.comp_apply, escape_names field mem, encoded]
  rw [form_bytes, written, escapes.formPairs_intercalate]

/-- **The body of a token exchange**: it fits into what was reserved, is never moved, has bytes without
a second meaning only, and its fields are read back. -/
theorem form_exact (clientId refreshToken clientSecret : String) :
    (form clientId refreshToken clientSecret).bytes.length ≤
      formCapacity (formFields clientId refreshToken clientSecret) ∧
    (form clientId refreshToken clientSecret).capacity =
      formCapacity (formFields clientId refreshToken clientSecret) ∧
    (form clientId refreshToken clientSecret).reallocated = false ∧
    (∀ c ∈ (form clientId refreshToken clientSecret).bytes,
      unreserved c = true ∨ c = 0x25 ∨ c = 0x3d ∨ c = 0x26) ∧
    decodeForm (form clientId refreshToken clientSecret).bytes =
      some [("grant_type", "refresh_token"), ("client_id", clientId),
        ("refresh_token", refreshToken), ("client_secret", clientSecret)] := by
  refine ⟨?_, ?_, ?_, fun c mem => ?_, ?_⟩
  · rw [form_eq]
    exact encoded_length_le _ 0
  · rw [form_eq]
  · rw [form_eq]
  · rw [form_eq] at mem
    obtain ⟨⟨field, n⟩, known, mem⟩ := List.mem_flatMap.mp mem
    have known : field ∈ formFields clientId refreshToken clientSecret :=
      (List.mem_zipIdx known).2.2 ▸ List.getElem_mem _
    rcases List.mem_append.mp mem with mark | written
    · split at mark
      · exact .inr (.inr (.inr (List.mem_singleton.mp mark)))
      · cases mark
    · rcases encoded_alphabet known written with plain | rfl | rfl
      · exact .inl plain
      · exact .inr (.inl rfl)
      · exact .inr (.inr (.inl rfl))
  · rw [decodeForm, form_pairs]
    simp [formFields, fromUtf8_asBytes]

example : (form "c" "a&=" "é").bytes = asBytes ("grant_type=refresh_token&client_id=c&" ++
    "refresh_token=a%26%3D&client_secret=%C3%A9") := by
  decide +kernel

end Permesh.Google

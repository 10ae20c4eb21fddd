import Mathlib.Data.List.Basic

/-!
# Percent — fields that are percent-encoded

`application/x-www-form-urlencoded`: a body is split at `&` and each field at its first `=`, a plus
stands for a space, and a percent sign with two hexadecimal digits for a byte. What `Escapes` asks of
an encoder is enough for every field to be read back.
-/

namespace Permesh.Lib

/-! ## Decoding -/

def hexValue (b : UInt8) : Option UInt8 :=
  if 0x30 ≤ b ∧ b ≤ 0x39 then some (b - 0x30)
  else if 0x41 ≤ b ∧ b ≤ 0x46 then some (b - 0x37)
  else if 0x61 ≤ b ∧ b ≤ 0x66 then some (b - 0x57)
  else none

/-- The byte that two hexadecimal digits behind a percent sign stand for. -/
def escaped (percent high low : UInt8) : Option UInt8 :=
  if percent = 0x25 then
    (hexValue high).bind fun high => (hexValue low).map fun low => 16 * high + low
  else none

/-- A percent sign without two digits is kept. -/
def percentDecode : List UInt8 → List UInt8
  | [] => []
  | [b] => [b]
  | [b, c] => [b, c]
  | b :: high :: low :: rest =>
    match escaped b high low with
    | some byte => byte :: percentDecode rest
    | none => b :: percentDecode (high :: low :: rest)

def plusToSpace (b : UInt8) : UInt8 := if b = 0x2b then 0x20 else b

def formDecode (bytes : List UInt8) : List UInt8 := percentDecode (bytes.map plusToSpace)

/-- The name and the value of a field. -/
def formField (field : List UInt8) : List UInt8 × List UInt8 :=
  (formDecode (field.takeWhile (· != 0x3d)), formDecode ((field.dropWhile (· != 0x3d)).drop 1))

/-- The fields of a body; empty ones are skipped. -/
def formPairs (body : List UInt8) : List (List UInt8 × List UInt8) :=
  ((body.splitOn 0x26).filter (· != [])).map formField

/-! ## What an encoder writes -/

/-- A byte is written as it is, or as a percent sign and two digits, without the marks of a body. -/
structure Escapes (escape : UInt8 → List UInt8) : Prop where
  read : ∀ b, escape b = [b] ∧ b ≠ 0x25 ∨
    ∃ high low, escape b = [0x25, high, low] ∧ escaped 0x25 high low = some b
  unmarked : ∀ b, ∀ c ∈ escape b, c ≠ 0x26 ∧ c ≠ 0x3d ∧ c ≠ 0x2b

theorem percentDecode_cons {b : UInt8} (plain : b ≠ 0x25) (rest : List UInt8) :
    percentDecode (b :: rest) = b :: percentDecode rest := by
  rcases rest with _ | ⟨c, _ | ⟨d, rest⟩⟩
  · rfl
  · rfl
  · rw [percentDecode, escaped, if_neg plain]

theorem percentDecode_escape {high low b : UInt8} (read : escaped 0x25 high low = some b)
    (rest : List UInt8) : percentDecode (0x25 :: high :: low :: rest) = b :: percentDecode rest := by
  rw [percentDecode, read]

namespace Escapes

variable {escape : UInt8 → List UInt8} (h : Escapes escape)

include h

theorem percentDecode_flatMap (bytes : List UInt8) :
    percentDecode (bytes.flatMap escape) = bytes := by
  induction bytes with
  | nil => rfl
  | cons b bytes ih =>
    rw [List.flatMap_cons]
    rcases h.read b with ⟨same, plain⟩ | ⟨high, low, same, read⟩
    · rw [same, List.singleton_append, percentDecode_cons plain, ih]
    · rw [same]
      show percentDecode (0x25 :: high :: low :: bytes.flatMap escape) = _
      rw [percentDecode_escape read, ih]

/-- The marks of a body are not in what is written. -/
theorem flatMap_unmarked {bytes : List UInt8} {c : UInt8} (mem : c ∈ bytes.flatMap escape) :
    c ≠ 0x26 ∧ c ≠ 0x3d ∧ c ≠ 0x2b := by
  obtain ⟨b, -, mem⟩ := List.mem_flatMap.mp mem
  exact h.unmarked b c mem

/-- Bytes that are written one by one are read back. -/
theorem formDecode_flatMap (bytes : List UInt8) : formDecode (bytes.flatMap escape) = bytes := by
  have kept : (bytes.flatMap escape).map plusToSpace = (bytes.flatMap escape).map id :=
    List.map_congr_left fun c mem => if_neg (h.flatMap_unmarked mem).2.2
  rw [List.map_id] at kept
  rw [formDecode, kept, h.percentDecode_flatMap]

theorem length_flatMap_le (bytes : List UInt8) :
    (bytes.flatMap escape).length ≤ 3 * bytes.length := by
  induction bytes with
  | nil => exact Nat.le_refl _
  | cons b bytes ih =>
    rw [List.flatMap_cons, List.length_append, List.length_cons]
    have single : (escape b).length ≤ 3 := by
      rcases h.read b with ⟨same, -⟩ | ⟨high, low, same, -⟩
      · rw [same, List.length_singleton]
        omega
      · exact Nat.le_of_eq (congrArg List.length same)
    omega

/-- A field is cut behind its name. -/
theorem formField_eq (name value : List UInt8) :
    formField (name.flatMap escape ++ 0x3d :: value.flatMap escape) = (name, value) := by
  have plain : ∀ c ∈ name.flatMap escape, (c != 0x3d) = true := fun c mem =>
    bne_iff_ne.mpr (h.flatMap_unmarked mem).2.1
  rw [formField, List.takeWhile_append_of_pos plain, List.dropWhile_append_of_pos plain]
  simp [h.formDecode_flatMap]

/-- **Fields are read back** from the body they are written to. -/
theorem formPairs_intercalate (fields : List (List UInt8 × List UInt8)) :
    formPairs ([0x26].intercalate (fields.map fun field =>
      field.1.flatMap escape ++ 0x3d :: field.2.flatMap escape)) = fields := by
  by_cases none : fields = []
  · rw [none]
    rfl
  · have unmarked : ∀ part ∈ fields.map fun field =>
        field.1.flatMap escape ++ 0x3d :: field.2.flatMap escape, 0x26 ∉ part := by
      intro part mem marked
      obtain ⟨field, -, rfl⟩ := List.mem_map.mp mem
      rcases List.mem_append.mp marked with marked | marked
      · exact (h.flatMap_unmarked marked).1 rfl
      · rcases List.mem_cons.mp marked with same | marked
        · exact absurd same (by decide)
        · exact (h.flatMap_unmarked marked).1 rfl
    have full : ∀ part ∈ fields.map fun field =>
        field.1.flatMap escape ++ 0x3d :: field.2.flatMap escape, (part != []) = true := by
      intro part mem
      obtain ⟨field, -, rfl⟩ := List.mem_map.mp mem
      exact bne_iff_ne.mpr (List.append_ne_nil_of_right_ne_nil _ (List.cons_ne_nil _ _))
    rw [formPairs, List.splitOn_intercalate 0x26 unmarked (by simpa using none),
      List.filter_eq_self.mpr full, List.map_map]
    calc fields.map _ = fields.map id :=
        List.map_congr_left fun field _ => h.formField_eq field.1 field.2
      _ = fields := List.map_id fields

end Escapes

end Permesh.Lib

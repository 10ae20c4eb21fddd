import Mathlib.Data.List.Basic
import Permesh.Text

/-!
# Separators — names put together

A name that is put together from parts is cut where a separator stands that does not occur in the
part before it, or in the part behind it.
-/

namespace Permesh.Lib

/-- A list is cut at the last occurrence of a separator in one way only. -/
theorem append_sep_inj {α : Type} {sep : α} {x y u v : List α} (hu : sep ∉ u) (hv : sep ∉ v)
    (h : x ++ sep :: u = y ++ sep :: v) : x = y ∧ u = v := by
  rcases List.append_eq_append_iff.mp h with ⟨w, rfl, hw⟩ | ⟨w, rfl, hw⟩
  · cases w with
    | nil => exact ⟨(List.append_nil x).symm, (List.cons.inj hw).2⟩
    | cons c w =>
      rw [(List.cons.inj hw).2] at hu
      exact absurd (List.mem_append_right _ (List.mem_cons_self ..)) hu
  · cases w with
    | nil => exact ⟨List.append_nil y, (List.cons.inj hw).2.symm⟩
    | cons c w =>
      rw [(List.cons.inj hw).2] at hv
      exact absurd (List.mem_append_right _ (List.mem_cons_self ..)) hv

/-- A list is cut at the first occurrence of a separator in one way only. -/
theorem sep_append_inj {α : Type} {sep : α} {x y u v : List α} (hx : sep ∉ x) (hy : sep ∉ y)
    (h : x ++ sep :: u = y ++ sep :: v) : x = y ∧ u = v := by
  rcases List.append_eq_append_iff.mp h with ⟨w, rfl, hw⟩ | ⟨w, rfl, hw⟩
  · cases w with
    | nil => exact ⟨(List.append_nil x).symm, (List.cons.inj hw).2⟩
    | cons c w =>
      rw [← (List.cons.inj hw).1] at hy
      exact absurd (List.mem_append_right _ (List.mem_cons_self ..)) hy
  · cases w with
    | nil => exact ⟨List.append_nil y, (List.cons.inj hw).2.symm⟩
    | cons c w =>
      rw [← (List.cons.inj hw).1] at hx
      exact absurd (List.mem_append_right _ (List.mem_cons_self ..)) hx

/-! ## Parts between separators -/

theorem splitChars_eq (p : Char → Bool) (l : List Char) : Text.splitChars p l = l.splitOnP p := by
  induction l with
  | nil => rfl
  | cons c l ih =>
    rw [Text.splitChars, List.splitOnP_cons_eq_if_modifyHead, ih]
    split
    · rfl
    · cases parts : l.splitOnP p with
      | nil => exact absurd parts (List.splitOnP_ne_nil p l)
      | cons part parts => rfl

/-- Parts without the separator are read back. -/
theorem split_intercalate {c : Char} {sep : String} (single : sep.toList = [c])
    {parts : List String} (nonempty : parts ≠ []) (free : ∀ s ∈ parts, c ∉ s.toList) :
    Text.split c (sep.intercalate parts) = parts := by
  have whole : (([c].intercalate (parts.map String.toList)).splitOn c) =
      parts.map String.toList :=
    List.splitOn_intercalate c (by simpa using free) (by simpa using nonempty)
  rw [Text.split, splitChars_eq, String.toList_intercalate, single]
  unfold List.splitOn at whole
  rw [whole, List.map_map]
  simp

/-! ## Colons -/

/-- A text without a colon. -/
def Plain (s : String) : Prop := ':' ∉ s.toList

instance (s : String) : Decidable (Plain s) := inferInstanceAs (Decidable (':' ∉ s.toList))

theorem plain_digits (n : Nat) : Plain (toString n) := by
  intro h
  rw [Nat.toString_eq_repr, Nat.toList_repr] at h
  exact absurd (Nat.isDigit_of_mem_toDigits (by decide) (by decide) h) (by decide)

/-- The part before the first colon is read back. -/
theorem colon_append_inj {s s' t t' : String} (hs : Plain s) (hs' : Plain s')
    (h : s ++ (":" ++ t) = s' ++ (":" ++ t')) : s = s' ∧ t = t' := by
  have h := congrArg String.toList h
  simp only [String.toList_append] at h
  obtain ⟨front, back⟩ := sep_append_inj hs hs' h
  exact ⟨String.toList_inj.mp front, String.toList_inj.mp back⟩

/-- Text, a colon and a number are read back from their concatenation. -/
theorem append_colon_inj {s s' : String} {n n' : Nat}
    (h : s ++ (":" ++ toString n) = s' ++ (":" ++ toString n')) : s = s' ∧ n = n' := by
  have h := congrArg String.toList h
  simp only [String.toList_append] at h
  obtain ⟨hs, hn⟩ := append_sep_inj (plain_digits n) (plain_digits n') h
  exact ⟨String.toList_inj.mp hs, Text.toString_injective (String.toList_inj.mp hn)⟩

end Permesh.Lib

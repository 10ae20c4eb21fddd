import Permesh.Text
import Mathlib.Data.List.Infix

/-!
# Laws.Text — prefixes, substrings and lower case

What the string functions decide, said of the characters.

They are shown for the functions of the source as they recurse, so that no law about texts looks at a
position again. Case is that of ASCII throughout.
-/

namespace Permesh.Text

theorem stripPrefix_iff {pre s t : String} : stripPrefix pre s = some t ↔ s = pre ++ t := by
  unfold stripPrefix
  constructor
  · intro h
    split at h
    case isTrue is_pre =>
      obtain ⟨rest, eq⟩ := List.isPrefixOf_iff_prefix.mp is_pre
      rw [← eq, List.drop_left, Option.some.injEq] at h
      subst h
      apply String.toList_injective
      rw [String.toList_append, String.toList_ofList, eq]
    case isFalse => cases h
  · rintro rfl
    rw [String.toList_append, List.drop_left, String.ofList_toList, if_pos]
    exact List.isPrefixOf_iff_prefix.mpr ⟨_, rfl⟩

theorem containsChars_iff {pattern s : List Char} :
    containsChars pattern s = true ↔ pattern <:+: s := by
  induction s with
  | nil => simp [containsChars]
  | cons c rest ih =>
    rw [containsChars, Bool.or_eq_true, ih, List.isPrefixOf_iff_prefix, List.infix_cons_iff]

/-- A string contains another when its characters do. -/
theorem contains_iff {pattern s : String} :
    contains pattern s = true ↔ pattern.toList <:+: s.toList := containsChars_iff

/-- No upper case letter becomes another one. -/
theorem toAsciiLowercase_idem (c : Char) :
    toAsciiLowercase (toAsciiLowercase c) = toAsciiLowercase c := by
  have lower : ∀ n < 91, 65 ≤ n → isAsciiUppercase (Char.ofNat (n + 32)) = false := by decide
  unfold toAsciiLowercase
  by_cases upper : isAsciiUppercase c = true
  · have bounds := upper
    rw [isAsciiUppercase, Bool.and_eq_true, decide_eq_true_eq, decide_eq_true_eq] at bounds
    obtain ⟨above, below⟩ := bounds
    have above : 65 ≤ c.toNat := above
    have below : c.toNat ≤ 90 := below
    rw [if_pos upper, lower c.toNat (by omega) above]
    rfl
  · rw [if_neg upper, if_neg upper]

theorem lowercase_idem (s : String) : lowercase (lowercase s) = lowercase s := by
  unfold lowercase
  rw [String.toList_ofList, List.map_map]
  exact congrArg String.ofList (List.map_congr_left fun c _ => toAsciiLowercase_idem c)

@[simp] theorem asBytes_append (s t : String) : asBytes (s ++ t) = asBytes s ++ asBytes t := by
  simp [asBytes]

/-- The bytes of a text are read back. -/
theorem fromUtf8_asBytes (s : String) : fromUtf8 (asBytes s) = some s := dif_pos s.isValidUTF8

/-- The decimal digits of a number are read back. -/
theorem digits_toDigits (n : Nat) : digits (Nat.toDigits 10 n) = some n := by
  have all : (Nat.toDigits 10 n).all isAsciiDigit = true :=
    List.all_eq_true.mpr fun c mem => Nat.isDigit_of_mem_toDigits (by decide) (by decide) mem
  rw [digits, if_neg]
  · exact congrArg some Nat.ofDigitChars_ten_toDigits
  · exact not_or.mpr ⟨Nat.toDigits_ne_nil, not_not.mpr all⟩

theorem parseUnsigned_toString {bound n : Nat} (below : n < bound) :
    parseUnsigned bound (toString n) = some n := by
  have plain : (toString n).toList = Nat.toDigits 10 n := by
    rw [Nat.toString_eq_repr, Nat.toList_repr]
  unfold parseUnsigned
  rw [plain]
  split
  case h_1 rest eq =>
    have plus : '+' ∈ Nat.toDigits 10 n := by
      rw [eq]
      exact List.mem_cons_self
    exact absurd (Nat.isDigit_of_mem_toDigits (by decide) (by decide) plus) (by decide)
  case h_2 =>
    rw [digits_toDigits, Option.filter_some, if_pos (decide_eq_true below)]

end Permesh.Text

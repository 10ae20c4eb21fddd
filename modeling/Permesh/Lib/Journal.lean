import Permesh.Lib.Maps
import Mathlib.Data.List.Basic

/-!
# Journal — a map of last entries, up to a filter

Entries are issued one after another and a map keeps the last one under each key. Some entries are
not recorded, since they would not be kept anyway: a filter is applied at the end. Behind the
filter, the map holds the last entry that was issued under each key.
-/

namespace Permesh.Lib

open Std

variable {κ β : Type}

/-- The last entry under a key. -/
def lastUnder [DecidableEq κ] (keyOf : β → κ) (k : κ) (issued : List β) : Option β :=
  (issued.filter fun v => keyOf v = k).getLast?

section LastUnder

variable {keyOf : β → κ} {k : κ} {issued : List β} {v : β} [DecidableEq κ]

theorem lastUnder_append_singleton :
    lastUnder keyOf k (issued ++ [v]) = if keyOf v = k then some v else lastUnder keyOf k issued := by
  by_cases h : keyOf v = k <;> simp [lastUnder, h]

/-- The last entry was issued. -/
theorem lastUnder_eq_some (h : lastUnder keyOf k issued = some v) : v ∈ issued ∧ keyOf v = k := by
  have mem := List.mem_of_getLast? h
  rw [List.mem_filter, decide_eq_true_eq] at mem
  exact mem

theorem lastUnder_isSome : (lastUnder keyOf k issued).isSome = true ↔ ∃ v ∈ issued, keyOf v = k := by
  rw [lastUnder, List.getLast?_isSome, ne_eq, List.filter_eq_nil_iff]
  simp

/-- If all entries under a key are the same, their order does not matter. -/
theorem lastUnder_perm {issued' : List β} (h : issued.Perm issued')
    (one : ∀ u ∈ issued, ∀ v ∈ issued, keyOf u = k → keyOf v = k → u = v) :
    lastUnder keyOf k issued = lastUnder keyOf k issued' := by
  cases hu : lastUnder keyOf k issued with
  | none =>
    cases hv : lastUnder keyOf k issued' with
    | none => rfl
    | some v =>
      obtain ⟨mem, key⟩ := lastUnder_eq_some hv
      have := lastUnder_isSome.mpr ⟨v, h.mem_iff.mpr mem, key⟩
      rw [hu] at this
      cases this
  | some u =>
    obtain ⟨mem, key⟩ := lastUnder_eq_some hu
    have some' := lastUnder_isSome.mpr ⟨u, h.mem_iff.mp mem, key⟩
    obtain ⟨v, hv⟩ := Option.isSome_iff_exists.mp some'
    obtain ⟨mem', key'⟩ := lastUnder_eq_some hv
    rw [hv, one u mem v (h.mem_iff.mpr mem') key key']

end LastUnder

variable [Ord κ] [TransOrd κ]

/-- Behind the filter, the map holds the last entries. -/
def Journal [DecidableEq κ] (keyOf : β → κ) (keep : β → Bool) (issued : List β)
    (m : ExtTreeMap κ β) : Prop :=
  ∀ k, (m[k]?).filter keep = (lastUnder keyOf k issued).filter keep

namespace Journal

variable {keyOf : β → κ} {keep : β → Bool} {issued : List β} {m : ExtTreeMap κ β} [DecidableEq κ]

theorem empty : Journal keyOf keep [] (∅ : ExtTreeMap κ β) := by
  intro k
  rw [ExtTreeMap.getElem?_empty]
  rfl

/-- An entry that is recorded. -/
theorem insert [LawfulEqOrd κ] (h : Journal keyOf keep issued m) (v : β) :
    Journal keyOf keep (issued ++ [v]) (m.insert (keyOf v) v) := by
  intro k
  rw [getElem?_insert_key, lastUnder_append_singleton]
  split
  · rfl
  · exact h k

/-- A filter that keeps less. -/
theorem narrow (h : Journal keyOf keep issued m) (keep' : β → Bool)
    (le : ∀ v, keep' v = true → keep v = true) : Journal keyOf keep' issued m := by
  have split (o : Option β) : o.filter keep' = (o.filter keep).filter keep' := by
    cases o with
    | none => rfl
    | some v =>
      rw [Option.filter_some, Option.filter_some]
      by_cases hv : keep' v = true
      · rw [if_pos hv, if_pos (le v hv), Option.filter_some, if_pos hv]
      · rw [if_neg hv]
        split
        · rw [Option.filter_some, if_neg hv]
        · rfl
  intro k
  rw [split, split (lastUnder keyOf k issued), h k]

/-- An entry that is not recorded, like all entries under its key. -/
theorem drop (h : Journal keyOf keep issued m) {v : β} (hv : keep v = false)
    (same : ∀ u ∈ issued, keyOf u = keyOf v → keep u = false) :
    Journal keyOf keep (issued ++ [v]) m := by
  intro k
  rw [lastUnder_append_singleton]
  by_cases hk : keyOf v = k
  · rw [if_pos hk, Option.filter_some, hv, h k]
    cases hl : lastUnder keyOf k issued with
    | none => rfl
    | some u =>
      obtain ⟨mem, key⟩ := lastUnder_eq_some hl
      rw [Option.filter_some, same u mem (key.trans hk.symm)]
      rfl
  · rw [if_neg hk]
    exact h k

end Journal

theorem filterMap_singleton {α : Type} {f : α → Option β} {a : α} :
    [a].filterMap f = (f a).toList := by
  cases h : f a <;> simp [h]

end Permesh.Lib

import Permesh.Lib.Fold
import Permesh.Lib.Maps

/-!
# Staged — names that must not be taken twice

Entries are staged under a key, and the keys that are taken twice are noted. When all entries are
staged, these keys are taken out: what is left under a key is its only entry
(`getElem?_settled`), whatever the order of the entries.
-/

namespace Permesh.Lib

open Std

variable {κ α : Type}

/-! ## Entries of a key -/

section

variable [DecidableEq κ]

/-- The entries of a key. -/
def entries (k : κ) (l : List (κ × α)) : List α := (l.filter fun e => e.1 = k).map Prod.snd

theorem entries_append (k : κ) (l l' : List (κ × α)) :
    entries k (l ++ l') = entries k l ++ entries k l' := by
  rw [entries, List.filter_append, List.map_append]
  rfl

theorem entries_singleton (k : κ) (e : κ × α) :
    entries k [e] = if e.1 = k then [e.2] else [] := by
  rw [entries, List.filter_singleton]
  by_cases same : e.1 = k <;> simp [same]

theorem mem_entries {k : κ} {l : List (κ × α)} {a : α} : a ∈ entries k l ↔ (k, a) ∈ l := by
  simp [entries]

/-- A list that keeps a single thing. -/
theorem filterMap_eq_singleton {β γ : Type} {f : β → Option γ} {l : List β} (nodup : l.Nodup)
    {c : γ} :
    l.filterMap f = [c] ↔ ∃ b ∈ l, f b = some c ∧ ∀ b' ∈ l, (f b').isSome = true → b' = b := by
  rw [List.filterMap_eq_cons_iff]
  constructor
  · rintro ⟨l₁, b, l₂, rfl, before, here, behind⟩
    refine ⟨b, by simp, here, fun b' mem there => ?_⟩
    rw [List.filterMap_eq_nil_iff] at behind
    rcases List.mem_append.mp mem with mem | mem
    · rw [before b' mem] at there
      cases there
    · rcases List.mem_cons.mp mem with rfl | mem
      · rfl
      · rw [behind b' mem] at there
        cases there
  · rintro ⟨b, mem, here, only⟩
    obtain ⟨l₁, l₂, rfl⟩ := List.append_of_mem mem
    obtain ⟨-, nodup, apart⟩ := List.nodup_append.mp nodup
    have none {b' : β} (mem : b' ∈ l₁ ++ b :: l₂) (other : b' ≠ b) : f b' = none := by
      cases there : f b' with
      | none => rfl
      | some c' => exact absurd (only b' mem (by rw [there]; rfl)) other
    refine ⟨l₁, b, l₂, rfl, fun x hx => none (by simp [hx]) ?_, here, ?_⟩
    · rintro rfl
      exact apart x hx x (List.mem_cons_self ..) rfl
    · refine List.filterMap_eq_nil_iff.mpr fun x hx => none (by simp [hx]) ?_
      rintro rfl
      exact (List.nodup_cons.mp nodup).1 hx

/-- The single entry of a key, where each thing has one entry at most. -/
theorem entries_eq_singleton {β : Type} {f : β → Option (κ × α)} {l : List β} (nodup : l.Nodup)
    {k : κ} {a : α} :
    entries k (l.filterMap f) = [a] ↔
      ∃ b ∈ l, f b = some (k, a) ∧ ∀ b' ∈ l, ∀ a', f b' = some (k, a') → b' = b := by
  have whole : entries k (l.filterMap f) =
      l.filterMap fun b => (f b).bind fun e => if e.1 = k then some e.2 else none := by
    rw [entries, ← List.filterMap_eq_filter, List.map_filterMap, List.filterMap_filterMap]
    apply List.filterMap_congr
    intro b _
    cases f b with
    | none => rfl
    | some e => by_cases same : e.1 = k <;> simp [same]
  have entry (b : β) (a' : α) :
      ((f b).bind fun e => if e.1 = k then some e.2 else none) = some a' ↔
        f b = some (k, a') := by
    cases f b with
    | none => simp
    | some e => by_cases same : e.1 = k <;> simp [Prod.ext_iff, same]
  rw [whole, filterMap_eq_singleton nodup]
  simp only [entry, Option.isSome_iff_exists, forall_exists_index]

end

/-! ## Staging -/

/-- A map, with the keys that were taken twice. -/
structure Staged (κ α : Type) [Ord κ] [TransOrd κ] where
  map : ExtTreeMap κ α
  conflicts : ExtTreeSet κ

namespace Staged

variable [Ord κ] [TransOrd κ]

def empty : Staged κ α := ⟨∅, ∅⟩

/-- One entry more; the last entry of a key is in the map. -/
def put (s : Staged κ α) (k : κ) (a : α) : Staged κ α where
  map := s.map.insert k a
  conflicts := if k ∈ s.map then s.conflicts.insert k else s.conflicts

/-- The keys that were taken twice are taken out. -/
def settled (s : Staged κ α) : ExtTreeMap κ α := s.conflicts.toList.foldl (·.erase ·) s.map

variable [DecidableEq κ]

/-- What is staged of a list of entries. -/
structure Holds (l : List (κ × α)) (s : Staged κ α) : Prop where
  entry : ∀ k, s.map[k]? = (entries k l).getLast?
  conflict : ∀ k, k ∈ s.conflicts ↔ 2 ≤ (entries k l).length

theorem holds_empty : Holds [] (empty : Staged κ α) where
  entry k := by rw [empty, ExtTreeMap.getElem?_empty]; rfl
  conflict k := by simp [empty, entries]

theorem Holds.mem_iff {l : List (κ × α)} {s : Staged κ α} (h : Holds l s) (k : κ) :
    k ∈ s.map ↔ entries k l ≠ [] := by
  rw [ExtTreeMap.mem_iff_isSome_getElem?, h.entry, List.getLast?_isSome]

variable [LawfulEqOrd κ]

theorem Holds.put {l : List (κ × α)} {s : Staged κ α} (h : Holds l s) (k : κ) (a : α) :
    Holds (l ++ [(k, a)]) (s.put k a) where
  entry k' := by
    rw [Staged.put, getElem?_insert_key, entries_append, entries_singleton]
    dsimp only
    split
    · rw [List.getLast?_concat]
    · rw [List.append_nil, h.entry]
  conflict k' := by
    rw [entries_append, entries_singleton]
    by_cases same : k = k'
    · subst same
      have filled := h.mem_iff k
      have before := h.conflict k
      rw [Ne, ← List.length_eq_zero_iff] at filled
      simp only [Staged.put, if_pos, List.length_append, List.length_singleton]
      split
      case isTrue there =>
        have := filled.mp there
        exact ⟨fun _ => by omega, fun _ => mem_insert_key.mpr (.inl rfl)⟩
      case isFalse fresh =>
        have := mt filled.mpr fresh
        rw [before]
        omega
    · rw [if_neg same, List.append_nil, ← h.conflict, Staged.put]
      dsimp only
      split
      · rw [mem_insert_key, or_iff_right same]
      · rfl

/-- Taking out some keys. -/
theorem getElem?_eraseAll (keys : List κ) (m : ExtTreeMap κ α) (k : κ) :
    (keys.foldl (·.erase ·) m)[k]? = if k ∈ keys then none else m[k]? := by
  induction keys generalizing m with
  | nil => simp
  | cons key keys ih =>
    rw [List.foldl_cons, ih, getElem?_erase_key]
    by_cases there : k ∈ keys
    · simp [there]
    · simp only [List.mem_cons, there, or_false, if_false, eq_comm]

/-- **What is left is the only entry of its key.** -/
theorem Holds.getElem?_settled {l : List (κ × α)} {s : Staged κ α} (h : Holds l s) {k : κ} {a : α} :
    s.settled[k]? = some a ↔ entries k l = [a] := by
  have gone : k ∈ s.conflicts.toList ↔ 2 ≤ (entries k l).length := by
    rw [ExtTreeSet.mem_toList, h.conflict]
  rw [settled, getElem?_eraseAll, h.entry]
  simp only [gone]
  cases entries k l with
  | nil => simp
  | cons b rest =>
    cases rest with
    | nil => simp
    | cons c rest => simp

/-- The entry of a key that was not taken twice. -/
theorem Holds.settled_of_free {l : List (κ × α)} {s : Staged κ α} (h : Holds l s) {k : κ} {a : α}
    (free : k ∉ s.conflicts) (mem : (k, a) ∈ l) : s.settled[k]? = some a := by
  rw [h.conflict] at free
  rw [h.getElem?_settled]
  have there := mem_entries.mpr mem
  cases eq : entries k l with
  | nil =>
    rw [eq] at there
    cases there
  | cons b rest =>
    cases rest with
    | nil =>
      rw [eq] at there
      rw [List.mem_singleton.mp there]
    | cons c rest =>
      rw [eq] at free
      simp at free

end Staged

end Permesh.Lib

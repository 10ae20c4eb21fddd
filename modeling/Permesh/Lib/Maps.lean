import Mathlib.Data.List.Induction
import Mathlib.Data.List.Nodup
import Std.Data.ExtTreeMap
import Std.Data.ExtTreeSet

/-!
# Ordered maps over a lawful order

Lookup rules for ordered maps and sets whose keys compare equal only when they are equal: the
comparison of the library lemmas becomes an equation of keys. A map is the list of its values in
the order of their keys, and two maps with the same lookups are the same map.
-/

namespace Permesh.Lib

open Std

/-- One more element, which is new. -/
theorem nodup_snoc {α : Type} {l : List α} {a : α} (h : l.Nodup) (new : a ∉ l) : (l ++ [a]).Nodup := by
  rw [← List.concat_eq_append]
  exact h.concat new

theorem nodup_map_snoc {α β : Type} {f : α → β} {l : List α} {a : α} (h : (l.map f).Nodup)
    (new : ∀ b ∈ l, f b ≠ f a) : ((l ++ [a]).map f).Nodup := by
  rw [List.map_append]
  apply nodup_snoc h
  intro mem
  obtain ⟨b, there, eq⟩ := List.mem_map.mp mem
  exact new b there eq

/-- What holds of each element, and of one more. -/
theorem forall_mem_snoc {α : Type} {P : α → Prop} {l : List α} {a : α} (before : ∀ x ∈ l, P x)
    (here : P a) : ∀ x ∈ l ++ [a], P x := by
  intro x mem
  rcases List.mem_append.mp mem with mem | mem
  · exact before x mem
  · exact List.mem_singleton.mp mem ▸ here

theorem exists_mem_snoc {α : Type} {P : α → Prop} {l : List α} {a : α} :
    (∃ x ∈ l ++ [a], P x) ↔ (∃ x ∈ l, P x) ∨ P a := by
  simp only [List.mem_append, List.mem_singleton, or_and_right, exists_or, exists_eq_left]

/-- Where no name is repeated, a lookup gives what stands at the name. -/
theorem lookup_eq_some {κ α : Type} [BEq κ] [LawfulBEq κ] {fields : List (κ × α)}
    (once : (fields.map Prod.fst).Nodup) {name : κ} {value : α} :
    fields.lookup name = some value ↔ (name, value) ∈ fields := by
  induction fields with
  | nil => simp
  | cons field rest ih =>
    obtain ⟨other, first⟩ := field
    rw [List.map_cons, List.nodup_cons] at once
    rw [List.lookup_cons, List.mem_cons]
    split
    case h_1 same =>
      cases eq_of_beq same
      have gone : (name, value) ∉ rest := fun there =>
        once.1 (List.mem_map.mpr ⟨_, there, rfl⟩)
      simp [gone, eq_comm]
    case h_2 same =>
      have ne : name ≠ other := by simpa using same
      simp [ih once.2, ne]

variable {κ : Type} {α : Type} [Ord κ] [TransOrd κ] [LawfulEqOrd κ] [DecidableEq κ]

theorem getElem?_insert_key {m : ExtTreeMap κ α} {k a : κ} {v : α} :
    (m.insert k v)[a]? = if k = a then some v else m[a]? := by
  rw [ExtTreeMap.getElem?_insert]
  simp only [LawfulEqCmp.compare_eq_iff_eq]

theorem getElem?_erase_key {m : ExtTreeMap κ α} {k a : κ} :
    (m.erase k)[a]? = if k = a then none else m[a]? := by
  rw [ExtTreeMap.getElem?_erase]
  simp only [LawfulEqCmp.compare_eq_iff_eq]

omit [DecidableEq κ] in
theorem mem_insert_key {s : ExtTreeSet κ} {k a : κ} : a ∈ s.insert k ↔ k = a ∨ a ∈ s := by
  rw [ExtTreeSet.mem_insert]
  simp only [LawfulEqCmp.compare_eq_iff_eq]

omit [DecidableEq κ] in
/-- Maps that have the same keys list them in the same order. -/
theorem keys_eq_of_mem {m : ExtTreeMap κ α} {β : Type} {m' : ExtTreeMap κ β}
    (same : ∀ k, k ∈ m ↔ k ∈ m') : m.keys = m'.keys := by
  have units : m.map (fun _ _ => ()) = m'.map fun _ _ => () :=
    ExtTreeMap.ext_mem_unit fun k => by
      rw [ExtTreeMap.mem_map, ExtTreeMap.mem_map]
      exact same k
  rw [← ExtTreeMap.keys_map (f := fun _ _ => ()), units, ExtTreeMap.keys_map]

/-- A filter that every entry passes. -/
theorem filter_eq_self {o : Option α} {keep : α → Bool} (h : ∀ a, o = some a → keep a = true) :
    o.filter keep = o := by
  cases o with
  | none => rfl
  | some a => rw [Option.filter_some, if_pos (h a rfl)]

/-- The values of a map, in the order of their keys. -/
def values (m : ExtTreeMap κ α) : List α := m.toList.map Prod.snd

omit [DecidableEq κ] in
/-- The values of a map are what its keys look up. -/
theorem mem_values {m : ExtTreeMap κ α} {v : α} : v ∈ values m ↔ ∃ k : κ, m[k]? = some v := by
  simp only [values, List.mem_map, Prod.exists, exists_eq_right]
  constructor
  · rintro ⟨k, h⟩
    exact ⟨k, ExtTreeMap.mem_toList_iff_getElem?_eq_some.mp h⟩
  · rintro ⟨k, h⟩
    exact ⟨k, ExtTreeMap.mem_toList_iff_getElem?_eq_some.mpr h⟩

omit [LawfulEqOrd κ] [DecidableEq κ] in
/-- Filtering the values is filtering the map. -/
theorem values_filter {m : ExtTreeMap κ α} {keep : α → Bool} :
    (values m).filter keep = values (m.filter fun _ v => keep v) := by
  rw [values, values, ExtTreeMap.toList_filter, List.filter_map]
  rfl

/-! ## Entries that carry their key -/

/-- Every entry stands under its own key. -/
def KeyedBy (keyOf : α → κ) (m : ExtTreeMap κ α) : Prop := ∀ (k : κ) a, m[k]? = some a → keyOf a = k

omit [DecidableEq κ] [LawfulEqOrd κ] in
theorem keyedBy_empty (keyOf : α → κ) : KeyedBy keyOf (∅ : ExtTreeMap κ α) := by
  intro k a h
  rw [ExtTreeMap.getElem?_empty] at h
  cases h

theorem KeyedBy.insert {keyOf : α → κ} {m : ExtTreeMap κ α} (h : KeyedBy keyOf m) {k : κ} {a : α}
    (ha : keyOf a = k) : KeyedBy keyOf (m.insert k a) := by
  intro k' a' h'
  rw [getElem?_insert_key] at h'
  split at h'
  case isTrue same =>
    cases h'
    exact ha.trans same
  case isFalse => exact h k' a' h'

theorem KeyedBy.erase {keyOf : α → κ} {m : ExtTreeMap κ α} (h : KeyedBy keyOf m) (k : κ) :
    KeyedBy keyOf (m.erase k) := by
  intro k' a' h'
  rw [getElem?_erase_key] at h'
  split at h'
  · cases h'
  · exact h k' a' h'

omit [DecidableEq κ] in
/-- The values of a map in some order: an entry stands for its key. -/
theorem exists_mem_sorted {m : ExtTreeMap κ α} {sorted : List α} (perm : sorted.Perm (values m))
    {keyOf : α → κ} (keys : KeyedBy keyOf m) (k : κ) :
    (∃ a ∈ sorted, keyOf a = k) ↔ (m[k]?).isSome = true := by
  simp only [perm.mem_iff, mem_values, Option.isSome_iff_exists]
  constructor
  · rintro ⟨a, ⟨k', h⟩, rfl⟩
    rw [keys k' a h]
    exact ⟨a, h⟩
  · rintro ⟨a, h⟩
    exact ⟨a, ⟨k, h⟩, keys k a h⟩

/-- Looking for a key in the values of a map, in some order, is looking it up. -/
theorem find?_sorted {m : ExtTreeMap κ α} {sorted : List α} (perm : sorted.Perm (values m))
    {keyOf : α → κ} (keys : KeyedBy keyOf m) (k : κ) :
    sorted.find? (fun a => decide (keyOf a = k)) = m[k]? := by
  cases found : sorted.find? fun a => decide (keyOf a = k) with
  | none =>
    cases there : m[k]? with
    | none => rfl
    | some a =>
      have mem : a ∈ sorted := perm.mem_iff.mpr (mem_values.mpr ⟨k, there⟩)
      exact absurd (decide_eq_true (keys k a there)) (List.find?_eq_none.mp found a mem)
  | some a =>
    have key := List.find?_some found
    rw [decide_eq_true_eq] at key
    obtain ⟨k', there⟩ := mem_values.mp (perm.mem_iff.mp (List.mem_of_find?_eq_some found))
    rw [← key, keys k' a there, there]

omit [DecidableEq κ] in
/-- The keys of entries that carry them. -/
theorem keys_of_values {m : ExtTreeMap κ α} {keyOf : α → κ} (keyed : KeyedBy keyOf m) :
    (values m).map keyOf = m.keys := by
  rw [← ExtTreeMap.map_fst_toList_eq_keys, values, List.map_map]
  apply List.map_congr_left
  intro entry mem
  exact keyed entry.1 entry.2 (ExtTreeMap.mem_toList_iff_getElem?_eq_some.mp mem)

omit [DecidableEq κ] in
/-- No two entries carry the same key. -/
theorem KeyedBy.nodup {m : ExtTreeMap κ α} {keyOf : α → κ} (keyed : KeyedBy keyOf m) :
    ((values m).map keyOf).Nodup := by
  rw [keys_of_values keyed]
  exact ExtTreeMap.nodup_keys

omit [DecidableEq κ] in
/-- A filter keeps entries only. -/
theorem KeyedBy.filter {m : ExtTreeMap κ α} {keyOf : α → κ} (keyed : KeyedBy keyOf m)
    (keep : κ → α → Bool) : KeyedBy keyOf (m.filter keep) := by
  intro k a h
  rw [ExtTreeMap.getElem?_filter'] at h
  exact keyed k a (Option.filter_eq_some_iff.mp h).1

omit [DecidableEq κ] in
theorem mem_insert_map {m : ExtTreeMap κ α} {k a : κ} {v : α} :
    a ∈ m.insert k v ↔ k = a ∨ a ∈ m := by
  rw [ExtTreeMap.mem_insert]
  simp only [LawfulEqCmp.compare_eq_iff_eq]

/-! ## Entries that are taken out -/

/-- A key stands in a map, or its entry was taken out of it. -/
def Seen (m : ExtTreeMap κ α) (out : ExtTreeSet κ) (k : κ) : Prop := k ∈ m ∨ k ∈ out

/-- What was taken out of a map is not put back. -/
def Apart (m : ExtTreeMap κ α) (out : ExtTreeSet κ) : Prop := ∀ k ∈ out, k ∉ m

variable {m : ExtTreeMap κ α} {out : ExtTreeSet κ}

omit [DecidableEq κ] in
theorem Seen.insert {k : κ} (h : Seen m out k) (k' : κ) (v : α) : Seen (m.insert k' v) out k :=
  h.imp_left fun there => mem_insert_map.mpr (.inr there)

omit [DecidableEq κ] in
/-- What is taken out was seen. -/
theorem Seen.takeOut {k : κ} (h : Seen m out k) (k' : κ) :
    Seen (m.erase k') (out.insert k') k := by
  by_cases same : compare k' k = .eq
  · exact .inr (ExtTreeSet.mem_insert.mpr (.inl same))
  · exact h.imp (fun there => ExtTreeMap.mem_erase.mpr ⟨same, there⟩)
      fun gone => mem_insert_key.mpr (.inr gone)

omit [DecidableEq κ] in
theorem Seen.of_insert {k k' : κ} {v : α} (h : Seen (m.insert k' v) out k) :
    k' = k ∨ Seen m out k := by
  rcases h with there | gone
  · exact (mem_insert_map.mp there).imp_right .inl
  · exact .inr (.inr gone)

omit [DecidableEq κ] in
theorem Seen.of_takeOut {k k' : κ} (h : Seen (m.erase k') (out.insert k') k) :
    k' = k ∨ Seen m out k := by
  rcases h with there | gone
  · exact .inr (.inl (ExtTreeMap.mem_erase.mp there).2)
  · exact (mem_insert_key.mp gone).imp_right .inr

omit [DecidableEq κ] in
theorem Apart.insert (h : Apart m out) {k : κ} (fresh : k ∉ out) (v : α) :
    Apart (m.insert k v) out := by
  intro a gone there
  rcases mem_insert_map.mp there with rfl | there
  · exact fresh gone
  · exact h a gone there

omit [DecidableEq κ] in
theorem Apart.takeOut (h : Apart m out) (k : κ) : Apart (m.erase k) (out.insert k) := by
  intro a gone there
  obtain ⟨other, there⟩ := ExtTreeMap.mem_erase.mp there
  rcases mem_insert_key.mp gone with rfl | gone
  · exact other ReflOrd.compare_self
  · exact h a gone there

/-! ## Maps of pairs -/

omit [DecidableEq κ] [LawfulEqOrd κ] in
theorem ofList_append_singleton (l : List (κ × α)) (k : κ) (v : α) :
    (ExtTreeMap.ofList (l ++ [(k, v)]) : ExtTreeMap κ α) = (ExtTreeMap.ofList l).insert k v := by
  rw [ExtTreeMap.ofList_eq_insertMany_empty, ExtTreeMap.ofList_eq_insertMany_empty,
    ExtTreeMap.insertMany_append, ExtTreeMap.insertMany_list_singleton]

/-- The last pair of a key counts. -/
theorem getElem?_ofList (l : List (κ × α)) (k : κ) :
    (ExtTreeMap.ofList l : ExtTreeMap κ α)[k]? =
      (l.reverse.find? (decide <| ·.1 = k)).map Prod.snd := by
  induction l using List.reverseRecOn with
  | nil => rfl
  | append_singleton l pair ih =>
    rw [ofList_append_singleton, getElem?_insert_key, ih, List.reverse_append,
      List.reverse_singleton, List.singleton_append, List.find?_cons]
    by_cases h : pair.1 = k <;> simp [h]

theorem mem_of_getElem?_ofList {l : List (κ × α)} {k : κ} {v : α}
    (h : (ExtTreeMap.ofList l : ExtTreeMap κ α)[k]? = some v) : (k, v) ∈ l := by
  rw [getElem?_ofList] at h
  obtain ⟨pair, found, rfl⟩ := Option.map_eq_some_iff.mp h
  have key := List.find?_some found
  rw [decide_eq_true_eq] at key
  subst key
  exact List.mem_reverse.mp (List.mem_of_find?_eq_some found)

/-- No key has two values. -/
def OneValue {κ α : Type} (l : List (κ × α)) : Prop :=
  ∀ k v w, (k, v) ∈ l → (k, w) ∈ l → v = w

omit [Ord κ] [TransOrd κ] [LawfulEqOrd κ] [DecidableEq κ] in
theorem OneValue.sub {l l' : List (κ × α)} (h : OneValue l) (sub : l' ⊆ l) : OneValue l' :=
  fun k v w hv hw => h k v w (sub hv) (sub hw)

/-- A pair that comes behind the others must not contradict the map of them. -/
theorem oneValue_append_singleton [DecidableEq α] {l : List (κ × α)} (h : OneValue l) {k : κ}
    {v : α} :
    OneValue (l ++ [(k, v)]) ↔ ((ExtTreeMap.ofList l : ExtTreeMap κ α)[k]?.any (· != v)) = false := by
  constructor
  · intro one
    cases found : (ExtTreeMap.ofList l : ExtTreeMap κ α)[k]? with
    | none => rfl
    | some w =>
      have same : w = v := one k w v (List.mem_append_left _ (mem_of_getElem?_ofList found)) (by simp)
      simp [same]
  · intro none_other
    have same {w : α} (mem : (k, w) ∈ l) : w = v := by
      cases found : (ExtTreeMap.ofList l : ExtTreeMap κ α)[k]? with
      | none =>
        have there : k ∈ (ExtTreeMap.ofList l : ExtTreeMap κ α) :=
          ExtTreeMap.mem_ofList.mpr (by simpa using ⟨w, mem⟩)
        rw [ExtTreeMap.mem_iff_isSome_getElem?, found] at there
        cases there
      | some w' =>
        rw [found] at none_other
        have : w' = v := by simpa using none_other
        exact (h k w w' mem (mem_of_getElem?_ofList found)).trans this
    intro k' v' w' hv hw
    simp only [List.mem_append, List.mem_singleton, Prod.mk.injEq] at hv hw
    rcases hv with hv | ⟨hk, hv⟩ <;> rcases hw with hw | ⟨hk', hw⟩
    · exact h k' v' w' hv hw
    · rw [hk'] at hv
      exact (same hv).trans hw.symm
    · rw [hk] at hw
      exact hv.trans (same hw).symm
    · exact hv.trans hw.symm

/-- A map with an entry for every pair: no key occurs twice. -/
theorem nodup_of_size_ofList {l : List (κ × α)}
    (h : (ExtTreeMap.ofList l : ExtTreeMap κ α).size = l.length) : (l.map Prod.fst).Nodup := by
  induction l using List.reverseRecOn with
  | nil => exact List.nodup_nil
  | append_singleton l pair ih =>
    have le : (ExtTreeMap.ofList l : ExtTreeMap κ α).size ≤ l.length := ExtTreeMap.size_ofList_le
    rw [ofList_append_singleton, ExtTreeMap.size_insert, List.length_append,
      List.length_singleton] at h
    split at h
    · omega
    case isFalse new =>
      rw [List.map_append, List.map_singleton, List.nodup_append]
      refine ⟨ih (by omega), List.nodup_singleton _, fun a ha b hb same => new ?_⟩
      cases List.mem_singleton.mp hb
      subst same
      exact ExtTreeMap.mem_ofList.mpr (by simpa using ha)

omit [Ord κ] [TransOrd κ] [LawfulEqOrd κ] in
/-- Without a repeated key a pair is found by its key. -/
theorem find?_key_iff {l : List (κ × α)} (nodup : (l.map Prod.fst).Nodup) {k : κ}
    {pair : κ × α} : l.find? (decide <| ·.1 = k) = some pair ↔ pair ∈ l ∧ pair.1 = k := by
  constructor
  · intro found
    have key := List.find?_some found
    rw [decide_eq_true_eq] at key
    exact ⟨List.mem_of_find?_eq_some found, key⟩
  · rintro ⟨mem, key⟩
    cases found : l.find? (decide <| ·.1 = k) with
    | none => exact absurd (decide_eq_true key) (List.find?_eq_none.mp found pair mem)
    | some other =>
      have same := List.find?_some found
      rw [decide_eq_true_eq] at same
      rw [List.inj_on_of_nodup_map nodup (List.mem_of_find?_eq_some found) mem (same.trans key.symm)]

/-- Without a repeated key the entries are the pairs. -/
theorem getElem?_ofList_eq_some {l : List (κ × α)} (nodup : (l.map Prod.fst).Nodup) {k : κ}
    {v : α} :
    (ExtTreeMap.ofList l : ExtTreeMap κ α)[k]? = some v ↔ (k, v) ∈ l := by
  constructor
  · exact mem_of_getElem?_ofList
  · intro mem
    have reversed : (l.reverse.map Prod.fst).Nodup := by
      rw [List.map_reverse, List.nodup_reverse]
      exact nodup
    rw [getElem?_ofList, (find?_key_iff reversed).mpr ⟨List.mem_reverse.mpr mem, rfl⟩]
    rfl

end Permesh.Lib

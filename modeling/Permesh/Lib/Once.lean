import Permesh.Lib.Rows
import Mathlib.Data.List.Count
import Mathlib.Data.List.Perm.Lattice

/-!
# Once — rows whose key occurs once

Rows that carry a key, or none, are entered into a map one by one, each with the value it has, if it
has one. A row whose key occurred before takes back what the first one put in, whatever the two rows
are. In the end the map holds the values of the rows whose key occurs once (`Single.values_perm`), and
the order of the rows does not matter for them (`once_perm`).
-/

namespace Permesh.Lib

open Std

variable {κ τ α : Type} [DecidableEq κ]

/-- The rows whose key no other row has. -/
def once (key : τ → Option κ) (rows : List τ) : List τ :=
  rows.filter fun row => (key row).any fun k => (withKey key k rows).length == 1

theorem mem_once {key : τ → Option κ} {rows : List τ} {row : τ} :
    row ∈ once key rows ↔ ∃ k, key row = some k ∧ withKey key k rows = [row] := by
  unfold once
  rw [List.mem_filter, Option.any_eq_true]
  simp only [beq_iff_eq]
  constructor
  · rintro ⟨mem, k, hkey, single⟩
    obtain ⟨row', only⟩ := List.length_eq_one_iff.mp single
    have there := mem_withKey.mpr ⟨mem, hkey⟩
    rw [only] at there
    rw [List.mem_singleton.mp there]
    exact ⟨k, List.mem_singleton.mp there ▸ hkey, only⟩
  · rintro ⟨k, hkey, only⟩
    have there : row ∈ withKey key k rows := by rw [only]; exact List.mem_singleton_self _
    exact ⟨(mem_withKey.mp there).1, k, hkey, by rw [only]; rfl⟩

/-- **The order of the rows does not matter.** -/
theorem once_perm {key : τ → Option κ} {rows rows' : List τ} (perm : rows.Perm rows') :
    (once key rows).Perm (once key rows') := by
  have same (k : κ) : (withKey key k rows).length = (withKey key k rows').length :=
    (perm.filter _).length_eq
  unfold once
  simp only [same]
  exact perm.filter _

theorem nodup_once (key : τ → Option κ) (rows : List τ) : (once key rows).Nodup := by
  rw [List.nodup_iff_sublist]
  intro row twice
  obtain ⟨k, hkey, only⟩ := mem_once.mp (twice.subset List.mem_cons_self)
  have filtered : (withKey key k [row, row]).Sublist (withKey key k rows) :=
    (twice.trans List.filter_sublist).filter _
  rw [only] at filtered
  exact absurd filtered.length_le (by simp [withKey, hkey])

theorem withKey_append {key : τ → Option κ} {k : κ} {rows : List τ} {row : τ} (hkey : key row = some k) :
    withKey key k (rows ++ [row]) = withKey key k rows ++ [row] := by
  simp [withKey, List.filter_append, hkey]

theorem withKey_append_other {key : τ → Option κ} {k : κ} {rows : List τ} {row : τ}
    (hkey : key row ≠ some k) :
    withKey key k (rows ++ [row]) = withKey key k rows := by
  simp [withKey, List.filter_append, hkey]

/-- The values so far, with the keys that occurred. -/
structure Single (κ α : Type) [Ord κ] [TransOrd κ] where
  map : ExtTreeMap κ α
  seen : ExtTreeSet κ

namespace Single

variable [Ord κ] [TransOrd κ] (key : τ → Option κ) (value : τ → Option α)

/-- One row: it enters its value, or takes back the value of its key. -/
def take (u : Single κ α) (row : τ) : Single κ α :=
  match key row with
  | none => u
  | some k =>
    if k ∈ u.seen then { u with map := u.map.erase k }
    else ⟨match value row with
      | some a => u.map.insert k a
      | none => u.map, u.seen.insert k⟩

def of (rows : List τ) : Single κ α := rows.foldl (take key value) ⟨∅, ∅⟩

variable [LawfulEqOrd κ]

/-- What is known of a key behind these rows. -/
structure Knows (k : κ) (rows : List τ) (u : Single κ α) : Prop where
  seen : k ∈ u.seen ↔ withKey key k rows ≠ []
  entry : ∀ a, u.map[k]? = some a ↔ ∃ row, withKey key k rows = [row] ∧ value row = some a

variable {key value}

theorem Knows.take {k : κ} {rows : List τ} {u : Single κ α} (h : Knows key value k rows u)
    (row : τ) : Knows key value k (rows ++ [row]) (u.take key value row) := by
  unfold Single.take
  by_cases same : key row = some k
  · rw [same]
    dsimp only
    constructor
    · rw [withKey_append same]
      split
      case isTrue old => simp [old]
      case isFalse => simp
    · intro a
      rw [withKey_append same]
      split
      case isTrue old =>
        -- the row before takes its value back, and this one does not enter its own
        rw [getElem?_erase_key, if_pos rfl]
        simp only [reduceCtorEq, false_iff, not_exists, not_and]
        intro row' only
        have := congrArg List.length only
        have := List.length_pos_of_ne_nil (h.seen.mp old)
        simp only [List.length_append, List.length_singleton] at *
        omega
      case isFalse new =>
        have none : withKey key k rows = [] := not_not.mp (mt h.seen.mpr new)
        have empty : u.map[k]? = Option.none := by
          cases there : u.map[k]? with
          | none => rfl
          | some a =>
            obtain ⟨row', only, -⟩ := (h.entry a).mp there
            rw [none] at only
            cases only
        rw [none, List.nil_append]
        simp only [List.cons.injEq, and_true, exists_eq_left']
        cases found : value row with
        | none => simp [empty]
        | some b => simp
  · have unchanged (m : ExtTreeMap κ α) (seen : ExtTreeSet κ) (entry : m[k]? = u.map[k]?)
        (there : k ∈ seen ↔ k ∈ u.seen) : Knows key value k (rows ++ [row]) ⟨m, seen⟩ := by
      constructor
      · rw [withKey_append_other same, there]
        exact h.seen
      · intro a
        rw [withKey_append_other same, entry]
        exact h.entry a
    cases other : key row with
    | none => exact unchanged u.map u.seen rfl .rfl
    | some k' =>
      have ne : k' ≠ k := fun eq => same (by rw [other, eq])
      dsimp only
      split
      · exact unchanged _ _ (by rw [getElem?_erase_key, if_neg ne]) .rfl
      · refine unchanged _ _ ?_ (by simp [ne])
        split
        · rw [getElem?_insert_key, if_neg ne]
        · rfl

/-- What is known of a key in the end. -/
theorem knows_of (k : κ) (rows : List τ) : Knows key value k rows (of key value rows) :=
  foldl_rule (Knows key value k) ⟨by simp [withKey], by simp [withKey]⟩
    (fun _ row _ h => h.take row) rows

/-- **The map holds the values of the rows whose key occurs once.** -/
theorem values_perm (rows : List τ) :
    (values (of key value rows).map).Perm ((once key rows).filterMap value) := by
  let pair (row : τ) : Option (κ × α) := (key row).bind fun k => (value row).map fun a => (k, a)
  have pairs : (of key value rows).map.toList.Perm ((once key rows).filterMap pair) := by
    have distinct : (of key value rows).map.toList.Nodup := by
      apply List.Nodup.of_map Prod.fst
      rw [ExtTreeMap.map_fst_toList_eq_keys]
      exact ExtTreeMap.nodup_keys
    have distinct' : ((once key rows).filterMap pair).Nodup := by
      rw [List.Nodup, List.pairwise_filterMap]
      refine (nodup_once key rows).pairwise_of_forall_ne fun row mem row' mem' ne x hx y hy eq => ne ?_
      obtain ⟨k, hkey, only⟩ := mem_once.mp mem
      obtain ⟨k', hkey', only'⟩ := mem_once.mp mem'
      simp only [pair, hkey, hkey', Option.bind_some, Option.map_eq_some_iff] at hx hy
      obtain ⟨a, -, rfl⟩ := hx
      obtain ⟨a', -, rfl⟩ := hy
      cases (Prod.mk.inj eq).1
      exact (List.cons.inj (only.symm.trans only')).1
    rw [List.perm_ext_iff_of_nodup distinct distinct']
    rintro ⟨k, a⟩
    rw [ExtTreeMap.mem_toList_iff_getElem?_eq_some, (knows_of k rows).entry, List.mem_filterMap]
    refine exists_congr fun row => ⟨?_, ?_⟩
    · rintro ⟨only, found⟩
      have there : row ∈ withKey key k rows := by rw [only]; exact List.mem_singleton_self _
      have hkey := (mem_withKey.mp there).2
      exact ⟨mem_once.mpr ⟨k, hkey, only⟩, by simp [pair, hkey, found]⟩
    · rintro ⟨mem, found⟩
      obtain ⟨k', hkey, only⟩ := mem_once.mp mem
      simp only [pair, hkey, Option.bind_some, Option.map_eq_some_iff, Prod.mk.injEq] at found
      obtain ⟨b, found, rfl, rfl⟩ := found
      exact ⟨only, found⟩
  have snds : ((once key rows).filterMap pair).map Prod.snd = (once key rows).filterMap value := by
    rw [List.map_filterMap]
    apply List.filterMap_congr
    intro row mem
    obtain ⟨k, hkey, -⟩ := mem_once.mp mem
    cases found : value row <;> simp [pair, hkey, found]
  rw [← snds]
  exact pairs.map _

end Single

end Permesh.Lib

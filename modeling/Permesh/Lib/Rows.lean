import Permesh.Lib.Fold
import Permesh.Lib.Kept

/-!
# Rows — what rows with keys agree on

Rows that carry a key, or none, are entered into a map one by one. Two rows of one key that differ
block the key. What the map holds in the end is under each key the row that all rows of this key are
(`Rows.getElem?_iff`), and nothing of it depends on the order of the rows (`Rows.of_perm`).
-/

namespace Permesh.Lib

open Std

variable {κ τ : Type}

/-- There is a row with this key, and all rows with it are this one. -/
def Only (key : τ → Option κ) (rows : List τ) (k : κ) (v : τ) : Prop :=
  v ∈ rows ∧ key v = some k ∧ ∀ row ∈ rows, key row = some k → row = v

theorem Only.unique {key : τ → Option κ} {rows : List τ} {k : κ} {v v' : τ}
    (h : Only key rows k v) (h' : Only key rows k v') : v = v' := h'.2.2 v h.1 h.2.1

/-- The rows with a key. -/
def withKey [DecidableEq κ] (key : τ → Option κ) (k : κ) (rows : List τ) : List τ :=
  rows.filter fun row => key row = some k

theorem mem_withKey [DecidableEq κ] {key : τ → Option κ} {k : κ} {rows : List τ} {row : τ} :
    row ∈ withKey key k rows ↔ row ∈ rows ∧ key row = some k := by
  simp [withKey]

/-- The rows of a map, with the keys in conflict. -/
structure Rows (κ τ : Type) [Ord κ] [TransOrd κ] where
  map : ExtTreeMap κ τ
  blocked : ExtTreeSet κ

namespace Rows

variable [Ord κ] [TransOrd κ] [DecidableEq τ] (key : τ → Option κ)

/-- One row: it is entered, unless its key is blocked, or another row has it. -/
def take (u : Rows κ τ) (row : τ) : Rows κ τ :=
  match key row with
  | none => u
  | some k =>
    if k ∈ u.blocked then u
    else if u.map[k]?.any (· != row) then ⟨u.map.erase k, u.blocked.insert k⟩
    else { u with map := u.map.insert k row }

def of (rows : List τ) : Rows κ τ := rows.foldl (take key) ⟨∅, ∅⟩

variable [LawfulEqOrd κ] [DecidableEq κ]

/-- The map holds the verdict on the rows of each key. -/
theorem kept (rows : List τ) (k : κ) :
    Kept (.of ((withKey key k rows).map some)) (fun v : τ => v) k (of key rows).map
      (of key rows).blocked := by
  refine foldl_rule (fun before (u : Rows κ τ) => Kept (.of ((withKey key k before).map some))
    (fun v : τ => v) k u.map u.blocked) (by exact Kept.empty) (fun before row u kept => ?_) rows
  unfold take
  rw [withKey, List.filter_append, ← withKey, List.map_append]
  cases hkey : key row with
  | none =>
    rw [List.filter_cons_of_neg (by simp [hkey]), List.filter_nil, List.map_nil, List.append_nil]
    exact kept
  | some k' =>
    dsimp only
    by_cases same : k' = k
    · subst same
      rw [List.filter_cons_of_pos (by simp [hkey]), List.filter_nil, List.map_singleton,
        Agreement.of_append_singleton]
      by_cases old : k' ∈ u.blocked
      · rw [if_pos old]
        exact kept.stay old _
      · rw [if_neg old]
        have differs := kept.any_ne old row (· != row) fun _ => rfl
        split
        case isTrue other => exact Kept.block (differs.mp other)
        case isFalse agree =>
          exact Kept.enter (Agreement.observe_some_agreed (mt differs.mpr agree)).1 old
    · rw [List.filter_cons_of_neg (by simpa [hkey] using same), List.filter_nil, List.map_nil,
        List.append_nil]
      split
      · exact kept
      split
      · exact kept.block_other same
      · exact kept.enter_other same

/-- **The map keeps what the rows agree on.** -/
theorem getElem?_iff {rows : List τ} {k : κ} {v : τ} :
    (of key rows).map[k]? = some v ↔ Only key rows k v := by
  have entry := (kept key rows k).entry
  rw [Option.map_id'] at entry
  rw [entry, Agreement.value_eq_some, Agreement.of_eq_agreed]
  constructor
  · rintro ⟨ne, all⟩
    have only : ∀ row ∈ rows, key row = some k → row = v := fun row mem hkey =>
      Option.some.inj (all (some row) (List.mem_map_of_mem (mem_withKey.mpr ⟨mem, hkey⟩)))
    obtain ⟨x, hx⟩ := List.exists_mem_of_ne_nil _ ne
    obtain ⟨row, there, -⟩ := List.mem_map.mp hx
    obtain ⟨mem, hkey⟩ := mem_withKey.mp there
    cases only row mem hkey
    exact ⟨mem, hkey, only⟩
  · rintro ⟨mem, hkey, only⟩
    have there := mem_withKey.mpr ⟨mem, hkey⟩
    refine ⟨List.ne_nil_of_mem (List.mem_map_of_mem there), fun x hx => ?_⟩
    obtain ⟨row, there', rfl⟩ := List.mem_map.mp hx
    obtain ⟨mem', hkey'⟩ := mem_withKey.mp there'
    rw [only row mem' hkey']

/-- A row whose key is not blocked is kept. -/
theorem only_of_free {rows : List τ} {k : κ} {row : τ} (free : k ∉ (of key rows).blocked)
    (mem : row ∈ rows) (hkey : key row = some k) : Only key rows k row := by
  have kept := kept key rows k
  have there : some row ∈ (withKey key k rows).map some :=
    List.mem_map_of_mem (mem_withKey.mpr ⟨mem, hkey⟩)
  cases verdict : Agreement.of ((withKey key k rows).map some) with
  | unseen =>
    rw [Agreement.of_eq_unseen] at verdict
    rw [verdict] at there
    cases there
  | agreed v =>
    cases (Agreement.of_eq_agreed.mp verdict).2 _ there
    rw [← getElem?_iff, kept.entry, verdict]
    rfl
  | conflict => exact absurd (kept.blocked.mpr verdict) free

/-- **The order of the rows does not matter.** -/
theorem of_perm {rows rows' : List τ} (perm : rows.Perm rows') : of key rows = of key rows' := by
  have verdict (k : κ) : Agreement.of ((withKey key k rows).map some) =
      .of ((withKey key k rows').map some) := Agreement.of_perm ((perm.filter _).map _)
  have map : (of key rows).map = (of key rows').map := by
    apply ExtTreeMap.ext_getElem?
    intro k
    rw [(kept key rows k).entry, (kept key rows' k).entry, verdict]
  have blocked : (of key rows).blocked = (of key rows').blocked := by
    apply ExtTreeSet.ext_mem
    intro k
    rw [(kept key rows k).blocked, (kept key rows' k).blocked, verdict]
  calc of key rows = ⟨(of key rows).map, (of key rows).blocked⟩ := rfl
    _ = of key rows' := by rw [map, blocked]

end Rows

end Permesh.Lib

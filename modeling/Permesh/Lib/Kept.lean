import Permesh.Lib.Agreement
import Permesh.Lib.Maps

/-!
# Kept — a map of what is agreed on

A map with a blocked set beside it is fed with observations. It keeps, under each key, the entry
that the observations of this key agree on; a key in conflict is blocked and has no entry.
-/

namespace Permesh.Lib

open Std

variable {κ α β : Type} [Ord κ] [TransOrd κ]

/-- What the map and its blocked set hold at `k`, against the verdict `A` on `k`. -/
structure Kept (A : Agreement α) (entry : α → β) (k : κ) (m : ExtTreeMap κ β)
    (blocked : ExtTreeSet κ) : Prop where
  blocked : k ∈ blocked ↔ A = .conflict
  entry : m[k]? = A.value.map entry

namespace Kept

variable {A : Agreement α} {entry : α → β} {k key : κ} {m : ExtTreeMap κ β} {b : ExtTreeSet κ}

theorem empty : Kept (.unseen : Agreement α) entry k (∅ : ExtTreeMap κ β) ∅ where
  blocked := by simp
  entry := by simp [Agreement.value]

section Observe

variable [DecidableEq α]

/-- A blocked key stays as it is, whatever is observed. -/
theorem stay (h : Kept A entry k m b) (hb : k ∈ b) (x : Option α) :
    Kept (A.observe x) entry k m b := by
  have hc := h.blocked.mp hb
  subst hc
  rwa [Agreement.conflict_observe]

/-- The entry of a key that is not blocked disagrees with an observation exactly when the verdict
turns into a conflict. -/
theorem any_ne (h : Kept A entry k m b) (free : k ∉ b) (a : α) (differs : β → Bool)
    (hd : ∀ a', differs (entry a') = (a' != a)) :
    m[k]?.any differs = true ↔ A.observe (some a) = .conflict := by
  rw [Agreement.observe_some_eq_conflict (mt h.blocked.mpr free), h.entry, Option.any_map]
  cases A.value with
  | none => simp
  | some a' => simp [hd]

end Observe

section Keys

variable [LawfulEqOrd κ] [DecidableEq κ]

/-- A conflict removes the entry and blocks the key. -/
theorem block (h : A = .conflict) : Kept A entry k (m.erase k) (b.insert k) where
  blocked := ⟨fun _ => h, fun _ => mem_insert_key.mpr (.inl rfl)⟩
  entry := by rw [getElem?_erase_key, if_pos rfl, h]; rfl

/-- Blocking another key changes nothing here. -/
theorem block_other (h : Kept A entry k m b) (ne : key ≠ k) :
    Kept A entry k (m.erase key) (b.insert key) where
  blocked := by rw [mem_insert_key, or_iff_right ne]; exact h.blocked
  entry := by rw [getElem?_erase_key, if_neg ne]; exact h.entry

/-- An agreement is entered. -/
theorem enter {a : α} (h : A = .agreed a) (free : k ∉ b) :
    Kept A entry k (m.insert k (entry a)) b where
  blocked := ⟨fun hb => absurd hb free, fun hc => by rw [h] at hc; cases hc⟩
  entry := by rw [getElem?_insert_key, if_pos rfl, h]; rfl

theorem enter_other {v : β} (h : Kept A entry k m b) (ne : key ≠ k) :
    Kept A entry k (m.insert key v) b where
  blocked := h.blocked
  entry := by rw [getElem?_insert_key, if_neg ne]; exact h.entry

end Keys

end Kept

end Permesh.Lib

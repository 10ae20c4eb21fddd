import Mathlib.Data.List.Perm.Basic

/-!
# Shuffled — lists that are related entry by entry

A list is read entry by entry, and a second list has entries that are related to those of the first,
in any order. What the first list reads as carries over to the second (`Shuffled.reads`).
-/

namespace Permesh.Lib

variable {α β : Type}

/-- Each element of a list that is read entry by entry has its partner. -/
theorem exists_zip {R : α → β → Prop} {l : List α} {l' : List β} (h : List.Forall₂ R l l') {a : α}
    (mem : a ∈ l) : ∃ b, (a, b) ∈ l.zip l' := by
  obtain ⟨i, bound, rfl⟩ := List.getElem_of_mem mem
  have bound' : i < l'.length := h.length_eq ▸ bound
  have bounds : i < (l.zip l').length := by
    rw [List.length_zip]
    exact Nat.lt_min.mpr ⟨bound, bound'⟩
  exact ⟨l'[i], List.mem_iff_getElem.mpr ⟨i, bounds, List.getElem_zip⟩⟩

/-- What is read comes from an element. -/
theorem exists_read {R : α → β → Prop} {l : List α} {l' : List β} (h : List.Forall₂ R l l') {b : β}
    (mem : b ∈ l') : ∃ a ∈ l, R a b := by
  induction h with
  | nil => cases mem
  | cons head _ ih =>
    rcases List.mem_cons.mp mem with rfl | mem
    · exact ⟨_, List.mem_cons_self, head⟩
    · obtain ⟨a, there, related⟩ := ih mem
      exact ⟨a, List.mem_cons_of_mem _ there, related⟩

/-- Elements with what they read as. -/
theorem forall₂_pairs {R : α → β → Prop} {l : List α} {cs : List (α × β)} :
    List.Forall₂ (fun a c => c.1 = a ∧ R a c.2) l cs ↔ ∃ l', List.Forall₂ R l l' ∧ cs = l.zip l' := by
  constructor
  · intro h
    induction h with
    | nil => exact ⟨[], .nil, rfl⟩
    | @cons a c l cs head _ ih =>
      obtain ⟨l', all, rfl⟩ := ih
      obtain ⟨rfl, read⟩ := head
      exact ⟨c.2 :: l', .cons read all, rfl⟩
  · rintro ⟨l', all, rfl⟩
    induction all with
    | nil => exact .nil
    | cons head _ ih => exact .cons ⟨rfl, head⟩ ih

/-- What the left entries read as, the right ones read as too, up to a relation. -/
theorem forall₂_reads {γ δ : Type} {R : α → β → Prop} {S : α → γ → Prop} {S' : β → δ → Prop}
    {T : γ → δ → Prop} (each : ∀ a b c, R a b → S a c → ∃ d, S' b d ∧ T c d) {l : List α}
    {l' : List β} {cs : List γ} (h : List.Forall₂ R l l') (read : List.Forall₂ S l cs) :
    ∃ ds, List.Forall₂ S' l' ds ∧ List.Forall₂ T cs ds := by
  induction h generalizing cs with
  | nil =>
    cases read
    exact ⟨[], .nil, .nil⟩
  | cons related _ ih =>
    obtain _ | ⟨is, rest⟩ := read
    obtain ⟨d, is', same⟩ := each _ _ _ related is
    obtain ⟨ds, read', same'⟩ := ih rest
    exact ⟨d :: ds, .cons is' read', .cons same same'⟩

/-- The entries of the first list, changed as the relation says, in any order. -/
def Shuffled (R : α → α → Prop) (l l' : List α) : Prop :=
  ∃ changed, List.Forall₂ R l changed ∧ changed.Perm l'

theorem shuffled_eq {l l' : List α} : Shuffled Eq l l' ↔ l.Perm l' := by
  unfold Shuffled
  rw [List.forall₂_eq_eq_eq]
  simp

theorem Shuffled.symm {R : α → α → Prop} (symm : ∀ a b, R a b → R b a) {l l' : List α}
    (h : Shuffled R l l') : Shuffled R l' l := by
  obtain ⟨changed, all, perm⟩ := h
  have back : List.Forall₂ R changed l := all.flip.imp fun a b => symm b a
  exact List.perm_comp_forall₂ perm.symm back

/-- What a list reads as, a shuffled one reads as too, shuffled. -/
theorem Shuffled.reads {R : α → α → Prop} {S : α → β → Prop} {T : β → β → Prop}
    (each : ∀ a b c, R a b → S a c → ∃ d, S b d ∧ T c d) {l l' : List α} {cs : List β}
    (h : Shuffled R l l') (read : List.Forall₂ S l cs) :
    ∃ ds, List.Forall₂ S l' ds ∧ Shuffled T cs ds := by
  obtain ⟨changed, all, perm⟩ := h
  obtain ⟨ds, read', same⟩ := forall₂_reads each all read
  obtain ⟨ds', read'', perm'⟩ := List.perm_comp_forall₂ perm.symm read'
  exact ⟨ds', read'', ds, same, perm'.symm⟩

/-- Entries that yield the same up to order yield the same up to order together. -/
theorem Shuffled.flatMap {T : α → α → Prop} {f : α → List β} (same : ∀ a b, T a b → (f a).Perm (f b))
    {l l' : List α} (h : Shuffled T l l') : (l.flatMap f).Perm (l'.flatMap f) := by
  obtain ⟨changed, all, perm⟩ := h
  refine List.Perm.trans ?_ (perm.flatMap_right f)
  clear perm
  induction all with
  | nil => exact .nil
  | cons related _ ih => exact (same _ _ related).append ih

end Permesh.Lib

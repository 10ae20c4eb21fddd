import Mathlib.Data.List.Induction
import Mathlib.Data.List.Perm.Basic

/-!
# Agreement — what repeated observations of one thing say

Each observation of a thing reports a value, or is malformed. All observations agree on one value,
or there is a conflict, and a conflict stays. The verdict does not depend on the order in which the
observations come (`Agreement.of_perm`), and it is an agreement exactly when there is an observation
and all of them report the same value (`Agreement.of_eq_agreed`).
-/

namespace Permesh.Lib

/-- The verdict over the observations made so far. -/
inductive Agreement (α : Type) where
  | unseen
  | agreed (a : α)
  | conflict
  deriving DecidableEq, Repr

namespace Agreement

variable {α : Type}

/-- The value that is agreed on. -/
def value : Agreement α → Option α
  | .agreed a => some a
  | _ => none

theorem value_eq_some {s : Agreement α} {a : α} : s.value = some a ↔ s = .agreed a := by
  cases s <;> simp [value]

theorem value_eq_none {s : Agreement α} : s.value = none ↔ s = .unseen ∨ s = .conflict := by
  cases s <;> simp [value]

variable [DecidableEq α]

/-- One more observation. -/
def observe : Agreement α → Option α → Agreement α
  | .unseen, some a => .agreed a
  | .agreed b, some a => if b = a then .agreed b else .conflict
  | .conflict, some _ => .conflict
  | _, none => .conflict

/-- The verdict over a sequence of observations. -/
def of (observations : List (Option α)) : Agreement α := observations.foldl observe .unseen

@[simp] theorem of_nil : of ([] : List (Option α)) = .unseen := rfl

@[simp] theorem of_append_singleton (l : List (Option α)) (x : Option α) :
    of (l ++ [x]) = (of l).observe x := by
  rw [of, List.foldl_append]
  rfl

@[simp] theorem observe_none (s : Agreement α) : s.observe none = .conflict := by
  cases s <;> rfl

@[simp] theorem conflict_observe (x : Option α) : (conflict : Agreement α).observe x = .conflict := by
  cases x <;> rfl

/-- A well-formed observation conflicts when another value is agreed on. -/
theorem observe_some_eq_conflict {s : Agreement α} {a : α} (hs : s ≠ .conflict) :
    s.observe (some a) = .conflict ↔ s.value.any (· != a) = true := by
  cases s with
  | unseen => simp [observe, value]
  | agreed b => simp [observe, value]
  | conflict => exact absurd rfl hs

/-- A well-formed observation that does not conflict is agreed on. -/
theorem observe_some_agreed {s : Agreement α} {a : α} (h : s.observe (some a) ≠ .conflict) :
    s.observe (some a) = .agreed a ∧ (s = .unseen ∨ s = .agreed a) := by
  cases s with
  | unseen => exact ⟨rfl, .inl rfl⟩
  | agreed b =>
    by_cases hb : b = a
    · subst hb
      exact ⟨by simp [observe], .inr rfl⟩
    · simp [observe, hb] at h
  | conflict => exact absurd rfl h

theorem observe_comm (s : Agreement α) (x y : Option α) :
    (s.observe x).observe y = (s.observe y).observe x := by
  cases s <;> cases x <;> cases y <;> simp only [observe]
  case unseen.some.some a b =>
    by_cases h : a = b
    · rw [h]
    · rw [if_neg h, if_neg (Ne.symm h)]
  case agreed.some.some c a b =>
    by_cases ha : c = a
    · subst ha
      by_cases hb : c = b <;> simp [hb]
    · by_cases hb : c = b
      · subst hb
        simp [ha]
      · simp [ha, hb]

/-- **The order of the observations does not matter.** -/
theorem of_perm {l l' : List (Option α)} (h : l.Perm l') : of l = of l' := by
  let _ : RightCommutative (observe : Agreement α → Option α → Agreement α) := ⟨observe_comm⟩
  exact List.Perm.foldl_eq h (Agreement.unseen : Agreement α)

/-- **A conflict stays.** -/
theorem of_append_conflict {l : List (Option α)} (h : of l = .conflict) (l' : List (Option α)) :
    of (l ++ l') = .conflict := by
  induction l' using List.reverseRecOn with
  | nil => rwa [List.append_nil]
  | append_singleton l' x ih =>
    rw [← List.append_assoc, of_append_singleton, ih, conflict_observe]

theorem observe_ne_unseen (s : Agreement α) (x : Option α) : s.observe x ≠ .unseen := by
  cases s <;> cases x <;> simp only [observe, ne_eq, reduceCtorEq, not_false_eq_true]
  split <;> simp only [reduceCtorEq, not_false_eq_true]

theorem of_eq_unseen {l : List (Option α)} : of l = .unseen ↔ l = [] := by
  rcases List.eq_nil_or_concat' l with rfl | ⟨l, x, rfl⟩
  · simp
  · rw [of_append_singleton]
    exact ⟨fun h => absurd h (observe_ne_unseen _ _), fun h => by simp at h⟩

/-- **Agreement means one value throughout.** -/
theorem of_eq_agreed {l : List (Option α)} {a : α} :
    of l = .agreed a ↔ l ≠ [] ∧ ∀ x ∈ l, x = some a := by
  induction l using List.reverseRecOn generalizing a with
  | nil => simp
  | append_singleton l x ih =>
    rw [of_append_singleton]
    constructor
    · intro h
      refine ⟨by simp, fun y hy => ?_⟩
      cases hs : of l with
      | unseen =>
        rw [of_eq_unseen.mp hs, List.nil_append, List.mem_singleton] at hy
        subst hy
        rw [hs] at h
        cases y <;> simp_all [observe]
      | agreed b =>
        rw [hs] at h
        cases x with
        | none => simp [observe] at h
        | some c =>
          simp only [observe] at h
          split at h
          · cases h
            rcases List.mem_append.mp hy with hy | hy
            · exact (ih.mp hs).2 y hy
            · rw [List.mem_singleton.mp hy]
              simp_all
          · cases h
      | conflict =>
        rw [hs] at h
        cases x <;> simp [observe] at h
    · rintro ⟨-, all⟩
      have hx : x = some a := all x (by simp)
      subst hx
      rcases List.eq_nil_or_concat' l with rfl | ⟨l', y, rfl⟩
      · rfl
      · rw [ih.mpr ⟨by simp, fun y hy => all y (List.mem_append_left _ hy)⟩]
        simp [observe]

/-- A conflict is two observations that differ, or one that is malformed. -/
theorem of_eq_conflict {l : List (Option α)} :
    of l = .conflict ↔ l ≠ [] ∧ ∀ a, ∃ x ∈ l, x ≠ some a := by
  constructor
  · intro h
    have ne : l ≠ [] := fun hl => by rw [of_eq_unseen.mpr hl] at h; cases h
    refine ⟨ne, fun a => ?_⟩
    by_contra all
    push Not at all
    rw [of_eq_agreed.mpr ⟨ne, all⟩] at h
    cases h
  · rintro ⟨ne, differ⟩
    cases hs : of l with
    | unseen => exact absurd (of_eq_unseen.mp hs) ne
    | agreed a =>
      obtain ⟨x, hx, hne⟩ := differ a
      exact absurd ((of_eq_agreed.mp hs).2 x hx) hne
    | conflict => rfl

/-- Rows agree on one value exactly when the verdict does. -/
theorem agreed_iff {ρ : Type} {seen : List (Option α)} {Seen : ρ → Prop}
    {parse : ρ → Option α} (mem : ∀ x, x ∈ seen ↔ ∃ row, Seen row ∧ parse row = x) :
    (of seen).value.isSome = true ↔
      (∃ row, Seen row) ∧ ∃ a, ∀ row, Seen row → parse row = some a := by
  constructor
  · intro present
    cases hv : of seen with
    | agreed a =>
      obtain ⟨ne, all⟩ := of_eq_agreed.mp hv
      obtain ⟨x, hx⟩ := List.exists_mem_of_ne_nil _ ne
      obtain ⟨row, hrow, -⟩ := (mem x).mp hx
      exact ⟨⟨row, hrow⟩, a, fun row h => all _ ((mem _).mpr ⟨row, h, rfl⟩)⟩
    | _ =>
      rw [hv] at present
      cases present
  · rintro ⟨⟨row, seenRow⟩, a, all⟩
    have hv : of seen = .agreed a := by
      refine of_eq_agreed.mpr ⟨fun none => ?_, fun x hx => ?_⟩
      · have := (mem _).mpr ⟨row, seenRow, rfl⟩
        rw [none] at this
        cases this
      · obtain ⟨row, seenRow, rfl⟩ := (mem x).mp hx
        exact all row seenRow
    rw [hv]
    rfl

/-- Without an agreement there is a conflict, once something was seen. -/
theorem conflict_iff {ρ : Type} {seen : List (Option α)} {Seen : ρ → Prop}
    {parse : ρ → Option α} (mem : ∀ x, x ∈ seen ↔ ∃ row, Seen row ∧ parse row = x) :
    of seen = .conflict ↔
      (∃ row, Seen row) ∧ ¬((∃ row, Seen row) ∧ ∃ a, ∀ row, Seen row → parse row = some a) := by
  rw [← agreed_iff mem]
  cases hv : of seen with
  | unseen =>
    rw [of_eq_unseen] at hv
    subst hv
    refine ⟨fun h => (by cases h), ?_⟩
    rintro ⟨⟨row, h⟩, -⟩
    exact absurd ((mem _).mpr ⟨row, h, rfl⟩) (List.not_mem_nil)
  | agreed a => simp [value]
  | conflict =>
    obtain ⟨ne, -⟩ := of_eq_conflict.mp hv
    obtain ⟨x, hx⟩ := List.exists_mem_of_ne_nil _ ne
    obtain ⟨row, hrow, -⟩ := (mem x).mp hx
    simp only [value, Option.isSome_none, Bool.false_eq_true, not_false_eq_true,
      and_true, true_iff]
    exact ⟨row, hrow⟩

end Agreement

end Permesh.Lib

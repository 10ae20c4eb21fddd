import Mathlib.Data.Set.Finite.Lattice
import Mathlib.Data.Fintype.Pigeonhole

/-!
# Links — chains of optional links

An element may link to another one. A chain of links ends, or it goes on for ever; where only
finitely many elements link to anything, the chains that do not end are those that lead into a cycle
(`ends_iff_acyclic`).
-/

namespace Permesh.Lib

variable {α β : Type}

/-- The chain of links from an element ends. -/
inductive Ends (link : α → Option α) : α → Prop where
  | last {a : α} (none : link a = none) : Ends link a
  | next {a b : α} (some : link a = some b) (ends : Ends link b) : Ends link a

/-- The element behind `n` links. -/
def follow (link : α → Option α) : Nat → α → Option α
  | 0, a => some a
  | n + 1, a => (link a).bind (follow link n)

/-- No element is met again on its own chain. -/
def Acyclic (link : α → Option α) : Prop := ∀ n a, follow link (n + 1) a ≠ some a

variable {link : α → Option α}

theorem follow_add (m n : Nat) (a : α) :
    follow link (m + n) a = (follow link m a).bind (follow link n) := by
  induction m generalizing a with
  | zero => rw [Nat.zero_add]; rfl
  | succ m ih =>
    rw [Nat.succ_add, follow, follow, Option.bind_assoc]
    exact congrArg _ (funext ih)

/-- A chain that ends runs out of elements. -/
theorem ends_iff {a : α} : Ends link a ↔ ∃ n, follow link n a = none := by
  constructor
  · intro ends
    induction ends with
    | last none => exact ⟨1, by rw [follow, none]; rfl⟩
    | next some _ ih =>
      obtain ⟨n, out⟩ := ih
      exact ⟨n + 1, by rw [follow, some]; exact out⟩
  · rintro ⟨n, out⟩
    induction n generalizing a with
    | zero => cases out
    | succ n ih =>
      cases next : link a with
      | none => exact .last next
      | some b =>
        rw [follow, next] at out
        exact .next next (ih out)

theorem follow_mul {n : Nat} {a : α} (cycle : follow link n a = some a) (k : Nat) :
    follow link (n * k) a = some a := by
  induction k with
  | zero => rfl
  | succ k ih =>
    rw [Nat.mul_succ, follow_add, ih]
    exact cycle

/-- A cycle does not end. -/
theorem not_ends_of_cycle {n : Nat} {a : α} (cycle : follow link (n + 1) a = some a) :
    ¬Ends link a := by
  rw [ends_iff]
  rintro ⟨k, out⟩
  have there := follow_mul cycle k
  have split : (n + 1) * k = k + n * k := by rw [Nat.add_mul, Nat.one_mul, Nat.add_comm]
  rw [split, follow_add, out] at there
  cases there

/-- **Chains end where there is no cycle**, if only finitely many elements link to anything. -/
theorem ends_iff_acyclic (finite : {a | link a ≠ none}.Finite) :
    (∀ a, Ends link a) ↔ Acyclic link := by
  constructor
  · exact fun ends n a cycle => not_ends_of_cycle cycle (ends a)
  · intro acyclic a
    rw [ends_iff]
    by_contra endless
    -- all elements of an endless chain link to the next one, so two of them are the same
    have goes (n : Nat) : ∃ b, follow link n a = some b :=
      Option.ne_none_iff_exists'.mp fun out => endless ⟨n, out⟩
    choose chain hchain using goes
    have linked (n : Nat) : chain n ∈ {a | link a ≠ none} := by
      intro stop
      refine endless ⟨n + 1, ?_⟩
      rw [follow_add, hchain, Option.bind_some, follow, stop]
      rfl
    have := finite.to_subtype
    obtain ⟨i, j, ne, same⟩ := Finite.exists_ne_map_eq_of_infinite
      fun n => (⟨chain n, linked n⟩ : {a | link a ≠ none})
    have same : chain i = chain j := congrArg Subtype.val same
    have closed {i j : Nat} (lt : i < j) (same : chain i = chain j) : False := by
      have back := hchain j
      rw [show j = i + ((j - i - 1) + 1) by omega, follow_add, hchain, Option.bind_some,
        show i + ((j - i - 1) + 1) = j by omega, ← same] at back
      exact acyclic _ _ back
    rcases Nat.lt_or_gt_of_ne ne with lt | lt
    · exact closed lt same
    · exact closed lt same.symm

/-- Chains of an image end together with their preimages. -/
theorem ends_map {link' : β → Option β} {f : α → β} (maps : ∀ a, link' (f a) = (link a).map f)
    {a : α} : Ends link' (f a) ↔ Ends link a := by
  have steps (n : Nat) (a : α) : follow link' n (f a) = (follow link n a).map f := by
    induction n generalizing a with
    | zero => rfl
    | succ n ih =>
      rw [follow, follow, maps]
      cases link a with
      | none => rfl
      | some b => exact ih b
  simp only [ends_iff, steps, Option.map_eq_none_iff]

end Permesh.Lib

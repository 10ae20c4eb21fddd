import Mathlib.Data.List.Basic

/-!
# Segments — a list cut behind its separators

A list is cut behind each of its separators. What follows the last separator is the last segment,
even when nothing follows it. Nothing is lost (`flatten_segments`), each segment but the last one has
its only separator at its end, and the last one has none (`segments_shape`).
-/

namespace Permesh.Lib

variable {α : Type} (p : α → Bool)

def segments : List α → List (List α)
  | [] => [[]]
  | a :: l => if p a then [a] :: segments l else (segments l).modifyHead (a :: ·)

/-- A list that ends with its only separator. -/
def Ended (s : List α) : Prop := ∃ line a, (∀ x ∈ line, p x = false) ∧ p a = true ∧ s = line ++ [a]

variable {p}

theorem segments_open {l : List α} (h : ∀ a ∈ l, p a = false) : segments p l = [l] := by
  induction l with
  | nil => rfl
  | cons a l ih =>
    rw [segments, if_neg (by simp [h a]), ih fun x mem => h x (List.mem_cons_of_mem _ mem)]
    rfl

/-- Up to the first separator. -/
theorem segments_closed {s : List α} {a : α} (h : ∀ x ∈ s, p x = false) (sep : p a = true)
    (l : List α) : segments p (s ++ a :: l) = (s ++ [a]) :: segments p l := by
  induction s with
  | nil => exact if_pos sep
  | cons x s ih =>
    rw [List.cons_append, segments, if_neg (by simp [h x]),
      ih fun x mem => h x (List.mem_cons_of_mem _ mem)]
    rfl

/-- A list has a first separator, or none. -/
theorem open_or_closed (p : α → Bool) (l : List α) : (∀ a ∈ l, p a = false) ∨
    ∃ s a rest, (∀ x ∈ s, p x = false) ∧ p a = true ∧ l = s ++ a :: rest := by
  induction l with
  | nil => exact .inl fun _ mem => by cases mem
  | cons a l ih =>
    cases sep : p a with
    | true => exact .inr ⟨[], a, l, fun _ mem => (by cases mem), sep, rfl⟩
    | false =>
      rcases ih with none | ⟨s, b, rest, plain, hb, rfl⟩
      · exact .inl (List.forall_mem_cons.mpr ⟨sep, none⟩)
      · exact .inr ⟨a :: s, b, rest, List.forall_mem_cons.mpr ⟨sep, plain⟩, hb, rfl⟩

/-- The first separator is in one place. -/
theorem first_unique {s s' : List α} {a a' : α} {l l' : List α} (h : ∀ x ∈ s, p x = false)
    (h' : ∀ x ∈ s', p x = false) (sep : p a = true) (sep' : p a' = true)
    (eq : s ++ a :: l = s' ++ a' :: l') : s = s' ∧ a = a' ∧ l = l' := by
  induction s generalizing s' with
  | nil =>
    cases s' with
    | nil => simpa using eq
    | cons x s' =>
      cases eq
      rw [h' _ (List.mem_cons_self ..)] at sep
      cases sep
  | cons x s ih =>
    cases s' with
    | nil =>
      cases eq
      rw [h _ (List.mem_cons_self ..)] at sep'
      cases sep'
    | cons x' s' =>
      obtain ⟨rfl, tail⟩ := List.cons.inj eq
      obtain ⟨rfl, same⟩ := ih (fun x mem => h x (List.mem_cons_of_mem _ mem))
        (fun x mem => h' x (List.mem_cons_of_mem _ mem)) tail
      exact ⟨rfl, same⟩

/-- **Nothing is lost, repeated or moved.** -/
theorem flatten_segments (p : α → Bool) (l : List α) : (segments p l).flatten = l := by
  induction l with
  | nil => rfl
  | cons a l ih =>
    rw [segments]
    split
    · rw [List.flatten_cons, ih]
      rfl
    · cases hs : segments p l with
      | nil =>
        rw [hs] at ih
        subst ih
        cases hs
      | cons s rest =>
        rw [hs] at ih
        rw [List.modifyHead_cons, List.flatten_cons, List.cons_append, ← List.flatten_cons, ih]

/-- **Separators are where segments end.** -/
theorem segments_shape (p : α → Bool) (l : List α) : ∃ init last, segments p l = init ++ [last] ∧
    (∀ s ∈ init, Ended p s) ∧ ∀ a ∈ last, p a = false := by
  induction n : l.length using Nat.strongRecOn generalizing l with
  | ind n ih =>
    subst n
    rcases open_or_closed p l with none | ⟨s, a, rest, plain, sep, rfl⟩
    · exact ⟨[], l, segments_open none, fun _ mem => (by cases mem), none⟩
    · obtain ⟨init, last, eq, ended, open'⟩ := ih rest.length (by simp; omega) rest rfl
      refine ⟨(s ++ [a]) :: init, last, ?_, ?_, open'⟩
      · rw [segments_closed plain sep, eq]
        rfl
      · exact List.forall_mem_cons.mpr ⟨⟨s, a, plain, sep, rfl⟩, ended⟩

end Permesh.Lib

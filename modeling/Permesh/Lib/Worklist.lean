import Mathlib.Data.List.Perm.Subperm
import Mathlib.Data.List.TakeWhile
import Mathlib.Logic.Relation
import Permesh.Lib.Maps

/-!
# Worklist — what roots lead to

A search takes a node from a stack, skips it if it was seen before, and otherwise puts what the node
leads to on the stack. Every node must be known, and only so many may be seen. The order of the stack
makes no difference: the search succeeds exactly if every node that the roots lead to is known and
there are not too many of them, and then it has seen these nodes and no others (`search_iff`).
-/

namespace Permesh.Lib

open Std Relation

variable {κ : Type} [Ord κ] [TransOrd κ] [LawfulEqOrd κ]

/-- A search with a stack of pending nodes. `next` is what a known node leads to, and `left` more
nodes may be seen. -/
def search (next : κ → Option (List κ)) : Nat → List κ → ExtTreeSet κ → Option (ExtTreeSet κ)
  | 0, pending, seen => if pending.all (· ∈ seen) then some seen else none
  | left + 1, pending, seen =>
    match pending.dropWhile (· ∈ seen) with
    | [] => some seen
    | id :: rest =>
      (next id).bind fun found => search next left (found.reverse ++ rest) (seen.insert id)

variable {next : κ → Option (List κ)} {roots pending rest : List κ} {seen all : ExtTreeSet κ}

/-- One node leads to another. -/
def Leads (next : κ → Option (List κ)) (a b : κ) : Prop := ∃ found, next a = some found ∧ b ∈ found

/-- The roots lead to the node. -/
def Reached (next : κ → Option (List κ)) (roots : List κ) (id : κ) : Prop :=
  ∃ root ∈ roots, ReflTransGen (Leads next) root id

omit [Ord κ] [TransOrd κ] [LawfulEqOrd κ] in
theorem Reached.lead {a b : κ} (h : Reached next roots a) (leads : Leads next a b) :
    Reached next roots b := by
  obtain ⟨root, mem, path⟩ := h
  exact ⟨root, mem, path.tail leads⟩

/-- A search under way: what was seen and what is pending is reached, and what a node that was seen
leads to is not lost. -/
structure Searching (next : κ → Option (List κ)) (roots pending : List κ) (seen : ExtTreeSet κ) :
    Prop where
  seen_reached : ∀ id ∈ seen, Reached next roots id
  pending_reached : ∀ id ∈ pending, Reached next roots id
  roots_kept : ∀ id ∈ roots, id ∈ seen ∨ id ∈ pending
  next_kept : ∀ id ∈ seen, ∃ found, next id = some found ∧ ∀ b ∈ found, b ∈ seen ∨ b ∈ pending

omit [LawfulEqOrd κ] in
theorem searching_start (roots : List κ) : Searching next roots roots ∅ where
  seen_reached := by simp
  pending_reached id mem := ⟨id, mem, .refl⟩
  roots_kept id mem := .inr mem
  next_kept := by simp

omit [LawfulEqOrd κ] in
/-- A node that was seen is skipped. -/
theorem Searching.skip {id : κ} (h : Searching next roots (id :: rest) seen) (old : id ∈ seen) :
    Searching next roots rest seen := by
  have kept (b : κ) (there : b ∈ seen ∨ b ∈ id :: rest) : b ∈ seen ∨ b ∈ rest := by
    rcases there with there | there
    · exact .inl there
    · rcases List.mem_cons.mp there with rfl | there
      · exact .inl old
      · exact .inr there
  constructor
  · exact h.seen_reached
  · intro b mem
    exact h.pending_reached b (List.mem_cons_of_mem id mem)
  · intro b mem
    exact kept b (h.roots_kept b mem)
  · intro a mem
    obtain ⟨found, known, there⟩ := h.next_kept a mem
    exact ⟨found, known, fun b mem => kept b (there b mem)⟩

omit [LawfulEqOrd κ] in
/-- A search goes on at the first node that was not seen. -/
theorem Searching.skips (h : Searching next roots pending seen) :
    Searching next roots (pending.dropWhile (· ∈ seen)) seen := by
  induction pending with
  | nil => exact h
  | cons id rest ih =>
    by_cases old : id ∈ seen
    · rw [List.dropWhile_cons_of_pos (by simpa using old)]
      exact ih (h.skip old)
    · rwa [List.dropWhile_cons_of_neg (by simpa using old)]

/-- A new node is seen, and what it leads to is pending. -/
theorem Searching.visit {id : κ} {found : List κ} (h : Searching next roots (id :: rest) seen)
    (known : next id = some found) :
    Searching next roots (found.reverse ++ rest) (seen.insert id) := by
  have here : Reached next roots id := h.pending_reached id List.mem_cons_self
  have kept (b : κ) (there : b ∈ seen ∨ b ∈ id :: rest) :
      b ∈ seen.insert id ∨ b ∈ found.reverse ++ rest := by
    simp only [mem_insert_key, List.mem_append, List.mem_cons] at there ⊢
    grind
  constructor
  · intro a mem
    rcases mem_insert_key.mp mem with rfl | old
    · exact here
    · exact h.seen_reached a old
  · intro b mem
    rcases List.mem_append.mp mem with new | old
    · exact here.lead ⟨found, known, List.mem_reverse.mp new⟩
    · exact h.pending_reached b (List.mem_cons_of_mem id old)
  · intro b mem
    exact kept b (h.roots_kept b mem)
  · intro a mem
    rcases mem_insert_key.mp mem with rfl | old
    · exact ⟨found, known, fun b mem => .inr (by simp [mem])⟩
    · obtain ⟨others, known', there⟩ := h.next_kept a old
      exact ⟨others, known', fun b mem => kept b (there b mem)⟩

omit [LawfulEqOrd κ] in
/-- When nothing is pending, everything that is reached was seen. -/
theorem Searching.done (h : Searching next roots [] seen) {id : κ} :
    id ∈ seen ↔ Reached next roots id := by
  refine ⟨h.seen_reached id, ?_⟩
  rintro ⟨root, mem, path⟩
  induction path with
  | refl =>
    have kept := h.roots_kept root mem
    simpa using kept
  | @tail a b _ leads ih =>
    obtain ⟨found, known, there⟩ := leads
    obtain ⟨found', known', kept⟩ := h.next_kept a ih
    cases known.symm.trans known'
    simpa using kept _ there

/-- A larger set has more elements. -/
theorem size_lt_of_mem {id : κ} (sub : ∀ b ∈ seen, b ∈ all) (mem : id ∈ all) (new : id ∉ seen) :
    seen.size < all.size := by
  have apart : seen.toList.Nodup := by
    refine (ExtTreeSet.distinct_toList (t := seen)).imp fun ne eq => ?_
    exact ne (compare_eq_iff_eq.mpr eq)
  have nodup : (id :: seen.toList).Nodup := by simp [new, apart]
  have le : (id :: seen.toList).length ≤ all.toList.length := by
    apply List.Subperm.length_le
    apply nodup.subperm
    intro b there
    simp only [List.mem_cons, ExtTreeSet.mem_toList] at there ⊢
    grind
  rw [List.length_cons, ExtTreeSet.length_toList, ExtTreeSet.length_toList] at le
  omega

omit [LawfulEqOrd κ] in
/-- Nothing is left to be seen. -/
theorem Searching.ends (h : Searching next roots pending seen)
    (none : pending.dropWhile (· ∈ seen) = []) :
    (∀ id, id ∈ seen ↔ Reached next roots id) ∧ ∀ id ∈ seen, (next id).isSome := by
  have skipped := h.skips
  rw [none] at skipped
  refine ⟨fun id => skipped.done, fun id mem => ?_⟩
  obtain ⟨found, known, -⟩ := h.next_kept id mem
  simp [known]

omit [LawfulEqOrd κ] in
/-- The first node that was not seen. -/
theorem Searching.first {id : κ} (h : Searching next roots pending seen)
    (more : pending.dropWhile (· ∈ seen) = id :: rest) :
    Searching next roots (id :: rest) seen ∧ id ∉ seen := by
  constructor
  · have skipped := h.skips
    rwa [more] at skipped
  · have new := List.head?_dropWhile_not (fun b => decide (b ∈ seen)) pending
    simpa [more] using new

/-- There is room for a node that was not seen. -/
theorem Searching.room {id : κ} (h : Searching next roots pending seen)
    (reached : ∀ id, id ∈ all ↔ Reached next roots id)
    (more : pending.dropWhile (· ∈ seen) = id :: rest) : id ∈ all ∧ seen.size < all.size := by
  obtain ⟨skipped, new⟩ := h.first more
  have mem : id ∈ all := (reached id).mpr (skipped.pending_reached id List.mem_cons_self)
  refine ⟨mem, size_lt_of_mem ?_ mem new⟩
  intro b old
  exact (reached b).mpr (h.seen_reached b old)

/-- What a search returns. -/
theorem Searching.returned {left : Nat} (h : Searching next roots pending seen)
    (ok : search next left pending seen = some all) :
    (∀ id, id ∈ all ↔ Reached next roots id) ∧ (∀ id ∈ all, (next id).isSome) ∧
      all.size ≤ left + seen.size := by
  induction left generalizing pending seen with
  | zero =>
    unfold search at ok
    split at ok
    case isTrue old =>
      cases ok
      obtain ⟨reached, known⟩ := h.ends (List.dropWhile_eq_nil_iff.mpr (List.all_eq_true.mp old))
      exact ⟨reached, known, by omega⟩
    · cases ok
  | succ left ih =>
    unfold search at ok
    split at ok
    case h_1 none =>
      cases ok
      obtain ⟨reached, known⟩ := h.ends none
      exact ⟨reached, known, by omega⟩
    case h_2 id rest more =>
      obtain ⟨found, known, ok⟩ := Option.bind_eq_some_iff.mp ok
      obtain ⟨reached, all_known, few⟩ := ih ((h.first more).1.visit known) ok
      refine ⟨reached, all_known, ?_⟩
      have grown : (seen.insert id).size ≤ seen.size + 1 := ExtTreeSet.size_insert_le
      omega

/-- A search returns if there is room for everything that is reached. -/
theorem Searching.returns {left : Nat} (h : Searching next roots pending seen)
    (reached : ∀ id, id ∈ all ↔ Reached next roots id) (known : ∀ id ∈ all, (next id).isSome)
    (few : all.size ≤ left + seen.size) : ∃ found, search next left pending seen = some found := by
  induction left generalizing pending seen with
  | zero =>
    unfold search
    cases more : pending.dropWhile (· ∈ seen) with
    | nil =>
      refine ⟨seen, if_pos ?_⟩
      exact List.all_eq_true.mpr (List.dropWhile_eq_nil_iff.mp more)
    | cons id rest =>
      have less := (h.room reached more).2
      omega
  | succ left ih =>
    unfold search
    split
    · exact ⟨seen, rfl⟩
    case h_2 id rest more =>
      obtain ⟨visited, new⟩ := h.first more
      obtain ⟨mem, less⟩ := h.room reached more
      obtain ⟨found, here⟩ := Option.isSome_iff_exists.mp (known id mem)
      have grown : (seen.insert id).size = seen.size + 1 := by
        rw [ExtTreeSet.size_insert, if_neg (by simpa using new)]
      rw [here, Option.bind_some]
      apply ih (visited.visit here)
      omega

/-- **A search finds what the roots lead to**, and fails only if a node is unknown or there are too
many. -/
theorem search_iff {limit : Nat} : search next limit roots ∅ = some all ↔
    (∀ id, id ∈ all ↔ Reached next roots id) ∧ (∀ id ∈ all, (next id).isSome) ∧
      all.size ≤ limit := by
  constructor
  · intro ok
    simpa using (searching_start roots).returned ok
  · intro ⟨reached, known, few⟩
    obtain ⟨found, ok⟩ := (searching_start roots).returns reached known (by simpa using few)
    have same : found = all := by
      ext id
      rw [((searching_start roots).returned ok).1 id, reached id]
    rw [ok, same]

/-- Two nodes that lead to each other, and a third that both lead to. -/
example : (search ([(0, [1, 2]), (1, [0, 2]), (2, []), (3, [0])].lookup ·) 3 [0] ∅).map (·.toList) =
    some [0, 1, 2] := by
  decide +kernel

end Permesh.Lib

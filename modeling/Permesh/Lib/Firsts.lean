import Mathlib.Data.List.Destutter
import Mathlib.Order.Defs.Unbundled

/-!
# Firsts — the first of each key

A list is sorted by a key, and of the elements with one key the first is kept. Sorting is stable, so
these are the elements that come first in the list itself. The keys that are left are in strictly
increasing order, and depend on nothing but the keys of the list.
-/

namespace Permesh.Lib

open Std

variable {α κ : Type} [Ord κ] [TransOrd κ] {key : α → κ}

/-- The order of the keys. -/
def keyLe (key : α → κ) (a b : α) : Bool := (compare (key a) (key b)).isLE

theorem keyLe_trans (a b c : α) (h : keyLe key a b = true) (h' : keyLe key b c = true) :
    keyLe key a c = true := TransCmp.isLE_trans h h'

theorem keyLe_total (a b : α) : (keyLe key a b || keyLe key b a) = true := by
  rw [Bool.or_eq_true, or_iff_not_imp_left]
  intro above
  have lt : compare (key b) (key a) = .lt := OrientedCmp.lt_of_not_isLE above
  unfold keyLe
  rw [lt]
  rfl

theorem keyLe_of_eq {a b : α} (same : key a = key b) : keyLe key a b = true := by
  unfold keyLe
  rw [same]
  exact ReflCmp.isLE_rfl

/-- Of two elements in order that differ, the first has the smaller key. -/
theorem lt_of_apart [LawfulEqOrd κ] {a b : α} (le : keyLe key a b = true) (ne : key a ≠ key b) :
    compare (key a) (key b) = .lt :=
  OrientedCmp.lt_of_not_isLE fun ge => ne (LawfulEqCmp.eq_of_compare (OrientedCmp.isLE_antisymm le ge))

theorem not_lt_self (k : κ) : compare k k ≠ .lt := by
  rw [ReflOrd.compare_self]
  decide

section Firsts

variable [DecidableEq κ]

/-- The elements with one key stay in their order. -/
theorem mergeSort_filter (l : List α) (k : κ) :
    (l.mergeSort (keyLe key)).filter (key · = k) = l.filter (key · = k) := by
  have equal : (l.filter (key · = k)).Pairwise fun a b => keyLe key a b = true := by
    refine List.pairwise_of_forall_mem_list fun a mem b mem' => keyLe_of_eq ?_
    exact (of_decide_eq_true (List.mem_filter.mp mem).2).trans
      (of_decide_eq_true (List.mem_filter.mp mem').2).symm
  have kept := (List.sublist_mergeSort keyLe_trans keyLe_total equal
    List.filter_sublist).filter (key · = k)
  simp only [List.filter_filter, Bool.and_self] at kept
  exact (kept.eq_of_length ((List.mergeSort_perm l _).filter _).length_eq.symm).symm

omit [Ord κ] [TransOrd κ] in
theorem first_cons (b : α) (l : List α) (k : κ) : (b :: l).find? (key · = k) =
    if key b = k then some b else l.find? (key · = k) := by
  rw [List.find?_cons]
  by_cases same : key b = k
  · rw [if_pos same, decide_eq_true same]
  · rw [if_neg same, decide_eq_false same]

variable [LawfulEqOrd κ] {R : α → α → Prop} [DecidableRel R]

omit [DecidableEq κ] in
/-- The keys that are left are in strictly increasing order. -/
theorem firsts_increasing (apart : ∀ a b, R a b ↔ key a ≠ key b) {b : α} {l : List α}
    (sorted : (b :: l).Pairwise fun a b => keyLe key a b = true) :
    (l.destutter' R b).Pairwise fun a b => compare (key a) (key b) = .lt := by
  induction l generalizing b with
  | nil => exact List.pairwise_singleton _ _
  | cons c l ih =>
    obtain ⟨least, rest⟩ := List.pairwise_cons.mp sorted
    by_cases differs : R b c
    · rw [List.destutter'_cons_pos _ differs]
      refine List.pairwise_cons.mpr ⟨fun a mem => ?_, ih rest⟩
      have lt := lt_of_apart (least c List.mem_cons_self) ((apart b c).mp differs)
      rcases List.mem_cons.mp ((l.destutter'_sublist R c).subset mem) with rfl | mem
      · exact lt
      · exact TransCmp.lt_of_lt_of_isLE lt ((List.pairwise_cons.mp rest).1 a mem)
    · rw [List.destutter'_cons_neg _ differs]
      exact ih (sorted.sublist ((List.sublist_cons_self c l).cons_cons b))

/-- What is left is the first element of each key. -/
theorem mem_firsts (apart : ∀ a b, R a b ↔ key a ≠ key b) {b : α} {l : List α}
    (sorted : (b :: l).Pairwise fun a b => keyLe key a b = true) (a : α) :
    a ∈ l.destutter' R b ↔ (b :: l).find? (key · = key a) = some a := by
  induction l generalizing b with
  | nil =>
    rw [List.destutter'_nil, List.mem_singleton, List.find?_singleton]
    by_cases same : key b = key a
    · simp [same, eq_comm]
    · have ne : a ≠ b := fun eq => same (congrArg key eq).symm
      simp [same, ne]
  | cons c l ih =>
    obtain ⟨least, rest⟩ := List.pairwise_cons.mp sorted
    by_cases differs : R b c
    · rw [List.destutter'_cons_pos _ differs, List.mem_cons, ih rest]
      by_cases same : key b = key a
      · rw [first_cons b, if_pos same, Option.some_inj, eq_comm, or_iff_left]
        -- a key that is left behind does not come back
        intro found
        have above : keyLe key c a = true := by
          rcases List.mem_cons.mp (List.mem_of_find?_eq_some found) with rfl | mem
          · exact keyLe_of_eq rfl
          · exact (List.pairwise_cons.mp rest).1 a mem
        have lt := lt_of_apart (least c List.mem_cons_self) ((apart b c).mp differs)
        have less := TransCmp.lt_of_lt_of_isLE lt above
        rw [same] at less
        exact not_lt_self _ less
      · have ne : a ≠ b := fun eq => same (congrArg key eq).symm
        rw [first_cons b, if_neg same, or_iff_right ne]
    · have same : key b = key c := not_not.mp fun ne => differs ((apart b c).mpr ne)
      rw [List.destutter'_cons_neg _ differs,
        ih (sorted.sublist ((List.sublist_cons_self c l).cons_cons b))]
      by_cases found : key b = key a
      · rw [first_cons, first_cons, if_pos found, if_pos found]
      · rw [first_cons, first_cons, first_cons, if_neg found, if_neg found, if_neg (same ▸ found)]

/-- **The first of each key**, in the order of the keys. -/
structure Firsts (key : α → κ) (l firsts : List α) : Prop where
  increasing : firsts.Pairwise fun a b => compare (key a) (key b) = .lt
  first : ∀ a, a ∈ firsts ↔ l.find? (key · = key a) = some a

/-- Sorting and leaving out neighbours with the same key gives the first of each key. -/
theorem firsts_destutter (apart : ∀ a b, R a b ↔ key a ≠ key b) (l : List α) :
    Firsts key l ((l.mergeSort (keyLe key)).destutter R) := by
  have sorted := List.pairwise_mergeSort (@keyLe_trans _ _ _ _ key) keyLe_total l
  have stable (a : α) : (l.mergeSort (keyLe key)).find? (key · = key a) = l.find? (key · = key a) := by
    rw [← List.head?_filter, mergeSort_filter, List.head?_filter]
  constructor
  · generalize l.mergeSort (keyLe key) = ordered at sorted
    cases ordered with
    | nil => exact List.Pairwise.nil
    | cons b rest => exact firsts_increasing apart sorted
  · intro a
    rw [← stable]
    generalize l.mergeSort (keyLe key) = ordered at sorted
    cases ordered with
    | nil => simp
    | cons b rest => exact mem_firsts apart sorted a

omit [TransOrd κ] [LawfulEqOrd κ] in
/-- Each key is kept, and no other one. -/
theorem Firsts.mem_keys {l firsts : List α} (h : Firsts key l firsts) {k : κ} :
    k ∈ firsts.map key ↔ k ∈ l.map key := by
  rw [List.mem_map, List.mem_map]
  constructor
  · rintro ⟨a, mem, same⟩
    exact ⟨a, List.mem_of_find?_eq_some ((h.first a).mp mem), same⟩
  · rintro ⟨a, mem, rfl⟩
    cases found : l.find? (key · = key a) with
    | none => exact absurd (decide_eq_true rfl) (List.find?_eq_none.mp found a mem)
    | some b =>
      have same : key b = key a := by simpa using List.find?_some found
      refine ⟨b, (h.first b).mpr ?_, same⟩
      rw [same]
      exact found

omit [LawfulEqOrd κ] in
/-- Lists with the same keys have the same first keys. -/
theorem Firsts.keys_eq {l l' firsts firsts' : List α} (h : Firsts key l firsts)
    (h' : Firsts key l' firsts') (same : ∀ k, k ∈ l.map key ↔ k ∈ l'.map key) :
    firsts.map key = firsts'.map key := by
  have increasing {l firsts : List α} (h : Firsts key l firsts) :
      (firsts.map key).Pairwise fun k k' => compare k k' = .lt := List.pairwise_map.mpr h.increasing
  have once {l firsts : List α} (h : Firsts key l firsts) : (firsts.map key).Nodup := by
    refine (increasing h).imp fun {k k'} lt => ?_
    rintro rfl
    exact not_lt_self k lt
  have perm : (firsts.map key).Perm (firsts'.map key) := by
    apply (List.perm_ext_iff_of_nodup (once h) (once h')).mpr
    intro k
    rw [h.mem_keys, h'.mem_keys, same]
  refine perm.eq_of_pairwise (fun k k' _ _ lt gt => ?_) (increasing h) (increasing h')
  exact absurd (TransCmp.lt_trans lt gt) (not_lt_self k)

end Firsts

end Permesh.Lib

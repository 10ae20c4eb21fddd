import Permesh.Aws.Records
import Permesh.Lib.Rows

/-!
# Laws.Aws.Rows — the rows that take part

`unique` keeps, under each identifier, the row that all rows of this identifier are, whatever their
order (`unique_perm`). Of these rows, a managed policy is kept under its ARN and a group under its
name if no other one that is valid has it (`getElem?_policyMap`, `getElem?_groupMap`). What is dropped
leaves a warning.

Entries are staged under their names, and a second one of a name takes both out (`Tally`). What is staged
at the end is a statement about all rows, so that their order drops out.
-/

namespace Permesh.Aws

open Permesh.Lib

/-! ## Unique rows -/

section

variable {τ : Type} [DecidableEq τ] {id : τ → Option String} {rows : List τ}
  {warnings : Std.ExtTreeSet String}

/-- The rows that `unique` has taken in, without its warnings. -/
def Unique.taken (u : Unique τ) : Rows String τ := ⟨u.map, u.blocked⟩

theorem Unique.taken_take (id : τ → Option String) (u : Unique τ) (row : τ) :
    (u.take id row).taken = u.taken.take id row := by
  unfold Unique.take Rows.take
  cases id row with
  | none => rfl
  | some k =>
    dsimp only [Unique.taken]
    by_cases old : k ∈ u.blocked
    · rw [if_pos old]
      exact (if_pos old).symm
    · by_cases other : u.map[k]?.any (· != row) = true
      · rw [if_neg old, if_pos other]
        exact ((if_neg old).trans (if_pos other)).symm
      · rw [if_neg old, if_neg other]
        exact ((if_neg old).trans (if_neg other)).symm

theorem unique_taken (warnings : Std.ExtTreeSet String) :
    (unique rows id warnings).taken = Rows.of id rows :=
  (List.foldl_hom Unique.taken fun u row => (u.taken_take id row).symm).symm

theorem getElem?_unique {k : String} {v : τ} :
    (unique rows id warnings).map[k]? = some v ↔ Only id rows k v := by
  rw [← Rows.getElem?_iff, ← unique_taken warnings]
  rfl

theorem mem_unique {k : String} {v : τ} :
    (k, v) ∈ (unique rows id warnings).map.toList ↔ Only id rows k v := by
  rw [Std.ExtTreeMap.mem_toList_iff_getElem?_eq_some, getElem?_unique]

/-- What `unique` warns of: a row without an identifier, and a key in conflict. -/
theorem mem_unique_warnings (code : String) :
    code ∈ (unique rows id warnings).warnings ↔ code ∈ warnings ∨
      (code = "malformed" ∧ ∃ row ∈ rows, id row = none) ∨
      (code = "conflicting_records" ∧ ∃ k, k ∈ (unique rows id warnings).blocked) := by
  refine foldl_rule (fun before (u : Unique τ) => code ∈ u.warnings ↔ code ∈ warnings ∨
    (code = "malformed" ∧ ∃ row ∈ before, id row = none) ∨
    (code = "conflicting_records" ∧ ∃ k, k ∈ u.blocked)) (by simp) (fun before row u h => ?_) rows
  unfold Unique.take
  cases hid : id row with
  | none =>
    have here : ∃ r ∈ before ++ [row], id r = none := ⟨row, by simp, hid⟩
    dsimp only
    rw [mem_insert_key, h]
    constructor
    · rintro (rfl | old | ⟨rfl, -⟩ | blocked)
      · exact .inr (.inl ⟨rfl, here⟩)
      · exact .inl old
      · exact .inr (.inl ⟨rfl, here⟩)
      · exact .inr (.inr blocked)
    · rintro (old | ⟨rfl, -⟩ | blocked)
      · exact .inr (.inl old)
      · exact .inl rfl
      · exact .inr (.inr (.inr blocked))
  | some k =>
    have longer : (∃ r ∈ before ++ [row], id r = none) ↔ ∃ r ∈ before, id r = none := by
      simp [or_and_right, exists_or, hid]
    rw [longer]
    dsimp only
    split
    · exact h
    · split
      · have here : ∃ k', k' ∈ u.blocked.insert k := ⟨k, mem_insert_key.mpr (.inl rfl)⟩
        rw [mem_insert_key, h]
        constructor
        · rintro (rfl | old | malformed | ⟨rfl, -⟩)
          · exact .inr (.inr ⟨rfl, here⟩)
          · exact .inl old
          · exact .inr (.inl malformed)
          · exact .inr (.inr ⟨rfl, here⟩)
        · rintro (old | malformed | ⟨rfl, -⟩)
          · exact .inr (.inl old)
          · exact .inr (.inr (.inl malformed))
          · exact .inl rfl
      · exact h

/-- **`unique` does not depend on the order of the rows.** -/
theorem unique_perm {rows' : List τ} (perm : rows.Perm rows') (warnings : Std.ExtTreeSet String) :
    unique rows id warnings = unique rows' id warnings := by
  have same : (unique rows id warnings).taken = (unique rows' id warnings).taken := by
    rw [unique_taken, unique_taken, Rows.of_perm id perm]
  have map : (unique rows id warnings).map = (unique rows' id warnings).map :=
    congrArg Rows.map same
  have blocked : (unique rows id warnings).blocked = (unique rows' id warnings).blocked :=
    congrArg Rows.blocked same
  have warned : (unique rows id warnings).warnings = (unique rows' id warnings).warnings := by
    apply Std.ExtTreeSet.ext_mem
    intro code
    rw [mem_unique_warnings, mem_unique_warnings, blocked]
    simp only [perm.mem_iff]
  calc unique rows id warnings
      = ⟨(unique rows id warnings).map, (unique rows id warnings).blocked,
          (unique rows id warnings).warnings⟩ := rfl
    _ = unique rows' id warnings := by rw [map, blocked, warned]

/-- Without a warning every row is kept. -/
theorem unique_clean (clean : (unique rows id warnings).warnings = ∅) :
    warnings = ∅ ∧ ∀ row ∈ rows, ∃ k, id row = some k ∧ Only id rows k row := by
  rw [Std.ExtTreeSet.eq_empty_iff_forall_not_mem] at clean
  have none (code : String) := (mem_unique_warnings code).not.mp (clean code)
  refine ⟨Std.ExtTreeSet.eq_empty_iff_forall_not_mem.mpr fun code mem => none code (.inl mem),
    fun row mem => ?_⟩
  cases hid : id row with
  | none => exact absurd (.inr (.inl ⟨rfl, row, mem, hid⟩)) (none "malformed")
  | some k =>
    refine ⟨k, rfl, Rows.only_of_free id (fun blocked => ?_) mem hid⟩
    rw [← unique_taken warnings] at blocked
    exact none "conflicting_records" (.inr (.inr ⟨rfl, k, blocked⟩))

end

/-! ## Staging -/

section

/-- Entries that are staged, with the warnings. -/
structure Tally (α : Type) where
  staged : Staged String α
  warnings : Std.ExtTreeSet String

variable {α β : Type} (entry : β → Option (String × α))

/-- The entry of one row more, unless the row is malformed. -/
def Tally.take (t : Tally α) (row : β) : Tally α :=
  match entry row with
  | none => { t with warnings := t.warnings.insert "malformed" }
  | some (k, a) => {
      staged := t.staged.put k a
      warnings :=
        if k ∈ t.staged.map then t.warnings.insert "conflicting_records" else t.warnings }

variable (warnings : Std.ExtTreeSet String)

/-- What is staged, and what it means that nothing was warned of. -/
structure Tally.Holds (rows : List β) (t : Tally α) : Prop where
  staged : t.staged.Holds (rows.filterMap entry)
  clean : t.warnings = ∅ →
    warnings = ∅ ∧ (∀ row ∈ rows, (entry row).isSome = true) ∧ t.staged.conflicts = ∅

theorem insert_ne_empty {s : Std.ExtTreeSet String} {code : String} : s.insert code ≠ ∅ := by
  intro h
  have := Std.ExtTreeSet.eq_empty_iff_forall_not_mem.mp h code
  exact this (mem_insert_key.mpr (.inl rfl))

variable {entry warnings}

theorem Tally.Holds.take {rows : List β} {t : Tally α} (h : t.Holds entry warnings rows) (row : β) :
    (t.take entry row).Holds entry warnings (rows ++ [row]) := by
  unfold Tally.take
  cases he : entry row with
  | none =>
    refine ⟨?_, fun clean => absurd clean insert_ne_empty⟩
    rw [List.filterMap_append, List.filterMap_cons_none he, List.filterMap_nil, List.append_nil]
    exact h.staged
  | some e =>
    obtain ⟨k, a⟩ := e
    refine ⟨?_, fun clean => ?_⟩
    · rw [List.filterMap_append, List.filterMap_cons_some he, List.filterMap_nil]
      exact h.staged.put k a
    · dsimp only at clean ⊢
      split at clean
      · exact absurd clean insert_ne_empty
      case isFalse fresh =>
        obtain ⟨start, valid, none⟩ := h.clean clean
        refine ⟨start, fun r mem => ?_, ?_⟩
        · rcases List.mem_append.mp mem with mem | mem
          · exact valid r mem
          · rw [List.mem_singleton.mp mem, he]
            rfl
        · unfold Staged.put
          dsimp only
          rw [if_neg fresh, none]

variable (entry warnings)

theorem Tally.holds_nil : (⟨.empty, warnings⟩ : Tally α).Holds entry warnings [] :=
  ⟨Staged.holds_empty, fun clean => ⟨clean, nofun, rfl⟩⟩

variable {entry warnings}

/-- Without a warning every entry is kept. -/
theorem Tally.Holds.settled {rows : List β} {t : Tally α} (h : t.Holds entry warnings rows)
    (clean : t.warnings = ∅) : warnings = ∅ ∧
      ∀ row ∈ rows, ∃ k a, entry row = some (k, a) ∧ t.staged.settled[k]? = some a := by
  obtain ⟨start, valid, none⟩ := h.clean clean
  refine ⟨start, fun row mem => ?_⟩
  obtain ⟨⟨k, a⟩, he⟩ := Option.isSome_iff_exists.mp (valid row mem)
  refine ⟨k, a, he, h.staged.settled_of_free (by simp [none]) ?_⟩
  exact List.mem_filterMap.mpr ⟨row, mem, he⟩

end

/-! ## Policies and groups -/

section

variable (p : AwsProvider) (c : Collected)

/-- A managed policy that takes part. -/
def ValidPolicy (id : String) (v : ManagedPolicyDetail) (arn : String) (resource : Resource) :
    Prop :=
  Only ManagedPolicyDetail.policyId c.policies id v ∧ p.managed id v = some (arn, resource)

/-- A group that takes part. -/
def ValidGroup (id : String) (v : GroupDetail) (name : String) : Prop :=
  Only GroupDetail.groupId c.groups id v ∧
    p.named "AGPA" "group" id v.groupName v.arn = some name

/-- The resource of the only valid managed policy with an ARN. -/
def SolePolicy (arn : String) (resource : Resource) : Prop :=
  ∃ id v, ValidPolicy p c id v arn resource ∧
    ∀ id' v' r', ValidPolicy p c id' v' arn r' → id' = id

/-- The key of the only valid group with a name. -/
def SoleGroup (name : String) (k : EntityKey) : Prop :=
  ∃ id v, ValidGroup p c id v name ∧ k = p.groupKey id ∧
    ∀ id' v', ValidGroup p c id' v' name → id' = id

/-- The policy of a row, by its ARN. -/
def policyEntry (e : String × ManagedPolicyDetail) : Option (String × Resource) :=
  p.managed e.1 e.2

/-- The group of a row, by its name. -/
def groupEntry (e : String × GroupDetail) : Option (String × EntityKey) :=
  (p.named "AGPA" "group" e.1 e.2.groupName e.2.arn).map fun name => (name, p.groupKey e.1)

theorem policies_tally (rows : Unique ManagedPolicyDetail) :
    (⟨(p.policies rows).staged, (p.policies rows).warnings⟩ : Tally Resource).Holds (policyEntry p)
      rows.warnings rows.map.toList := by
  refine foldl_rule (fun before (t : Policies) =>
    (⟨t.staged, t.warnings⟩ : Tally Resource).Holds (policyEntry p) rows.warnings before)
    (Tally.holds_nil ..) (fun before e t h => ?_) _
  have next := h.take e
  unfold Tally.take policyEntry at next
  unfold AwsProvider.policy
  cases entry : p.managed e.1 e.2 <;> rw [entry] at next <;> exact next

theorem groups_tally (rows : Unique GroupDetail) :
    (⟨(p.groups rows).staged, (p.groups rows).warnings⟩ : Tally EntityKey).Holds (groupEntry p)
      rows.warnings rows.map.toList := by
  refine foldl_rule (fun before (t : Groups) =>
    (⟨t.staged, t.warnings⟩ : Tally EntityKey).Holds (groupEntry p) rows.warnings before)
    (Tally.holds_nil ..) (fun before e t h => ?_) _
  have next := h.take e
  unfold Tally.take groupEntry at next
  unfold AwsProvider.stage
  dsimp only
  cases named : p.named "AGPA" "group" e.1 e.2.groupName e.2.arn <;> rw [named] at next <;>
    exact next

/-- A group that is staged. -/
def groupRow (e : String × GroupDetail) : Option (String × EntityKey × GroupDetail) :=
  (p.named "AGPA" "group" e.1 e.2.groupName e.2.arn).map fun name => (name, p.groupKey e.1, e.2)

/-- The groups that are staged, in order. -/
theorem groups_rows (rows : Unique GroupDetail) :
    (p.groups rows).rows = rows.map.toList.filterMap (groupRow p) := by
  refine foldl_rule (fun before (t : Groups) => t.rows = before.filterMap (groupRow p)) rfl
    (fun before e t h => ?_) _
  rw [List.filterMap_append, ← h]
  unfold AwsProvider.stage
  dsimp only
  cases named : p.named "AGPA" "group" e.1 e.2.groupName e.2.arn with
  | none => simp [groupRow, named]
  | some name => simp [groupRow, named]

/-- A map lists its entries once. -/
theorem nodup_toList {τ : Type} (m : Std.ExtTreeMap String τ) : m.toList.Nodup := by
  have keys := Std.ExtTreeMap.nodup_keys (t := m)
  rw [← Std.ExtTreeMap.map_fst_toList_eq_keys] at keys
  exact keys.of_map

variable {p c} {warnings : Std.ExtTreeSet String}

/-- **A managed policy is kept if it is the only valid one with its ARN.** -/
theorem getElem?_policyMap {arn : String} {resource : Resource} :
    (p.policies (unique c.policies (·.policyId) warnings)).staged.settled[arn]? = some resource ↔
      SolePolicy p c arn resource := by
  rw [(policies_tally p _).staged.getElem?_settled, entries_eq_singleton (nodup_toList _)]
  simp only [Prod.exists, Prod.forall, mem_unique, policyEntry, Prod.mk.injEq]
  constructor
  · rintro ⟨id, v, only, valid, alone⟩
    exact ⟨id, v, ⟨only, valid⟩, fun id' v' r' h => (alone id' v' h.1 r' h.2).1⟩
  · rintro ⟨id, v, ⟨only, valid⟩, alone⟩
    refine ⟨id, v, only, valid, fun id' v' only' r' valid' => ?_⟩
    have same := alone id' v' r' ⟨only', valid'⟩
    subst same
    exact ⟨rfl, only'.unique only⟩

/-- **A group is kept if it is the only valid one with its name.** -/
theorem getElem?_groupMap {name : String} {k : EntityKey} :
    (p.groups (unique c.groups (·.groupId) warnings)).staged.settled[name]? = some k ↔
      SoleGroup p c name k := by
  rw [(groups_tally p _).staged.getElem?_settled, entries_eq_singleton (nodup_toList _)]
  simp only [Prod.exists, Prod.forall, mem_unique, groupEntry, Prod.mk.injEq,
    Option.map_eq_some_iff]
  constructor
  · rintro ⟨id, v, only, ⟨_, named, rfl, rfl⟩, alone⟩
    exact ⟨id, v, ⟨only, named⟩, rfl,
      fun id' v' h => (alone id' v' h.1 (p.groupKey id') ⟨_, h.2, rfl, rfl⟩).1⟩
  · rintro ⟨id, v, ⟨only, named⟩, rfl, alone⟩
    refine ⟨id, v, only, ⟨name, named, rfl, rfl⟩, ?_⟩
    rintro id' v' only' _ ⟨_, named', rfl, -⟩
    have same := alone id' v' ⟨only', named'⟩
    subst same
    exact ⟨rfl, only'.unique only⟩

end

end Permesh.Aws

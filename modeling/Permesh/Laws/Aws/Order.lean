import Permesh.Laws.Aws.Closed

/-!
# Laws.Aws.Order — the order of the rows

The rows of a run come in some order, split into pages in some way. The snapshot does not depend on
it: which rows take part is decided by all rows of an identifier, all policies of an ARN and all
groups of a name (`order_independent`).

The rows of two runs are a permutation of each other (`SameRows`), and `assemble` looks at them only
through `unique`, which does not depend on their order. So the two assemblies are equal, and no relation
between snapshots is needed. The warnings are part of the outcome and are equal as well.
-/

namespace Permesh.Aws

open Permesh.Lib

variable {p : AwsProvider} {c c' : Collected}

/-! ## Rows in another order -/

/-- The same rows in another order, and the same warnings. -/
structure SameRows (c c' : Collected) : Prop where
  users : c.users.Perm c'.users
  roles : c.roles.Perm c'.roles
  groups : c.groups.Perm c'.groups
  policies : c.policies.Perm c'.policies
  warnings : c.warnings = c'.warnings

theorem SameRows.assemble (h : SameRows c c') (p : AwsProvider) (observedAt : String) :
    p.assemble observedAt c = p.assemble observedAt c' := by
  unfold AwsProvider.assemble
  simp only [unique_perm h.policies, unique_perm h.groups, unique_perm h.users,
    unique_perm h.roles, h.warnings]

theorem SameRows.finish (h : SameRows c c') (p : AwsProvider) (core : Core)
    (rejection : ProviderError) (observedAt : String) :
    p.finish core rejection observedAt c = p.finish core rejection observedAt c' := by
  unfold AwsProvider.finish
  rw [h.assemble]

theorem SameRows.total (h : SameRows c c') : c.total = c'.total := by
  unfold Collected.total
  rw [h.users.length_eq, h.roles.length_eq, h.groups.length_eq, h.policies.length_eq]

/-! ## Pages -/

/-- The rows of some pages. -/
def rowsOf (outputs : List Output) : Collected where
  users := outputs.flatMap fun o => o.userDetailList.getD []
  roles := outputs.flatMap fun o => o.roleDetailList.getD []
  groups := outputs.flatMap fun o => o.groupDetailList.getD []
  policies := outputs.flatMap fun o => o.policies.getD []
  warnings := ∅

theorem add_rowsOf (outputs : List Output) (o : Output) : (rowsOf outputs).add o =
    if (rowsOf (outputs ++ [o])).total > MAX_ROWS then .error (error "limit")
    else .ok (rowsOf (outputs ++ [o])) := by
  have longer : rowsOf (outputs ++ [o]) = { rowsOf outputs with
      users := (rowsOf outputs).users ++ o.userDetailList.getD []
      roles := (rowsOf outputs).roles ++ o.roleDetailList.getD []
      groups := (rowsOf outputs).groups ++ o.groupDetailList.getD []
      policies := (rowsOf outputs).policies ++ o.policies.getD [] } := by
    simp only [rowsOf, List.flatMap_append, List.flatMap_singleton]
  rw [longer]
  rfl

theorem total_rowsOf (outputs outputs' : List Output) :
    (rowsOf (outputs ++ outputs')).total = (rowsOf outputs).total + (rowsOf outputs').total := by
  simp only [Collected.total, rowsOf, List.flatMap_append, List.length_append]
  omega

/-- **The pages are within the limit or they are not**, however the rows are split. -/
theorem addAll_eq (before outputs : List Output) (small : (rowsOf before).total ≤ MAX_ROWS) :
    outputs.foldlM Collected.add (rowsOf before) =
      if (rowsOf (before ++ outputs)).total > MAX_ROWS then .error (error "limit")
      else .ok (rowsOf (before ++ outputs)) := by
  induction outputs generalizing before with
  | nil =>
    rw [List.append_nil, if_neg (Nat.not_lt.mpr small)]
    rfl
  | cons o outputs ih =>
    rw [List.foldlM_cons, add_rowsOf]
    have whole : before ++ o :: outputs = before ++ [o] ++ outputs := by simp
    by_cases exceeds : (rowsOf (before ++ [o])).total > MAX_ROWS
    · have more := total_rowsOf (before ++ [o]) outputs
      rw [if_pos exceeds, whole, if_pos (by omega)]
      rfl
    · rw [if_neg exceeds, whole]
      exact ih (before ++ [o]) (Nat.le_of_not_lt exceeds)

/-- What pages with these rows, and these warnings, come down to. -/
def outcome (p : AwsProvider) (core : Core) (rejection : ProviderError) (observedAt : String)
    (warnings : Std.ExtTreeSet String) (outputs : List Output) : Except ProviderError Snapshot := do
  let c ← outputs.foldlM Collected.add .empty
  p.finish core rejection observedAt { c with warnings := warnings }

/-! ## Rows that take part -/

/-- Everything in a snapshot comes from rows that take part. -/
structure Drawn (p : AwsProvider) (c : Collected) (s : Snapshot) : Prop where
  accounts : ∀ a, a ∈ s.accounts ↔ ∃ x, TakesPart p c x ∧ a ∈ x.accounts
  groups : ∀ g, g ∈ s.groups ↔ ∃ x, TakesPart p c x ∧ g ∈ x.groups
  resources : ∀ r ∈ s.resources, (∃ arn, SolePolicy p c arn r) ∨
    ∃ x n, TakesPart p c x ∧ (∃ a ∈ x.inline, a.policyName = some n) ∧
      r = p.inlineResource (sid x.subject) n
  managed : ∀ arn r, SolePolicy p c arn r → r ∈ s.resources
  memberships : ∀ m ∈ s.memberships, ∃ x, TakesPart p c x ∧ m.member = x.subject ∧
    ∃ n ∈ x.joins, SoleGroup p c n m.group
  grants : ∀ g ∈ s.grants, ∃ x, TakesPart p c x ∧ g.subject = x.subject ∧
    ((∃ a ∈ x.attached, ∃ arn r, a.policyArn = some arn ∧ SolePolicy p c arn r ∧
      a.policyName = some r.name ∧ g.resource = r.key) ∨
    ∃ n, (∃ a ∈ x.inline, a.policyName = some n) ∧
      g.resource = (p.inlineResource (sid x.subject) n).key)

/-- **A row takes part only as all rows like it allow.** -/
theorem drawn_of_assemble (core : Core) {observedAt : String} {s : State}
    (ok : p.assemble observedAt c = .ok s) : Drawn p c (AwsProvider.ordered core s) := by
  obtain ⟨policies, names, xs, known, inv, -⟩ := assembled ok
  obtain ⟨accounts', groups', resources', memberships', grants'⟩ := ordered_lists core s
  have holds (x : Principal) := portion_holds p policies names (inventory observedAt) x
  constructor
  · intro a
    rw [accounts'.mem_iff, inv.mem_accounts]
    simp only [known.principals]
  · intro g
    rw [groups'.mem_iff, inv.mem_groups]
    simp only [known.principals]
  · intro r mem
    rw [resources'.mem_iff, inv.mem_resources] at mem
    rcases mem with ⟨arn, there⟩ | ⟨x, hx, mem⟩
    · exact .inl ⟨arn, (known.policies arn r).mp there⟩
    · obtain ⟨found, h⟩ := holds x
      rw [h.resources] at mem
      obtain ⟨n, there, rfl⟩ := List.mem_map.mp mem
      exact .inr ⟨x, n, (known.principals x).mp hx, (h.legal n there).1, rfl⟩
  · intro arn r sole
    rw [resources'.mem_iff, inv.mem_resources]
    exact .inl ⟨arn, (known.policies arn r).mpr sole⟩
  · intro m mem
    obtain ⟨x, hx, n, joins, k, named, rfl⟩ := inv.mem_memberships.mp (memberships'.subset mem)
    exact ⟨x, (known.principals x).mp hx, rfl, n, joins, (known.names n k).mp named⟩
  · intro g mem
    have there := (core.grants_perm _).mem_iff.mp (grants'.subset mem)
    obtain ⟨x, hx, there⟩ := inv.mem_grants.mp there
    obtain ⟨found, h⟩ := holds x
    refine ⟨x, (known.principals x).mp hx, ?_⟩
    obtain ⟨r, rfl, managed | ⟨n, inline, rfl⟩⟩ := h.grants g there
    · obtain ⟨a, attached, arn, harn, there, named⟩ := managed
      exact ⟨rfl, .inl ⟨a, attached, arn, r, harn, (known.policies arn r).mp there, named, rfl⟩⟩
    · exact ⟨rfl, .inr ⟨n, (h.legal n inline).1, rfl⟩⟩

/-- **The order of the rows does not matter**: pages with the same rows have the same outcome, and
what a snapshot holds is decided by all rows. -/
theorem order_independent (p : AwsProvider) (core : Core) (rejection : ProviderError)
    (observedAt : String) (warnings : Std.ExtTreeSet String) {outputs outputs' : List Output}
    (same : SameRows (rowsOf outputs) (rowsOf outputs')) :
    outcome p core rejection observedAt warnings outputs =
      outcome p core rejection observedAt warnings outputs' ∧
    ∀ s, outcome p core rejection observedAt warnings outputs = .ok s →
      Drawn p { rowsOf outputs with warnings := warnings } s := by
  have all (outputs : List Output) : outcome p core rejection observedAt warnings outputs =
      if (rowsOf outputs).total > MAX_ROWS then .error (error "limit")
      else p.finish core rejection observedAt { rowsOf outputs with warnings := warnings } := by
    have adds := addAll_eq [] outputs (Nat.zero_le _)
    rw [List.nil_append] at adds
    unfold outcome
    rw [show Collected.empty = rowsOf [] from rfl, adds]
    split <;> rfl
  refine ⟨?_, fun s ok => ?_⟩
  · have rewarned : SameRows { rowsOf outputs with warnings := warnings }
        { rowsOf outputs' with warnings := warnings } := { same with warnings := rfl }
    rw [all, all, same.total, rewarned.finish]
  · rw [all] at ok
    split at ok
    · cases ok
    · unfold AwsProvider.finish at ok
      split at ok
      · cases ok
      case h_2 state assembled =>
        dsimp only at ok
        split at ok
        · cases ok
        · cases ok
          exact drawn_of_assemble core assembled

/-- The group on a page of its own, before or behind the user. -/
theorem sample_order : outcome sampleProvider Core.plain ⟨"", ""⟩ "2026-01-01T00:00:00Z" ∅
      [{ samplePage with groupDetailList := none }, { samplePage with
        userDetailList := none
        policies := none }] =
    outcome sampleProvider Core.plain ⟨"", ""⟩ "2026-01-01T00:00:00Z" ∅
      [{ samplePage with userDetailList := none, policies := none }, { samplePage with
        groupDetailList := none }] :=
  (order_independent sampleProvider Core.plain _ _ _
    ⟨by decide, by decide, by decide, by decide, rfl⟩).1

end Permesh.Aws

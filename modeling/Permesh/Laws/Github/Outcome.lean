import Permesh.Laws.Github.Finish

/-!
# Laws.Github.Outcome — the finished graph depends on what was seen, not on the order

Each list of the finished graph is given by the verdicts alone (`Expected`). A verdict does not
depend on the order of the observations, so neither does the graph; and an entity is in it exactly
when the rows that were seen of it agree.

Each verdict is an agreement of observations, and agreement is invariant under permutation. Methods are
the exception: of two methods for one membership the first one is shown, which is why one method is
asked for.
-/

namespace Permesh.Github

open Permesh.Json Permesh.Lib

/-! ## The graph of the verdicts -/

section Expected

variable (p t : String) (observations : List Observation)

/-- An account or a team that is excluded. -/
def ExcludedSubject : Subject → Prop
  | .account k => ExcludedAccount p observations k
  | .group k => teamMetadata p observations k = .conflict

instance (subject : Subject) : Decidable (ExcludedSubject p observations subject) := by
  unfold ExcludedSubject
  cases subject <;> infer_instance

/-- The grant that the reports of a claim agree on. -/
def expectedGrant (k : GrantKey) : Option Grant :=
  if ExcludedSubject p observations k.2.1 ∨ repositoryName p observations k.2.2 = .conflict
  then none
  else (claimRole p observations k).value.map (claimGrant t k)

/-- The membership of a subject and a group that are both kept, as it was first reported. -/
def expectedMembership (k : MembershipKey) : Option Membership :=
  if ExcludedSubject p observations k.1 ∨ teamMetadata p observations k.2 = .conflict
  then none
  else (said k (observations.flatMap (joins p))).head?.map fun method => ⟨k.1, k.2, ⟨method, t⟩⟩

/-- Nothing that was seen is missing from the graph. -/
def Exhaustive : Prop :=
  (∀ o ∈ observations, anonymous o = false) ∧
    (∀ k, ¬ExcludedAccount p observations k) ∧
    (∀ k, repositoryName p observations k ≠ .conflict) ∧
    (∀ k, teamMetadata p observations k ≠ .conflict) ∧
    ∀ k, claimRole p observations k ≠ .conflict

end Expected

variable {p t : String} {observations : List Observation} {c : Collection}

/-- What the observations say of a finished snapshot, before it is sorted. -/
structure Expected (p t : String) (observations : List Observation) (c : Collection) : Prop where
  account : ∀ k : EntityKey, c.accounts[k]? = expectedAccount p observations k
  resource : ∀ k : EntityKey,
    c.resources[k]? = (repositoryName p observations k).value.map (repositoryOf k)
  group : ∀ k : EntityKey,
    c.groups[k]? = (teamMetadata p observations k).value.map (teamOf k)
  membership : ∀ k : MembershipKey, (c.memberships.filter fun _ m =>
    c.validSubject m.member && m.group ∉ c.blockedGroups)[k]? = expectedMembership p t observations k
  grant : ∀ k : GrantKey, (c.grants.filter fun _ g =>
    c.validSubject g.subject && g.resource ∉ c.blockedResources)[k]? =
      expectedGrant p t observations k
  complete : c.snapshot.complete = true ↔ Exhaustive p observations

theorem Tracks.validSubject (h : Tracks p t observations c) (subject : Subject) :
    c.validSubject subject = true ↔ ¬ExcludedSubject p observations subject := by
  cases subject with
  | account k =>
    simp only [Collection.validSubject, decide_eq_true_eq, ExcludedSubject, ExcludedAccount,
      (h.accounts k).blocked]
  | group k =>
    simp only [Collection.validSubject, decide_eq_true_eq, ExcludedSubject,
      (h.teams.kept k).blocked]

/-- A subject that is kept has issued all its claims. -/
theorem not_silenced {subject : Subject} (h : ¬ExcludedSubject p observations subject) :
    ¬Silenced p observations subject := by
  cases subject with
  | account k => exact h
  | group k => exact id

theorem Tracks.membership (h : Tracks p t observations c) (k : MembershipKey) :
    (c.memberships.filter fun _ m =>
      c.validSubject m.member && m.group ∉ c.blockedGroups)[k]? =
        expectedMembership p t observations k := by
  obtain ⟨issued, joined, ledger⟩ := h.ledger
  rw [Std.ExtTreeMap.getElem?_filter', ledger.taken.memberships k, expectedMembership]
  have valid : (c.validSubject k.1 && decide (k.2 ∉ c.blockedGroups)) = true ↔
      ¬(ExcludedSubject p observations k.1 ∨ teamMetadata p observations k.2 = .conflict) := by
    rw [Bool.and_eq_true, h.validSubject, decide_eq_true_eq, (h.teams.kept k.2).blocked, not_or]
  by_cases excluded : ExcludedSubject p observations k.1 ∨ teamMetadata p observations k.2 = .conflict
  · rw [if_pos excluded, Option.filter_eq_none_iff]
    intro m hm
    obtain ⟨method, -, rfl⟩ := Option.map_eq_some_iff.mp hm
    exact fun hv => valid.mp hv excluded
  · rw [if_neg excluded, ← ledger.memberships k (not_silenced (not_or.mp excluded).1),
      filter_eq_self]
    intro m hm
    obtain ⟨method, -, rfl⟩ := Option.map_eq_some_iff.mp hm
    exact valid.mpr excluded

theorem Tracks.grant (h : Tracks p t observations c) (k : GrantKey) :
    (c.grants.filter fun _ g =>
      c.validSubject g.subject && g.resource ∉ c.blockedResources)[k]? =
        expectedGrant p t observations k := by
  obtain ⟨issued, joined, ledger⟩ := h.ledger
  rw [Std.ExtTreeMap.getElem?_filter', (ledger.taken.grants k).entry, expectedGrant]
  have valid : (c.validSubject k.2.1 && decide (k.2.2 ∉ c.blockedResources)) = true ↔
      ¬(ExcludedSubject p observations k.2.1 ∨ repositoryName p observations k.2.2 = .conflict) := by
    rw [Bool.and_eq_true, h.validSubject, decide_eq_true_eq, (h.repositories k.2.2).blocked, not_or]
  by_cases excluded :
      ExcludedSubject p observations k.2.1 ∨ repositoryName p observations k.2.2 = .conflict
  · rw [if_pos excluded, Option.filter_eq_none_iff]
    intro g hg
    obtain ⟨report, -, rfl⟩ := Option.map_eq_some_iff.mp hg
    exact fun hv => valid.mp hv excluded
  · rw [if_neg excluded, claimRole, ← ledger.grants k (not_silenced (not_or.mp excluded).1),
      filter_eq_self]
    intro g hg
    obtain ⟨report, -, rfl⟩ := Option.map_eq_some_iff.mp hg
    exact valid.mpr excluded

/-- While no account is excluded, the blocked sets are the conflicts. -/
theorem Tracks.exhaustive (h : Tracks p t observations c) :
    c.snapshot.complete = true ↔ Exhaustive p observations := by
  obtain ⟨issued, joined, ledger⟩ := h.ledger
  have claim {k : GrantKey} (accounts : ∀ k, ¬ExcludedAccount p observations k) :
      k ∈ c.blockedGrants ↔ claimRole p observations k = .conflict := by
    have loud : ¬Silenced p observations k.2.1 := by
      cases k.2.1 with
      | account key => exact accounts key
      | group key => exact id
    rw [(ledger.taken.grants k).blocked, claimRole, ledger.grants k loud]
  rw [h.complete, and_comm]
  apply and_congr_right
  intro _
  constructor
  · intro clean
    have accounts : ∀ k, ¬ExcludedAccount p observations k := fun k =>
      mt (h.accounts k).blocked.mpr (clean.accounts k)
    exact ⟨accounts, fun k => mt (h.repositories k).blocked.mpr (clean.resources k),
      fun k => mt (h.teams.kept k).blocked.mpr (clean.groups k),
      fun k => mt (claim accounts).mpr (clean.grants k)⟩
  · rintro ⟨accounts, repositories, teams, claims⟩
    exact ⟨fun k => mt (h.accounts k).blocked.mp (accounts k),
      fun k => mt (h.repositories k).blocked.mp (repositories k),
      fun k => mt (h.teams.kept k).blocked.mp (teams k), fun k => mt (claim accounts).mp (claims k)⟩

/-- **The collection holds the graph of the verdicts.** -/
theorem Tracks.expected (h : Tracks p t observations c) : Expected p t observations c where
  account k := (h.accounts k).account
  resource k := (h.repositories k).entry
  group k := (h.teams.kept k).entry
  membership := h.membership
  grant := h.grant
  complete := h.exhaustive

/-! ## The order of the observations -/

section Order

variable {observations' : List Observation}

theorem said_perm {κ α : Type} [DecidableEq κ] {l l' : List (κ × α)} (h : l.Perm l') (k : κ) :
    (said k l).Perm (said k l') := (h.filter _).map _

theorem excludedAccount_perm (h : observations.Perm observations') (k : EntityKey) :
    ExcludedAccount p observations k ↔ ExcludedAccount p observations' k := by
  rw [ExcludedAccount, ExcludedAccount, accountLogin, accountLogin, accountType, accountType,
    Agreement.of_perm (h.flatMap_right _), Agreement.of_perm (h.flatMap_right (types p k))]

theorem repositoryName_perm (h : observations.Perm observations') (k : EntityKey) :
    repositoryName p observations k = repositoryName p observations' k :=
  Agreement.of_perm (h.flatMap_right _)

theorem teamMetadata_perm (h : observations.Perm observations') (k : EntityKey) :
    teamMetadata p observations k = teamMetadata p observations' k :=
  Agreement.of_perm (h.flatMap_right _)

theorem claimRole_perm (h : observations.Perm observations') (k : GrantKey) :
    claimRole p observations k = claimRole p observations' k :=
  Agreement.of_perm ((said_perm (h.flatMap_right _) k).map _)

theorem excludedSubject_perm (h : observations.Perm observations') (subject : Subject) :
    ExcludedSubject p observations subject ↔ ExcludedSubject p observations' subject := by
  cases subject with
  | account k => exact excludedAccount_perm h k
  | group k => rw [ExcludedSubject, ExcludedSubject, teamMetadata_perm h]

theorem expectedAccount_perm (h : observations.Perm observations') (k : EntityKey) :
    expectedAccount p observations k = expectedAccount p observations' k := by
  have login : accountLogin p observations k = accountLogin p observations' k :=
    Agreement.of_perm (h.flatMap_right _)
  have type : accountType p observations k = accountType p observations' k :=
    Agreement.of_perm (h.flatMap_right _)
  simp only [expectedAccount, excludedAccount_perm h, login, type]

theorem expectedGrant_perm (h : observations.Perm observations') (k : GrantKey) :
    expectedGrant p t observations k = expectedGrant p t observations' k := by
  simp only [expectedGrant, excludedSubject_perm h, repositoryName_perm h, claimRole_perm h]

/-- Each group key is always observed with one membership method. -/
def OneMethod (p : String) (observations : List Observation) : Prop :=
  ∀ x ∈ observations.flatMap (joins p), ∀ y ∈ observations.flatMap (joins p),
    x.1.2 = y.1.2 → x.2 = y.2

/-- Lists of one value have the same head. -/
theorem head?_perm {α : Type} {l l' : List α} (h : l.Perm l') (one : ∀ a ∈ l, ∀ b ∈ l, a = b) :
    l.head? = l'.head? := by
  cases l with
  | nil => rw [List.nil_perm.mp h]
  | cons a l =>
    cases l' with
    | nil => exact absurd (List.perm_nil.mp h) (List.cons_ne_nil a l)
    | cons b l' =>
      rw [List.head?_cons, List.head?_cons,
        one a (List.mem_cons_self ..) b (h.symm.subset (List.mem_cons_self ..))]

theorem expectedMembership_perm (h : observations.Perm observations')
    (one : OneMethod p observations) (k : MembershipKey) :
    expectedMembership p t observations k = expectedMembership p t observations' k := by
  have head : (said k (observations.flatMap (joins p))).head? =
      (said k (observations'.flatMap (joins p))).head? := by
    refine head?_perm (said_perm (h.flatMap_right _) k) fun a ha b hb => ?_
    exact one _ (mem_said.mp ha) _ (mem_said.mp hb) rfl
  simp only [expectedMembership, excludedSubject_perm h, teamMetadata_perm h, head]

theorem exhaustive_perm (h : observations.Perm observations') :
    Exhaustive p observations ↔ Exhaustive p observations' := by
  simp only [Exhaustive, h.mem_iff, excludedAccount_perm h, repositoryName_perm h,
    teamMetadata_perm h, claimRole_perm h]

end Order

end Permesh.Github

import Permesh.Laws.IdentityCenter.Confined

/-!
# Laws.IdentityCenter.Complete — what a complete snapshot stands for

Each page loop ends, whatever the services answer. Behind a snapshot that is complete every list has
finished, all rows were within the bound, and each of them has become what it stands for
(`complete_covered`).

Completeness is carried as an obligation: what is not taken yet must still be covered. When nothing is
left, all rows are. An incomplete snapshot is not said to have missed anything.
-/

namespace Permesh.IdentityCenter

open Permesh.Lib (loop)

/-- What a complete snapshot stands for. The bound on rows is shared by all lists but that of the
instances, which belongs to the proof of the scope. -/
structure Complete (p : IdentityCenterProvider) (log : List Step) (s : Snapshot) : Prop where
  lists : ∀ (q : Query) (exchanges : List (Exchange q.Row)), Step.list q exchanges ∈ log →
    Finished exchanges
  rows : total log ≤ MAX_ROWS
  users : Lists log (.users p.config.identityStoreId) ∧
    ∀ row, Listed log (.users p.config.identityStoreId) row → ∃ a ∈ s.accounts, p.user row = .ok a
  groups : Lists log (.groups p.config.identityStoreId) ∧
    ∀ row, Listed log (.groups p.config.identityStoreId) row → ∃ g ∈ s.groups, p.group row = .ok g
  memberships : (∀ g ∈ s.groups, ∃ id, g.key = p.key "group" id ∧
      Lists log (.groupMemberships p.config.identityStoreId id)) ∧
    ∀ id row, Listed log (.groupMemberships p.config.identityStoreId id) row →
      ∃ m ∈ s.memberships, Joins p id row m
  permissionSets : ∀ account ∈ p.config.accounts,
    (∃ x ∈ s.resources, x.key = p.key "aws-account" account) ∧
    Lists log (.permissionSets p.config.instanceArn account) ∧
    ∀ arn, Listed log (.permissionSets p.config.instanceArn account) arn →
      (∃ permission, Step.describe p.config.instanceArn arn (.ok (some permission)) ∈ log) ∧
      Lists log (.accountAssignments p.config.instanceArn account arn)
  assignments : ∀ account arn row,
    Listed log (.accountAssignments p.config.instanceArn account arn) row →
      ∃ g ∈ s.grants, Assigns p account arn row g

variable {p : IdentityCenterProvider} {s : Snapshot}

theorem Gathered.complete {r : Run} (h : Gathered p r) (complete : r.snapshot.complete = true) :
    Complete p r.log r.snapshot := by
  obtain ⟨below, finished, covered⟩ := h.told.fine complete
  have told (q : Query) (row : q.Row) (listed : Listed r.log q row) :
      Covered p r.log r.snapshot q row := by
    rcases covered q row listed with covered | todo
    · exact covered
    · cases todo
  constructor
  · exact fun q exchanges mem => finished _ mem
  · rw [← h.told.rows]
    exact below
  · exact ⟨h.surveyed.users, fun row listed => told _ row listed⟩
  · exact ⟨h.surveyed.groups, fun row listed => told _ row listed⟩
  · exact ⟨h.surveyed.memberships, fun id row listed => told _ row listed⟩
  · intro account allowed
    obtain ⟨listed, shown⟩ := h.surveyed.accounts account allowed
    exact ⟨shown, listed, fun arn there => told _ arn there⟩
  · exact fun account arn row listed => told _ row listed

theorem Complete.sort {log : List Step} (h : Complete p log s) (core : Core) :
    Complete p log (core.sort s) where
  lists := h.lists
  rows := h.rows
  users := by simpa using h.users
  groups := by simpa using h.groups
  memberships := by simpa using h.memberships
  permissionSets := by simpa using h.permissionSets
  assignments := by simpa using h.assignments

/-- **Completeness**, whatever the services answer. -/
theorem complete_covered (p : IdentityCenterProvider) (services : Services) (core : Core)
    (observedAt : String) :
    (∀ q r, (loop (turn services) MAX_PAGES (Turn.start q r)).isSome = true) ∧
      (∀ requests, (loop (p.search services) MAX_PAGES (Search.start requests)).isSome = true) ∧
      ∀ s, (p.collect services core observedAt).1 = .ok s → s.complete = true →
        Complete p (p.collect services core observedAt).2 s := by
  refine ⟨fetch_ends services, p.search_ends services, fun s ok complete => ?_⟩
  have gathered := gathered_of_ok ok
  obtain ⟨-, rfl⟩ := IdentityCenterProvider.collect_ok ok
  rw [p.collect_log]
  exact (gathered.complete complete).sort core

theorem sample_covered :
    ∃ s, sampleOutcome.1 = .ok s ∧ s.complete = true ∧ Complete sample sampleOutcome.2 s := by
  obtain ⟨s, ok, complete, -⟩ := sampleOutcome_ok
  exact ⟨s, ok, complete,
    (complete_covered sample sampleServices Core.plain _).2.2 s ok complete⟩

end Permesh.IdentityCenter

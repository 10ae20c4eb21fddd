import Permesh.Laws.Cloudflare.Closed
import Permesh.Laws.Cloudflare.Policies
import Permesh.Lib.Related

/-!
# Laws.Cloudflare.Order — the order of the rows

Two runs of one provider whose lists bring the same rows, each list in an order of its own. The runs
are followed side by side: the maps of unique rows are the same, so members, zones and groups are
gone through in the same order, and only the order of the warnings and the time of observation can
differ (`collect_order`).

The snapshots are then validated by code that is not here. A run carries the one time that it was
given (`observed_of_gather`), so what is asked of validation is no more than that it treats such
snapshots alike when both times are valid ones (`Timeless`). Nothing is said of a run whose time
validation rejects.
-/

namespace Permesh.Cloudflare

open Permesh.Json Permesh.Http Permesh.Lib

/-! ## Two runs -/

/-- The provider in front of another server. -/
def Client.facing (client : Client) (server : Nat → Exchange) : Client :=
  { client with net := { client.net with server := server } }

/-- The same rows in any order, and the same failure. -/
structure Listing.Reordered (l l' : Listing) : Prop where
  rows : l.rows.Perm l'.rows
  failure : l.failure = l'.failure

section

variable (client : Client) (observedAt : String)

/-- The resource of the account, which a run asks for first. -/
def Client.first : Except ProviderError Resource := do
  client.account (← (client.request s!"accounts/{client.accountId}" [] ⟨0, 0⟩).1)

/-- The state behind the members. -/
def Client.enrolled (account : Resource) : Except ProviderError State :=
  (client.opened account).1.toList.foldlM (client.enroll (client.zoned account).1 observedAt)
    ⟨(client.grouped account).2, client.groupList.2, ∅, ∅, [], [], []⟩

/-- The members of a group, listed with this budget. -/
def Client.membersOf (key : String) (budget : Budget) : Listing × Budget :=
  client.listing s!"accounts/{client.accountId}/iam/user_groups/{key}/members" [] budget

/-- The run lists the members of a group with this budget. -/
inductive Client.Asks : String → Budget → Prop
  | visit {account : Resource} {s₁ s t : State} {before after : List (String × Value)}
      {key name : String} {value : Value} (first : client.first = .ok account)
      (enrolled : client.enrolled observedAt account = .ok s₁)
      (entry : (client.grouped account).1.toList = before ++ (key, value) :: after)
      (reached : before.foldlM (client.group (client.zoned account).1 observedAt) s₁ = .ok s)
      (named : string value "name" = .ok name)
      (assigned : Client.assign s
        (client.groupPolicies (client.zoned account).1 observedAt key value) = .ok t) :
      Client.Asks key s.budget

end

/-- Two runs that differ only in the order in which rows arrive within each list. -/
structure SameRows (client client' : Client) (observedAt observedAt' : String) : Prop where
  account : client.first = client'.first
  members : ∀ account, client.first = .ok account →
    client.memberList.1.Reordered client'.memberList.1
  zones : ∀ account, client.first = .ok account → client.zoneList.1.Reordered client'.zoneList.1
  groups : ∀ account, client.first = .ok account → client.groupList.1.Reordered client'.groupList.1
  groupMembers : ∀ key budget budget', client.Asks observedAt key budget →
    client'.Asks observedAt' key budget' →
    (client.membersOf key budget).1.Reordered (client'.membersOf key budget').1

/-! ## What is compared -/

/-- The membership as observed at another time. -/
def membershipAt (observedAt : String) (m : Membership) : Membership :=
  { m with provenance := { m.provenance with observedAt := observedAt } }

/-- The grant as observed at another time. -/
def grantAt (observedAt : String) (g : Grant) : Grant :=
  { g with provenance := { g.provenance with observedAt := observedAt } }

/-- Snapshots with the same content: the second has the times of another run, and its limitations
may come in another order. -/
structure SameAccess (observedAt : String) (s s' : Snapshot) : Prop where
  provider : s.provider = s'.provider
  identities : s.identities = s'.identities
  accounts : s.accounts = s'.accounts
  resources : s.resources = s'.resources
  groups : s.groups = s'.groups
  memberships : (s.memberships.map (membershipAt observedAt)).Perm s'.memberships
  grants : (s.grants.map (grantAt observedAt)).Perm s'.grants
  complete : s.complete = s'.complete
  limitations : s.limitations.Perm s'.limitations

/-- Rows with this identifier that differ. -/
def Conflicting (rows : List Value) (k : String) : Prop :=
  ∃ row ∈ rows, ∃ row' ∈ rows, id row = .ok k ∧ id row' = .ok k ∧ row ≠ row'

/-- Nothing of the snapshot comes from rows that differ. -/
structure NoConflict (client : Client) (g : Client.Gathered) (s : Snapshot) : Prop where
  members : ∀ k, Conflicting g.memberRows k → ∀ a ∈ s.accounts, a.key ≠ client.memberKey k
  zones : ∀ k, Conflicting client.zoneList.1.rows k → ∀ r ∈ s.resources, r.key ≠ zoneKey client k
  groups : ∀ k, Conflicting g.groupRows k → ∀ x ∈ s.groups, x.key ≠ client.groupKey k
  groupMembers : ∀ visit ∈ g.state.visits, ∀ k, Conflicting visit.rows k →
    ∀ x ∈ s.memberships, x.group = client.groupKey visit.key →
      x.member ≠ .account (client.memberKey k)

/-! ## Warnings -/

/-- The same snapshot, with the limitations in any order. -/
structure Like (s s' : Snapshot) : Prop where
  rest : s' = { s with limitations := s'.limitations }
  limitations : s.limitations.Perm s'.limitations

theorem Like.refl (s : Snapshot) : Like s s := ⟨rfl, .refl _⟩

theorem Like.symm {s s' : Snapshot} (h : Like s s') : Like s' s := by
  refine ⟨?_, h.limitations.symm⟩
  rw [h.rest]

theorem Like.trans {s t u : Snapshot} (h : Like s t) (h' : Like t u) : Like s u := by
  refine ⟨?_, h.limitations.trans h'.limitations⟩
  rw [h'.rest, h.rest]

theorem Like.warning {s s' : Snapshot} (h : Like s s') (code : String) :
    Like (warning s code) (warning s' code) := by
  refine ⟨?_, h.limitations.append_right _⟩
  unfold Cloudflare.warning
  rw [h.rest]

theorem Like.warnFailure {s s' : Snapshot} (h : Like s s') (failure : Option String) :
    Like (warnFailure s failure) (warnFailure s' failure) := by
  cases failure with
  | none => exact h
  | some code => exact h.warning code

/-! ## Unique rows -/

/-- A snapshot with a warning for each row without an identifier and for each conflict. -/
def warned (s : Snapshot) (malformed conflicting : Nat) : Snapshot :=
  { s with
    complete := s.complete && malformed + conflicting == 0
    limitations := s.limitations ++
      List.replicate malformed "Cloudflare partial collection: malformed." ++
      List.replicate conflicting "Cloudflare partial collection: conflicting_records." }

theorem Like.malformed {s t : Snapshot} {m c : Nat} (h : Like (warned s m c) t) :
    Like (warned s (m + 1) c) (Cloudflare.warning t "malformed") := by
  refine Like.trans ⟨?_, ?_⟩ (h.warning "malformed")
  · simp [warned, Cloudflare.warning]
  · simp only [warned, Cloudflare.warning, List.append_assoc, List.replicate_succ]
    apply List.Perm.append_left _
    exact (List.perm_append_singleton _ _).symm.trans (List.Perm.of_eq (List.append_assoc ..))

theorem Like.conflicting {s t : Snapshot} {m c : Nat} (h : Like (warned s m c) t) :
    Like (warned s m (c + 1)) (Cloudflare.warning t "conflicting_records") := by
  refine Like.trans ⟨?_, ?_⟩ (h.warning "conflicting_records")
  · simp [warned, Cloudflare.warning]
  · simp only [warned, Cloudflare.warning, List.append_assoc, List.replicate_succ']
    exact .refl _

/-- `unique` warns of each row without an identifier and of each conflict. -/
theorem unique_warned (rows : List Value) (s : Snapshot) :
    Like (warned s (rows.filter fun row => (idOf row).isNone).length (Rows.of idOf rows).blocked.size)
      (unique rows s).2 := by
  have holds : Like (warned s (rows.filter fun row => (idOf row).isNone).length
      (rows.foldl Unique.take ⟨∅, ∅, s⟩).conflicts.size)
      (rows.foldl Unique.take ⟨∅, ∅, s⟩).snapshot := by
    refine foldl_rule (fun before (u : Unique) =>
      Like (warned s (before.filter fun row => (idOf row).isNone).length u.conflicts.size)
        u.snapshot) ⟨?_, ?_⟩ (fun before row u h => ?_) rows
    · simp [warned]
    · simp [warned]
    · rw [List.filter_append, List.length_append]
      unfold Unique.take
      cases found : id row with
      | error e =>
        have none : idOf row = none := by simp [idOf, found, Except.toOption]
        simpa [none] using h.malformed
      | ok key =>
        have some : idOf row = some key := idOf_iff.mpr found
        simp only [some, Option.isNone_some, Bool.false_eq_true,
          not_false_eq_true, List.filter_cons_of_neg, List.filter_nil, List.length_nil, Nat.add_zero]
        split
        · exact h
        case isFalse new =>
          split
          · rw [Std.ExtTreeSet.size_insert, if_neg (by simpa using new)]
            exact h.conflicting
          · exact h
  rw [← Unique.rows_foldl rows s]
  exact holds

/-- **The order of the rows does not matter for `unique`.** -/
theorem unique_order {rows rows' : List Value} {s s' : Snapshot} (perm : rows.Perm rows')
    (like : Like s s') :
    (unique rows s).1 = (unique rows' s').1 ∧ Like (unique rows s).2 (unique rows' s').2 := by
  have maps (rows : List Value) (s : Snapshot) : (unique rows s).1 = (Rows.of idOf rows).map :=
    congrArg Rows.map (Unique.rows_foldl rows s)
  refine ⟨?_, (unique_warned rows s).symm.trans (Like.trans ?_ (unique_warned rows' s'))⟩
  · rw [maps, maps, Rows.of_perm idOf perm]
  · rw [(perm.filter _).length_eq, Rows.of_perm idOf perm]
    refine ⟨?_, (like.limitations.append_right _).append_right _⟩
    rw [like.rest]
    rfl

/-! ## Members, zones and groups -/

section

variable {client : Client} {server : Nat → Exchange} {observedAt observedAt' : String}

theorem opened_order {account : Resource}
    (members : client.memberList.1.Reordered (client.facing server).memberList.1) :
    (client.opened account).1 = ((client.facing server).opened account).1 ∧
      Like (client.opened account).2 ((client.facing server).opened account).2 := by
  apply unique_order members.rows
  rw [← members.failure]
  exact (Like.refl _).warnFailure _

theorem zone_order {found found' : Std.ExtTreeSet String × Snapshot} (zones : found.1 = found'.1)
    (like : Like found.2 found'.2) (entry : String × Value) :
    (client.zone found entry).1 = (client.zone found' entry).1 ∧
      Like (client.zone found entry).2 (client.zone found' entry).2 := by
  obtain ⟨z, s⟩ := found
  obtain ⟨z', s'⟩ := found'
  cases zones
  unfold Client.zone
  dsimp only
  split
  · exact ⟨rfl, like.warning _⟩
  · split
    · exact ⟨rfl, like.warning _⟩
    · refine ⟨rfl, ?_, like.limitations⟩
      have rest := like.rest
      dsimp only at rest
      rw [rest]

theorem zoned_order (account : Resource)
    (members : client.memberList.1.Reordered (client.facing server).memberList.1)
    (zones : client.zoneList.1.Reordered (client.facing server).zoneList.1) :
    (client.zoned account).1 = ((client.facing server).zoned account).1 ∧
      Like (client.zoned account).2 ((client.facing server).zoned account).2 := by
  have start : Like
      (warnFailure (client.opened account).2 client.zoneList.1.failure)
      (warnFailure ((client.facing server).opened account).2
        (client.facing server).zoneList.1.failure) := by
    rw [← zones.failure]
    exact (opened_order members).2.warnFailure _
  obtain ⟨same, like⟩ := unique_order zones.rows start
  unfold Client.zoned
  dsimp only
  rw [← same]
  generalize (unique client.zoneList.1.rows _).1.toList = entries
  refine List.foldl_rel (f := client.zone) (g := client.zone) (l := entries)
    (r := fun found found' => found.1 = found'.1 ∧ Like found.2 found'.2) ?_ ?_
  · exact ⟨rfl, like⟩
  · exact fun entry _ _ _ h => zone_order h.1 h.2 entry

theorem grouped_order (account : Resource)
    (members : client.memberList.1.Reordered (client.facing server).memberList.1)
    (zones : client.zoneList.1.Reordered (client.facing server).zoneList.1)
    (groups : client.groupList.1.Reordered (client.facing server).groupList.1) :
    (client.grouped account).1 = ((client.facing server).grouped account).1 ∧
      Like (client.grouped account).2 ((client.facing server).grouped account).2 := by
  apply unique_order groups.rows
  rw [← groups.failure]
  exact (zoned_order account members zones).2.warnFailure _

/-! ## States -/

/-- The record as observed at another time. -/
def recordAt (observedAt : String) (x : Grant × Resource) : Grant × Resource :=
  (grantAt observedAt x.1, x.2)

/-- States of the two runs. -/
structure State.Like (observedAt : String) (s s' : State) : Prop where
  snapshot : Cloudflare.Like s.snapshot s'.snapshot
  blocked : s.blocked = s'.blocked
  active : s.active = s'.active
  grants : s'.grants = s.grants.map (recordAt observedAt)
  memberships : s'.memberships = s.memberships.map (Prod.map (fun m => m) (membershipAt observedAt))

/-- Policies that are read at another time. -/
theorem policies_at (client : Client) (value : Value) (subject : Subject)
    (zones : Std.ExtTreeSet String) (method observedAt observedAt' : String) :
    Both (fun records records' => records' = records.map (recordAt observedAt'))
      (client.policies value subject zones ⟨method, observedAt⟩)
      (client.policies value subject zones ⟨method, observedAt'⟩) := by
  cases result : client.policies value subject zones ⟨method, observedAt⟩ with
  | ok records =>
    obtain ⟨items, ps, found, allowed, rfl⟩ := policies_iff.mp result
    rw [policies_iff.mpr ⟨items, ps, found, allowed, rfl⟩]
    refine .ok ?_
    rw [List.map_map]
    rfl
  | error failure =>
    cases result' : client.policies value subject zones ⟨method, observedAt'⟩ with
    | error failure' => exact .error failure failure'
    | ok records' =>
      obtain ⟨items, ps, found, allowed, -⟩ := policies_iff.mp result'
      have ok : client.policies value subject zones ⟨method, observedAt⟩ = .ok _ :=
        policies_iff.mpr ⟨items, ps, found, allowed, rfl⟩
      rw [result] at ok
      cases ok

theorem enroll_order {zones : Std.ExtTreeSet String} {s s' : State}
    (like : s.Like observedAt' s') (entry : String × Value) :
    Both (State.Like observedAt') (client.enroll zones observedAt s entry)
      (client.enroll zones observedAt' s' entry) := by
  unfold Client.enroll
  split
  · exact .ok { like with snapshot := like.snapshot.warning _ }
  · exact .ok like
  case h_3 login _ =>
    dsimp only
    have account (account : Account) : Cloudflare.Like
        { s.snapshot with accounts := s.snapshot.accounts ++ [account] }
        { s'.snapshot with accounts := s'.snapshot.accounts ++ [account] } := by
      refine ⟨?_, like.snapshot.limitations⟩
      rw [like.snapshot.rest]
    have policies := policies_at client entry.2 (.account (client.memberKey entry.1)) zones
      "cloudflare.members.policy_assignment" observedAt observedAt'
    unfold Client.memberPolicies
    generalize client.policies entry.2 _ zones ⟨_, observedAt⟩ = granted at policies ⊢
    generalize client.policies entry.2 _ zones ⟨_, observedAt'⟩ = granted' at policies ⊢
    cases policies with
    | error _ _ =>
      refine .ok ⟨(account _).warning _, ?_, ?_, like.grants, like.memberships⟩
      · rw [like.blocked]
      · rw [like.active]
    | @ok records _ same =>
      cases same
      dsimp only
      rw [like.grants, List.length_map, List.length_map]
      split
      · exact .error _ _
      · refine .ok ⟨account _, like.blocked, ?_, ?_, like.memberships⟩
        · rw [like.active]
        · rw [List.map_append]

/-! ## The members of groups -/

theorem join_order {group : EntityKey} {rejected : Bool} {s s' : State}
    (like : s.Like observedAt' s') (entry : String × Value) :
    (client.join observedAt group rejected s entry).Like observedAt'
      (client.join observedAt' group rejected s' entry) := by
  unfold Client.join
  dsimp only
  rw [← like.active]
  split
  · exact like
  · split
    · exact ⟨like.snapshot.warning _, like.blocked, rfl, like.grants, like.memberships⟩
    · split
      · refine ⟨like.snapshot, ?_, rfl, like.grants, like.memberships⟩
        rw [like.blocked]
      · refine ⟨like.snapshot, like.blocked, rfl, like.grants, ?_⟩
        rw [like.memberships, List.map_append]
        rfl

theorem visit_eq (client : Client) (observedAt key : String) (value : Value) (rejected : Bool)
    (s : State) : client.visit observedAt key value rejected s =
      let listed := client.membersOf key s.budget
      let found := unique listed.1.rows (warnFailure s.snapshot listed.1.failure)
      found.1.toList.foldl (client.join observedAt (client.groupKey key) rejected)
        { s with
          budget := listed.2
          snapshot := found.2
          visits := s.visits ++ [⟨key, value, listed.1.rows⟩] } := rfl

theorem visit_order {key : String} {value : Value} {rejected : Bool} {s s' : State}
    (like : s.Like observedAt' s')
    (listed : (client.membersOf key s.budget).1.Reordered
      ((client.facing server).membersOf key s'.budget).1) :
    (client.visit observedAt key value rejected s).Like observedAt'
      ((client.facing server).visit observedAt' key value rejected s') := by
  rw [visit_eq, visit_eq]
  generalize client.membersOf key s.budget = answer at listed
  generalize (client.facing server).membersOf key s'.budget = answer' at listed
  obtain ⟨same, snapshot⟩ :=
    unique_order listed.rows (like.snapshot.warnFailure answer.1.failure)
  dsimp only
  rw [← listed.failure, ← same]
  refine List.foldl_rel (r := State.Like observedAt') ?_ fun entry _ _ _ like => join_order like entry
  exact ⟨snapshot, like.blocked, like.active, like.grants, like.memberships⟩

theorem assign_order {s s' : State} (like : s.Like observedAt' s')
    {granted granted' : Except ProviderError (List (Grant × Resource))}
    (same : Both (fun records records' => records' = records.map (recordAt observedAt')) granted
      granted') :
    Both (fun t t' => t.Like observedAt' t' ∧ t.budget = s.budget ∧ t'.budget = s'.budget)
      (Client.assign s granted) (Client.assign s' granted') := by
  unfold Client.assign
  cases same with
  | error _ _ =>
    exact .ok ⟨{ like with snapshot := like.snapshot.warning _ }, rfl, rfl⟩
  | @ok records _ same =>
    cases same
    dsimp only
    rw [like.grants, List.length_map, List.length_map]
    split
    · exact .error _ _
    · refine .ok ⟨⟨like.snapshot, like.blocked, like.active, ?_, like.memberships⟩, rfl, rfl⟩
      rw [List.map_append]

/-- Whether grants are taken over does not depend on the snapshot. -/
theorem assign_snapshot {s t : State} {granted : Except ProviderError (List (Grant × Resource))}
    (ok : Client.assign s granted = .ok t) (snapshot : Snapshot) :
    ∃ t', Client.assign { s with snapshot := snapshot } granted = .ok t' := by
  unfold Client.assign at ok ⊢
  split at ok
  · exact ⟨_, rfl⟩
  · split at ok
    · cases ok
    case isFalse fits =>
      dsimp only
      rw [if_neg fits]
      exact ⟨_, rfl⟩

theorem group_named {client : Client} {zones : Std.ExtTreeSet String} {s : State}
    {entry : String × Value} {name : String} (named : string entry.2 "name" = .ok name) :
    client.group zones observedAt s entry =
      Client.assign { s with
        snapshot := { s.snapshot with
          groups := s.snapshot.groups ++ [⟨client.groupKey entry.1, name⟩] } }
        (client.groupPolicies zones observedAt entry.1 entry.2) >>= fun s =>
      let s := client.visit observedAt entry.1 entry.2
        (client.groupPolicies zones observedAt entry.1 entry.2).toOption.isNone s
      if s.grants.length + s.memberships.length > MAX_ROWS then .error (error "limit") else .ok s := by
  unfold Client.group
  rw [named]
  dsimp only
  cases Client.assign _ (client.groupPolicies zones observedAt entry.1 entry.2) <;> rfl

theorem group_order {zones : Std.ExtTreeSet String} {s s' : State} (like : s.Like observedAt' s')
    (entry : String × Value)
    (listed : ∀ name t t', string entry.2 "name" = .ok name →
      Client.assign s (client.groupPolicies zones observedAt entry.1 entry.2) = .ok t →
      Client.assign s' (client.groupPolicies zones observedAt' entry.1 entry.2) = .ok t' →
      (client.membersOf entry.1 s.budget).1.Reordered
        ((client.facing server).membersOf entry.1 s'.budget).1) :
    Both (State.Like observedAt') (client.group zones observedAt s entry)
      ((client.facing server).group zones observedAt' s' entry) := by
  cases named : string entry.2 "name" with
  | error e =>
    unfold Client.group
    rw [named]
    exact .ok { like with snapshot := like.snapshot.warning _ }
  | ok name =>
    have policies : Both (fun records records' => records' = records.map (recordAt observedAt'))
        (client.groupPolicies zones observedAt entry.1 entry.2)
        ((client.facing server).groupPolicies zones observedAt' entry.1 entry.2) :=
      policies_at client entry.2 (.group (client.groupKey entry.1)) zones
        "cloudflare.iam.user_groups.policy_assignment" observedAt observedAt'
    rw [group_named named, group_named named, ← policies.fails]
    have shown : (State.Like observedAt')
        { s with
          snapshot := { s.snapshot with
            groups := s.snapshot.groups ++ [⟨client.groupKey entry.1, name⟩] } }
        { s' with
          snapshot := { s'.snapshot with
            groups := s'.snapshot.groups ++ [⟨client.groupKey entry.1, name⟩] } } := by
      refine { like with snapshot := ⟨?_, like.snapshot.limitations⟩ }
      rw [like.snapshot.rest]
    refine (assign_order shown policies).bind fun t t' assigned assigned' ⟨like, budget, budget'⟩ => ?_
    obtain ⟨t₁, assigned⟩ := assign_snapshot assigned s.snapshot
    obtain ⟨t₂, assigned'⟩ := assign_snapshot assigned' s'.snapshot
    generalize (client.groupPolicies zones observedAt entry.1 entry.2).toOption.isNone = rejected
    have visited : (client.visit observedAt entry.1 entry.2 rejected t).Like observedAt'
        ((client.facing server).visit observedAt' entry.1 entry.2 rejected t') := by
      apply visit_order like
      rw [budget, budget']
      exact listed name t₁ t₂ named assigned assigned'
    dsimp only
    rw [visited.grants, visited.memberships, List.length_map, List.length_map]
    split
    · exact .error _ _
    · exact .ok visited

/-! ## The runs -/

theorem enrolled_order {account : Resource}
    (members : client.memberList.1.Reordered (client.facing server).memberList.1)
    (zones : client.zoneList.1.Reordered (client.facing server).zoneList.1)
    (groups : client.groupList.1.Reordered (client.facing server).groupList.1) :
    Both (State.Like observedAt') (client.enrolled observedAt account)
      ((client.facing server).enrolled observedAt' account) := by
  unfold Client.enrolled
  rw [← (opened_order members).1, ← (zoned_order _ members zones).1]
  refine Both.foldlM (fun _ entry _ s s' _ _ _ like => enroll_order like entry) ?_
  exact ⟨(grouped_order _ members zones groups).2, rfl, rfl, rfl, rfl⟩

/-- **Both runs fail, or their states are alike.** -/
theorem gather_order (same : SameRows client (client.facing server) observedAt observedAt') :
    Both (fun g g' => g.state.Like observedAt' g'.state) (client.gather observedAt)
      ((client.facing server).gather observedAt') := by
  have eq (client : Client) (observedAt : String) : client.gather observedAt = (do
      let account ← client.first
      let state ← client.enrolled observedAt account
      let state ← (client.grouped account).1.toList.foldlM
        (client.group (client.zoned account).1 observedAt) state
      return ⟨client.memberList.1.rows, client.groupList.1.rows, (client.zoned account).1, state⟩) := by
    rw [gather_eq, Client.first, bind_assoc]
    rfl
  rw [eq, eq, ← same.account]
  cases first : client.first with
  | error e => exact .error e e
  | ok account =>
    have members := same.members account first
    have zones := same.zones account first
    have groups := same.groups account first
    have sameGroups := (grouped_order account members zones groups).1
    have sameZones := (zoned_order account members zones).1
    refine (enrolled_order members zones groups).bind fun s s' enrolled enrolled' like => ?_
    rw [← sameGroups, ← sameZones]
    refine (Both.foldlM ?_ like).bind fun t t' _ _ like => .ok like
    rintro before ⟨key, value⟩ after t t' entry reached reached' like
    apply group_order like (key, value)
    intro name u u' named assigned assigned'
    have entry' := entry
    rw [sameGroups] at entry'
    rw [sameZones] at reached' assigned'
    exact same.groupMembers key _ _ (.visit first enrolled entry reached named assigned)
      (.visit (same.account ▸ first) enrolled' entry' reached' named assigned')

/-! ## The snapshots -/

/-- The output as of another time. -/
def outputAt (observedAt : String) (o : Client.Output) : Client.Output :=
  { o with grants := o.grants.map (grantAt observedAt) }

theorem emit_at (blocked : EntityKey → Bool) (observedAt : String) (o : Client.Output)
    (x : Grant × Resource) :
    Client.emit blocked (outputAt observedAt o) (recordAt observedAt x) =
      outputAt observedAt (Client.emit blocked o x) := by
  obtain ⟨grant, resource⟩ := x
  unfold Client.emit
  by_cases left : Client.leftOut blocked grant.subject = true
  · simp [recordAt, grantAt, outputAt, left]
  · by_cases old : grant.id ∈ o.seen
    · simp [recordAt, grantAt, outputAt, left, old]
      rfl
    · simp [recordAt, grantAt, outputAt, left, old]
      rfl

variable (client server) in
theorem graph_order {s s' : State} (like : s.Like observedAt' s') :
    SameAccess observedAt' (client.graph s) ((client.facing server).graph s') := by
  obtain ⟨⟨rest, limitations⟩, blocked, active, grants, memberships⟩ := like
  have output (resources : Std.ExtTreeMap EntityKey Resource) (hidden : EntityKey → Bool) :
      s'.grants.foldl (Client.emit hidden) ⟨∅, [], resources⟩ =
        outputAt observedAt' (s.grants.foldl (Client.emit hidden) ⟨∅, [], resources⟩) := by
    rw [grants, List.foldl_map]
    exact @List.foldl_hom _ _ _ (outputAt observedAt') (Client.emit hidden)
      (fun o x => Client.emit hidden o (recordAt observedAt' x)) s.grants ⟨∅, [], resources⟩
      fun o x => emit_at hidden observedAt' o x
  have graph' : (client.facing server).graph s' = client.graph s' := rfl
  rw [graph']
  unfold Client.graph
  dsimp only
  rw [← blocked, output, rest]
  refine ⟨rfl, rfl, rfl, rfl, rfl, List.Perm.of_eq ?_, .refl _, rfl, limitations⟩
  rw [memberships, List.filter_map, List.map_map, List.map_map]
  rfl

theorem SameAccess.sort {s s' : Snapshot} (h : SameAccess observedAt' s s') (core : Core) :
    SameAccess observedAt' (core.sort s) (core.sort s') := by
  constructor
  · exact h.provider
  · exact congrArg core.sortIdentities h.identities
  · exact congrArg core.sortAccounts h.accounts
  · exact congrArg core.sortResources h.resources
  · exact congrArg core.sortGroups h.groups
  · exact ((core.memberships_perm _).map _).trans
      (h.memberships.trans (core.memberships_perm _).symm)
  · exact ((core.grants_perm _).map _).trans (h.grants.trans (core.grants_perm _).symm)
  · exact h.complete
  · exact h.limitations

/-! ## Rows that differ -/

theorem Conflicting.not_agree {rows : List Value} {k : String} (h : Conflicting rows k) (v : Value) :
    ¬Agree rows k v := by
  obtain ⟨row, mem, row', mem', hid, hid', ne⟩ := h
  exact fun agree => ne ((agree.2 row mem hid).trans (agree.2 row' mem' hid').symm)

end

section

variable {client : Client} {observedAt : String}

/-- A group is visited once at most, under its identifier. -/
theorem group_visits {zones : Std.ExtTreeSet String} {s s' : State} {entry : String × Value}
    (ok : client.group zones observedAt s entry = .ok s') :
    s'.visits = s.visits ∨ ∃ rows, s'.visits = s.visits ++ [⟨entry.1, entry.2, rows⟩] := by
  cases named : string entry.2 "name" with
  | error e =>
    unfold Client.group at ok
    rw [named] at ok
    cases ok
    exact .inl rfl
  | ok name =>
    rw [group_named named] at ok
    obtain ⟨t, assigned, ok⟩ := bind_ok ok
    obtain ⟨-, -, -, visits, -⟩ := assign_ok assigned
    dsimp only at visits
    dsimp only at ok
    split at ok
    · cases ok
    · cases ok
      refine .inr ⟨visitRows client entry.1 t, ?_⟩
      rw [(visit_joined client observedAt entry.1 entry.2 _ t).2.2.1, visits]

theorem visits_once {account : Resource} {zones : Std.ExtTreeSet String} {s s' : State}
    (start : s.visits = [])
    (ok : (client.grouped account).1.toList.foldlM (client.group zones observedAt) s = .ok s') :
    (s'.visits.map Visit.key).Nodup := by
  have sublist := foldlM_rule
    (fun before (s : State) => (s.visits.map Visit.key).Sublist (before.map Prod.fst))
    (by rw [start]; exact .refl _) (fun before entry t t' h ok => by
      rw [List.map_append, List.map_singleton]
      rcases group_visits ok with visits | ⟨rows, visits⟩
      · rw [visits]
        exact h.trans (List.sublist_append_left ..)
      · rw [visits, List.map_append, List.map_singleton]
        exact h.append (.refl _)) ok
  rw [Std.ExtTreeMap.map_fst_toList_eq_keys] at sublist
  exact Std.ExtTreeMap.nodup_keys.sublist sublist

theorem zoneKey_injective (client : Client) : Function.Injective (zoneKey client) := by
  intro z z' h
  have chars := congrArg (fun k : EntityKey => k.id.toList) h
  change ("zone:" ++ z).toList = ("zone:" ++ z').toList at chars
  rw [String.toList_append, String.toList_append, List.append_cancel_left_eq] at chars
  exact String.toList_injective chars

/-- The identifier of a zone begins like no other. -/
theorem zoneKey_ne (client : Client) (z : String) :
    zoneKey client z ≠ accountKey client ∧ zoneKey client z ≠ scopeKey client := by
  have zone : (zoneKey client z).id.toList.head? = some 'z' := by
    change ("zone:" ++ z).toList.head? = _
    rw [String.toList_append]
    rfl
  constructor
  · intro same
    rw [same] at zone
    change ("account:" ++ client.accountId).toList.head? = _ at zone
    rw [String.toList_append] at zone
    cases zone
  · intro same
    rw [same] at zone
    change ("policy-scope:account:" ++ client.accountId ++ ":all").toList.head? = _ at zone
    rw [String.append_assoc, String.toList_append] at zone
    cases zone

/-- **Rows that differ contribute nothing.** -/
theorem noConflict_of_gather {g : Client.Gathered} (core : Core)
    (ok : client.gather observedAt = .ok g) : NoConflict client g (core.sort (client.graph g.state)) := by
  have closed := closed_of_gather client core observedAt ok
  obtain ⟨response, account, s₁, found, first, second, eq⟩ := gather_parts ok
  have groups := groups_of_members first second
  have once := visits_once (enrolled_of_members first).visits second
  have groupRows : g.groupRows = client.groupList.1.rows := by rw [eq]
  constructor
  · intro k conflict a mem same
    obtain ⟨m, key, v, agree, -⟩ := closed.accepted a mem
    cases memberKey_injective client (same.symm.trans key)
    exact conflict.not_agree v agree
  · intro k conflict r mem same
    rcases closed.inside r mem with key | key | ⟨zone, v, key, agree, -⟩
    · exact (zoneKey_ne client k).1 (same.symm.trans key)
    · exact (zoneKey_ne client k).2 (same.symm.trans key)
    · cases zoneKey_injective client (same.symm.trans key)
      exact conflict.not_agree v agree
  · intro k conflict x mem same
    have mem : x ∈ g.state.snapshot.groups := (core.groups_perm _).mem_iff.mp mem
    obtain ⟨entry, listed, key⟩ := List.mem_map.mp (groups.sublist.subset (List.mem_map_of_mem mem))
    cases groupKey_injective client (key.trans same)
    apply conflict.not_agree entry.2
    rw [groupRows]
    exact (mem_unique ..).mp listed
  · intro visit visited k conflict x mem group member
    obtain ⟨m, visit', visited', rfl, -, v, agree, -⟩ := closed.joined x mem
    cases memberKey_injective client (Subject.account.inj member)
    have sameKey : visit'.key = visit.key := groupKey_injective client group
    have same : visit' = visit := List.inj_on_of_nodup_map once visited' visited sameKey
    rw [same] at agree
    exact conflict.not_agree v agree

theorem noConflict_of_collect {core : Core} {rejection : ProviderError} {s : Snapshot}
    (ok : client.collect core rejection observedAt = .ok s) :
    ∃ g, client.gather observedAt = .ok g ∧ NoConflict client g s := by
  unfold Client.collect Client.finish at ok
  split at ok
  · cases ok
  case h_2 g gathered =>
    dsimp only at ok
    split at ok
    · cases ok
    · cases ok
      exact ⟨g, gathered, noConflict_of_gather core gathered⟩

end

/-! ## The time of a run -/

/-- Everything with a provenance carries this time. -/
structure ObservedAt (observedAt : String) (s : Snapshot) : Prop where
  memberships : ∀ m ∈ s.memberships, m.provenance.observedAt = observedAt
  grants : ∀ g ∈ s.grants, g.provenance.observedAt = observedAt

theorem Source.observed {client : Client} {observedAt : String} {g : Client.Gathered}
    {subject : Subject} {value : Value} {provenance : Provenance}
    (source : Source client observedAt g subject value provenance) :
    provenance.observedAt = observedAt := by
  cases source <;> rfl

/-- **A run observes at one time**: the memberships and the grants that it validates carry the time
that it was given. -/
theorem observed_of_gather {client : Client} {observedAt : String} {g : Client.Gathered}
    (core : Core) (ok : client.gather observedAt = .ok g) :
    ObservedAt observedAt (core.sort (client.graph g.state)) where
  memberships m mem := by
    obtain ⟨key, visit, -, rfl, -⟩ := (closed_of_gather client core observedAt ok).joined m mem
    rfl
  grants x mem := by
    obtain ⟨r, there, -⟩ := (produced_graph client g.state).taken x (Core.mem_sort_grants.mp mem)
    obtain ⟨subject, value, provenance, grants, source, granted, mem⟩ :=
      (read_of_gather ok).source there
    obtain ⟨items, ps, -, -, rfl⟩ := policies_iff.mp granted
    obtain ⟨occurrence, -, eq⟩ := List.mem_map.mp mem
    obtain rfl : _ = x := congrArg Prod.fst eq
    exact source.observed

/-- Validation, which is code of `permesh_provider_sdk`, treats two snapshots alike that differ in
their valid times and in the order of limitations, memberships or grants. -/
def Timeless (core : Core) (valid : String → Prop) : Prop :=
  ∀ time time' s s', valid time → valid time' → ObservedAt time s → ObservedAt time' s' →
    SameAccess time' s s' → core.validateSnapshot s = core.validateSnapshot s'

/-- **The order of the rows does not matter.** Two runs whose lists bring the same rows, each list in
any order, both fail or both return the same access, and no identifier whose rows differ contributes
to either. `valid` are the times that validation takes for such; both runs are given one. -/
theorem collect_order (client : Client) (server : Nat → Exchange) (core : Core)
    (rejection : ProviderError) (observedAt observedAt' : String) (valid : String → Prop)
    (timeless : Timeless core valid) (timely : valid observedAt) (timely' : valid observedAt')
    (same : SameRows client (client.facing server) observedAt observedAt') :
    Both (SameAccess observedAt') (client.collect core rejection observedAt)
      ((client.facing server).collect core rejection observedAt') ∧
    (∀ s, client.collect core rejection observedAt = .ok s →
      ∃ g, client.gather observedAt = .ok g ∧ NoConflict client g s) ∧
    ∀ s, (client.facing server).collect core rejection observedAt' = .ok s →
      ∃ g, (client.facing server).gather observedAt' = .ok g ∧
        NoConflict (client.facing server) g s := by
  refine ⟨?_, fun _ => noConflict_of_collect, fun _ => noConflict_of_collect⟩
  have gathered := gather_order same
  unfold Client.collect
  cases run : client.gather observedAt with
  | error e =>
    rw [run] at gathered
    cases run' : (client.facing server).gather observedAt' with
    | error e' => exact .error e e'
    | ok g' =>
      rw [run'] at gathered
      cases gathered
  | ok g =>
    rw [run] at gathered
    cases run' : (client.facing server).gather observedAt' with
    | error e' =>
      rw [run'] at gathered
      cases gathered
    | ok g' =>
      rw [run'] at gathered
      cases gathered with
      | ok like =>
        have access := (graph_order client server like).sort core
        have verdict := timeless _ _ _ _ timely timely' (observed_of_gather core run)
          (observed_of_gather core run') access
        dsimp only
        unfold Client.finish
        dsimp only
        rw [← verdict]
        split
        · exact .error _ _
        · exact .ok access

/-! ## Two members in either order -/

/-- A member that is allowed everything. -/
def allowedMember (c : Char) : Value := .object [
  ("id", .string (sampleId c)), ("policies", .array [samplePolicy "allow"]),
  ("status", .string "accepted")]

/-- An account with two members and no groups. A response is a page with the members in one of two
orders, or an empty one. -/
def twoMembers : Client :=
  { sampleClient [] with
    net := {
      server := fun request => .answered ⟨200, [], none, [[UInt8.ofNat request]], false⟩
      decode := fun bytes => some (sampleResponse (match bytes with
        | [1] => .object [("id", .string (sampleId 'a')), ("name", .string "Acme")]
        | [2] => .array [allowedMember 'b', allowedMember 'c']
        | [12] => .array [allowedMember 'c', allowedMember 'b']
        | _ => .array [])) } }

/-- The members come in the other order. -/
def otherOrder (request : Nat) : Exchange :=
  .answered ⟨200, [], none, [[if request = 2 then 12 else UInt8.ofNat request]], false⟩

/-- Core that checks the time of each membership and grant, as far as the sample needs it. -/
def dated : Core :=
  { Core.plain with
    validateSnapshot := fun s =>
      (s.memberships.all fun m => m.provenance.observedAt.length == 20) &&
        s.grants.all fun g => g.provenance.observedAt.length == 20 }

theorem dated_timeless : Timeless dated fun time => time.length = 20 := by
  have accepts {time : String} {s : Snapshot} (valid : time.length = 20) (h : ObservedAt time s) :
      dated.validateSnapshot s = true := by
    show (List.all _ _ && List.all _ _) = true
    rw [Bool.and_eq_true, List.all_eq_true, List.all_eq_true]
    refine ⟨fun m mem => ?_, fun g mem => ?_⟩
    · rw [h.memberships m mem, beq_iff_eq]
      exact valid
    · rw [h.grants g mem, beq_iff_eq]
      exact valid
  intro time time' s s' valid valid' h h' _
  rw [accepts valid h, accepts valid' h']

theorem twoMembers_order :
    (twoMembers.collect dated ⟨"", ""⟩ "2026-01-01T00:00:00Z").toOption.any
      (fun s => s.grants.length == 2) = true ∧
    Both (SameAccess "2026-01-02T00:00:00Z")
      (twoMembers.collect dated ⟨"", ""⟩ "2026-01-01T00:00:00Z")
      ((twoMembers.facing otherOrder).collect dated ⟨"", ""⟩ "2026-01-02T00:00:00Z") := by
  have first : twoMembers.memberList.1.rows = [allowedMember 'b', allowedMember 'c'] := by
    decide +kernel
  have second : (twoMembers.facing otherOrder).memberList.1.rows =
      [allowedMember 'c', allowedMember 'b'] := by
    decide +kernel
  have noGroups : twoMembers.groupList.1.rows = [] := by decide +kernel
  have members : twoMembers.memberList.1.Reordered (twoMembers.facing otherOrder).memberList.1 := by
    refine ⟨?_, by decide +kernel⟩
    rw [first, second]
    exact .swap _ _ _
  have zones : twoMembers.zoneList.1.Reordered (twoMembers.facing otherOrder).zoneList.1 :=
    ⟨.of_eq (by decide +kernel), by decide +kernel⟩
  have groups : twoMembers.groupList.1.Reordered (twoMembers.facing otherOrder).groupList.1 :=
    ⟨.of_eq (by decide +kernel), by decide +kernel⟩
  refine ⟨by decide +kernel, (collect_order twoMembers otherOrder dated ⟨"", ""⟩ _ _ _ dated_timeless
    (by decide) (by decide)
      ⟨by decide +kernel, fun _ _ => members, fun _ _ => zones, fun _ _ => groups, ?_⟩).1⟩
  intro key budget budget' asks
  cases asks with
  | @visit account s₁ s t before after key name value first enrolled entry =>
    unfold Client.grouped at entry
    rw [noGroups] at entry
    exact absurd entry (by
      change [] ≠ _
      simp)

end Permesh.Cloudflare

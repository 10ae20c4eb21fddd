import Permesh.Laws.Entra.Directory

/-!
# Laws.Entra.Lists — the lists of a collection

A collection lists the users, the service principals if they are included, the groups, and the
members of each group. Each list leaves what was collected before as it is, but for the completeness
of the snapshot; then its rows are taken.

A part of the collection is described by what it visits (`Follows`), and parts are composed in the order
of the source. The descriptions speak of the rows returned; how a list was requested is not repeated
here.
-/

namespace Permesh.Entra

open Permesh.Json Permesh.Http Permesh.Lib

variable {p : Provider}

/-! ## Visits -/

/-- The rows that a list has of each kind. -/
def Visit.accountRows (v : Visit) : List AccountRow :=
  match v.scope with
  | .users => v.list.rows.map (false, ·)
  | .servicePrincipals => v.list.rows.map (true, ·)
  | _ => []

def Visit.groupRows (v : Visit) : List Object :=
  match v.scope with
  | .groups => v.list.rows
  | _ => []

def Visit.memberRows (v : Visit) : List MemberRow :=
  match v.scope with
  | .members id => v.list.rows.map (id, ·)
  | _ => []

/-- The rows of all visits. -/
def accountRows (visits : List Visit) : List AccountRow := visits.flatMap Visit.accountRows
def groupRows (visits : List Visit) : List Object := visits.flatMap Visit.groupRows
def memberRows (visits : List Visit) : List MemberRow := visits.flatMap Visit.memberRows

/-- No list has failed. -/
def Complete (visits : List Visit) : Prop := ∀ v ∈ visits, v.list.failure = none

/-- The address of a list. -/
def Scope.url (p : Provider) : Scope → Except ProviderError Url
  | .users =>
    p.client.url "users" (some "id,displayName,userPrincipalName,accountEnabled,userType")
  | .servicePrincipals =>
    p.client.url "servicePrincipals" (some "id,displayName,accountEnabled,servicePrincipalType")
  | .groups => p.client.url "groups" (some "id,displayName")
  | .members id => p.client.url s!"groups/{id}/members" none

/-- A list as the client returned it. -/
structure Visit.Real (p : Provider) (v : Visit) : Prop where
  address : v.scope.url p = .ok v.initial
  returned : v.list = (p.client.listing v.initial v.wire).1

/-- The lists of these scopes. -/
structure Listed (p : Provider) (scopes : List Scope) (visits : List Visit) : Prop where
  scopes : visits.map Visit.scope = scopes
  real : ∀ v ∈ visits, v.Real p

theorem complete_append {visits : List Visit} {v : Visit} :
    Complete (visits ++ [v]) ↔ Complete visits ∧ v.list.failure = none := by
  unfold Complete
  rw [List.forall_mem_append, List.forall_mem_singleton]

theorem accountRows_append (visits : List Visit) (v : Visit) :
    accountRows (visits ++ [v]) = accountRows visits ++ v.accountRows := by
  rw [accountRows, List.flatMap_append, List.flatMap_singleton]
  rfl

theorem groupRows_append (visits : List Visit) (v : Visit) :
    groupRows (visits ++ [v]) = groupRows visits ++ v.groupRows := by
  rw [groupRows, List.flatMap_append, List.flatMap_singleton]
  rfl

theorem memberRows_append (visits : List Visit) (v : Visit) :
    memberRows (visits ++ [v]) = memberRows visits ++ v.memberRows := by
  rw [memberRows, List.flatMap_append, List.flatMap_singleton]
  rfl

theorem Listed.append {scopes : List Scope} {visits : List Visit} (h : Listed p scopes visits)
    {v : Visit} (real : v.Real p) : Listed p (scopes ++ [v.scope]) (visits ++ [v]) where
  scopes := by rw [List.map_append, h.scopes]; rfl
  real := by
    rw [List.forall_mem_append, List.forall_mem_singleton]
    exact ⟨h.real, real⟩

/-- The collection behind one more visit, before its rows are taken. -/
structure Follows (p : Provider) (c : Collection) (v : Visit) (c' : Collection) : Prop where
  real : v.Real p
  visits : c'.visits = c.visits ++ [v]
  accounts : c'.accounts = c.accounts
  groups : c'.groups = c.groups
  memberships : c'.memberships = c.memberships
  snapshot : ∃ complete limitations,
    c'.snapshot = { c.snapshot with complete := complete, limitations := limitations }
  complete : c'.snapshot.complete = true ↔ c.snapshot.complete = true ∧ v.list.failure = none

/-- The collection behind the list of this scope, before its rows are taken. -/
def Behind (p : Provider) (P : Collection → Prop) (scope : Scope) (rows : List Object)
    (c' : Collection) : Prop :=
  ∃ c v, P c ∧ v.scope = scope ∧ rows = v.list.rows ∧ Follows p c v c'

/-- **One list.** -/
theorem visit_yields (P : Collection → Prop) {scope : Scope} {path : String}
    {select : Option String} (address : scope.url p = p.client.url path select) :
    Yields P (p.visit scope path select) (Behind p P scope) := by
  intro c rows c' h run
  change p.visit scope path select c = _ at run
  unfold Provider.visit at run
  split at run
  · cases run
  case h_2 initial url =>
    dsimp only at run
    obtain ⟨rows_eq, rfl⟩ := Prod.mk.inj run
    cases rows_eq
    refine ⟨c, ⟨scope, initial, c.wire, (p.client.listing initial c.wire).1⟩, h, rfl, rfl, ?_⟩
    cases failed : (p.client.listing initial c.wire).1.failure with
    | none =>
      exact ⟨⟨address.trans url, rfl⟩, rfl, rfl, rfl, rfl, ⟨_, _, rfl⟩, by simp [failed]⟩
    | some code =>
      exact ⟨⟨address.trans url, rfl⟩, rfl, rfl, rfl, rfl, ⟨_, _, rfl⟩,
        by simp [failed, Collection.missed, Entra.missed]⟩

/-! ## Accounts -/

theorem takeAccount_frame (service : Bool) (c : Collection) (o : Object) :
    (p.takeAccount service c o).visits = c.visits ∧
      (p.takeAccount service c o).groups = c.groups ∧
      (p.takeAccount service c o).memberships = c.memberships ∧
      (p.takeAccount service c o).snapshot.groups = c.snapshot.groups ∧
      (p.takeAccount service c o).snapshot.memberships = c.snapshot.memberships := by
  unfold Provider.takeAccount
  split
  · exact ⟨rfl, rfl, rfl, rfl, rfl⟩
  · split
    · exact ⟨rfl, rfl, rfl, rfl, rfl⟩
    · exact ⟨rfl, rfl, rfl, rfl, rfl⟩

/-- The collection while accounts are collected. -/
structure InAccounts (p : Provider) (scopes : List Scope) (kept : List AccountRow)
    (pairs : List (Identity × Account)) (c : Collection) : Prop where
  accounted : Accounted p (Complete c.visits) (accountRows c.visits) kept pairs c
  groups : c.groups = ∅ ∧ c.snapshot.groups = [] ∧ groupRows c.visits = []
  memberships : c.memberships = ∅ ∧ c.snapshot.memberships = [] ∧ memberRows c.visits = []
  visited : Listed p scopes c.visits

/-- The scope of the users, or of the service principals. -/
def accountScope (service : Bool) : Scope := if service then .servicePrincipals else .users

/-- The rows of one more directory of accounts are taken. -/
theorem InAccounts.take {scopes : List Scope} {kept : List AccountRow}
    {pairs : List (Identity × Account)} {c c' : Collection} (h : InAccounts p scopes kept pairs c)
    {service : Bool} {v : Visit} (scope : v.scope = accountScope service) (follows : Follows p c v c') :
    ∃ kept' pairs', InAccounts p (scopes ++ [accountScope service]) kept' pairs'
      (v.list.rows.foldl (p.takeAccount service) c') := by
  obtain ⟨complete, limitations, snapshot⟩ := follows.snapshot
  have rows : v.accountRows = v.list.rows.map (service, ·) := by
    unfold Visit.accountRows
    rw [scope]
    cases service <;> rfl
  have none : v.groupRows = [] ∧ v.memberRows = [] := by
    unfold Visit.groupRows Visit.memberRows
    rw [scope]
    cases service <;> exact ⟨rfl, rfl⟩
  have entered : Accounted p (Complete c'.visits) (accountRows c.visits) kept pairs c' := by
    obtain ⟨sub, converts, identities, accounts, once, known, fine⟩ := h.accounted
    refine ⟨sub, converts, ?_, ?_, once, ?_, ?_⟩
    · rw [snapshot]
      exact identities
    · rw [snapshot]
      exact accounts
    · rw [follows.accounts]
      exact known
    · rw [follows.complete, follows.visits, complete_append, fine, and_right_comm]
  obtain ⟨kept', pairs', accounted⟩ := entered.takeAll service v.list.rows
  have frame := List.foldlRecOn (motive := fun c : Collection => c.visits = c'.visits ∧
    c.groups = c'.groups ∧ c.memberships = c'.memberships ∧
    c.snapshot.groups = c'.snapshot.groups ∧ c.snapshot.memberships = c'.snapshot.memberships)
    v.list.rows (p.takeAccount service) ⟨rfl, rfl, rfl, rfl, rfl⟩
    fun c₁ ⟨visits, groups, memberships, groups', memberships'⟩ o _ => by
      obtain ⟨visits₁, groups₁, memberships₁, groups₂, memberships₂⟩ :=
        takeAccount_frame (p := p) service c₁ o
      exact ⟨visits₁.trans visits, groups₁.trans groups, memberships₁.trans memberships,
        groups₂.trans groups', memberships₂.trans memberships'⟩
  obtain ⟨visits, groups, memberships, groups', memberships'⟩ := frame
  refine ⟨kept', pairs', ?_, ?_, ?_, ?_⟩
  · rw [visits, follows.visits, accountRows_append, rows]
    rw [follows.visits] at accounted
    exact accounted
  · rw [visits, groups, groups', follows.visits, follows.groups, snapshot, groupRows_append, none.1,
      List.append_nil]
    exact h.groups
  · rw [visits, memberships, memberships', follows.visits, follows.memberships, snapshot,
      memberRows_append, none.2, List.append_nil]
    exact h.memberships
  · rw [visits, follows.visits, ← scope]
    exact h.visited.append follows.real

theorem directory_yields (service : Bool) (scopes : List Scope) :
    Yields (fun c => ∃ kept pairs, InAccounts p scopes kept pairs c) (p.directory service)
      fun _ c => ∃ kept pairs, InAccounts p (scopes ++ [accountScope service]) kept pairs c := by
  have taken (rows : List Object) :
      Yields (Behind p (fun c => ∃ kept pairs, InAccounts p scopes kept pairs c)
        (accountScope service) rows)
      (modify fun c => rows.foldl (p.takeAccount service) c : Op PUnit)
      fun _ c => ∃ kept pairs, InAccounts p (scopes ++ [accountScope service]) kept pairs c := by
    apply Yields.modify
    rintro c' ⟨c, v, ⟨kept, pairs, h⟩, scope, rfl, follows⟩
    exact h.take scope follows
  unfold Provider.directory
  cases service with
  | false => exact (visit_yields _ rfl).bind taken
  | true => exact (visit_yields _ rfl).bind taken

/-! ## Groups -/

theorem takeGroup_frame (c : Collection) (o : Object) :
    (p.takeGroup c o).visits = c.visits ∧
      (p.takeGroup c o).memberships = c.memberships ∧
      (p.takeGroup c o).snapshot.identities = c.snapshot.identities ∧
      (p.takeGroup c o).snapshot.accounts = c.snapshot.accounts ∧
      (p.takeGroup c o).snapshot.memberships = c.snapshot.memberships := by
  unfold Provider.takeGroup
  split
  · exact ⟨rfl, rfl, rfl, rfl, rfl⟩
  · exact ⟨rfl, rfl, rfl, rfl, rfl⟩

/-- The collection when all directories are collected. -/
structure InGroups (p : Provider) (scopes : List Scope) (kept : List AccountRow)
    (pairs : List (Identity × Account)) (groups : List Object) (c : Collection) : Prop where
  sub : kept.Sublist (accountRows c.visits)
  converts : List.Forall₂ (Converts p) kept pairs
  identities : c.snapshot.identities = pairs.map Prod.fst
  accounts : c.snapshot.accounts = pairs.map Prod.snd
  once : (kept.map (·.2.id)).Nodup
  known : ∀ (id : String) (service : Bool),
    c.accounts[id]? = some service ↔ ∃ o : Object, (service, o) ∈ kept ∧ o.id = id
  grouped : Grouped p (Complete c.visits ∧ kept = accountRows c.visits) c.accounts
    (groupRows c.visits) groups c
  distinct : ((groupRows c.visits).map Object.id).Nodup
  memberships : c.memberships = ∅ ∧ c.snapshot.memberships = [] ∧ memberRows c.visits = []
  listed : Listed p scopes c.visits

/-- The rows of the groups are taken. -/
theorem InAccounts.group {scopes : List Scope} {kept : List AccountRow}
    {pairs : List (Identity × Account)} {c c' : Collection} (h : InAccounts p scopes kept pairs c)
    {v : Visit} (scope : v.scope = .groups) (follows : Follows p c v c') :
    ∃ groups, InGroups p (scopes ++ [.groups]) kept pairs groups
      (v.list.rows.foldl p.takeGroup c') := by
  obtain ⟨complete, limitations, snapshot⟩ := follows.snapshot
  obtain ⟨sub, converts, identities, accounts, once, known, fine⟩ := h.accounted
  have accountRows_eq : accountRows c'.visits = accountRows c.visits := by
    rw [follows.visits, accountRows_append, Visit.accountRows, scope, List.append_nil]
  have groupRows_eq : groupRows c'.visits = v.list.rows := by
    rw [follows.visits, groupRows_append, h.groups.2.2, Visit.groupRows, scope, List.nil_append]
  have memberRows_eq : memberRows c'.visits = [] := by
    rw [follows.visits, memberRows_append, h.memberships.2.2, Visit.memberRows, scope,
      List.nil_append]
  have distinct : (v.list.rows.map Object.id).Nodup := by
    rw [follows.real.returned]
    exact (listing_distinct p.client v.initial v.wire).1
  have entered : Grouped p (Complete c'.visits ∧ kept = accountRows c'.visits) c'.accounts [] []
      c' := by
    refine ⟨.refl _, ?_, ?_, fun _ mem => (by cases mem), rfl, ?_⟩
    · rw [snapshot]
      exact h.groups.2.1
    · intro id g
      rw [follows.groups, h.groups.1]
      simp
    · rw [follows.complete, fine, accountRows_eq, follows.visits, complete_append, and_right_comm,
        eq_self, and_true]
  obtain ⟨groups, grouped⟩ := entered.takeAll distinct
  have frame := List.foldlRecOn (motive := fun c : Collection => c.visits = c'.visits ∧
    c.memberships = c'.memberships ∧ c.snapshot.identities = c'.snapshot.identities ∧
    c.snapshot.accounts = c'.snapshot.accounts ∧
    c.snapshot.memberships = c'.snapshot.memberships)
    v.list.rows p.takeGroup ⟨rfl, rfl, rfl, rfl, rfl⟩
    fun c₁ ⟨visits, memberships, identities, accounts, memberships'⟩ o _ => by
      obtain ⟨visits₁, memberships₁, identities₁, accounts₁, memberships₂⟩ :=
        takeGroup_frame (p := p) c₁ o
      exact ⟨visits₁.trans visits, memberships₁.trans memberships, identities₁.trans identities,
        accounts₁.trans accounts, memberships₂.trans memberships'⟩
  obtain ⟨visits, memberships, identities', accounts', memberships'⟩ := frame
  refine ⟨groups, ?_, converts, ?_, ?_, once, ?_, ?_, ?_, ?_, ?_⟩
  · rw [visits, accountRows_eq]
    exact sub
  · rw [identities', snapshot]
    exact identities
  · rw [accounts', snapshot]
    exact accounts
  · rw [grouped.same, follows.accounts]
    exact known
  · rw [grouped.same, visits, groupRows_eq]
    exact grouped
  · rw [visits, groupRows_eq]
    exact distinct
  · rw [memberships, memberships', visits, follows.memberships, snapshot, memberRows_eq]
    exact ⟨h.memberships.1, h.memberships.2.1, rfl⟩
  · rw [visits, follows.visits, ← scope]
    exact h.visited.append follows.real

theorem groupDirectory_yields (scopes : List Scope) :
    Yields (fun c => ∃ kept pairs, InAccounts p scopes kept pairs c) p.groupDirectory
      fun _ c => ∃ kept pairs groups, InGroups p (scopes ++ [.groups]) kept pairs groups c := by
  unfold Provider.groupDirectory
  refine (visit_yields _ rfl).bind fun rows => Yields.modify ?_
  rintro c' ⟨c, v, ⟨kept, pairs, h⟩, scope, rfl, follows⟩
  exact ⟨kept, pairs, h.group scope follows⟩

/-! ## Members -/

theorem takeMember_visits (observedAt : String) (group : Group) (c : Collection) (o : Object) :
    (p.takeMember observedAt group c o).visits = c.visits := by
  unfold Provider.takeMember
  split
  · split
    · rfl
    · rfl
  · rfl
  · rfl

/-- The collection while members are collected, behind the directories. -/
structure InMembers (p : Provider) (scopes : List Scope) (kept : List AccountRow)
    (groups : List Object) (fixed c : Collection) : Prop where
  joined : Joined p (Complete c.visits ∧ kept = accountRows fixed.visits ∧
    groups = groupRows fixed.visits) fixed (memberRows c.visits) c
  rows : accountRows c.visits = accountRows fixed.visits ∧
    groupRows c.visits = groupRows fixed.visits
  listed : Listed p scopes c.visits

/-- Behind the directories, no member is collected. -/
theorem InGroups.enter {scopes : List Scope} {kept : List AccountRow}
    {pairs : List (Identity × Account)} {groups : List Object} {c : Collection}
    (h : InGroups p scopes kept pairs groups c) : InMembers p scopes kept groups c c where
  joined := by
    obtain ⟨memberships, snapshot, rows⟩ := h.memberships
    refine ⟨rfl, rfl, ?_, ?_, ?_, ⟨rfl, rfl, rfl⟩, ?_⟩
    · rw [memberships, snapshot]
      simp
    · rw [snapshot]
      exact List.nodup_nil
    · rw [memberships, rows]
      simp
    · rw [h.grouped.complete, rows, and_assoc]
      simp
  rows := ⟨rfl, rfl⟩
  listed := h.listed

/-- The rows of the members of one more group are taken. -/
theorem InMembers.take {scopes : List Scope} {kept : List AccountRow} {groups : List Object}
    {fixed c c' : Collection} (h : InMembers p scopes kept groups fixed c) (observedAt : String)
    {id : String} {group : Group} (key : group.key = groupKey p.id p.tenantId id) {v : Visit}
    (scope : v.scope = .members id) (follows : Follows p c v c') :
    InMembers p (scopes ++ [.members id]) kept groups fixed
      (v.list.rows.foldl (p.takeMember observedAt group) c') := by
  obtain ⟨complete, limitations, snapshot⟩ := follows.snapshot
  have entered : Joined p (Complete c'.visits ∧ kept = accountRows fixed.visits ∧
      groups = groupRows fixed.visits) fixed (memberRows c.visits) c' := by
    obtain ⟨accounts, groups, listed, once, joined, ⟨identities', accounts', groups'⟩, fine⟩ :=
      h.joined
    refine ⟨follows.accounts.trans accounts, follows.groups.trans groups, ?_, ?_, ?_, ?_, ?_⟩
    · rw [follows.memberships, snapshot]
      exact listed
    · rw [snapshot]
      exact once
    · rw [follows.memberships]
      exact joined
    · rw [snapshot]
      exact ⟨identities', accounts', groups'⟩
    · rw [follows.complete, fine, follows.visits, complete_append]
      tauto
  have visits : (v.list.rows.foldl (p.takeMember observedAt group) c').visits = c'.visits :=
    List.foldlRecOn (motive := fun c : Collection => c.visits = c'.visits) v.list.rows _ rfl
      fun c₁ same o _ => (takeMember_visits observedAt group c₁ o).trans same
  constructor
  · have taken := entered.takeAll observedAt key v.list.rows
    rw [visits, follows.visits, memberRows_append, Visit.memberRows, scope]
    rw [follows.visits] at taken
    exact taken
  · rw [visits, follows.visits, accountRows_append, groupRows_append, Visit.accountRows,
      Visit.groupRows, scope, List.append_nil, List.append_nil]
    exact h.rows
  · rw [visits, follows.visits, ← scope]
    exact h.listed.append follows.real

theorem members_yields (observedAt : String) {entry : String × Group}
    (key : entry.2.key = groupKey p.id p.tenantId entry.1) (scopes : List Scope)
    (kept : List AccountRow) (groups : List Object) (fixed : Collection) :
    Yields (InMembers p scopes kept groups fixed) (p.members observedAt entry) fun _ =>
      InMembers p (scopes ++ [.members entry.1]) kept groups fixed := by
  unfold Provider.members
  refine (visit_yields _ rfl).bind fun rows => Yields.modify ?_
  rintro c' ⟨c, v, h, scope, rfl, follows⟩
  exact h.take observedAt key scope follows

end Permesh.Entra

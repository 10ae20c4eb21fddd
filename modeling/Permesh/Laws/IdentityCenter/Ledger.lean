import Mathlib.Algebra.GroupWithZero.Nat
import Permesh.Laws.IdentityCenter.Listing
import Permesh.Lib.Separators

/-!
# Laws.IdentityCenter.Ledger — what holds while records are taken

The rows that were returned and are not taken yet are kept in a list. Every request was allowed when
it was made (`Scoped`), every record comes from a row (`Sound`), what has been seen is remembered
(`Tracked`), and a complete collection has covered all rows but those that are not taken yet (`Told`).
Each elementary step keeps all of it (`Inv`).

The invariant has one part for each thing that a later step needs, and a step says which parts it
changes. Lists that fail leave their rows untaken, and the flag is cleared with them.
-/

namespace Permesh.IdentityCenter

open Permesh.Aws (Answer callerMatches)
open Permesh.Lib (mem_insert_key getElem?_insert_key nodup_map_snoc forall_mem_snoc Plain
  colon_append_inj)

/-! ## The log -/

/-- The operation has been requested. -/
def Lists (log : List Step) (q : Query) : Prop := ∃ exchanges, Step.list q exchanges ∈ log

/-- The operation has returned this row. -/
def Listed (log : List Step) (q : Query) (row : q.Row) : Prop :=
  ∃ exchanges, Step.list q exchanges ∈ log ∧ row ∈ rowsOf exchanges

theorem Lists.mono {log log' : List Step} {q : Query} (h : Lists log q) (sub : log ⊆ log') :
    Lists log' q := h.imp fun _ mem => sub mem

theorem Listed.mono {log log' : List Step} {q : Query} {row : q.Row} (h : Listed log q row)
    (sub : log ⊆ log') : Listed log' q row := h.imp fun _ ⟨mem, there⟩ => ⟨sub mem, there⟩

/-- The rows of a list, but for the instances. -/
def Step.rowCount : Step → Nat
  | .list .instances _ => 0
  | .list _ exchanges => (rowsOf exchanges).length
  | _ => 0

/-- The rows of all lists together. -/
def total (log : List Step) : Nat := (log.map Step.rowCount).sum

theorem total_append (log : List Step) (step : Step) :
    total (log ++ [step]) = total log + step.rowCount := by
  rw [total, List.map_append, List.sum_append]
  rfl

/-- What was requested has been answered in full. -/
def Step.Finished : Step → Prop
  | .caller answer => ∃ output, answer = .ok output
  | .list _ exchanges => IdentityCenter.Finished exchanges
  | .describe _ _ answer => ∃ permission, answer = .ok (some permission)

variable (p : IdentityCenterProvider)

/-! ## Scope -/

/-- What is requested to prove the scope. -/
def Step.Proves : Step → Prop
  | .caller _ => True
  | .list .instances _ => True
  | _ => False

/-- The caller is the configured one, and the configured instance occurs once, with the configured
store. -/
def Proved (log : List Step) : Prop :=
  ∃ output exchanges, log = [.caller (.ok output), .list .instances exchanges] ∧
    (output.account = some p.config.accountId ∧ ∃ arn, output.arn = some arn ∧
      callerMatches arn p.config.accountId p.config.callerRole = true) ∧
    Finished exchanges ∧ Occurs p true (rowsOf exchanges)

/-- A list within the scope: its arguments are configured, or come from a row within the scope. -/
def Within (log : List Step) : Query → Prop
  | .instances => False
  | .users store => store = p.config.identityStoreId
  | .groups store => store = p.config.identityStoreId
  | .groupMemberships store id => store = p.config.identityStoreId ∧
    ∃ row, Listed log (.groups store) row ∧ row.groupId = id
  | .accounts => p.config.includeOrganizations = true
  | .permissionSets inst account => inst = p.config.instanceArn ∧ account ∈ p.config.accounts
  | .accountAssignments inst account arn => inst = p.config.instanceArn ∧
    account ∈ p.config.accounts ∧ p.permission arn = true ∧
    Listed log (.permissionSets inst account) arn

/-- A request within the scope. -/
def Allowed (log : List Step) : Step → Prop
  | .caller _ => False
  | .list q _ => Within p log q
  | .describe inst arn _ => inst = p.config.instanceArn ∧ p.permission arn = true ∧
    ∃ account ∈ p.config.accounts, Listed log (.permissionSets inst account) arn

/-- The scope was proved first, and all other requests are within it. -/
def Scoped (log : List Step) : Prop :=
  ∃ proof rest, log = proof ++ rest ∧ Proved p proof ∧ ∀ step ∈ rest, Allowed p log step

variable {p}

theorem Within.mono {log log' : List Step} {q : Query} (h : Within p log q) (sub : log ⊆ log') :
    Within p log' q := by
  cases q with
  | groupMemberships store id =>
    obtain ⟨store_eq, row, listed, id_eq⟩ := h
    exact ⟨store_eq, row, listed.mono sub, id_eq⟩
  | accountAssignments inst account arn =>
    obtain ⟨inst_eq, mem, valid, listed⟩ := h
    exact ⟨inst_eq, mem, valid, listed.mono sub⟩
  | _ => exact h

theorem Allowed.mono {log log' : List Step} {step : Step} (h : Allowed p log step)
    (sub : log ⊆ log') : Allowed p log' step := by
  cases step with
  | caller answer => exact h
  | list q exchanges => exact Within.mono h sub
  | describe inst arn answer =>
    obtain ⟨inst_eq, valid, account, mem, listed⟩ := h
    exact ⟨inst_eq, valid, account, mem, listed.mono sub⟩

theorem Scoped.append {log : List Step} {step : Step} (h : Scoped p log)
    (allowed : Allowed p log step) : Scoped p (log ++ [step]) := by
  obtain ⟨proof, rest, rfl, proved, all⟩ := h
  refine ⟨proof, rest ++ [step], List.append_assoc _ _ _, proved, forall_mem_snoc (fun s mem => ?_) ?_⟩
  · exact (all s mem).mono (List.subset_append_left _ _)
  · exact allowed.mono (List.subset_append_left _ _)

/-! ## Keys -/

/-- The kinds of the keys. -/
def kinds : List String := ["user", "group", "aws-account", "permission-set-assignment"]

theorem key_inj {kind other id name : String} (mem : kind ∈ kinds) (mem' : other ∈ kinds)
    (h : p.key kind id = p.key other name) : kind = other ∧ id = name := by
  have plain : ∀ kind ∈ kinds, Plain kind := by decide
  have texts : s!"{p.config.region}:{p.config.identityStoreId}:{kind}:{id}" =
    s!"{p.config.region}:{p.config.identityStoreId}:{other}:{name}" := (EntityKey.mk.inj h).2
  have cut (kind id : String) : s!"{p.config.region}:{p.config.identityStoreId}:{kind}:{id}" =
      s!"{p.config.region}:{p.config.identityStoreId}:" ++ (kind ++ (":" ++ id)) := by
    simp [String.append_assoc, toString]
  rw [cut, cut] at texts
  exact colon_append_inj (plain kind mem) (plain other mem') ((String.append_right_inj _).mp texts)

theorem user_key {v : StoreUser} {a : Account} (h : p.user v = .ok a) :
    a.key = p.key "user" v.userId := by
  unfold IdentityCenterProvider.user at h
  split at h
  · cases h
  · dsimp only at h
    split at h
    · cases h
    · cases h
      rfl

theorem group_key {v : StoreGroup} {g : Group} (h : p.group v = .ok g) :
    g.key = p.key "group" v.groupId := by
  unfold IdentityCenterProvider.group at h
  split at h
  · cases h
  · dsimp only at h
    split at h
    · cases h
    · cases h
      rfl

/-! ## Records -/

variable (p)

/-- The membership that a row becomes. -/
def Joins (id : String) (row : GroupMembership) (m : Membership) : Prop :=
  ∃ user, row.memberId = some (.userId user) ∧ m.member = .account (p.key "user" user) ∧
    m.group = p.key "group" id

/-- The principal that a row names. -/
def IsPrincipal (row : AccountAssignment) (id : String) : Subject → Prop
  | .account key => row.principalType = some "USER" ∧ key = p.key "user" id
  | .group key => row.principalType = some "GROUP" ∧ key = p.key "group" id

/-- The grant that a row becomes. -/
structure Assigns (account arn : String) (row : AccountAssignment) (g : Grant) : Prop where
  ofAccount : row.accountId = some account
  ofSet : row.permissionSetArn = some arn
  resource : g.resource = p.assignmentKey account arn
  principal : ∃ id, row.principalId = some id ∧
    g.id = grantId account arn row.principalType id ∧ IsPrincipal p row id g.subject

/-- The subject is shown. -/
def Emitted (s : Snapshot) : Subject → Prop
  | .account key => ∃ a ∈ s.accounts, a.key = key
  | .group key => ∃ g ∈ s.groups, g.key = key

/-- A resource is an allowlisted account, or a permission set of the instance that such an account was
listed with. -/
def Owned (log : List Step) (x : Resource) : Prop :=
  ∃ account ∈ p.config.accounts, (∃ name, x = p.accountResource account name) ∨
    ∃ arn, p.permission arn = true ∧ Listed log (.permissionSets p.config.instanceArn account) arn ∧
      x.key = p.assignmentKey account arn ∧ x.parent = some (p.key "aws-account" account)

/-- A membership comes from a row, and joins an account and a group that are shown. -/
def Joined (log : List Step) (s : Snapshot) (m : Membership) : Prop :=
  (∃ id row, Listed log (.groupMemberships p.config.identityStoreId id) row ∧ Joins p id row m) ∧
    Emitted s m.member ∧ Emitted s (.group m.group)

/-- A grant comes from an assignment of an allowlisted account, and joins a principal and a resource
that are shown. -/
def Granted (log : List Step) (s : Snapshot) (g : Grant) : Prop :=
  ∃ account ∈ p.config.accounts, ∃ arn row,
    Listed log (.accountAssignments p.config.instanceArn account arn) row ∧
    Assigns p account arn row g ∧ (∃ x ∈ s.resources, x.key = g.resource) ∧ Emitted s g.subject

/-- Every record comes from a row, and joins records that are shown. -/
structure Sound (log : List Step) (s : Snapshot) : Prop where
  accounts : ∀ a ∈ s.accounts, ∃ row, Listed log (.users p.config.identityStoreId) row ∧
    p.user row = .ok a
  groups : ∀ g ∈ s.groups, ∃ row, Listed log (.groups p.config.identityStoreId) row ∧
    p.group row = .ok g
  memberships : ∀ m ∈ s.memberships, Joined p log s m
  resources : ∀ x ∈ s.resources, Owned p log x
  grants : ∀ g ∈ s.grants, Granted p log s g

/-- No key occurs twice. -/
structure Unique (s : Snapshot) : Prop where
  accounts : (s.accounts.map (·.key)).Nodup
  groups : (s.groups.map (·.key)).Nodup
  resources : (s.resources.map (·.key)).Nodup
  memberships : (s.memberships.map fun m => (m.member, m.group)).Nodup
  grants : (s.grants.map (·.id)).Nodup

/-- What the collection remembers. -/
structure Known where
  users : Keys
  groups : Keys
  memberships : Std.ExtTreeSet MembershipKey
  grants : Std.ExtTreeSet String
  /-- The keys that resources may have so far, and keys that some have. -/
  resource : EntityKey → Prop
  targets : EntityKey → Prop
  /-- Operations that have been requested, and permission sets that have been described. -/
  lists : Query → Prop
  described : String → Prop

/-- One more operation has been requested. -/
def Known.ask (T : Known) (q : Query) : Known :=
  { T with lists := fun q' => T.lists q' ∨ q' = q }

structure Tracked (T : Known) (s : Snapshot) : Prop where
  users : ∀ (id : String) (key : EntityKey), T.users[id]? = some key →
    key = p.key "user" id ∧ Emitted s (.account key)
  accounts : ∀ a ∈ s.accounts, ∃ id ∈ T.users, a.key = p.key "user" id
  groupKeys : ∀ (id : String) (key : EntityKey), T.groups[id]? = some key →
    key = p.key "group" id ∧ Emitted s (.group key)
  groups : ∀ g ∈ s.groups, ∃ id ∈ T.groups, g.key = p.key "group" id
  memberships : ∀ m ∈ s.memberships, (m.member, m.group) ∈ T.memberships
  grants : ∀ g ∈ s.grants, g.id ∈ T.grants
  resources : ∀ x ∈ s.resources, T.resource x.key
  targets : ∀ key, T.targets key → ∃ x ∈ s.resources, x.key = key
  unique : Unique s

/-! ## Completeness -/

/-- The row has become what it stands for. -/
def Covered (log : List Step) (s : Snapshot) : (q : Query) → q.Row → Prop
  | .instances, _ => True
  | .users _, row => ∃ a ∈ s.accounts, p.user row = .ok a
  | .groups _, row => ∃ g ∈ s.groups, p.group row = .ok g
  | .groupMemberships _ id, row => ∃ m ∈ s.memberships, Joins p id row m
  | .accounts, _ => True
  | .permissionSets inst account, arn =>
    (∃ permission, Step.describe inst arn (.ok (some permission)) ∈ log) ∧
      Lists log (.accountAssignments inst account arn)
  | .accountAssignments _ account arn, row => ∃ g ∈ s.grants, Assigns p account arn row g

/-- A row that was returned. -/
abbrev AnyRow := (q : Query) × q.Row

/-- A complete collection has covered all rows, but for those that are not taken yet. -/
structure Told (todo : List AnyRow) (r : Run) : Prop where
  rows : r.rows = total r.log
  fine : r.snapshot.complete = true → r.rows ≤ MAX_ROWS ∧ (∀ step ∈ r.log, step.Finished) ∧
    ∀ (q : Query) (row : q.Row), Listed r.log q row → Covered p r.log r.snapshot q row ∨
      ⟨q, row⟩ ∈ todo

/-- What holds between two steps. -/
structure Inv (T : Known) (todo : List AnyRow) (r : Run) : Prop where
  scope : Scoped p r.log
  sound : Sound p r.log r.snapshot
  tracked : Tracked p T r.snapshot
  told : Told p todo r
  listed : ∀ x ∈ todo, Listed r.log x.1 x.2
  lists : ∀ q, T.lists q → Lists r.log q
  described : ∀ arn, T.described arn →
    ∃ permission, Step.describe p.config.instanceArn arn (.ok (some permission)) ∈ r.log

variable {p}

/-! ## Growth -/

/-- The records stay. -/
structure Grows (s s' : Snapshot) : Prop where
  accounts : s.accounts ⊆ s'.accounts
  groups : s.groups ⊆ s'.groups
  memberships : s.memberships ⊆ s'.memberships
  resources : s.resources ⊆ s'.resources
  grants : s.grants ⊆ s'.grants

theorem Grows.refl (s : Snapshot) : Grows s s :=
  ⟨fun _ mem => mem, fun _ mem => mem, fun _ mem => mem, fun _ mem => mem, fun _ mem => mem⟩

theorem Emitted.mono {s s' : Snapshot} {subject : Subject} (h : Emitted s subject)
    (grows : Grows s s') : Emitted s' subject := by
  cases subject with
  | account key => exact h.imp fun a ⟨mem, eq⟩ => ⟨grows.accounts mem, eq⟩
  | group key => exact h.imp fun g ⟨mem, eq⟩ => ⟨grows.groups mem, eq⟩

theorem Covered.mono {log log' : List Step} {s s' : Snapshot} {q : Query} {row : q.Row}
    (h : Covered p log s q row) (sub : log ⊆ log') (grows : Grows s s') :
    Covered p log' s' q row := by
  cases q with
  | instances => exact h
  | accounts => exact h
  | users store => exact h.imp fun a ⟨mem, eq⟩ => ⟨grows.accounts mem, eq⟩
  | groups store => exact h.imp fun g ⟨mem, eq⟩ => ⟨grows.groups mem, eq⟩
  | groupMemberships store id => exact h.imp fun m ⟨mem, joins⟩ => ⟨grows.memberships mem, joins⟩
  | permissionSets inst account =>
    exact ⟨h.1.imp fun _ mem => sub mem, h.2.mono sub⟩
  | accountAssignments inst account arn =>
    exact h.imp fun g ⟨mem, assigns⟩ => ⟨grows.grants mem, assigns⟩

theorem Owned.mono {log log' : List Step} {x : Resource} (h : Owned p log x) (sub : log ⊆ log') :
    Owned p log' x := by
  obtain ⟨account, mem, named | ⟨arn, valid, listed, key, parent⟩⟩ := h
  · exact ⟨account, mem, .inl named⟩
  · exact ⟨account, mem, .inr ⟨arn, valid, listed.mono sub, key, parent⟩⟩

theorem Joined.mono {log log' : List Step} {s s' : Snapshot} {m : Membership}
    (h : Joined p log s m) (sub : log ⊆ log') (grows : Grows s s') : Joined p log' s' m := by
  obtain ⟨⟨id, row, listed, joins⟩, member, group⟩ := h
  exact ⟨⟨id, row, listed.mono sub, joins⟩, member.mono grows, group.mono grows⟩

theorem Granted.mono {log log' : List Step} {s s' : Snapshot} {g : Grant} (h : Granted p log s g)
    (sub : log ⊆ log') (grows : Grows s s') : Granted p log' s' g := by
  obtain ⟨account, allowed, arn, row, listed, assigns, ⟨x, mem, key⟩, emitted⟩ := h
  exact ⟨account, allowed, arn, row, listed.mono sub, assigns, ⟨x, grows.resources mem, key⟩,
    emitted.mono grows⟩

theorem Sound.mono {log log' : List Step} {s : Snapshot} (h : Sound p log s) (sub : log ⊆ log') :
    Sound p log' s where
  accounts a mem := (h.accounts a mem).imp fun _ ⟨listed, ok⟩ => ⟨listed.mono sub, ok⟩
  groups g mem := (h.groups g mem).imp fun _ ⟨listed, ok⟩ => ⟨listed.mono sub, ok⟩
  memberships m mem := (h.memberships m mem).mono sub (Grows.refl s)
  resources x mem := (h.resources x mem).mono sub
  grants g mem := (h.grants g mem).mono sub (Grows.refl s)

theorem Sound.noted {log : List Step} {s : Snapshot} (h : Sound p log s) (complete : Bool)
    (limitations : List String) :
    Sound p log { s with complete := complete, limitations := limitations } :=
  ⟨h.accounts, h.groups, h.memberships, h.resources, h.grants⟩

theorem Tracked.noted {T : Known} {s : Snapshot} (h : Tracked p T s) (complete : Bool)
    (limitations : List String) :
    Tracked p T { s with complete := complete, limitations := limitations } :=
  ⟨h.users, h.accounts, h.groupKeys, h.groups, h.memberships, h.grants, h.resources, h.targets,
    ⟨h.unique.accounts, h.unique.groups, h.unique.resources, h.unique.memberships, h.unique.grants⟩⟩

theorem Tracked.requested {T : Known} {s : Snapshot} (h : Tracked p T s) (lists : Query → Prop)
    (described : String → Prop) : Tracked p { T with lists := lists, described := described } s :=
  ⟨h.users, h.accounts, h.groupKeys, h.groups, h.memberships, h.grants, h.resources, h.targets,
    h.unique⟩

variable {T : Known} {todo : List AnyRow} {r : Run}

/-! ## Steps -/

/-- **A note** leaves rows that are not covered. -/
theorem Inv.note {todo' : List AnyRow} (h : Inv p T todo r) (code : String) (sub : todo' ⊆ todo) :
    Inv p T todo' (r.missed code) where
  scope := h.scope
  sound := h.sound.noted _ _
  tracked := h.tracked.noted _ _
  told := ⟨h.told.rows, fun complete => Bool.noConfusion complete⟩
  listed x mem := h.listed x (sub mem)
  lists := h.lists
  described := h.described

theorem rowCount_list {log : List Step} {q : Query} (within : Within p log q)
    (exchanges : List (Exchange q.Row)) :
    (Step.list q exchanges).rowCount = (rowsOf exchanges).length := by
  cases q with
  | instances => exact within.elim
  | _ => rfl

/-- **A list**: its rows are to be taken. -/
theorem Inv.fetched {q : Query} {t : Turn q} (h : Inv p T todo r) (within : Within p r.log q)
    (fetched : Fetched r t) : Inv p (T.ask q) (t.out.map (Sigma.mk q) ++ todo)
      { t.run with log := t.run.log ++ [.list q t.exchanges] } := by
  have sub : r.log ⊆ t.run.log ++ [.list q t.exchanges] := by
    rw [fetched.log]
    exact List.subset_append_left _ _
  have last : Step.list q t.exchanges ∈ t.run.log ++ [.list q t.exchanges] :=
    List.mem_append_right _ (List.mem_singleton_self _)
  have out : ∀ row ∈ t.out, Listed (t.run.log ++ [.list q t.exchanges]) q row :=
    fun row mem => ⟨t.exchanges, last, fetched.out.subset mem⟩
  constructor
  · rw [fetched.log]
    exact h.scope.append within
  · rcases fetched.outcome with ⟨same, -⟩ | ⟨code, noted⟩
    · rw [same]
      exact h.sound.mono sub
    · rw [noted]
      exact (h.sound.mono sub).noted _ _
  · rcases fetched.outcome with ⟨same, -⟩ | ⟨code, noted⟩
    · rw [same]
      exact h.tracked.requested _ _
    · rw [noted]
      exact (h.tracked.noted _ _).requested _ _
  · refine ⟨?_, fun complete => ?_⟩
    · rw [fetched.log, total_append, rowCount_list within, ← h.told.rows]
      exact fetched.rows
    rcases fetched.outcome with ⟨same, finished, all, below⟩ | ⟨code, noted⟩
    · dsimp only at complete ⊢
      rw [same] at complete ⊢
      obtain ⟨-, finished', covered⟩ := h.told.fine complete
      refine ⟨below, forall_mem_snoc ?_ finished, fun q' row listed => ?_⟩
      · rw [fetched.log]
        exact finished'
      · obtain ⟨exchanges, mem, there⟩ := listed
        rcases List.mem_append.mp mem with mem | mem
        · rw [fetched.log] at mem
          refine (covered q' row ⟨exchanges, mem, there⟩).imp ?_ (List.mem_append_right _)
          intro covered
          exact covered.mono sub (Grows.refl _)
        · cases List.mem_singleton.mp mem
          right
          refine List.mem_append_left _ (List.mem_map.mpr ⟨row, ?_, rfl⟩)
          rw [all]
          exact there
    · dsimp only at complete
      rw [noted] at complete
      exact Bool.noConfusion complete
  · intro x mem
    rcases List.mem_append.mp mem with mem | mem
    · obtain ⟨row, row_mem, rfl⟩ := List.mem_map.mp mem
      exact out row row_mem
    · exact (h.listed x mem).mono sub
  · rintro q' (before | rfl)
    · exact (h.lists q' before).mono sub
    · exact ⟨t.exchanges, last⟩
  · exact fun arn before => (h.described arn before).imp fun _ mem => sub mem

/-- **A description** of a permission set. -/
theorem Inv.describe {arn : String} {permission : PermissionSet} (h : Inv p T todo r)
    (allowed : Allowed p r.log (.describe p.config.instanceArn arn (.ok (some permission)))) :
    Inv p { T with described := fun arn' => T.described arn' ∨ arn' = arn } todo
      { r with
        requests := r.requests + 1
        log := r.log ++ [.describe p.config.instanceArn arn (.ok (some permission))] } := by
  have sub : r.log ⊆ r.log ++ [.describe p.config.instanceArn arn (.ok (some permission))] :=
    List.subset_append_left _ _
  refine ⟨h.scope.append allowed, h.sound.mono sub, ?_, ⟨?_, fun complete => ?_⟩,
    fun x mem => (h.listed x mem).mono sub, fun q before => (h.lists q before).mono sub, ?_⟩
  · exact h.tracked.requested _ _
  · rw [total_append]
    exact h.told.rows
  · obtain ⟨below, finished, covered⟩ := h.told.fine complete
    refine ⟨below, forall_mem_snoc finished ⟨permission, rfl⟩, fun q row listed => ?_⟩
    · obtain ⟨exchanges, mem, there⟩ := listed
      rcases List.mem_append.mp mem with mem | mem
      · apply (covered q row ⟨exchanges, mem, there⟩).imp_left
        intro covered
        exact covered.mono sub (Grows.refl _)
      · cases List.mem_singleton.mp mem
  · rintro arn' (before | rfl)
    · exact (h.described arn' before).imp fun _ mem => sub mem
    · exact ⟨permission, List.mem_append_right _ (List.mem_singleton_self _)⟩

/-- **A description that fails** is noted. -/
theorem Inv.undescribed {todo' : List AnyRow} {inst arn : String}
    {answer : Answer (Option PermissionSet)} (h : Inv p T todo r)
    (allowed : Allowed p r.log (.describe inst arn answer)) (code : String) (sub : todo' ⊆ todo) :
    Inv p T todo' (Run.missed { r with
      requests := r.requests + 1
      log := r.log ++ [.describe inst arn answer] } code) := by
  have more : r.log ⊆ r.log ++ [.describe inst arn answer] := List.subset_append_left _ _
  refine ⟨h.scope.append allowed, (h.sound.mono more).noted _ _, h.tracked.noted _ _,
    ⟨?_, fun complete => Bool.noConfusion complete⟩, fun x mem => (h.listed x (sub mem)).mono more,
    fun q before => (h.lists q before).mono more,
    fun arn before => (h.described arn before).imp fun _ mem => more mem⟩
  show r.rows = total (r.log ++ [.describe inst arn answer])
  rw [total_append]
  exact h.told.rows

/-- **A row is taken** that has been covered. -/
theorem Inv.take {x : AnyRow} (h : Inv p T (x :: todo) r)
    (covers : Covered p r.log r.snapshot x.1 x.2) : Inv p T todo r where
  scope := h.scope
  sound := h.sound
  tracked := h.tracked
  told := by
    refine ⟨h.told.rows, fun complete => ?_⟩
    obtain ⟨below, finished, covered⟩ := h.told.fine complete
    refine ⟨below, finished, fun q row listed => ?_⟩
    rcases covered q row listed with covered | mem
    · exact .inl covered
    · rcases List.mem_cons.mp mem with rfl | mem
      · exact .inl covers
      · exact .inr mem
  listed x mem := h.listed x (List.mem_cons_of_mem _ mem)
  lists := h.lists
  described := h.described

/-- A record is added. -/
theorem Inv.grow {T' : Known} {s : Snapshot} (h : Inv p T todo r) (grows : Grows r.snapshot s)
    (complete : s.complete = r.snapshot.complete) (sound : Sound p r.log s)
    (tracked : Tracked p T' s) (lists : T'.lists = T.lists ∧ T'.described = T.described) :
    Inv p T' todo { r with snapshot := s } where
  scope := h.scope
  sound := sound
  tracked := tracked
  told := by
    refine ⟨h.told.rows, fun complete' => ?_⟩
    obtain ⟨below, finished, covered⟩ := h.told.fine (complete.symm.trans complete')
    exact ⟨below, finished, fun q row listed =>
      (covered q row listed).imp_left fun covered => covered.mono (List.Subset.refl _) grows⟩
  listed := h.listed
  lists := by
    rw [lists.1]
    exact h.lists
  described := by
    rw [lists.2]
    exact h.described

/-- Less is remembered. -/
theorem Inv.forget {resource targets : EntityKey → Prop} {lists : Query → Prop}
    {described : String → Prop} (h : Inv p T todo r)
    (resources : ∀ key, T.resource key → resource key) (kept : ∀ key, targets key → T.targets key)
    (requested : ∀ q, lists q → T.lists q) (known : ∀ arn, described arn → T.described arn) :
    Inv p { T with
      resource := resource
      targets := targets
      lists := lists
      described := described } todo r where
  scope := h.scope
  sound := h.sound
  tracked := ⟨h.tracked.users, h.tracked.accounts, h.tracked.groupKeys, h.tracked.groups,
    h.tracked.memberships, h.tracked.grants,
    fun x mem => resources x.key (h.tracked.resources x mem),
    fun key there => h.tracked.targets key (kept key there), h.tracked.unique⟩
  told := h.told
  listed := h.listed
  lists q there := h.lists q (requested q there)
  described arn there := h.described arn (known arn there)

/-! ## Records that are added -/

/-- **A user** becomes an account. -/
theorem Inv.account {store : String} {user : StoreUser} {a : Account}
    (h : Inv p T (⟨.users store, user⟩ :: todo) r) (here : store = p.config.identityStoreId)
    (ok : p.user user = .ok a) (fresh : user.userId ∉ T.users) :
    Inv p { T with users := T.users.insert user.userId a.key } todo
      { r with snapshot := { r.snapshot with accounts := r.snapshot.accounts ++ [a] } } := by
  subst here
  have grows : Grows r.snapshot { r.snapshot with accounts := r.snapshot.accounts ++ [a] } :=
    ⟨List.subset_append_left _ _, fun _ m => m, fun _ m => m, fun _ m => m, fun _ m => m⟩
  have last : a ∈ r.snapshot.accounts ++ [a] := List.mem_append_right _ (List.mem_singleton_self _)
  have key := user_key ok
  have sound : Sound p r.log { r.snapshot with accounts := r.snapshot.accounts ++ [a] } := by
    refine ⟨forall_mem_snoc h.sound.accounts ⟨user, h.listed _ List.mem_cons_self, ok⟩,
      h.sound.groups, fun m mem => ?_, h.sound.resources, fun g mem => ?_⟩
    · exact (h.sound.memberships m mem).mono (List.Subset.refl _) grows
    · exact (h.sound.grants g mem).mono (List.Subset.refl _) grows
  have tracked : Tracked p { T with users := T.users.insert user.userId a.key }
      { r.snapshot with accounts := r.snapshot.accounts ++ [a] } := by
    obtain ⟨users, accounts, groupKeys, groups, memberships, grants, resources, targets,
      unique⟩ := h.tracked
    refine ⟨fun id k found => ?_, forall_mem_snoc (fun b mem => ?_) ⟨user.userId, by simp, key⟩,
      fun id k found => ?_, groups, memberships, grants, resources, targets,
      ⟨?_, unique.groups, unique.resources, unique.memberships, unique.grants⟩⟩
    · rw [getElem?_insert_key] at found
      split at found
      case isTrue same =>
        cases found
        exact ⟨by rw [key, same], a, last, rfl⟩
      case isFalse =>
        obtain ⟨eq, emitted⟩ := users id k found
        exact ⟨eq, emitted.mono grows⟩
    · obtain ⟨id, known, eq⟩ := accounts b mem
      exact ⟨id, by simp [Std.ExtTreeMap.mem_insert, known], eq⟩
    · obtain ⟨eq, emitted⟩ := groupKeys id k found
      exact ⟨eq, emitted.mono grows⟩
    · refine nodup_map_snoc unique.accounts fun b mem eq => fresh ?_
      obtain ⟨id, known, same⟩ := accounts b mem
      rw [same, key] at eq
      rw [← (key_inj (by decide) (by decide) eq).2]
      exact known
  apply (h.grow grows rfl sound tracked ⟨rfl, rfl⟩).take
  exact ⟨a, last, ok⟩

/-- **A group** becomes a group. -/
theorem Inv.group {store : String} {group : StoreGroup} {g : Group}
    (h : Inv p T (⟨.groups store, group⟩ :: todo) r) (here : store = p.config.identityStoreId)
    (ok : p.group group = .ok g) (fresh : group.groupId ∉ T.groups) :
    Inv p { T with groups := T.groups.insert group.groupId g.key } todo
      { r with snapshot := { r.snapshot with groups := r.snapshot.groups ++ [g] } } := by
  subst here
  have grows : Grows r.snapshot { r.snapshot with groups := r.snapshot.groups ++ [g] } :=
    ⟨fun _ m => m, List.subset_append_left _ _, fun _ m => m, fun _ m => m, fun _ m => m⟩
  have last : g ∈ r.snapshot.groups ++ [g] := List.mem_append_right _ (List.mem_singleton_self _)
  have key := group_key ok
  have sound : Sound p r.log { r.snapshot with groups := r.snapshot.groups ++ [g] } := by
    refine ⟨h.sound.accounts,
      forall_mem_snoc h.sound.groups ⟨group, h.listed _ List.mem_cons_self, ok⟩,
      fun m mem => ?_, h.sound.resources, fun g mem => ?_⟩
    · exact (h.sound.memberships m mem).mono (List.Subset.refl _) grows
    · exact (h.sound.grants g mem).mono (List.Subset.refl _) grows
  have tracked : Tracked p { T with groups := T.groups.insert group.groupId g.key }
      { r.snapshot with groups := r.snapshot.groups ++ [g] } := by
    obtain ⟨users, accounts, groupKeys, groups, memberships, grants, resources, targets,
      unique⟩ := h.tracked
    refine ⟨fun id k found => ?_, accounts, fun id k found => ?_,
      forall_mem_snoc (fun b mem => ?_) ⟨group.groupId, by simp, key⟩, memberships, grants,
      resources, targets,
      ⟨unique.accounts, ?_, unique.resources, unique.memberships, unique.grants⟩⟩
    · obtain ⟨eq, emitted⟩ := users id k found
      exact ⟨eq, emitted.mono grows⟩
    · rw [getElem?_insert_key] at found
      split at found
      case isTrue same =>
        cases found
        exact ⟨by rw [key, same], g, last, rfl⟩
      case isFalse =>
        obtain ⟨eq, emitted⟩ := groupKeys id k found
        exact ⟨eq, emitted.mono grows⟩
    · obtain ⟨id, known, eq⟩ := groups b mem
      exact ⟨id, by simp [Std.ExtTreeMap.mem_insert, known], eq⟩
    · refine nodup_map_snoc unique.groups fun b mem eq => fresh ?_
      obtain ⟨id, known, same⟩ := groups b mem
      rw [same, key] at eq
      rw [← (key_inj (by decide) (by decide) eq).2]
      exact known
  apply (h.grow grows rfl sound tracked ⟨rfl, rfl⟩).take
  exact ⟨g, last, ok⟩

/-- **A membership** of a known user. -/
theorem Inv.membership {store id user : String} {row : GroupMembership}
    {userKey groupKey : EntityKey} {provenance : Provenance}
    (h : Inv p T (⟨.groupMemberships store id, row⟩ :: todo) r)
    (here : store = p.config.identityStoreId) (member : row.memberId = some (.userId user))
    (known : T.users[user]? = some userKey) (knownGroup : T.groups[id]? = some groupKey)
    (fresh : (Subject.account userKey, groupKey) ∉ T.memberships) :
    Inv p { T with memberships := T.memberships.insert (.account userKey, groupKey) } todo
      { r with snapshot := { r.snapshot with
        memberships := r.snapshot.memberships ++ [⟨.account userKey, groupKey, provenance⟩] } } := by
  subst here
  generalize new : (⟨.account userKey, groupKey, provenance⟩ : Membership) = m
  have grows : Grows r.snapshot { r.snapshot with memberships := r.snapshot.memberships ++ [m] } :=
    ⟨fun _ m => m, fun _ m => m, List.subset_append_left _ _, fun _ m => m, fun _ m => m⟩
  have last : m ∈ r.snapshot.memberships ++ [m] :=
    List.mem_append_right _ (List.mem_singleton_self _)
  obtain ⟨user_eq, emitted⟩ := h.tracked.users user userKey known
  obtain ⟨group_eq, emittedGroup⟩ := h.tracked.groupKeys id groupKey knownGroup
  have joins : Joins p id row m := ⟨user, member, by rw [← new, user_eq], by rw [← new, group_eq]⟩
  have sound : Sound p r.log
      { r.snapshot with memberships := r.snapshot.memberships ++ [m] } := by
    refine ⟨h.sound.accounts, h.sound.groups, forall_mem_snoc h.sound.memberships
      ⟨⟨id, row, h.listed _ List.mem_cons_self, joins⟩, ?_⟩, h.sound.resources, h.sound.grants⟩
    rw [← new]
    exact ⟨emitted, emittedGroup⟩
  have tracked : Tracked p
      { T with memberships := T.memberships.insert (.account userKey, groupKey) }
      { r.snapshot with memberships := r.snapshot.memberships ++ [m] } := by
    obtain ⟨users, accounts, groupKeys, groups, memberships, grants, resources, targets,
      unique⟩ := h.tracked
    refine ⟨users, accounts, groupKeys, groups, forall_mem_snoc
      (fun m' mem => mem_insert_key.mpr (.inr (memberships m' mem))) ?_, grants, resources, targets,
      ⟨unique.accounts, unique.groups, unique.resources, ?_, unique.grants⟩⟩
    · rw [mem_insert_key, ← new]
      exact .inl rfl
    · refine nodup_map_snoc unique.memberships fun m' mem eq => fresh ?_
      rw [← new] at eq
      rw [← eq]
      exact memberships m' mem
  apply (h.grow grows rfl sound tracked ⟨rfl, rfl⟩).take
  exact ⟨m, last, joins⟩

/-- **A resource** whose key is new. -/
theorem Inv.resource {x : Resource} (h : Inv p T todo r) (owned : Owned p r.log x)
    (fresh : ¬ T.resource x.key) :
    Inv p { T with
      resource := fun key => T.resource key ∨ key = x.key
      targets := fun key => T.targets key ∨ key = x.key } todo
      { r with snapshot := { r.snapshot with resources := r.snapshot.resources ++ [x] } } := by
  have grows : Grows r.snapshot { r.snapshot with resources := r.snapshot.resources ++ [x] } :=
    ⟨fun _ m => m, fun _ m => m, fun _ m => m, List.subset_append_left _ _, fun _ m => m⟩
  have last : x ∈ r.snapshot.resources ++ [x] := List.mem_append_right _ (List.mem_singleton_self _)
  have sound : Sound p r.log { r.snapshot with resources := r.snapshot.resources ++ [x] } := by
    refine ⟨h.sound.accounts, h.sound.groups, h.sound.memberships,
      forall_mem_snoc h.sound.resources owned, fun g mem => ?_⟩
    exact (h.sound.grants g mem).mono (List.Subset.refl _) grows
  obtain ⟨users, accounts, groupKeys, groups, memberships, grants, resources, targets, unique⟩ :=
    h.tracked
  refine h.grow grows rfl sound ⟨users, accounts, groupKeys, groups, memberships, grants,
    forall_mem_snoc (fun y mem => .inl (resources y mem)) (.inr rfl), fun key mem => ?_,
    ⟨unique.accounts, unique.groups, ?_, unique.memberships, unique.grants⟩⟩ ⟨rfl, rfl⟩
  · rcases mem with before | rfl
    · obtain ⟨y, y_mem, eq⟩ := targets key before
      exact ⟨y, List.mem_append_left _ y_mem, eq⟩
    · exact ⟨x, last, rfl⟩
  · refine nodup_map_snoc unique.resources fun y mem eq => fresh ?_
    rw [← eq]
    exact resources y mem

/-- **A grant** whose identifier is new. -/
theorem Inv.grant {inst account arn name : String} {row : AccountAssignment} {g : Grant}
    (h : Inv p T (⟨.accountAssignments inst account arn, row⟩ :: todo) r)
    (here : inst = p.config.instanceArn) (allowed : account ∈ p.config.accounts)
    (target : T.targets (p.assignmentKey account arn)) (assigns : Assigns p account arn row g)
    (emitted : Emitted r.snapshot g.subject) (named : g.id = name) (fresh : name ∉ T.grants) :
    Inv p { T with grants := T.grants.insert name } todo
      { r with snapshot := { r.snapshot with grants := r.snapshot.grants ++ [g] } } := by
  subst here named
  have grows : Grows r.snapshot { r.snapshot with grants := r.snapshot.grants ++ [g] } :=
    ⟨fun _ m => m, fun _ m => m, fun _ m => m, fun _ m => m, List.subset_append_left _ _⟩
  have last : g ∈ r.snapshot.grants ++ [g] := List.mem_append_right _ (List.mem_singleton_self _)
  have sound : Sound p r.log { r.snapshot with grants := r.snapshot.grants ++ [g] } := by
    refine ⟨h.sound.accounts, h.sound.groups, h.sound.memberships, h.sound.resources,
      forall_mem_snoc h.sound.grants
        ⟨account, allowed, arn, row, h.listed _ List.mem_cons_self, assigns, ?_, emitted⟩⟩
    rw [assigns.resource]
    exact h.tracked.targets _ target
  obtain ⟨users, accounts, groupKeys, groups, memberships, grants, resources, targets, unique⟩ :=
    h.tracked
  have tracked : Tracked p { T with grants := T.grants.insert g.id }
      { r.snapshot with grants := r.snapshot.grants ++ [g] } := by
    refine ⟨users, accounts, groupKeys, groups, memberships, forall_mem_snoc
      (fun g' mem => mem_insert_key.mpr (.inr (grants g' mem))) (mem_insert_key.mpr (.inl rfl)),
      resources, targets,
      ⟨unique.accounts, unique.groups, unique.resources, unique.memberships, ?_⟩⟩
    · refine nodup_map_snoc unique.grants fun g' mem eq => fresh ?_
      rw [← eq]
      exact grants g' mem
  apply (h.grow grows rfl sound tracked ⟨rfl, rfl⟩).take
  exact ⟨g, last, assigns⟩

end Permesh.IdentityCenter

import Permesh.Laws.Entra.Lists

/-!
# Laws.Entra.Observed — a whole collection

No directory is listed before the tenant is proved. The snapshot shows what the rows of the lists
become, and it is complete exactly if it shows all of them (`collect_observed`).

The descriptions of the parts are put together along a whole collection (`gather_yields`), and what they
say of its lists is read off at the end. A list is complete if its pages ended; that the tenant has no
other objects is not known here.
-/

namespace Permesh.Entra

open Permesh.Json Permesh.Http Permesh.Lib

variable {p : Provider}

/-! ## The tenant -/

/-- The address of the organization. -/
def Provider.organization (p : Provider) : Option Url :=
  (p.client.crate.join p.client.origin "organization").map
    (p.client.crate.extendPairs · [("$select", "id")])

/-- The organization answers with one row, whose identifier is that of the tenant up to its case, and
names no other page. -/
def Proved (p : Provider) (w : Wire) : Prop :=
  ∃ url page wire, p.organization = some url ∧ p.client.request url w = (.ok page, wire) ∧
    ∃ response bytes raw row, p.client.net.server wire.budget.requests = .answered response ∧
      response.body MAX_BODY = .ok bytes ∧ p.client.decodePage bytes = some raw ∧
      raw.next = none ∧ raw.value = [row] ∧ Text.lowercase row.id = p.tenantId

theorem proveTenant_ok {c c' : Collection} (h : p.proveTenant c = (.ok (), c')) :
    Proved p c.wire := by
  unfold Provider.proveTenant at h
  split at h
  · cases h
  case h_2 url joined =>
    split at h
    · cases h
    case h_2 page wire answer =>
      obtain ⟨result, -⟩ := Prod.mk.inj h
      split at result
      · cases result
      case isFalse matching =>
        obtain ⟨response, bytes, raw, answered, read, decoded, next, value⟩ := attempts_ok answer
        simp only [next, value, List.length_map, Bool.or_eq_true, not_or, Bool.not_eq_true,
          Option.isSome_eq_false_iff, Option.isNone_iff_eq_none, bne_eq_false_iff_eq] at matching
        obtain ⟨⟨last, one⟩, named⟩ := matching
        obtain ⟨row, value_eq⟩ := List.length_eq_one_iff.mp one
        rw [value_eq] at named
        refine ⟨_, page, wire, ?_, answer, response, bytes, raw, row, answered, read, decoded, last,
          value_eq, by simpa using named⟩
        rw [Provider.organization, joined, Option.map_some]

/-- Proving the tenant requests the organization, and collects nothing. -/
theorem proveTenant_frame (c : Collection) : ∃ wire, (p.proveTenant c).2 = { c with wire := wire } ∧
    (wire.sent = c.wire.sent ∨ ∃ url, p.organization = some url ∧
      ∃ times ≤ 3, wire.sent = c.wire.sent ++ List.replicate times url) := by
  unfold Provider.proveTenant
  split
  · exact ⟨c.wire, rfl, .inl rfl⟩
  case h_2 url joined =>
    obtain ⟨times, le, sent⟩ := attempts_sent p.client
      (p.client.crate.extendPairs url [("$select", "id")]) 3 0 c.wire
    have organization : p.organization = some (p.client.crate.extendPairs url [("$select", "id")]) :=
      by rw [Provider.organization, joined, Option.map_some]
    split
    case h_1 failure wire answer =>
      refine ⟨wire, rfl, .inr ⟨_, organization, times, le, ?_⟩⟩
      rw [← sent]
      exact congrArg (·.2.sent) answer.symm
    case h_2 page wire answer =>
      refine ⟨wire, rfl, .inr ⟨_, organization, times, le, ?_⟩⟩
      rw [← sent]
      exact congrArg (·.2.sent) answer.symm

/-! ## Member rows -/

/-- The subject that a member row names. -/
def subjectOf (p : Provider) (o : Object) : Option Subject :=
  if o.objectType = some graphUser then some (.account (objectKey p.id p.tenantId o.id))
  else if o.objectType = some graphGroup then some (.group (groupKey p.id p.tenantId o.id))
  else none

theorem graphUser_ne_graphGroup : graphUser ≠ graphGroup := by decide

theorem subjectOf_account {o : Object} {key : EntityKey} :
    subjectOf p o = some (.account key) ↔
      o.objectType = some graphUser ∧ key = objectKey p.id p.tenantId o.id := by
  unfold subjectOf
  split
  case isTrue user => simp [user, eq_comm]
  case isFalse user => split <;> simp [user]

theorem subjectOf_group {o : Object} {key : EntityKey} :
    subjectOf p o = some (.group key) ↔
      o.objectType = some graphGroup ∧ key = groupKey p.id p.tenantId o.id := by
  unfold subjectOf
  split
  case isTrue user => simp [user, graphUser_ne_graphGroup]
  case isFalse user =>
    split
    case isTrue group => simp [group, eq_comm]
    case isFalse group => simp [group]

/-- What joins a group: a user that is kept, or a group that is kept. -/
theorem judge_joins {c : Collection} {o : Object} {subject : Subject} :
    p.judge c o = .joins subject ↔
      (o.objectType = some graphUser ∧ c.accounts[o.id]? = some false ∧
        subject = .account (objectKey p.id p.tenantId o.id)) ∨
      (o.objectType = some graphGroup ∧ o.id ∈ c.groups ∧
        subject = .group (groupKey p.id p.tenantId o.id)) := by
  unfold Provider.judge
  split
  case isTrue user => simp [user, graphUser_ne_graphGroup, @eq_comm _ subject]
  case isFalse user =>
    split
    case isTrue group => simp [group, graphUser_ne_graphGroup.symm, @eq_comm _ subject]
    case isFalse group =>
      constructor
      · intro joins
        split at joins
        · cases joins
        split at joins
        · cases joins
        · cases joins
      · rintro (⟨typed, known, -⟩ | ⟨typed, known, -⟩)
        · exact absurd ⟨typed, known⟩ user
        · exact absurd ⟨typed, known⟩ group

theorem judge_subject {c : Collection} {o : Object} {subject : Subject}
    (joins : p.judge c o = .joins subject) : subjectOf p o = some subject := by
  obtain ⟨user, -, rfl⟩ | ⟨group, -, rfl⟩ := judge_joins.mp joins
  · exact subjectOf_account.mpr ⟨user, rfl⟩
  · exact subjectOf_group.mpr ⟨group, rfl⟩

theorem judge_misses {c : Collection} {o : Object} :
    (∀ code, p.judge c o ≠ .misses code) ↔
      o.objectType = some graphServicePrincipal ∨ ∃ subject, p.judge c o = .joins subject := by
  unfold Provider.judge
  split
  · simp
  split
  · simp
  split
  case isTrue principal => simp [principal]
  case isFalse principal =>
    split
    · simp [principal]
    · simp [principal]

/-- A row that names the subject of a row that joins, joins. -/
theorem joins_of_subject {c : Collection} {o o' : Object} {subject : Subject}
    (names : subjectOf p o = some subject) (joins : p.judge c o' = .joins subject) :
    p.judge c o = .joins subject := by
  obtain ⟨-, known, rfl⟩ | ⟨-, known, rfl⟩ := judge_joins.mp joins
  · obtain ⟨user, same⟩ := subjectOf_account.mp names
    rw [objectKey_inj same] at known ⊢
    exact judge_joins.mpr (.inl ⟨user, known, rfl⟩)
  · obtain ⟨group, same⟩ := subjectOf_group.mp names
    rw [groupKey_inj same] at known ⊢
    exact judge_joins.mpr (.inr ⟨group, known, rfl⟩)

/-! ## The run -/

theorem start_inAccounts (w wire : Wire) : InAccounts p [] [] [] { p.start w with wire := wire } where
  accounted := by
    refine ⟨.refl _, .nil, rfl, rfl, List.nodup_nil, ?_, ?_⟩
    · intro id service
      simp [Provider.start]
    · exact ⟨fun _ => ⟨fun _ mem => (by cases mem), rfl⟩, fun _ => rfl⟩
  groups := ⟨rfl, rfl, rfl⟩
  memberships := ⟨rfl, rfl, rfl⟩
  visited := ⟨rfl, fun _ mem => (by cases mem)⟩

theorem proveTenant_yields (w : Wire) : Yields (· = p.start w) p.proveTenant fun _ c =>
    ∃ kept pairs, InAccounts p [] kept pairs c := by
  rintro c _ c' rfl run
  obtain ⟨wire, frame, -⟩ := proveTenant_frame (p := p) (p.start w)
  have same : c' = { p.start w with wire := wire } := frame ▸ (congrArg Prod.snd run).symm
  subst same
  exact ⟨[], [], start_inAccounts w wire⟩

/-- The scopes of the directories. -/
def directoryScopes (p : Provider) : List Scope :=
  [.users] ++ (if p.includeServicePrincipals then [.servicePrincipals] else []) ++ [.groups]

/-- A collection that has succeeded: first the directories, then the members of each group. -/
structure Gathered (p : Provider) (kept : List AccountRow) (pairs : List (Identity × Account))
    (groups : List Object) (fixed c : Collection) : Prop where
  directories : InGroups p (directoryScopes p) kept pairs groups fixed
  members : InMembers p (directoryScopes p ++ fixed.groups.toList.map (.members ·.1)) kept groups
    fixed c

/-- The members of each group are collected. -/
theorem all_members_yields (observedAt : String) :
    Yields (fun c => ∃ kept pairs groups, InGroups p (directoryScopes p) kept pairs groups c)
      (do (← get).groups.toList.forM (p.members observedAt) : Op Unit)
      fun _ c => ∃ kept pairs groups fixed, Gathered p kept pairs groups fixed c := by
  refine Yields.get.bind fun fixed => ?_
  rintro c _ c' ⟨⟨kept, pairs, groups, h⟩, rfl⟩ run
  refine ⟨kept, pairs, groups, fixed, h, ?_⟩
  refine Yields.forM (I := fun before c => InMembers p
    (directoryScopes p ++ before.map (.members ·.1)) kept groups fixed c) _ ?_ fixed _ c' ?_ run
  · intro before entry mem
    have key : entry.2.key = groupKey p.id p.tenantId entry.1 := by
      obtain ⟨o, -, named, same⟩ := (h.grouped.known entry.1 entry.2).mp
        (Std.ExtTreeMap.mem_toList_iff_getElem?_eq_some.mp mem)
      rw [same, ← named]
      rfl
    rw [List.map_append, List.map_singleton, ← List.append_assoc]
    exact members_yields observedAt key _ kept groups fixed
  · rw [List.map_nil, List.append_nil]
    exact h.enter

theorem gather_yields (observedAt : String) (w : Wire) :
    Yields (· = p.start w) (p.gather observedAt) fun _ c =>
      ∃ kept pairs groups fixed, Gathered p kept pairs groups fixed c := by
  unfold Provider.gather
  refine (proveTenant_yields w).bind fun _ => ?_
  refine (directory_yields false []).bind fun _ => ?_
  have rest (scopes : List Scope) (eq : directoryScopes p = scopes ++ [.groups]) :
      Yields (fun c => ∃ kept pairs, InAccounts p scopes kept pairs c)
        (do p.groupDirectory; (← get).groups.toList.forM (p.members observedAt) : Op Unit)
        fun _ c => ∃ kept pairs groups fixed, Gathered p kept pairs groups fixed c := by
    have groups := groupDirectory_yields (p := p) scopes
    rw [← eq] at groups
    exact groups.bind fun _ => all_members_yields observedAt
  cases included : p.includeServicePrincipals with
  | false =>
    apply rest _
    rw [directoryScopes, included]
    rfl
  | true =>
    refine (directory_yields true _).bind fun _ => rest _ ?_
    rw [directoryScopes, included]
    rfl

/-! ## The snapshot -/

/-- The subject is a user or a group that is kept. -/
def Kept (p : Provider) (kept : List AccountRow) (groups : List Object) : Subject → Prop
  | .account key => ∃ o : Object, (false, o) ∈ kept ∧ key = objectKey p.id p.tenantId o.id
  | .group key => ∃ o ∈ groups, key = groupKey p.id p.tenantId o.id

/-- The membership that a member row stands for. -/
def Names (p : Provider) (row : MemberRow) (m : Membership) : Prop :=
  subjectOf p row.2 = some m.member ∧ m.group = groupKey p.id p.tenantId row.1

/-- What a snapshot shows of these lists, if these rows of theirs are kept. -/
structure Observed (p : Provider) (visits : List Visit) (kept : List AccountRow)
    (pairs : List (Identity × Account)) (groups : List Object) (s : Snapshot) : Prop where
  /-- The directories are listed, and the members of each group that is kept. -/
  listed : ∃ ids : List String, ids.Perm (groups.map Object.id) ∧
    Listed p (directoryScopes p ++ ids.map .members) visits
  sub : kept.Sublist (accountRows visits)
  converts : List.Forall₂ (Converts p) kept pairs
  matched : List.Forall₂ (fun row => PairOf p row.2.id) kept pairs
  identities : s.identities.Perm (pairs.map Prod.fst)
  accounts : s.accounts.Perm (pairs.map Prod.snd)
  subGroups : groups.Sublist (groupRows visits)
  shown : s.groups.Perm (groups.map (toGroup p))
  once : (kept.map (·.2.id) ++ groups.map Object.id).Nodup
  lower : ∀ id ∈ kept.map (·.2.id) ++ groups.map Object.id, Text.lowercase id = id
  joins : ∀ m ∈ s.memberships, Kept p kept groups m.member ∧
    (∃ o ∈ groups, m.group = groupKey p.id p.tenantId o.id) ∧ ∃ row ∈ memberRows visits, Names p row m
  unique : (s.memberships.map fun m => (m.member, m.group)).Nodup
  complete : s.complete = true ↔ (∀ v ∈ visits, Ended p.client v.initial v.wire) ∧
    kept = accountRows visits ∧ groups = groupRows visits ∧
    ∀ row ∈ memberRows visits, row.2.objectType = some graphServicePrincipal ∨
      ∃ m ∈ s.memberships, Names p row m

theorem Listed.lower {scopes : List Scope} {visits : List Visit} (h : Listed p scopes visits)
    {v : Visit} (mem : v ∈ visits) : ∀ o ∈ v.list.rows, Text.lowercase o.id = o.id := by
  rw [(h.real v mem).returned]
  exact (listing_distinct p.client v.initial v.wire).2

theorem Listed.lower_accounts {scopes : List Scope} {visits : List Visit}
    (h : Listed p scopes visits) : ∀ row ∈ accountRows visits, Text.lowercase row.2.id = row.2.id := by
  intro row mem
  obtain ⟨v, listed, there⟩ := List.mem_flatMap.mp mem
  unfold Visit.accountRows at there
  split at there
  · obtain ⟨o, row_mem, rfl⟩ := List.mem_map.mp there
    exact h.lower listed o row_mem
  · obtain ⟨o, row_mem, rfl⟩ := List.mem_map.mp there
    exact h.lower listed o row_mem
  · cases there

theorem Listed.lower_groups {scopes : List Scope} {visits : List Visit}
    (h : Listed p scopes visits) : ∀ o ∈ groupRows visits, Text.lowercase o.id = o.id := by
  intro o mem
  obtain ⟨v, listed, there⟩ := List.mem_flatMap.mp mem
  unfold Visit.groupRows at there
  split at there
  · exact h.lower listed o there
  · cases there

theorem Listed.complete {scopes : List Scope} {visits : List Visit} (h : Listed p scopes visits) :
    Complete visits ↔ ∀ v ∈ visits, Ended p.client v.initial v.wire := by
  apply forall₂_congr
  intro v mem
  rw [(h.real v mem).returned]
  exact listing_ended p.client v.initial v.wire

variable {kept : List AccountRow} {pairs : List (Identity × Account)} {groups : List Object}
  {fixed c : Collection}

/-- No identifier occurs twice. -/
theorem InGroups.ids_nodup {scopes : List Scope} (h : InGroups p scopes kept pairs groups c) :
    (kept.map (·.2.id) ++ groups.map Object.id).Nodup := by
  refine List.nodup_append.mpr ⟨h.once, (h.grouped.sub.map _).nodup h.distinct, ?_⟩
  intro a account b group same
  obtain ⟨⟨service, o⟩, mem, rfl⟩ := List.mem_map.mp account
  obtain ⟨o', mem', rfl⟩ := List.mem_map.mp group
  apply h.grouped.apart o' mem'
  rw [Std.ExtTreeMap.mem_iff_isSome_getElem?, Option.isSome_iff_exists]
  exact ⟨service, (h.known o'.id service).mpr ⟨o, mem, same⟩⟩

theorem InGroups.mem_groups {scopes : List Scope} (h : InGroups p scopes kept pairs groups c)
    (id : String) : id ∈ c.groups ↔ id ∈ groups.map Object.id := by
  rw [Std.ExtTreeMap.mem_iff_isSome_getElem?, Option.isSome_iff_exists]
  constructor
  · rintro ⟨g, there⟩
    obtain ⟨o, mem, rfl, -⟩ := (h.grouped.known id g).mp there
    exact List.mem_map_of_mem mem
  · intro mem
    obtain ⟨o, there, rfl⟩ := List.mem_map.mp mem
    exact ⟨toGroup p o, (h.grouped.known o.id _).mpr ⟨o, there, rfl, rfl⟩⟩

/-- The groups of the map are those that are kept. -/
theorem InGroups.keys_perm {scopes : List Scope} (h : InGroups p scopes kept pairs groups c) :
    (c.groups.toList.map Prod.fst).Perm (groups.map Object.id) := by
  rw [Std.ExtTreeMap.map_fst_toList_eq_keys]
  refine (List.perm_ext_iff_of_nodup Std.ExtTreeMap.nodup_keys
    ((h.grouped.sub.map _).nodup h.distinct)).mpr fun id => ?_
  rw [Std.ExtTreeMap.mem_keys]
  exact h.mem_groups id

/-- What joins a group is kept. -/
theorem InGroups.kept_of_joins {scopes : List Scope} (h : InGroups p scopes kept pairs groups c)
    {o : Object} {subject : Subject} (joins : p.judge c o = .joins subject) :
    Kept p kept groups subject := by
  obtain ⟨-, known, rfl⟩ | ⟨-, known, rfl⟩ := judge_joins.mp joins
  · obtain ⟨o', mem, same⟩ := (h.known o.id false).mp known
    exact ⟨o', mem, by rw [same]⟩
  · obtain ⟨o', mem, same⟩ := List.mem_map.mp ((h.mem_groups o.id).mp known)
    exact ⟨o', mem, by rw [same]⟩

/-- A row of the members of a group that is kept. -/
theorem Gathered.member_row (h : Gathered p kept pairs groups fixed c) {row : MemberRow}
    (mem : row ∈ memberRows c.visits) : ∃ o ∈ groups, o.id = row.1 := by
  obtain ⟨v, visited, there⟩ := List.mem_flatMap.mp mem
  unfold Visit.memberRows at there
  split at there
  case h_1 id scope =>
    obtain ⟨o, -, rfl⟩ := List.mem_map.mp there
    have among : Scope.members id ∈ directoryScopes p ++ fixed.groups.toList.map (.members ·.1) := by
      rw [← h.members.listed.scopes, ← scope]
      exact List.mem_map_of_mem visited
    rcases List.mem_append.mp among with among | among
    · simp [directoryScopes] at among
    · obtain ⟨entry, entry_mem, eq⟩ := List.mem_map.mp among
      cases eq
      exact List.mem_map.mp (h.directories.keys_perm.mem_iff.mp (List.mem_map_of_mem entry_mem))
  case h_2 => cases there

/-- A membership of the snapshot joins what a member row names. -/
theorem Gathered.joins (h : Gathered p kept pairs groups fixed c) {m : Membership}
    (mem : m ∈ c.snapshot.memberships) : ∃ row ∈ memberRows c.visits,
      p.judge fixed row.2 = .joins m.member ∧ m.group = groupKey p.id p.tenantId row.1 :=
  (h.members.joined.joined _ _).mp ((h.members.joined.listed _).mpr
    (List.mem_map.mpr ⟨m, mem, rfl⟩))

/-- The row became a membership, or it is that of a service principal. -/
theorem Gathered.accounted_for (h : Gathered p kept pairs groups fixed c) {row : MemberRow}
    (mem : row ∈ memberRows c.visits) : (∀ code, p.judge fixed row.2 ≠ .misses code) ↔
      row.2.objectType = some graphServicePrincipal ∨
        ∃ m ∈ c.snapshot.memberships, Names p row m := by
  refine judge_misses.trans (or_congr_right ?_)
  constructor
  · rintro ⟨subject, joins⟩
    have there := (h.members.joined.joined subject (groupKey p.id p.tenantId row.1)).mpr
      ⟨row, mem, joins, rfl⟩
    obtain ⟨m, m_mem, eq⟩ := List.mem_map.mp ((h.members.joined.listed _).mp there)
    obtain ⟨member, group⟩ := Prod.mk.inj eq
    exact ⟨m, m_mem, (judge_subject joins).trans (congrArg some member.symm), group⟩
  · rintro ⟨m, m_mem, names, -⟩
    obtain ⟨row', -, joins, -⟩ := h.joins m_mem
    exact ⟨m.member, joins_of_subject names joins⟩

theorem Gathered.observed (core : Core) (h : Gathered p kept pairs groups fixed c) :
    Observed p c.visits kept pairs groups (core.sort c.snapshot) := by
  have memberships := core.memberships_perm c.snapshot.memberships
  obtain ⟨identities, accounts, groups_eq⟩ := h.members.joined.snapshot
  obtain ⟨accountRows_eq, groupRows_eq⟩ := h.members.rows
  have listed := h.members.listed
  constructor
  · refine ⟨fixed.groups.toList.map Prod.fst, h.directories.keys_perm, ?_⟩
    rw [List.map_map]
    exact listed
  · rw [accountRows_eq]
    exact h.directories.sub
  · exact h.directories.converts
  · exact h.directories.converts.imp fun _ _ => Converts.pairOf
  · apply (core.identities_perm _).trans
    rw [identities, h.directories.identities]
  · apply (core.accounts_perm _).trans
    rw [accounts, h.directories.accounts]
  · rw [groupRows_eq]
    exact h.directories.grouped.sub
  · apply (core.groups_perm _).trans
    rw [groups_eq, h.directories.grouped.groups]
  · exact h.directories.ids_nodup
  · intro id mem
    rcases List.mem_append.mp mem with mem | mem
    · obtain ⟨row, row_mem, rfl⟩ := List.mem_map.mp mem
      exact h.directories.listed.lower_accounts row (h.directories.sub.subset row_mem)
    · obtain ⟨o, o_mem, rfl⟩ := List.mem_map.mp mem
      exact h.directories.listed.lower_groups o (h.directories.grouped.sub.subset o_mem)
  · intro m mem
    obtain ⟨row, row_mem, joins, group⟩ := h.joins (memberships.mem_iff.mp mem)
    obtain ⟨o, o_mem, named⟩ := h.member_row row_mem
    exact ⟨h.directories.kept_of_joins joins, ⟨o, o_mem, by rw [group, named]⟩, row, row_mem,
      judge_subject joins, group⟩
  · exact (memberships.map _).nodup_iff.mpr h.members.joined.once
  · apply h.members.joined.complete.trans
    rw [listed.complete, accountRows_eq, groupRows_eq, and_assoc, and_assoc]
    refine and_congr_right fun _ => and_congr_right fun _ => and_congr_right fun _ => ?_
    refine forall₂_congr fun row mem => (h.accounted_for mem).trans (or_congr_right ?_)
    exact exists_congr fun m => and_congr_left fun _ => memberships.mem_iff.symm

/-- **No directory is listed before the tenant is proved**, and the snapshot of a collection shows
what the rows of its lists become: it is complete exactly if every list has ended and every row is
shown, or is that of a member that is a service principal. -/
theorem collect_observed (p : Provider) (core : Core) (observedAt : String) (w : Wire) :
    (¬ Proved p w → ∃ failure c, p.gather observedAt (p.start w) = (.error failure, c) ∧
      p.collect core observedAt w = (.error failure, c.wire) ∧ c.visits = [] ∧
      (c.wire.sent = w.sent ∨ ∃ url, p.organization = some url ∧
        ∃ times ≤ 3, c.wire.sent = w.sent ++ List.replicate times url)) ∧
    ∀ c, p.gather observedAt (p.start w) = (.ok (), c) →
      (∃ kept pairs groups, Observed p c.visits kept pairs groups (core.sort c.snapshot)) ∧
      p.collect core observedAt w =
        (if core.validate (core.sort c.snapshot) = false then .error (error "malformed")
          else .ok (core.sort c.snapshot), c.wire) := by
  constructor
  · intro unproved
    obtain ⟨wire, frame, sent⟩ := proveTenant_frame (p := p) (p.start w)
    cases run : p.proveTenant (p.start w) with
    | mk result c =>
      rw [run] at frame
      obtain rfl : c = { p.start w with wire := wire } := frame
      cases result with
      | ok _ => exact absurd (proveTenant_ok run) unproved
      | error failure =>
        have gathered : p.gather observedAt (p.start w) =
            (.error failure, { p.start w with wire := wire }) := by
          unfold Provider.gather
          show (p.proveTenant >>= _ : Op Unit).run (p.start w) = _
          rw [ExceptT.run_bind, run_bind]
          change p.proveTenant.run (p.start w) = _ at run
          rw [run]
          rfl
        refine ⟨failure, _, gathered, ?_, rfl, sent⟩
        unfold Provider.collect
        rw [gathered]
  · intro c run
    obtain ⟨kept, pairs, groups, fixed, h⟩ := gather_yields observedAt w _ _ c rfl run
    refine ⟨⟨kept, pairs, groups, h.observed core⟩, ?_⟩
    unfold Provider.collect
    rw [run]

end Permesh.Entra

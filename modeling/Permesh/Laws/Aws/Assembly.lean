import Permesh.Laws.Aws.Portions

/-!
# Laws.Aws.Assembly — the sum of the portions

Behind the last role the snapshot holds the managed policies and the portions of the principals: the
groups whose name is theirs alone, the users and the roles (`assembled`). If nothing was warned of,
every row is one of them.

The loops over groups, users and roles are one loop over principals (`Inventory.loop`), whose invariant
is that the snapshot is the managed policies and the portions so far. The converse, that a warning
means a row was left out, is not claimed: a warning may also come from a page.
-/

namespace Permesh.Aws

open Permesh.Lib

/-! ## Loops over principals -/

section

variable (p : AwsProvider) (policies : Std.ExtTreeMap String Resource)
  (names : Std.ExtTreeMap String EntityKey) (provenance : Provenance)

/-- A state within the limit. -/
def bounded (s : State) : Except ProviderError State :=
  if total s.snapshot > MAX_ROWS then .error (error "limit") else .ok s

/-- The snapshot so far is the sum of the portions of some principals. -/
structure Inventory (start : Snapshot) (xs : List Principal) (s : State) : Prop where
  snapshot : s.snapshot =
    xs.foldl (fun t x => plus t (portion p policies names provenance x).snapshot) start
  bound : xs ≠ [] → total s.snapshot ≤ MAX_ROWS
  clean : s.warnings = ∅ → ∀ x ∈ xs, (portion p policies names provenance x).warnings = ∅

variable {p policies names provenance}

theorem Inventory.take {start : Snapshot} {xs : List Principal} {s s' : State} {x : Principal}
    (h : Inventory p policies names provenance start xs s)
    (ok : bounded (s.plus (portion p policies names provenance x)) = .ok s') :
    Inventory p policies names provenance start (xs ++ [x]) s' ∧
      (s'.warnings = ∅ → s.warnings = ∅) := by
  unfold bounded at ok
  split at ok
  · cases ok
  case isFalse small =>
    cases ok
    refine ⟨⟨?_, fun _ => Nat.le_of_not_lt small, fun clean x' mem => ?_⟩,
      fun clean => (union_eq_empty.mp clean).1⟩
    · rw [List.foldl_append, ← h.snapshot]
      rfl
    · obtain ⟨before, here⟩ := union_eq_empty.mp clean
      rcases List.mem_append.mp mem with mem | mem
      · exact h.clean before x' mem
      · rw [List.mem_singleton.mp mem]
        exact here

theorem Inventory.nil (s : State) : Inventory p policies names provenance s.snapshot [] s :=
  ⟨rfl, fun ne => absurd rfl ne, fun _ => nofun⟩

/-- Other warnings, if they are not fewer. -/
theorem Inventory.rewarn {start : Snapshot} {xs : List Principal} {s : State}
    {w : Std.ExtTreeSet String} (h : Inventory p policies names provenance start xs s)
    (more : w = ∅ → s.warnings = ∅) :
    Inventory p policies names provenance start xs { s with warnings := w } :=
  ⟨h.snapshot, h.bound, fun none => h.clean (more none)⟩

/-- The lists of a sum. -/
theorem Inventory.lists {start : Snapshot} {xs : List Principal} {s : State}
    (h : Inventory p policies names provenance start xs s) :
    s.snapshot.accounts = start.accounts ++ xs.flatMap Principal.accounts ∧
    s.snapshot.groups = start.groups ++ xs.flatMap Principal.groups ∧
    s.snapshot.memberships = start.memberships ++
      xs.flatMap (fun x => (portion p policies names provenance x).snapshot.memberships) ∧
    s.snapshot.resources = start.resources ++
      xs.flatMap (fun x => (portion p policies names provenance x).snapshot.resources) ∧
    s.snapshot.grants = start.grants ++
      xs.flatMap fun x => (portion p policies names provenance x).snapshot.grants := by
  have accounts (x : Principal) :
      (portion p policies names provenance x).snapshot.accounts = x.accounts :=
    (portion_holds p policies names provenance x).choose_spec.accounts
  have groups (x : Principal) :
      (portion p policies names provenance x).snapshot.groups = x.groups :=
    (portion_holds p policies names provenance x).choose_spec.groups
  have sum {α : Type} (read : Snapshot → List α)
      (additive : ∀ s t, read (plus s t) = read s ++ read t) : read s.snapshot = read start ++
        xs.flatMap fun x => read (portion p policies names provenance x).snapshot := by
    rw [h.snapshot]
    exact sum_read read additive _ start xs
  refine ⟨?_, ?_, sum _ fun _ _ => rfl, sum _ fun _ _ => rfl, sum _ fun _ _ => rfl⟩
  · rw [sum Snapshot.accounts fun _ _ => rfl]
    simp only [accounts]
  · rw [sum Snapshot.groups fun _ _ => rfl]
    simp only [groups]

/-- The snapshot before the first principal. -/
def base (p : AwsProvider) (policies : Std.ExtTreeMap String Resource) : Snapshot :=
  { Snapshot.new p.id with
    limitations := VISIBILITY
    resources := values policies }

section

variable {xs : List Principal} {s : State}
  (h : Inventory p policies names provenance (base p policies) xs s)

include h

theorem Inventory.mem_accounts {a : Account} :
    a ∈ s.snapshot.accounts ↔ ∃ x ∈ xs, a ∈ x.accounts := by
  rw [h.lists.1]
  exact List.mem_flatMap

theorem Inventory.mem_groups {g : Group} : g ∈ s.snapshot.groups ↔ ∃ x ∈ xs, g ∈ x.groups := by
  rw [h.lists.2.1]
  exact List.mem_flatMap

theorem Inventory.mem_memberships {m : Membership} : m ∈ s.snapshot.memberships ↔
    ∃ x ∈ xs, ∃ n ∈ x.joins, ∃ k, names[n]? = some k ∧ m = ⟨x.subject, k, provenance⟩ := by
  have each (x : Principal) : m ∈ (portion p policies names provenance x).snapshot.memberships ↔
      ∃ n ∈ x.joins, ∃ k, names[n]? = some k ∧ m = ⟨x.subject, k, provenance⟩ := by
    obtain ⟨found, holds⟩ := portion_holds p policies names provenance x
    rw [holds.memberships, List.mem_map]
    constructor
    · rintro ⟨k, joined, rfl⟩
      obtain ⟨n, joins, named⟩ := List.mem_filterMap.mp joined
      exact ⟨n, joins, k, named, rfl⟩
    · rintro ⟨n, joins, k, named, rfl⟩
      exact ⟨k, List.mem_filterMap.mpr ⟨n, joins, named⟩, rfl⟩
  rw [h.lists.2.2.1]
  apply List.mem_flatMap.trans
  simp only [each]

theorem Inventory.mem_resources {r : Resource} : r ∈ s.snapshot.resources ↔
    (∃ arn : String, policies[arn]? = some r) ∨
      ∃ x ∈ xs, r ∈ (portion p policies names provenance x).snapshot.resources := by
  rw [h.lists.2.2.2.1, List.mem_append, List.mem_flatMap]
  exact or_congr_left mem_values

theorem Inventory.mem_grants {g : Grant} : g ∈ s.snapshot.grants ↔
    ∃ x ∈ xs, g ∈ (portion p policies names provenance x).snapshot.grants := by
  rw [h.lists.2.2.2.2]
  exact List.mem_flatMap

end

/-- **The rule of the loops**: each row is passed over, or the portion of its principal is added. -/
theorem Inventory.loop {β : Type} {principal : β → Option Principal} {skip : State → State}
    {passed : Prop} {step : State → β → Except ProviderError State} {start : Snapshot}
    {xs : List Principal} {s s' : State} {rows : List β}
    (step_eq : ∀ s e, step s e = match principal e with
      | none => .ok (skip s)
      | some x => bounded (s.plus (portion p policies names provenance x)))
    (same : ∀ s, (skip s).snapshot = s.snapshot)
    (quiet : ∀ s, (skip s).warnings = ∅ → s.warnings = ∅ ∧ passed)
    (h : Inventory p policies names provenance start xs s) (ok : rows.foldlM step s = .ok s') :
    Inventory p policies names provenance start (xs ++ rows.filterMap principal) s' ∧
      (s'.warnings = ∅ → s.warnings = ∅ ∧ ∀ e ∈ rows, passed ∨ (principal e).isSome = true) := by
  refine foldlM_rule (fun before t =>
    Inventory p policies names provenance start (xs ++ before.filterMap principal) t ∧
      (t.warnings = ∅ → s.warnings = ∅ ∧ ∀ e ∈ before, passed ∨ (principal e).isSome = true))
    ⟨?_, fun clean => ⟨clean, nofun⟩⟩ ?_ ok
  · rwa [List.filterMap_nil, List.append_nil]
  rintro before e t t' ⟨inv, clean⟩ ok
  rw [step_eq] at ok
  rw [List.filterMap_append]
  have extend (quiet : t.warnings = ∅) (here : passed ∨ (principal e).isSome = true) :
      s.warnings = ∅ ∧ ∀ e' ∈ before ++ [e], passed ∨ (principal e').isSome = true := by
    refine ⟨(clean quiet).1, fun e' mem => ?_⟩
    rcases List.mem_append.mp mem with mem | mem
    · exact (clean quiet).2 e' mem
    · rw [List.mem_singleton.mp mem]
      exact here
  cases he : principal e with
  | none =>
    rw [he] at ok
    cases ok
    rw [List.filterMap_cons_none he, List.filterMap_nil, List.append_nil]
    refine ⟨⟨(same t).trans inv.snapshot, fun ne => (same t).symm ▸ inv.bound ne,
      fun none => inv.clean (quiet t none).1⟩, fun none => ?_⟩
    obtain ⟨before, passed⟩ := quiet t none
    exact extend before (.inl passed)
  | some x =>
    rw [he] at ok
    obtain ⟨next, quiet⟩ := inv.take ok
    rw [List.filterMap_cons_some he, List.filterMap_nil, ← List.append_assoc]
    exact ⟨next, fun none => extend (quiet none) (.inr (by rw [he]; rfl))⟩

end

/-! ## Principals -/

section

variable (p : AwsProvider) (policies : Std.ExtTreeMap String Resource)
  (names : Std.ExtTreeMap String EntityKey) (provenance : Provenance)

/-- The group of a row that was staged, if its name is its own. -/
def groupPrincipal (e : String × EntityKey × GroupDetail) : Option Principal :=
  if names[e.1]? = some e.2.1 then
    some (.group e.2.1 e.1 (e.2.2.attachedManagedPolicies.getD []) (e.2.2.groupPolicyList.getD []))
  else none

def userPrincipal (e : String × UserDetail) : Option Principal :=
  (p.named "AIDA" "user" e.1 e.2.userName e.2.arn).map fun name =>
    .account (p.userKey e.1) name (e.2.groupList.getD []) (e.2.attachedManagedPolicies.getD [])
      (e.2.userPolicyList.getD [])

def rolePrincipal (e : String × RoleDetail) : Option Principal :=
  (p.named "AROA" "role" e.1 e.2.roleName e.2.arn).map fun name =>
    .account (p.roleKey e.1) name [] (e.2.attachedManagedPolicies.getD [])
      (e.2.rolePolicyList.getD [])

theorem union_empty (w : Std.ExtTreeSet String) : w ∪ ∅ = w :=
  Std.ExtTreeSet.ext_mem fun code => by simp [Std.ExtTreeSet.mem_union_iff]

/-- **A principal adds its portion.** -/
theorem attachments_entered (s : State) (x : Principal) :
    p.attachments policies provenance (s.plus (entered p names provenance x)) x.subject x.attached
      x.inline = bounded (s.plus (portion p policies names provenance x)) :=
  attachments_plus p policies provenance s (entered p names provenance x) x

theorem group_eq (s : State) (e : String × EntityKey × GroupDetail) :
    p.group policies provenance names s e = match groupPrincipal names e with
      | none => .ok s
      | some x => bounded (s.plus (portion p policies names provenance x)) := by
  obtain ⟨name, k, v⟩ := e
  unfold AwsProvider.group groupPrincipal
  dsimp only
  by_cases own : names[name]? = some k
  · rw [if_pos own, if_neg (not_not_intro own)]
    dsimp only
    rw [← attachments_entered]
    have entry : s.plus (entered p names provenance (.group k name
        (v.attachedManagedPolicies.getD []) (v.groupPolicyList.getD []))) =
        { s with snapshot := { s.snapshot with groups := s.snapshot.groups ++ [⟨k, name⟩] } } := by
      simp [State.plus, plus, entered, nothing, Snapshot.new, union_empty]
    rw [entry]
    rfl
  · rw [if_neg own, if_pos own]

/-- The account of a principal, with its memberships. -/
theorem account_entered (s : State) (k : EntityKey) (name : String) (joins : List String)
    (attached : List AttachedPolicy) (inline : List PolicyDetail) :
    s.plus (entered p names provenance (.account k name joins attached inline)) =
      joins.foldl (AwsProvider.join provenance names k)
        { s with snapshot := { s.snapshot with
          accounts := s.snapshot.accounts ++ [AwsProvider.principalAccount k name] } } := by
  have start : ({ s with snapshot := { s.snapshot with
      accounts := s.snapshot.accounts ++ [AwsProvider.principalAccount k name] } } : State) =
      s.plus { nothing p with snapshot := { (nothing p).snapshot with
        accounts := [AwsProvider.principalAccount k name] } } := by
    simp [State.plus, plus, nothing, Snapshot.new, union_empty]
  rw [start]
  exact (List.foldl_hom s.plus fun t n => join_plus names provenance k s t n).symm

theorem user_eq (s : State) (e : String × UserDetail) :
    p.user policies provenance names s e = match userPrincipal p e with
      | none => .ok (s.warn "malformed")
      | some x => bounded (s.plus (portion p policies names provenance x)) := by
  unfold AwsProvider.user userPrincipal
  dsimp only
  cases named : p.named "AIDA" "user" e.1 e.2.userName e.2.arn with
  | none => rfl
  | some name =>
    dsimp only [Option.map_some]
    rw [← attachments_entered, account_entered]
    rfl

theorem role_eq (s : State) (e : String × RoleDetail) :
    p.role policies provenance s e = match rolePrincipal p e with
      | none => .ok (s.warn "malformed")
      | some x => bounded (s.plus (portion p policies names provenance x)) := by
  unfold AwsProvider.role rolePrincipal
  dsimp only
  cases named : p.named "AROA" "role" e.1 e.2.roleName e.2.arn with
  | none => rfl
  | some name =>
    dsimp only [Option.map_some]
    rw [← attachments_entered, account_entered]
    rfl

end

/-! ## Keys -/

section

variable (p : AwsProvider)

theorem key_injective (kind : String) : Function.Injective fun id =>
    p.key (kind ++ p.account ++ ":" ++ id) := by
  intro a b h
  have chars := congrArg (fun k : EntityKey => k.id.toList) h
  simp only [AwsProvider.key, String.toList_append, List.append_cancel_left_eq] at chars
  exact String.toList_injective chars

theorem groupKey_injective : Function.Injective p.groupKey := key_injective p "group:"

theorem userKey_injective : Function.Injective p.userKey := key_injective p "user:"

theorem roleKey_injective : Function.Injective p.roleKey := key_injective p "role:"

theorem userKey_ne_roleKey (id id' : String) : p.userKey id ≠ p.roleKey id' := by
  intro h
  have chars : ("user:" ++ p.account ++ ":" ++ id).toList.head? =
      ("role:" ++ p.account ++ ":" ++ id').toList.head? :=
    congrArg (fun k : EntityKey => k.id.toList.head?) h
  simp at chars

end

/-! ## All rows -/

section

variable (p : AwsProvider) (c : Collected)

/-- The principals that take part. -/
inductive TakesPart : Principal → Prop where
  | group {id name : String} {v : GroupDetail} (valid : ValidGroup p c id v name)
      (alone : SoleGroup p c name (p.groupKey id)) :
      TakesPart (.group (p.groupKey id) name (v.attachedManagedPolicies.getD [])
        (v.groupPolicyList.getD []))
  | user {id name : String} {v : UserDetail} (only : Only UserDetail.userId c.users id v)
      (named : p.named "AIDA" "user" id v.userName v.arn = some name) :
      TakesPart (.account (p.userKey id) name (v.groupList.getD [])
        (v.attachedManagedPolicies.getD []) (v.userPolicyList.getD []))
  | role {id name : String} {v : RoleDetail} (only : Only RoleDetail.roleId c.roles id v)
      (named : p.named "AROA" "role" id v.roleName v.arn = some name) :
      TakesPart (.account (p.roleKey id) name [] (v.attachedManagedPolicies.getD [])
        (v.rolePolicyList.getD []))

variable (policies : Std.ExtTreeMap String Resource) (names : Std.ExtTreeMap String EntityKey)
  (xs : List Principal)

/-- What the collected rows come down to: the policies by ARN, the groups by name, the principals. -/
structure Known : Prop where
  policies : ∀ (arn : String) r, policies[arn]? = some r ↔ SolePolicy p c arn r
  names : ∀ (name : String) k, names[name]? = some k ↔ SoleGroup p c name k
  principals : ∀ x, x ∈ xs ↔ TakesPart p c x
  once : (xs.map Principal.subject).Nodup

/-- Every row takes part. -/
structure Whole : Prop where
  start : c.warnings = ∅
  policies : ∀ v ∈ c.policies, ∃ id arn r, ValidPolicy p c id v arn r ∧ policies[arn]? = some r
  groups : ∀ v ∈ c.groups, ∃ id name,
    ValidGroup p c id v name ∧ names[name]? = some (p.groupKey id)
  users : ∀ v ∈ c.users, ∃ id name, Only UserDetail.userId c.users id v ∧
    p.named "AIDA" "user" id v.userName v.arn = some name
  roles : ∀ v ∈ c.roles, ∃ id name, Only RoleDetail.roleId c.roles id v ∧
    p.named "AROA" "role" id v.roleName v.arn = some name

variable {p c policies names}

/-- Things that are named after where they come from. -/
theorem filterMap_map_sublist {α β γ : Type} {f : α → Option β} {r : β → γ} {g : α → γ}
    (h : ∀ a b, f a = some b → r b = g a) (l : List α) :
    ((l.filterMap f).map r).Sublist (l.map g) := by
  induction l with
  | nil => exact .slnil
  | cons a l ih =>
    cases ha : f a with
    | none =>
      rw [List.filterMap_cons_none ha]
      exact ih.cons _
    | some b =>
      rw [List.filterMap_cons_some ha, List.map_cons, List.map_cons, h a b ha]
      exact ih.cons_cons _

/-- The keys of a map, named in one way. -/
theorem nodup_named {τ γ : Type} {name : String → γ} (inj : Function.Injective name)
    (m : Std.ExtTreeMap String τ) : (m.toList.map fun e => name e.1).Nodup := by
  have keys := (Std.ExtTreeMap.nodup_keys (t := m)).map inj
  rwa [← Std.ExtTreeMap.map_fst_toList_eq_keys, List.map_map] at keys

theorem groupPrincipal_iff {e : String × EntityKey × GroupDetail} {x : Principal} :
    groupPrincipal names e = some x ↔ names[e.1]? = some e.2.1 ∧
      x = .group e.2.1 e.1 (e.2.2.attachedManagedPolicies.getD [])
        (e.2.2.groupPolicyList.getD []) := by
  unfold groupPrincipal
  split
  case isTrue own => simp [own, eq_comm]
  case isFalse other => simp [other]

/-- A row that is staged. -/
theorem mem_groupRows {warnings : Std.ExtTreeSet String} {name : String} {k : EntityKey}
    {v : GroupDetail} :
    (name, k, v) ∈ (p.groups (unique c.groups (·.groupId) warnings)).rows ↔
      ∃ id, ValidGroup p c id v name ∧ k = p.groupKey id := by
  rw [groups_rows, List.mem_filterMap]
  simp only [Prod.exists, mem_unique, groupRow, Option.map_eq_some_iff, Prod.mk.injEq, ValidGroup]
  constructor
  · rintro ⟨id, v', only, name', named, rfl, rfl, rfl⟩
    exact ⟨id, ⟨only, named⟩, rfl⟩
  · rintro ⟨id, ⟨only, named⟩, rfl⟩
    exact ⟨id, v, only, name, named, rfl, rfl, rfl⟩

/-- The groups, each once. -/
theorem groupPrincipals_once (warnings : Std.ExtTreeSet String) :
    (((p.groups (unique c.groups (·.groupId) warnings)).rows.filterMap
        (groupPrincipal names)).map Principal.subject).Nodup ∧
      ∀ k ∈ ((p.groups (unique c.groups (·.groupId) warnings)).rows.filterMap
        (groupPrincipal names)).map Principal.subject, ∃ key, k = Subject.group key := by
  constructor
  · have named : ((p.groups (unique c.groups (·.groupId) warnings)).rows.map
        fun e => Subject.group e.2.1).Nodup := by
      rw [groups_rows]
      refine (nodup_named (fun _ _ same => groupKey_injective p (Subject.group.inj same)) _).sublist
        (filterMap_map_sublist (g := fun e => Subject.group (p.groupKey e.1)) ?_ _)
      intro e row h
      obtain ⟨name, -, rfl⟩ := Option.map_eq_some_iff.mp h
      rfl
    refine named.sublist (filterMap_map_sublist (fun e x h => ?_) _)
    rw [(groupPrincipal_iff.mp h).2]
    rfl
  · intro k mem
    obtain ⟨x, there, rfl⟩ := List.mem_map.mp mem
    obtain ⟨e, -, h⟩ := List.mem_filterMap.mp there
    rw [(groupPrincipal_iff.mp h).2]
    exact ⟨_, rfl⟩

/-- Users and roles are named after their keys. -/
theorem accountPrincipals_once {τ : Type} (m : Std.ExtTreeMap String τ)
    {f : String × τ → Option Principal} {key : String → EntityKey} (inj : Function.Injective key)
    (h : ∀ e x, f e = some x → x.subject = .account (key e.1)) :
    ((m.toList.filterMap f).map Principal.subject).Nodup ∧
      ∀ k ∈ (m.toList.filterMap f).map Principal.subject, ∃ id, k = .account (key id) := by
  have sub := filterMap_map_sublist (g := fun e => Subject.account (key e.1)) h m.toList
  refine ⟨(nodup_named (fun _ _ same => inj (Subject.account.inj same)) m).sublist sub,
    fun k mem => ?_⟩
  obtain ⟨e, -, rfl⟩ := List.mem_map.mp (sub.subset mem)
  exact ⟨e.1, rfl⟩

/-- The principals are those that take part, each once. -/
theorem known_principals {warnings userWarnings roleWarnings : Std.ExtTreeSet String}
    (known : ∀ (name : String) k, names[name]? = some k ↔ SoleGroup p c name k)
    {xs : List Principal}
    (eq : xs = (p.groups (unique c.groups (·.groupId) warnings)).rows.filterMap
        (groupPrincipal names) ++
      (unique c.users (·.userId) userWarnings).map.toList.filterMap (userPrincipal p) ++
      (unique c.roles (·.roleId) roleWarnings).map.toList.filterMap (rolePrincipal p)) :
    (∀ x, x ∈ xs ↔ TakesPart p c x) ∧ (xs.map Principal.subject).Nodup := by
  subst eq
  refine ⟨fun x => ?_, ?_⟩
  · simp only [List.mem_append, List.mem_filterMap, Prod.exists, mem_unique, mem_groupRows,
      groupPrincipal_iff, known, userPrincipal, rolePrincipal, Option.map_eq_some_iff]
    constructor
    · rintro ((⟨name, k, v, ⟨id, valid, rfl⟩, alone, rfl⟩ | ⟨id, v, only, name, named, rfl⟩) |
        ⟨id, v, only, name, named, rfl⟩)
      · exact .group valid alone
      · exact .user only named
      · exact .role only named
    · intro takes
      cases takes with
      | group valid alone =>
        exact .inl (.inl ⟨_, _, _, ⟨_, valid, rfl⟩, alone, rfl⟩)
      | user only named => exact .inl (.inr ⟨_, _, only, _, named, rfl⟩)
      | role only named => exact .inr ⟨_, _, only, _, named, rfl⟩
  · obtain ⟨groups, groupKeys⟩ := groupPrincipals_once warnings
    obtain ⟨users, userKeys⟩ := accountPrincipals_once (unique c.users (·.userId) userWarnings).map
      (userKey_injective p) (f := userPrincipal p) fun e x h => by
        obtain ⟨name, -, rfl⟩ := Option.map_eq_some_iff.mp h
        rfl
    obtain ⟨roles, roleKeys⟩ := accountPrincipals_once (unique c.roles (·.roleId) roleWarnings).map
      (roleKey_injective p) (f := rolePrincipal p) fun e x h => by
        obtain ⟨name, -, rfl⟩ := Option.map_eq_some_iff.mp h
        rfl
    rw [List.map_append, List.map_append, List.nodup_append, List.nodup_append]
    refine ⟨⟨groups, users, fun k mem k' mem' same => ?_⟩, roles, fun k mem k' mem' same => ?_⟩
    · obtain ⟨_, rfl⟩ := groupKeys k mem
      obtain ⟨_, rfl⟩ := userKeys k' mem'
      cases same
    · obtain ⟨role, rfl⟩ := roleKeys k' mem'
      rcases List.mem_append.mp mem with mem | mem
      · obtain ⟨_, rfl⟩ := groupKeys k mem
        cases same
      · obtain ⟨user, rfl⟩ := userKeys k mem
        exact userKey_ne_roleKey p user role (Subject.account.inj same)

/-- **Behind the last role the snapshot is the sum of the portions.** -/
theorem assembled {observedAt : String} {s : State} (ok : p.assemble observedAt c = .ok s) :
    ∃ policies names xs, Known p c policies names xs ∧
      Inventory p policies names (inventory observedAt) (base p policies) xs s ∧
      (s.warnings = ∅ → Whole p c policies names) := by
  unfold AwsProvider.assemble at ok
  dsimp only at ok
  obtain ⟨s₁, first, ok⟩ := bind_ok ok
  obtain ⟨s₂, second, third⟩ := bind_ok ok
  obtain ⟨inv₁, clean₁⟩ := Inventory.loop (group_eq p _ _ _) (fun _ => rfl)
    (fun _ none => ⟨none, trivial⟩) (.nil _) first
  obtain ⟨inv₂, clean₂⟩ := Inventory.loop (user_eq p _ _ _) (fun _ => rfl)
    (fun _ none => warn_clean (P := _ ∧ False) none)
    (inv₁.rewarn fun none => (unique_clean none).1) second
  obtain ⟨inv₃, clean₃⟩ := Inventory.loop (role_eq p _ _ _) (fun _ => rfl)
    (fun _ none => warn_clean (P := _ ∧ False) none)
    (inv₂.rewarn fun none => (unique_clean none).1) third
  obtain ⟨principals, once⟩ := known_principals (fun name k => getElem?_groupMap) rfl
  refine ⟨_, _, _, ⟨fun arn r => getElem?_policyMap, fun name k => getElem?_groupMap, principals,
    once⟩, inv₃, fun none => ?_⟩
  -- every loop behind the last one has warned of nothing
  obtain ⟨none₃, roles⟩ := clean₃ none
  obtain ⟨none₂, roleRows⟩ := unique_clean none₃
  obtain ⟨none₂, users⟩ := clean₂ none₂
  obtain ⟨none₁, userRows⟩ := unique_clean none₂
  obtain ⟨none₁, -⟩ := clean₁ none₁
  obtain ⟨none₀, groups⟩ := (groups_tally p _).settled none₁
  obtain ⟨none₀, groupRows⟩ := unique_clean none₀
  obtain ⟨none₀, policies⟩ := (policies_tally p _).settled none₀
  obtain ⟨start, policyRows⟩ := unique_clean none₀
  refine ⟨start, fun v mem => ?_, fun v mem => ?_, fun v mem => ?_, fun v mem => ?_⟩
  · obtain ⟨id, -, only⟩ := policyRows v mem
    obtain ⟨arn, r, entry, there⟩ := policies (id, v) (mem_unique.mpr only)
    exact ⟨id, arn, r, ⟨only, entry⟩, there⟩
  · obtain ⟨id, -, only⟩ := groupRows v mem
    obtain ⟨name, k, entry, there⟩ := groups (id, v) (mem_unique.mpr only)
    obtain ⟨name', named, same⟩ := Option.map_eq_some_iff.mp entry
    cases same
    exact ⟨id, name, ⟨only, named⟩, there⟩
  · obtain ⟨id, -, only⟩ := userRows v mem
    have valid := (users (id, v) (mem_unique.mpr only)).resolve_left not_false
    rw [userPrincipal, Option.isSome_map, Option.isSome_iff_exists] at valid
    obtain ⟨name, named⟩ := valid
    exact ⟨id, name, only, named⟩
  · obtain ⟨id, -, only⟩ := roleRows v mem
    have valid := (roles (id, v) (mem_unique.mpr only)).resolve_left not_false
    rw [rolePrincipal, Option.isSome_map, Option.isSome_iff_exists] at valid
    obtain ⟨name, named⟩ := valid
    exact ⟨id, name, only, named⟩

end

end Permesh.Aws

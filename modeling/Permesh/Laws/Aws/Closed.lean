import Mathlib.Data.List.Perm.Subperm
import Permesh.Lib.Separators
import Permesh.Laws.Aws.Assembly

/-!
# Laws.Aws.Closed — the snapshot that is validated

The identifiers of a snapshot are put together from parts with colons between them, and the name of
an inline policy is not checked for more than having none. The parts are read back all the same: no
two attachments have one identifier, and the snapshot that is validated refers to what is in it, names
nothing twice, and stays within the limit (`closed_of_gathered`).

A principal is read from the front of an identifier, a managed policy from its end, and an inline name
is what is left. Uniqueness then follows from the portions, each of which belongs to one principal.
Whether AWS knows these principals is not asked.
-/

namespace Permesh.Aws

open Permesh.Lib

variable {p : AwsProvider} {c : Collected}

/-! ## Names -/

theorem plain_of_all {s : String} {ok : Char → Bool} (all : s.toList.all ok = true)
    (colon : ok ':' = false) : Plain s := by
  intro mem
  rw [List.all_eq_true] at all
  rw [all _ mem] at colon
  cases colon

theorem plain_account (p : AwsProvider) : Plain p.account :=
  plain_of_all (Bool.and_eq_true_iff.mp p.valid).2 (by decide)

theorem native_plain {s pre : String} (h : native s pre = true) : Plain s := by
  unfold native at h
  exact plain_of_all (Bool.and_eq_true_iff.mp h).2 (by decide)

/-- What the name of a principal has passed. -/
theorem named_ok {pre kind id name : String} {n arn : Option String}
    (h : p.named pre kind id n arn = some name) :
    native id pre = true ∧ n = some name ∧ ∃ a, arn = some a ∧ p.principal name a kind = true := by
  unfold AwsProvider.named at h
  split at h
  case h_1 name' a =>
    split at h
    · cases h
    case isFalse passes =>
      cases h
      simp only [Bool.or_eq_true, Bool.not_eq_true', not_or, Bool.not_eq_false] at passes
      exact ⟨passes.1.2, rfl, a, rfl, passes.2⟩
  case h_2 => cases h

/-- What the row of a managed policy has passed. -/
theorem managed_ok {id arn : String} {v : ManagedPolicyDetail} {r : Resource}
    (h : p.managed id v = some (arn, r)) :
    native id "ANPA" = true ∧ v.arn = some arn ∧ v.policyName = some r.name ∧
      p.policyArn r.name arn = true ∧ r.key = p.key s!"policy:{arnAccount arn}:{id}" ∧
      r.kind = some "aws.managed_policy" := by
  unfold AwsProvider.managed at h
  split at h
  case h_1 name a hname harn =>
    split at h
    · cases h
    case isFalse passes =>
      cases h
      simp only [Bool.or_eq_true, Bool.not_eq_true', not_or, Bool.not_eq_false] at passes
      exact ⟨passes.1.1.2, harn, hname, passes.2, rfl, rfl⟩
  case h_2 => cases h

/-- The identifier of a principal, in its parts. -/
structure Parts (p : AwsProvider) (subject : Subject) (kind id : String) : Prop where
  plainKind : Plain kind
  plainId : Plain id
  sid_eq : sid subject = kind ++ (":" ++ (p.account ++ (":" ++ id)))
  subject_eq : subject =
    if kind = "group" then .group (p.key (sid subject)) else .account (p.key (sid subject))

theorem key_parts (p : AwsProvider) (kind id : String) :
    (p.key s!"{kind}:{p.account}:{id}").id = kind ++ (":" ++ (p.account ++ (":" ++ id))) := by
  show kind ++ ":" ++ p.account ++ ":" ++ id = _
  simp only [String.append_assoc]

theorem TakesPart.parts {x : Principal} (h : TakesPart p c x) :
    ∃ kind id, Parts p x.subject kind id := by
  cases h with
  | @group id name v valid alone =>
    exact ⟨"group", id, by decide, native_plain (named_ok valid.2).1, key_parts p "group" id, rfl⟩
  | @user id name v only named =>
    exact ⟨"user", id, by decide, native_plain (named_ok named).1, key_parts p "user" id, rfl⟩
  | @role id name v only named =>
    exact ⟨"role", id, by decide, native_plain (named_ok named).1, key_parts p "role" id, rfl⟩

/-- **A principal is read back from the front of a name.** -/
theorem Parts.inj {subject subject' : Subject} {kind id kind' id' rest rest' : String}
    (h : Parts p subject kind id) (h' : Parts p subject' kind' id')
    (same : sid subject ++ (":" ++ rest) = sid subject' ++ (":" ++ rest')) :
    subject = subject' ∧ rest = rest' := by
  rw [h.sid_eq, h'.sid_eq] at same
  simp only [String.append_assoc] at same
  obtain ⟨kinds, same⟩ := colon_append_inj h.plainKind h'.plainKind same
  obtain ⟨-, same⟩ := colon_append_inj (plain_account p) (plain_account p) same
  obtain ⟨ids, rests⟩ := colon_append_inj h.plainId h'.plainId same
  have sids : sid subject = sid subject' := by rw [h.sid_eq, h'.sid_eq, kinds, ids]
  refine ⟨?_, rests⟩
  rw [h.subject_eq, h'.subject_eq, kinds, sids]

/-- The part behind the last colon is read back. -/
theorem last_colon_inj {s s' t t' : String} (ht : Plain t) (ht' : Plain t')
    (h : s ++ (":" ++ t) = s' ++ (":" ++ t')) : s = s' ∧ t = t' := by
  have h := congrArg String.toList h
  simp only [String.toList_append] at h
  obtain ⟨front, back⟩ := append_sep_inj ht ht' h
  exact ⟨String.toList_inj.mp front, String.toList_inj.mp back⟩

theorem inline_id (p : AwsProvider) (sid name : String) :
    (p.inlineResource sid name).key.id = "inline:" ++ sid ++ (":" ++ name) := by
  show "inline:" ++ sid ++ ":" ++ name = _
  simp only [String.append_assoc]

theorem managed_id {id arn : String} {v : ManagedPolicyDetail} {r : Resource}
    (h : p.managed id v = some (arn, r)) :
    r.key.id = "policy:" ++ arnAccount arn ++ (":" ++ id) := by
  rw [(managed_ok h).2.2.2.2.1]
  show "policy:" ++ arnAccount arn ++ ":" ++ id = _
  simp only [String.append_assoc]

/-- A managed policy is not an inline policy. -/
theorem managed_ne_inline {id arn sid name : String} {v : ManagedPolicyDetail} {r : Resource}
    (h : p.managed id v = some (arn, r)) : r.key ≠ (p.inlineResource sid name).key := by
  intro same
  have ids := congrArg EntityKey.id same
  rw [managed_id h, inline_id] at ids
  have first := congrArg (fun s : String => s.toList.head?) ids
  simp at first

theorem attachment_id (provenance : Provenance) (subject : Subject) (k : EntityKey)
    (role : String) : (attachment provenance subject (k, role)).id =
      "attachment:" ++ (sid subject ++ (":" ++ k.id)) := by
  show "attachment:" ++ sid subject ++ ":" ++ k.id = _
  simp only [String.append_assoc]

/-! ## The state behind the last role -/

/-- The collections that `collect` gathers. -/
inductive Gathered : Collected → Prop where
  | empty : Gathered .empty
  | add {c c' : Collected} {v : Output} (h : Gathered c) (ok : c.add v = .ok c') : Gathered c'
  | warn {c : Collected} (h : Gathered c) (code : String) : Gathered (c.warn code)

theorem Gathered.total_le (h : Gathered c) : c.total ≤ MAX_ROWS := by
  induction h with
  | empty => exact Nat.zero_le _
  | add _ ok _ =>
    unfold Collected.add at ok
    dsimp only at ok
    split at ok
    · cases ok
    case isFalse small =>
      cases ok
      exact Nat.le_of_not_lt small
  | warn _ _ ih => exact ih

/-- The ARN of a principal of the account. -/
def InAccount (p : AwsProvider) (kind arn : String) : Prop :=
  startsWith s!"arn:aws:iam::{p.account}:{kind}/" arn = true

/-- The snapshot refers to what is in it, has no identifier twice, and stays within the account and
the limit. -/
structure Closed (p : AwsProvider) (c : Collected) (s : Snapshot) : Prop where
  members : ∀ x ∈ s.memberships, (∃ a ∈ s.accounts, x.member = .account a.key) ∧
    ∃ g ∈ s.groups, x.group = g.key
  subjects : ∀ x ∈ s.grants, (∃ a ∈ s.accounts, x.subject = .account a.key) ∨
    ∃ g ∈ s.groups, x.subject = .group g.key
  targets : ∀ x ∈ s.grants, ∃ r ∈ s.resources, x.resource = r.key
  accountsOnce : (s.accounts.map (·.key)).Nodup
  groupsOnce : (s.groups.map (·.key)).Nodup
  resourcesOnce : (s.resources.map (·.key)).Nodup
  grantsOnce : (s.grants.map (·.id)).Nodup
  accounts : ∀ a ∈ s.accounts,
    (∃ id v arn, Only UserDetail.userId c.users id v ∧ v.arn = some arn ∧
      InAccount p "user" arn ∧ a.key = p.userKey id) ∨
    ∃ id v arn, Only RoleDetail.roleId c.roles id v ∧ v.arn = some arn ∧
      InAccount p "role" arn ∧ a.key = p.roleKey id
  groups : ∀ g ∈ s.groups, ∃ id v arn, Only GroupDetail.groupId c.groups id v ∧
    v.arn = some arn ∧ InAccount p "group" arn ∧
    g.key = p.groupKey id
  bound : total s ≤ MAX_ROWS

/-- Lists of things that are named after their owners. -/
theorem nodup_owned {β γ δ : Type} {xs : List β} {f : β → List γ} {owner : β → δ}
    (once : (xs.map owner).Nodup) (each : ∀ x ∈ xs, (f x).Nodup)
    (own : ∀ x ∈ xs, ∀ y ∈ xs, ∀ k, k ∈ f x → k ∈ f y → owner x = owner y) :
    (xs.flatMap f).Nodup := by
  refine List.nodup_flatMap.mpr ⟨each, ?_⟩
  refine (List.pairwise_map.mp once).imp_of_mem fun {x y} hx hy ne k mem mem' => ?_
  exact ne (own x hx y hy k mem mem')

theorem inAccount_of_principal {name arn kind : String} (h : p.principal name arn kind = true) :
    InAccount p kind arn := by
  unfold AwsProvider.principal at h
  simp only [Bool.and_eq_true] at h
  exact h.1.2

section

variable {policies : Std.ExtTreeMap String Resource} {names : Std.ExtTreeMap String EntityKey}
  {xs : List Principal} (known : Known p c policies names xs)

include known

/-- A managed policy has one ARN. -/
theorem Known.managed {arn : String} {r : Resource} (h : policies[arn]? = some r) :
    ∃ id v, ValidPolicy p c id v arn r := by
  obtain ⟨id, v, valid, -⟩ := (known.policies arn r).mp h
  exact ⟨id, v, valid⟩

/-- Managed policies have different keys. -/
theorem Known.policiesOnce : ((values policies).map (·.key)).Nodup := by
  rw [values, List.map_map]
  have nodup : policies.toList.Nodup := nodup_toList policies
  apply nodup.map_on
  intro e mem e' mem' same
  obtain ⟨arn, r⟩ := e
  obtain ⟨arn', r'⟩ := e'
  rw [Std.ExtTreeMap.mem_toList_iff_getElem?_eq_some] at mem mem'
  obtain ⟨id, v, only, managed⟩ := known.managed mem
  obtain ⟨id', v', only', managed'⟩ := known.managed mem'
  have ids := congrArg EntityKey.id same
  dsimp only [Function.comp] at ids
  rw [managed_id managed, managed_id managed'] at ids
  obtain ⟨-, rfl⟩ := last_colon_inj (native_plain (managed_ok managed).1)
    (native_plain (managed_ok managed').1) ids
  cases only.unique only'
  exact Option.some.inj (managed.symm.trans managed')

/-- There are no more policies than rows. -/
theorem Known.policies_le : (values policies).length ≤ c.policies.length := by
  have once : (values policies).Nodup := known.policiesOnce.of_map
  have sub : values policies ⊆ c.policies.filterMap fun v =>
      v.policyId.bind fun id => (p.managed id v).map Prod.snd := by
    intro r mem
    obtain ⟨arn, there⟩ := mem_values.mp mem
    obtain ⟨id, v, only, managed⟩ := known.managed there
    refine List.mem_filterMap.mpr ⟨v, only.1, ?_⟩
    rw [only.2.1, Option.bind_some, managed]
    rfl
  exact (once.subperm sub).length_le.trans (List.length_filterMap_le ..)

theorem Known.parts {x : Principal} (mem : x ∈ xs) : ∃ kind id, Parts p x.subject kind id :=
  ((known.principals x).mp mem).parts

/-- The grants of a principal. -/
theorem Known.grant_parts {x : Principal} {found : List String} {provenance : Provenance} {s : State}
    (h : Holds p policies names provenance x found s) {g : Grant} (mem : g ∈ s.snapshot.grants) :
    g.subject = x.subject ∧ g.resource = p.key g.resource.id ∧
      g.id = "attachment:" ++ (sid x.subject ++ (":" ++ g.resource.id)) ∧
      ((∃ (arn : String) (r : Resource), policies[arn]? = some r ∧ g.resource = r.key) ∨
        ∃ r ∈ s.snapshot.resources, g.resource = r.key) := by
  obtain ⟨r, rfl, managed | ⟨n, there, rfl⟩⟩ := h.grants g mem
  · obtain ⟨-, -, arn, -, there, -⟩ := managed
    obtain ⟨id, v, -, valid⟩ := known.managed there
    refine ⟨rfl, ?_, attachment_id .., .inl ⟨arn, r, there, rfl⟩⟩
    show r.key = p.key r.key.id
    rw [(managed_ok valid).2.2.2.2.1]
    rfl
  · refine ⟨rfl, rfl, attachment_id .., .inr ⟨p.inlineResource (sid x.subject) n, ?_, rfl⟩⟩
    rw [h.resources]
    exact List.mem_map_of_mem there

/-- The identifiers of all resources. -/
theorem Known.resourcesOnce (provenance : Provenance) : ((values policies ++
    xs.flatMap fun x => (portion p policies names provenance x).snapshot.resources).map
      (·.key)).Nodup := by
  have holds (x : Principal) := portion_holds p policies names provenance x
  rw [List.map_append, List.map_flatMap]
  refine List.nodup_append.mpr ⟨known.policiesOnce,
    nodup_owned known.once (fun x _ => ?_) fun x hx y hy k mem mem' => ?_,
    fun k mem k' mem' same => ?_⟩
  · obtain ⟨found, h⟩ := holds x
    rw [h.resources, List.map_map]
    apply h.once.map_on
    intro n there n' there' same
    have ids := congrArg EntityKey.id same
    dsimp only [Function.comp] at ids
    rw [inline_id, inline_id] at ids
    exact (last_colon_inj (h.legal n there).2 (h.legal n' there').2 ids).2
  · obtain ⟨found, h⟩ := holds x
    obtain ⟨found', h'⟩ := holds y
    rw [h.resources, List.map_map] at mem
    rw [h'.resources, List.map_map] at mem'
    obtain ⟨n, there, rfl⟩ := List.mem_map.mp mem
    obtain ⟨n', there', same⟩ := List.mem_map.mp mem'
    have ids := congrArg EntityKey.id same
    dsimp only [Function.comp] at ids
    rw [inline_id, inline_id, String.append_assoc, String.append_assoc] at ids
    obtain ⟨_, _, left⟩ := known.parts hy
    obtain ⟨_, _, right⟩ := known.parts hx
    exact (left.inj right ((String.append_right_inj _).mp ids)).1.symm
  · obtain ⟨r, there, rfl⟩ := List.mem_map.mp mem
    obtain ⟨x, -, there'⟩ := List.mem_flatMap.mp mem'
    obtain ⟨found, h⟩ := holds x
    rw [h.resources, List.map_map] at there'
    obtain ⟨n, -, rfl⟩ := List.mem_map.mp there'
    obtain ⟨arn, policy⟩ := mem_values.mp there
    obtain ⟨id, v, -, managed⟩ := known.managed policy
    exact managed_ne_inline managed same

/-- **No two attachments have one identifier.** -/
theorem Known.grantsOnce (provenance : Provenance) :
    ((xs.flatMap fun x => (portion p policies names provenance x).snapshot.grants).map
      (·.id)).Nodup := by
  have holds (x : Principal) := portion_holds p policies names provenance x
  rw [List.map_flatMap]
  refine nodup_owned known.once (fun x _ => ?_) fun x hx y hy k mem mem' => ?_
  · obtain ⟨found, h⟩ := holds x
    apply h.targets.of_map.map_on
    intro g mem g' mem' same
    obtain ⟨-, key, hid, -⟩ := known.grant_parts h mem
    obtain ⟨-, key', hid', -⟩ := known.grant_parts h mem'
    rw [hid, hid'] at same
    have ids := (String.append_right_inj _).mp ((String.append_right_inj _).mp
      ((String.append_right_inj _).mp same))
    apply List.inj_on_of_nodup_map h.targets mem mem'
    rw [key, key', ids]
  · obtain ⟨found, h⟩ := holds x
    obtain ⟨found', h'⟩ := holds y
    obtain ⟨g, there, rfl⟩ := List.mem_map.mp mem
    obtain ⟨g', there', same⟩ := List.mem_map.mp mem'
    rw [(known.grant_parts h there).2.2.1, (known.grant_parts h' there').2.2.1] at same
    obtain ⟨_, _, left⟩ := known.parts hy
    obtain ⟨_, _, right⟩ := known.parts hx
    exact (left.inj right ((String.append_right_inj _).mp same)).1.symm

variable {provenance : Provenance} {s : State}
  (inv : Inventory p policies names provenance (base p policies) xs s)

include inv

/-- The member of a membership is a user, and its group was found under its name. -/
theorem Known.member {m : Membership} (mem : m ∈ s.snapshot.memberships) :
    (∃ a ∈ s.snapshot.accounts, m.member = .account a.key) ∧
      ∃ g ∈ s.snapshot.groups, m.group = g.key := by
  obtain ⟨x, hx, n, joins, k, named, rfl⟩ := inv.mem_memberships.mp mem
  constructor
  · cases x with
    | group => cases joins
    | account k name joins attached inline =>
      exact ⟨AwsProvider.principalAccount k name,
        inv.mem_accounts.mpr ⟨_, hx, List.mem_singleton_self _⟩, rfl⟩
  · obtain ⟨id, v, valid, rfl, -⟩ := (known.names n k).mp named
    have group := (known.principals _).mpr (.group valid ((known.names n _).mp named))
    exact ⟨⟨p.groupKey id, n⟩, inv.mem_groups.mpr ⟨_, group, List.mem_singleton_self _⟩, rfl⟩

theorem Known.subject {g : Grant} (mem : g ∈ s.snapshot.grants) :
    (∃ a ∈ s.snapshot.accounts, g.subject = .account a.key) ∨
      ∃ group ∈ s.snapshot.groups, g.subject = .group group.key := by
  obtain ⟨x, hx, mem⟩ := inv.mem_grants.mp mem
  obtain ⟨found, h⟩ := portion_holds p policies names provenance x
  rw [(known.grant_parts h mem).1]
  cases x with
  | group k name attached inline =>
    exact .inr ⟨⟨k, name⟩, inv.mem_groups.mpr ⟨_, hx, List.mem_singleton_self _⟩, rfl⟩
  | account k name joins attached inline =>
    exact .inl ⟨AwsProvider.principalAccount k name,
      inv.mem_accounts.mpr ⟨_, hx, List.mem_singleton_self _⟩, rfl⟩

theorem Known.target {g : Grant} (mem : g ∈ s.snapshot.grants) :
    ∃ r ∈ s.snapshot.resources, g.resource = r.key := by
  obtain ⟨x, hx, mem⟩ := inv.mem_grants.mp mem
  obtain ⟨found, h⟩ := portion_holds p policies names provenance x
  rcases (known.grant_parts h mem).2.2.2 with ⟨arn, r, there, same⟩ | ⟨r, there, same⟩
  · exact ⟨r, inv.mem_resources.mpr (.inl ⟨arn, there⟩), same⟩
  · exact ⟨r, inv.mem_resources.mpr (.inr ⟨x, hx, there⟩), same⟩

theorem Known.accountsOnce : (s.snapshot.accounts.map (·.key)).Nodup := by
  rw [inv.lists.1, show (base p policies).accounts = [] from rfl, List.nil_append,
    List.map_flatMap]
  refine nodup_owned known.once (fun x _ => ?_) fun x _ y _ k mem mem' => ?_
  · cases x <;> simp [Principal.accounts]
  · cases x <;> cases y <;>
      simp only [Principal.accounts, List.map_nil, List.not_mem_nil, List.map_cons,
        List.mem_singleton] at mem mem'
    exact congrArg Subject.account (mem.symm.trans mem')

theorem Known.groupsOnce : (s.snapshot.groups.map (·.key)).Nodup := by
  rw [inv.lists.2.1, show (base p policies).groups = [] from rfl, List.nil_append,
    List.map_flatMap]
  refine nodup_owned known.once (fun x _ => ?_) fun x _ y _ k mem mem' => ?_
  · cases x <;> simp [Principal.groups]
  · cases x <;> cases y <;>
      simp only [Principal.groups, List.map_nil, List.not_mem_nil, List.map_cons,
        List.mem_singleton] at mem mem'
    exact congrArg Subject.group (mem.symm.trans mem')

/-- An account is that of a user or of a role whose ARN is one of the account. -/
theorem Known.account {a : Account} (mem : a ∈ s.snapshot.accounts) :
    (∃ id v arn, Only UserDetail.userId c.users id v ∧ v.arn = some arn ∧
      InAccount p "user" arn ∧ a.key = p.userKey id) ∨
    ∃ id v arn, Only RoleDetail.roleId c.roles id v ∧ v.arn = some arn ∧
      InAccount p "role" arn ∧ a.key = p.roleKey id := by
  obtain ⟨x, hx, mem⟩ := inv.mem_accounts.mp mem
  cases (known.principals x).mp hx with
  | group => cases mem
  | user only named =>
    obtain ⟨-, -, arn, harn, valid⟩ := named_ok named
    rw [List.mem_singleton.mp mem]
    exact .inl ⟨_, _, arn, only, harn, inAccount_of_principal valid, rfl⟩
  | role only named =>
    obtain ⟨-, -, arn, harn, valid⟩ := named_ok named
    rw [List.mem_singleton.mp mem]
    exact .inr ⟨_, _, arn, only, harn, inAccount_of_principal valid, rfl⟩

theorem Known.group {g : Group} (mem : g ∈ s.snapshot.groups) :
    ∃ id v arn, Only GroupDetail.groupId c.groups id v ∧ v.arn = some arn ∧
      InAccount p "group" arn ∧ g.key = p.groupKey id := by
  obtain ⟨x, hx, mem⟩ := inv.mem_groups.mp mem
  cases (known.principals x).mp hx with
  | group valid alone =>
    obtain ⟨-, -, arn, harn, valid'⟩ := named_ok valid.2
    rw [List.mem_singleton.mp mem]
    exact ⟨_, _, arn, valid.1, harn, inAccount_of_principal valid', rfl⟩
  | user => cases mem
  | role => cases mem

/-- The limit is checked behind each principal; without one there are managed policies only. -/
theorem Known.bound (small : c.total ≤ MAX_ROWS) : total s.snapshot ≤ MAX_ROWS := by
  by_cases none : xs = []
  · have few : total s.snapshot = (values policies).length := by
      obtain ⟨accounts, groups, memberships, resources, grants⟩ := inv.lists
      unfold total
      rw [accounts, groups, memberships, resources, grants, none]
      simp only [base, Snapshot.new, List.flatMap_nil, List.length_nil, List.append_nil,
        Nat.add_zero, Nat.zero_add]
    rw [few]
    refine known.policies_le.trans (Nat.le_trans ?_ small)
    unfold Collected.total
    exact Nat.le_add_left ..
  · exact inv.bound none

/-- **The snapshot behind the last role is closed.** -/
theorem Known.closed (small : c.total ≤ MAX_ROWS) : Closed p c s.snapshot where
  members _ mem := known.member inv mem
  subjects _ mem := known.subject inv mem
  targets _ mem := known.target inv mem
  accountsOnce := known.accountsOnce inv
  groupsOnce := known.groupsOnce inv
  resourcesOnce := by
    rw [inv.lists.2.2.2.1]
    exact known.resourcesOnce provenance
  grantsOnce := by
    rw [inv.lists.2.2.2.2]
    exact known.grantsOnce provenance
  accounts _ mem := known.account inv mem
  groups _ mem := known.group inv mem
  bound := known.bound inv small

end

/-! ## The snapshot that is validated -/

/-- Lists in another order, and memberships left out, keep the snapshot closed. -/
theorem Closed.of_perm {s t : Snapshot} (h : Closed p c s) (accounts : t.accounts.Perm s.accounts)
    (groups : t.groups.Perm s.groups) (resources : t.resources.Perm s.resources)
    (memberships : t.memberships.Subperm s.memberships) (grants : t.grants.Perm s.grants) :
    Closed p c t where
  members m mem := by
    simpa only [accounts.mem_iff, groups.mem_iff] using h.members m (memberships.subset mem)
  subjects g mem := by
    simpa only [accounts.mem_iff, groups.mem_iff] using h.subjects g (grants.mem_iff.mp mem)
  targets g mem := by
    simpa only [resources.mem_iff] using h.targets g (grants.mem_iff.mp mem)
  accountsOnce := (accounts.map _).nodup_iff.mpr h.accountsOnce
  groupsOnce := (groups.map _).nodup_iff.mpr h.groupsOnce
  resourcesOnce := (resources.map _).nodup_iff.mpr h.resourcesOnce
  grantsOnce := (grants.map _).nodup_iff.mpr h.grantsOnce
  accounts a mem := h.accounts a (accounts.mem_iff.mp mem)
  groups g mem := h.groups g (groups.mem_iff.mp mem)
  bound := by
    have few := memberships.length_le
    have small := h.bound
    unfold total at small ⊢
    rw [accounts.length_eq, groups.length_eq, resources.length_eq, grants.length_eq]
    omega

/-- A warning adds no entity. -/
theorem report_lists (s : State) : (AwsProvider.report s).accounts = s.snapshot.accounts ∧
    (AwsProvider.report s).groups = s.snapshot.groups ∧
    (AwsProvider.report s).resources = s.snapshot.resources ∧
    (AwsProvider.report s).memberships = s.snapshot.memberships ∧
    (AwsProvider.report s).grants = s.snapshot.grants := by
  unfold AwsProvider.report
  split <;> exact ⟨rfl, rfl, rfl, rfl, rfl⟩

/-- The lists of the snapshot that is validated are those of the state in another order; where
neighbours are compared, entries may be left out. -/
theorem ordered_lists (core : Core) (s : State) :
    (AwsProvider.ordered core s).accounts.Perm s.snapshot.accounts ∧
    (AwsProvider.ordered core s).groups.Perm s.snapshot.groups ∧
    (AwsProvider.ordered core s).resources.Perm s.snapshot.resources ∧
    (AwsProvider.ordered core s).memberships.Subperm s.snapshot.memberships ∧
    (AwsProvider.ordered core s).grants.Sublist (core.sortGrants s.snapshot.grants) := by
  obtain ⟨accounts, groups, resources, memberships, grants⟩ := report_lists s
  rw [← accounts, ← groups, ← resources, ← memberships, ← grants]
  refine ⟨core.accounts_perm _, core.groups_perm _, core.resources_perm _, ?_,
    List.destutter_sublist _ _⟩
  have sub : (AwsProvider.ordered core s).memberships.Sublist
      (core.sortMemberships (AwsProvider.report s).memberships) := List.destutter_sublist ..
  exact sub.subperm.trans (core.memberships_perm _).subperm

/-- Grants with identifiers of their own are all kept. -/
theorem grants_kept {grants : List Grant} (once : (grants.map (·.id)).Nodup) :
    grants.destutter (fun b a => a.id ≠ b.id) = grants := by
  apply List.destutter_of_isChain _ _
  exact ((List.pairwise_map.mp once).imp fun ne => Ne.symm ne).isChain

/-- The snapshot of a state with a closed snapshot. -/
theorem Closed.ordered {s : State} (h : Closed p c s.snapshot) (core : Core) :
    Closed p c (AwsProvider.ordered core s) ∧
      (AwsProvider.ordered core s).grants = core.sortGrants s.snapshot.grants := by
  obtain ⟨accounts, groups, resources, memberships, -⟩ := ordered_lists core s
  have sorted : (AwsProvider.ordered core s).grants = core.sortGrants s.snapshot.grants := by
    have same := (report_lists s).2.2.2.2
    rw [← same]
    refine grants_kept (((core.grants_perm _).map _).nodup_iff.mpr ?_)
    rw [same]
    exact h.grantsOnce
  refine ⟨h.of_perm accounts groups resources memberships ?_, sorted⟩
  rw [sorted]
  exact core.grants_perm _

/-- **The snapshot that is validated is closed**, no attachment is lost where grants are compared by
their identifiers, and no membership is like the one before it. -/
theorem closed_of_gathered (p : AwsProvider) (core : Core) (rejection : ProviderError)
    (observedAt : String) {c : Collected} {s : State} (gathered : Gathered c)
    (ok : p.assemble observedAt c = .ok s) :
    p.finish core rejection observedAt c =
      (if core.validateSnapshot (AwsProvider.ordered core s) = false then .error rejection
      else .ok (AwsProvider.ordered core s)) ∧
      Closed p c (AwsProvider.ordered core s) ∧
      (AwsProvider.ordered core s).grants = core.sortGrants s.snapshot.grants ∧
      (∀ x ∈ s.snapshot.grants, ∀ y ∈ s.snapshot.grants, x.id = y.id → x = y) ∧
      (AwsProvider.ordered core s).memberships.IsChain
        fun b a => ¬(a.member = b.member ∧ a.group = b.group) := by
  obtain ⟨policies, names, xs, known, inv, -⟩ := assembled ok
  have closed := known.closed inv gathered.total_le
  obtain ⟨ordered, grants⟩ := closed.ordered core
  refine ⟨?_, ordered, grants, fun x hx y hy same => ?_, List.isChain_destutter _ _⟩
  · unfold AwsProvider.finish
    rw [ok]
  exact List.inj_on_of_nodup_map closed.grantsOnce hx hy same

/-! ## A sample -/

def sampleProvider : AwsProvider where
  id := "aws"
  account := "123456789012"
  credentials := ⟨"AKIASAMPLEKEY0000001", "sample-secret", none⟩
  callerRole := none
  valid := by decide

def sampleUser : UserDetail where
  userId := some "AIDASAMPLEUSER000001"
  userName := some "ada"
  arn := some "arn:aws:iam::123456789012:user/ada"
  userPolicyList := some [⟨some "own", none⟩]
  groupList := some ["staff"]
  attachedManagedPolicies := some [⟨some "read", some "arn:aws:iam::123456789012:policy/read"⟩]
  other := ""

def sampleGroup : GroupDetail where
  groupId := some "AGPASAMPLEGROUP00001"
  groupName := some "staff"
  arn := some "arn:aws:iam::123456789012:group/staff"
  groupPolicyList := none
  attachedManagedPolicies := none
  other := ""

def samplePolicy : ManagedPolicyDetail where
  policyId := some "ANPASAMPLEPOLICY0001"
  policyName := some "read"
  arn := some "arn:aws:iam::123456789012:policy/read"
  other := ""

/-- A user in a group, with policies of both kinds. -/
def samplePage : Output where
  userDetailList := some [sampleUser]
  roleDetailList := none
  groupDetailList := some [sampleGroup]
  policies := some [samplePolicy]
  isTruncated := false
  marker := none

/-- The rows of the sample are gathered and taken over. -/
theorem sample_gathered : ∃ c s, Gathered c ∧
    sampleProvider.assemble "2026-01-01T00:00:00Z" c = .ok s ∧
    Closed sampleProvider c (AwsProvider.ordered Core.plain s) := by
  have adds : ((Collected.empty.add samplePage).bind
      (sampleProvider.assemble "2026-01-01T00:00:00Z")).toOption.isSome = true := by
    decide +kernel
  cases added : Collected.empty.add samplePage with
  | error e =>
    rw [added] at adds
    cases adds
  | ok c =>
    rw [added] at adds
    cases assembled : sampleProvider.assemble "2026-01-01T00:00:00Z" c with
    | error e =>
      change (sampleProvider.assemble "2026-01-01T00:00:00Z" c).toOption.isSome = true at adds
      rw [assembled] at adds
      cases adds
    | ok s =>
      have gathered : Gathered c := .add .empty added
      exact ⟨c, s, gathered, assembled,
        (closed_of_gathered _ Core.plain ⟨"", ""⟩ _ gathered assembled).2.1⟩

end Permesh.Aws

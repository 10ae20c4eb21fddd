import Permesh.Laws.Cloudflare.Access

/-!
# Laws.Cloudflare.Closed — the snapshot that is validated

Accounts, zones, groups, memberships and grants come from separate lists, each of which may fail. The
snapshot they are put together to refers only to what is in it, has no key twice, and stays within the
account (`closed_of_gather`). The identifier of a grant is put together from its parts; it names the
subject, the resource and the role, so no assignment is lost where identifiers are compared.

The stages of a run are taken one after the other (`gather_parts`), and each adds to what is stocked
without disturbing it. Keys come from different kinds of records and differ in their first part. Nothing
is lost that was taken in, but rows that disagree were never taken in.
-/

namespace Permesh.Cloudflare

open Permesh.Json Permesh.Http Permesh.Lib

variable {client : Client} {zones : Std.ExtTreeSet String} {observedAt : String}

/-! ## Resources of grants -/

def accountKey (client : Client) : EntityKey := client.key s!"account:{client.accountId}"

def scopeKey (client : Client) : EntityKey :=
  client.key s!"policy-scope:account:{client.accountId}:all"

def zoneKey (client : Client) (zone : String) : EntityKey := client.key s!"zone:{zone}"

/-- The resource of a policy is the scope of all policies or one of the zones. -/
theorem target_ok {target : String} {r : Resource} (h : client.target zones target = .ok r) :
    r.key = scopeKey client ∨ ∃ zone ∈ zones, r.key = zoneKey client zone := by
  unfold Client.target at h
  split at h
  · cases h
    exact .inl rfl
  · split at h
    case h_1 zone hz =>
      cases h
      have known := (Option.filter_eq_some_iff.mp hz).2
      rw [Bool.and_eq_true, decide_eq_true_eq] at known
      exact .inr ⟨zone, known.2, rfl⟩
    case h_2 => cases h

/-! ## Identifiers of grants -/

/-- A record in its parts: the identifiers of the policy and of the role, and the resource. -/
structure Part (client : Client) (zones : Std.ExtTreeSet String) (subject : Subject)
    (roleNames : Std.ExtTreeMap String String) (x : Grant × Resource)
    (policyId roleId : String) : Prop where
  policy : policyId.toList.length = 32
  role : roleId.toList.length = 32
  id : x.1.id = s!"{(subjectKey subject).id}:policy:{policyId}:role:{roleId}:{x.2.key.id}"
  subject : x.1.subject = subject
  resource : x.1.resource = x.2.key
  target : x.2.key = scopeKey client ∨ ∃ zone ∈ zones, x.2.key = zoneKey client zone
  name : roleNames[roleId]? = some x.1.role

theorem Part.mono {subject : Subject} {names names' : Std.ExtTreeMap String String}
    {x : Grant × Resource} {policyId roleId : String}
    (part : Part client zones subject names x policyId roleId)
    (grows : ∀ (k name : String), names[k]? = some name → names'[k]? = some name) :
    Part client zones subject names' x policyId roleId :=
  { part with name := grows _ _ part.name }

/-- Role identifiers have one name within the policies of a subject. -/
theorem policies_parts {subject : Subject} {provenance : Provenance} {value : Value}
    {grants : List (Grant × Resource)}
    (ok : client.policies value subject zones provenance = .ok grants) :
    ∃ names, ∀ x ∈ grants, ∃ policyId roleId, Part client zones subject names x policyId roleId := by
  obtain ⟨a, parts, rfl⟩ := policies_rule
    (I := fun a => ∀ x ∈ a.records, ∃ policyId roleId,
      Part client zones subject a.roleNames x policyId roleId)
    (fun _ mem => by cases mem) (fun _ _ h => h)
    (fun policy policyId target resource a role a' hid ht h ok => by
      obtain ⟨roleId, name, hr, same, names, records⟩ := role_ok ok
      have grows (k old : String) (there : a.roleNames[k]? = some old) :
          a'.roleNames[k]? = some old := by
        rw [names, getElem?_insert_key]
        split
        case isTrue here =>
          subst here
          rw [there] at same
          simp at same
          rw [same]
        case isFalse => exact there
      intro x mem
      rw [records] at mem
      rcases List.mem_append.mp mem with mem | mem
      · obtain ⟨policyId', roleId', part⟩ := h x mem
        exact ⟨policyId', roleId', part.mono grows⟩
      · rw [List.mem_singleton.mp mem]
        refine ⟨policyId, roleId, id_length hid, id_length hr, rfl, rfl, rfl, target_ok ht, ?_⟩
        rw [names, getElem?_insert_key, if_pos rfl]) ok
  exact ⟨a.roleNames, parts⟩

/-- **The identifier of a grant names its parts.** -/
theorem Part.same {subject : Subject} {names names' : Std.ExtTreeMap String String}
    {x y : Grant × Resource} {policyId roleId policyId' roleId' : String}
    (hx : Part client zones subject names x policyId roleId)
    (hy : Part client zones subject names' y policyId' roleId') (same : x.1.id = y.1.id) :
    roleId = roleId' ∧ x.2.key.id = y.2.key.id := by
  rw [hx.id, hy.id] at same
  have chars := congrArg String.toList same
  simp only [String.toList_append, List.append_assoc, List.append_cancel_left_eq] at chars
  obtain ⟨-, chars⟩ := List.append_inj chars (hx.policy.trans hy.policy.symm)
  rw [List.append_cancel_left_eq] at chars
  obtain ⟨role, chars⟩ := List.append_inj chars (hx.role.trans hy.role.symm)
  rw [List.append_cancel_left_eq] at chars
  exact ⟨String.toList_injective role, String.toList_injective chars⟩

/-- A member or a group, by a native identifier. -/
def Native (client : Client) (subject : Subject) : Prop :=
  (∃ m : String, m.toList.length = 32 ∧ subject = .account (client.memberKey m)) ∨
    ∃ g : String, g.toList.length = 32 ∧ subject = .group (client.groupKey g)

/-- The identifier of a grant names its subject. -/
theorem Names.same {x y : Grant} {subject subject' : Subject} (hx : Names subject x)
    (hy : Names subject' y) (native : Native client subject) (native' : Native client subject')
    (same : x.id = y.id) : subject = subject' := by
  obtain ⟨-, rest, hid⟩ := hx
  obtain ⟨-, rest', hid'⟩ := hy
  rw [hid, hid'] at same
  have chars := congrArg String.toList same
  rcases native with ⟨m, hm, rfl⟩ | ⟨m, hm, rfl⟩ <;>
    rcases native' with ⟨m', hm', rfl⟩ | ⟨m', hm', rfl⟩ <;>
    simp only [subjectKey, String.toList_append, memberKey_id, groupKey_id, List.append_assoc,
      List.append_cancel_left_eq] at chars
  · rw [String.toList_injective (List.append_inj chars (hm.trans hm'.symm)).1]
  · exact absurd (congrArg List.head? chars) (by simp)
  · exact absurd (congrArg List.head? chars) (by simp)
  · rw [String.toList_injective (List.append_inj chars (hm.trans hm'.symm)).1]

theorem groupKey_injective (client : Client) : Function.Injective client.groupKey := by
  intro g g' h
  have chars := congrArg (fun k : EntityKey => k.id.toList) h
  simp only [groupKey_id, List.append_cancel_left_eq] at chars
  exact String.toList_injective chars

/-- Whose policies a run reads. -/
inductive Source (client : Client) (observedAt : String) (g : Client.Gathered) :
    Subject → Value → Provenance → Prop where
  | member {m : String} {v : Value} (agree : Agree g.memberRows m v) (isMember : IsMember v) :
      Source client observedAt g (.account (client.memberKey m)) v
        ⟨"cloudflare.members.policy_assignment", observedAt⟩
  | group {visit : Visit} (visited : visit ∈ g.state.visits)
      (agree : Agree g.groupRows visit.key visit.value) :
      Source client observedAt g (.group (client.groupKey visit.key)) visit.value
        ⟨"cloudflare.iam.user_groups.policy_assignment", observedAt⟩

theorem Source.native {g : Client.Gathered} {subject : Subject} {value : Value}
    {provenance : Provenance} (source : Source client observedAt g subject value provenance) :
    Native client subject := by
  cases source with
  | member agree _ => exact .inl ⟨_, agree.native, rfl⟩
  | group _ agree => exact .inr ⟨_, agree.native, rfl⟩

/-- A subject has one list of policies. -/
theorem Source.unique {g : Client.Gathered} {subject : Subject} {value value' : Value}
    {provenance provenance' : Provenance}
    (source : Source client observedAt g subject value provenance)
    (source' : Source client observedAt g subject value' provenance') :
    value = value' ∧ provenance = provenance' := by
  generalize same : subject = subject' at source'
  cases source with
  | member agree _ =>
    cases source' with
    | member agree' _ =>
      cases memberKey_injective client (Subject.account.inj same)
      exact ⟨agree.unique agree', rfl⟩
    | group _ _ => cases same
  | group _ agree =>
    cases source' with
    | member _ _ => cases same
    | group _ agree' =>
      rw [← groupKey_injective client (Subject.group.inj same)] at agree'
      exact ⟨agree.unique agree', rfl⟩

/-- Every grant is one of the policies of a member or of a group. -/
theorem Read.source {g : Client.Gathered} (h : Read client observedAt g) {x : Grant × Resource}
    (mem : x ∈ g.state.grants) : ∃ subject value provenance grants,
      Source client observedAt g subject value provenance ∧
      client.policies value subject g.zones provenance = .ok grants ∧ x ∈ grants := by
  rcases (h.grants x).mp mem with ⟨m, v, agree, isMember, grants, ok, hx⟩ |
    ⟨visit, visited, grants, ok, hx⟩
  · exact ⟨_, v, _, grants, .member agree isMember, ok, hx⟩
  · exact ⟨_, visit.value, _, grants, .group visited (h.visited visit visited), ok, hx⟩

theorem Part.key {subject : Subject} {names : Std.ExtTreeMap String String} {x : Grant × Resource}
    {policyId roleId : String} (part : Part client zones subject names x policyId roleId) :
    x.1.resource = client.key x.2.key.id := by
  rw [part.resource]
  rcases part.target with h | ⟨zone, -, h⟩ <;> rw [h] <;> rfl

/-- **Grants with the same identifier are the same assignment.** -/
theorem Read.assignment {g : Client.Gathered} (h : Read client observedAt g)
    {x y : Grant × Resource} (hx : x ∈ g.state.grants) (hy : y ∈ g.state.grants)
    (same : x.1.id = y.1.id) :
    x.1.subject = y.1.subject ∧ x.1.resource = y.1.resource ∧ x.1.role = y.1.role := by
  obtain ⟨subject, value, provenance, grants, source, ok, mem⟩ := h.source hx
  obtain ⟨subject', value', provenance', grants', source', ok', mem'⟩ := h.source hy
  have subjects := (policies_of ok x mem).same (policies_of ok' y mem') source.native
    source'.native same
  subst subjects
  obtain ⟨rfl, rfl⟩ := source.unique source'
  cases ok.symm.trans ok'
  obtain ⟨names, parts⟩ := policies_parts ok
  obtain ⟨policyId, roleId, part⟩ := parts x mem
  obtain ⟨policyId', roleId', part'⟩ := parts y mem'
  obtain ⟨rfl, resource⟩ := part.same part' same
  refine ⟨part.subject.trans part'.subject.symm, ?_, ?_⟩
  · rw [part.key, part'.key, resource]
  · exact Option.some.inj (part.name.symm.trans part'.name)

/-! ## Accounts, groups and resources of the state -/

/-- The lists that a warning leaves as they are. -/
def stock (s : Snapshot) : List Account × List Group × List Resource :=
  (s.accounts, s.groups, s.resources)

theorem stock_warnFailure (s : Snapshot) (failure : Option String) :
    stock (warnFailure s failure) = stock s := by
  cases failure <;> rfl

theorem stock_unique (rows : List Value) (s : Snapshot) : stock (unique rows s).2 = stock s := by
  refine foldl_rule (fun _ (u : Unique) => stock u.snapshot = stock s) rfl (fun _ row u h => ?_) rows
  unfold Unique.take
  split
  · exact h
  · split
    · exact h
    · split <;> exact h

/-- The accounts behind the members. -/
structure Accounts (client : Client) (s₀ : Snapshot) (entries : List (String × Value)) (s : State) :
    Prop where
  groups : s.snapshot.groups = s₀.groups
  resources : s.snapshot.resources = s₀.resources
  keys : ∀ k, k ∈ s.snapshot.accounts.map (·.key) ↔ ∃ m ∈ s.active, k = client.memberKey m
  sublist : (s.snapshot.accounts.map (·.key)).Sublist (entries.map fun e => client.memberKey e.1)

theorem Accounts.enroll {s₀ : Snapshot} {entries : List (String × Value)} {s s' : State}
    (h : Accounts client s₀ entries s) {entry : String × Value}
    (ok : client.enroll zones observedAt s entry = .ok s') :
    Accounts client s₀ (entries ++ [entry]) s' := by
  unfold Client.enroll at ok
  have longer : (s.snapshot.accounts.map (·.key)).Sublist
      ((entries ++ [entry]).map fun e => client.memberKey e.1) := by
    rw [List.map_append]
    exact h.sublist.trans (List.sublist_append_left ..)
  split at ok
  · cases ok
    exact ⟨h.groups, h.resources, h.keys, longer⟩
  · cases ok
    exact ⟨h.groups, h.resources, h.keys, longer⟩
  case h_3 login _ =>
    -- the account of the member, whatever its policies are
    have added {s' : State} (account : Account) (key : account.key = client.memberKey entry.1)
        (active : s'.active = s.active.insert entry.1)
        (stocked : stock s'.snapshot =
          (s.snapshot.accounts ++ [account], s.snapshot.groups, s.snapshot.resources)) :
        Accounts client s₀ (entries ++ [entry]) s' := by
      obtain ⟨accounts, rest⟩ := Prod.mk.inj stocked
      obtain ⟨groups, resources⟩ := Prod.mk.inj rest
      refine ⟨groups.trans h.groups, resources.trans h.resources, fun k => ?_, ?_⟩
      · rw [accounts, List.map_append, List.mem_append, h.keys, List.map_singleton,
          List.mem_singleton, key, active]
        simp only [mem_insert_key]
        constructor
        · rintro (⟨m, mem, rfl⟩ | rfl)
          · exact ⟨m, .inr mem, rfl⟩
          · exact ⟨entry.1, .inl rfl, rfl⟩
        · rintro ⟨m, rfl | mem, rfl⟩
          · exact .inr rfl
          · exact .inl ⟨m, mem, rfl⟩
      · rw [accounts, List.map_append, List.map_append, List.map_singleton, List.map_singleton, key]
        exact h.sublist.append (.refl _)
    dsimp only at ok
    split at ok
    · split at ok
      · cases ok
      · cases ok
        exact added _ rfl rfl rfl
    · cases ok
      exact added _ rfl rfl rfl

/-- What the rows of a group add: one membership for a member at most. -/
structure Gains (group : EntityKey) (s₀ : State) (entries : List (String × Value)) (s : State) :
    Prop where
  stock : stock s.snapshot = stock s₀.snapshot
  memberships : ∃ gained : List (String × Membership), s.memberships = s₀.memberships ++ gained ∧
    (gained.map Prod.fst).Sublist (entries.map Prod.fst) ∧ ∀ x ∈ gained, x.2.group = group

theorem Gains.join {group : EntityKey} {s₀ s : State} {entries : List (String × Value)}
    (h : Gains group s₀ entries s) (client : Client) (observedAt : String) (rejected : Bool)
    (entry : String × Value) :
    Gains group s₀ (entries ++ [entry]) (client.join observedAt group rejected s entry) := by
  obtain ⟨gained, eq, sublist, groups⟩ := h.memberships
  have longer : (gained.map Prod.fst).Sublist ((entries ++ [entry]).map Prod.fst) := by
    rw [List.map_append]
    exact sublist.trans (List.sublist_append_left ..)
  unfold Client.join
  dsimp only
  split
  · exact ⟨h.stock, gained, eq, longer, groups⟩
  · split
    · exact ⟨h.stock, gained, eq, longer, groups⟩
    · split
      · exact ⟨h.stock, gained, eq, longer, groups⟩
      · refine ⟨h.stock, gained ++ [(entry.1, ⟨.account (client.memberKey entry.1), group,
          ⟨"cloudflare.iam.user_groups.members", observedAt⟩⟩)], ?_, ?_, ?_⟩
        · dsimp only
          rw [eq, List.append_assoc]
        · rw [List.map_append, List.map_append]
          exact sublist.append (.refl _)
        · intro x mem
          rcases List.mem_append.mp mem with mem | mem
          · exact groups x mem
          · rw [List.mem_singleton.mp mem]

theorem visit_gains (client : Client) (observedAt key : String) (value : Value) (rejected : Bool)
    (s : State) : stock (client.visit observedAt key value rejected s).snapshot = stock s.snapshot ∧
      ∃ gained : List (String × Membership),
        (client.visit observedAt key value rejected s).memberships = s.memberships ++ gained ∧
        (gained.map Prod.fst).Nodup ∧ ∀ x ∈ gained, x.2.group = client.groupKey key := by
  unfold Client.visit
  generalize client.listing
    s!"accounts/{client.accountId}/iam/user_groups/{key}/members" [] s.budget = answer
  obtain ⟨list, budget⟩ := answer
  have stocked := stock_unique list.rows (warnFailure s.snapshot list.failure)
  rw [stock_warnFailure] at stocked
  dsimp only
  generalize unique list.rows (warnFailure s.snapshot list.failure) = distinct at stocked
  have gains := foldl_rule (Gains (client.groupKey key)
      { s with
        budget := budget
        snapshot := distinct.2
        visits := s.visits ++ [⟨key, value, list.rows⟩] })
    ⟨rfl, [], (List.append_nil _).symm, .refl _, fun _ mem => by cases mem⟩
    (fun _ entry _ h => h.join client observedAt rejected entry) distinct.1.toList
  obtain ⟨gained, eq, sublist, groups⟩ := gains.memberships
  refine ⟨gains.stock.trans stocked, gained, eq, ?_, groups⟩
  rw [Std.ExtTreeMap.map_fst_toList_eq_keys] at sublist
  exact Std.ExtTreeMap.nodup_keys.sublist sublist

/-- The groups behind the members, and the memberships in them. -/
structure Groups (client : Client) (s₁ : State) (entries : List (String × Value)) (s : State) :
    Prop where
  accounts : s.snapshot.accounts = s₁.snapshot.accounts
  resources : s.snapshot.resources = s₁.snapshot.resources
  sublist : (s.snapshot.groups.map (·.key)).Sublist (entries.map fun e => client.groupKey e.1)
  visited : ∀ visit ∈ s.visits, client.groupKey visit.key ∈ s.snapshot.groups.map (·.key)
  known : ∀ x ∈ s.memberships, x.2.group ∈ s.snapshot.groups.map (·.key)
  pairs : (s.memberships.map fun x => (x.1, x.2.group)).Nodup

/-- `assign` leaves accounts, groups and resources as they are. -/
theorem assign_stock {s s₂ : State} {granted : Except ProviderError (List (Grant × Resource))}
    (ha : Client.assign s granted = .ok s₂) : stock s₂.snapshot = stock s.snapshot := by
  unfold Client.assign at ha
  split at ha
  · cases ha
    rfl
  · split at ha
    · cases ha
    · cases ha
      rfl

theorem Groups.group {s₁ s s' : State} {entries : List (String × Value)} {entry : String × Value}
    (h : Groups client s₁ entries s) (new : entry.1 ∉ entries.map Prod.fst)
    (ok : client.group zones observedAt s entry = .ok s') :
    Groups client s₁ (entries ++ [entry]) s' := by
  unfold Client.group at ok
  split at ok
  · cases ok
    refine ⟨h.accounts, h.resources, ?_, h.visited, h.known, h.pairs⟩
    rw [List.map_append]
    exact h.sublist.trans (List.sublist_append_left ..)
  case h_2 name _ =>
    dsimp only at ok
    split at ok
    · cases ok
    case h_2 s₂ ha =>
      split at ok
      · cases ok
      cases ok
      have stocked : stock s₂.snapshot = (s.snapshot.accounts,
          s.snapshot.groups ++ [⟨client.groupKey entry.1, name⟩], s.snapshot.resources) :=
        assign_stock ha
      obtain ⟨-, -, memberships, visits, -⟩ := assign_ok ha
      obtain ⟨stocked', gained, eq, distinct, groups⟩ := visit_gains client observedAt entry.1 entry.2
        (client.groupPolicies zones observedAt entry.1 entry.2).toOption.isNone s₂
      have visits' := (visit_joined client observedAt entry.1 entry.2
        (client.groupPolicies zones observedAt entry.1 entry.2).toOption.isNone s₂).2.2.1
      generalize client.visit observedAt entry.1 entry.2 _ s₂ = s' at *
      generalize visitRows client entry.1 s₂ = rows at visits'
      obtain ⟨accounts, rest⟩ := Prod.mk.inj (stocked'.trans stocked)
      obtain ⟨grouped, resources⟩ := Prod.mk.inj rest
      rw [memberships] at eq
      rw [visits] at visits'
      have keys : s'.snapshot.groups.map (·.key) =
          s.snapshot.groups.map (·.key) ++ [client.groupKey entry.1] := by
        rw [grouped, List.map_append, List.map_singleton]
      refine ⟨accounts.trans h.accounts, resources.trans h.resources, ?_, ?_, ?_, ?_⟩
      · rw [keys, List.map_append]
        exact h.sublist.append (.refl _)
      · rw [visits', keys]
        exact forall_mem_snoc (fun visit mem => List.mem_append_left _ (h.visited visit mem))
          (List.mem_append_right _ (List.mem_singleton_self _))
      · intro x mem
        rw [eq] at mem
        rw [keys]
        rcases List.mem_append.mp mem with mem | mem
        · exact List.mem_append_left _ (h.known x mem)
        · rw [groups x mem]
          exact List.mem_append_right _ (List.mem_singleton_self _)
      · rw [eq, List.map_append, List.nodup_append]
        refine ⟨h.pairs, ?_, ?_⟩
        · exact (List.Nodup.of_map Prod.fst (by rwa [List.map_map]))
        · -- the group is not one of those before
          intro a ha b hb same
          obtain ⟨x, hx, rfl⟩ := List.mem_map.mp ha
          obtain ⟨y, hy, rfl⟩ := List.mem_map.mp hb
          have old := h.sublist.subset (h.known x hx)
          rw [(Prod.mk.inj same).2, groups y hy] at old
          obtain ⟨e, he, key⟩ := List.mem_map.mp old
          exact new (List.mem_map.mpr ⟨e, he, groupKey_injective client key⟩)

/-! ## Zones -/

/-- A zone that says it belongs to the account. -/
def InAccount (client : Client) (zone : Value) : Prop :=
  ((zone.get "account").bind (Value.get · "id")).bind Value.asStr = some client.accountId

/-- The members that a run lists. -/
def Client.memberList (client : Client) : Listing × Budget :=
  client.listing s!"accounts/{client.accountId}/members" []
    (client.request s!"accounts/{client.accountId}" [] ⟨0, 0⟩).2

/-- The zones that a run lists. -/
def Client.zoneList (client : Client) : Listing × Budget :=
  client.listing "zones" [("account.id", client.accountId)] client.memberList.2

/-- The groups that a run lists. -/
def Client.groupList (client : Client) : Listing × Budget :=
  client.listing s!"accounts/{client.accountId}/iam/user_groups" [] client.zoneList.2

/-- The resources behind the zones. -/
structure Zoned (client : Client) (s₀ : Snapshot) (entries : List (String × Value))
    (found : Std.ExtTreeSet String × Snapshot) : Prop where
  accounts : found.2.accounts = s₀.accounts
  groups : found.2.groups = s₀.groups
  resources : ∀ r ∈ found.2.resources, r ∈ s₀.resources ∨
    ∃ entry ∈ entries, r.key = zoneKey client entry.1 ∧ InAccount client entry.2
  first : ∀ r ∈ s₀.resources, r ∈ found.2.resources
  zones : ∀ zone ∈ found.1, zoneKey client zone ∈ found.2.resources.map (·.key) ∧
    ∃ v, (zone, v) ∈ entries ∧ InAccount client v

theorem Zoned.zone {s₀ : Snapshot} {entries : List (String × Value)}
    {found : Std.ExtTreeSet String × Snapshot} (h : Zoned client s₀ entries found)
    (entry : String × Value) : Zoned client s₀ (entries ++ [entry]) (client.zone found entry) := by
  have resources : ∀ r ∈ found.2.resources, r ∈ s₀.resources ∨
      ∃ e ∈ entries ++ [entry], r.key = zoneKey client e.1 ∧ InAccount client e.2 := by
    intro r mem
    apply (h.resources r mem).imp_right
    rintro ⟨e, he, hr⟩
    exact ⟨e, List.mem_append_left _ he, hr⟩
  have zones : ∀ zone ∈ found.1, zoneKey client zone ∈ found.2.resources.map (·.key) ∧
      ∃ v, (zone, v) ∈ entries ++ [entry] ∧ InAccount client v := by
    intro zone mem
    obtain ⟨there, v, hv, inside⟩ := h.zones zone mem
    exact ⟨there, v, List.mem_append_left _ hv, inside⟩
  unfold Client.zone
  dsimp only
  split
  · exact ⟨h.accounts, h.groups, resources, h.first, zones⟩
  case isFalse inside =>
    split
    · exact ⟨h.accounts, h.groups, resources, h.first, zones⟩
    · refine ⟨h.accounts, h.groups, fun r mem => ?_, fun r mem => ?_, fun zone mem => ?_⟩
      · rcases List.mem_append.mp mem with mem | mem
        · exact resources r mem
        · rw [List.mem_singleton.mp mem]
          exact .inr ⟨entry, by simp, rfl, not_not.mp inside⟩
      · exact List.mem_append_left _ (h.first r mem)
      · rw [List.map_append]
        rcases mem_insert_key.mp mem with rfl | mem
        · exact ⟨List.mem_append_right _ (List.mem_singleton_self _), entry.2, by simp,
            not_not.mp inside⟩
        · obtain ⟨there, listed⟩ := zones zone mem
          exact ⟨List.mem_append_left _ there, listed⟩

/-! ## The run -/

/-- What a run has put into the snapshot before the grants. -/
structure Stocked (client : Client) (g : Client.Gathered) : Prop where
  accounts : ∀ k, k ∈ g.state.snapshot.accounts.map (·.key) ↔
    ∃ m ∈ g.state.active, k = client.memberKey m
  accountsOnce : (g.state.snapshot.accounts.map (·.key)).Nodup
  groupsOnce : (g.state.snapshot.groups.map (·.key)).Nodup
  visited : ∀ visit ∈ g.state.visits, client.groupKey visit.key ∈
    g.state.snapshot.groups.map (·.key)
  known : ∀ x ∈ g.state.memberships, x.2.group ∈ g.state.snapshot.groups.map (·.key)
  pairs : (g.state.memberships.map fun x => (x.1, x.2.group)).Nodup
  resources : ∀ r ∈ g.state.snapshot.resources, r.key = accountKey client ∨
    ∃ zone v, r.key = zoneKey client zone ∧ Agree client.zoneList.1.rows zone v ∧ InAccount client v
  zones : ∀ zone ∈ g.zones, zoneKey client zone ∈ g.state.snapshot.resources.map (·.key) ∧
    ∃ v, Agree client.zoneList.1.rows zone v ∧ InAccount client v

theorem account_key {response : Value} {r : Resource} (h : client.account response = .ok r) :
    r.key = accountKey client := by
  unfold Client.account at h
  split at h
  · cases h
  · obtain ⟨native, -, h⟩ := bind_ok h
    dsimp only at h
    split at h
    · cases h
    · obtain ⟨name, -, h⟩ := bind_ok h
      cases h
      rfl

section

variable (client : Client) (account : Resource)

/-- The members, with the snapshot of the account behind them. -/
def Client.opened : Std.ExtTreeMap String Value × Snapshot :=
  unique client.memberList.1.rows (warnFailure
    { Snapshot.new client.id with limitations := VISIBILITY, resources := [account] }
    client.memberList.1.failure)

/-- The zones, with the snapshot behind them. -/
def Client.zoned : Std.ExtTreeSet String × Snapshot :=
  let found := unique client.zoneList.1.rows
    (warnFailure (client.opened account).2 client.zoneList.1.failure)
  found.1.toList.foldl client.zone (∅, found.2)

/-- The groups, with the snapshot before the members. -/
def Client.grouped : Std.ExtTreeMap String Value × Snapshot :=
  unique client.groupList.1.rows (warnFailure (client.zoned account).2 client.groupList.1.failure)

theorem gather_eq (observedAt : String) : client.gather observedAt = (do
    let response ← (client.request s!"accounts/{client.accountId}" [] ⟨0, 0⟩).1
    let account ← client.account response
    let state ← (client.opened account).1.toList.foldlM
      (client.enroll (client.zoned account).1 observedAt)
      ⟨(client.grouped account).2, client.groupList.2, ∅, ∅, [], [], []⟩
    let state ← (client.grouped account).1.toList.foldlM
      (client.group (client.zoned account).1 observedAt) state
    return ⟨client.memberList.1.rows, client.groupList.1.rows, (client.zoned account).1, state⟩) := rfl

theorem stock_opened : stock (client.opened account).2 = ([], [], [account]) :=
  (stock_unique _ _).trans (stock_warnFailure _ _)

theorem zoned_of_opened : Zoned client (client.opened account).2
    (unique client.zoneList.1.rows
      (warnFailure (client.opened account).2 client.zoneList.1.failure)).1.toList
    (client.zoned account) := by
  refine foldl_rule (Zoned client (client.opened account).2) ?_ (fun _ entry _ h => h.zone entry) _
  have same := (stock_unique client.zoneList.1.rows _).trans
    (stock_warnFailure (client.opened account).2 client.zoneList.1.failure)
  obtain ⟨accounts, rest⟩ := Prod.mk.inj same
  obtain ⟨groups, resources⟩ := Prod.mk.inj rest
  refine ⟨accounts, groups, fun r mem => .inl (resources ▸ mem), fun r mem => resources ▸ mem,
    fun zone mem => ?_⟩
  exact absurd mem Std.ExtTreeSet.not_mem_empty

/-- Before the members there are no accounts and no groups. -/
theorem stock_grouped :
    stock (client.grouped account).2 = ([], [], (client.zoned account).2.resources) := by
  obtain ⟨noAccounts, rest⟩ := Prod.mk.inj (stock_opened client account)
  obtain ⟨noGroups, -⟩ := Prod.mk.inj rest
  have zoned := zoned_of_opened client account
  calc stock (client.grouped account).2 = stock (client.zoned account).2 :=
        (stock_unique _ _).trans (stock_warnFailure _ _)
    _ = ([], [], (client.zoned account).2.resources) := by
        rw [stock, zoned.accounts, zoned.groups, noAccounts, noGroups]

end

/-- The parts of a run that returns. -/
theorem gather_parts {g : Client.Gathered} (ok : client.gather observedAt = .ok g) :
    ∃ response account s₁, client.account response = .ok account ∧
      (client.opened account).1.toList.foldlM (client.enroll (client.zoned account).1 observedAt)
        ⟨(client.grouped account).2, client.groupList.2, ∅, ∅, [], [], []⟩ = .ok s₁ ∧
      (client.grouped account).1.toList.foldlM (client.group (client.zoned account).1 observedAt) s₁ =
        .ok g.state ∧
      g = ⟨client.memberList.1.rows, client.groupList.1.rows, (client.zoned account).1, g.state⟩ := by
  rw [gather_eq] at ok
  obtain ⟨response, -, ok⟩ := bind_ok ok
  obtain ⟨account, found, ok⟩ := bind_ok ok
  obtain ⟨s₁, first, ok⟩ := bind_ok ok
  obtain ⟨s₂, second, ok⟩ := bind_ok ok
  cases ok
  exact ⟨response, account, s₁, found, first, second, rfl⟩

section

variable {account : Resource} {s₁ s₂ : State}
  (first : (client.opened account).1.toList.foldlM
    (client.enroll (client.zoned account).1 observedAt)
    ⟨(client.grouped account).2, client.groupList.2, ∅, ∅, [], [], []⟩ = .ok s₁)
  (second : (client.grouped account).1.toList.foldlM
    (client.group (client.zoned account).1 observedAt) s₁ = .ok s₂)

include first in
theorem accounts_of_members :
    Accounts client (client.grouped account).2 (client.opened account).1.toList s₁ := by
  obtain ⟨noAccounts, -⟩ := Prod.mk.inj (stock_grouped client account)
  refine foldlM_rule (Accounts client (client.grouped account).2) ⟨rfl, rfl, fun k => ?_, ?_⟩
    (fun _ _ _ _ h ok => h.enroll ok) first
  · dsimp only
    rw [noAccounts]
    simp
  · dsimp only
    rw [noAccounts]
    exact .refl _

include first in
theorem enrolled_of_members : Enrolled client (client.zoned account).1 observedAt
    (client.opened account).1.toList s₁ :=
  foldlM_rule (Enrolled client (client.zoned account).1 observedAt) (enrolled_start _ _)
    (fun _ _ _ _ h ok => h.enroll ok) first

include first second in
theorem groups_of_members : Groups client s₁ (client.grouped account).1.toList s₂ := by
  obtain ⟨-, rest⟩ := Prod.mk.inj (stock_grouped client account)
  obtain ⟨noGroups, -⟩ := Prod.mk.inj rest
  have enrolled := enrolled_of_members first
  have start : Groups client s₁ [] s₁ := by
    refine ⟨rfl, rfl, ?_, fun visit mem => ?_, fun x mem => ?_, ?_⟩
    · rw [(accounts_of_members first).groups, noGroups]
      exact .refl _
    · rw [enrolled.visits] at mem
      cases mem
    · rw [enrolled.memberships] at mem
      cases mem
    · rw [enrolled.memberships]
      exact List.nodup_nil
  refine foldlM_rule (fun entries s => (entries.map Prod.fst).Nodup → Groups client s₁ entries s)
    (fun _ => start) (fun before entry s s' h ok nodup => ?_) second ?_
  · rw [List.map_append, List.nodup_append] at nodup
    exact (h nodup.1).group (fun mem => nodup.2.2 _ mem _ (List.mem_singleton_self _) rfl) ok
  · rw [Std.ExtTreeMap.map_fst_toList_eq_keys]
    exact Std.ExtTreeMap.nodup_keys

end

theorem stocked_of_gather {g : Client.Gathered} (ok : client.gather observedAt = .ok g) :
    Stocked client g := by
  obtain ⟨response, account, s₁, found, first, second, eq⟩ := gather_parts ok
  obtain ⟨-, rest⟩ := Prod.mk.inj (stock_opened client account)
  obtain ⟨-, onlyAccount⟩ := Prod.mk.inj rest
  obtain ⟨-, rest⟩ := Prod.mk.inj (stock_grouped client account)
  obtain ⟨-, stocked⟩ := Prod.mk.inj rest
  have zoned := zoned_of_opened client account
  have accounts := accounts_of_members first
  have groups := groups_of_members first second
  have active := (foldlM_rule (Grouped client (client.zoned account).1 observedAt s₁)
    (enrolled_of_members first).grouped (fun _ _ _ _ h ok => h.group ok) second).active
  have resources : g.state.snapshot.resources = (client.zoned account).2.resources :=
    groups.resources.trans (accounts.resources.trans stocked)
  have zones : g.zones = (client.zoned account).1 := by rw [eq]
  have once {key : String → EntityKey} (inj : Function.Injective key)
      (m : Std.ExtTreeMap String Value) : (m.toList.map fun e => key e.1).Nodup := by
    have keys := (Std.ExtTreeMap.nodup_keys (t := m)).map inj
    rwa [← Std.ExtTreeMap.map_fst_toList_eq_keys, List.map_map] at keys
  constructor
  · intro k
    rw [groups.accounts, accounts.keys]
    simp only [active]
  · rw [groups.accounts]
    exact (once (memberKey_injective client) _).sublist accounts.sublist
  · exact (once (groupKey_injective client) _).sublist groups.sublist
  · exact groups.visited
  · exact groups.known
  · exact groups.pairs
  · intro r mem
    rw [resources] at mem
    rcases zoned.resources r mem with mem | ⟨entry, mem, key, inside⟩
    · rw [onlyAccount] at mem
      rw [List.mem_singleton.mp mem]
      exact .inl (account_key found)
    · exact .inr ⟨entry.1, entry.2, key, (mem_unique ..).mp mem, inside⟩
  · intro zone mem
    rw [zones] at mem
    obtain ⟨there, v, listed, inside⟩ := zoned.zones zone mem
    refine ⟨?_, v, (mem_unique ..).mp listed, inside⟩
    rw [resources]
    exact there

/-! ## The snapshot -/

/-- What the output has taken of the grants so far. -/
structure Produced (resources : Std.ExtTreeMap EntityKey Resource)
    (entries : List (Grant × Resource)) (o : Client.Output) : Prop where
  once : (o.grants.map (·.id)).Nodup
  seen : ∀ x ∈ o.grants, x.id ∈ o.seen
  keyed : KeyedBy Resource.key o.resources
  old : ∀ k ∈ resources, k ∈ o.resources
  new : ∀ k ∈ o.resources, k ∈ resources ∨ ∃ x ∈ entries, x.2.key = k
  taken : ∀ x ∈ o.grants, ∃ r, (x, r) ∈ entries ∧ r.key ∈ o.resources

theorem Produced.emit {resources : Std.ExtTreeMap EntityKey Resource}
    {entries : List (Grant × Resource)} {o : Client.Output} (h : Produced resources entries o)
    (blocked : EntityKey → Bool) (entry : Grant × Resource) :
    Produced resources (entries ++ [entry]) (Client.emit blocked o entry) := by
  obtain ⟨grant, resource⟩ := entry
  have new : ∀ k ∈ o.resources, k ∈ resources ∨
      ∃ x ∈ entries ++ [(grant, resource)], x.2.key = k := by
    intro k mem
    apply (h.new k mem).imp_right
    rintro ⟨x, hx, rfl⟩
    exact ⟨x, List.mem_append_left _ hx, rfl⟩
  unfold Client.emit
  dsimp only
  split
  · refine ⟨h.once, h.seen, h.keyed, h.old, new, fun x mem => ?_⟩
    obtain ⟨r, there, known⟩ := h.taken x mem
    exact ⟨r, List.mem_append_left _ there, known⟩
  · -- the resource of the grant is there from now on
    have known (k : EntityKey) : k ∈ (if resource.key ∈ o.resources then o.resources
        else o.resources.insert resource.key resource) ↔ resource.key = k ∨ k ∈ o.resources := by
      split
      case isTrue there => exact ⟨.inr, fun h => h.elim (fun same => same ▸ there) fun mem => mem⟩
      case isFalse => exact mem_insert_map
    refine ⟨?_, fun x mem => ?_, ?_, fun k mem => ?_, fun k mem => ?_, fun x mem => ?_⟩
    · split
      · exact h.once
      case isFalse fresh =>
        refine nodup_map_snoc h.once fun x hx same => fresh ?_
        rw [← same]
        exact h.seen x hx
    · apply mem_insert_key.mpr
      split at mem
      · exact .inr (h.seen x mem)
      · rcases List.mem_append.mp mem with mem | mem
        · exact .inr (h.seen x mem)
        · rw [List.mem_singleton.mp mem]
          exact .inl rfl
    · show KeyedBy Resource.key (if resource.key ∈ o.resources then o.resources
        else o.resources.insert resource.key resource)
      split
      · exact h.keyed
      · exact h.keyed.insert rfl
    · exact (known k).mpr (.inr (h.old k mem))
    · rcases (known k).mp mem with same | mem
      · exact .inr ⟨(grant, resource), by simp, same⟩
      · exact new k mem
    · have old (mem : x ∈ o.grants) : ∃ r, (x, r) ∈ entries ++ [(grant, resource)] ∧
          r.key ∈ (if resource.key ∈ o.resources then o.resources
            else o.resources.insert resource.key resource) := by
        obtain ⟨r, there, mem⟩ := h.taken x mem
        exact ⟨r, List.mem_append_left _ there, (known _).mpr (.inr mem)⟩
      dsimp only at mem
      split at mem
      · exact old mem
      · rcases List.mem_append.mp mem with mem | mem
        · exact old mem
        · rw [List.mem_singleton.mp mem]
          exact ⟨resource, by simp, (known _).mpr (.inl rfl)⟩

/-- The resources of a snapshot by their keys. -/
theorem keyed_resources (l : List Resource) :
    KeyedBy Resource.key (l.foldl (fun m r => m.insert r.key r)
        (∅ : Std.ExtTreeMap EntityKey Resource)) ∧
      ∀ k, k ∈ l.foldl (fun m r => m.insert r.key r) (∅ : Std.ExtTreeMap EntityKey Resource) ↔
        k ∈ l.map (·.key) := by
  refine foldl_rule (fun before (m : Std.ExtTreeMap EntityKey Resource) =>
    KeyedBy Resource.key m ∧ ∀ k, k ∈ m ↔ k ∈ before.map (·.key)) ?_ ?_ l
  · exact ⟨keyedBy_empty _, by simp⟩
  · rintro before r m ⟨keyed, keys⟩
    refine ⟨keyed.insert rfl, fun k => ?_⟩
    rw [mem_insert_map, keys, List.map_append, List.mem_append, List.map_singleton,
      List.mem_singleton, or_comm, eq_comm]

/-- The snapshot of a run refers to what is in it, names nothing twice, and stays within the account. -/
structure Closed (client : Client) (observedAt : String) (g : Client.Gathered) (s : Snapshot) :
    Prop where
  members : ∀ x ∈ s.memberships, (∃ a ∈ s.accounts, x.member = .account a.key) ∧
    ∃ group ∈ s.groups, x.group = group.key
  subjects : ∀ x ∈ s.grants, (∃ a ∈ s.accounts, x.subject = .account a.key) ∨
    ∃ group ∈ s.groups, x.subject = .group group.key
  targets : ∀ x ∈ s.grants, ∃ r ∈ s.resources, x.resource = r.key
  inside : ∀ r ∈ s.resources, r.key = accountKey client ∨ r.key = scopeKey client ∨
    ∃ zone v, r.key = zoneKey client zone ∧ Agree client.zoneList.1.rows zone v ∧ InAccount client v
  accepted : ∀ a ∈ s.accounts, ∃ m, a.key = client.memberKey m ∧ Active g.memberRows m
  joined : ∀ x ∈ s.memberships, ∃ m, ∃ visit ∈ g.state.visits,
    x = membershipOf client observedAt m visit.key ∧ Active g.memberRows m ∧ Joins visit.rows m
  accountsOnce : (s.accounts.map (·.key)).Nodup
  groupsOnce : (s.groups.map (·.key)).Nodup
  resourcesOnce : (s.resources.map (·.key)).Nodup
  membershipsOnce : (s.memberships.map fun x => (x.member, x.group)).Nodup
  grantsOnce : (s.grants.map (·.id)).Nodup
  assignments : ∀ x ∈ g.state.grants, ∀ y ∈ g.state.grants, x.1.id = y.1.id →
    x.1.subject = y.1.subject ∧ x.1.resource = y.1.resource ∧ x.1.role = y.1.role

/-- Sorting keeps the snapshot closed. -/
theorem Closed.sort {g : Client.Gathered} {s : Snapshot} (h : Closed client observedAt g s)
    (core : Core) : Closed client observedAt g (core.sort s) := by
  constructor
  · simpa using h.members
  · simpa using h.subjects
  · simpa using h.targets
  · simpa using h.inside
  · simpa using h.accepted
  · simpa using h.joined
  · exact ((core.accounts_perm _).map _).nodup_iff.mpr h.accountsOnce
  · exact ((core.groups_perm _).map _).nodup_iff.mpr h.groupsOnce
  · exact ((core.resources_perm _).map _).nodup_iff.mpr h.resourcesOnce
  · exact ((core.memberships_perm _).map _).nodup_iff.mpr h.membershipsOnce
  · exact ((core.grants_perm _).map _).nodup_iff.mpr h.grantsOnce
  · exact h.assignments

section

variable {g : Client.Gathered}

/-- The key of an active member is the key of an account. -/
theorem Stocked.account (stocked : Stocked client g) (read : Read client observedAt g) {m : String}
    (active : Active g.memberRows m) :
    ∃ a ∈ g.state.snapshot.accounts, Subject.account (client.memberKey m) = .account a.key := by
  have there := (stocked.accounts (client.memberKey m)).mpr ⟨m, (read.active m).mpr active, rfl⟩
  obtain ⟨a, mem, key⟩ := List.mem_map.mp there
  exact ⟨a, mem, by rw [key]⟩

theorem exists_group {k : EntityKey} (known : k ∈ g.state.snapshot.groups.map (·.key)) :
    ∃ group ∈ g.state.snapshot.groups, k = group.key := by
  obtain ⟨x, mem, key⟩ := List.mem_map.mp known
  exact ⟨x, mem, key.symm⟩

/-- A grant is one of the policies of its subject. -/
theorem Read.part (read : Read client observedAt g) {x : Grant × Resource}
    (mem : x ∈ g.state.grants) :
    ∃ subject value provenance, Source client observedAt g subject value provenance ∧
      ∃ names policyId roleId, Part client g.zones subject names x policyId roleId := by
  obtain ⟨subject, value, provenance, grants, source, ok, there⟩ := read.source mem
  obtain ⟨names, parts⟩ := policies_parts ok
  exact ⟨subject, value, provenance, source, names, parts x there⟩

theorem mem_graph_memberships {x : Membership} (mem : x ∈ (client.graph g.state).memberships) :
    ∃ m, (m, x) ∈ g.state.memberships := by
  obtain ⟨entry, there, rfl⟩ := List.mem_map.mp mem
  exact ⟨entry.1, (List.mem_filter.mp there).1⟩

/-- No two memberships have the same member and group: a membership names its member. -/
theorem Read.membershipsOnce (read : Read client observedAt g) (stocked : Stocked client g) :
    ((client.graph g.state).memberships.map fun x => (x.member, x.group)).Nodup := by
  have pairs : (g.state.memberships.map fun x => (x.2.member, x.2.group)) =
      (g.state.memberships.map fun x => (x.1, x.2.group)).map
        fun pair => (Subject.account (client.memberKey pair.1), pair.2) := by
    rw [List.map_map]
    apply List.map_congr_left
    intro x mem
    obtain ⟨-, visit, -, -, -, eq⟩ := (read.memberships x.1 x.2).mp mem
    have member : x.2.member = .account (client.memberKey x.1) := by rw [eq]; rfl
    rw [member]
    rfl
  have once : (g.state.memberships.map fun x => (x.2.member, x.2.group)).Nodup := by
    rw [pairs]
    apply stocked.pairs.map
    intro pair pair' same
    obtain ⟨member, group⟩ := Prod.mk.inj same
    exact Prod.ext (memberKey_injective client (Subject.account.inj member)) group
  show (((g.state.memberships.filter _).map Prod.snd).map _).Nodup
  rw [List.map_map]
  exact once.sublist (List.filter_sublist.map _)

/-- The graph has taken the grants one by one. -/
theorem produced_graph (client : Client) (s : State) :
    Produced (s.snapshot.resources.foldl (fun m r => m.insert r.key r) ∅) s.grants
      (s.grants.foldl (Client.emit fun key => key ∈ s.blocked.toList.map client.memberKey)
        ⟨∅, [], s.snapshot.resources.foldl (fun m r => m.insert r.key r) ∅⟩) := by
  refine foldl_rule (Produced _) ?_ (fun _ entry _ h => h.emit _ entry) s.grants
  exact ⟨List.nodup_nil, fun _ mem => (by cases mem), (keyed_resources _).1, fun _ mem => mem,
    fun _ => .inl, fun _ mem => (by cases mem)⟩

/-- The subject of a grant is an active member, or a group that was visited. -/
theorem Read.subject (read : Read client observedAt g) (stocked : Stocked client g) {x : Grant}
    (mem : x ∈ (client.graph g.state).grants) :
    (∃ a ∈ g.state.snapshot.accounts, x.subject = .account a.key) ∨
      ∃ group ∈ g.state.snapshot.groups, x.subject = .group group.key := by
  obtain ⟨r, there, -⟩ := (produced_graph client g.state).taken x mem
  obtain ⟨subject, value, provenance, source, names, policyId, roleId, part⟩ := read.part there
  have subject := part.subject
  dsimp only at subject
  rw [subject]
  cases source with
  | member agree isMember => exact .inl (stocked.account read ⟨_, agree, isMember⟩)
  | group visited agree =>
    obtain ⟨x, mem, key⟩ := exists_group (stocked.visited _ visited)
    exact .inr ⟨x, mem, by rw [key]⟩

/-- The resource of a grant was put in with it. -/
theorem Read.resource (read : Read client observedAt g) {x : Grant}
    (mem : x ∈ (client.graph g.state).grants) :
    ∃ r ∈ (client.graph g.state).resources, x.resource = r.key := by
  have produced := produced_graph client g.state
  obtain ⟨r, there, known⟩ := produced.taken x mem
  obtain ⟨subject, value, provenance, source, names, policyId, roleId, part⟩ := read.part there
  rw [Std.ExtTreeMap.mem_iff_isSome_getElem?, Option.isSome_iff_exists] at known
  obtain ⟨r', known⟩ := known
  have key := produced.keyed r.key r' known
  exact ⟨r', mem_values.mpr ⟨_, known⟩, part.resource.trans key.symm⟩

/-- A resource was there before the grants, or is the target of a policy. -/
theorem Read.inside (read : Read client observedAt g) (stocked : Stocked client g) {r : Resource}
    (mem : r ∈ (client.graph g.state).resources) :
    r.key = accountKey client ∨ r.key = scopeKey client ∨ ∃ zone v, r.key = zoneKey client zone ∧
      Agree client.zoneList.1.rows zone v ∧ InAccount client v := by
  have produced := produced_graph client g.state
  obtain ⟨k, known⟩ := mem_values.mp mem
  have key := produced.keyed k r known
  subst key
  have there := Std.ExtTreeMap.mem_iff_isSome_getElem?.mpr (Option.isSome_of_eq_some known)
  rcases produced.new r.key there with old | ⟨x, hx, same⟩
  · obtain ⟨r', mem', same⟩ := List.mem_map.mp (((keyed_resources _).2 _).mp old)
    rw [← same]
    exact (stocked.resources r' mem').imp_right .inr
  · obtain ⟨subject, value, provenance, source, names, policyId, roleId, part⟩ := read.part hx
    rw [← same]
    rcases part.target with scope | ⟨zone, listed, key⟩
    · exact .inr (.inl scope)
    · obtain ⟨-, v, agree, inside⟩ := stocked.zones zone listed
      exact .inr (.inr ⟨zone, v, key, agree, inside⟩)

end

/-- **The snapshot that a run validates is closed.** -/
theorem closed_of_gather (client : Client) (core : Core) (observedAt : String) {g : Client.Gathered}
    (gathered : client.gather observedAt = .ok g) :
    Closed client observedAt g (core.sort (client.graph g.state)) := by
  refine Closed.sort ?_ core
  have read := read_of_gather gathered
  have stocked := stocked_of_gather gathered
  have produced := produced_graph client g.state
  constructor
  · intro x mem
    obtain ⟨m, there⟩ := mem_graph_memberships mem
    obtain ⟨active, visit, -, -, -, rfl⟩ := (read.memberships m x).mp there
    exact ⟨stocked.account read active, exists_group (stocked.known _ there)⟩
  · exact fun x mem => read.subject stocked mem
  · exact fun x mem => read.resource mem
  · exact fun r mem => read.inside stocked mem
  · intro a mem
    obtain ⟨m, active, key⟩ := (stocked.accounts a.key).mp (List.mem_map_of_mem mem)
    exact ⟨m, key, (read.active m).mp active⟩
  · intro x mem
    obtain ⟨m, there⟩ := mem_graph_memberships mem
    obtain ⟨active, visit, visited, -, joins, eq⟩ := (read.memberships m x).mp there
    exact ⟨m, visit, visited, eq, active, joins⟩
  · exact stocked.accountsOnce
  · exact stocked.groupsOnce
  · exact produced.keyed.nodup
  · exact read.membershipsOnce stocked
  · exact produced.once
  · exact fun x hx y hy same => read.assignment hx hy same

/-- The sample with a group that is allowed everything. -/
def openClient : Client :=
  { sampleClient [sampleRow] with
    net := { (sampleClient [sampleRow]).net with
      decode := fun bytes =>
        if bytes = [4] then some (sampleResponse (.array [.object [
          ("id", .string (sampleId 'e')), ("name", .string "Operators"),
          ("policies", .array [samplePolicy "allow"])]]))
        else (sampleClient [sampleRow]).net.decode bytes } }

/-- A run with one member, who is granted something and belongs to a group that is. -/
theorem sample_closed : ∃ g, openClient.gather "2026-01-01T00:00:00Z" = .ok g ∧
    (openClient.graph g.state).memberships.length = 1 ∧
    (openClient.graph g.state).grants.length = 2 ∧
    Closed openClient "2026-01-01T00:00:00Z" g (Core.plain.sort (openClient.graph g.state)) := by
  have gathers : (openClient.gather "2026-01-01T00:00:00Z").toOption.any (fun g =>
      (openClient.graph g.state).memberships.length == 1 &&
        (openClient.graph g.state).grants.length == 2) = true := by
    decide +kernel
  cases gathered : openClient.gather "2026-01-01T00:00:00Z" with
  | error e =>
    rw [gathered] at gathers
    cases gathers
  | ok g =>
    rw [gathered] at gathers
    obtain ⟨joined, granted⟩ := Bool.and_eq_true_iff.mp gathers
    exact ⟨g, rfl, beq_iff_eq.mp joined, beq_iff_eq.mp granted,
      closed_of_gather _ Core.plain _ gathered⟩

end Permesh.Cloudflare

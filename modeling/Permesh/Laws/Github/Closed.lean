import Permesh.Laws.Github.Complete
import Permesh.Laws.Github.Keys
import Permesh.Laws.Github.Steps
import Permesh.Laws.Github.Walk

/-!
# Laws.Github.Closed — the snapshot that is validated

Accounts, repositories and teams are blocked in the middle of a traversal, while their keys are still
in use. What was seen once is in its map or blocked (`Linked`), so what `finish` keeps refers only to
entries of the snapshot. Organizations are never blocked: their keys are of another kind.

The invariant is shown for one row of each kind and carried through the rule of a traversal
(`onward_walk`). `finish` then drops what mentions a blocked key, and what is left is closed. That no two
grants have one identifier is a matter of their texts (`Laws.Github.Keys`).
-/

namespace Permesh.Github

open Permesh.Json Permesh.Http Permesh.Lib

/-! ## What was seen -/

/-- An organization that was entered: its resource and its group are there. -/
structure Organized (c : Collection) (k : EntityKey) : Prop where
  kind : OfKind c.snapshot.provider "organization" k
  resource : ∃ r : Resource, c.resources[k]? = some r ∧ r.kind = some "github.organization"
  group : k ∈ c.groups

def AccountSeen (c : Collection) : EntityKey → Prop := Seen c.accounts c.blockedAccounts

def ResourceSeen (c : Collection) : EntityKey → Prop := Seen c.resources c.blockedResources

def GroupSeen (c : Collection) : EntityKey → Prop := Seen c.groups c.blockedGroups

def SubjectSeen (c : Collection) : Subject → Prop
  | .account k => AccountSeen c k
  | .group k => GroupSeen c k

/-! ## The invariant -/

/-- Entries and blocked keys: what was blocked is gone, and only repositories and teams are blocked
among resources and groups. -/
structure Entities (c : Collection) : Prop where
  accounts : Apart c.accounts c.blockedAccounts
  resources : Apart c.resources c.blockedResources
  groups : Apart c.groups c.blockedGroups
  accountKeys : ∀ k, AccountSeen c k → AccountKey c.snapshot.provider k
  resourceKeys : ∀ k, ResourceSeen c k → OfKind c.snapshot.provider "organization" k ∨
    OfKind c.snapshot.provider "repository" k
  groupKeys : ∀ k, GroupSeen c k → OfKind c.snapshot.provider "organization" k ∨
    OfKind c.snapshot.provider "team" k
  blockedResources : ∀ k ∈ c.blockedResources, OfKind c.snapshot.provider "repository" k
  blockedGroups : ∀ k ∈ c.blockedGroups, OfKind c.snapshot.provider "team" k
  parents : ∀ (k : EntityKey) (r : Resource), c.resources[k]? = some r → ∀ o ∈ r.parent,
    Organized c o

/-- What memberships and grants mention was seen. -/
structure References (c : Collection) : Prop where
  memberships : ∀ k ∈ c.memberships, SubjectSeen c k.1 ∧ GroupSeen c k.2
  grants : ∀ (k : GrantKey) (g : Grant), c.grants[k]? = some g → Plain k.1 ∧
    SubjectSeen c k.2.1 ∧ ResourceSeen c k.2.2 ∧
      g.id = (c.grantOf k.2.1 k.2.2 g.role g.privilege k.1).id

structure Linked (c : Collection) : Prop where
  entities : Entities c
  references : References c

/-- What was seen stays seen, and what was blocked stays blocked. -/
structure Advances (c c' : Collection) : Prop where
  provider : c'.snapshot.provider = c.snapshot.provider
  accounts : ∀ k, AccountSeen c k → AccountSeen c' k
  resources : ∀ k, ResourceSeen c k → ResourceSeen c' k
  groups : ∀ k, GroupSeen c k → GroupSeen c' k
  blockedAccounts : ∀ k ∈ c.blockedAccounts, k ∈ c'.blockedAccounts
  blockedResources : ∀ k ∈ c.blockedResources, k ∈ c'.blockedResources
  blockedGroups : ∀ k ∈ c.blockedGroups, k ∈ c'.blockedGroups
  organized : ∀ k, Organized c k → Organized c' k

/-- A step that keeps the invariant. -/
structure Onward (c c' : Collection) : Prop extends Advances c c' where
  linked : Linked c → Linked c'

theorem Onward.refl (c : Collection) : Onward c c :=
  ⟨⟨rfl, fun _ => id, fun _ => id, fun _ => id, fun _ => id, fun _ => id, fun _ => id,
    fun _ => id⟩, id⟩

theorem Onward.trans {c c' c'' : Collection} (h : Onward c c') (h' : Onward c' c'') :
    Onward c c'' where
  provider := h'.provider.trans h.provider
  accounts := fun k seen => h'.accounts k (h.accounts k seen)
  resources := fun k seen => h'.resources k (h.resources k seen)
  groups := fun k seen => h'.groups k (h.groups k seen)
  blockedAccounts := fun k gone => h'.blockedAccounts k (h.blockedAccounts k gone)
  blockedResources := fun k gone => h'.blockedResources k (h.blockedResources k gone)
  blockedGroups := fun k gone => h'.blockedGroups k (h.blockedGroups k gone)
  organized := fun k there => h'.organized k (h.organized k there)
  linked := fun all => h'.linked (h.linked all)

theorem Advances.subject {c c' : Collection} (h : Advances c c') {s : Subject}
    (seen : SubjectSeen c s) : SubjectSeen c' s := by
  cases s with
  | account k => exact h.accounts k seen
  | group k => exact h.groups k seen

/-- References stay references as long as no new ones are made. -/
theorem References.mono {c c' : Collection} (h : References c) (on : Advances c c')
    (memberships : c'.memberships = c.memberships) (grants : c'.grants = c.grants) :
    References c' where
  memberships := by
    rw [memberships]
    exact fun k mem => ⟨on.subject (h.memberships k mem).1, on.groups _ (h.memberships k mem).2⟩
  grants := by
    rw [grants]
    intro k g known
    obtain ⟨plain, subject, resource, id⟩ := h.grants k g known
    exact ⟨plain, on.subject subject, on.resources _ resource, id⟩

/-! ## Steps -/

/-- The entries of a collection and its blocked keys. -/
def entityPart (c : Collection) :=
  (c.snapshot.provider, c.accounts, c.resources, c.groups, c.blockedAccounts, c.blockedResources,
    c.blockedGroups)

theorem Advances.of_same {c c' : Collection} (same : entityPart c' = entityPart c) :
    Advances c c' := by
  simp only [entityPart, Prod.mk.injEq] at same
  obtain ⟨provider, accounts, resources, groups, blockedAccounts, blockedResources,
    blockedGroups⟩ := same
  constructor
  · exact provider
  · unfold AccountSeen
    rw [accounts, blockedAccounts]
    exact fun _ => id
  · unfold ResourceSeen
    rw [resources, blockedResources]
    exact fun _ => id
  · unfold GroupSeen
    rw [groups, blockedGroups]
    exact fun _ => id
  · rw [blockedAccounts]
    exact fun _ => id
  · rw [blockedResources]
    exact fun _ => id
  · rw [blockedGroups]
    exact fun _ => id
  · intro k h
    exact ⟨by rw [provider]; exact h.kind, by rw [resources]; exact h.resource,
      by rw [groups]; exact h.group⟩

theorem Entities.of_same {c c' : Collection} (h : Entities c)
    (same : entityPart c' = entityPart c) : Entities c' := by
  have on := Advances.of_same same
  have back := Advances.of_same same.symm
  simp only [entityPart, Prod.mk.injEq] at same
  obtain ⟨provider, accounts, resources, groups, blockedAccounts, blockedResources,
    blockedGroups⟩ := same
  constructor
  · rw [accounts, blockedAccounts]
    exact h.accounts
  · rw [resources, blockedResources]
    exact h.resources
  · rw [groups, blockedGroups]
    exact h.groups
  · rw [provider]
    exact fun k seen => h.accountKeys k (back.accounts k seen)
  · rw [provider]
    exact fun k seen => h.resourceKeys k (back.resources k seen)
  · rw [provider]
    exact fun k seen => h.groupKeys k (back.groups k seen)
  · rw [provider, blockedResources]
    exact h.blockedResources
  · rw [provider, blockedGroups]
    exact h.blockedGroups
  · rw [resources]
    exact fun k r known o ho => on.organized o (h.parents k r known o ho)

/-- A step at which entries come in or are blocked, and no references are made. -/
theorem Onward.entries {c c' : Collection} (on : Advances c c')
    (memberships : c'.memberships = c.memberships) (grants : c'.grants = c.grants)
    (entities : Entities c → Entities c') : Onward c c' :=
  ⟨on, fun h => ⟨entities h.entities, h.references.mono on memberships grants⟩⟩

/-- A step that leaves entries and references as they are. -/
theorem Onward.of_same {c c' : Collection} (same : entityPart c' = entityPart c)
    (memberships : c'.memberships = c.memberships) (grants : c'.grants = c.grants) : Onward c c' :=
  .entries (.of_same same) memberships grants fun h => h.of_same same

theorem onward_fail (c : Collection) (endpoint : String) (failure : ProviderError) :
    Onward c (c.fail endpoint failure) := .of_same rfl rfl rfl

theorem onward_accept (c : Collection) (endpoint : String) (list : Listing) :
    Onward c (c.accept endpoint list).2 := by
  unfold Collection.accept
  dsimp only
  split
  · exact .of_same rfl rfl rfl
  · exact .of_same rfl rfl rfl

theorem onward_account (c : Collection) (row : Value) : Onward c (c.account row).2 ∧
    ∀ k ∈ (c.account row).1, AccountSeen (c.account row).2 k := by
  have step := account_step c row
  generalize c.account row = result at step ⊢
  cases step with
  | skipped => exact ⟨.refl c, fun k h => by cases h⟩
  | unread failure => exact ⟨onward_fail .., fun k h => by cases h⟩
  | blocked id failure =>
    have on : Advances c (c.blockAccount ⟨c.snapshot.provider, toString id⟩) :=
      { (Onward.refl c).toAdvances with
        accounts := fun _ seen => seen.takeOut _
        blockedAccounts := fun _ gone => mem_insert_key.mpr (.inr gone)
        organized := fun _ h => ⟨h.kind, h.resource, h.group⟩ }
    refine ⟨(Onward.entries on rfl rfl fun h => ?_).trans (onward_fail ..), fun k h => by cases h⟩
    refine { h with
      accounts := h.accounts.takeOut _
      accountKeys := fun k seen => ?_
      parents := fun k r known o ho => on.organized o (h.parents k r known o ho) }
    rcases seen.of_takeOut with rfl | seen
    · exact ⟨id, rfl⟩
    · exact h.accountKeys k seen
  | taken id account types free =>
    have on : Advances c { c with
        accounts := c.accounts.insert ⟨c.snapshot.provider, toString id⟩ account
        accountTypes := types } :=
      { (Onward.refl c).toAdvances with
        accounts := fun _ seen => seen.insert _ _
        organized := fun _ h => ⟨h.kind, h.resource, h.group⟩ }
    refine ⟨.entries on rfl rfl fun h => ?_, fun k same => ?_⟩
    · refine { h with
        accounts := h.accounts.insert free account
        accountKeys := fun k seen => ?_
        parents := fun k r known o ho => on.organized o (h.parents k r known o ho) }
      rcases Seen.of_insert seen with rfl | seen
      · exact ⟨id, rfl⟩
      · exact h.accountKeys k seen
    · cases same
      exact .inl (mem_insert_map.mpr (.inl rfl))

/-- A resource comes in, or another one comes in its place. -/
theorem onward_resource {c : Collection} {key : EntityKey} {resource : Resource}
    (kind : Organized c key → resource.kind = some "github.organization")
    (free : Entities c → key ∉ c.blockedResources)
    (keys : Entities c → OfKind c.snapshot.provider "organization" key ∨
      OfKind c.snapshot.provider "repository" key)
    (parent : Entities c → ∀ o ∈ resource.parent, Organized c o) :
    Onward c { c with resources := c.resources.insert key resource } := by
  have there (k : EntityKey) (h : Organized c k) : ∃ r : Resource,
      (c.resources.insert key resource)[k]? = some r ∧ r.kind = some "github.organization" := by
    rw [getElem?_insert_key]
    split
    case isTrue same =>
      subst same
      exact ⟨resource, rfl, kind h⟩
    case isFalse => exact h.resource
  have on : Advances c { c with resources := c.resources.insert key resource } :=
    { (Onward.refl c).toAdvances with
      resources := fun _ seen => seen.insert _ _
      organized := fun k h => ⟨h.kind, there k h, h.group⟩ }
  refine .entries on rfl rfl fun h => { h with
    resources := h.resources.insert (free h) resource
    resourceKeys := fun k seen => ?_
    parents := fun k r known o ho => on.organized o ?_ }
  · rcases Seen.of_insert seen with rfl | seen
    · exact keys h
    · exact h.resourceKeys k seen
  · dsimp only at known
    rw [getElem?_insert_key] at known
    split at known
    · cases known
      exact parent h o ho
    · exact h.parents k r known o ho

/-- A repository is of another kind than an organization. -/
theorem not_organized_repository {c : Collection} {id : Nat}
    (h : Organized c (c.key "repository" id)) : False :=
  absurd (h.kind.same ⟨id, rfl⟩) (by decide)

theorem onward_repository (c : Collection) (row : Value) : Onward c (c.repository row).2 ∧
    ∀ found ∈ (c.repository row).1, ResourceSeen (c.repository row).2 found.1 := by
  have step := repository_step c row
  generalize c.repository row = result at step ⊢
  cases step with
  | skipped => exact ⟨.refl c, fun k h => by cases h⟩
  | unread failure => exact ⟨onward_fail .., fun k h => by cases h⟩
  | blocked id failure =>
    have there (k : EntityKey) (h : Organized c k) : ∃ r : Resource,
        (c.resources.erase (c.key "repository" id))[k]? = some r ∧
          r.kind = some "github.organization" := by
      rw [getElem?_erase_key, if_neg]
      · exact h.resource
      · rintro rfl
        exact not_organized_repository h
    have on : Advances c (c.blockResource (c.key "repository" id)) :=
      { (Onward.refl c).toAdvances with
        resources := fun _ seen => seen.takeOut _
        blockedResources := fun _ gone => mem_insert_key.mpr (.inr gone)
        organized := fun k h => ⟨h.kind, there k h, h.group⟩ }
    refine ⟨(Onward.entries on rfl rfl fun h => ?_).trans (onward_fail ..), fun k h => by cases h⟩
    refine { h with
      resources := h.resources.takeOut _
      resourceKeys := fun k seen => ?_
      blockedResources := fun k gone => ?_
      parents := fun k r known o ho => on.organized o ?_ }
    · rcases seen.of_takeOut with rfl | seen
      · exact .inr ⟨id, rfl⟩
      · exact h.resourceKeys k seen
    · rcases mem_insert_key.mp gone with rfl | gone
      · exact ⟨id, rfl⟩
      · exact h.blockedResources k gone
    · change (c.resources.erase _)[k]? = some r at known
      rw [getElem?_erase_key] at known
      split at known
      · cases known
      · exact h.parents k r known o ho
  | taken id owner name resource free parent =>
    refine ⟨onward_resource (fun h => (not_organized_repository h).elim) (fun _ => free)
      (fun _ => .inr ⟨id, rfl⟩) fun h o ho => ?_, fun found same => ?_⟩
    · obtain ⟨old, known, same⟩ := parent o ho
      exact h.parents _ old known o same
    · cases same
      exact .inl (mem_insert_map.mpr (.inl rfl))

theorem onward_adopt {c : Collection} (org : String) {organization : EntityKey}
    (resource : EntityKey) (owner : String) (entered : Organized c organization) :
    Onward c (c.adopt org organization resource owner) := by
  have step := adopt_step c org organization resource owner
  generalize c.adopt org organization resource owner = c' at step ⊢
  cases step with
  | foreign => exact .refl c
  | adopted old known =>
    have mem : resource ∈ c.resources :=
      Std.ExtTreeMap.mem_iff_isSome_getElem?.mpr (by rw [known]; rfl)
    refine onward_resource (fun h => ?_) (fun h gone => h.resources _ gone mem)
      (fun h => h.resourceKeys _ (.inl mem)) fun h o ho => ?_
    · obtain ⟨r, known', kind⟩ := h.resource
      rw [known] at known'
      cases known'
      exact kind
    · cases ho
      exact entered

/-- A group comes in. -/
theorem onward_group {c : Collection} {key : EntityKey} (group : Group)
    (free : Entities c → key ∉ c.blockedGroups)
    (keys : OfKind c.snapshot.provider "organization" key ∨ OfKind c.snapshot.provider "team" key) :
    Onward c { c with groups := c.groups.insert key group } := by
  have on : Advances c { c with groups := c.groups.insert key group } :=
    { (Onward.refl c).toAdvances with
      groups := fun _ seen => seen.insert _ _
      organized := fun _ h => ⟨h.kind, h.resource, mem_insert_map.mpr (.inr h.group)⟩ }
  refine .entries on rfl rfl fun h => { h with
    groups := h.groups.insert (free h) group
    groupKeys := fun k seen => ?_
    parents := fun k r known o ho => on.organized o (h.parents k r known o ho) }
  rcases Seen.of_insert seen with rfl | seen
  · exact keys
  · exact h.groupKeys k seen

theorem onward_team (c : Collection) (row : Value) (org : String) : Onward c (c.team row org).2 ∧
    ∀ found ∈ (c.team row org).1, GroupSeen (c.team row org).2 found.1 := by
  have step := team_step c row org
  generalize c.team row org = result at step ⊢
  cases step with
  | skipped => exact ⟨.refl c, fun k h => by cases h⟩
  | unread failure => exact ⟨onward_fail .., fun k h => by cases h⟩
  | blocked id failure =>
    have kept (k : EntityKey) (h : Organized c k) : k ∈ c.groups.erase (c.key "team" id) := by
      refine Std.ExtTreeMap.mem_erase.mpr ⟨fun same => ?_, h.group⟩
      rw [Std.LawfulEqCmp.compare_eq_iff_eq] at same
      subst same
      exact absurd (h.kind.same ⟨id, rfl⟩) (by decide)
    have on : Advances c (c.blockGroup (c.key "team" id)) :=
      { (Onward.refl c).toAdvances with
        groups := fun _ seen => seen.takeOut _
        blockedGroups := fun _ gone => mem_insert_key.mpr (.inr gone)
        organized := fun k h => ⟨h.kind, h.resource, kept k h⟩ }
    refine ⟨(Onward.entries on rfl rfl fun h => ?_).trans (onward_fail ..), fun k h => by cases h⟩
    refine { h with
      groups := h.groups.takeOut _
      groupKeys := fun k seen => ?_
      blockedGroups := fun k gone => ?_
      parents := fun k r known o ho => on.organized o (h.parents k r known o ho) }
    · rcases seen.of_takeOut with rfl | seen
      · exact .inr ⟨id, rfl⟩
      · exact h.groupKeys k seen
    · rcases mem_insert_key.mp gone with rfl | gone
      · exact ⟨id, rfl⟩
      · exact h.blockedGroups k gone
  | taken id slug name teams free =>
    have noted : Onward c { c with teams := teams } := .of_same rfl rfl rfl
    refine ⟨noted.trans (onward_group _ (fun _ => free) (.inr ⟨id, rfl⟩)), fun found same => ?_⟩
    cases same
    exact .inl (mem_insert_map.mpr (.inl rfl))

theorem onward_organization (c : Collection) (id : Nat) (org : String) :
    Onward c (c.organization (c.key "organization" id) org) ∧
      Organized (c.organization (c.key "organization" id) org) (c.key "organization" id) := by
  have kind : OfKind c.snapshot.provider "organization" (c.key "organization" id) := ⟨id, rfl⟩
  refine ⟨?_, kind, ⟨⟨c.key "organization" id, org, some "github.organization", none⟩, ?_, rfl⟩,
    mem_insert_map.mpr (.inl rfl)⟩
  · have begun : Onward c { c with success := true } := .of_same rfl rfl rfl
    have resource : Onward { c with success := true } { c with
        success := true
        resources := c.resources.insert (c.key "organization" id)
          ⟨c.key "organization" id, org, some "github.organization", none⟩ } :=
      onward_resource (fun _ => rfl)
        (fun h gone => absurd (kind.same (h.blockedResources _ gone)) (by decide))
        (fun _ => .inl kind) (fun _ _ h => by cases h)
    refine (begun.trans resource).trans (onward_group _ (fun h gone => ?_) (.inl kind))
    exact absurd (kind.same (h.blockedGroups _ gone)) (by decide)
  · show (c.resources.insert _ _)[_]? = _
    rw [getElem?_insert_key, if_pos rfl]

/-! ## Claims -/

theorem onward_membership {c : Collection} {member : Subject} {group : EntityKey} (method : String)
    (hm : SubjectSeen c member) (hg : GroupSeen c group) :
    Onward c (c.membership member group method) := by
  have step := membership_step c member group method
  generalize c.membership member group method = c' at step ⊢
  cases step with
  | known => exact .refl c
  | taken =>
    refine ⟨.of_same rfl, fun h => ⟨h.entities.of_same rfl, ?_, h.references.grants⟩⟩
    intro k mem
    rcases mem_insert_map.mp mem with rfl | mem
    · exact ⟨hm, hg⟩
    · exact h.references.memberships k mem

theorem onward_grant {c : Collection} {subject : Subject} {resource : EntityKey} (role : String)
    (privilege : Privilege) {method : String} (plain : Plain method) (hs : SubjectSeen c subject)
    (hr : ResourceSeen c resource) : Onward c (c.grant subject resource role privilege method) := by
  have step := grant_step c subject resource role privilege method
  generalize c.grant subject resource role privilege method = c' at step ⊢
  cases step with
  | known => exact .refl c
  | blocked failure =>
    refine ⟨.of_same rfl, fun h => ⟨h.entities.of_same rfl, h.references.memberships, ?_⟩⟩
    intro k g known
    change (c.grants.erase _)[k]? = some g at known
    rw [getElem?_erase_key] at known
    split at known
    · cases known
    · exact h.references.grants k g known
  | taken =>
    refine ⟨.of_same rfl, fun h => ⟨h.entities.of_same rfl, h.references.memberships, ?_⟩⟩
    intro k g known
    dsimp only at known
    rw [getElem?_insert_key] at known
    split at known
    case isTrue same =>
      cases known
      subst same
      exact ⟨plain, hs, hr, rfl⟩
    case isFalse => exact h.references.grants k g known

/-! ## The traversal -/

theorem onward_forAccount {c : Collection} {user : Value} {claims : EntityKey → Collection → Collection}
    (onward : ∀ k c', Onward c c' → AccountSeen c' k → Onward c' (claims k c')) :
    Onward c (c.forAccount user claims) := by
  obtain ⟨first, seen⟩ := onward_account c user
  unfold Collection.forAccount
  cases account : c.account user with
  | mk result c' =>
    rw [account] at first seen
    cases result with
    | none => exact first
    | some k => exact first.trans (onward k c' first (seen k rfl))

theorem onward_permissions (client : Client) (org slug owner name : String) (repo : Value)
    (t : Traversal) : Onward t.state (client.permissions org slug owner name repo t).2.state := by
  unfold Client.permissions
  split
  · exact onward_fail ..
  · split
    · dsimp only
      split
      · exact .refl _
      · exact onward_fail ..
    · exact onward_fail ..

/-- Every step of a traversal goes onward. -/
theorem onward_walk (client : Client) : Walk client (fun _ t t' => Onward t.state t'.state)
    (fun t => Organized t.state) (fun t => GroupSeen t.state) (fun t => ResourceSeen t.state) where
  refl t := .refl _
  trans h h' := h.trans h'
  le _ h := h
  organizationStays h := h.organized _
  teamStays h := h.groups _
  repositoryStays h := h.resources _
  fail t endpoint failure := onward_fail ..
  object t org := .refl _
  permissions t org slug owner name repo := onward_permissions client org slug owner name repo t
  issue _ h := (onward_accept ..).trans h
  enter t id org := onward_organization t.state id org
  memberRow role user entered := by
    apply onward_forAccount
    intro k c' on seen
    have joined : Onward c' (c'.membership (.account k) _ "github.organization_members") :=
      onward_membership _ seen (.inl (on.organized _ entered).group)
    refine joined.trans (onward_grant _ _ (by decide) (joined.accounts k seen) ?_)
    have there := (joined.organized _ (on.organized _ entered)).resource
    exact .inl (Std.ExtTreeMap.mem_iff_isSome_getElem?.mpr
      (Option.isSome_iff_exists.mpr (there.imp fun _ h => h.1)))
  repositoryRow t repo := onward_repository t.state repo
  adopt org resource owner entered := onward_adopt org resource owner entered
  teamRow t row org := onward_team t.state row org
  teamMemberRow user known := onward_forAccount fun k c' on seen =>
    onward_membership _ seen (on.groups _ known)
  teamRepositoryRow role team there := onward_grant _ _ (by decide) team there
  collaboratorRow user there := onward_forAccount fun k c' on seen =>
    onward_grant _ _ (by decide) seen (on.resources _ there)

theorem linked_new (id observedAt : String) : Linked (Collection.new id observedAt) := by
  have none {α : Type} {k : EntityKey} :
      ¬Seen (∅ : Std.ExtTreeMap EntityKey α) (∅ : Std.ExtTreeSet EntityKey) k := by
    rintro (h | h)
    · exact Std.ExtTreeMap.not_mem_empty h
    · exact Std.ExtTreeSet.not_mem_empty h
  refine ⟨⟨?_, ?_, ?_, fun k h => absurd h none, fun k h => absurd h none, fun k h => absurd h none,
    ?_, ?_, fun k r known => ?_⟩, ⟨?_, fun k g known => ?_⟩⟩
  · exact fun k h => absurd h Std.ExtTreeSet.not_mem_empty
  · exact fun k h => absurd h Std.ExtTreeSet.not_mem_empty
  · exact fun k h => absurd h Std.ExtTreeSet.not_mem_empty
  · exact fun k h => absurd h Std.ExtTreeSet.not_mem_empty
  · exact fun k h => absurd h Std.ExtTreeSet.not_mem_empty
  · change (∅ : Std.ExtTreeMap EntityKey Resource)[k]? = some r at known
    rw [Std.ExtTreeMap.getElem?_empty] at known
    cases known
  · exact fun k h => absurd h Std.ExtTreeMap.not_mem_empty
  · change (∅ : Std.ExtTreeMap GrantKey Grant)[k]? = some g at known
    rw [Std.ExtTreeMap.getElem?_empty] at known
    cases known

/-- A traversal of the first organizations goes on to the others. -/
theorem onward_prefix (client : Client) (t : Traversal) (before after : List String) :
    Onward (client.traverse t before).state (client.traverse t (before ++ after)).state := by
  induction before generalizing t with
  | nil => exact (onward_walk client).traverse t after
  | cons org before ih =>
    rw [List.cons_append]
    unfold Client.traverse
    split
    · exact .refl _
    · exact ih _

/-! ## Identifiers of grants -/

theorem grantId_eq (c : Collection) (method : String) (subject : Subject) (resource : EntityKey)
    (role : String) (privilege : Privilege) :
    (c.grantOf subject resource role privilege method).id =
      claimId (method, subject, resource) role := by
  cases subject <;>
    simp only [Collection.grantOf, claimId, subjectPart, toString, String.append_assoc]

theorem Entities.native_subject {c : Collection} (h : Entities c) {s : Subject}
    (seen : SubjectSeen c s) : NativeKey c.snapshot.provider (subjectPart s).2 := by
  cases s with
  | account k => exact .inl (h.accountKeys k seen)
  | group k =>
    rcases h.groupKeys k seen with kind | kind
    · exact .inr ⟨_, by decide, kind⟩
    · exact .inr ⟨_, by decide, kind⟩

theorem Entities.native_resource {c : Collection} (h : Entities c) {k : EntityKey}
    (seen : ResourceSeen c k) : NativeKey c.snapshot.provider k := by
  rcases h.resourceKeys k seen with kind | kind
  · exact .inr ⟨_, by decide, kind⟩
  · exact .inr ⟨_, by decide, kind⟩

/-- The identifier of a grant tells the claim, if its parts were seen. -/
theorem grantId_inj {c : Collection} (h : Entities c) {k k' : GrantKey} {role role' : String}
    {privilege privilege' : Privilege} (plain : Plain k.1) (plain' : Plain k'.1)
    (subject : SubjectSeen c k.2.1) (subject' : SubjectSeen c k'.2.1)
    (resource : ResourceSeen c k.2.2) (resource' : ResourceSeen c k'.2.2)
    (same : (c.grantOf k.2.1 k.2.2 role privilege k.1).id =
      (c.grantOf k'.2.1 k'.2.2 role' privilege' k'.1).id) : k = k' := by
  rw [grantId_eq, grantId_eq] at same
  exact (claimId_inj plain plain' (h.native_subject subject) (h.native_subject subject')
    (h.native_resource resource) (h.native_resource resource') same).1

/-! ## The snapshot -/

/-- The account or the group of a subject is in the snapshot. -/
def Denotes (s : Snapshot) : Subject → Prop
  | .account k => ∃ a ∈ s.accounts, a.key = k
  | .group k => ∃ g ∈ s.groups, g.key = k

/-- What a snapshot says mentions a subject. -/
def Mentions (s : Snapshot) (subject : Subject) : Prop :=
  (∃ m ∈ s.memberships, m.member = subject) ∨ ∃ g ∈ s.grants, g.subject = subject

/-- The snapshot refers to what is in it, names nothing twice, and shows nothing that was blocked. -/
structure Closed (c : Collection) (s : Snapshot) : Prop where
  memberships : ∀ m ∈ s.memberships, Denotes s m.member ∧ Denotes s (.group m.group)
  grants : ∀ g ∈ s.grants, Denotes s g.subject ∧ ∃ r ∈ s.resources, r.key = g.resource
  parents : ∀ r ∈ s.resources, ∀ o ∈ r.parent, ∃ organization ∈ s.resources,
    organization.key = o ∧ organization.kind = some "github.organization"
  accountsOnce : (s.accounts.map (·.key)).Nodup
  resourcesOnce : (s.resources.map (·.key)).Nodup
  groupsOnce : (s.groups.map (·.key)).Nodup
  membershipsOnce : (s.memberships.map fun m => (m.member, m.group)).Nodup
  grantsOnce : (s.grants.map (·.id)).Nodup
  blockedAccounts : ∀ k ∈ c.blockedAccounts, ¬Denotes s (.account k) ∧ ¬Mentions s (.account k)
  blockedGroups : ∀ k ∈ c.blockedGroups, ¬Denotes s (.group k) ∧ ¬Mentions s (.group k) ∧
    ∀ m ∈ s.memberships, m.group ≠ k
  blockedResources : ∀ k ∈ c.blockedResources, (∀ r ∈ s.resources, r.key ≠ k) ∧
    (∀ r ∈ s.resources, r.parent ≠ some k) ∧ ∀ g ∈ s.grants, g.resource ≠ k

/-- What the graph of a collection is made of. -/
theorem mem_graph_memberships {c : Collection} {m : Membership} :
    m ∈ c.graph.memberships ↔ (∃ k : MembershipKey, c.memberships[k]? = some m) ∧
      c.validSubject m.member = true ∧ m.group ∉ c.blockedGroups := by
  show m ∈ values _ ↔ _
  rw [← values_filter, List.mem_filter, mem_values, Bool.and_eq_true, decide_eq_true_eq]

theorem mem_graph_grants {c : Collection} {g : Grant} :
    g ∈ c.graph.grants ↔ (∃ k : GrantKey, c.grants[k]? = some g) ∧
      c.validSubject g.subject = true ∧ g.resource ∉ c.blockedResources := by
  show g ∈ values _ ↔ _
  rw [← values_filter, List.mem_filter, mem_values, Bool.and_eq_true, decide_eq_true_eq]

section

variable {c : Collection} (keyed : Keyed c)

include keyed

theorem denotes_account {k : EntityKey} : Denotes c.graph (.account k) ↔ k ∈ c.accounts := by
  rw [Std.ExtTreeMap.mem_iff_isSome_getElem?]
  exact exists_mem_sorted (.refl _) keyed.accounts k

theorem denotes_group {k : EntityKey} : Denotes c.graph (.group k) ↔ k ∈ c.groups := by
  rw [Std.ExtTreeMap.mem_iff_isSome_getElem?]
  exact exists_mem_sorted (.refl _) keyed.groups k

theorem mem_graph_resources {k : EntityKey} :
    (∃ r ∈ c.graph.resources, r.key = k) ↔ k ∈ c.resources := by
  rw [Std.ExtTreeMap.mem_iff_isSome_getElem?]
  exact exists_mem_sorted (.refl _) keyed.resources k

/-- A subject that was seen and is not blocked is in the graph. -/
theorem denotes_of_valid {s : Subject} (seen : SubjectSeen c s) (valid : c.validSubject s = true) :
    Denotes c.graph s := by
  cases s with
  | account k =>
    exact (denotes_account keyed).mpr (seen.resolve_right (of_decide_eq_true valid))
  | group k =>
    exact (denotes_group keyed).mpr (seen.resolve_right (of_decide_eq_true valid))

/-- **The graph of a collection is closed.** -/
theorem closed_graph (linked : Linked c) : Closed c c.graph := by
  have entities := linked.entities
  have member {m : Membership} (mem : m ∈ c.graph.memberships) :
      SubjectSeen c m.member ∧ GroupSeen c m.group ∧ c.validSubject m.member = true ∧
        m.group ∉ c.blockedGroups := by
    obtain ⟨⟨k, known⟩, valid, free⟩ := mem_graph_memberships.mp mem
    have key := keyed.memberships k m known
    have seen := linked.references.memberships k (Std.ExtTreeMap.mem_iff_isSome_getElem?.mpr
      (by rw [known]; rfl))
    rw [← key] at seen
    exact ⟨seen.1, seen.2, valid, free⟩
  have claim {g : Grant} (mem : g ∈ c.graph.grants) :
      Plain (claimOf g).1 ∧ SubjectSeen c g.subject ∧ ResourceSeen c g.resource ∧
        g.id = (c.grantOf g.subject g.resource g.role g.privilege (claimOf g).1).id ∧
        c.validSubject g.subject = true ∧ g.resource ∉ c.blockedResources := by
    obtain ⟨⟨k, known⟩, valid, free⟩ := mem_graph_grants.mp mem
    have key := keyed.grants k g known
    obtain ⟨plain, subject, resource, id⟩ := linked.references.grants k g known
    rw [← key] at plain subject resource id
    exact ⟨plain, subject, resource, id, valid, free⟩
  have unmentioned {s : Subject} (invalid : c.validSubject s = false) : ¬Mentions c.graph s := by
    rintro (⟨m, mem, rfl⟩ | ⟨g, mem, rfl⟩)
    · exact Bool.false_ne_true (invalid.symm.trans (member mem).2.2.1)
    · exact Bool.false_ne_true (invalid.symm.trans (claim mem).2.2.2.2.1)
  constructor
  · intro m mem
    obtain ⟨subject, group, valid, free⟩ := member mem
    exact ⟨denotes_of_valid keyed subject valid,
      (denotes_group keyed).mpr (group.resolve_right free)⟩
  · intro g mem
    obtain ⟨-, subject, resource, -, valid, free⟩ := claim mem
    exact ⟨denotes_of_valid keyed subject valid,
      (mem_graph_resources keyed).mpr (resource.resolve_right free)⟩
  · intro r mem o ho
    obtain ⟨k, known⟩ := mem_values.mp mem
    obtain ⟨organization, there, kind⟩ := (entities.parents k r known o ho).resource
    exact ⟨organization, mem_values.mpr ⟨o, there⟩, keyed.resources o organization there, kind⟩
  · exact keyed.accounts.nodup
  · exact keyed.resources.nodup
  · exact keyed.groups.nodup
  · exact (keyed.memberships.filter _).nodup
  · have claims : (c.graph.grants.map claimOf).Nodup := (keyed.grants.filter _).nodup
    refine List.Nodup.map_on ?_ claims.of_map
    intro g mem g' mem' same
    obtain ⟨plain, subject, resource, id, -⟩ := claim mem
    obtain ⟨plain', subject', resource', id', -⟩ := claim mem'
    rw [id, id'] at same
    exact List.inj_on_of_nodup_map claims mem mem'
      (grantId_inj entities plain plain' subject subject' resource resource' same)
  · intro k gone
    refine ⟨fun there => ?_, unmentioned (decide_eq_false (not_not.mpr gone))⟩
    exact entities.accounts k gone ((denotes_account keyed).mp there)
  · intro k gone
    refine ⟨fun there => ?_, unmentioned (decide_eq_false (not_not.mpr gone)), fun m mem same => ?_⟩
    · exact entities.groups k gone ((denotes_group keyed).mp there)
    · exact (member mem).2.2.2 (same ▸ gone)
  · intro k gone
    refine ⟨fun r mem same => ?_, fun r mem same => ?_, fun g mem same => ?_⟩
    · exact entities.resources k gone ((mem_graph_resources keyed).mp ⟨r, mem, same⟩)
    · obtain ⟨key, known⟩ := mem_values.mp mem
      have kind := (entities.parents key r known k same).kind
      exact absurd (kind.same (entities.blockedResources k gone)) (by decide)
    · exact (claim mem).2.2.2.2.2 (same ▸ gone)

end

/-- Sorting keeps a snapshot closed. -/
theorem Closed.sort {c : Collection} {s : Snapshot} (h : Closed c s) (core : Core) :
    Closed c (core.sort s) := by
  have denotes (subject : Subject) : Denotes (core.sort s) subject ↔ Denotes s subject := by
    cases subject with
    | account k => simp only [Denotes, Core.mem_sort_accounts]
    | group k => simp only [Denotes, Core.mem_sort_groups]
  have mentions (subject : Subject) : Mentions (core.sort s) subject ↔ Mentions s subject := by
    simp only [Mentions, Core.mem_sort_memberships, Core.mem_sort_grants]
  constructor
  · simpa only [Core.mem_sort_memberships, denotes] using h.memberships
  · simpa only [Core.mem_sort_grants, denotes, Core.mem_sort_resources] using h.grants
  · simpa using h.parents
  · exact ((core.accounts_perm _).map _).nodup_iff.mpr h.accountsOnce
  · exact ((core.resources_perm _).map _).nodup_iff.mpr h.resourcesOnce
  · exact ((core.groups_perm _).map _).nodup_iff.mpr h.groupsOnce
  · exact ((core.memberships_perm _).map _).nodup_iff.mpr h.membershipsOnce
  · exact ((core.grants_perm _).map _).nodup_iff.mpr h.grantsOnce
  · simpa only [denotes, mentions] using h.blockedAccounts
  · simpa only [denotes, mentions, Core.mem_sort_memberships] using h.blockedGroups
  · simpa using h.blockedResources

/-- **The snapshot that is validated is closed**, and what was blocked once is not in it. -/
theorem closed_of_traversal (client : Client) (core : Core) (observedAt : String) :
    Closed (client.traversal observedAt).state
        (core.sort (client.traversal observedAt).state.graph) ∧
      ∀ n, Advances (client.traverse ⟨.new client.id observedAt, ⟨⟨0, 0⟩, [], []⟩, []⟩
        (client.organizations.take n)).state (client.traversal observedAt).state := by
  refine ⟨Closed.sort (closed_graph ?_ ?_) core, fun n => ?_⟩
  · exact ((extends_traverse client _ _).grows.sound (sound_new client.id observedAt)).keyed
  · exact ((onward_walk client).traverse _ _).linked (linked_new client.id observedAt)
  · have on := onward_prefix client ⟨.new client.id observedAt, ⟨⟨0, 0⟩, [], []⟩, []⟩
      (client.organizations.take n) (client.organizations.drop n)
    rw [List.take_append_drop] at on
    exact on.toAdvances

end Permesh.Github

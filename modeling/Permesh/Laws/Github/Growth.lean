import Permesh.Github.Discovery
import Permesh.Laws.Github.Claims

/-!
# Laws.Github.Growth — what a collection keeps

As long as nothing fails, a collection only grows: what it holds it keeps, and every row it takes in
becomes what the row says (`Fact`). A row that is dropped is recorded as a failure.

Facts are indexed by the purpose of a list, so that one statement serves all of them. Blocking takes
something away and is recorded as a failure at the same time.
-/

namespace Permesh.Github

open Permesh.Json Permesh.Lib

/-! ## Facts -/

/-- What a row says. The role of a grant is left open where the row does not tell it. -/
inductive Fact where
  | account (key : EntityKey)
  | resource (key : EntityKey)
  | group (key : EntityKey)
  | membership (key : MembershipKey)
  | grant (key : GrantKey) (role : Option String)

def Collection.Holds (c : Collection) : Fact → Prop
  | .account key => key ∈ c.accounts
  | .resource key => key ∈ c.resources
  | .group key => key ∈ c.groups
  | .membership key => key ∈ c.memberships
  | .grant key role => ∃ g, c.grants[key]? = some g ∧ ∀ r ∈ role, g.role = r

/-- The claim that a grant answers. -/
def claimOf (g : Grant) : GrantKey := (g.provenance.method, g.subject, g.resource)

/-- A snapshot shows a fact. -/
def Shows (s : Snapshot) : Fact → Prop
  | .account key => ∃ a ∈ s.accounts, a.key = key
  | .resource key => ∃ r ∈ s.resources, r.key = key
  | .group key => ∃ g ∈ s.groups, g.key = key
  | .membership key => ∃ m ∈ s.memberships, (m.member, m.group) = key
  | .grant key role => ∃ g ∈ s.grants, claimOf g = key ∧ ∀ r ∈ role, g.role = r

/-- The facts of a row with an identifier. -/
def Purpose.facts (p : String) (row : Value) (id : Nat) : Purpose → List Fact
  | .organizationMembers organization role =>
    let account : EntityKey := ⟨p, toString id⟩
    [.account account, .membership (.account account, organization),
      .grant ("github.organization_role", .account account, organization) (some role)]
  | .organizationRepositories => [.resource ⟨p, s!"repository:{id}"⟩]
  | .teams => [.group ⟨p, s!"team:{id}"⟩]
  | .teamMembers team =>
    let account : EntityKey := ⟨p, toString id⟩
    [.account account, .membership (.account account, team)]
  | .teamRepositories team =>
    let resource : EntityKey := ⟨p, s!"repository:{id}"⟩
    [.resource resource, .grant ("github.team_repository_effective", .group team, resource) none]
  | .collaborators repository =>
    let account : EntityKey := ⟨p, toString id⟩
    [.account account, .grant ("github.repository_collaborator_effective", .account account,
      repository) (some (repositoryRole row))]

def Collection.HoldsRow (c : Collection) (purpose : Purpose) (row : Value) : Prop :=
  ∃ id, nativeId row = some id ∧ ∀ fact ∈ purpose.facts c.snapshot.provider row id, c.Holds fact

/-! ## Growth -/

structure Keyed (c : Collection) : Prop where
  accounts : KeyedBy Account.key c.accounts
  resources : KeyedBy Resource.key c.resources
  groups : KeyedBy Group.key c.groups
  memberships : KeyedBy (fun m => ((m.member, m.group) : MembershipKey)) c.memberships
  grants : KeyedBy claimOf c.grants
  teams : ∀ k ∈ c.teams, k ∈ c.groups ∨ k ∈ c.blockedGroups

/-- Entries stand under their keys, and what is blocked was recorded. -/
structure Sound (c : Collection) : Prop where
  keyed : Keyed c
  clean : c.snapshot.complete = true → Clean c

/-- Nothing is lost unless a failure is recorded. -/
structure Grows (c c' : Collection) : Prop where
  provider : c'.snapshot.provider = c.snapshot.provider
  complete : c'.snapshot.complete = true → c.snapshot.complete = true
  sound : Sound c → Sound c'
  holds : c'.snapshot.complete = true → ∀ fact, c.Holds fact → c'.Holds fact

theorem Grows.refl (c : Collection) : Grows c c := ⟨rfl, id, id, fun _ _ => id⟩

theorem Grows.trans {c c' c'' : Collection} (h : Grows c c') (h' : Grows c' c'') : Grows c c'' where
  provider := h'.provider.trans h.provider
  complete := fun all => h.complete (h'.complete all)
  sound := fun s => h'.sound (h.sound s)
  holds := fun all fact held => h'.holds all fact (h.holds (h'.complete all) fact held)

/-- A failure that is recorded. -/
theorem Grows.failed {c c' : Collection} (provider : c'.snapshot.provider = c.snapshot.provider)
    (failed : c'.snapshot.complete = false) (keyed : Keyed c → Keyed c') : Grows c c' where
  provider := provider
  complete := fun h => by rw [failed] at h; cases h
  sound := fun s => ⟨keyed s.keyed, fun h => by rw [failed] at h; cases h⟩
  holds := fun h => by rw [failed] at h; cases h

theorem grows_fail (c : Collection) (endpoint : String) (failure : ProviderError) :
    Grows c (c.fail endpoint failure) :=
  .failed rfl rfl fun h => ⟨h.accounts, h.resources, h.groups, h.memberships, h.grants, h.teams⟩

/-- Nothing is blocked, and entries are only added. -/
theorem Grows.added {c c' : Collection} (provider : c'.snapshot.provider = c.snapshot.provider)
    (complete : c'.snapshot.complete = c.snapshot.complete) (blocked : blockedPart c' = blockedPart c)
    (keyed : Keyed c → Keyed c') (holds : ∀ fact, c.Holds fact → c'.Holds fact) : Grows c c' where
  provider := provider
  complete := fun h => by rwa [complete] at h
  sound := fun s => ⟨keyed s.keyed, fun h => by
    rw [complete] at h
    cases Noted.of_eq complete blocked with
    | same _ clean => exact clean.mpr (s.clean h)
    | blocked incomplete _ =>
      rw [complete, h] at incomplete
      cases incomplete⟩
  holds := fun _ => holds

theorem Keyed.block {c : Collection} (h : Keyed c) (key : EntityKey) (endpoint : String)
    (failure : ProviderError) : Keyed ((c.blockAccount key).fail endpoint failure) :=
  ⟨h.accounts.erase key, h.resources, h.groups, h.memberships, h.grants, h.teams⟩

/-- **An account row is kept or recorded as a failure.** -/
theorem grows_account (c : Collection) (row : Value) : Grows c (c.account row).2 ∧
    (Sound c → (c.account row).2.snapshot.complete = true → ∃ id, nativeId row = some id ∧
      (c.account row).1 = some ⟨c.snapshot.provider, toString id⟩ ∧
      (c.account row).2.Holds (.account ⟨c.snapshot.provider, toString id⟩)) := by
  unfold Collection.account
  cases nativeId row with
  | none => exact ⟨grows_fail .., fun _ h => by cases h⟩
  | some id =>
    dsimp only
    split
    case isTrue blocked =>
      exact ⟨.refl c, fun s h => absurd blocked ((s.clean h).accounts _)⟩
    split
    · exact ⟨.failed rfl rfl fun h => h.block .., fun _ h => by cases h⟩
    case h_2 login _ =>
      split
      · exact ⟨.failed rfl rfl fun h => h.block .., fun _ h => by cases h⟩
      split
      · exact ⟨.failed rfl rfl fun h => h.block .., fun _ h => by cases h⟩
      -- the entry is new, or the old one with its kind
      have under (keyed : Keyed c) (new : Account)
          (hn : new.key = ⟨c.snapshot.provider, toString id⟩) :
          (c.accounts[(⟨c.snapshot.provider, toString id⟩ : EntityKey)]?.getD new).key =
            ⟨c.snapshot.provider, toString id⟩ := by
        cases known : c.accounts[(⟨c.snapshot.provider, toString id⟩ : EntityKey)]? with
        | none => exact hn
        | some old => exact keyed.accounts _ _ known
      split
      · refine ⟨.added rfl rfl rfl (fun h => ⟨h.accounts.insert (under h _ rfl), h.resources,
          h.groups, h.memberships, h.grants, h.teams⟩) ?_, fun _ _ => ⟨id, rfl, rfl, ?_⟩⟩
        · intro fact held
          cases fact with
          | account key => exact mem_insert_map.mpr (.inr held)
          | _ => exact held
        · exact mem_insert_map.mpr (.inl rfl)
      · refine ⟨.added rfl rfl rfl (fun h => ⟨h.accounts.insert (under h _ rfl), h.resources,
          h.groups, h.memberships, h.grants, h.teams⟩) ?_, fun _ _ => ⟨id, rfl, rfl, ?_⟩⟩
        · intro fact held
          cases fact with
          | account key => exact mem_insert_map.mpr (.inr held)
          | _ => exact held
        · exact mem_insert_map.mpr (.inl rfl)

theorem grows_repository (c : Collection) (row : Value) : Grows c (c.repository row).2 ∧
    (Sound c → (c.repository row).2.snapshot.complete = true → ∃ id owner name,
      nativeId row = some id ∧
      (c.repository row).1 = some (⟨c.snapshot.provider, s!"repository:{id}"⟩, owner, name) ∧
      (c.repository row).2.Holds (.resource ⟨c.snapshot.provider, s!"repository:{id}"⟩)) := by
  unfold Collection.repository
  cases nativeId row with
  | none => exact ⟨grows_fail .., fun _ h => by cases h⟩
  | some id =>
    have erased (key : EntityKey) (h : Keyed c) (failure : ProviderError) :
        Keyed ((c.blockResource key).fail "repository record" failure) :=
      ⟨h.accounts, h.resources.erase key, h.groups, h.memberships, h.grants, h.teams⟩
    dsimp only
    split
    case isTrue blocked =>
      exact ⟨.refl c, fun s h => absurd blocked ((s.clean h).resources _)⟩
    split
    · exact ⟨.failed rfl rfl fun h => erased _ h _, fun _ h => by cases h⟩
    case h_2 fullName owner name _ =>
      split
      · exact ⟨.failed rfl rfl fun h => erased _ h _, fun _ h => by cases h⟩
      have under (keyed : Keyed c) (new : Resource) (hn : new.key = c.key "repository" id) :
          (c.resources[c.key "repository" id]?.getD new).key = c.key "repository" id := by
        cases known : c.resources[c.key "repository" id]? with
        | none => exact hn
        | some old => exact keyed.resources _ _ known
      refine ⟨.added rfl rfl rfl (fun h => ⟨h.accounts, h.resources.insert (under h _ rfl),
        h.groups, h.memberships, h.grants, h.teams⟩) ?_, fun _ _ => ⟨id, owner, name, rfl, rfl, ?_⟩⟩
      · intro fact held
        cases fact with
        | resource key => exact mem_insert_map.mpr (.inr held)
        | _ => exact held
      · exact mem_insert_map.mpr (.inl rfl)

/-- A team row is known, taken in, or recorded as a failure. -/
theorem grows_team (c : Collection) (row : Value) (org : String) : Grows c (c.team row org).2 ∧
    (Sound c → (c.team row org).2.snapshot.complete = true → ∃ id, nativeId row = some id ∧
      (c.team row org).2.Holds (.group ⟨c.snapshot.provider, s!"team:{id}"⟩)) := by
  unfold Collection.team
  cases nativeId row with
  | none => exact ⟨grows_fail .., fun _ h => by cases h⟩
  | some id =>
    have erased (key : EntityKey) (h : Keyed c) (failure : ProviderError) :
        Keyed ((c.blockGroup key).fail "teams" failure) := by
      refine ⟨h.accounts, h.resources, h.groups.erase key, h.memberships, h.grants, ?_⟩
      intro k known
      show k ∈ c.groups.erase key ∨ k ∈ c.blockedGroups.insert key
      by_cases same : key = k
      · exact .inr (mem_insert_key.mpr (.inl same))
      · rcases h.teams k known with there | blocked
        · refine .inl (Std.ExtTreeMap.mem_erase.mpr ⟨?_, there⟩)
          rw [ne_eq, Std.LawfulEqCmp.compare_eq_iff_eq]
          exact same
        · exact .inr (mem_insert_key.mpr (.inr blocked))
    dsimp only
    split
    case isTrue blocked =>
      exact ⟨.refl c, fun s h => absurd blocked ((s.clean h).groups _)⟩
    case isFalse free =>
      split
      · split
        case h_1 old known =>
          split
          · exact ⟨.failed rfl rfl fun h => erased _ h _, fun _ h => by cases h⟩
          · refine ⟨.refl c, fun s _ => ⟨id, rfl, ?_⟩⟩
            have mem : c.key "team" id ∈ c.teams :=
              Std.ExtTreeMap.mem_iff_isSome_getElem?.mpr (by rw [known]; rfl)
            exact (s.keyed.teams _ mem).resolve_right free
        case h_2 =>
          refine ⟨.added rfl rfl rfl (fun h => ⟨h.accounts, h.resources, h.groups.insert rfl,
            h.memberships, h.grants, ?_⟩) ?_, fun _ _ => ⟨id, rfl, ?_⟩⟩
          · intro k mem
            rcases mem_insert_map.mp mem with rfl | mem
            · exact .inl (mem_insert_map.mpr (.inl rfl))
            · exact (h.teams k mem).imp_left fun there => mem_insert_map.mpr (.inr there)
          · intro fact held
            cases fact with
            | group key => exact mem_insert_map.mpr (.inr held)
            | _ => exact held
          · exact mem_insert_map.mpr (.inl rfl)
      · exact ⟨.failed rfl rfl fun h => erased _ h _, fun _ h => by cases h⟩

theorem grows_membership (c : Collection) (member : Subject) (group : EntityKey)
    (method : String) : Grows c (c.membership member group method) ∧
      (c.membership member group method).Holds (.membership (member, group)) := by
  unfold Collection.membership
  split
  case h_1 known =>
    exact ⟨.refl c, Std.ExtTreeMap.mem_iff_isSome_getElem?.mpr (by rw [known]; rfl)⟩
  case h_2 =>
    refine ⟨.added rfl rfl rfl (fun h => ⟨h.accounts, h.resources, h.groups,
      h.memberships.insert rfl, h.grants, h.teams⟩) ?_, mem_insert_map.mpr (.inl rfl)⟩
    intro fact held
    cases fact with
    | membership key => exact mem_insert_map.mpr (.inr held)
    | _ => exact held

theorem grows_grant (c : Collection) (subject : Subject) (resource : EntityKey) (role : String)
    (privilege : Privilege) (method : String) :
    Grows c (c.grant subject resource role privilege method) ∧
      (Sound c → (c.grant subject resource role privilege method).snapshot.complete = true →
        (c.grant subject resource role privilege method).Holds
          (.grant (method, subject, resource) (some role))) := by
  unfold Collection.grant
  dsimp only
  split
  case isTrue blocked => exact ⟨.refl c, fun s h => absurd blocked ((s.clean h).grants _)⟩
  split
  case h_1 old known =>
    split
    · exact ⟨.failed rfl rfl fun h => ⟨h.accounts, h.resources, h.groups, h.memberships,
        h.grants.erase _, h.teams⟩, fun _ h => by cases h⟩
    case isFalse same =>
      refine ⟨.refl c, fun _ _ => ⟨old, known, fun r hr => ?_⟩⟩
      cases hr
      exact Decidable.not_not.mp (not_or.mp same).1
  case h_2 unknown =>
    refine ⟨.added rfl rfl rfl (fun h => ⟨h.accounts, h.resources, h.groups, h.memberships,
      h.grants.insert ?_, h.teams⟩) ?_, fun _ _ => ⟨c.grantOf subject resource role privilege method,
        ?_, fun r hr => ?_⟩⟩
    · cases subject <;> rfl
    · intro fact held
      cases fact with
      | grant key role' =>
        obtain ⟨g, known, hg⟩ := held
        refine ⟨g, ?_, hg⟩
        show (c.grants.insert _ _)[key]? = some g
        rw [getElem?_insert_key, if_neg]
        · exact known
        · rintro rfl
          rw [known] at unknown
          cases unknown
      | _ => exact held
    · show (c.grants.insert _ _)[_]? = _
      rw [getElem?_insert_key, if_pos rfl]
    · cases hr
      rfl

theorem grows_adopt (c : Collection) (org : String) (organization resource : EntityKey)
    (owner : String) : Grows c (c.adopt org organization resource owner) := by
  unfold Collection.adopt
  split
  case isTrue =>
    split
    case h_1 old known =>
      have under (h : Keyed c) : old.key = resource := h.resources _ _ known
      refine .added rfl rfl rfl (fun h => ⟨h.accounts, h.resources.insert (under h), h.groups,
        h.memberships, h.grants, h.teams⟩) ?_
      intro fact held
      cases fact with
      | resource key => exact mem_insert_map.mpr (.inr held)
      | _ => exact held
    case h_2 => exact .refl c
  case isFalse => exact .refl c

theorem grows_organization (c : Collection) (key : EntityKey) (org : String) :
    Grows c (c.organization key org) := by
  refine .added rfl rfl rfl (fun h => ⟨h.accounts, h.resources.insert rfl, h.groups.insert rfl,
    h.memberships, h.grants, ?_⟩) ?_
  · intro k mem
    exact (h.teams k mem).imp_left fun there => mem_insert_map.mpr (.inr there)
  · intro fact held
    cases fact with
    | resource key => exact mem_insert_map.mpr (.inr held)
    | group key => exact mem_insert_map.mpr (.inr held)
    | _ => exact held

/-- The error of a list is recorded. -/
theorem grows_accept (c : Collection) (endpoint : String) (list : Listing) :
    Grows c (c.accept endpoint list).2 ∧ (c.accept endpoint list).1 = list.items ∧
      ((c.accept endpoint list).2.snapshot.complete = true → list.error = none) := by
  unfold Collection.accept
  have counted : Grows c { c with success := c.success || list.success } :=
    .added rfl rfl rfl (fun h => ⟨h.accounts, h.resources, h.groups, h.memberships, h.grants,
      h.teams⟩) fun fact held => by cases fact <;> exact held
  dsimp only
  split
  · exact ⟨counted.trans (grows_fail ..), rfl, fun h => by cases h⟩
  case h_2 quiet => exact ⟨counted, rfl, fun _ => quiet⟩

/-! ## Rows -/

/-- A row stays represented. -/
theorem Collection.HoldsRow.mono {c c' : Collection} {purpose : Purpose} {row : Value}
    (h : c.HoldsRow purpose row) (grows : Grows c c') (all : c'.snapshot.complete = true) :
    c'.HoldsRow purpose row := by
  obtain ⟨id, hid, held⟩ := h
  refine ⟨id, hid, fun fact hf => grows.holds all fact (held fact ?_)⟩
  rwa [grows.provider] at hf

/-- Rows that are taken in one after another. -/
theorem grows_rows {step : Collection → Value → Collection} {purpose : Purpose}
    (grows : ∀ c row, Grows c (step c row) ∧ (Sound c → (step c row).snapshot.complete = true →
      (step c row).HoldsRow purpose row)) (c : Collection) (rows : List Value) :
    Grows c (rows.foldl step c) ∧ (Sound c → (rows.foldl step c).snapshot.complete = true →
      ∀ row ∈ rows, (rows.foldl step c).HoldsRow purpose row) := by
  induction rows generalizing c with
  | nil => exact ⟨.refl c, fun _ _ _ h => by cases h⟩
  | cons row rows ih =>
    obtain ⟨first, taken⟩ := grows c row
    obtain ⟨rest, others⟩ := ih (step c row)
    refine ⟨first.trans rest, fun s all row' mem => ?_⟩
    rcases List.mem_cons.mp mem with rfl | mem
    · exact (taken s (rest.complete all)).mono rest all
    · exact others (first.sound s) all row' mem

end Permesh.Github

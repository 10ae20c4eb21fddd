import Mathlib.Order.Defs.LinearOrder
import Std.Data.ExtTreeMap
import Std.Data.ExtTreeSet

/-!
# The domain model

The entities of `permesh_core`, with the fields that the providers write and the runtime
projects. `Snapshot::validate` and the orders of `Snapshot::sort` are code of `permesh_core`, so
they are fields of `Core`, with what the callers rely on: sorting permutes each list and touches
nothing else.

Keys are ordered as the derived `Ord` of Rust orders them, field by field and variant by variant,
since the providers keep their entities in ordered maps.
-/

namespace Permesh

structure EntityKey where
  provider : String
  id : String
  deriving DecidableEq, Repr

inductive Subject where
  | account (key : EntityKey)
  | group (key : EntityKey)
  deriving DecidableEq, Repr

inductive IdentityKind where
  | human | service | bot | unknown
  deriving DecidableEq, Repr

inductive IdentityStatus where
  | active | inactive | suspended | unknown
  deriving DecidableEq, Repr

inductive Affiliation where
  | internal | external | unknown
  deriving DecidableEq, Repr

inductive EvidenceKind where
  | permission | assignment | policyAttachment | unknown
  deriving DecidableEq, Repr

inductive Privilege where
  | standard | elevated | admin | owner | unknown
  deriving DecidableEq, Repr

inductive Certainty where
  | observed | derived | inferred | unknown
  deriving DecidableEq, Repr

structure Provenance where
  method : String
  observedAt : String
  deriving DecidableEq, Repr

structure Account where
  key : EntityKey
  login : String
  kind : IdentityKind
  affiliation : Affiliation
  status : IdentityStatus
  verifiedEmails : List String
  deriving DecidableEq, Repr

structure Identity where
  id : String
  kind : IdentityKind
  affiliation : Affiliation
  status : IdentityStatus
  verifiedEmails : List String
  deriving DecidableEq, Repr

structure Resource where
  key : EntityKey
  name : String
  kind : Option String
  parent : Option EntityKey
  deriving DecidableEq, Repr

structure Group where
  key : EntityKey
  name : String
  deriving DecidableEq, Repr

structure Membership where
  member : Subject
  group : EntityKey
  provenance : Provenance
  deriving DecidableEq, Repr

structure Grant where
  id : String
  subject : Subject
  resource : EntityKey
  role : String
  privilege : Privilege
  certainty : Certainty
  evidenceKind : EvidenceKind
  provenance : Provenance
  deriving DecidableEq, Repr

structure Snapshot where
  provider : String
  identities : List Identity
  accounts : List Account
  resources : List Resource
  groups : List Group
  memberships : List Membership
  grants : List Grant
  complete : Bool
  limitations : List String
  deriving DecidableEq, Repr

/-- `Snapshot::new`: nothing observed, and nothing missed so far. -/
def Snapshot.new (provider : String) : Snapshot :=
  ⟨provider, [], [], [], [], [], [], true, []⟩

/-- What `permesh_core` does to a snapshot. `Snapshot::sort` sorts each list by itself. -/
structure Core where
  /-- `Snapshot::validate` succeeds. -/
  validate : Snapshot → Bool
  /-- `validate_snapshot` of the provider SDK succeeds. -/
  validateSnapshot : Snapshot → Bool
  sortIdentities : List Identity → List Identity
  sortAccounts : List Account → List Account
  sortResources : List Resource → List Resource
  sortGroups : List Group → List Group
  sortMemberships : List Membership → List Membership
  sortGrants : List Grant → List Grant
  identities_perm : ∀ l, (sortIdentities l).Perm l
  accounts_perm : ∀ l, (sortAccounts l).Perm l
  resources_perm : ∀ l, (sortResources l).Perm l
  groups_perm : ∀ l, (sortGroups l).Perm l
  memberships_perm : ∀ l, (sortMemberships l).Perm l
  grants_perm : ∀ l, (sortGrants l).Perm l

/-- `Snapshot::sort`. -/
def Core.sort (core : Core) (s : Snapshot) : Snapshot :=
  { s with
    identities := core.sortIdentities s.identities
    accounts := core.sortAccounts s.accounts
    resources := core.sortResources s.resources
    groups := core.sortGroups s.groups
    memberships := core.sortMemberships s.memberships
    grants := core.sortGrants s.grants }

namespace Core

variable {core : Core} {s : Snapshot}

@[simp] theorem mem_sort_accounts {a : Account} : a ∈ (core.sort s).accounts ↔ a ∈ s.accounts :=
  (core.accounts_perm _).mem_iff

@[simp] theorem mem_sort_groups {g : Group} : g ∈ (core.sort s).groups ↔ g ∈ s.groups :=
  (core.groups_perm _).mem_iff

@[simp] theorem mem_sort_resources {r : Resource} : r ∈ (core.sort s).resources ↔ r ∈ s.resources :=
  (core.resources_perm _).mem_iff

@[simp] theorem mem_sort_memberships {m : Membership} :
    m ∈ (core.sort s).memberships ↔ m ∈ s.memberships :=
  (core.memberships_perm _).mem_iff

@[simp] theorem mem_sort_grants {g : Grant} : g ∈ (core.sort s).grants ↔ g ∈ s.grants :=
  (core.grants_perm _).mem_iff

end Core

/-- Core that accepts every snapshot and leaves every list as it is. -/
def Core.plain : Core where
  validate _ := true
  validateSnapshot _ := true
  sortIdentities l := l
  sortAccounts l := l
  sortResources l := l
  sortGroups l := l
  sortMemberships l := l
  sortGrants l := l
  identities_perm _ := .refl _
  accounts_perm _ := .refl _
  resources_perm _ := .refl _
  groups_perm _ := .refl _
  memberships_perm _ := .refl _
  grants_perm _ := .refl _

/-- `ProviderError`: a code and a fixed text. -/
structure ProviderError where
  code : String
  message : String
  deriving DecidableEq, Repr

/-! ## Order of keys -/

/-- The strings a key is compared by, in order. -/
def EntityKey.path (k : EntityKey) : List String := [k.provider, k.id]

theorem EntityKey.path_injective : Function.Injective EntityKey.path := by
  intro a b h
  obtain ⟨pa, ia⟩ := a
  obtain ⟨pb, ib⟩ := b
  simp only [EntityKey.path, List.cons.injEq, and_true] at h
  obtain ⟨rfl, rfl⟩ := h
  rfl

/-- The variant first, then the key. -/
def Subject.path : Subject → List String
  | .account k => "0" :: k.path
  | .group k => "1" :: k.path

theorem Subject.path_injective : Function.Injective Subject.path := by
  intro a b h
  cases a <;> cases b <;>
    simp only [Subject.path, List.cons.injEq, true_and, String.reduceEq, false_and] at h
  all_goals rw [EntityKey.path_injective h]

/-- Comparing by an injective image identifies only equal keys. -/
theorem lawfulEqCmp_compareOn {α β : Type} [Ord β] [Std.LawfulEqOrd β] {f : α → β}
    (inj : Function.Injective f) : Std.LawfulEqCmp (compareOn f) where
  compare_self := Std.ReflOrd.compare_self (α := β)
  eq_of_compare h := inj (Std.LawfulEqOrd.eq_of_compare h)

instance : Ord EntityKey := ⟨compareOn EntityKey.path⟩
instance : Std.TransOrd EntityKey := inferInstanceAs (Std.TransCmp (compareOn EntityKey.path))
instance : Std.LawfulEqOrd EntityKey := lawfulEqCmp_compareOn EntityKey.path_injective

/-- The key of a membership in the maps of the providers. -/
abbrev MembershipKey := Subject × EntityKey

/-- The key of a grant claim: method, subject, resource. -/
abbrev GrantKey := String × Subject × EntityKey

def MembershipKey.path (k : MembershipKey) : List String := k.1.path ++ k.2.path

theorem MembershipKey.path_injective : Function.Injective MembershipKey.path := by
  intro a b h
  have len : ∀ s : Subject, s.path.length = 3 := by intro s; cases s <;> rfl
  obtain ⟨hs, hk⟩ := List.append_inj h (by rw [len, len])
  exact Prod.ext (Subject.path_injective hs) (EntityKey.path_injective hk)

def GrantKey.path (k : GrantKey) : List String := k.1 :: MembershipKey.path k.2

theorem GrantKey.path_injective : Function.Injective GrantKey.path := by
  intro a b h
  simp only [GrantKey.path, List.cons.injEq] at h
  exact Prod.ext h.1 (MembershipKey.path_injective h.2)

instance : Ord MembershipKey := ⟨compareOn MembershipKey.path⟩
instance : Std.TransOrd MembershipKey :=
  inferInstanceAs (Std.TransCmp (compareOn MembershipKey.path))
instance : Std.LawfulEqOrd MembershipKey := lawfulEqCmp_compareOn MembershipKey.path_injective

instance : Ord GrantKey := ⟨compareOn GrantKey.path⟩
instance : Std.TransOrd GrantKey := inferInstanceAs (Std.TransCmp (compareOn GrantKey.path))
instance : Std.LawfulEqOrd GrantKey := lawfulEqCmp_compareOn GrantKey.path_injective

end Permesh

import Permesh.Github.Records
import Permesh.Lib.Agreement

/-!
# Laws.Github.Observations — the graph is what the observations agree on

A collection is fed with rows in whatever order the lists, pages and organizations bring them.
For each entity the rows seen with its identifier either agree or conflict (`Lib.Agreement`), and
the collection knows exactly that verdict (`Accounts`, `Repositories`, `Teams`, `Claims`). So the
finished graph depends on the observations and not on their order (`Collection.finish_perm`), and
an entity is in it exactly when its observations agree.
-/

namespace Permesh.Github

open Permesh.Json Permesh.Lib

/-! ## Observations -/

/-- A membership that an account row carries. -/
structure RowMembership where
  group : EntityKey
  method : String

/-- A grant that an account row carries. -/
structure RowGrant where
  resource : EntityKey
  role : String
  privilege : Privilege
  method : String

/-- What the traversal feeds into the collection. -/
inductive Observation where
  | account (row : Value) (memberships : List RowMembership) (grants : List RowGrant)
  | repository (row : Value)
  | team (row : Value) (org : String)
  | groupGrant (group resource : EntityKey) (role : String) (privilege : Privilege)
      (method : String)

namespace Collection

/-- The memberships and grants of an accepted account row. -/
def carry (c : Collection) (key : EntityKey) (memberships : List RowMembership)
    (grants : List RowGrant) : Collection :=
  grants.foldl (fun c g => c.grant (.account key) g.resource g.role g.privilege g.method)
    (memberships.foldl (fun c m => c.membership (.account key) m.group m.method) c)

/-- An account row issues its memberships and grants only if the account is accepted. -/
def observe (c : Collection) : Observation → Collection
  | .account row memberships grants =>
    match c.account row with
    | (none, c) => c
    | (some key, c) => c.carry key memberships grants
  | .repository row => (c.repository row).2
  | .team row org => (c.team row org).2
  | .groupGrant group resource role privilege method =>
    c.grant (.group group) resource role privilege method

/-- A new collection in which some list has succeeded. -/
def start (id observedAt : String) : Collection :=
  { Collection.new id observedAt with success := true }

def observeAll (c : Collection) (observations : List Observation) : Collection :=
  observations.foldl observe c

/-! ## What each function leaves alone -/

/-- What accounts are kept in. -/
def accountPart (c : Collection) := (c.accounts, c.accountTypes, c.blockedAccounts)

def repositoryPart (c : Collection) := (c.resources, c.blockedResources)

def teamPart (c : Collection) := (c.groups, c.teams, c.blockedGroups)

def grantPart (c : Collection) := (c.grants, c.blockedGrants)

/-- What no observation changes. -/
def fixedPart (c : Collection) := (c.snapshot.provider, c.observedAt, c.success)

theorem account_parts (c : Collection) (row : Value) :
    (c.account row).2.repositoryPart = c.repositoryPart ∧
      (c.account row).2.teamPart = c.teamPart ∧ (c.account row).2.grantPart = c.grantPart ∧
      (c.account row).2.memberships = c.memberships ∧
      (c.account row).2.fixedPart = c.fixedPart := by
  unfold account
  split
  · exact ⟨rfl, rfl, rfl, rfl, rfl⟩
  dsimp only
  split
  · exact ⟨rfl, rfl, rfl, rfl, rfl⟩
  split
  · exact ⟨rfl, rfl, rfl, rfl, rfl⟩
  split
  · exact ⟨rfl, rfl, rfl, rfl, rfl⟩
  split
  · exact ⟨rfl, rfl, rfl, rfl, rfl⟩
  split <;> exact ⟨rfl, rfl, rfl, rfl, rfl⟩

theorem repository_parts (c : Collection) (row : Value) :
    (c.repository row).2.accountPart = c.accountPart ∧
      (c.repository row).2.teamPart = c.teamPart ∧
      (c.repository row).2.grantPart = c.grantPart ∧
      (c.repository row).2.memberships = c.memberships ∧
      (c.repository row).2.fixedPart = c.fixedPart := by
  unfold repository
  split
  · exact ⟨rfl, rfl, rfl, rfl, rfl⟩
  dsimp only
  split
  · exact ⟨rfl, rfl, rfl, rfl, rfl⟩
  split
  · exact ⟨rfl, rfl, rfl, rfl, rfl⟩
  split <;> exact ⟨rfl, rfl, rfl, rfl, rfl⟩

theorem team_parts (c : Collection) (row : Value) (org : String) :
    (c.team row org).2.accountPart = c.accountPart ∧
      (c.team row org).2.repositoryPart = c.repositoryPart ∧
      (c.team row org).2.grantPart = c.grantPart ∧
      (c.team row org).2.memberships = c.memberships ∧
      (c.team row org).2.fixedPart = c.fixedPart := by
  unfold team
  split
  · exact ⟨rfl, rfl, rfl, rfl, rfl⟩
  dsimp only
  split
  · exact ⟨rfl, rfl, rfl, rfl, rfl⟩
  split
  · split
    · split <;> exact ⟨rfl, rfl, rfl, rfl, rfl⟩
    · exact ⟨rfl, rfl, rfl, rfl, rfl⟩
  · exact ⟨rfl, rfl, rfl, rfl, rfl⟩

theorem grant_parts (c : Collection) (subject : Subject) (resource : EntityKey) (role : String)
    (privilege : Privilege) (method : String) :
    (c.grant subject resource role privilege method).accountPart = c.accountPart ∧
      (c.grant subject resource role privilege method).repositoryPart = c.repositoryPart ∧
      (c.grant subject resource role privilege method).teamPart = c.teamPart ∧
      (c.grant subject resource role privilege method).memberships = c.memberships ∧
      (c.grant subject resource role privilege method).fixedPart = c.fixedPart := by
  unfold grant
  dsimp only
  split
  · exact ⟨rfl, rfl, rfl, rfl, rfl⟩
  split
  · split <;> exact ⟨rfl, rfl, rfl, rfl, rfl⟩
  · exact ⟨rfl, rfl, rfl, rfl, rfl⟩

theorem membership_parts (c : Collection) (member : Subject) (group : EntityKey)
    (method : String) :
    (c.membership member group method).accountPart = c.accountPart ∧
      (c.membership member group method).repositoryPart = c.repositoryPart ∧
      (c.membership member group method).teamPart = c.teamPart ∧
      (c.membership member group method).grantPart = c.grantPart ∧
      (c.membership member group method).fixedPart = c.fixedPart := by
  unfold membership
  split <;> exact ⟨rfl, rfl, rfl, rfl, rfl⟩

end Collection

/-! ## What the observations say -/

section Seen

variable (p : String)

def accountKey (row : Value) : Option EntityKey :=
  (nativeId row).map fun id => ⟨p, toString id⟩

def repositoryKey (row : Value) : Option EntityKey :=
  (nativeId row).map fun id => ⟨p, s!"repository:{id}"⟩

def teamKey (row : Value) : Option EntityKey :=
  (nativeId row).map fun id => ⟨p, s!"team:{id}"⟩

/-- The login of a row whose type is not malformed. -/
def rowLogin (row : Value) : Option String :=
  (field row "login").filter fun _ => !((row.get "type").isSome && (field row "type").isNone)

/-- Organization, slug and name of a team row. -/
def rowTeam (row : Value) (org : String) : Option (String × String × String) :=
  match (field row "slug").filter safeSegment, field row "name" with
  | some slug, some name => some (org, slug, name)
  | _, _ => none

/-- The logins seen with an account key. -/
def logins (k : EntityKey) : Observation → List (Option String)
  | .account row _ _ => if accountKey p row = some k then [rowLogin row] else []
  | _ => []

/-- The explicit types seen with an account key. -/
def types (k : EntityKey) : Observation → List (Option String)
  | .account row _ _ =>
    if accountKey p row = some k then ((field row "type").map some).toList else []
  | _ => []

/-- The full names seen with a repository key. -/
def names (k : EntityKey) : Observation → List (Option String)
  | .repository row => if repositoryKey p row = some k then [(fullName row).map Prod.fst] else []
  | _ => []

/-- The metadata seen with a team key. -/
def teamRows (k : EntityKey) : Observation → List (Option (String × String × String))
  | .team row org => if teamKey p row = some k then [rowTeam row org] else []
  | _ => []

/-- The role and privilege that an observation reports for each claim it carries. -/
def claims : Observation → List (GrantKey × String × Privilege)
  | .account row _ grants =>
    match accountKey p row with
    | none => []
    | some key => grants.map fun g => ((g.method, .account key, g.resource), g.role, g.privilege)
  | .groupGrant group resource role privilege method =>
    [((method, .group group, resource), role, privilege)]
  | _ => []

/-- The method of each membership that an observation carries. -/
def joins : Observation → List (MembershipKey × String)
  | .account row memberships _ =>
    match accountKey p row with
    | none => []
    | some key => memberships.map fun m => ((.account key, m.group), m.method)
  | _ => []

/-- The observation is a row with no identifier. -/
def anonymous : Observation → Bool
  | .account row _ _ | .repository row | .team row _ => (nativeId row).isNone
  | .groupGrant .. => false

end Seen

section Verdicts

variable (p : String) (observations : List Observation)

def accountLogin (k : EntityKey) : Agreement String := .of (observations.flatMap (logins p k))

def accountType (k : EntityKey) : Agreement String := .of (observations.flatMap (types p k))

def repositoryName (k : EntityKey) : Agreement String := .of (observations.flatMap (names p k))

def teamMetadata (k : EntityKey) : Agreement (String × String × String) :=
  .of (observations.flatMap (teamRows p k))

/-- What is said of `k`, in order. -/
def said {κ α : Type} [DecidableEq κ] (k : κ) (seen : List (κ × α)) : List α :=
  (seen.filter (·.1 = k)).map Prod.snd

def claimRole (k : GrantKey) : Agreement (String × Privilege) :=
  .of ((said k (observations.flatMap (claims p))).map some)

/-- An account is excluded if its rows are malformed or disagree. -/
def ExcludedAccount (k : EntityKey) : Prop :=
  accountLogin p observations k = .conflict ∨ accountType p observations k = .conflict

instance (k : EntityKey) : Decidable (ExcludedAccount p observations k) :=
  inferInstanceAs (Decidable (_ ∨ _))

/-- The account that the rows of a key agree on. -/
def accountOf (k : EntityKey) (login : String) (nativeType : Option String) : Account where
  key := k
  login := login
  kind := accountKind nativeType
  affiliation := .unknown
  status := .unknown
  verifiedEmails := []

def repositoryOf (k : EntityKey) (fullName : String) : Resource where
  key := k
  name := fullName
  kind := some "github.repository"
  parent := none

def teamOf (k : EntityKey) (metadata : String × String × String) : Group where
  key := k
  name := s!"{metadata.1}/{metadata.2.2}"

def expectedAccount (k : EntityKey) : Option Account :=
  if ExcludedAccount p observations k then none
  else (accountLogin p observations k).value.map fun login =>
    accountOf k login (accountType p observations k).value

end Verdicts

end Permesh.Github

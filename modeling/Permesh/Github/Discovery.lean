import Permesh.Github.Client
import Permesh.Native.Session

/-!
# Github.Discovery — the traversal of organizations

`collect`: members, repositories, teams and collaborators of every organization are listed, and
their rows go into one collection. Every list that was issued is kept beside the traversal, with
what its rows are about. `check` asks for the user and its membership in every organization.
-/

namespace Permesh.Github

open Permesh.Json Permesh.Http

/-- What the rows of a list are about. -/
inductive Purpose where
  | organizationMembers (organization : EntityKey) (role : String)
  | organizationRepositories
  | teams
  | teamMembers (team : EntityKey)
  | teamRepositories (team : EntityKey)
  | collaborators (repository : EntityKey)
  deriving DecidableEq

/-- A list that was issued. -/
structure Issue where
  purpose : Purpose
  segments : List String
  filters : List (String × String)
  wire : Wire

structure Traversal where
  state : Collection
  wire : Wire
  issued : List Issue

/-- `Collection::accept`. -/
def Collection.accept (c : Collection) (endpoint : String) (list : Listing) :
    List Value × Collection :=
  let c := { c with success := c.success || list.success }
  match list.error with
  | some failure => (list.items, c.fail endpoint failure)
  | none => (list.items, c)

namespace Traversal

def fail (t : Traversal) (endpoint : String) (failure : ProviderError) : Traversal :=
  { t with state := t.state.fail endpoint failure }

/-- A budget is used up. -/
def spent (t : Traversal) : Bool :=
  t.wire.budget.requests ≥ MAX_REQUESTS || t.wire.budget.rows ≥ MAX_ROWS

end Traversal

/-! ## Rows -/

namespace Collection

/-- What is done with the account of a row: `if let Some(account) = state.account(&user)`. -/
def forAccount (c : Collection) (user : Value) (claims : EntityKey → Collection → Collection) :
    Collection :=
  match c.account user with
  | (none, c) => c
  | (some account, c) => claims account c

/-- A row of the members of an organization. -/
def member (organization : EntityKey) (role : String) (c : Collection) (user : Value) :
    Collection :=
  c.forAccount user fun account c =>
    (c.membership (.account account) organization "github.organization_members").grant
      (.account account) organization role (if role = "admin" then .owner else .standard)
      "github.organization_role"

/-- A row of the members of a team. -/
def teamMember (team : EntityKey) (c : Collection) (user : Value) : Collection :=
  c.forAccount user fun account c =>
    c.membership (.account account) team "github.team_members_effective"

/-- A row of the collaborators of a repository. -/
def collaborator (resource : EntityKey) (c : Collection) (user : Value) : Collection :=
  c.forAccount user fun account c =>
    c.grant (.account account) resource (repositoryRole user) (privilege (repositoryRole user))
      "github.repository_collaborator_effective"

/-- A repository of the organization gets it as its parent. -/
def adopt (c : Collection) (org : String) (organization resource : EntityKey) (owner : String) :
    Collection :=
  if Text.eqIgnoreAsciiCase owner org then
    match c.resources[resource]? with
    | some old =>
      { c with resources := c.resources.insert resource { old with parent := some organization } }
    | none => c
  else c

/-- The organization as a resource and as a group. -/
def organization (c : Collection) (key : EntityKey) (org : String) : Collection :=
  { c with
    success := true
    resources := c.resources.insert key {
      key := key
      name := org
      kind := some "github.organization"
      parent := none }
    groups := c.groups.insert key { key := key, name := org } }

end Collection

/-- The repositories found in an organization: owner and name. -/
abbrev RepositoryMap := Std.ExtTreeMap EntityKey (String × String)

namespace Client

variable (client : Client)

/-- A list whose rows are accepted. -/
def issue (t : Traversal) (purpose : Purpose) (endpoint : String) (segments : List String)
    (filters : List (String × String)) : List Value × Traversal :=
  let (list, wire) := client.list segments filters t.wire
  let (items, state) := t.state.accept endpoint list
  (items, ⟨state, wire, t.issued ++ [⟨purpose, segments, filters, t.wire⟩]⟩)

/-- The members of an organization with one role. -/
def members (org : String) (organization : EntityKey) (filter role : String) (t : Traversal) :
    Traversal :=
  let (items, t) := client.issue t (.organizationMembers organization role) "organization members"
    ["orgs", org, "members"] [("role", filter)]
  { t with state := items.foldl (Collection.member organization role) t.state }

/-- The rows of the repositories of an organization. -/
def repositoryRows (org : String) (organization : EntityKey) :
    Collection → RepositoryMap → List Value → Collection × RepositoryMap
  | c, repositories, [] => (c, repositories)
  | c, repositories, repo :: rest =>
    match c.repository repo with
    | (none, c) => repositoryRows org organization c repositories rest
    | (some (key, owner, name), c) =>
      repositoryRows org organization (c.adopt org organization key owner)
        (repositories.insert key (owner, name)) rest

/-- The repositories of an organization. -/
def repositories (org : String) (organization : EntityKey) (t : Traversal) :
    RepositoryMap × Traversal :=
  let (items, t) := client.issue t .organizationRepositories "organization repositories"
    ["orgs", org, "repos"] []
  let (state, repositories) := repositoryRows org organization t.state ∅ items
  (repositories, { t with state := state })

/-- The permissions of a team on a repository. -/
def permissions (org slug owner name : String) (repo : Value) (t : Traversal) :
    Option Value × Traversal :=
  match client.url ["orgs", org, "teams", slug, "repos", owner, name] [] with
  | .error failure => (none, t.fail "team repository permissions" failure)
  | .ok url =>
    match client.getMedia url "application/vnd.github.v3.repository+json" t.wire with
    | (.ok (_, value), wire) =>
      let t := { t with wire := wire }
      if value.isObject && nativeId value == nativeId repo then (some value, t)
      else (none, t.fail "team repository permissions" (error "malformed"))
    | (.error failure, wire) =>
      (none, { t with wire := wire }.fail "team repository permissions" failure)

/-- The rows of the repositories of a team. -/
def teamRepositoryRows (org slug : String) (organization team : EntityKey) :
    Traversal → RepositoryMap → List Value → RepositoryMap × Traversal
  | t, repositories, [] => (repositories, t)
  | t, repositories, repo :: rest =>
    match t.state.repository repo with
    | (none, c) =>
      teamRepositoryRows org slug organization team { t with state := c } repositories rest
    | (some (resource, owner, name), c) =>
      let (permissions, t) := client.permissions org slug owner name repo
        { t with state := c.adopt org organization resource owner }
      let role := (permissions.map repositoryRole).getD "unknown"
      teamRepositoryRows org slug organization team
        { t with
          state := t.state.grant (.group team) resource role (privilege role)
            "github.team_repository_effective" }
        (repositories.insert resource (owner, name)) rest

/-- The members and the repositories of a team. -/
def team (org slug : String) (organization team : EntityKey) (repositories : RepositoryMap)
    (t : Traversal) : RepositoryMap × Traversal :=
  let (users, t) := client.issue t (.teamMembers team) "team members"
    ["orgs", org, "teams", slug, "members"] [("role", "all")]
  let t := { t with state := users.foldl (Collection.teamMember team) t.state }
  let (repos, t) := client.issue t (.teamRepositories team) "team repositories"
    ["orgs", org, "teams", slug, "repos"] []
  client.teamRepositoryRows org slug organization team t repositories repos

/-- The rows of the teams of an organization. -/
def teamRows (org : String) (organization : EntityKey) :
    Traversal → RepositoryMap → List Value → RepositoryMap × Traversal
  | t, repositories, [] => (repositories, t)
  | t, repositories, row :: rest =>
    match t.state.team row org with
    | (none, c) => teamRows org organization { t with state := c } repositories rest
    | (some (key, slug), c) =>
      let (repositories, t) := client.team org slug organization key repositories
        { t with state := c }
      teamRows org organization t repositories rest

/-- The teams of an organization. -/
def teams (org : String) (organization : EntityKey) (repositories : RepositoryMap)
    (t : Traversal) : RepositoryMap × Traversal :=
  let (items, t) := client.issue t .teams "teams" ["orgs", org, "teams"] []
  client.teamRows org organization t repositories items

/-- The collaborators of the repositories, until a budget is used up. -/
def collaborators : Traversal → List (EntityKey × String × String) → Traversal
  | t, [] => t
  | t, (resource, owner, name) :: rest =>
    if t.spent then t.fail "collaborators" (error "limit")
    else
      let (items, t) := client.issue t (.collaborators resource) "collaborators"
        ["repos", owner, name, "collaborators"] [("affiliation", "all")]
      collaborators { t with state := items.foldl (Collection.collaborator resource) t.state } rest

/-- One organization. -/
def organization (org : String) (t : Traversal) : Traversal :=
  match client.object ["orgs", org] t.wire with
  | (.error failure, wire) => { t with wire := wire }.fail "organization" failure
  | (.ok organization, wire) =>
    let t := { t with wire := wire }
    match nativeId organization with
    | none => t.fail "organization" (error "malformed")
    | some id =>
      let key := t.state.key "organization" id
      let t := { t with state := t.state.organization key org }
      let t := client.members org key "member" "member" t
      let t := client.members org key "admin" "admin" t
      let (repositories, t) := client.repositories org key t
      let (repositories, t) := client.teams org key repositories t
      client.collaborators t repositories.toList

/-- The organizations, until a budget is used up. -/
def traverse : Traversal → List String → Traversal
  | t, [] => t
  | t, org :: rest =>
    if t.spent then t.fail "discovery" (error "limit")
    else traverse (client.organization org t) rest

/-- The traversal of a collection that starts at a time that could be formatted. -/
def traversal (observedAt : String) : Traversal :=
  client.traverse ⟨.new client.id observedAt, ⟨⟨0, 0⟩, [], []⟩, []⟩ client.organizations

def collect (core : Core) (observedAt : String) : Except ProviderError Snapshot :=
  (client.traversal observedAt).state.finish core

/-! ## The check -/

/-- The user is an active member of the organizations. -/
def activeMember : List String → Wire → Except ProviderError Unit × Wire
  | [], w => (.ok (), w)
  | org :: rest, w =>
    match client.object ["user", "memberships", "orgs", org] w with
    | (.error failure, w) => (.error failure, w)
    | (.ok membership, w) =>
      if field membership "state" ≠ some "active" then (.error (error "membership"), w)
      else activeMember rest w

def check : Except ProviderError Native.Health × Wire :=
  match client.object ["user"] ⟨⟨0, 0⟩, [], []⟩ with
  | (.error failure, w) => (.error failure, w)
  | (.ok user, w) =>
    if nativeId user = none ∨ field user "login" = none then (.error (error "malformed"), w)
    else
      match client.activeMember client.organizations w with
      | (.error failure, w) => (.error failure, w)
      | (.ok (), w) =>
        (.ok ⟨"GitHub authentication and active organization membership verified.", VISIBILITY⟩, w)

end Client

end Permesh.Github

import Permesh.Core
import Permesh.Json
import Permesh.Lib.Maps

/-!
# Github.Records — the collected graph

`records.rs`: which fields of a row count, and the collection that turns rows into entities. A
function on `&mut self` returns its result and the collection behind it. What conflicts is blocked
and stays blocked.
-/

namespace Permesh.Github

open Permesh.Json

/-- `error`. -/
def error (code : String) : ProviderError where
  code := code
  message :=
    match code with
    | "configuration" => "Invalid GitHub provider configuration or HTTP client settings."
    | "unauthorized" => "GitHub rejected authentication; check the configured credential."
    | "forbidden" =>
      "GitHub denied access; check token permissions and organization authorization."
    | "not_found" =>
      "GitHub resource was not visible; check scope and organization access."
    | "rate_limit" =>
      "GitHub rate limit prevented collection within the retry budget; retry later."
    | "timeout" => "GitHub request exceeded its deadline."
    | "transport" => "GitHub request could not be completed."
    | "limit" =>
      "GitHub collection reached a response, page, record, or request safety limit."
    | "pagination" => "GitHub returned invalid or unsafe pagination metadata."
    | "malformed" => "GitHub returned an invalid response or record."
    | "membership" =>
      "Active membership in a configured GitHub organization could not be verified."
    | "discovery" =>
      "No configured GitHub organization could be collected; check credentials and access."
    | "conflict" =>
      "Conflicting observations for the same native entity or grant were excluded with their " ++
        "dependent claims."
    | "clock" => "Observation time could not be formatted."
    | _ => "GitHub returned an unsuccessful response."

def VISIBILITY : List String := [
  "GitHub visibility is limited by token permissions, selected repositories, organization " ++
    "membership, SSO authorization, and secret teams; absence is not proof of no access.",
  "Repository collaborator roles describe effective access, including inherited team, " ++
    "organization, and enterprise access; they are not evidence of direct grants.",
  "Team memberships and repository permissions can include nested-team inheritance; the API " ++
    "observations do not establish direct assignment.",
  "Public email is not verified and is excluded. Pending invitations, enterprise policy, " ++
    "organization base-permission settings, and non-repository resources are not enumerated. " ++
    "Collection is not transactional."]

/-! ## Fields -/

def safeSegment (s : String) : Bool :=
  !s.isEmpty && Text.len s ≤ 512 && s != "." && s != ".." &&
    s.toList.all fun c => Text.isAsciiAlphanumeric c || c == '-' || c == '_' || c == '.'

def nativeId (v : Value) : Option Nat :=
  ((v.get "id").bind Value.asU64).filter (0 < ·)

def field (v : Value) (name : String) : Option String :=
  ((v.get name).bind Value.asStr).filter fun s =>
    !(Text.trim s).isEmpty && Text.len s ≤ 512 && !s.toList.any Text.isControl

def repositoryRole (v : Value) : String :=
  ((field v "role_name").or (field v "permission")).getD "unknown"

def privilege (role : String) : Privilege :=
  match role with
  | "read" | "pull" | "triage" => .standard
  | "write" | "push" | "maintain" => .elevated
  | "admin" => .admin
  | _ => .unknown

/-! ## The collection -/

/-- The kind that an explicit type stands for. -/
def accountKind (nativeType : Option String) : IdentityKind :=
  match nativeType with
  | some "User" => .human
  | some "Bot" => .bot
  | _ => .unknown

/-- The full name of a repository row with its two safe parts. -/
def fullName (value : Value) : Option (String × String × String) :=
  (field value "full_name").bind fun fullName =>
    ((Text.splitOnce '/' fullName).filter fun (owner, name) =>
      safeSegment owner && safeSegment name).map fun (owner, name) => (fullName, owner, name)

structure Collection where
  snapshot : Snapshot
  accounts : Std.ExtTreeMap EntityKey Account
  resources : Std.ExtTreeMap EntityKey Resource
  groups : Std.ExtTreeMap EntityKey Group
  memberships : Std.ExtTreeMap MembershipKey Membership
  grants : Std.ExtTreeMap GrantKey Grant
  accountTypes : Std.ExtTreeMap EntityKey String
  teams : Std.ExtTreeMap EntityKey (String × String × String)
  blockedAccounts : Std.ExtTreeSet EntityKey
  blockedResources : Std.ExtTreeSet EntityKey
  blockedGroups : Std.ExtTreeSet EntityKey
  blockedGrants : Std.ExtTreeSet GrantKey
  observedAt : String
  success : Bool

/-- `Collection::new`, at a time that could be formatted. -/
def Collection.new (id observedAt : String) : Collection where
  snapshot := { Snapshot.new id with limitations := VISIBILITY }
  accounts := ∅
  resources := ∅
  groups := ∅
  memberships := ∅
  grants := ∅
  accountTypes := ∅
  teams := ∅
  blockedAccounts := ∅
  blockedResources := ∅
  blockedGroups := ∅
  blockedGrants := ∅
  observedAt := observedAt
  success := false

namespace Collection

def key (c : Collection) (kind : String) (id : Nat) : EntityKey :=
  ⟨c.snapshot.provider, s!"{kind}:{id}"⟩

def provenance (c : Collection) (method : String) : Provenance := ⟨method, c.observedAt⟩

def fail (c : Collection) (endpoint : String) (err : ProviderError) : Collection :=
  let limitation := s!"GitHub {endpoint}: {err.message}"
  let limitations := if limitation ∈ c.snapshot.limitations then c.snapshot.limitations
    else c.snapshot.limitations ++ [limitation]
  { c with snapshot := { c.snapshot with complete := false, limitations := limitations } }

/-- `blocked_accounts.insert(..)` and `accounts.remove(..)`. -/
def blockAccount (c : Collection) (key : EntityKey) : Collection :=
  { c with blockedAccounts := c.blockedAccounts.insert key, accounts := c.accounts.erase key }

def blockResource (c : Collection) (key : EntityKey) : Collection :=
  { c with blockedResources := c.blockedResources.insert key, resources := c.resources.erase key }

def blockGroup (c : Collection) (key : EntityKey) : Collection :=
  { c with blockedGroups := c.blockedGroups.insert key, groups := c.groups.erase key }

def account (c : Collection) (value : Value) : Option EntityKey × Collection :=
  match nativeId value with
  | none => (none, c.fail "account record" (error "malformed"))
  | some id =>
    let key : EntityKey := ⟨c.snapshot.provider, toString id⟩
    if key ∈ c.blockedAccounts then (none, c) else
    match field value "login" with
    | none => (none, (c.blockAccount key).fail "account record" (error "malformed"))
    | some login =>
      let nativeType := field value "type"
      if (value.get "type").isSome ∧ nativeType = none then
        (none, (c.blockAccount key).fail "account record" (error "malformed"))
      else if (c.accounts[key]?.any fun old => old.login != login) ∨
          (nativeType.any fun new => c.accountTypes[key]?.any fun old => old != new) then
        (none, (c.blockAccount key).fail "account record" (error "conflict"))
      else
        let kind := accountKind nativeType
        let account := c.accounts[key]?.getD {
          key := key
          login := login
          kind := kind
          affiliation := .unknown
          status := .unknown
          verifiedEmails := [] }
        -- An omitted type is no contrary claim: it leaves the kind as it is.
        match nativeType with
        | none => (some key, { c with accounts := c.accounts.insert key account })
        | some nativeType =>
          (some key, { c with
            accounts := c.accounts.insert key { account with kind := kind }
            accountTypes := c.accountTypes.insert key nativeType })

def repository (c : Collection) (value : Value) :
    Option (EntityKey × String × String) × Collection :=
  match nativeId value with
  | none => (none, c.fail "repository record" (error "malformed"))
  | some id =>
    let key := c.key "repository" id
    if key ∈ c.blockedResources then (none, c) else
    match fullName value with
    | none => (none, (c.blockResource key).fail "repository record" (error "malformed"))
    | some (fullName, owner, name) =>
      if c.resources[key]?.any fun old => old.name != fullName then
        (none, (c.blockResource key).fail "repository record" (error "conflict"))
      else
        let resource := c.resources[key]?.getD {
          key := key
          name := fullName
          kind := some "github.repository"
          parent := none }
        (some (key, owner, name), { c with resources := c.resources.insert key resource })

def team (c : Collection) (value : Value) (org : String) :
    Option (EntityKey × String) × Collection :=
  match nativeId value with
  | none => (none, c.fail "teams" (error "malformed"))
  | some id =>
    let key := c.key "team" id
    if key ∈ c.blockedGroups then (none, c) else
    match (field value "slug").filter safeSegment, field value "name" with
    | some slug, some name =>
      let metadata := (org, slug, name)
      match c.teams[key]? with
      | some old =>
        if old ≠ metadata then (none, (c.blockGroup key).fail "teams" (error "conflict"))
        else (none, c)
      | none =>
        (some (key, slug), { c with
          teams := c.teams.insert key metadata
          groups := c.groups.insert key { key := key, name := s!"{org}/{name}" } })
    | _, _ => (none, (c.blockGroup key).fail "teams" (error "malformed"))

def membership (c : Collection) (member : Subject) (group : EntityKey) (method : String) :
    Collection :=
  match c.memberships[((member, group) : MembershipKey)]? with
  | some _ => c
  | none => { c with
      memberships := c.memberships.insert (member, group) ⟨member, group, c.provenance method⟩ }

/-- The grant of a claim, as it is first observed. -/
def grantOf (c : Collection) (subject : Subject) (resource : EntityKey) (role : String)
    (privilege : Privilege) (method : String) : Grant :=
  let (kind, key) := match subject with
    | .account k => ("account", k)
    | .group k => ("group", k)
  { id := s!"{method}:{kind}:{key.id}:{resource.id}:{role}"
    subject := subject
    resource := resource
    role := role
    privilege := privilege
    certainty := .observed
    evidenceKind :=
      if method = "github.repository_collaborator_effective" then .permission else .assignment
    provenance := c.provenance method }

def grant (c : Collection) (subject : Subject) (resource : EntityKey) (role : String)
    (privilege : Privilege) (method : String) : Collection :=
  let claim : GrantKey := (method, subject, resource)
  if claim ∈ c.blockedGrants then c else
  match c.grants[claim]? with
  | some old =>
    if old.role ≠ role ∨ old.privilege ≠ privilege then
      { c with grants := c.grants.erase claim, blockedGrants := c.blockedGrants.insert claim }.fail
        "grant record" (error "conflict")
    else c
  | none =>
    { c with grants := c.grants.insert claim (c.grantOf subject resource role privilege method) }

/-- `valid_subject`. -/
def validSubject (c : Collection) : Subject → Bool
  | .account key => key ∉ c.blockedAccounts
  | .group key => key ∉ c.blockedGroups

/-- The snapshot that `finish` sorts and validates. -/
def graph (c : Collection) : Snapshot :=
  let memberships := c.memberships.filter fun _ m =>
    c.validSubject m.member && m.group ∉ c.blockedGroups
  let grants := c.grants.filter fun _ g =>
    c.validSubject g.subject && g.resource ∉ c.blockedResources
  { c.snapshot with
    accounts := Lib.values c.accounts
    resources := Lib.values c.resources
    groups := Lib.values c.groups
    memberships := Lib.values memberships
    grants := Lib.values grants }

/-- `finish`. -/
def finish (core : Core) (c : Collection) : Except ProviderError Snapshot :=
  if c.success = false then .error (error "discovery")
  else
    let snapshot := core.sort c.graph
    if core.validateSnapshot snapshot = false then .error (error "malformed") else .ok snapshot

end Collection

end Permesh.Github

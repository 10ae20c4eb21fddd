import Permesh.Core
import Permesh.Json
import Permesh.Lib.Maps

/-!
# Gitlab.Records — accounts, memberships and grants of member rows

`records.rs` of the GitLab provider. A member row is read as an account, compared with what is
known of this account, read as an assignment, and only then recorded. Dates are read by the `time`
crate: its parser and the current date are parameters, and a date is the number of its day.
-/

namespace Permesh.Gitlab

open Permesh.Json

def MAX_ROWS : Nat := 20000

def VISIBILITY : List String := [
  "GitLab API/token permissions and edition limit visibility; observations are not transactional " ++
    "and absence does not prove no access.",
  "Only explicit groups, their directly owned projects, and explicit projects are collected; " ++
    "subgroup traversal and shared project expansion are excluded.",
  "Direct members are assignment evidence; members/all is observed effective membership with " ++
    "collapsed inheritance/sharing paths, not direct assignment or full authorization evaluation.",
  "No authoritative identities, verified email, invitations, token/session inventory, " ++
    "custom-role permission evaluation, ownership transfer, branch rules or application " ++
    "permissions are collected."]

/-- `error`. -/
def error (code : String) : ProviderError where
  code := code
  message :=
    match code with
    | "configuration" => "Invalid GitLab origin, numeric scope or credential configuration."
    | "unauthorized" => "GitLab rejected the credential."
    | "forbidden" =>
      "GitLab denied access; review token read_api scope and resource visibility."
    | "scope" => "GitLab returned an unexpected resource scope."
    | "pagination" =>
      "GitLab pagination was inconsistent or outside the approved request scope."
    | "rate_limit" => "GitLab rate limit exceeds the bounded retry budget."
    | "timeout" => "GitLab collection exceeded its deadline."
    | "limit" => "GitLab response, page, record or request limit exceeded."
    | "malformed" => "GitLab returned malformed or contradictory metadata."
    | _ => "GitLab request could not be completed."

/-! ## Fields -/

def nativeId (value : Value) : Except ProviderError Nat :=
  match ((value.get "id").bind Value.asU64).filter (0 < ·) with
  | some id => .ok id
  | none => .error (error "malformed")

def text (value : Value) (name : String) : Except ProviderError String :=
  match ((value.get name).bind Value.asStr).filter fun s =>
    !s.isEmpty && Text.len s ≤ 1024 && !s.toList.any Text.isControl with
  | some s => .ok s
  | none => .error (error "malformed")

def key (inst scope kind : String) (id : Nat) : EntityKey := ⟨inst, s!"{scope}:{kind}:{id}"⟩

/-- An optional field: absent, or read, or malformed. -/
def optional {α : Type} (value : Value) (name : String) (read : Value → Option α) :
    Except ProviderError (Option α) :=
  match value.get name with
  | none => .ok none
  | some v =>
    match read v with
    | some a => .ok (some a)
    | none => .error (error "malformed")

def statusOf (state : Option String) : IdentityStatus :=
  match state with
  | some "active" => .active
  | some "blocked" | some "blocked_pending_approval" | some "ldap_blocked" => .suspended
  | some "deactivated" => .inactive
  | _ => .unknown

def account (inst scope : String) (value : Value) : Except ProviderError Account := do
  let id ← nativeId value
  let login ← text value "username"
  let state ← optional value "state" Value.asStr
  let bot ← optional value "bot" Value.asBool
  return {
    key := key inst scope "user" id
    login := login
    kind := if bot = some true then .bot else .unknown
    affiliation := .unknown
    status := statusOf state
    verifiedEmails := [] }

/-- `resource`: the row of the group or project that was asked for. -/
def resource (inst scope kind : String) (id : Nat) (value : Value) :
    Except ProviderError Resource := do
  if (← nativeId value) ≠ id then .error (error "scope")
  let label ← text value (if kind = "group" then "full_path" else "path_with_namespace")
  return {
    key := key inst scope kind id
    name := label
    kind := some s!"gitlab.{kind}"
    parent := none }

/-- `parent`: the group above a group or a project. A project of a user has none. -/
def parent (value : Value) (kind : String) : Except ProviderError (Option Nat) := do
  let raw ←
    if kind = "group" then .ok (value.get "parent_id")
    else
      match (value.get "namespace").filter Value.isObject with
      | none => .error (error "malformed")
      | some above =>
        match (above.get "kind").bind Value.asStr with
        | some "group" => .ok (above.get "id")
        | some "user" => .ok none
        | _ => .error (error "malformed")
  match raw with
  | none | some .null => .ok none
  | some v =>
    match v.asU64.filter (0 < ·) with
    | some id => .ok (some id)
    | none => .error (error "malformed")

/-! ## Assignments -/

/-- Access level and custom role of a member row. -/
structure Assignment where
  level : Nat
  custom : Option Nat
  deriving DecidableEq, Repr

/-- The dates of the `time` crate. -/
structure Calendar where
  /-- `Date::parse` with the format `[year]-[month]-[day]`. -/
  parse : String → Option Int
  today : Int

/-- `member_role_id`. -/
def customRole (value : Value) : Except ProviderError (Option Nat) :=
  match value.get "member_role_id" with
  | none | some .null => .ok none
  | some v =>
    match v.asU64.filter (0 < ·) with
    | some id => .ok (some id)
    | none => .error (error "malformed")

/-- `expires_at`: absent, or a date that is not over. -/
def unexpired (calendar : Calendar) (value : Value) : Except ProviderError Unit :=
  if (value.get "expires_at").any fun v => !v.isNull then do
    let expiry ← text value "expires_at"
    match calendar.parse expiry with
    | none => .error (error "malformed")
    | some date => if date < calendar.today then .error (error "malformed") else .ok ()
  else .ok ()

/-- What `member` reads of a row behind the account. -/
def assignment (calendar : Calendar) (value : Value) : Except ProviderError Assignment := do
  let level ← match (value.get "access_level").bind Value.asU64 with
    | some level => .ok level
    | none => .error (error "malformed")
  let custom ← customRole value
  unexpired calendar value
  return ⟨level, custom⟩

def levelName (level : Nat) : String :=
  match level with
  | 5 => "minimal_access"
  | 10 => "guest"
  | 15 => "planner"
  | 20 => "reporter"
  | 25 => "security_manager"
  | 30 => "developer"
  | 40 => "maintainer"
  | 50 => "owner"
  | 60 => "admin"
  | _ => "unknown"

def Assignment.role (a : Assignment) : String :=
  s!"access_level:{a.level}:{levelName a.level}" ++
    (a.custom.map fun id => s!":member_role_id:{id}").getD ""

/-- Custom roles are not evaluated. -/
def Assignment.privilege (a : Assignment) : Privilege :=
  if a.custom.isSome then .unknown
  else match a.level with
    | 40 | 60 => .admin
    | 50 => .owner
    | _ => .unknown

/-! ## The collection -/

structure Collection where
  snapshot : Snapshot
  resources : Std.ExtTreeMap EntityKey Resource
  groups : Std.ExtTreeMap EntityKey Group
  accounts : Std.ExtTreeMap EntityKey Account
  blocked : Std.ExtTreeSet EntityKey
  memberships : Std.ExtTreeMap MembershipKey Membership
  grants : Std.ExtTreeMap String Grant
  time : String
  scope : String

/-- `Collection::new`, at a time that could be formatted. -/
def Collection.new (inst scope time : String) : Collection where
  snapshot := { Snapshot.new inst with limitations := VISIBILITY }
  resources := ∅
  groups := ∅
  accounts := ∅
  blocked := ∅
  memberships := ∅
  grants := ∅
  time := time
  scope := scope

/-- The method of a member list. -/
def method (group effective : Bool) : String :=
  let kind := if group then "groups" else "projects"
  let list := if effective then "members_all.effective_collapsed" else "members.direct"
  s!"gitlab.{kind}.{list}"

/-- The key of a grant in the collection, and its identifier. -/
def grantId (effective : Bool) (resource account : String) : String :=
  let list := if effective then "effective" else "direct"
  s!"{list}:{resource}:{account}"

namespace Collection

def fail (c : Collection) (failure : ProviderError) : Collection :=
  let message := s!"GitLab partial collection: {failure.code}"
  let limitations := if message ∈ c.snapshot.limitations then c.snapshot.limitations
    else c.snapshot.limitations ++ [message]
  { c with snapshot := { c.snapshot with complete := false, limitations := limitations } }

/-- The candidate contradicts what is known of its account. -/
def contradicts (c : Collection) (candidate : Account) : Bool :=
  c.accounts[candidate.key]?.any fun old =>
    old.login != candidate.login || old.status != candidate.status ||
      (old.kind != .unknown && candidate.kind != .unknown && old.kind != candidate.kind)

/-- `entry(..).and_modify(..).or_insert(..)`. -/
def settle (c : Collection) (candidate : Account) : Account :=
  match c.accounts[candidate.key]? with
  | none => candidate
  | some old => if old.kind = .unknown then { old with kind := candidate.kind } else old

def membershipOf (c : Collection) (resource account : EntityKey) (group effective : Bool) :
    Membership where
  member := .account account
  group := resource
  provenance := ⟨method group effective, c.time⟩

def grantOf (c : Collection) (resource account : EntityKey) (group effective : Bool)
    (a : Assignment) : Grant where
  id := grantId effective resource.id account.id
  subject := .account account
  resource := resource
  role := a.role
  privilege := a.privilege
  certainty := .observed
  evidenceKind := if effective then .permission else .assignment
  provenance := ⟨method group effective, c.time⟩

/-- Account, membership and grant of a row that is accepted. -/
def record (c : Collection) (resource : EntityKey) (group effective : Bool) (candidate : Account)
    (a : Assignment) : Collection :=
  let account := candidate.key
  let c := { c with accounts := c.accounts.insert account (c.settle candidate) }
  let c := if group && !effective then { c with
      memberships := c.memberships.insert (.account account, resource)
        (c.membershipOf resource account group effective) }
    else c
  if a.level = 0 then c
  else { c with
    grants := c.grants.insert (grantId effective resource.id account.id)
      (c.grantOf resource account group effective a) }

def member (calendar : Calendar) (c : Collection) (resource : EntityKey) (group effective : Bool)
    (value : Value) : Except ProviderError Unit × Collection :=
  match account c.snapshot.provider c.scope value with
  | .error failure => (.error failure, c)
  | .ok candidate =>
    if candidate.key ∈ c.blocked then (.error (error "malformed"), c)
    else if c.contradicts candidate then
      (.error (error "malformed"), { c with
        blocked := c.blocked.insert candidate.key
        accounts := c.accounts.erase candidate.key })
    else
      match assignment calendar value with
      | .error failure => (.error failure, c)
      | .ok a => (.ok (), c.record resource group effective candidate a)

/-- The subject is no blocked account. -/
def kept (c : Collection) : Subject → Bool
  | .account key => key ∉ c.blocked
  | .group _ => true

/-- The snapshot that `finish` sorts, validates and counts. -/
def graph (c : Collection) : Snapshot :=
  { c.snapshot with
    accounts := Lib.values c.accounts
    resources := Lib.values c.resources
    groups := Lib.values c.groups
    memberships := (Lib.values c.memberships).filter fun m => c.kept m.member
    grants := (Lib.values c.grants).filter fun g => c.kept g.subject }

def finish (core : Core) (c : Collection) : Except ProviderError Snapshot :=
  let snapshot := core.sort c.graph
  if core.validate snapshot = false then .error (error "malformed")
  else if snapshot.accounts.length + snapshot.resources.length + snapshot.groups.length +
      snapshot.memberships.length + snapshot.grants.length > MAX_ROWS then .error (error "limit")
  else .ok snapshot

end Collection

end Permesh.Gitlab

import Permesh.Cloudflare.Client
import Permesh.Lib.Maps

/-!
# Cloudflare.Records — assignment evidence

`records.rs`: which rows count, which policies can be represented, and the collection. A policy that
cannot be represented rejects all assignments of its subject; the members of a rejected group are
blocked. What was listed is kept beside the collection, for the statements about runs.
-/

namespace Permesh.Cloudflare

open Permesh.Json Permesh.Http

def VISIBILITY : List String := [
  "Cloudflare token scope limits visibility; absence does not establish absence of access. " ++
    "Collection is not transactional.",
  "Grants are observed policy assignments with unknown privilege, not evaluated effective " ++
    "access. Denies and unsupported scopes suppress potentially misleading access paths.",
  "Wildcard policy scopes are separate evidence resources, not expanded account or zone grants. " ++
    "Legacy roles without policy scopes are not normalized.",
  "Pending memberships, authoritative identities, verified email, organization policies, " ++
    "API-token principals, Zero Trust Access rules and non-zone product resources are not " ++
    "enumerated."]

/-! ## Fields -/

/-- `native_id`: 32 hexadecimal digits in lower case. They are ASCII, a byte each. -/
def nativeId (id : String) : Bool :=
  id.toList.length == 32 &&
    id.toList.all fun c => Text.isAsciiHexdigit c && !Text.isAsciiUppercase c

def string (v : Value) (key : String) : Except ProviderError String :=
  match ((v.get key).bind Value.asStr).filter fun s =>
    s != "" && Text.len s ≤ 1024 && !s.toList.any Text.isControl with
  | some s => .ok s
  | none => .error (error "malformed")

def id (v : Value) : Except ProviderError String :=
  match string v "id" with
  | .error failure => .error failure
  | .ok s => if nativeId s then .ok s else .error (error "malformed")

/-- `member`: identifier, login, and whether the membership was accepted. -/
def member (v : Value) : Except ProviderError (String × String × Bool) := do
  let key ← id v
  let status ← string v "status"
  if status ≠ "accepted" ∧ status ≠ "pending" then .error (error "malformed")
  match ((v.get "user").bind (Value.get · "email")).or (v.get "email") with
  | none => return (key, key, status == "accepted")
  | some login =>
    match login.asStr.filter fun s =>
      s != "" && Text.len s ≤ 254 && !s.toList.any Text.isControl with
    | some login => return (key, login, status == "accepted")
    | none => .error (error "malformed")

def warning (s : Snapshot) (code : String) : Snapshot :=
  { s with
    complete := false
    limitations := s.limitations ++ [s!"Cloudflare partial collection: {code}."] }

/-- The failure of a list is a warning. -/
def warnFailure (s : Snapshot) (failure : Option String) : Snapshot :=
  match failure with
  | some code => warning s code
  | none => s

/-- The rows taken in by `unique` so far. -/
structure Unique where
  out : Std.ExtTreeMap String Value
  conflicts : Std.ExtTreeSet String
  snapshot : Snapshot

/-- One row of `unique`. -/
def Unique.take (u : Unique) (row : Value) : Unique :=
  match id row with
  | .error _ => { u with snapshot := warning u.snapshot "malformed" }
  | .ok key =>
    if key ∈ u.conflicts then u
    else if u.out[key]?.any (· != row) then
      { out := u.out.erase key
        conflicts := u.conflicts.insert key
        snapshot := warning u.snapshot "conflicting_records" }
    else { u with out := u.out.insert key row }

def unique (rows : List Value) (snapshot : Snapshot) : Std.ExtTreeMap String Value × Snapshot :=
  let u := rows.foldl Unique.take ⟨∅, ∅, snapshot⟩
  (u.out, u.snapshot)

/-! ## Policies -/

/-- An object with no fields but these. -/
def onlyFields (v : Value) (names : List String) : Bool :=
  v.keys.any fun keys => keys.all names.contains

/-- A field that is a list with an entry. -/
def entriesOf (v : Value) (name : String) : Except ProviderError (List Value) :=
  match ((v.get name).bind Value.asArray).filter fun items => !items.isEmpty with
  | some items => .ok items
  | none => .error (error "unsupported_policy")

/-- The records of a subject so far, with the policies and the role names seen. -/
structure Assignments where
  records : List (Grant × Resource)
  seen : Std.ExtTreeMap String Value
  roleNames : Std.ExtTreeMap String String

def subjectKey : Subject → EntityKey
  | .account k => k
  | .group k => k

namespace Client

variable (client : Client)

/-- `key`. -/
def key (id : String) : EntityKey := ⟨client.id, id⟩

def memberKey (id : String) : EntityKey := client.key s!"member:{client.accountId}:{id}"

def groupKey (id : String) : EntityKey := client.key s!"user-group:{client.accountId}:{id}"

/-- `account`. -/
def account (response : Value) : Except ProviderError Resource :=
  match response.get "result" with
  | none => .error (error "malformed")
  | some value => do
    let native ← Cloudflare.id value
    if native ≠ client.accountId then .error (error "scope")
    let name ← string value "name"
    return {
      key := client.key s!"account:{client.accountId}"
      name := name
      kind := some "cloudflare.account"
      parent := none }

/-- The resource that an object of a scope stands for. -/
def target (zones : Std.ExtTreeSet String) (target : String) : Except ProviderError Resource :=
  if target = "*" then
    .ok {
      key := client.key s!"policy-scope:account:{client.accountId}:all"
      name := s!"All resources policy scope in Cloudflare account {client.accountId} " ++
        "(assignment evidence)"
      kind := some "cloudflare.policy_scope"
      parent := some (client.key s!"account:{client.accountId}") }
  else
    match (Text.stripPrefix "com.cloudflare.api.account.zone." target).filter fun z =>
      nativeId z && z ∈ zones with
    | some zone =>
      .ok {
        key := client.key s!"zone:{zone}"
        name := zone
        kind := some "cloudflare.zone"
        parent := some (client.key s!"account:{client.accountId}") }
    | none => .error (error "unsupported_policy")

section

variable (subject : Subject) (provenance : Provenance) (policyId : String)

/-- One role on one resource. -/
def role (resource : Resource) (a : Assignments) (role : Value) :
    Except ProviderError Assignments := do
  if onlyFields role ["id", "meta", "name"] = false then .error (error "unsupported_policy")
  let roleId ← Cloudflare.id role
  let name ← string role "name"
  if a.roleNames[roleId]?.any (· != name) then .error (error "unsupported_policy")
  let grant : Grant := {
    id := s!"{(subjectKey subject).id}:policy:{policyId}:role:{roleId}:{resource.key.id}"
    subject := subject
    resource := resource.key
    role := name
    privilege := .unknown
    certainty := .observed
    evidenceKind := .assignment
    provenance := provenance }
  let records := a.records ++ [(grant, resource)]
  if records.length > MAX_ROWS then .error (error "limit")
  return { a with records := records, roleNames := a.roleNames.insert roleId name }

/-- One object of a scope. -/
def object (zones : Std.ExtTreeSet String) (roles : List Value) (a : Assignments)
    (object : Value) : Except ProviderError Assignments := do
  if onlyFields object ["key"] = false then .error (error "unsupported_policy")
  let resource ← client.target zones (← string object "key")
  roles.foldlM (role subject provenance policyId resource) a

/-- One resource group of a policy. -/
def resourceGroup (zones : Std.ExtTreeSet String) (roles : List Value) (a : Assignments)
    (resource : Value) : Except ProviderError Assignments := do
  if onlyFields resource ["id", "scope", "meta", "name"] = false then
    .error (error "unsupported_policy")
  match resource.get "scope" with
  | none => .error (error "unsupported_policy")
  | some scope =>
    if onlyFields scope ["key", "objects"] = false then .error (error "unsupported_policy")
    if (scope.get "key").bind Value.asStr ≠
        some s!"com.cloudflare.api.account.{client.accountId}" then
      .error (error "unsupported_policy")
    let objects ← entriesOf scope "objects"
    objects.foldlM (client.object subject provenance policyId zones roles) a

end

/-- One policy of a subject. -/
def policy (subject : Subject) (zones : Std.ExtTreeSet String) (provenance : Provenance)
    (a : Assignments) (policy : Value) : Except ProviderError Assignments := do
  let policyId ← Cloudflare.id policy
  if onlyFields policy ["id", "access", "permission_groups", "resource_groups"] = false then
    .error (error "unsupported_policy")
  if a.seen[policyId]?.any (· != policy) then .error (error "unsupported_policy")
  let a := { a with seen := a.seen.insert policyId policy }
  if (policy.get "access").bind Value.asStr ≠ some "allow" then
    .error (error "unsupported_policy")
  let roles ← entriesOf policy "permission_groups"
  let resources ← entriesOf policy "resource_groups"
  resources.foldlM (client.resourceGroup subject provenance policyId zones roles) a

/-- `policies`: the grants of a subject with their resources. A deny, or anything that cannot be
represented, rejects all of them. -/
def policies (value : Value) (subject : Subject) (zones : Std.ExtTreeSet String)
    (provenance : Provenance) : Except ProviderError (List (Grant × Resource)) :=
  match (value.get "policies").bind Value.asArray with
  | none => .error (error "unsupported_policy")
  | some policies =>
    match policies.foldlM (client.policy subject zones provenance) ⟨[], ∅, ∅⟩ with
    | .error failure => .error failure
    | .ok a => .ok a.records

end Client

/-! ## The collection -/

/-- A group whose members were listed: its identifier, its row, and the rows of its members. -/
structure Visit where
  key : String
  value : Value
  rows : List Value

structure State where
  snapshot : Snapshot
  budget : Budget
  blocked : Std.ExtTreeSet String
  active : Std.ExtTreeSet String
  grants : List (Grant × Resource)
  memberships : List (String × Membership)
  visits : List Visit

namespace Client

variable (client : Client)

/-- One zone. -/
def zone (found : Std.ExtTreeSet String × Snapshot) (entry : String × Value) :
    Std.ExtTreeSet String × Snapshot :=
  let (zones, s) := found
  if ((entry.2.get "account").bind (Value.get · "id")).bind Value.asStr ≠ some client.accountId then
    (zones, warning s "scope")
  else
    match string entry.2 "name" with
    | .error _ => (zones, warning s "malformed")
    | .ok name =>
      let resource : Resource := {
        key := client.key s!"zone:{entry.1}"
        name := name
        kind := some "cloudflare.zone"
        parent := some (client.key s!"account:{client.accountId}") }
      (zones.insert entry.1, { s with resources := s.resources ++ [resource] })

/-- The policies of a member. -/
def memberPolicies (zones : Std.ExtTreeSet String) (observedAt : String) (key : String)
    (value : Value) : Except ProviderError (List (Grant × Resource)) :=
  client.policies value (.account (client.memberKey key)) zones
    ⟨"cloudflare.members.policy_assignment", observedAt⟩

/-- The policies of a group. -/
def groupPolicies (zones : Std.ExtTreeSet String) (observedAt : String) (key : String)
    (value : Value) : Except ProviderError (List (Grant × Resource)) :=
  client.policies value (.group (client.groupKey key)) zones
    ⟨"cloudflare.iam.user_groups.policy_assignment", observedAt⟩

/-- One member. -/
def enroll (zones : Std.ExtTreeSet String) (observedAt : String) (s : State)
    (entry : String × Value) : Except ProviderError State :=
  match member entry.2 with
  | .error _ => .ok { s with snapshot := warning s.snapshot "malformed" }
  | .ok (_, _, false) => .ok s
  | .ok (_, login, true) =>
    let account : Account := {
      key := client.memberKey entry.1
      login := login
      kind := .unknown
      affiliation := .unknown
      status := .unknown
      verifiedEmails := [] }
    let s := { s with
      active := s.active.insert entry.1
      snapshot := { s.snapshot with accounts := s.snapshot.accounts ++ [account] } }
    match client.memberPolicies zones observedAt entry.1 entry.2 with
    | .ok grants =>
      if s.grants.length + grants.length > MAX_ROWS then .error (error "limit")
      else .ok { s with grants := s.grants ++ grants }
    | .error _ =>
      .ok { s with
        blocked := s.blocked.insert entry.1
        snapshot := warning s.snapshot "unsupported_policy" }

/-- One row of the members of a group. -/
def join (observedAt : String) (group : EntityKey) (rejected : Bool) (s : State)
    (entry : String × Value) : State :=
  let status := (entry.2.get "status").bind Value.asStr
  if status = some "pending" then s
  else if status ≠ some "accepted" ∨ entry.1 ∉ s.active then
    { s with snapshot := warning s.snapshot "unresolved_membership" }
  else if rejected then { s with blocked := s.blocked.insert entry.1 }
  else
    let membership : Membership := {
      member := .account (client.memberKey entry.1)
      group := group
      provenance := ⟨"cloudflare.iam.user_groups.members", observedAt⟩ }
    { s with memberships := s.memberships ++ [(entry.1, membership)] }

/-- The grants of a group are taken over, or it is rejected. -/
def assign (s : State) (granted : Except ProviderError (List (Grant × Resource))) :
    Except ProviderError State :=
  match granted with
  | .error _ => .ok { s with snapshot := warning s.snapshot "unsupported_policy" }
  | .ok grants =>
    if s.grants.length + grants.length > MAX_ROWS then .error (error "limit")
    else .ok { s with grants := s.grants ++ grants }

/-- The members of a group. -/
def visit (observedAt : String) (key : String) (value : Value) (rejected : Bool) (s : State) :
    State :=
  let (listed, budget) := client.listing
    s!"accounts/{client.accountId}/iam/user_groups/{key}/members" [] s.budget
  let (rows, snapshot) := unique listed.rows (warnFailure s.snapshot listed.failure)
  rows.toList.foldl (client.join observedAt (client.groupKey key) rejected)
    { s with
      budget := budget
      snapshot := snapshot
      visits := s.visits ++ [⟨key, value, listed.rows⟩] }

/-- One group. -/
def group (zones : Std.ExtTreeSet String) (observedAt : String) (s : State)
    (entry : String × Value) : Except ProviderError State :=
  match string entry.2 "name" with
  | .error _ => .ok { s with snapshot := warning s.snapshot "malformed" }
  | .ok name =>
    let s := { s with
      snapshot := { s.snapshot with
        groups := s.snapshot.groups ++ [⟨client.groupKey entry.1, name⟩] } }
    let granted := client.groupPolicies zones observedAt entry.1 entry.2
    match assign s granted with
    | .error failure => .error failure
    | .ok s =>
      let s := client.visit observedAt entry.1 entry.2 granted.toOption.isNone s
      if s.grants.length + s.memberships.length > MAX_ROWS then .error (error "limit") else .ok s

/-- What a run has read, with the state behind the last group. -/
structure Gathered where
  memberRows : List Value
  groupRows : List Value
  zones : Std.ExtTreeSet String
  state : State

/-- `collect` up to the last group. -/
def gather (observedAt : String) : Except ProviderError Gathered := do
  let snapshot := { Snapshot.new client.id with limitations := VISIBILITY }
  let (response, budget) := client.request s!"accounts/{client.accountId}" [] ⟨0, 0⟩
  let account ← client.account (← response)
  let snapshot := { snapshot with resources := [account] }
  let (members, budget) := client.listing s!"accounts/{client.accountId}/members" [] budget
  let (enrolled, snapshot) := unique members.rows (warnFailure snapshot members.failure)
  let (listed, budget) := client.listing "zones" [("account.id", client.accountId)] budget
  let (found, snapshot) := unique listed.rows (warnFailure snapshot listed.failure)
  let (zones, snapshot) := found.toList.foldl client.zone (∅, snapshot)
  let (groups, budget) := client.listing s!"accounts/{client.accountId}/iam/user_groups" [] budget
  let (grouped, snapshot) := unique groups.rows (warnFailure snapshot groups.failure)
  let state ← enrolled.toList.foldlM (client.enroll zones observedAt)
    ⟨snapshot, budget, ∅, ∅, [], [], []⟩
  let state ← grouped.toList.foldlM (client.group zones observedAt) state
  return ⟨members.rows, groups.rows, zones, state⟩

/-- The grants of a snapshot, with the identifiers seen and the resources by key. -/
structure Output where
  seen : Std.ExtTreeSet String
  grants : List Grant
  resources : Std.ExtTreeMap EntityKey Resource

/-- The grants of a blocked account are left out. -/
def leftOut (blocked : EntityKey → Bool) : Subject → Bool
  | .account key => blocked key
  | .group _ => false

/-- One grant of the collection. -/
def emit (blocked : EntityKey → Bool) (o : Output) (entry : Grant × Resource) : Output :=
  let (grant, resource) := entry
  if leftOut blocked grant.subject then o
  else
    { seen := o.seen.insert grant.id
      grants := if grant.id ∈ o.seen then o.grants else o.grants ++ [grant]
      resources := if resource.key ∈ o.resources then o.resources
        else o.resources.insert resource.key resource }

/-- The graph before it is sorted. -/
def graph (s : State) : Snapshot :=
  let blocked := s.blocked.toList.map client.memberKey
  let output := s.grants.foldl (emit fun key => key ∈ blocked)
    ⟨∅, [], s.snapshot.resources.foldl (fun m r => m.insert r.key r) ∅⟩
  { s.snapshot with
    memberships := (s.memberships.filter fun entry => entry.1 ∉ s.blocked).map Prod.snd
    grants := output.grants
    resources := Lib.values output.resources }

/-- `collect` behind the last group. `rejection` is the error of `validate_snapshot`. -/
def finish (core : Core) (rejection : ProviderError) (s : State) :
    Except ProviderError Snapshot :=
  let snapshot := core.sort (client.graph s)
  if core.validateSnapshot snapshot = false then .error rejection else .ok snapshot

def collect (core : Core) (rejection : ProviderError) (observedAt : String) :
    Except ProviderError Snapshot :=
  match client.gather observedAt with
  | .error failure => .error failure
  | .ok gathered => client.finish core rejection gathered.state

end Client

end Permesh.Cloudflare

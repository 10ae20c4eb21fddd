import Permesh.Entra.Client
import Permesh.Lib.Maps

/-!
# Entra.Discovery — users, service principals, groups and their members

The constructor of the provider, `prove_tenant`, what `records.rs` makes of an object, and
`discovery.rs`. The lists of a collection are kept beside it, each with the wire it was started on.
-/

namespace Permesh.Entra

open Permesh.Json Permesh.Http

def VISIBILITY : List String := [
  "Entra observations are limited to the authenticated public-cloud tenant and token visibility; " ++
    "Graph listing is not transactional.",
  "Users are directory accounts, not proved humans or employees. Guest means external directory " ++
    "affiliation; Member does not prove employment. UPN and mail are not verified email evidence.",
  "Direct user and nested-group memberships are observed, not transitive or effective " ++
    "authorization. Graph v1.0 service-principal group memberships are excluded because the API " ++
    "has a documented omission.",
  "Devices, organizational contacts, invitations, tokens, sessions, app-role assignments, " ++
    "directory roles, Azure RBAC, PIM and Conditional Access are not collected.",
  "Canonical tenant/object identities require explicit host authority and stable account " ++
    "mappings; matching labels or IDs do not implicitly establish host identity bindings."]

/-! ## Objects -/

def objectKey (inst tenant id : String) : EntityKey := ⟨inst, s!"object:{tenant}:{id}"⟩

def groupKey (inst tenant id : String) : EntityKey := ⟨inst, s!"group:{tenant}:{id}"⟩

/-- The types that `@odata.type` names. -/
def graphUser : String := "#microsoft.graph.user"
def graphGroup : String := "#microsoft.graph.group"
def graphServicePrincipal : String := "#microsoft.graph.servicePrincipal"

namespace Object

variable (o : Object)

def named : String := (o.displayName.filter fun s => !s.isEmpty).getD o.id

/-- `Object::account`. -/
def account (inst tenant : String) (service : Bool) : Except ProviderError (Identity × Account) :=
  let expected := if service then graphServicePrincipal else graphUser
  if o.objectType.any (· != expected) then .error (error "malformed")
  else
    let kind := if service && (o.servicePrincipalType.any fun t =>
      ["Application", "ManagedIdentity", "Legacy"].contains t) then .service else .unknown
    let affiliation := if !service && o.userType == some "Guest" then .external else .unknown
    let status := match o.accountEnabled with
      | some true => .active
      | some false => .inactive
      | none => .unknown
    .ok ({
      id := s!"entra:{tenant}:{o.id}"
      kind := kind
      affiliation := affiliation
      status := status
      verifiedEmails := [] }, {
      key := objectKey inst tenant o.id
      login := (o.userPrincipalName.filter fun s => !s.isEmpty && !service).getD o.named
      kind := kind
      affiliation := affiliation
      status := status
      verifiedEmails := [] })

end Object

/-! ## The provider -/

/-- `EntraProvider`, with the identifier of its tenant in lower case. -/
structure Provider where
  id : String
  tenantId : String
  includeServicePrincipals : Bool
  client : Client

def validInstance (id : String) : Bool :=
  !id.isEmpty && Text.len id ≤ 64 &&
    id.toList.all fun c => Text.isAsciiAlphanumeric c || c == '_' || c == '-'

def validToken (token : String) : Bool :=
  !token.isEmpty && Text.len token ≤ 16 * 1024 &&
    token.toList.all fun c => '!' ≤ c && c ≤ '~'

/-- `new_with_network`, up to the setup of the HTTP client. -/
def Provider.new (id tenantId : String) (includeServicePrincipals : Bool) (token : String)
    (crate : UrlCrate) (net : Net) (decodePage : List UInt8 → Option Page) :
    Except ProviderError Provider :=
  if !validInstance id || !uuid tenantId || !validToken token then .error (error "configuration")
  else .ok ⟨id, Text.lowercase tenantId, includeServicePrincipals,
    ⟨graphOrigin, token, crate, net, decodePage⟩⟩

def Provider.limitations (p : Provider) : List String :=
  VISIBILITY ++ if p.includeServicePrincipals then [] else
    ["Entra service-principal inventory is disabled by configuration."]

/-! ## The collection -/

/-- The lists of a collection. -/
inductive Scope where
  | users
  | servicePrincipals
  | groups
  | members (group : String)
  deriving DecidableEq

/-- A list that was requested: the address and the wire it started with, and what it returned. -/
structure Visit where
  scope : Scope
  initial : Url
  wire : Wire
  list : Listing

structure Collection where
  snapshot : Snapshot
  /-- Whether the account of an object is that of a service principal. -/
  accounts : Std.ExtTreeMap String Bool
  groups : Std.ExtTreeMap String Group
  memberships : Std.ExtTreeSet MembershipKey
  wire : Wire
  visits : List Visit

/-- A collection up to a result. -/
abbrev Op := ExceptT ProviderError (StateM Collection)

/-- `partial`. -/
def missed (s : Snapshot) (code : String) : Snapshot :=
  let message := match code with
    | "unauthorized" => "Entra partial collection: unauthorized."
    | "forbidden" => "Entra partial collection: forbidden."
    | "rate_limit" => "Entra partial collection: rate_limit."
    | "limit" => "Entra partial collection: limit."
    | "pagination" => "Entra partial collection: pagination."
    | "malformed" => "Entra partial collection: malformed."
    | "unsupported_member" => "Entra partial collection: unsupported member type."
    | "missing_member" =>
      "Entra partial collection: referenced member was not observed in its directory listing."
    | "timeout" => "Entra partial collection: timeout."
    | _ => "Entra partial collection: transport."
  { s with
    complete := false
    limitations := if s.limitations.any (· == message) then s.limitations
      else s.limitations ++ [message] }

def Collection.missed (c : Collection) (code : String) : Collection :=
  { c with snapshot := Entra.missed c.snapshot code }

/-- What becomes of a row of a member list. -/
inductive Verdict where
  | joins (subject : Subject)
  /-- The list omits service principals unpredictably: they are all left out. -/
  | excluded
  | misses (code : String)
  deriving DecidableEq

namespace Provider

variable (p : Provider)

/-- `prove_tenant`. -/
def proveTenant : Op Unit := fun c =>
  match p.client.crate.join p.client.origin "organization" with
  | none => (.error (error "configuration"), c)
  | some url =>
    match p.client.request (p.client.crate.extendPairs url [("$select", "id")]) c.wire with
    | (.error failure, wire) => (.error failure, { c with wire := wire })
    | (.ok page, wire) =>
      (if page.next.isSome || page.value.length != 1 ||
          page.value.any (·.id != p.tenantId) then .error (error "scope") else .ok (),
        { c with wire := wire })

/-- `listing`, and `accept` of its rows. -/
def visit (scope : Scope) (path : String) (select : Option String) : Op (List Object) := fun c =>
  match p.client.url path select with
  | .error failure => (.error failure, c)
  | .ok initial =>
    let (list, wire) := p.client.listing initial c.wire
    let c := { c with wire := wire, visits := c.visits ++ [⟨scope, initial, c.wire, list⟩] }
    (.ok list.rows, match list.failure with
      | some code => c.missed code
      | none => c)

/-! ## Accounts -/

/-- One row of the users or of the service principals. -/
def takeAccount (service : Bool) (c : Collection) (object : Object) : Collection :=
  match object.account p.id p.tenantId service with
  | .error _ => c.missed "malformed"
  | .ok (identity, account) =>
    if object.id ∈ c.accounts then c.missed "malformed"
    else { c with
      accounts := c.accounts.insert object.id service
      snapshot := { c.snapshot with
        identities := c.snapshot.identities ++ [identity]
        accounts := c.snapshot.accounts ++ [account] } }

/-- The users, or the service principals. -/
def directory (service : Bool) : Op Unit := do
  let rows ← if service then
      p.visit .servicePrincipals "servicePrincipals"
        (some "id,displayName,accountEnabled,servicePrincipalType")
    else p.visit .users "users" (some "id,displayName,userPrincipalName,accountEnabled,userType")
  modify fun c => rows.foldl (p.takeAccount service) c

/-! ## Groups -/

def takeGroup (c : Collection) (object : Object) : Collection :=
  if object.objectType.any (· != graphGroup) ∨ object.id ∈ c.accounts then c.missed "malformed"
  else
    let group := ⟨groupKey p.id p.tenantId object.id, object.named⟩
    { c with
      groups := c.groups.insert object.id group
      snapshot := { c.snapshot with groups := c.snapshot.groups ++ [group] } }

def groupDirectory : Op Unit := do
  let rows ← p.visit .groups "groups" (some "id,displayName")
  modify fun c => rows.foldl p.takeGroup c

/-! ## Members -/

def judge (c : Collection) (member : Object) : Verdict :=
  if member.objectType = some graphUser ∧ c.accounts[member.id]? = some false then
    .joins (.account (objectKey p.id p.tenantId member.id))
  else if member.objectType = some graphGroup ∧ member.id ∈ c.groups then
    .joins (.group (groupKey p.id p.tenantId member.id))
  else if member.objectType = some graphServicePrincipal then .excluded
  else if member.objectType = some graphUser ∨ member.objectType = some graphGroup then
    .misses "missing_member"
  else .misses "unsupported_member"

/-- One row of the members of a group. -/
def takeMember (observedAt : String) (group : Group) (c : Collection) (member : Object) :
    Collection :=
  match p.judge c member with
  | .joins subject =>
    if (subject, group.key) ∈ c.memberships then c
    else { c with
      memberships := c.memberships.insert (subject, group.key)
      snapshot := { c.snapshot with memberships := c.snapshot.memberships ++
        [⟨subject, group.key, ⟨"entra.direct_group_membership", observedAt⟩⟩] } }
  | .excluded => c
  | .misses code => c.missed code

def members (observedAt : String) (entry : String × Group) : Op Unit := do
  let rows ← p.visit (.members entry.1) s!"groups/{entry.1}/members" none
  modify fun c => rows.foldl (p.takeMember observedAt entry.2) c

/-! ## The operation -/

/-- `collect` up to `sort`, at a time that could be formatted. -/
def gather (observedAt : String) : Op Unit := do
  p.proveTenant
  p.directory false
  if p.includeServicePrincipals then p.directory true
  p.groupDirectory
  (← get).groups.toList.forM (p.members observedAt)

/-- The collection before the first request. -/
def start (w : Wire) : Collection where
  snapshot := { Snapshot.new p.id with limitations := p.limitations }
  accounts := ∅
  groups := ∅
  memberships := ∅
  wire := w
  visits := []

/-- The result, and the requests that were sent. -/
def collect (core : Core) (observedAt : String) (w : Wire) : Except ProviderError Snapshot × Wire :=
  match p.gather observedAt (p.start w) with
  | (.error failure, c) => (.error failure, c.wire)
  | (.ok (), c) =>
    let snapshot := core.sort c.snapshot
    (if core.validate snapshot = false then .error (error "malformed") else .ok snapshot, c.wire)

end Provider

end Permesh.Entra

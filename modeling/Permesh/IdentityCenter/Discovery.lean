import Permesh.IdentityCenter.Pages

/-!
# IdentityCenter.Discovery — principals, allowlisted accounts and their assignments

`prove` of `mod.rs`, and `collect` of `discovery.rs`. The caller and the instance are proved first.
Then users, groups and memberships of the identity store are listed, and for each allowlisted account
the permission sets that are provisioned to it, with their assignments. A record that does not fit the
scope ends the collection; what could not be read, or names nobody, leaves it incomplete.
-/

namespace Permesh.IdentityCenter

open Permesh.Aws (callerMatches serviceCode validAccount)
open Permesh.Lib (loop loop_ends)

/-- The search for the instance so far. -/
structure Search where
  pager : Pager
  found : Bool
  exchanges : List (Exchange InstanceMetadata)
  requests : Nat
  result : Except ProviderError Unit

def Search.start (requests : Nat) : Search := ⟨.start, false, [], requests, .ok ()⟩

/-- The membership records so far. -/
structure Members where
  memberships : Std.ExtTreeSet MembershipKey
  membershipIds : Std.ExtTreeSet String

/-- The names of the allowlisted accounts, and the accounts of the organization so far. -/
structure Names where
  accountNames : Std.ExtTreeMap String String
  seen : Std.ExtTreeSet String

/-- The permission sets of an account so far, and the grants of all accounts. -/
structure Permissions where
  seen : Std.ExtTreeSet String
  grants : Std.ExtTreeSet String

/-- The keys of the principals of one kind. -/
abbrev Keys := Std.ExtTreeMap String EntityKey

/-- A permission set of an allowlisted account, with its name. -/
structure Target where
  account : String
  arn : String
  name : String

/-- The identifier of a grant. -/
def grantId (account arn : String) (principalType : Option String) (id : String) : String :=
  let kind := principalType.getD ""
  s!"{account}:{arn}:{kind}:{id}"

/-- The principal of an assignment. -/
def subjectOf (userKeys groupKeys : Keys) (principalType : Option String) (id : String) :
    Option Subject :=
  match principalType with
  | some "USER" => userKeys[id]?.map .account
  | some "GROUP" => groupKeys[id]?.map .group
  | _ => none

/-- The end of a collection. -/
def malformed {α : Type} : Op α := throw (error "malformed")

/-- `partial`. -/
def note (code : String) : Op Unit := modify (·.missed code)

namespace IdentityCenterProvider

variable (p : IdentityCenterProvider) (services : Services)

/-! ## The scope -/

/-- The instances of a page: whether the configured one has been found. -/
def find (found : Bool) : List InstanceMetadata → Except ProviderError Bool
  | [] => .ok found
  | i :: rest =>
    if i.instanceArn = some p.config.instanceArn then
      if found = true ∨ i.identityStoreId ≠ some p.config.identityStoreId then
        .error (error "scope")
      else find true rest
    else find found rest

/-- One page of instances. -/
def search (t : Search) : Search × Bool :=
  let request : PageRequest := ⟨t.pager.token, Query.instances.maxResults⟩
  let answer := services.list t.requests .instances request
  let t := { t with
    exchanges := t.exchanges ++ [(request, answer)]
    requests := t.requests + 1 }
  match answer with
  | .error code => ({ t with result := .error (error (serviceCode code)) }, false)
  | .ok page =>
    match p.find t.found page.rows with
    | .error e => ({ t with result := .error e }, false)
    | .ok found =>
      let (pager, result) := t.pager.advance page.nextToken
      let t := { t with found := found, pager := pager }
      match result with
      | .ok more => (t, more)
      | .error e => ({ t with result := .error e }, false)

variable {p services} in
theorem search_goes {t : Search} (h : (p.search services t).2 = true) :
    (p.search services t).1.pager.pages = t.pager.pages + 1 ∧
      (p.search services t).1.pager.pages < MAX_PAGES := by
  unfold search at h ⊢
  dsimp only at h ⊢
  split at h
  · cases h
  case h_2 page answer =>
    rw [answer]
    split at h
    · cases h
    case h_2 found rows =>
      have goes := t.pager.advance_goes page.nextToken
      generalize t.pager.advance page.nextToken = outcome at h goes
      obtain ⟨pager, e | more⟩ := outcome
      · cases h
      · cases h
        exact goes rfl

/-- **The search ends**, whatever the service answers. -/
theorem search_ends (requests : Nat) :
    (loop (p.search services) MAX_PAGES (Search.start requests)).isSome = true :=
  loop_ends (fun t => t.pager.pages) MAX_PAGES (fun _ => search_goes) (by decide)
    (Nat.le_add_left _ _)

/-- The search at its end. -/
def searched (requests : Nat) : Search :=
  (loop (p.search services) MAX_PAGES (Search.start requests)).get
    (p.search_ends services requests)

/-- The caller is the configured one. -/
def called (output : Aws.CallerIdentity) : Bool :=
  output.account == some p.config.accountId &&
    output.arn.any fun arn => callerMatches arn p.config.accountId p.config.callerRole

def prove : Op Unit := fun r =>
  let answer := services.getCallerIdentity
  let r := { r with requests := r.requests + 1, log := r.log ++ [.caller answer] }
  match answer with
  | .error code => (.error (error (serviceCode code)), r)
  | .ok output =>
    if p.called output = false then (.error (error "scope"), r)
    else
      let t := p.searched services r.requests
      let r := { r with requests := t.requests, log := r.log ++ [.list .instances t.exchanges] }
      match t.result with
      | .error e => (.error e, r)
      | .ok () => (if t.found = false then .error (error "scope") else .ok (), r)

/-! ## Users and groups -/

def takeUser (keys : Keys) (user : StoreUser) : Op Keys := do
  let account ← liftM (p.user user)
  if user.userId ∈ keys then malformed
  else
    modify fun r =>
      { r with snapshot := { r.snapshot with accounts := r.snapshot.accounts ++ [account] } }
    pure (keys.insert user.userId account.key)

def users : Op Keys := do
  let rows ← fetch services (.users p.config.identityStoreId)
  rows.foldlM p.takeUser ∅

def takeGroup (userKeys : Keys) (keys : Keys) (group : StoreGroup) : Op Keys := do
  let record ← liftM (p.group group)
  if group.groupId ∈ userKeys ∨ group.groupId ∈ keys then malformed
  else
    modify fun r =>
      { r with snapshot := { r.snapshot with groups := r.snapshot.groups ++ [record] } }
    pure (keys.insert group.groupId record.key)

def groups (userKeys : Keys) : Op Keys := do
  let rows ← fetch services (.groups p.config.identityStoreId)
  rows.foldlM (p.takeGroup userKeys) ∅

/-! ## Memberships -/

def takeMember (userKeys : Keys) (observedAt : String) (entry : String × EntityKey) (t : Members)
    (member : GroupMembership) : Op Members := do
  let some id := member.membershipId | malformed
  if member.identityStoreId ≠ p.config.identityStoreId ∨ member.groupId ≠ some entry.1 ∨
      principal id = false ∨ id ∈ t.membershipIds then malformed
  else
    let t := { t with membershipIds := t.membershipIds.insert id }
    match member.memberId with
    | some (.userId user) =>
      match userKeys[user]? with
      | none => do
        note "malformed"
        pure t
      | some userKey =>
        if (Subject.account userKey, entry.2) ∈ t.memberships then malformed
        else
          modify fun r => { r with snapshot := { r.snapshot with
            memberships := r.snapshot.memberships ++ [⟨.account userKey, entry.2,
              ⟨"aws.identity_center.direct_group_membership", observedAt⟩⟩] } }
          pure { t with memberships := t.memberships.insert (.account userKey, entry.2) }
    | _ => do
      note "malformed"
      pure t

def groupMembers (userKeys : Keys) (observedAt : String) (t : Members)
    (entry : String × EntityKey) : Op Members := do
  let rows ← fetch services (.groupMemberships p.config.identityStoreId entry.1)
  rows.foldlM (p.takeMember userKeys observedAt entry) t

def members (userKeys groupKeys : Keys) (observedAt : String) : Op Members :=
  groupKeys.toList.foldlM (p.groupMembers services userKeys observedAt) ⟨∅, ∅⟩

/-! ## Accounts -/

def takeName (t : Names) (account : OrganizationAccount) : Op Names := do
  let some id := account.id | malformed
  if validAccount id = false ∨ id ∈ t.seen then malformed
  else
    let t := { t with seen := t.seen.insert id }
    if id ∈ t.accountNames then
      let some name := account.name.filter p.safe | malformed
      pure { t with accountNames := t.accountNames.insert id name }
    else pure t

/-- The allowlisted accounts with their names. The organization only names them. -/
def accountNames : Op (Std.ExtTreeMap String String) := do
  let names := Std.ExtTreeMap.ofList (p.config.accounts.map fun account => (account, account))
  if p.config.includeOrganizations then
    let rows ← fetch services .accounts
    let t ← rows.foldlM p.takeName ⟨names, ∅⟩
    p.config.accounts.forM fun id => if id ∈ t.seen then pure () else note "malformed"
    pure t.accountNames
  else pure names

/-! ## Assignments -/

/-- The key of a permission set of an account. -/
def assignmentKey (account arn : String) : EntityKey :=
  p.key "permission-set-assignment" s!"{account}:{arn}"

def takeAssignment (userKeys groupKeys : Keys) (observedAt : String) (target : Target)
    (grants : Std.ExtTreeSet String) (assignment : AccountAssignment) :
    Op (Std.ExtTreeSet String) := do
  if assignment.accountId ≠ some target.account ∨
      assignment.permissionSetArn ≠ some target.arn then malformed
  else
    let some id := assignment.principalId.filter principal | malformed
    match subjectOf userKeys groupKeys assignment.principalType id with
    | none => do
      note "malformed"
      pure grants
    | some subject =>
      let grant := grantId target.account target.arn assignment.principalType id
      if grant ∈ grants then malformed
      else
        modify fun r => { r with snapshot := { r.snapshot with
          grants := r.snapshot.grants ++ [{
            id := grant
            subject := subject
            resource := p.assignmentKey target.account target.arn
            role := s!"{target.name} ({target.arn})"
            privilege := .unknown
            certainty := .observed
            evidenceKind := .assignment
            provenance := ⟨"aws.identity_center.ListAccountAssignments", observedAt⟩ }] } }
        pure (grants.insert grant)

/-- `DescribePermissionSet`. -/
def describe (arn : String) : Op (Aws.Answer (Option PermissionSet)) := fun r =>
  let answer := services.describePermissionSet r.requests p.config.instanceArn arn
  (.ok answer, { r with
    requests := r.requests + 1
    log := r.log ++ [.describe p.config.instanceArn arn answer] })

def takePermission (userKeys groupKeys : Keys) (observedAt account : String) (t : Permissions)
    (arn : String) : Op Permissions := do
  if p.permission arn = false ∨ arn ∈ t.seen then malformed
  else
    let t := { t with seen := t.seen.insert arn }
    match ← p.describe services arn with
    | .error code => do
      note (serviceCode code)
      pure t
    | .ok none => malformed
    | .ok (some permission) =>
      let some name := permission.name.filter p.safe | malformed
      if permission.permissionSetArn ≠ some arn then malformed
      else
        let target : Target := ⟨account, arn, name⟩
        modify fun r => { r with snapshot := { r.snapshot with
          resources := r.snapshot.resources ++ [⟨p.assignmentKey account arn, name,
            some "aws.identity_center.permission_set", some (p.key "aws-account" account)⟩] } }
        let rows ← fetch services (.accountAssignments p.config.instanceArn account arn)
        let grants ← rows.foldlM (p.takeAssignment userKeys groupKeys observedAt target) t.grants
        pure { t with grants := grants }

def takeAccount (userKeys groupKeys : Keys) (observedAt : String) (grants : Std.ExtTreeSet String)
    (entry : String × String) : Op (Std.ExtTreeSet String) := do
  modify fun r => { r with snapshot := { r.snapshot with
    resources := r.snapshot.resources ++ [p.accountResource entry.1 entry.2] } }
  let arns ← fetch services (.permissionSets p.config.instanceArn entry.1)
  let t ← arns.foldlM (p.takePermission services userKeys groupKeys observedAt entry.1) ⟨∅, grants⟩
  pure t.grants

/-! ## The operation -/

/-- `collect` up to the bound on its records, at a time that could be formatted. -/
def gather (observedAt : String) : Op Unit := do
  p.prove services
  let userKeys ← p.users services
  let groupKeys ← p.groups services userKeys
  let _ ← p.members services userKeys groupKeys observedAt
  let names ← p.accountNames services
  let _ ← names.toList.foldlM (p.takeAccount services userKeys groupKeys observedAt) ∅

/-- The collection before the first request. -/
def start : Run where
  rows := 0
  snapshot := { Snapshot.new p.id with limitations := VISIBILITY }
  requests := 0
  log := []

/-- The result, and what has been requested. -/
def collect (core : Core) (observedAt : String) : Except ProviderError Snapshot × List Step :=
  match p.gather services observedAt p.start with
  | (.error failure, r) => (.error failure, r.log)
  | (.ok (), r) =>
    let s := r.snapshot
    (if s.accounts.length + s.groups.length + s.memberships.length + s.resources.length +
        s.grants.length > MAX_ROWS then .error (error "limit")
      else if core.validate (core.sort s) = false then .error (error "malformed")
      else .ok (core.sort s), r.log)

theorem collect_log (core : Core) (observedAt : String) :
    (p.collect services core observedAt).2 = (p.gather services observedAt p.start).2.log := by
  unfold collect
  split
  case h_1 ran => rw [ran]
  case h_2 ran => rw [ran]

variable {p services} in
theorem collect_ok {core : Core} {observedAt : String} {s : Snapshot}
    (h : (p.collect services core observedAt).1 = .ok s) :
    (p.gather services observedAt p.start).1 = .ok () ∧
      s = core.sort (p.gather services observedAt p.start).2.snapshot := by
  unfold collect at h
  split at h
  case h_1 => cases h
  case h_2 r ran =>
    dsimp only at h
    split at h
    · cases h
    split at h
    · cases h
    · cases h
      rw [ran]
      exact ⟨rfl, rfl⟩

end IdentityCenterProvider

end Permesh.IdentityCenter

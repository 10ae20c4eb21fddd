import Mathlib.Data.List.Destutter
import Permesh.Core
import Permesh.Lib.Maps
import Permesh.Lib.Staged
import Permesh.Text

/-!
# Aws.Records — the attachment inventory

`records.rs` of the AWS provider. The rows of all pages are collected first. Then managed policies,
groups, users and roles are taken over, in this order: a row counts if all rows of its identifier are
equal, a policy or a group if no other one has its ARN or its name. What does not count leaves a
warning, and a snapshot with a warning is not complete.

The rows are those of the SDK. What no function of the provider reads of them is one text, which
only the comparison of rows sees.
-/

namespace Permesh.Aws

def MAX_PAGES : Nat := 100
def MAX_ROWS : Nat := 20000

def VISIBILITY : List String := [
  "AWS IAM policy attachments are observed configuration evidence with unknown effective " ++
    "privilege; policies are not evaluated.",
  "Trust policies, boundaries, session policies, resource policies, SCPs/RCPs, conditions and " ++
    "explicit denies are not represented as effective grants. No role-assumption paths are " ++
    "inferred.",
  "One configured commercial AWS account is inspected. Identity Center assignments, " ++
    "organization discovery, service resources, root access and verified email are not " ++
    "enumerated.",
  "IAM collection is not transactional. Completed bounded collection does not prove complete " ++
    "effective access; attachment targets are policy evidence resources."]

/-- `error`. -/
def error (code : String) : ProviderError where
  code := code
  message :=
    match code with
    | "configuration" => "Invalid AWS provider configuration or explicit credentials."
    | "account_mismatch" => "AWS caller account does not match the configured account."
    | "forbidden" => "AWS denied iam:GetAccountAuthorizationDetails; check the read-only policy."
    | "unauthorized" => "AWS rejected the configured credential or session token."
    | "rate_limit" => "AWS throttling exhausted the bounded retry budget."
    | "timeout" => "AWS collection exceeded its deadline."
    | "limit" => "AWS collection exceeded a record or request limit."
    | "malformed" => "AWS returned incomplete, conflicting or unsupported metadata."
    | _ => "AWS request could not be completed."

/-! ## The provider -/

structure Credentials where
  accessKeyId : String
  secretAccessKey : String
  sessionToken : Option String

def reflects (c : Credentials) (s : String) : Bool :=
  Text.contains c.accessKeyId s || Text.contains c.secretAccessKey s ||
    c.sessionToken.any (Text.contains · s)

/-- `valid_account`: twelve digits. -/
def validAccount (s : String) : Bool := Text.len s == 12 && s.toList.all Text.isAsciiDigit

/-- `AwsProvider` without its clients. `build` accepts only accounts that are valid. -/
structure AwsProvider where
  id : String
  account : String
  credentials : Credentials
  callerRole : Option String
  valid : validAccount account = true

/-! ## Rows -/

structure AttachedPolicy where
  policyName : Option String
  policyArn : Option String
  deriving DecidableEq, Repr

structure PolicyDetail where
  policyName : Option String
  policyDocument : Option String
  deriving DecidableEq, Repr

structure UserDetail where
  userId : Option String
  userName : Option String
  arn : Option String
  userPolicyList : Option (List PolicyDetail)
  groupList : Option (List String)
  attachedManagedPolicies : Option (List AttachedPolicy)
  other : String
  deriving DecidableEq, Repr

structure RoleDetail where
  roleId : Option String
  roleName : Option String
  arn : Option String
  rolePolicyList : Option (List PolicyDetail)
  attachedManagedPolicies : Option (List AttachedPolicy)
  other : String
  deriving DecidableEq, Repr

structure GroupDetail where
  groupId : Option String
  groupName : Option String
  arn : Option String
  groupPolicyList : Option (List PolicyDetail)
  attachedManagedPolicies : Option (List AttachedPolicy)
  other : String
  deriving DecidableEq, Repr

structure ManagedPolicyDetail where
  policyId : Option String
  policyName : Option String
  arn : Option String
  other : String
  deriving DecidableEq, Repr

/-- `GetAccountAuthorizationDetailsOutput`. -/
structure Output where
  userDetailList : Option (List UserDetail)
  roleDetailList : Option (List RoleDetail)
  groupDetailList : Option (List GroupDetail)
  policies : Option (List ManagedPolicyDetail)
  isTruncated : Bool
  marker : Option String
  deriving DecidableEq, Repr

/-- The rows of the pages so far. -/
structure Collected where
  users : List UserDetail
  roles : List RoleDetail
  groups : List GroupDetail
  policies : List ManagedPolicyDetail
  warnings : Std.ExtTreeSet String

namespace Collected

/-- `Collected::default`. -/
def empty : Collected := ⟨[], [], [], [], ∅⟩

/-- `partial`. -/
def warn (c : Collected) (code : String) : Collected :=
  { c with warnings := c.warnings.insert code }

def total (c : Collected) : Nat :=
  c.users.length + c.roles.length + c.groups.length + c.policies.length

def add (c : Collected) (v : Output) : Except ProviderError Collected :=
  let c := { c with
    users := c.users ++ v.userDetailList.getD []
    roles := c.roles ++ v.roleDetailList.getD []
    groups := c.groups ++ v.groupDetailList.getD []
    policies := c.policies ++ v.policies.getD [] }
  if c.total > MAX_ROWS then .error (error "limit") else .ok c

end Collected

/-! ## Unique rows -/

/-- The rows taken in by `unique` so far. -/
structure Unique (τ : Type) where
  map : Std.ExtTreeMap String τ
  blocked : Std.ExtTreeSet String
  warnings : Std.ExtTreeSet String

/-- One row of `unique`. -/
def Unique.take {τ : Type} [DecidableEq τ] (id : τ → Option String) (u : Unique τ) (row : τ) :
    Unique τ :=
  match id row with
  | none => { u with warnings := u.warnings.insert "malformed" }
  | some k =>
    if k ∈ u.blocked then u
    else if u.map[k]?.any (· != row) then
      { map := u.map.erase k
        blocked := u.blocked.insert k
        warnings := u.warnings.insert "conflicting_records" }
    else { u with map := u.map.insert k row }

def unique {τ : Type} [DecidableEq τ] (rows : List τ) (id : τ → Option String)
    (warnings : Std.ExtTreeSet String) : Unique τ :=
  rows.foldl (Unique.take id) ⟨∅, ∅, warnings⟩

/-! ## Names -/

/-- The identifier starts with the letters of its kind. Its characters are ASCII, a byte each. -/
def native (s pre : String) : Bool :=
  pre.toList.isPrefixOf s.toList && 16 ≤ Text.len s && Text.len s ≤ 128 &&
    s.toList.all Text.isAsciiAlphanumeric

/-- What follows the last slash. -/
def lastPart (arn : String) : Option String := (Text.split '/' arn).getLast?

/-- The account of an ARN: its part behind the fourth colon. -/
def arnAccount (arn : String) : String := (Text.split ':' arn)[4]?.getD ""

def startsWith (pre s : String) : Bool := pre.toList.isPrefixOf s.toList

namespace AwsProvider

variable (p : AwsProvider)

/-- `key`. -/
def key (id : String) : EntityKey := ⟨p.id, id⟩

def safe (s : String) : Bool :=
  s != "" && Text.len s ≤ 1024 && !s.toList.any Text.isControl && !reflects p.credentials s

def principal (name arn kind : String) : Bool :=
  p.safe name && p.safe arn && startsWith s!"arn:aws:iam::{p.account}:{kind}/" arn &&
    lastPart arn == some name

def policyArn (name arn : String) : Bool :=
  p.safe arn && lastPart arn == some name &&
    (startsWith s!"arn:aws:iam::{p.account}:policy/" arn || startsWith "arn:aws:iam::aws:policy/" arn)

/-- The name of a group, a user or a role, unless its row is malformed. -/
def named (pre kind id : String) (name arn : Option String) : Option String :=
  match name, arn with
  | some name, some arn =>
    if !p.safe id || !native id pre || !p.principal name arn kind then none else some name
  | _, _ => none

end AwsProvider

/-! ## The state of `finish` -/

/-- The snapshot and the warnings so far. -/
structure State where
  snapshot : Snapshot
  warnings : Std.ExtTreeSet String

def State.warn (s : State) (code : String) : State :=
  { s with warnings := s.warnings.insert code }

/-- Where memberships and grants come from. -/
def inventory (observedAt : String) : Provenance :=
  ⟨"aws.iam.GetAccountAuthorizationDetails.attachment_inventory", observedAt⟩

/-- What the limit counts of a snapshot. -/
def total (s : Snapshot) : Nat :=
  s.accounts.length + s.groups.length + s.resources.length + s.memberships.length + s.grants.length

/-- `sid`: the identifier of a subject. -/
def sid : Subject → String
  | .account k => k.id
  | .group k => k.id

/-- The policies of a subject so far. -/
structure Attaching where
  state : State
  targets : Std.ExtTreeMap EntityKey String
  names : Std.ExtTreeSet String

/-- One managed policy of a subject. -/
def attach (policies : Std.ExtTreeMap String Resource) (t : Attaching) (a : AttachedPolicy) :
    Attaching :=
  match a.policyArn.bind fun arn => policies[arn]? with
  | none => { t with state := t.state.warn "unresolved_policy" }
  | some resource =>
    if a.policyName ≠ some resource.name then
      { t with state := t.state.warn "conflicting_records" }
    else { t with targets := t.targets.insert resource.key resource.name }

/-- The grant of a policy. -/
def attachment (provenance : Provenance) (subject : Subject) (target : EntityKey × String) :
    Grant where
  id := s!"attachment:{sid subject}:{target.1.id}"
  subject := subject
  resource := target.1
  role := target.2
  privilege := .unknown
  certainty := .observed
  evidenceKind := .policyAttachment
  provenance := provenance

/-- The managed policies so far: by ARN, with the ARNs that were seen twice. -/
structure Policies where
  staged : Lib.Staged String Resource
  warnings : Std.ExtTreeSet String

/-- The groups so far: by name, with the names that were seen twice. -/
structure Groups where
  staged : Lib.Staged String EntityKey
  rows : List (String × EntityKey × GroupDetail)
  warnings : Std.ExtTreeSet String

namespace AwsProvider

variable (p : AwsProvider)

/-! ## Policies and groups -/

/-- The resource of a managed policy, unless its row is malformed: with the ARN. -/
def managed (id : String) (v : ManagedPolicyDetail) : Option (String × Resource) :=
  match v.policyName, v.arn with
  | some name, some arn =>
    if !p.safe id || !native id "ANPA" || !p.safe name || !p.policyArn name arn then none
    else some (arn, {
      key := p.key s!"policy:{arnAccount arn}:{id}"
      name := name
      kind := some "aws.managed_policy"
      parent := none })
  | _, _ => none

/-- One managed policy. -/
def policy (t : Policies) (entry : String × ManagedPolicyDetail) : Policies :=
  match p.managed entry.1 entry.2 with
  | none => { t with warnings := t.warnings.insert "malformed" }
  | some (arn, resource) =>
    { staged := t.staged.put arn resource
      warnings :=
        if arn ∈ t.staged.map then t.warnings.insert "conflicting_records" else t.warnings }

def policies (rows : Unique ManagedPolicyDetail) : Policies :=
  rows.map.toList.foldl p.policy ⟨.empty, rows.warnings⟩

def groupKey (id : String) : EntityKey := p.key s!"group:{p.account}:{id}"

def userKey (id : String) : EntityKey := p.key s!"user:{p.account}:{id}"

def roleKey (id : String) : EntityKey := p.key s!"role:{p.account}:{id}"

/-- One group: it is staged. -/
def stage (t : Groups) (entry : String × GroupDetail) : Groups :=
  let (id, v) := entry
  match p.named "AGPA" "group" id v.groupName v.arn with
  | none => { t with warnings := t.warnings.insert "malformed" }
  | some name =>
    { staged := t.staged.put name (p.groupKey id)
      rows := t.rows ++ [(name, p.groupKey id, v)]
      warnings :=
        if name ∈ t.staged.map then t.warnings.insert "conflicting_records" else t.warnings }

def groups (rows : Unique GroupDetail) : Groups :=
  rows.map.toList.foldl p.stage ⟨.empty, [], rows.warnings⟩

/-! ## Attachments -/

/-- The resource of an inline policy. -/
def inlineResource (sid name : String) : Resource where
  key := p.key s!"inline:{sid}:{name}"
  name := name
  kind := some "aws.inline_policy"
  parent := none

/-- One inline policy of a subject. -/
def inlined (sid : String) (t : Attaching) (a : PolicyDetail) : Attaching :=
  match a.policyName.filter fun v => p.safe v && !v.toList.contains ':' with
  | none => { t with state := t.state.warn "malformed" }
  | some name =>
    if name ∈ t.names then { t with state := t.state.warn "conflicting_records" }
    else
      let resource := p.inlineResource sid name
      { state := { t.state with
          snapshot := { t.state.snapshot with
            resources := t.state.snapshot.resources ++ [resource] } }
        targets := t.targets.insert resource.key resource.name
        names := t.names.insert name }

section

variable (policies : Std.ExtTreeMap String Resource) (provenance : Provenance)

def attachments (s : State) (subject : Subject) (attached : List AttachedPolicy)
    (inline : List PolicyDetail) : Except ProviderError State :=
  let t := inline.foldl (p.inlined (sid subject)) (attached.foldl (attach policies) ⟨s, ∅, ∅⟩)
  let grants := t.targets.toList.map (attachment provenance subject)
  let s := { t.state with
    snapshot := { t.state.snapshot with grants := t.state.snapshot.grants ++ grants } }
  if total s.snapshot > MAX_ROWS then .error (error "limit") else .ok s

/-- One group that was staged. -/
def group (names : Std.ExtTreeMap String EntityKey) (s : State)
    (entry : String × EntityKey × GroupDetail) : Except ProviderError State :=
  let (name, k, v) := entry
  if names[name]? ≠ some k then .ok s
  else
    let s := { s with snapshot := { s.snapshot with groups := s.snapshot.groups ++ [⟨k, name⟩] } }
    p.attachments policies provenance s (.group k) (v.attachedManagedPolicies.getD [])
      (v.groupPolicyList.getD [])

/-- The account of a user or a role. -/
def principalAccount (k : EntityKey) (name : String) : Account where
  key := k
  login := name
  kind := .unknown
  affiliation := .unknown
  status := .unknown
  verifiedEmails := []

/-- One group of a user. -/
def join (names : Std.ExtTreeMap String EntityKey) (k : EntityKey) (s : State) (group : String) :
    State :=
  match names[group]? with
  | some g =>
    { s with
      snapshot := { s.snapshot with
        memberships := s.snapshot.memberships ++ [⟨.account k, g, provenance⟩] } }
  | none => s.warn "unresolved_membership"

/-- One user. -/
def user (names : Std.ExtTreeMap String EntityKey) (s : State) (entry : String × UserDetail) :
    Except ProviderError State :=
  let (id, v) := entry
  match p.named "AIDA" "user" id v.userName v.arn with
  | none => .ok (s.warn "malformed")
  | some name =>
    let k := p.userKey id
    let s := { s with
      snapshot := { s.snapshot with accounts := s.snapshot.accounts ++ [principalAccount k name] } }
    let s := (v.groupList.getD []).foldl (join provenance names k) s
    p.attachments policies provenance s (.account k) (v.attachedManagedPolicies.getD [])
      (v.userPolicyList.getD [])

/-- One role. -/
def role (s : State) (entry : String × RoleDetail) : Except ProviderError State :=
  let (id, v) := entry
  match p.named "AROA" "role" id v.roleName v.arn with
  | none => .ok (s.warn "malformed")
  | some name =>
    let k := p.roleKey id
    let s := { s with
      snapshot := { s.snapshot with accounts := s.snapshot.accounts ++ [principalAccount k name] } }
    p.attachments policies provenance s (.account k) (v.attachedManagedPolicies.getD [])
      (v.rolePolicyList.getD [])

end

/-! ## The snapshot -/

/-- `finish` up to the last role. -/
def assemble (observedAt : String) (c : Collected) : Except ProviderError State := do
  let provenance := inventory observedAt
  let policies := p.policies (unique c.policies (·.policyId) c.warnings)
  let policyMap := policies.staged.settled
  let groups := p.groups (unique c.groups (·.groupId) policies.warnings)
  let groupMap := groups.staged.settled
  let s : State := {
    snapshot := { Snapshot.new p.id with
      limitations := VISIBILITY
      resources := Lib.values policyMap }
    warnings := groups.warnings }
  let s ← groups.rows.foldlM (p.group policyMap provenance groupMap) s
  let users := unique c.users (·.userId) s.warnings
  let s ← users.map.toList.foldlM (p.user policyMap provenance groupMap)
    { s with warnings := users.warnings }
  let roles := unique c.roles (·.roleId) s.warnings
  roles.map.toList.foldlM (p.role policyMap provenance) { s with warnings := roles.warnings }

/-- The snapshot before it is sorted: with the warnings. -/
def report (s : State) : Snapshot :=
  if s.warnings.isEmpty then s.snapshot
  else { s.snapshot with
    complete := false
    limitations := s.snapshot.limitations ++
      s.warnings.toList.map fun c => s!"AWS partial attachment collection: {c}." }

/-- The snapshot that is validated: sorted, without an entry that is like the one before it. -/
def ordered (core : Core) (s : State) : Snapshot :=
  let s := core.sort (report s)
  { s with
    memberships := s.memberships.destutter fun b a => ¬(a.member = b.member ∧ a.group = b.group)
    grants := s.grants.destutter fun b a => a.id ≠ b.id }

/-- `Collected::finish`. `rejection` is the error of `validate_snapshot`. -/
def finish (core : Core) (rejection : ProviderError) (observedAt : String) (c : Collected) :
    Except ProviderError Snapshot :=
  match p.assemble observedAt c with
  | .error failure => .error failure
  | .ok s =>
    let snapshot := ordered core s
    if core.validateSnapshot snapshot = false then .error rejection else .ok snapshot

end AwsProvider

end Permesh.Aws

import Permesh.Aws.Client

/-!
# IdentityCenter.Records — the approved scope and its records

The configuration of the Identity Center provider in `mod.rs`, and `records.rs`: what a user, a
group, an account or a permission set becomes. The rows are those of the SDK, with the fields that the
provider reads.
-/

namespace Permesh.IdentityCenter

open Permesh.Aws (Credentials reflects validAccount)

def MAX_PAGES : Nat := 100
def MAX_ROWS : Nat := 20000

def VISIBILITY : List String := [
  "Identity Center observations cover only the approved instance, identity store, region and " ++
    "account allowlist; collection is not transactional.",
  "Assignments are enumerated only through permission sets reported provisioned to each approved " ++
    "account; unprovisioned or failed-provisioning assignments are not independently enumerated.",
  "Permission-set assignments are observed configuration with unknown effective privilege. " ++
    "Policies, boundaries, SCPs/RCPs, resource policies, sessions, conditions and denies are not " ++
    "evaluated.",
  "Directory users are accounts of unknown principal kind and affiliation; labels and email " ++
    "fields do not prove human identity, employment or verified email. No canonical identity " ++
    "authority is emitted.",
  "Application assignments, provisioning state, invitations, tokens, sessions and organization " ++
    "hierarchy are not collected. Organizations discovery only decorates approved account " ++
    "resources and never expands assignment scope."]

/-- `error`. -/
def error (code : String) : ProviderError where
  code := code
  message :=
    match code with
    | "configuration" => "Invalid Identity Center configuration or explicit temporary credentials."
    | "scope" =>
      "AWS caller account/role or Identity Center instance/store binding did not match approved " ++
        "scope."
    | "forbidden" =>
      "AWS denied an Identity Center inventory read; review the documented read permissions."
    | "unauthorized" =>
      "AWS rejected the configured temporary credentials; refresh the approved source."
    | "rate_limit" => "AWS throttling exceeded the bounded retry policy."
    | "timeout" => "Identity Center collection exceeded its deadline."
    | "pagination" => "AWS returned inconsistent inventory pagination."
    | "limit" => "Identity Center inventory exceeded a bounded request or record limit."
    | "malformed" => "AWS returned malformed or conflicting inventory metadata."
    | _ => "AWS Identity Center request could not be completed."

/-! ## Identifiers -/

/-- `uuid`. -/
def uuid (s : String) : Bool :=
  Text.len s == 36 && s.toList.zipIdx.all fun (c, i) =>
    if [8, 13, 18, 23].contains i then c == '-' else Text.isAsciiHexdigit c

/-- `principal`: a UUID, behind the identifier of its store in a store of its own. -/
def principal (s : String) : Bool :=
  uuid s || (Text.splitOnce '-' s).any fun (a, b) =>
    Text.len a == 10 && a.toList.all Text.isAsciiHexdigit && uuid b

/-- `instance`. -/
def isInstance (value : String) : Bool :=
  (Text.stripPrefix "arn:aws:sso:::instance/" value).any fun s =>
    ((Text.stripPrefix "ssoins-" s).or (Text.stripPrefix "ins-" s)).any fun s =>
      Text.len s == 16 && s.toList.all fun c => Text.isAsciiAlphanumeric c || c == '-' || c == '.'

/-- `native_store`. -/
def nativeStore (s : String) : Bool :=
  ((Text.stripPrefix "d-" s).any fun s => Text.len s == 10 && s.toList.all Text.isAsciiHexdigit) ||
    uuid s

/-- `valid_instance`. -/
def validInstance (s : String) : Bool :=
  !s.isEmpty && Text.len s ≤ 64 &&
    (s.toList.head?.any fun c => Text.isAsciiAlphanumeric c && !Text.isAsciiDigit c) &&
    s.toList.all fun c => Text.isAsciiAlphanumeric c || c == '-' || c == '_'

/-- `valid_region`: a region of the commercial partition. -/
def validRegion (s : String) : Bool :=
  Text.len s ≤ 32 && !Aws.startsWith "cn-" s && !Aws.startsWith "us-gov-" s &&
    (Text.split '-' s).length == 3 &&
    (s.toList.all fun c => ('a' ≤ c && c ≤ 'z') || Text.isAsciiDigit c || c == '-') &&
    s.toList.getLast?.any Text.isAsciiDigit

/-- `valid_role`. -/
def validRole (s : String) : Bool :=
  !s.isEmpty && Text.len s ≤ 64 && s.toList.all fun c =>
    Text.isAsciiAlphanumeric c || ['_', '+', '=', ',', '.', '@', '-'].contains c

/-- `valid_credentials`. -/
def validCredentials (c : Credentials) : Bool :=
  let good (s : String) : Bool :=
    !s.isEmpty && Text.len s ≤ 8192 && s.toList.all fun c => '!' ≤ c && c ≤ '~'
  16 ≤ Text.len c.accessKeyId && Text.len c.accessKeyId ≤ 128 &&
    c.accessKeyId.toList.all Text.isAsciiAlphanumeric && good c.secretAccessKey &&
    c.sessionToken.all good

/-! ## The provider -/

structure Configuration where
  accountId : String
  region : String
  instanceArn : String
  identityStoreId : String
  accounts : List String
  includeOrganizations : Bool
  callerRole : Option String

def Configuration.valid (c : Configuration) : Bool :=
  validAccount c.accountId && validRegion c.region && isInstance c.instanceArn &&
    nativeStore c.identityStoreId && !c.accounts.isEmpty && c.accounts.length ≤ 100 &&
    c.accounts.all validAccount && decide c.accounts.Nodup && c.callerRole.all validRole

/-- `IdentityCenterProvider` without its clients. `build` accepts only configurations that are
valid. -/
structure IdentityCenterProvider where
  id : String
  config : Configuration
  credentials : Credentials
  valid : config.valid = true

/-- `build`, up to the setup of the clients. -/
def IdentityCenterProvider.build (id : String) (c : Configuration) (k : Credentials) :
    Except ProviderError IdentityCenterProvider :=
  if valid : c.valid = true then
    if !validInstance id || !validCredentials k || k.sessionToken.isNone ||
        [id, c.accountId, c.region, c.instanceArn, c.identityStoreId].any (reflects k) ||
        c.accounts.any (reflects k) || c.callerRole.any (reflects k) then
      .error (error "configuration")
    else .ok ⟨id, c, k, valid⟩
  else .error (error "configuration")

/-! ## Rows -/

structure InstanceMetadata where
  instanceArn : Option String
  identityStoreId : Option String
  deriving DecidableEq, Repr

/-- A user of the identity store. -/
structure StoreUser where
  identityStoreId : String
  userId : String
  userName : Option String
  displayName : Option String
  userStatus : Option String
  deriving DecidableEq, Repr

/-- A group of the identity store. -/
structure StoreGroup where
  identityStoreId : String
  groupId : String
  displayName : Option String
  deriving DecidableEq, Repr

inductive MemberId where
  | userId (id : String)
  | unknown
  deriving DecidableEq, Repr

structure GroupMembership where
  identityStoreId : String
  membershipId : Option String
  groupId : Option String
  memberId : Option MemberId
  deriving DecidableEq, Repr

/-- An account of the organization. -/
structure OrganizationAccount where
  id : Option String
  name : Option String
  deriving DecidableEq, Repr

structure PermissionSet where
  name : Option String
  permissionSetArn : Option String
  deriving DecidableEq, Repr

structure AccountAssignment where
  accountId : Option String
  permissionSetArn : Option String
  principalId : Option String
  principalType : Option String
  deriving DecidableEq, Repr

/-! ## Records -/

namespace IdentityCenterProvider

variable (p : IdentityCenterProvider)

def safe (s : String) : Bool :=
  !s.isEmpty && Text.len s ≤ 4096 && !s.toList.any Text.isControl && !reflects p.credentials s

def key (kind id : String) : EntityKey :=
  ⟨p.id, s!"{p.config.region}:{p.config.identityStoreId}:{kind}:{id}"⟩

def user (v : StoreUser) : Except ProviderError Account :=
  if v.identityStoreId ≠ p.config.identityStoreId ∨ principal v.userId = false then
    .error (error "malformed")
  else
    let login := (v.userName.or v.displayName).getD v.userId
    if p.safe login = false then .error (error "malformed")
    else .ok {
      key := p.key "user" v.userId
      login := login
      kind := .unknown
      affiliation := .unknown
      status := match v.userStatus with
        | some "ENABLED" => .active
        | some "DISABLED" => .inactive
        | _ => .unknown
      verifiedEmails := [] }

def group (v : StoreGroup) : Except ProviderError Group :=
  if v.identityStoreId ≠ p.config.identityStoreId ∨ principal v.groupId = false then
    .error (error "malformed")
  else
    let name := v.displayName.getD v.groupId
    if p.safe name = false then .error (error "malformed")
    else .ok ⟨p.key "group" v.groupId, name⟩

def accountResource (id name : String) : Resource where
  key := p.key "aws-account" id
  name := name
  kind := some "aws.account"
  parent := none

/-- An ARN of a permission set of the instance. -/
def permission (arn : String) : Bool :=
  let inst := (Text.stripPrefix "arn:aws:sso:::instance/" p.config.instanceArn).getD ""
  (Text.stripPrefix s!"arn:aws:sso:::permissionSet/{inst}/ps-" arn).any fun s =>
    Text.len s == 16 &&
      s.toList.all fun c => Text.isAsciiAlphanumeric c || c == '-' || c == '.' || c == '/'

end IdentityCenterProvider

end Permesh.IdentityCenter

import Permesh.IdentityCenter.Records
import Permesh.Native.Adapters

/-!
# Aws.Protocol — the provider as an adapter of the runtime

`lib.rs` and `protocol.rs` of the AWS provider: the constructor, `check`, the codes of errors and
limitations, and the host of a session. A session of this provider knows no network context.
-/

namespace Permesh.Aws

open IdentityCenter (validInstance validRegion validRole validCredentials)

structure Configuration where
  accountId : String
  region : String
  callerRole : Option String
  deriving DecidableEq, Repr

/-- What lies outside of a session. -/
structure World where
  services : Services
  /-- The error of `validate_snapshot`. -/
  rejection : ProviderError
  /-- The HTTP client of the transport can be built. -/
  builds : Bool
  /-- `OffsetDateTime::now_utc` with `Rfc3339`, if it can be formatted. -/
  now : Option String
  /-- The operation ends before its deadline. -/
  inTime : Bool

namespace AwsProvider

/-- `new`, with `from_credentials` and `build`: the clients of the SDK are the services. -/
def new (builds : Bool) (id account region : String) (credentials : Credentials) :
    Except ProviderError AwsProvider :=
  if valid : validAccount account = true then
    if !validInstance id || !validRegion region || !validCredentials credentials ||
        [id, account].any (reflects credentials) || !builds then
      .error (error "configuration")
    else .ok ⟨id, account, credentials, none, valid⟩
  else .error (error "configuration")

def withCallerRole (p : AwsProvider) (role : Option String) : Except ProviderError AwsProvider :=
  if role.any fun s => !validRole s || reflects p.credentials s then .error (error "configuration")
  else .ok { p with callerRole := role }

variable (p : AwsProvider)

/-- `check`: the caller, and a page with one row. -/
def check (services : Services) : Except ProviderError Native.Health := do
  p.caller services
  match services.iam 0 (request none 1) with
  | .error code => .error (error (serviceCode code))
  | .ok _ =>
    return ⟨"AWS STS account identity and bounded IAM authorization-detail probes succeeded; " ++
      "effective access was not evaluated.", VISIBILITY⟩

/-- `collect` with a time that cannot be formatted: the pages are read before. -/
def unclocked (services : Services) : Except ProviderError Snapshot := do
  let _ ← p.gather services
  .error (error "malformed")

/-- `impl Provider for AwsProvider`. -/
def provider (core : Core) (world : World) : Native.Provider where
  check := Native.within world.inTime (error "timeout") (p.check world.services)
  discover := Native.within world.inTime (error "timeout")
    (match world.now with
    | none => p.unclocked world.services
    | some observedAt => p.collect world.services core world.rejection observedAt)

end AwsProvider

/-! ## The adapter -/

/-- `Adapter::error_code`. -/
def errorCode (code : String) : String :=
  match code with
  | "configuration" => "protocol_error"
  | "unauthorized" | "account_mismatch" => "authentication"
  | "forbidden" => "permission_denied"
  | "rate_limit" => "rate_limited"
  | "timeout" | "transport" | "limit" => "unavailable"
  | _ => "internal"

/-- The code of one limitation, where these texts are on visibility. The adapter of Identity Center
has the same cases. -/
def limitationCode (visibility : List String) (value : String) : String :=
  if value ∈ visibility then "visibility_limited"
  else if Text.contains "forbidden" value || Text.contains "unauthorized" value then
    "permission_denied"
  else if Text.contains "rate_limit" value then "rate_limited"
  else if Text.contains "limit" value then "page_limit"
  else "unknown"

/-- `Adapter::limitations`. -/
def limitations (values : List String) : List String :=
  Native.codesOf (limitationCode VISIBILITY) values

def providerMetadata : Native.Metadata where
  kind := "aws"
  capabilities := [.accounts, .resources, .groups, .memberships, .grants]

/-- `Adapter::validate`. -/
def validate (configuration : Configuration) (credentials : Credentials) : Bool :=
  validAccount configuration.accountId && validRegion configuration.region &&
    configuration.callerRole.all validRole && validCredentials credentials

/-- `impl Adapter for Aws`. -/
def adapter (K : Native.Crates) (setup : K.SetupSpec) : Native.Adapter K where
  Configuration := Configuration
  Credentials := Credentials
  metadata := providerMetadata
  supportsNetwork := false
  setup := setup
  browserAuth := none
  validate := validate
  errorCode := errorCode
  limitations := limitations

/-- The host of a session, with the factory that `run` hands to the runtime. -/
def host (K : Native.Crates) (setup : K.SetupSpec) (world : World)
    (fromSlice : List UInt8 → Option (Native.WireRequest (adapter K setup)))
    (serializer : Native.Serializer K) : Native.Host (adapter K setup) where
  fromSlice := fromSlice
  serializer := serializer
  factory id (configuration : Configuration) (credentials : Credentials) _ := do
    let p ← AwsProvider.new world.builds id configuration.accountId configuration.region credentials
    let p ← p.withCallerRole configuration.callerRole
    return p.provider K.core world

end Permesh.Aws

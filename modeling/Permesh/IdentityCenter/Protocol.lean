import Permesh.Aws.Protocol
import Permesh.IdentityCenter.Discovery

/-!
# IdentityCenter.Protocol — the provider as an adapter of the runtime

`mod.rs` and `protocol.rs` of the Identity Center provider: the constructor, `check`, the codes of
errors and limitations, and the host of a session.
-/

namespace Permesh.IdentityCenter

/-- The credentials of a session: a session token is required. -/
structure SessionCredentials where
  accessKeyId : String
  secretAccessKey : String
  sessionToken : String
  deriving DecidableEq, Repr

/-- `Credentials::new`. -/
def SessionCredentials.credentials (k : SessionCredentials) : Aws.Credentials :=
  ⟨k.accessKeyId, k.secretAccessKey, some k.sessionToken⟩

/-- What lies outside of a session. -/
structure World where
  services : Services
  /-- The HTTP client of the transport can be built. -/
  builds : Bool
  /-- `OffsetDateTime::now_utc` with `Rfc3339`, if it can be formatted. -/
  now : Option String
  /-- The operation ends before its deadline. -/
  inTime : Bool

namespace IdentityCenterProvider

/-- `new`: the clients of the SDK are the services. -/
def new (K : Native.Crates) (builds : Bool) (id : String) (c : Configuration) (k : Aws.Credentials)
    (network : Option Native.NetworkContext) : Except ProviderError IdentityCenterProvider := do
  let p ← build id c k
  Native.httpClient K network builds (error "configuration")
  return p

variable (p : IdentityCenterProvider) (services : Services)

/-- `check`: the scope is proved. -/
def check : Except ProviderError Native.Health := do
  (p.prove services p.start).1
  return ⟨"AWS caller account/role and Identity Center instance/store binding verified; discovery " ++
    "permissions are not established by this check.", VISIBILITY⟩

/-- `collect` with a time that cannot be formatted: users and groups are read before. -/
def unclocked : Op Snapshot := do
  p.prove services
  let userKeys ← p.users services
  let _ ← p.groups services userKeys
  malformed

/-- `impl Provider for IdentityCenterProvider`. -/
def provider (core : Core) (world : World) : Native.Provider where
  check := Native.within world.inTime (error "timeout") (p.check world.services)
  discover := Native.within world.inTime (error "timeout")
    (match world.now with
    | none => (p.unclocked world.services p.start).1
    | some observedAt => (p.collect world.services core observedAt).1)

end IdentityCenterProvider

/-! ## The adapter -/

/-- `Adapter::error_code`. -/
def errorCode (code : String) : String :=
  match code with
  | "configuration" => "protocol_error"
  | "scope" | "unauthorized" => "authentication"
  | "forbidden" => "permission_denied"
  | "rate_limit" => "rate_limited"
  | "timeout" | "limit" | "transport" => "unavailable"
  | _ => "internal"

/-- `Adapter::limitations`. -/
def limitations (values : List String) : List String :=
  Native.codesOf (Aws.limitationCode VISIBILITY) values

def providerMetadata : Native.Metadata where
  kind := "aws-identity-center"
  capabilities := [.accounts, .groups, .memberships, .resources, .grants]

/-- `Adapter::validate`. -/
def validate (c : Configuration) (k : SessionCredentials) : Bool :=
  c.valid && validCredentials k.credentials

/-- `impl Adapter for IdentityCenter`. -/
def adapter (K : Native.Crates) (setup : K.SetupSpec) : Native.Adapter K where
  Configuration := Configuration
  Credentials := SessionCredentials
  metadata := providerMetadata
  supportsNetwork := true
  setup := setup
  browserAuth := none
  validate := validate
  errorCode := errorCode
  limitations := limitations

/-- The host of a session, with the factory that `run` hands to the runtime. -/
def host (K : Native.Crates) (setup : K.SetupSpec) (world : World)
    (fromSlice : List UInt8 → Option (Native.WireRequest (adapter K setup)))
    (serializer : Native.Serializer K) : Native.Host (adapter K setup) where
  fromSlice := fromSlice
  serializer := serializer
  factory id (c : Configuration) (k : SessionCredentials) network := do
    let p ← IdentityCenterProvider.new K world.builds id c k.credentials network
    return p.provider K.core world

end Permesh.IdentityCenter

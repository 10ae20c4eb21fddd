import Permesh.Entra.Discovery
import Permesh.Native.Adapters

/-!
# Entra.Protocol — the provider as an adapter of the runtime

`lib.rs` and `protocol.rs`: the constructor with its HTTP client, `check`, the codes of errors and
limitations, and the host of a session.
-/

namespace Permesh.Entra

open Permesh.Http

structure Configuration where
  tenantId : String
  includeServicePrincipals : Bool
  deriving DecidableEq, Repr

structure Credentials where
  token : String
  deriving DecidableEq, Repr

/-- What lies outside of a session. -/
structure World where
  crate : UrlCrate
  net : Net
  decodePage : List UInt8 → Option Page
  /-- The HTTP client can be built. -/
  builds : Bool
  /-- `OffsetDateTime::now_utc` with `Rfc3339`, if it can be formatted. -/
  now : Option String
  /-- The operation ends before its deadline. -/
  inTime : Bool

/-- `EntraProvider::new_with_network`. -/
def newWithNetwork (K : Native.Crates) (world : World) (id tenantId : String)
    (includeServicePrincipals : Bool) (token : String) (network : Option Native.NetworkContext) :
    Except ProviderError Provider := do
  let p ← Provider.new id tenantId includeServicePrincipals token world.crate world.net
    world.decodePage
  Native.httpClient K network world.builds (error "configuration")
  return p

/-- No request has been sent. -/
def Wire.fresh : Wire := ⟨⟨0, 0⟩, []⟩

namespace Provider

variable (p : Provider)

/-- `check`: the tenant is proved. -/
def check : Except ProviderError Native.Health := do
  (p.proveTenant (p.start .fresh)).1
  return ⟨"Entra tenant identity verified through Microsoft Graph organization; directory " ++
    "discovery permissions are not established by this check.", p.limitations⟩

/-- `collect` with a time that cannot be formatted: the directories are read before. -/
def unclocked : Op Snapshot := do
  p.proveTenant
  p.directory false
  if p.includeServicePrincipals then p.directory true
  p.groupDirectory
  throw (error "malformed")

/-- `impl Provider for EntraProvider`. -/
def provider (core : Core) (world : World) : Native.Provider where
  check := Native.within world.inTime (error "timeout") p.check
  discover := Native.within world.inTime (error "timeout")
    (match world.now with
    | none => (p.unclocked (p.start .fresh)).1
    | some observedAt => (p.collect core observedAt .fresh).1)

end Provider

/-! ## The adapter -/

/-- `Adapter::error_code`. -/
def errorCode (code : String) : String :=
  match code with
  | "configuration" => "protocol_error"
  | "unauthorized" => "authentication"
  | "forbidden" | "scope" => "permission_denied"
  | "rate_limit" => "rate_limited"
  | "timeout" | "transport" | "limit" => "unavailable"
  | _ => "internal"

/-- The code of one limitation. -/
def limitationCode (value : String) : String :=
  match value with
  | "Entra partial collection: unauthorized." => "permission_denied"
  | "Entra partial collection: forbidden." => "permission_denied"
  | "Entra partial collection: rate_limit." => "rate_limited"
  | "Entra partial collection: limit." => "page_limit"
  | value =>
    if value ∈ VISIBILITY ∨
        value = "Entra service-principal inventory is disabled by configuration." then
      "visibility_limited"
    else "unknown"

/-- `Adapter::limitations`. -/
def limitations (values : List String) : List String := Native.codesOf limitationCode values

def providerMetadata : Native.Metadata where
  kind := "entra"
  capabilities := [.identities, .accounts, .groups, .memberships]

/-- `Adapter::validate`. -/
def validate (configuration : Configuration) (credentials : Credentials) : Bool :=
  uuid configuration.tenantId && validToken credentials.token

/-- `impl Adapter for Entra`. -/
def adapter (K : Native.Crates) (setup : K.SetupSpec) : Native.Adapter K where
  Configuration := Configuration
  Credentials := Credentials
  metadata := providerMetadata
  supportsNetwork := true
  setup := setup
  browserAuth := none
  validate := validate
  errorCode := errorCode
  limitations := limitations

/-- The host of a session, with the factory that `run` hands to the runtime. -/
def host (K : Native.Crates) (setup : K.SetupSpec) (world : World)
    (fromSlice : List UInt8 → Option (Native.WireRequest (adapter K setup)))
    (serializer : Native.Serializer K) : Native.Host (adapter K setup) where
  fromSlice := fromSlice
  serializer := serializer
  factory id (configuration : Configuration) (credentials : Credentials) network := do
    let p ← newWithNetwork K world id configuration.tenantId configuration.includeServicePrincipals
      credentials.token network
    return p.provider K.core world

end Permesh.Entra

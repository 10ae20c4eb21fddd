import Permesh.Cloudflare.Records
import Permesh.Native.Adapters

/-!
# Cloudflare.Protocol — the provider as an adapter of the runtime

`lib.rs` and `protocol.rs`: the constructor, `check`, the codes of errors and limitations, and the host
of a session.
-/

namespace Permesh.Cloudflare

open Permesh.Json Permesh.Http

structure Configuration where
  accountId : String
  deriving DecidableEq, Repr

structure Credentials where
  token : String
  deriving DecidableEq, Repr

/-- What lies outside of a session. -/
structure World where
  crate : UrlCrate
  net : Net
  /-- `Value::to_string`. -/
  render : Value → String
  /-- The error of `validate_snapshot`. -/
  rejection : ProviderError
  /-- The HTTP client can be built. -/
  builds : Bool
  /-- `OffsetDateTime::now_utc` with `Rfc3339`, if it can be formatted. -/
  now : Option String
  /-- The operation ends before its deadline. -/
  inTime : Bool

/-- `valid_instance`. A letter need not come first. -/
def validInstance (id : String) : Bool :=
  !id.isEmpty && Text.len id ≤ 64 &&
    id.toList.all fun c => Text.isAsciiAlphanumeric c || c == '_' || c == '-'

/-- `CloudflareProvider::new_with_network`. -/
def newWithNetwork (K : Native.Crates) (world : World) (id accountId token : String)
    (network : Option Native.NetworkContext) : Except ProviderError Client := do
  if !validInstance id || !nativeId accountId || !Native.graphicToken token then
    .error (error "configuration")
  Native.httpClient K network world.builds (error "configuration")
  match world.crate.parse "https://api.cloudflare.com/client/v4/" with
  | none => .error (error "configuration")
  | some origin => .ok ⟨id, accountId, origin, world.crate, world.net, world.render⟩

namespace Client

variable (client : Client)

/-- `check`: the account, and at most five of its members. -/
def check : Except ProviderError Native.Health := do
  let (response, budget) := client.request s!"accounts/{client.accountId}" [] ⟨0, 0⟩
  let _ ← client.account (← response)
  let (response, _) := client.request s!"accounts/{client.accountId}/members"
    [("per_page", "5"), ("page", "1")] budget
  match (((← response).get "result").bind Value.asArray).filter fun rows => rows.length ≤ 5 with
  | none => .error (error "malformed")
  | some rows =>
    rows.forM fun row => do
      let _ ← member row
    return ⟨"Cloudflare account and bounded member-list probes succeeded; discovery permissions are " ++
      "not established.", VISIBILITY⟩

/-- `collect` with a time that cannot be formatted: the account is read before. -/
def unclocked : Except ProviderError Snapshot := do
  let _ ← client.account (← (client.request s!"accounts/{client.accountId}" [] ⟨0, 0⟩).1)
  .error (error "clock")

/-- `impl Provider for CloudflareProvider`. -/
def provider (core : Core) (world : World) : Native.Provider where
  check := Native.within world.inTime (error "timeout") client.check
  discover := Native.within world.inTime (error "timeout")
    (match world.now with
    | none => client.unclocked
    | some observedAt => client.collect core world.rejection observedAt)

end Client

/-! ## The adapter -/

/-- `Adapter::error_code`. -/
def errorCode (code : String) : String :=
  match code with
  | "configuration" => "protocol_error"
  | "unauthorized" => "authentication"
  | "forbidden" => "permission_denied"
  | "rate_limit" => "rate_limited"
  | "timeout" | "transport" | "limit" => "unavailable"
  | _ => "internal"

/-- The code of one limitation. -/
def limitationCode (value : String) : String :=
  if value ∈ VISIBILITY then "visibility_limited"
  else
    match value with
    | "Cloudflare partial collection: forbidden." => "permission_denied"
    | "Cloudflare partial collection: unauthorized." => "permission_denied"
    | "Cloudflare partial collection: rate_limit." => "rate_limited"
    | "Cloudflare partial collection: limit." => "page_limit"
    | _ => "unknown"

/-- `Adapter::limitations`. -/
def limitations (values : List String) : List String := Native.codesOf limitationCode values

def providerMetadata : Native.Metadata where
  kind := "cloudflare"
  capabilities := [.accounts, .resources, .groups, .memberships, .grants]

/-- `Adapter::validate`. -/
def validate (configuration : Configuration) (credentials : Credentials) : Bool :=
  nativeId configuration.accountId && Native.graphicToken credentials.token

/-- `impl Adapter for Cloudflare`. -/
def adapter (K : Native.Crates) (setup : K.SetupSpec) : Native.Adapter K where
  Configuration := Configuration
  Credentials := Credentials
  metadata := providerMetadata
  supportsNetwork := true
  setup := setup
  browserAuth := none
  validate := validate
  errorCode := errorCode
  limitations := limitations

/-- The host of a session, with the factory that `run` hands to the runtime. -/
def host (K : Native.Crates) (setup : K.SetupSpec) (world : World)
    (fromSlice : List UInt8 → Option (Native.WireRequest (adapter K setup)))
    (serializer : Native.Serializer K) : Native.Host (adapter K setup) where
  fromSlice := fromSlice
  serializer := serializer
  factory id (configuration : Configuration) (credentials : Credentials) network := do
    let client ← newWithNetwork K world id configuration.accountId credentials.token network
    return client.provider K.core world

end Permesh.Cloudflare

import Permesh.Github.Discovery
import Permesh.Native.Adapters

/-!
# Github.Protocol — the provider as an adapter of the runtime

`lib.rs` and `protocol/`: the constructor with its canonical list of organizations, the codes of
errors and limitations, and the host of a session. What a session does not choose itself is in
`World`.
-/

namespace Permesh.Github

open Permesh.Http

structure Configuration where
  organizations : List String
  deriving DecidableEq, Repr

structure Credentials where
  token : String
  deriving DecidableEq, Repr

/-- What lies outside of a session. -/
structure World where
  crate : UrlCrate
  net : Net
  clock : Nat → Int
  rfc2822 : String → Option Int64
  /-- The HTTP client can be built. -/
  builds : Bool
  /-- `OffsetDateTime::now_utc` with `Rfc3339`, if it can be formatted. -/
  now : Option String

/-- `sort_by_key` with the lower case name. -/
def sortByName (organizations : List String) : List String :=
  organizations.mergeSort fun a b => (compare (Text.lowercase a) (Text.lowercase b)).isLE

/-- `dedup_by` with `eq_ignore_ascii_case`: of equal neighbours the first is kept. -/
def dedupByName (organizations : List String) : List String :=
  organizations.destutter fun a b => Text.eqIgnoreAsciiCase a b = false

/-- The checks of `new_with_network`. -/
def configured (id : String) (organizations : List String) (token : String) : Bool :=
  !(Text.trim id).isEmpty && Text.len id ≤ 128 && !organizations.isEmpty &&
    organizations.length ≤ 100 && organizations.all (fun o => safeSegment o && Text.len o ≤ 100) &&
    !token.isEmpty

/-- `GithubProvider::new_with_network`. -/
def newWithNetwork (K : Native.Crates) (world : World) (id : String) (organizations : List String)
    (token : String) (network : Option Native.NetworkContext) : Except ProviderError Client := do
  if configured id organizations token = false then .error (error "configuration")
  Native.httpClient K network world.builds (error "configuration")
  match world.crate.parse "https://api.github.com" with
  | none => .error (error "configuration")
  | some origin =>
    .ok ⟨id, dedupByName (sortByName organizations), origin, world.crate, world.net, world.clock,
      world.rfc2822⟩

/-! ## The adapter -/

/-- `response::error_code`. -/
def errorCode (code : String) : String :=
  match code with
  | "configuration" => "protocol_error"
  | "unauthorized" => "authentication"
  | "forbidden" | "not_found" | "membership" => "permission_denied"
  | "rate_limit" => "rate_limited"
  | "transport" | "timeout" | "limit" | "discovery" | "unavailable" => "unavailable"
  | _ => "internal"

/-- `str::ends_with`. -/
def endsWith (value suffix : String) : Bool := (Text.stripSuffix suffix value).isSome

/-- The code of one limitation. -/
def limitationCode (value : String) : String :=
  if value ∈ VISIBILITY then "visibility_limited"
  else if endsWith value (error "forbidden").message || endsWith value (error "not_found").message then
    "permission_denied"
  else if endsWith value (error "rate_limit").message then "rate_limited"
  else if endsWith value (error "limit").message then "page_limit"
  else "unknown"

/-- `response::limitations`. -/
def limitations (values : List String) : List String := Native.codesOf limitationCode values

def providerMetadata : Native.Metadata where
  kind := "github"
  capabilities := [.accounts, .resources, .groups, .memberships, .grants]

/-- `Adapter::validate`. -/
def validate (_ : Configuration) (credentials : Credentials) : Bool :=
  !credentials.token.isEmpty && Text.len credentials.token ≤ 16 * 1024

/-- `impl Adapter for Github`. -/
def adapter (K : Native.Crates) (setup : K.SetupSpec) : Native.Adapter K where
  Configuration := Configuration
  Credentials := Credentials
  metadata := providerMetadata
  supportsNetwork := true
  setup := setup
  browserAuth := none
  validate := validate
  errorCode := errorCode
  limitations := limitations

/-- `impl Provider for GithubProvider`. -/
def Client.provider (client : Client) (core : Core) (now : Option String) : Native.Provider where
  check := client.check.1
  discover :=
    match now with
    | none => .error (error "clock")
    | some observedAt => client.collect core observedAt

/-- The host of a session, with the factory that `run` hands to the runtime. -/
def host (K : Native.Crates) (setup : K.SetupSpec) (world : World)
    (fromSlice : List UInt8 → Option (Native.WireRequest (adapter K setup)))
    (serializer : Native.Serializer K) : Native.Host (adapter K setup) where
  fromSlice := fromSlice
  serializer := serializer
  factory id (configuration : Configuration) (credentials : Credentials) network := do
    let client ← newWithNetwork K world id configuration.organizations credentials.token network
    return client.provider K.core world.now

end Permesh.Github

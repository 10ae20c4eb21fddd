import Permesh.Google.Auth
import Permesh.Google.Records

/-!
# Google.Protocol — the provider as an adapter of the runtime

`lib.rs` and `protocol/mod.rs`: the constructor with its HTTP client, `check`, the codes of errors and
limitations, and the host of a session. The access token is either given or issued for one session.
-/

namespace Permesh.Google

open Permesh.Json Permesh.Http

inductive AuthMode where
  | accessToken | refreshToken
  deriving DecidableEq, Repr

structure Configuration where
  customerId : String
  authMode : AuthMode
  clientId : Option String
  deriving DecidableEq, Repr

structure Credentials where
  token : Option String
  refreshToken : Option String
  clientSecret : Option String
  deriving DecidableEq, Repr

/-- What lies outside of a session. -/
structure World where
  net : Net
  /-- `OffsetDateTime::parse` with `Rfc2822`, against the clock behind a request. -/
  remaining : Nat → String → Option Int
  /-- The HTTP client can be built. -/
  builds : Bool
  issuer : Auth.Issuer

/-- `GoogleProvider::new_with_network`. -/
def newWithNetwork (K : Native.Crates) (world : World) (id customerId token : String)
    (network : Option Native.NetworkContext) : Except ProviderError GoogleProvider := do
  let provider ← GoogleProvider.new id customerId token world.net world.remaining
  Native.httpClient K network world.builds (error "configuration")
  return provider

/-- `check`: a page of at most one user. -/
def GoogleProvider.check (provider : GoogleProvider) : Except ProviderError Native.Health := do
  let value ← (provider.page none 1 ⟨0, []⟩).1
  let users ← users value
  if users.length > 1 then .error (error "limit")
  users.forM fun user => do
    let (_, _, malformed) ← provider.record user
    if malformed then .error (error "malformed")
  return ⟨"Google Directory users.list probe succeeded for the configured customer.", VISIBILITY⟩

/-- `impl Provider for GoogleProvider`. -/
def GoogleProvider.provider (p : GoogleProvider) (core : Core) : Native.Provider where
  check := p.check
  discover := p.collect core

/-! ## The adapter -/

/-- `Adapter::error_code`. -/
def errorCode (code : String) : String :=
  match code with
  | "configuration" => "protocol_error"
  | "unauthorized" => "authentication"
  | "forbidden" => "permission_denied"
  | "rate_limit" => "rate_limited"
  | "transport" | "timeout" | "limit" => "unavailable"
  | _ => "internal"

/-- The code of one limitation. -/
def limitationCode (value : String) : String :=
  if value ∈ VISIBILITY then "visibility_limited"
  else if value = (error "forbidden").message then "permission_denied"
  else if value = (error "rate_limit").message then "rate_limited"
  else if value = (error "limit").message then "page_limit"
  else "unknown"

/-- `Adapter::limitations`. -/
def limitations (values : List String) : List String := Native.codesOf limitationCode values

def providerMetadata : Native.Metadata where
  kind := "google"
  capabilities := [.accounts, .identities]

/-- `Adapter::validate`. -/
def validate (config : Configuration) (credentials : Credentials) : Bool :=
  2 ≤ Text.len config.customerId && Text.len config.customerId ≤ 128 &&
    (Text.stripPrefix "C" config.customerId).isSome &&
    config.customerId.toList.all Text.isAsciiAlphanumeric &&
    match config.authMode with
    | .accessToken =>
      config.clientId.isNone && credentials.token.any Auth.validToken &&
        credentials.refreshToken.isNone && credentials.clientSecret.isNone
    | .refreshToken =>
      config.clientId.any (fun v => !v.isEmpty && Text.len v ≤ 1024 &&
        v.toList.all fun c => Text.isAsciiAlphanumeric c || c == '-' || c == '_' || c == '.') &&
        credentials.token.isNone && credentials.refreshToken.any Auth.validToken &&
        credentials.clientSecret.any Auth.validToken

/-- `impl Adapter for Google`. -/
def adapter (K : Native.Crates) (setup : K.SetupSpec) (browserAuth : K.BrowserAuthSpec) :
    Native.Adapter K where
  Configuration := Configuration
  Credentials := Credentials
  metadata := providerMetadata
  supportsNetwork := true
  setup := setup
  browserAuth := some browserAuth
  validate := validate
  errorCode := errorCode
  limitations := limitations

/-- `secret`. -/
def secret (value : Option String) : Except ProviderError String :=
  match value with
  | none => .error (error "configuration")
  | some value => .ok value

/-- The access token of a session. -/
def accessToken (K : Native.Crates) (world : World) (config : Configuration)
    (credentials : Credentials) (network : Option Native.NetworkContext) :
    Except ProviderError String :=
  match config.authMode with
  | .accessToken => secret credentials.token
  | .refreshToken => do
    let refresh ← secret credentials.refreshToken
    let clientSecret ← secret credentials.clientSecret
    let clientId ← secret config.clientId
    Auth.refresh K world.issuer clientId refresh clientSecret network

/-- The host of a session, with the factory that `run` hands to the runtime. -/
def host (K : Native.Crates) (setup : K.SetupSpec) (browserAuth : K.BrowserAuthSpec) (world : World)
    (fromSlice : List UInt8 → Option (Native.WireRequest (adapter K setup browserAuth)))
    (serializer : Native.Serializer K) : Native.Host (adapter K setup browserAuth) where
  fromSlice := fromSlice
  serializer := serializer
  factory id (config : Configuration) (credentials : Credentials) network := do
    let token ← accessToken K world config credentials network
    let provider ← newWithNetwork K world id config.customerId token network
    return provider.provider K.core

end Permesh.Google

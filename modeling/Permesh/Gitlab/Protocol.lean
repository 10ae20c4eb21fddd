import Permesh.Gitlab.Discovery
import Permesh.Native.Adapters

/-!
# Gitlab.Protocol — the provider as an adapter of the runtime

`lib.rs` and `protocol.rs`: the checks of the origin and of the numeric scope, the constructor, the
codes of errors and limitations, and the host of a session.
-/

namespace Permesh.Gitlab

open Permesh.Http

structure Configuration where
  origin : String
  groupIds : List String
  projectIds : List String
  deriving DecidableEq, Repr

structure Credentials where
  token : String
  deriving DecidableEq, Repr

/-- What lies outside of a session. -/
structure World where
  crate : UrlCrate
  net : Net
  calendar : Nat → Calendar
  /-- The HTTP client can be built. -/
  builds : Bool
  /-- `OffsetDateTime::now_utc` with `Rfc3339`, if it can be formatted. -/
  now : Option String
  /-- The operation ends before its deadline. -/
  inTime : Bool

/-! ## The configuration -/

/-- `origin`. The query of an address is seen through its pairs. -/
def origin (crate : UrlCrate) (value : String) : Except ProviderError Url :=
  if Text.len value > 512 || !value.toList.all Native.isAsciiGraphic ||
      value.toList.any (fun c => c == '@' || c == '?' || c == '#' || c == '\\' || c == '%') then
    .error (error "configuration")
  else
    match Text.stripPrefix "https://" value with
    | none => .error (error "configuration")
    | some authority =>
      if (Text.splitOnce '/' authority).any fun (_, path) => !path.isEmpty then
        .error (error "configuration")
      else
        match crate.parse value with
        | none => .error (error "configuration")
        | some url =>
          if !(url.origin.any fun (scheme, _, _) => scheme == "https") || url.username != "" ||
              url.password.isSome || url.path != "/" || !url.pairs.isEmpty || url.fragment.isSome then
            .error (error "configuration")
          else .ok url

/-- One value of `ids`: a positive number in its decimal digits. -/
def readId (value : String) : Option Nat :=
  (Text.parseU64 value).filter fun id => 0 < id && toString id == value

/-- `ids`. -/
def ids (values : List String) : Except ProviderError (List Nat) := do
  let seen ← values.foldlM (fun (seen : Std.ExtTreeSet Nat) value =>
    match readId value with
    | none => .error (error "configuration")
    | some id => if id ∈ seen then .error (error "configuration") else .ok (seen.insert id)) ∅
  return seen.toList

/-- `valid_configuration`. -/
def validConfiguration (crate : UrlCrate) (value : String) (groups projects : List String) : Bool :=
  1 ≤ groups.length + projects.length && groups.length + projects.length ≤ 50 &&
    (origin crate value).isOk && (ids groups).isOk && (ids projects).isOk

/-- `valid_instance`. -/
def validInstance (id : String) : Bool := Native.validInstance id

/-- The checks of the token. -/
def validToken (token : String) : Bool := Native.graphicToken token

/-- `GitlabProvider::new_with_network`. -/
def newWithNetwork (K : Native.Crates) (world : World) (id : String) (value : String)
    (groups projects : List String) (token : String) (network : Option Native.NetworkContext) :
    Except ProviderError Provider := do
  if !validInstance id || !validConfiguration world.crate value groups projects ||
      !validToken token then .error (error "configuration")
  let origin ← origin world.crate value
  let scope ← match origin.origin with
    | some (_, host, port) => .ok s!"gitlab:{host}:{port}"
    | none => .error (error "configuration")
  Native.httpClient K network world.builds (error "configuration")
  return ⟨id, scope, ← ids groups, ← ids projects, ⟨origin, token, world.crate, world.net⟩,
    world.calendar⟩

/-! ## The adapter -/

/-- `Adapter::error_code`. -/
def errorCode (code : String) : String :=
  match code with
  | "configuration" => "protocol_error"
  | "unauthorized" => "authentication"
  | "forbidden" => "permission_denied"
  | "rate_limit" => "rate_limited"
  | "timeout" | "transport" | "limit" => "unavailable"
  | _ => "internal"

/-- The code of one limitation. -/
def limitationCode (value : String) : String :=
  if value ∈ VISIBILITY then "visibility_limited"
  else
    match value with
    | "GitLab partial collection: forbidden" => "permission_denied"
    | "GitLab partial collection: unauthorized" => "permission_denied"
    | "GitLab partial collection: rate_limit" => "rate_limited"
    | "GitLab partial collection: limit" => "page_limit"
    | _ => "unknown"

/-- `Adapter::limitations`. -/
def limitations (values : List String) : List String := Native.codesOf limitationCode values

def providerMetadata : Native.Metadata where
  kind := "gitlab"
  capabilities := [.accounts, .resources, .groups, .memberships, .grants]

/-- `Adapter::validate`. -/
def validate (crate : UrlCrate) (configuration : Configuration) (credentials : Credentials) : Bool :=
  validConfiguration crate configuration.origin configuration.groupIds configuration.projectIds &&
    validToken credentials.token

/-- `impl Adapter for Gitlab`. -/
def adapter (K : Native.Crates) (setup : K.SetupSpec) (crate : UrlCrate) : Native.Adapter K where
  Configuration := Configuration
  Credentials := Credentials
  metadata := providerMetadata
  supportsNetwork := true
  setup := setup
  browserAuth := none
  validate := validate crate
  errorCode := errorCode
  limitations := limitations

/-- `impl Provider for GitlabProvider`. -/
def Provider.provider (p : Provider) (core : Core) (now : Option String) (inTime : Bool) :
    Native.Provider where
  check := Native.within inTime (error "timeout") (p.check.run .new).1
  discover := Native.within inTime (error "timeout")
    (match now with
    | none => .error (error "malformed")
    | some time => (p.collect core time .new).1)

/-- The host of a session, with the factory that `run` hands to the runtime. -/
def host (K : Native.Crates) (setup : K.SetupSpec) (world : World)
    (fromSlice : List UInt8 → Option (Native.WireRequest (adapter K setup world.crate)))
    (serializer : Native.Serializer K) : Native.Host (adapter K setup world.crate) where
  fromSlice := fromSlice
  serializer := serializer
  factory id (configuration : Configuration) (credentials : Credentials) network := do
    let p ← newWithNetwork K world id configuration.origin configuration.groupIds
      configuration.projectIds credentials.token network
    return p.provider K.core world.now world.inTime

end Permesh.Gitlab

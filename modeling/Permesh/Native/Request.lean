import Permesh.Native.Records

/-!
# Native.Request — adapters and the requests of the host

`request.rs` decodes one frame into a `WireRequest` and accepts it or not. What serde does with
the bytes is outside: `fromSlice` stands for `serde_json::from_slice` into the derived
`Deserialize`, which already refuses unknown, repeated and null fields.
-/

namespace Permesh.Native

def MAX_FRAME : Nat := 1048576

/-- `sdk::network::NetworkContext`. -/
structure NetworkContext where
  httpsProxy : Option String
  noProxy : List String
  caBundlePem : Option String
  deriving DecidableEq, Repr

/-- `sdk::Metadata`. -/
structure Metadata where
  kind : String
  capabilities : List Capability
  deriving DecidableEq, Repr

/-- What the runtime uses of the crates it is built on: the descriptions of the SDK, its check of a
network context, and the parsers of `reqwest`. -/
structure Crates where
  core : Core
  SetupSpec : Type
  /-- `SetupSpec::validate` succeeds. -/
  setupValid : SetupSpec → Bool
  BrowserAuthSpec : Type
  /-- `BrowserAuthSpec::validate` succeeds. -/
  browserAuthValid : BrowserAuthSpec → Bool
  /-- `NetworkContext::validate` succeeds. -/
  networkValid : NetworkContext → Bool
  /-- `Proxy::https` accepts the URL. -/
  proxyHttps : String → Bool
  Certificate : Type
  /-- `Certificate::from_pem_bundle`. -/
  fromPemBundle : String → Option (List Certificate)
  /-- A client that trusts only these certificates can be built. -/
  buildsOnly : List Certificate → Bool

/-- The `Adapter` trait. -/
structure Adapter (K : Crates) where
  Configuration : Type
  Credentials : Type
  metadata : Metadata
  supportsNetwork : Bool
  setup : K.SetupSpec
  browserAuth : Option K.BrowserAuthSpec
  validate : Configuration → Credentials → Bool
  errorCode : String → String
  limitations : List String → List String

inductive RequestContract where
  | negotiatedV1 | legacySetup | legacyAuth
  deriving DecidableEq, Repr

inductive Operation where
  | check | discover
  deriving DecidableEq, Repr

variable {K : Crates}

/-- The fields of a request frame, each of them decoded. -/
structure WireRequest (A : Adapter K) where
  protocol : Option Nat
  protocolVersion : Option Nat
  operation : Option Operation
  features : Option (List String)
  network : Option NetworkContext
  id : String
  method : String
  instanceId : Option String
  configuration : Option A.Configuration
  credentials : Option A.Credentials

inductive Command (A : Adapter K) where
  | handshake (instanceId : String) (operation : Option Operation) (networkRequested : Bool)
  | operation (check : Bool) (configuration : A.Configuration) (credentials : A.Credentials)
      (network : Option NetworkContext)
  | describe
  | describeAuth
  | cancel

structure Request (A : Adapter K) where
  contract : RequestContract
  command : Command A

/-- ASCII letters and digits, as `u8::is_ascii_alphanumeric` sees them. -/
def isAsciiAlphabetic (c : Char) : Bool :=
  ('a' ≤ c && c ≤ 'z') || ('A' ≤ c && c ≤ 'Z')

def isAsciiAlphanumeric (c : Char) : Bool := isAsciiAlphabetic c || ('0' ≤ c && c ≤ '9')

/-- `request::valid_instance`. -/
def validInstance (value : String) : Bool :=
  1 ≤ value.utf8ByteSize && value.utf8ByteSize ≤ 64 &&
    (value.toList.head?.any isAsciiAlphabetic) &&
    value.toList.all fun c => isAsciiAlphanumeric c || c == '_' || c == '-'

/-- The contract a frame names by its version fields. -/
def requestContract (protocol protocolVersion : Option Nat) : Option RequestContract :=
  match protocol, protocolVersion with
  | none, some 1 => some .negotiatedV1
  | some 3, none => some .legacySetup
  | some 4, none => some .legacyAuth
  | _, _ => none

/-- The guarded arms on `value.method`. -/
def requestCommand (A : Adapter K) (contract : RequestContract) (value : WireRequest A) :
    Option (Command A) :=
  let bare := value.configuration.isNone && value.credentials.isNone
  match value.method with
  | "handshake" =>
    if !bare then none else
    match value.instanceId with
    | none => none
    | some instanceId =>
      if !validInstance instanceId then none
      else if (contract == .negotiatedV1) != value.operation.isSome then none
      else some (.handshake instanceId value.operation value.features.isSome)
  | "describe" =>
    if contract == .legacySetup && value.instanceId.isNone && bare then some .describe else none
  | "describe_auth" =>
    if contract == .legacyAuth && value.instanceId.isNone && bare then some .describeAuth else none
  | "cancel" => if value.instanceId.isNone && bare then some .cancel else none
  | "check" | "discover" =>
    if !(contract == .negotiatedV1 && value.instanceId.isNone) then none else
    match value.configuration, value.credentials with
    | some configuration, some credentials =>
      if !A.validate configuration credentials then none
      else some (.operation (value.method == "check") configuration credentials value.network)
    | _, _ => none
  | _ => none

/-- `request::parse` after the frame has been decoded. -/
def parseWire (A : Adapter K) (value : WireRequest A) : Option (Request A) :=
  match requestContract value.protocol value.protocolVersion with
  | none => none
  | some contract =>
    if value.id != value.method then none
    else if value.features.any fun features =>
        features != ["network_v1"] || !A.supportsNetwork then none
    else if contract != .negotiatedV1 && (value.features.isSome || value.network.isSome) then none
    else if value.network.any fun network => !A.supportsNetwork || !K.networkValid network then
      none
    else if !(value.method == "check" || value.method == "discover") && value.network.isSome then
      none
    else if value.method != "handshake" && (value.operation.isSome || value.features.isSome) then
      none
    else (requestCommand A contract value).map fun command => ⟨contract, command⟩

/-- `request::parse`. -/
def parse (A : Adapter K) (fromSlice : List UInt8 → Option (WireRequest A))
    (bytes : List UInt8) : Option (Request A) :=
  if MAX_FRAME < bytes.length then none else (fromSlice bytes).bind (parseWire A)

/-! ## Network -/

/-- `network::client_builder` for a context, up to whether it succeeds. -/
def clientBuilder (K : Crates) : Option NetworkContext → Bool
  | none => true
  | some network =>
    K.networkValid network &&
    network.httpsProxy.all K.proxyHttps &&
    network.caBundlePem.all fun bundle =>
      match K.fromPemBundle bundle with
      | none => false
      | some certificates => !certificates.isEmpty && K.buildsOnly certificates

/-- `network::validate`. -/
def networkValidate (K : Crates) (network : NetworkContext) : Bool :=
  clientBuilder K (some network)

end Permesh.Native

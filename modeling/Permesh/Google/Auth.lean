import Mathlib.Algebra.GroupWithZero.Nat
import Permesh.Http
import Permesh.Native.Adapters

/-!
# Google.Auth — the exchange of a refresh token

`auth.rs`. The body of `form` is written to a buffer of a fixed capacity, so that its bytes are in one
place only; whether they had to be moved is kept beside the buffer. An exchange posts it once, and
every failure behind the setup of the client is the same one.
-/

namespace Permesh.Google

open Text (asBytes)

/-- A `Vec<u8>`: its bytes, its capacity, and whether it was reallocated. -/
structure Buffer where
  bytes : List UInt8
  capacity : Nat
  reallocated : Bool
  deriving DecidableEq, Repr

namespace Buffer

def withCapacity (capacity : Nat) : Buffer := ⟨[], capacity, false⟩

/-- `extend_from_slice`: bytes that do not fit are put into a larger allocation. -/
def extend (b : Buffer) (slice : List UInt8) : Buffer :=
  let needed := b.bytes.length + slice.length
  if needed ≤ b.capacity then { b with bytes := b.bytes ++ slice }
  else ⟨b.bytes ++ slice, max needed (2 * b.capacity), true⟩

def push (b : Buffer) (byte : UInt8) : Buffer := b.extend [byte]

end Buffer

def HEX : List UInt8 := asBytes "0123456789ABCDEF"

/-- `u8::is_ascii_alphanumeric`, or one of `-_.~`. -/
def unreserved (byte : UInt8) : Bool :=
  (0x30 ≤ byte && byte ≤ 0x39) || (0x41 ≤ byte && byte ≤ 0x5a) || (0x61 ≤ byte && byte ≤ 0x7a) ||
    byte == 0x2d || byte == 0x5f || byte == 0x2e || byte == 0x7e

/-- `HEX[i]`, for an index of four bits. -/
def hexAt (i : UInt8) : UInt8 := HEX.getD i.toNat 0

/-- A byte of a value. -/
def writeByte (body : Buffer) (byte : UInt8) : Buffer :=
  if unreserved byte then body.push byte
  else body.extend [0x25, hexAt (byte >>> 4), hexAt (byte &&& 15)]

/-- A field behind `index` others. -/
def writeField (body : Buffer) (index : Nat) (field : String × String) : Buffer :=
  let body := if index > 0 then body.push 0x26 else body
  let body := (body.extend (asBytes field.1)).push 0x3d
  (asBytes field.2).foldl writeByte body

def formFields (clientId refreshToken clientSecret : String) : List (String × String) :=
  [("grant_type", "refresh_token"), ("client_id", clientId), ("refresh_token", refreshToken),
    ("client_secret", clientSecret)]

/-- The capacity that is reserved up front. -/
def formCapacity (fields : List (String × String)) : Nat :=
  (fields.map fun (k, v) => Text.len k + 2 + 3 * Text.len v).sum

def form (clientId refreshToken clientSecret : String) : Buffer :=
  let fields := formFields clientId refreshToken clientSecret
  fields.zipIdx.foldl (fun body (field, index) => writeField body index field)
    (.withCapacity (formCapacity fields))

/-! ## The exchange -/

namespace Auth

def MAX_BODY : Nat := 64 * 1024
def MAX_TOKEN : Nat := 16 * 1024
def TOKEN_ENDPOINT : String := "https://oauth2.googleapis.com/token"

/-- `auth_error`. -/
def authError : ProviderError where
  code := "unauthorized"
  message := "Google OAuth token exchange failed; check the configured OAuth client and refresh " ++
    "credential."

/-- `valid_token`. -/
def validToken (value : String) : Bool :=
  !value.isEmpty && Text.len value ≤ MAX_TOKEN && !value.toList.any Text.isControl

structure TokenResponse where
  accessToken : String
  tokenType : String
  expiresIn : Nat
  deriving DecidableEq, Repr

/-- What lies outside of an exchange. -/
structure Issuer where
  /-- What posting a body to an endpoint ends in. -/
  post : String → List UInt8 → Http.Exchange
  /-- `serde_json::from_slice` into a `TokenResponse`. -/
  decode : List UInt8 → Option TokenResponse
  /-- The HTTP client can be built. -/
  builds : Bool

/-- `exchange_with_network`. -/
def exchangeWithNetwork (K : Native.Crates) (issuer : Issuer)
    (clientId refreshToken clientSecret endpoint : String) (network : Option Native.NetworkContext) :
    Except ProviderError String := do
  if clientId.isEmpty || Text.len clientId > 1024 || !validToken refreshToken ||
      !validToken clientSecret then
    .error authError
  Native.httpClient K network issuer.builds authError
  match issuer.post endpoint (form clientId refreshToken clientSecret).bytes with
  | .failed _ | .elapsed => .error authError
  | .answered response =>
    if Http.isSuccess response.status = false then .error authError
    else
      match response.body MAX_BODY with
      | .error _ => .error authError
      | .ok bytes =>
        match issuer.decode bytes with
        | none => .error authError
        | some result =>
          if !validToken result.accessToken || !Text.eqIgnoreAsciiCase result.tokenType "Bearer" ||
              result.expiresIn == 0 then .error authError
          else .ok result.accessToken

/-- `refresh`. -/
def refresh (K : Native.Crates) (issuer : Issuer) (clientId refreshToken clientSecret : String)
    (network : Option Native.NetworkContext) : Except ProviderError String :=
  exchangeWithNetwork K issuer clientId refreshToken clientSecret TOKEN_ENDPOINT network

end Auth

end Permesh.Google

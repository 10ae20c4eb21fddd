import Permesh.Core
import Permesh.Http

/-!
# Google.Client — the provider and its requests

The constructor of the Google provider and `client.rs`. A page is asked for with up to three
attempts; an attempt that ran into a quota or a server error is repeated, unless a `retry-after`
header asks for more than five seconds.
-/

namespace Permesh.Google

open Permesh.Json Permesh.Http

def MAX_BODY : Nat := 2 * 1024 * 1024

/-- `error`. -/
def error (code : String) : ProviderError where
  code := code
  message :=
    match code with
    | "configuration" => "Invalid Google Directory provider configuration or HTTP settings."
    | "unauthorized" =>
      "Google Directory rejected authentication; supply a valid OAuth access token."
    | "forbidden" =>
      "Google Directory denied access; require admin.directory.user.readonly OAuth scope and " ++
        "permission to read users across this customer."
    | "rate_limit" =>
      "Google Directory quota prevented collection within the retry budget; retry later."
    | "timeout" => "Google Directory request exceeded its deadline."
    | "transport" => "Google Directory request could not be completed."
    | "limit" => "Google Directory collection reached a response, page or record safety limit."
    | "pagination" => "Google Directory returned invalid or repeated pagination metadata."
    | "customer" =>
      "Google Directory returned a user outside the configured customer or omitted customer " ++
        "identity; the record was excluded."
    | "duplicate" =>
      "Google Directory returned a duplicate user ID; all records with that ID were excluded."
    | "malformed" => "Google Directory returned an invalid response or record."
    | _ => "Google Directory returned an unsuccessful response."

/-! ## The provider -/

/-- The configuration that `new_with_network` accepts. -/
def configured (id customerId token : String) : Bool :=
  !(id.isEmpty || Text.len id > 128 ||
    !id.toList.all (fun c => Text.isAsciiAlphanumeric c || c == '-' || c == '_') ||
    !(2 ≤ Text.len customerId && Text.len customerId ≤ 128) ||
    (Text.stripPrefix "C" customerId).isNone ||
    !customerId.toList.all Text.isAsciiAlphanumeric ||
    token.isEmpty || Text.contains token id || Text.contains token customerId)

/-- A provider that could be constructed, with what lies outside of it. -/
structure GoogleProvider where
  id : String
  customerId : String
  token : String
  configured : configured id customerId token = true
  net : Net
  /-- `OffsetDateTime::parse` with `Rfc2822`: the milliseconds from the clock behind a request to
  the date. -/
  remaining : Nat → String → Option Int

/-- `new_with_network`, up to the setup of the HTTP client. -/
def GoogleProvider.new (id customerId token : String) (net : Net)
    (remaining : Nat → String → Option Int) : Except ProviderError GoogleProvider :=
  if h : Google.configured id customerId token = true then
    .ok ⟨id, customerId, token, h, net, remaining⟩
  else .error (error "configuration")

/-! ## Pages -/

/-- `quota`: an error response that names a quota. -/
def quota (decode : List UInt8 → Option Value) (bytes : List UInt8) : Bool :=
  (((decode bytes).bind fun v => (v.get "error").bind fun e => (e.get "errors").bind
    Value.asArray).map fun errors => errors.any fun e =>
      ((e.get "reason").bind Value.asStr).any fun reason =>
        ["rateLimitExceeded", "userRateLimitExceeded", "quotaExceeded"].contains reason).getD false

/-- `retry_delay`, in milliseconds: the jitter of at most 100 milliseconds is left out. -/
def retryDelay (remaining : String → Option Int) (headers : HeaderMap) (attempt : Nat) :
    Except ProviderError Nat :=
  let backoff := 1000 * (1 <<< attempt)
  match headers.get "retry-after" with
  | none => .ok backoff
  | some header =>
    match header.toStr with
    | none => .error (error "rate_limit")
    | some value =>
      let delay :=
        if !value.isEmpty && value.toList.all Text.isAsciiDigit then
          (Text.parseU64 value).map (1000 * ·)
        else (remaining value).map Int.toNat
      match delay with
      | none => .error (error "rate_limit")
      | some delay => if delay > 5000 then .error (error "rate_limit") else .ok (max delay backoff)

/-- The error of a response that is not tried again. -/
def statusError (status : Nat) (limited : Bool) : ProviderError :=
  error (match status with
    | 401 => "unauthorized"
    | 403 => if limited then "rate_limit" else "forbidden"
    | 429 => "rate_limit"
    | _ => "http")

namespace GoogleProvider

variable (provider : GoogleProvider)

/-- The attempts of `page` from `attempt` on, behind `requests` requests. -/
def attempts : (left attempt requests : Nat) → Except ProviderError Value × Nat
  | 0, _, requests => (.error (error "http"), requests)
  | left + 1, attempt, requests =>
    let requests := requests + 1
    match provider.net.server requests with
    | .failed isTimeout => (.error (error (if isTimeout then "timeout" else "transport")), requests)
    | .elapsed => (.error (error "timeout"), requests)
    | .answered response =>
      match response.body MAX_BODY with
      | .error code => (.error (error code), requests)
      | .ok bytes =>
        if isSuccess response.status then
          match provider.net.decode bytes with
          | some value => (.ok value, requests)
          | none => (.error (error "malformed"), requests)
        else
          let limited := response.status == 429 ||
            (response.status == 403 && quota provider.net.decode bytes)
          if attempt < 2 ∧ (limited || isServerError response.status) = true then
            match retryDelay (provider.remaining requests) response.headers attempt with
            | .error failure => (.error failure, requests)
            | .ok _ => attempts left (attempt + 1) requests
          else (.error (statusError response.status limited), requests)

/-- The query of a page. -/
def query (token : Option String) (size : Nat) : List (String × String) :=
  [("customer", provider.customerId), ("maxResults", toString size), ("projection", "basic"),
    ("viewType", "admin_view"),
    ("fields", "nextPageToken,users(id,customerId,primaryEmail,suspended,archived)")] ++
  (token.map fun token => ("pageToken", token)).toList

end GoogleProvider

/-- The requests sent so far, and the queries of the pages asked for. -/
structure Wire where
  requests : Nat
  queries : List (List (String × String))

/-- `page`. -/
def GoogleProvider.page (provider : GoogleProvider) (token : Option String) (size : Nat)
    (w : Wire) : Except ProviderError Value × Wire :=
  let (result, requests) := provider.attempts 3 0 w.requests
  (result, ⟨requests, w.queries ++ [provider.query token size]⟩)

end Permesh.Google

import Permesh.Github.Records
import Permesh.Http

/-!
# Github.Client — requests, retries and lists

`client.rs` of the GitHub provider. The requests that were sent, the pauses between them and the
pages that were fetched are kept beside a run, for the statements about runs.
-/

namespace Permesh.Github

open Permesh.Json Permesh.Http

def MAX_BODY : Nat := 2 * 1024 * 1024
def MAX_PAGES : Nat := 100
def MAX_ROWS : Nat := 20000
def MAX_REQUESTS : Nat := 2000

structure Budget where
  requests : Nat
  rows : Nat
  deriving DecidableEq, Repr

/-- `List`. -/
structure Listing where
  items : List Value
  error : Option ProviderError
  success : Bool

/-- A `sleep` behind a request: the requests that were charged so far, and the nanoseconds. -/
structure Pause where
  after : Nat
  nanoseconds : Nat
  deriving DecidableEq, Repr

/-- The budget, with the requests sent so far (address and media type) and the pauses so far. -/
structure Wire where
  budget : Budget
  sent : List (Url × String)
  paused : List Pause

/-- The provider with what lies outside of it. -/
structure Client where
  id : String
  organizations : List String
  origin : Url
  crate : UrlCrate
  net : Net
  /-- `SystemTime::now` behind a request, in nanoseconds since 1970. -/
  clock : Nat → Int
  /-- `OffsetDateTime::parse` with `Rfc2822`, as a `unix_timestamp`. -/
  rfc2822 : String → Option Int64

/-! ## Requests -/

/-- `header`. -/
def header (headers : HeaderMap) (name : String) : Option String :=
  (headers.get name).bind HeaderValue.toStr

def NANOS : Nat := 1000000000

/-- `duration_since` 1970 in nanoseconds; a clock before it is an error, whose default is zero. -/
def sinceEpoch (clock : Int) : Nat := clock.toNat

/-- `retry_delay`, in nanoseconds. -/
def retryDelay (clock : Int) (rfc2822 : String → Option Int64) (headers : HeaderMap) (attempt : Nat)
    (limited : Bool) : Except ProviderError Nat := do
  let now := sinceEpoch clock
  let seconds ←
    match header headers "retry-after" with
    | none => pure (if limited then 60 else 1 <<< attempt % UInt64.size)
    | some value =>
      match (Text.parseU64 value).or ((rfc2822 value).map fun date =>
        (max date 0).toUInt64.toNat - now / NANOS) with
      | some seconds => pure seconds
      | none => .error (error "rate_limit")
  let seconds ←
    if header headers "x-ratelimit-remaining" = some "0" then
      match (header headers "x-ratelimit-reset").bind Text.parseU64 with
      | some reset => pure (max seconds (reset - now / NANOS))
      | none => .error (error "rate_limit")
    else pure seconds
  if seconds > 60 then .error (error "rate_limit")
  else .ok (seconds * NANOS + now % NANOS % 251 * 1000000)

/-- A message that documents a rate limit. -/
def secondaryLimit (value : Value) : Bool :=
  ((value.get "message").bind Value.asStr).any fun message =>
    let message := Text.lowercase message
    Text.contains "secondary rate limit" message ||
      Text.contains "rate limit exceeded" message || Text.contains "abuse detection" message

/-- The code of the error that a response ends in. -/
def statusCode (status : Nat) (limited : Bool) : String :=
  if status = 401 then "unauthorized"
  else if status = 403 ∧ limited = false then "forbidden"
  else if status = 403 ∨ status = 429 then "rate_limit"
  else if status = 404 then "not_found"
  else if isServerError status then "unavailable"
  else "http"

/-- What one attempt gives: status, headers, the document of a success, and whether the body of a
refusal documents a rate limit. -/
def operation (decode : List UInt8 → Option Value) :
    Exchange → Except ProviderError (Nat × HeaderMap × Option Value × Bool)
  | .failed isTimeout => .error (error (if isTimeout then "timeout" else "transport"))
  | .elapsed => .error (error "timeout")
  | .answered response =>
    if response.status ≠ 200 ∧ response.status ≠ 403 then
      .ok (response.status, response.headers, none, false)
    else
      match response.body MAX_BODY with
      | .error code => .error (error code)
      | .ok bytes =>
        if response.status = 403 then
          .ok (response.status, response.headers, none, (decode bytes).any secondaryLimit)
        else
          match decode bytes with
          | none => .error (error "malformed")
          | some value => .ok (response.status, response.headers, some value, false)

/-- A response that says that too much was asked. -/
def isLimited (status : Nat) (headers : HeaderMap) (secondary : Bool) : Bool :=
  secondary || status == 429 ||
    (status == 403 && (!(headers.getAll "retry-after").isEmpty ||
      header headers "x-ratelimit-remaining" == some "0"))

def Wire.send (w : Wire) (url : Url) (accept : String) : Wire where
  budget := { w.budget with requests := w.budget.requests + 1 }
  sent := w.sent ++ [(url, accept)]
  paused := w.paused

def Wire.sleep (w : Wire) (delay : Nat) : Wire :=
  { w with paused := w.paused ++ [⟨w.budget.requests, delay⟩] }

namespace Client

variable (client : Client)

/-- `url`. -/
def url (segments : List String) (query : List (String × String)) : Except ProviderError Url :=
  if segments.all safeSegment = false then .error (error "malformed")
  else
    match client.crate.withSegments client.origin segments with
    | none => .error (error "configuration")
    | some url => .ok (if query.isEmpty then url else client.crate.extendPairs url query)

/-- The attempts of `get_media` from `attempt` on. -/
def attempts (url : Url) (accept : String) :
    (left attempt : Nat) → Wire → Except ProviderError (HeaderMap × Value) × Wire
  | 0, _, w => (.error (error "unavailable"), w)
  | left + 1, attempt, w =>
    if w.budget.requests ≥ MAX_REQUESTS then (.error (error "limit"), w) else
    let w := w.send url accept
    match operation client.net.decode (client.net.server w.budget.requests) with
    | .error failure => (.error failure, w)
    | .ok (_, headers, some value, _) => (.ok (headers, value), w)
    | .ok (status, headers, none, secondary) =>
      let limited := isLimited status headers secondary
      if attempt < 2 ∧ (limited ∨ isServerError status) then
        match retryDelay (client.clock w.budget.requests) client.rfc2822 headers attempt limited with
        | .error failure => (.error failure, w)
        | .ok delay => attempts url accept left (attempt + 1) (w.sleep delay)
      else (.error (error (statusCode status limited)), w)

def getMedia (url : Url) (accept : String) (w : Wire) :
    Except ProviderError (HeaderMap × Value) × Wire :=
  client.attempts url accept 3 0 w

def get (url : Url) (w : Wire) : Except ProviderError (HeaderMap × Value) × Wire :=
  client.getMedia url "application/vnd.github+json" w

def object (segments : List String) (w : Wire) : Except ProviderError Value × Wire :=
  match client.url segments [] with
  | .error failure => (.error failure, w)
  | .ok url =>
    match client.get url w with
    | (.error failure, w) => (.error failure, w)
    | (.ok (_, value), w) =>
      if value.isObject = false then (.error (error "malformed"), w) else (.ok value, w)

end Client

/-! ## Pagination -/

/-- The address and the relations of one entry of a link header. -/
def linkEntry (entry : String) : Option (String × String) := do
  let (target, parameters) ← Text.splitOnce '>' (Text.trim entry)
  let target ← Text.stripPrefix "<" target
  let rel ← (Text.split ';' parameters).findSome? fun p => Text.stripPrefix "rel=" (Text.trim p)
  return (target, Text.trimMatches '"' rel)

/-- The relations contain `next`. -/
def listsNext (rel : String) : Bool := (Text.splitWhitespace rel).any (· == "next")

def mapOf (pairs : List (String × String)) : Std.ExtTreeMap String String :=
  Std.ExtTreeMap.ofList pairs

/-- The parameters of the current page with the page increased by one. -/
def expected (current : Url) : Option (Std.ExtTreeMap String String) :=
  let params := mapOf current.pairs
  (params["page"]?.bind Text.parseU64).map fun page => params.insert "page" (toString (page + 1))

/-- The checks of an entry that lists `next`. -/
def followed (crate : UrlCrate) (current : Url) (target : String) : Bool :=
  match crate.parse target, expected current with
  | some next, some expected =>
    next.sameOrigin current && next.path == current.path && next.username == "" &&
      next.password.isNone && next.fragment.isNone &&
      next.pairs.length == (mapOf next.pairs).size && mapOf next.pairs == expected
  | _, _ => false

/-- The entries of a link header: whether one of them lists `next`. -/
def linkEntries (crate : UrlCrate) (current : Url) :
    Bool → List String → Except ProviderError Bool
  | hasNext, [] => .ok hasNext
  | hasNext, entry :: entries =>
    match linkEntry entry with
    | none => .error (error "pagination")
    | some (target, rel) =>
      if listsNext rel then
        if followed crate current target then linkEntries crate current true entries
        else .error (error "pagination")
      else linkEntries crate current hasNext entries

def nextPage (crate : UrlCrate) (current : Url) (headers : HeaderMap) (length : Nat) :
    Except ProviderError Bool :=
  match headers.get "link" with
  | none => .ok (length == 100)
  | some value =>
    match value.toStr with
    | none => .error (error "pagination")
    | some link => linkEntries crate current false (Text.split ',' link)

/-! ## Lists -/

/-- A page that was fetched. -/
structure Page where
  url : Url
  headers : HeaderMap
  value : Value
  deriving DecidableEq

/-- The run of a list so far. -/
structure Progress where
  items : List Value
  success : Bool
  wire : Wire
  pages : List Page

namespace Client

variable (client : Client) (segments : List String) (filters : List (String × String))

def query (page : Nat) : List (String × String) :=
  filters ++ [("per_page", "100"), ("page", toString page)]

/-- What is done with a page that was fetched: whether the list goes on. -/
def receive (page : Nat) (p : Progress) (fetched : Page) : Progress × Except ProviderError Bool :=
  match fetched.value with
  | .array items =>
    let p := { p with success := true }
    if items.length > 100 then (p, .error (error "limit")) else
    let consumed := min items.length (MAX_ROWS - p.wire.budget.rows)
    let p := { p with
      items := p.items ++ items.take consumed
      wire := { p.wire with
        budget := { p.wire.budget with rows := p.wire.budget.rows + consumed } } }
    if consumed < items.length then (p, .error (error "limit"))
    else
      match nextPage client.crate fetched.url fetched.headers items.length with
      | .ok false => (p, .ok false)
      | .error failure => (p, .error failure)
      | .ok true => if page = MAX_PAGES then (p, .error (error "limit")) else (p, .ok true)
  | _ => (p, .error (error "malformed"))

/-- One turn of the page loop. -/
def turn (page : Nat) (p : Progress) : Progress × Except ProviderError Bool :=
  match client.url segments (query filters page) with
  | .error failure => (p, .error failure)
  | .ok url =>
    match client.get url p.wire with
    | (.error failure, wire) => ({ p with wire := wire }, .error failure)
    | (.ok (headers, value), wire) =>
      client.receive page { p with wire := wire, pages := p.pages ++ [⟨url, headers, value⟩] }
        ⟨url, headers, value⟩

/-- The page loop, from `page` on. -/
def pages : (left page : Nat) → Progress → Progress × Option ProviderError
  | 0, _, p => (p, none)
  | left + 1, page, p =>
    match client.turn segments filters page p with
    | (p, .error failure) => (p, some failure)
    | (p, .ok false) => (p, none)
    | (p, .ok true) => pages left (page + 1) p

/-- The whole run of `list`. -/
def run (w : Wire) : Progress × Option ProviderError :=
  client.pages segments filters MAX_PAGES 1 ⟨[], false, w, []⟩

def list (w : Wire) : Listing × Wire :=
  let (p, failure) := client.run segments filters w
  (⟨p.items, failure, p.success⟩, p.wire)

end Client

end Permesh.Github

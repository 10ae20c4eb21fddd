import Permesh.Core
import Permesh.Http
import Std.Data.ExtTreeMap

/-!
# Entra.Client — pages that name the next one

`client.rs` of the Entra provider. A page carries the address of the next page, which the server
chooses: `nextUrl` decides whether it is followed. The requests that were sent are kept beside the
budget, for the statements about runs.
-/

namespace Permesh.Entra

open Permesh.Json Permesh.Http

def MAX_BODY : Nat := 2 * 1024 * 1024
def MAX_PAGES : Nat := 100
def MAX_ROWS : Nat := 50000
def MAX_REQUESTS : Nat := 1000

/-- `error`. -/
def error (code : String) : ProviderError where
  code := code
  message :=
    match code with
    | "configuration" => "Invalid Entra provider configuration or credential."
    | "scope" => "Microsoft Graph tenant proof did not match the configured tenant."
    | "unauthorized" => "Microsoft Graph rejected the credential."
    | "forbidden" =>
      "Microsoft Graph denied the requested directory operation; review the documented read " ++
        "permissions."
    | "rate_limit" => "Microsoft Graph throttling exceeded the bounded retry policy."
    | "timeout" => "Entra collection exceeded its deadline."
    | "limit" => "Entra collection exceeded a response, page, record or request budget."
    | "pagination" => "Microsoft Graph returned unsupported or inconsistent pagination."
    | "malformed" => "Microsoft Graph returned malformed or conflicting directory observations."
    | _ => "Microsoft Graph request could not be completed."

/-! ## Objects -/

structure Object where
  id : String
  displayName : Option String
  userPrincipalName : Option String
  userType : Option String
  accountEnabled : Option Bool
  servicePrincipalType : Option String
  objectType : Option String
  deriving DecidableEq

/-- `uuid`. -/
def uuid (value : String) : Bool :=
  Text.len value == 36 && value.toList.zipIdx.all fun (c, i) =>
    if [8, 13, 18, 23].contains i then c == '-' else Text.isAsciiHexdigit c

/-- `Object::validate`: the object with its identifier in lower case. -/
def Object.validate (o : Object) : Except ProviderError Object :=
  if uuid o.id = false then .error (error "malformed")
  else if [o.displayName, o.userPrincipalName, o.userType, o.servicePrincipalType,
      o.objectType].any (·.any fun value => Text.len value > 4096) then .error (error "limit")
  else .ok { o with id := Text.lowercase o.id }

/-- The objects of a page are validated in order. -/
def validateAll : List Object → Except ProviderError (List Object)
  | [] => .ok []
  | o :: rest =>
    match o.validate with
    | .error failure => .error failure
    | .ok o =>
      match validateAll rest with
      | .error failure => .error failure
      | .ok rest => .ok (o :: rest)

structure Page where
  value : List Object
  next : Option String

/-! ## Requests -/

structure Budget where
  requests : Nat
  rows : Nat
  deriving DecidableEq

/-- The budget, with the addresses requested so far. -/
structure Wire where
  budget : Budget
  sent : List Url
  deriving DecidableEq

structure Listing where
  rows : List Object
  failure : Option String

/-- The provider with what lies outside of it. -/
structure Client where
  origin : Url
  token : String
  crate : UrlCrate
  net : Net
  /-- `serde_json::from_slice::<Page>`, which rejects a field that occurs twice. -/
  decodePage : List UInt8 → Option Page

/-- The origin that `new` sets. -/
def graphOrigin : Url :=
  ⟨"https://graph.microsoft.com/v1.0/", some ("https", "graph.microsoft.com", 443), "", none,
    "/v1.0/", [], none⟩

namespace Client

variable (client : Client)

def url (path : String) (select : Option String) : Except ProviderError Url :=
  match client.crate.join client.origin path with
  | none => .error (error "configuration")
  | some url =>
    match select with
    | none => .ok url
    | some select => .ok (client.crate.extendPairs url [("$select", select), ("$top", "100")])

/-- The page of a successful response. -/
def page (bytes : List UInt8) : Except ProviderError Page :=
  match client.net.decode bytes with
  | none => .error (error "malformed")
  | some value =>
    if value.reflects client.token then .error (error "malformed")
    else
      match client.decodePage bytes with
      | none => .error (error "malformed")
      | some page =>
        if page.value.length > 999 then .error (error "limit")
        else
          match validateAll page.value with
          | .error failure => .error failure
          | .ok value => .ok { page with value := value }

/-- The attempts of `request` from `attempt` on. -/
def attempts (url : Url) : (left attempt : Nat) → Wire → Except ProviderError Page × Wire
  | 0, _, w => (.error (error "transport"), w)
  | left + 1, attempt, w =>
    let w := { w with budget := { w.budget with requests := w.budget.requests + 1 } }
    if w.budget.requests > MAX_REQUESTS then (.error (error "limit"), w) else
    let w := { w with sent := w.sent ++ [url] }
    match client.net.server w.budget.requests with
    | .failed _ => (.error (error "transport"), w)
    | .elapsed => (.error (error "timeout"), w)
    | .answered response =>
      match response.body MAX_BODY with
      | .error code => (.error (error code), w)
      | .ok bytes =>
        if retryable response.status then
          match noRetry 10 attempt response.status response.headers with
          | some code => (.error (error code), w)
          | none => attempts url left (attempt + 1) w
        else if isSuccess response.status = false then
          (.error (error (match response.status with
            | 401 => "unauthorized"
            | 403 => "forbidden"
            | _ => "transport")), w)
        else (client.page bytes, w)

def request (url : Url) (w : Wire) : Except ProviderError Page × Wire :=
  client.attempts url 3 0 w

end Client

/-! ## Pagination -/

def mapOf (pairs : List (String × String)) : Std.ExtTreeMap String String :=
  Std.ExtTreeMap.ofList pairs

/-- The keys of the query that a next link may have. -/
def allowed (name : String) : Bool := ["$select", "$top", "$skiptoken"].contains name

/-- The checks of a next link that could be parsed. -/
def follows (initial url : Url) : Bool :=
  let query := mapOf url.pairs
  url.sameOrigin initial && url.path == initial.path && url.username == "" &&
    url.password.isNone && url.fragment.isNone &&
    (url.pairs.all (allowed ·.1) && decide (url.pairs.map Prod.fst).Nodup) &&
    !(query.contains "$select" && !initial.pairs.any (·.1 == "$select")) &&
    (initial.pairs.all fun pair => query[pair.1]? == some pair.2) &&
    (query["$skiptoken"]?.any fun token => !token.isEmpty) &&
    query["$top"]?.all fun top => (Text.parseU64 top).any fun n => n != 0 && n ≤ 999

def nextUrl (crate : UrlCrate) (initial : Url) (next : String) : Except ProviderError Url :=
  if Text.len next > 16384 then .error (error "pagination")
  else
    match crate.parse next with
    | none => .error (error "pagination")
    | some url => if follows initial url then .ok url else .error (error "pagination")

/-- The run of a list so far. -/
structure Progress where
  rows : List Object
  next : Url
  seenUrls : Std.ExtTreeSet String
  seenIds : Std.ExtTreeSet String
  wire : Wire

/-- The rows of a page are taken in one after another. -/
def takeRows (p : Progress) : List Object → Progress × Except ProviderError Unit
  | [] => (p, .ok ())
  | row :: rest =>
    let p := { p with
      wire := { p.wire with budget := { p.wire.budget with rows := p.wire.budget.rows + 1 } } }
    if p.wire.budget.rows > MAX_ROWS then (p, .error (error "limit"))
    else if row.id ∈ p.seenIds then (p, .error (error "pagination"))
    else takeRows { p with rows := p.rows ++ [row], seenIds := p.seenIds.insert row.id } rest

namespace Client

variable (client : Client) (initial : Url)

/-- One turn of the page loop: whether the list goes on. -/
def turn (p : Progress) : Progress × Except ProviderError Bool :=
  if p.next.href ∈ p.seenUrls then (p, .error (error "pagination")) else
  let p := { p with seenUrls := p.seenUrls.insert p.next.href }
  match client.request p.next p.wire with
  | (.error failure, wire) => ({ p with wire := wire }, .error failure)
  | (.ok page, wire) =>
    match takeRows { p with wire := wire } page.value with
    | (p, .error failure) => (p, .error failure)
    | (p, .ok ()) =>
      match page.next with
      | none => (p, .ok false)
      | some next =>
        match nextUrl client.crate initial next with
        | .error failure => (p, .error failure)
        | .ok url => ({ p with next := url }, .ok true)

/-- The page loop. -/
def pages : (left : Nat) → Progress → Progress × Except ProviderError Unit
  | 0, p => (p, .error (error "limit"))
  | left + 1, p =>
    match client.turn initial p with
    | (p, .error failure) => (p, .error failure)
    | (p, .ok false) => (p, .ok ())
    | (p, .ok true) => pages left p

/-- The code that a failed list reports. -/
def failureCode (failure : ProviderError) : String :=
  if ["unauthorized", "forbidden", "rate_limit", "limit", "pagination", "malformed",
      "timeout"].contains failure.code then failure.code else "transport"

def listing (w : Wire) : Listing × Wire :=
  let (p, result) := client.pages initial MAX_PAGES ⟨[], initial, ∅, ∅, w⟩
  (⟨p.rows, match result with
    | .error failure => some (failureCode failure)
    | .ok () => none⟩, p.wire)

end Client

end Permesh.Entra

import Permesh.Core
import Permesh.Http

/-!
# Cloudflare.Client — requests and lists

`client.rs` of the Cloudflare provider. A list is read page by page; the totals that a page reports
are carried to the pages behind it, and a page that occurred before ends the list with an error.
-/

namespace Permesh.Cloudflare

open Permesh.Json Permesh.Http

def MAX_BODY : Nat := 2 * 1024 * 1024
def MAX_PAGES : Nat := 100
def MAX_ROWS : Nat := 20000
def MAX_REQUESTS : Nat := 2000

/-- `error`. -/
def error (code : String) : ProviderError where
  code := code
  message :=
    match code with
    | "configuration" => "Invalid Cloudflare provider configuration."
    | "unauthorized" => "Cloudflare rejected the credential."
    | "forbidden" =>
      "Cloudflare denied access; check Account Settings Read and Zone Read scope."
    | "rate_limit" => "Cloudflare rate limit exceeds the bounded retry budget; retry later."
    | "timeout" => "Cloudflare collection exceeded its deadline."
    | "limit" => "Cloudflare collection exceeded a response, record, page or request limit."
    | "pagination" => "Cloudflare returned inconsistent pagination."
    | "scope" => "Cloudflare returned a resource outside the configured account."
    | "malformed" => "Cloudflare returned malformed or conflicting access metadata."
    | "unsupported_policy" =>
      "Cloudflare deny, legacy or unsupported policy semantics prevented safe normalization."
    | _ => "Cloudflare request could not be completed."

/-- `category`. -/
def category (code : String) : String :=
  if ["unauthorized", "forbidden", "rate_limit", "timeout", "limit", "pagination"].contains code
  then code else "malformed"

structure Budget where
  requests : Nat
  rows : Nat
  deriving DecidableEq

structure Listing where
  rows : List Value
  failure : Option String

/-- The provider with what lies outside of it. -/
structure Client where
  id : String
  accountId : String
  origin : Url
  crate : UrlCrate
  net : Net
  /-- `Value::to_string`. -/
  render : Value → String

namespace Client

variable (client : Client)

/-! ## Requests -/

/-- The address of a request. -/
def url (path : String) (query : List (String × String)) : Except ProviderError Url :=
  match client.crate.join client.origin path with
  | none => .error (error "configuration")
  | some url => .ok (if query.isEmpty then url else client.crate.extendPairs url query)

/-- The attempts of `request` from `attempt` on. -/
def attempts : (left attempt : Nat) → Budget → Except ProviderError Value × Budget
  | 0, _, budget => (.error (error "transport"), budget)
  | left + 1, attempt, budget =>
    let budget := { budget with requests := budget.requests + 1 }
    if budget.requests > MAX_REQUESTS then (.error (error "limit"), budget) else
    match client.net.server budget.requests with
    | .failed _ => (.error (error "transport"), budget)
    | .elapsed => (.error (error "timeout"), budget)
    | .answered response =>
      match response.body MAX_BODY with
      | .error code => (.error (error code), budget)
      | .ok bytes =>
        if retryable response.status then
          match noRetry 30 attempt response.status response.headers with
          | some code => (.error (error code), budget)
          | none => attempts left (attempt + 1) budget
        else if isSuccess response.status = false then
          (.error (error (match response.status with
            | 401 => "unauthorized"
            | 403 => "forbidden"
            | _ => "transport")), budget)
        else
          match client.net.decode bytes with
          | none => (.error (error "malformed"), budget)
          | some value =>
            if (value.get "success").bind Value.asBool = some true then (.ok value, budget)
            else (.error (error "malformed"), budget)

def request (path : String) (query : List (String × String)) (budget : Budget) :
    Except ProviderError Value × Budget :=
  match client.url path query with
  | .error failure => (.error failure, budget)
  | .ok _ => client.attempts 3 0 budget

end Client

/-! ## Lists -/

/-- The run of a list so far. -/
structure Progress where
  rows : List Value
  pages : List (List String)
  knownTotal : Option Nat
  knownPages : Option Nat
  budget : Budget

/-- The numbers of a page that must be as expected where they are given. -/
def checkInfo (info : Value) (page count : Nat) : Bool :=
  info.isObject && [("page", page), ("per_page", 50), ("count", count)].all fun (key, expected) =>
    (info.get key).all fun value => value.asU64 == some expected

/-- A total that a page reports must be the one that was reported before. -/
def total (info : Value) (key : String) (previous : Option Nat) :
    Except ProviderError (Option Nat) :=
  match info.get key with
  | none => .ok previous
  | some value =>
    match value.asU64 with
    | none => .error (error "pagination")
    | some n =>
      if previous.any (· != n) then .error (error "pagination") else .ok (some n)

/-- The totals that are known behind a page. -/
def totals (p : Progress) (response : Value) (page count : Nat) :
    Except ProviderError (Option Nat × Option Nat) :=
  match response.get "result_info" with
  | none => .ok (p.knownTotal, p.knownPages)
  | some info => do
    if checkInfo info page count = false then .error (error "pagination")
    return (← total info "total_count" p.knownTotal, ← total info "total_pages" p.knownPages)

/-- Whether the number of rows says that there are more. -/
def byCount (received : Nat) : Option Nat → Except ProviderError (Option Bool)
  | none => .ok none
  | some total =>
    if total < received then .error (error "pagination") else .ok (some (decide (total > received)))

/-- Whether the number of pages says that there are more. -/
def byPages (page received : Nat) : Option Nat → Except ProviderError (Option Bool)
  | none => .ok none
  | some 0 => if page ≠ 1 ∨ received ≠ 0 then .error (error "pagination") else .ok (some false)
  | some total =>
    if total < page then .error (error "pagination") else .ok (some (decide (total > page)))

/-- Whether there are more pages behind one of `count` rows, the `received` rows included. -/
def more (page received count : Nat) (knownTotal knownPages : Option Nat) :
    Except ProviderError Bool := do
  let counted ← byCount received knownTotal
  let paged ← byPages page received knownPages
  match counted, paged with
  | some a, some b => if a ≠ b then .error (error "pagination")
  | _, _ => pure ()
  let more := (counted.or paged).getD (count == 50)
  if more ∧ count = 0 then .error (error "pagination") else .ok more

namespace Client

variable (client : Client)

/-- What is done with a response: whether the list goes on. -/
def receive (page : Nat) (p : Progress) (response : Value) :
    Progress × Except ProviderError Bool :=
  match (response.get "result").bind Value.asArray with
  | none => (p, .error (error "malformed"))
  | some values =>
    if values.length > 50 then (p, .error (error "limit"))
    else if values ≠ [] ∧ values.map client.render ∈ p.pages then (p, .error (error "pagination"))
    else
      let p := { p with
        pages := if values.isEmpty then p.pages else p.pages ++ [values.map client.render]
        budget := { p.budget with rows := p.budget.rows + values.length } }
      if p.budget.rows > MAX_ROWS then (p, .error (error "limit"))
      else
        match totals p response page values.length with
        | .error failure => (p, .error failure)
        | .ok (knownTotal, knownPages) =>
          match more page (p.rows.length + values.length) values.length knownTotal knownPages with
          | .error failure => (p, .error failure)
          | .ok more => ({ p with
              rows := p.rows ++ values
              knownTotal := knownTotal
              knownPages := knownPages }, .ok more)

/-- The page loop, from `page` on. -/
def pages (path : String) (filters : List (String × String)) :
    (left page : Nat) → Progress → Progress × Option ProviderError
  | 0, _, p => (p, some (error "limit"))
  | left + 1, page, p =>
    match client.request path (filters ++ [("per_page", "50"), ("page", toString page)])
      p.budget with
    | (.error failure, budget) => ({ p with budget := budget }, some failure)
    | (.ok response, budget) =>
      match client.receive page { p with budget := budget } response with
      | (p, .error failure) => (p, some failure)
      | (p, .ok false) => (p, none)
      | (p, .ok true) => pages path filters left (page + 1) p

def listing (path : String) (filters : List (String × String)) (budget : Budget) :
    Listing × Budget :=
  let (p, failure) := client.pages path filters MAX_PAGES 1 ⟨[], [], none, none, budget⟩
  (⟨p.rows, failure.map (category ·.code)⟩, p.budget)

end Client

end Permesh.Cloudflare

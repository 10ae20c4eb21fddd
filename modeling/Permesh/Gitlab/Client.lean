import Permesh.Gitlab.Records
import Permesh.Http

/-!
# Gitlab.Client — requests, pages and lists

`client.rs` of the GitLab provider. A list is read page by page up to `MAX_PAGES`; what a page says
about further pages is decided by `nextPage` from the headers of this page alone. The pages of a
run are kept beside it, for the statements about runs.
-/

namespace Permesh.Gitlab

open Permesh.Json Permesh.Http

def MAX_BODY : Nat := 2 * 1024 * 1024
def MAX_TOTAL_BODY : Nat := 32 * 1024 * 1024
def MAX_PAGES : Nat := 100
def MAX_REQUESTS : Nat := 2000

structure Budget where
  requests : Nat
  rows : Nat
  bytes : Nat
  deriving DecidableEq, Repr

structure Listing where
  rows : List Value
  failure : Option ProviderError

/-- The provider with what lies outside of it. -/
structure Client where
  origin : Url
  token : String
  crate : UrlCrate
  net : Net

namespace Client

variable (client : Client)

/-- `url`. -/
def url (path : String) (query : List (String × String)) : Except ProviderError Url :=
  match client.crate.join client.origin s!"api/v4/{path}" with
  | none => .error (error "configuration")
  | some url => .ok (client.crate.extendPairs url query)

/-- The attempts of `request` from `attempt` on. -/
def attempts : (left attempt : Nat) → Budget → Except ProviderError (Value × HeaderMap) × Budget
  | 0, _, budget => (.error (error "transport"), budget)
  | left + 1, attempt, budget =>
    let budget := { budget with requests := budget.requests + 1 }
    if budget.requests > MAX_REQUESTS then (.error (error "limit"), budget) else
    match client.net.server budget.requests with
    | .failed _ => (.error (error "transport"), budget)
    | .elapsed => (.error (error "timeout"), budget)
    | .answered response =>
      match response.body MAX_BODY with
      | .error code => (.error (error code), budget)
      | .ok bytes =>
        let budget := { budget with bytes := budget.bytes + bytes.length }
        if budget.bytes > MAX_TOTAL_BODY then (.error (error "limit"), budget)
        else if retryable response.status then
          match noRetry 5 attempt response.status response.headers with
          | some code => (.error (error code), budget)
          | none => attempts left (attempt + 1) budget
        else if isSuccess response.status = false then
          (.error (error (match response.status with
            | 401 => "unauthorized"
            | 403 | 404 => "forbidden"
            | _ => "transport")), budget)
        else
          match client.net.decode bytes with
          | none => (.error (error "malformed"), budget)
          | some value =>
            if value.reflects client.token then (.error (error "malformed"), budget)
            else (.ok (value, response.headers), budget)

def request (path : String) (query : List (String × String)) (budget : Budget) :
    Except ProviderError (Value × HeaderMap) × Budget :=
  match client.url path query with
  | .error failure => (.error failure, budget)
  | .ok _ => client.attempts 3 0 budget

end Client

/-! ## Pagination -/

/-- `number`: a header that occurs at most once and is empty or a canonical number. -/
def number (headers : HeaderMap) (name : String) :
    Except ProviderError (Option (Option Nat)) :=
  match headers.getAll name with
  | [] => .ok none
  | [value] =>
    match value.toStr with
    | none => .error (error "pagination")
    | some text =>
      if text.isEmpty then .ok (some none)
      else
        match (Text.parseU64 text).filter fun n => toString n == text with
        | some n => .ok (some (some n))
        | none => .error (error "pagination")
  | _ => .error (error "pagination")

/-- The address and the relation of one item of a link header. -/
def linkItem (crate : UrlCrate) (item : String) : Option (Url × String) := do
  let (destination, relation) ← Text.splitOnce ';' (Text.trim item)
  let inner ← Text.stripPrefix "<" (Text.trim destination)
  let url ← crate.parse (← Text.stripSuffix ">" inner)
  let rel ← Text.stripPrefix "rel=\"" (Text.trim relation)
  return (url, ← Text.stripSuffix "\"" rel)

/-- The page that a linked address asks for. -/
def linkedPage (url : Url) : Option Nat :=
  (((url.pairs.find? (·.1 == "page")).bind fun pair => Text.parseU64 pair.2)).filter (0 < ·)

/-- The pairs other than the page, as a map. -/
def filtersOf (url : Url) : Std.ExtTreeMap String String :=
  Std.ExtTreeMap.ofList (url.pairs.filter (·.1 != "page"))

/-- One item of a link header: whether it is a link to the next page. -/
def linkNext (crate : UrlCrate) (current : Url) (page : Nat) (seen : Bool) (item : String) :
    Except ProviderError Bool :=
  match linkItem crate item with
  | none => .error (error "pagination")
  | some (url, rel) =>
    if !(["next", "prev", "first", "last"].contains rel) || !url.sameOrigin current ||
        url.path != current.path || url.username != current.username || url.password.isSome ||
        url.fragment.isSome then .error (error "pagination")
    else if ¬(url.pairs.map Prod.fst).Nodup then .error (error "pagination")
    else
      match linkedPage url with
      | none => .error (error "pagination")
      | some linked =>
        if filtersOf current ≠ filtersOf url then .error (error "pagination")
        else if rel = "next" then
          if seen ∨ linked ≠ page + 1 then .error (error "pagination") else .ok true
        else .ok seen

/-- The items of a link header value. -/
def linkItems (crate : UrlCrate) (current : Url) (page : Nat) :
    Bool → List String → Except ProviderError Bool
  | seen, [] => .ok seen
  | seen, item :: items =>
    match linkNext crate current page seen item with
    | .error failure => .error failure
    | .ok seen => linkItems crate current page seen items

/-- All link header values: whether one of them links to the next page. -/
def linkValues (crate : UrlCrate) (current : Url) (page : Nat) :
    Bool → List HeaderValue → Except ProviderError Bool
  | seen, [] => .ok seen
  | seen, value :: values =>
    match value.toStr with
    | none => .error (error "pagination")
    | some text =>
      match linkItems crate current page seen (Text.split ',' text) with
      | .error failure => .error failure
      | .ok seen => linkValues crate current page seen values

/-- `x-next-page`: whether there is a next page. -/
def headerNext (page : Nat) : Option (Option Nat) → Except ProviderError (Option Bool)
  | none => .ok none
  | some none => .ok (some false)
  | some (some next) =>
    if next = page + 1 then .ok (some true) else .error (error "pagination")

/-- `x-total-pages`: whether there is a next page. -/
def totalNext (page count : Nat) : Option (Option Nat) → Except ProviderError (Option Bool)
  | none => .ok none
  | some none => .error (error "pagination")
  | some (some total) =>
    if total = 0 ∧ page = 1 ∧ count = 0 then .ok (some false)
    else if page ≤ total then .ok (some (decide (page < total)))
    else .error (error "pagination")

/-- Two signals that contradict each other. -/
def clash : Option Bool → Option Bool → Bool
  | some a, some b => a != b
  | _, _ => false

def nextPage (crate : UrlCrate) (headers : HeaderMap) (current : Url) (page count : Nat) :
    Except ProviderError Bool := do
  let pageNumber ← number headers "x-page"
  if pageNumber.any (· != some page) then .error (error "pagination")
  let perPage ← number headers "x-per-page"
  if perPage.any (· != some 100) then .error (error "pagination")
  let header ← headerNext page (← number headers "x-next-page")
  let total ← totalNext page count (← number headers "x-total-pages")
  let linked ← linkValues crate current page false (headers.getAll "link")
  let linkNext := if linked then some true else none
  if clash header linkNext then .error (error "pagination")
  let more := header.or linkNext
  if clash more total then .error (error "pagination")
  return (more.or total).getD (count == 100)

/-! ## Lists -/

/-- The run of a list so far, with every page that was fetched. -/
structure Progress where
  rows : List Value
  ids : Std.ExtTreeSet Nat
  budget : Budget
  pages : List (Value × HeaderMap)

/-- The rows of a page: each has an identifier that no row before it has. -/
def enlist (p : Progress) : List Value → Progress × Except ProviderError Unit
  | [] => (p, .ok ())
  | item :: items =>
    match nativeId item with
    | .error failure => (p, .error failure)
    | .ok id =>
      if id ∈ p.ids then ({ p with rows := [] }, .error (error "malformed"))
      else enlist { p with ids := p.ids.insert id } items

/-- `as_array` of at most 100 items. -/
def pageItems (value : Value) : Option (List Value) :=
  value.asArray.filter fun items => items.length ≤ 100

namespace Client

variable (client : Client) (path : String) (filters : List (String × String))

def query (page : Nat) : List (String × String) :=
  filters ++ [("per_page", "100"), ("page", toString page)]

/-- What is done with a page that was fetched: whether the list goes on. -/
def receive (page : Nat) (p : Progress) (value : Value) (headers : HeaderMap) :
    Progress × Except ProviderError Bool :=
  match pageItems value with
  | none => (p, .error (error "malformed"))
  | some items =>
    let p := { p with budget := { p.budget with rows := p.budget.rows + items.length } }
    if p.budget.rows > MAX_ROWS then (p, .error (error "limit")) else
    match client.url path (query filters page) with
    | .error failure => (p, .error failure)
    | .ok current =>
      match nextPage client.crate headers current page items.length with
      | .error failure => (p, .error failure)
      | .ok next =>
        match enlist p items with
        | (p, .error failure) => (p, .error failure)
        | (p, .ok ()) =>
          let p := { p with rows := p.rows ++ items }
          if next = false then (p, .ok false)
          else if items.isEmpty then (p, .error (error "pagination"))
          else (p, .ok true)

/-- One turn of the page loop. -/
def turn (page : Nat) (p : Progress) : Progress × Except ProviderError Bool :=
  match client.request path (query filters page) p.budget with
  | (.error failure, budget) => ({ p with budget := budget }, .error failure)
  | (.ok (value, headers), budget) =>
    client.receive path filters page
      { p with budget := budget, pages := p.pages ++ [(value, headers)] } value headers

/-- The page loop, from `page` on. -/
def pages : (left page : Nat) → Progress → Progress × Except ProviderError Unit
  | 0, _, p => (p, .error (error "limit"))
  | left + 1, page, p =>
    match client.turn path filters page p with
    | (p, .error failure) => (p, .error failure)
    | (p, .ok false) => (p, .ok ())
    | (p, .ok true) => pages left (page + 1) p

/-- The whole run of `listing`. -/
def run (budget : Budget) : Progress × Except ProviderError Unit :=
  client.pages path filters MAX_PAGES 1 ⟨[], ∅, budget, []⟩

def listing (budget : Budget) : Listing × Budget :=
  let (p, result) := client.run path filters budget
  (⟨p.rows, match result with
    | .error failure => some failure
    | .ok () => none⟩, p.budget)

end Client

end Permesh.Gitlab

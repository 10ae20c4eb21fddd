import Permesh.Google.Client
import Permesh.Lib.Maps

/-!
# Google.Records — users and the collection

`record` and `collect` of the Google provider. A page is one list of users; a row whose identifier
occurred before takes back what the first one has put in. What the pages brought is kept beside the
collection, for the statements about runs.
-/

namespace Permesh.Google

open Permesh.Json

def MAX_PAGES : Nat := 200
def MAX_ROWS : Nat := 100000
def PAGE_SIZE : Nat := 500

def VISIBILITY : List String := [
  "Google Directory users.list is an identity source for the configured customer. Collection is " ++
    "not transactional; directory visibility depends on the delegated administrator and OAuth " ++
    "scope.",
  "Only primaryEmail is directory-attested for exact email correlation; aliases, secondary and " ++
    "recovery emails are excluded. This is not proof of mailbox ownership or employee status.",
  "Identity kind and affiliation are unknown. Archived means inactive; otherwise suspended means " ++
    "suspended. Active means both suspended and archived are explicitly false; incomplete status " ++
    "evidence remains unknown. Deleted users, groups, memberships, resources and grants are not " ++
    "enumerated.",
  "OAuth access tokens are supplied directly or obtained once per invocation from the configured " ++
    "refresh credential; no tokens are persisted. Health checks probe at most one user and do not " ++
    "establish complete directory visibility."]

/-! ## Rows -/

/-- `users`: the rows of a page. -/
def users (value : Value) : Except ProviderError (List Value) :=
  if value.isObject = false then .error (error "malformed")
  else
    match value.get "users" with
    | none => .ok []
    | some (.array users) => .ok users
    | some _ => .error (error "malformed")

/-- `valid_email`. -/
def validEmail (value : String) : Bool :=
  Text.len value ≤ 320 && !value.toList.any (fun c => Text.isControl c || Text.isWhitespace c) &&
    (Text.splitOnce '@' value).any fun (before, domain) =>
      !before.isEmpty && !domain.isEmpty && !domain.toList.contains '@'

/-- The status that the two flags of a user stand for. -/
def statusOf (suspended archived : Option Bool) (malformed : Bool) : IdentityStatus :=
  if archived = some true then .inactive
  else if suspended = some true then .suspended
  else if !malformed ∧ suspended = some false ∧ archived = some false then .active
  else .unknown

/-- `record`: the account and the identity of a user, and whether a flag was malformed. -/
def GoogleProvider.record (provider : GoogleProvider) (value : Value) :
    Except ProviderError (Account × Identity × Bool) :=
  match ((value.get "id").bind Value.asStr).filter fun v =>
    !v.isEmpty && Text.len v ≤ 128 && v.toList.all Text.isAsciiAlphanumeric with
  | none => .error (error "malformed")
  | some id =>
    if (value.get "customerId").bind Value.asStr ≠ some provider.customerId then
      .error (error "customer")
    else
      match ((value.get "primaryEmail").bind Value.asStr).filter validEmail with
      | none => .error (error "malformed")
      | some email =>
        let identityId := s!"google:{provider.customerId}:{id}"
        if Text.contains provider.token id || Text.contains provider.token email ||
            Text.contains provider.token identityId then .error (error "malformed")
        else
          let suspended := (value.get "suspended").bind Value.asBool
          let archived := (value.get "archived").bind Value.asBool
          let malformed := ["suspended", "archived"].any fun key =>
            (value.get key).any fun v => v.asBool.isNone
          let status := statusOf suspended archived malformed
          .ok ({
            key := ⟨provider.id, id⟩
            login := email
            kind := .unknown
            affiliation := .unknown
            status := status
            verifiedEmails := [email] }, {
            id := identityId
            kind := .unknown
            affiliation := .unknown
            status := status
            verifiedEmails := [email] }, malformed)

/-! ## The collection -/

/-- `fail`: a limitation is named once. -/
def fail (s : Snapshot) (failure : ProviderError) : Snapshot :=
  { s with
    complete := false
    limitations :=
      if failure.message ∈ s.limitations then s.limitations
      else s.limitations ++ [failure.message] }

/-- The identifier of a row, whatever the row is. -/
def rawId (row : Value) : Option String := (row.get "id").bind Value.asStr

/-- The collection so far. -/
structure Progress where
  snapshot : Snapshot
  records : Std.ExtTreeMap String (Account × Identity)
  ids : Std.ExtTreeSet String
  tokens : Std.ExtTreeSet String
  token : Option String
  rows : Nat
  wire : Wire
  /-- The outcome of each page that was asked for. -/
  outcomes : List (Except ProviderError Value)

/-- The snapshot of the records. -/
def Progress.graph (p : Progress) : Snapshot :=
  { p.snapshot with
    accounts := p.snapshot.accounts ++ (Lib.values p.records).map Prod.fst
    identities := p.snapshot.identities ++ (Lib.values p.records).map Prod.snd }

/-- How a page ends. -/
inductive Turn where
  | fails (failure : ProviderError)
  | stops
  | continues

namespace GoogleProvider

variable (provider : GoogleProvider)

/-- One row. -/
def takeRow (p : Progress) (row : Value) : Progress :=
  let seen := (rawId row).filter (· ∈ p.ids)
  let p := match rawId row with
    | some id => { p with ids := p.ids.insert id }
    | none => p
  match seen with
  | some id => { p with
      records := p.records.erase id
      snapshot := fail p.snapshot (error "duplicate") }
  | none =>
    match provider.record row with
    | .error failure => { p with snapshot := fail p.snapshot failure }
    | .ok (account, identity, malformed) => { p with
        records := p.records.insert account.key.id (account, identity)
        snapshot := if malformed then fail p.snapshot (error "malformed") else p.snapshot }

/-- A token that may be sent. -/
def goodToken (token : String) : Bool :=
  !token.isEmpty && Text.len token ≤ 4096 && !token.toList.any Text.isControl

/-- What is done with the rows of a page: whether there is another page. -/
def receive (page : Nat) (p : Progress) (values : Value) (users : List Value) : Progress × Turn :=
  let p := (users.take (min PAGE_SIZE (MAX_ROWS - p.rows))).foldl provider.takeRow p
  let p := { p with rows := p.rows + users.length }
  if users.length > PAGE_SIZE ∨ p.rows > MAX_ROWS then
    ({ p with snapshot := fail p.snapshot (error "limit") }, .stops)
  else
    match values.get "nextPageToken" with
    | none => (p, .stops)
    | some next =>
      match next.asStr.filter fun token => goodToken token && token ∉ p.tokens with
      | none => ({ p with snapshot := fail p.snapshot (error "pagination") }, .stops)
      | some token =>
        let p := { p with tokens := p.tokens.insert token, token := some token }
        if page + 1 = MAX_PAGES ∨ p.rows ≥ MAX_ROWS then
          ({ p with snapshot := fail p.snapshot (error "limit") }, .stops)
        else (p, .continues)

/-- One turn of the page loop. A failure on the first page is one of the operation. -/
def turn (page : Nat) (p : Progress) : Progress × Turn :=
  let (result, wire) := provider.page p.token PAGE_SIZE p.wire
  let p := { p with wire := wire, outcomes := p.outcomes ++ [result] }
  let listed : Except ProviderError (Value × List Value) := do
    let values ← result
    return (values, ← users values)
  match listed with
  | .error failure =>
    if page = 0 then (p, .fails failure)
    else ({ p with snapshot := fail p.snapshot failure }, .stops)
  | .ok (values, users) => provider.receive page p values users

/-- The page loop, from `page` on. -/
def pages : (left page : Nat) → Progress → Except ProviderError Progress
  | 0, _, p => .ok p
  | left + 1, page, p =>
    match provider.turn page p with
    | (_, .fails failure) => .error failure
    | (p, .stops) => .ok p
    | (p, .continues) => pages left (page + 1) p

/-- The collection before the first page. -/
def start : Progress where
  snapshot := { Snapshot.new provider.id with limitations := VISIBILITY }
  records := ∅
  ids := ∅
  tokens := ∅
  token := none
  rows := 0
  wire := ⟨0, []⟩
  outcomes := []

/-- `collect` up to the last page. -/
def gather : Except ProviderError Progress := provider.pages MAX_PAGES 0 provider.start

def collect (core : Core) : Except ProviderError Snapshot :=
  match provider.gather with
  | .error failure => .error failure
  | .ok p =>
    let s := core.sort p.graph
    if core.validateSnapshot s = false then .error (error "malformed") else .ok s

end GoogleProvider

end Permesh.Google

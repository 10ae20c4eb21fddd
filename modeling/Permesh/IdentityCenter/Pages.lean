import Permesh.IdentityCenter.Records
import Permesh.Lib.Loop

/-!
# IdentityCenter.Pages — the lists of the services

`Pager` and `fetch!` of `discovery.rs`. A list is read page by page, each asked for with the token of
the page before it. Whatever the service answers, the page loop ends (`fetch_ends`): what it has
fetched is defined by that. The requests are kept with their answers, for the statements about runs.
-/

namespace Permesh.IdentityCenter

open Permesh.Aws (Answer CallerIdentity serviceCode)
open Permesh.Lib (loop loop_ends)

/-! ## Services -/

/-- The operations that list something, with their arguments. -/
inductive Query where
  | instances
  | users (identityStoreId : String)
  | groups (identityStoreId : String)
  | groupMemberships (identityStoreId groupId : String)
  | accounts
  | permissionSets (instanceArn accountId : String)
  | accountAssignments (instanceArn accountId permissionSetArn : String)
  deriving DecidableEq, Repr

namespace Query

@[reducible] def Row : Query → Type
  | instances => InstanceMetadata
  | users _ => StoreUser
  | groups _ => StoreGroup
  | groupMemberships _ _ => GroupMembership
  | accounts => OrganizationAccount
  | permissionSets _ _ => String
  | accountAssignments _ _ _ => AccountAssignment

/-- The page size that is asked for. -/
def maxResults : Query → Nat
  | accounts => 20
  | _ => 100

end Query

structure PageRequest where
  nextToken : Option String
  maxResults : Nat
  deriving DecidableEq, Repr

structure Page (α : Type) where
  rows : List α
  nextToken : Option String

/-- A request for a page with its answer. -/
abbrev Exchange (α : Type) := PageRequest × Answer (Page α)

/-- What the services answer to each request, given the number of requests before it. -/
structure Services where
  getCallerIdentity : Answer CallerIdentity
  list : Nat → (q : Query) → PageRequest → Answer (Page q.Row)
  describePermissionSet :
    Nat → (instanceArn permissionSetArn : String) → Answer (Option PermissionSet)

/-! ## The pager -/

structure Pager where
  token : Option String
  seen : Std.ExtTreeSet String
  pages : Nat

namespace Pager

/-- `Pager::default`. -/
def start : Pager := ⟨none, ∅, 0⟩

/-- A token that may be sent back. -/
def validToken (v : String) : Bool :=
  !v.isEmpty && Text.len v ≤ 4096 && !v.toList.any Text.isControl

/-- `Pager::advance`: whether there is another page. -/
def advance (pager : Pager) (token : Option String) : Pager × Except ProviderError Bool :=
  let pager := { pager with pages := pager.pages + 1 }
  match token with
  | none => (pager, .ok false)
  | some v =>
    if validToken v = true ∧ v ∉ pager.seen then
      let pager := { pager with seen := pager.seen.insert v }
      if pager.pages ≥ MAX_PAGES then (pager, .error (error "limit"))
      else ({ pager with token := some v }, .ok true)
    else (pager, .error (error "pagination"))

/-- A pager goes on for less than `MAX_PAGES` pages. -/
theorem advance_goes (pager : Pager) (token : Option String)
    (h : (pager.advance token).2 = .ok true) :
    (pager.advance token).1.pages = pager.pages + 1 ∧
      (pager.advance token).1.pages < MAX_PAGES := by
  unfold advance at h ⊢
  split at h
  · cases h
  · dsimp only at h ⊢
    split at h
    case isTrue valid =>
      rw [if_pos valid]
      split at h
      · cases h
      case isFalse below =>
        rw [if_neg below]
        exact ⟨rfl, Nat.lt_of_not_ge below⟩
    · cases h

end Pager

/-! ## The collection -/

/-- What has been requested, a whole list at a time. -/
inductive Step where
  | caller (answer : Answer CallerIdentity)
  | list (q : Query) (exchanges : List (Exchange q.Row))
  | describe (instanceArn permissionSetArn : String) (answer : Answer (Option PermissionSet))

/-- The collection so far. -/
structure Run where
  /-- The number of rows that `fetch!` has read. -/
  rows : Nat
  snapshot : Snapshot
  requests : Nat
  log : List Step

/-- A collection up to a result. -/
abbrev Op := ExceptT ProviderError (StateM Run)

/-- `partial`. -/
def missed (s : Snapshot) (code : String) : Snapshot :=
  let code := if ["forbidden", "unauthorized", "rate_limit", "pagination", "limit",
    "malformed"].contains code then code else "transport"
  let message := s!"Identity Center partial collection: {code}."
  { s with
    complete := false
    limitations := if message ∈ s.limitations then s.limitations else s.limitations ++ [message] }

def Run.missed (r : Run) (code : String) : Run :=
  { r with snapshot := IdentityCenter.missed r.snapshot code }

/-! ## The page loop -/

/-- The page loop so far. -/
structure Turn (q : Query) where
  pager : Pager
  out : List q.Row
  exchanges : List (Exchange q.Row)
  run : Run

variable (services : Services)

/-- One page, and whether there is another one. -/
def turn {q : Query} (t : Turn q) : Turn q × Bool :=
  let request : PageRequest := ⟨t.pager.token, q.maxResults⟩
  let answer := services.list t.run.requests q request
  let t := { t with
    exchanges := t.exchanges ++ [(request, answer)]
    run := { t.run with requests := t.run.requests + 1 } }
  match answer with
  | .error code => ({ t with run := t.run.missed (serviceCode code) }, false)
  | .ok page =>
    let t := { t with run := { t.run with rows := t.run.rows + page.rows.length } }
    if t.run.rows > MAX_ROWS then ({ t with run := t.run.missed "limit" }, false)
    else
      let (pager, result) := t.pager.advance page.nextToken
      let t := { t with out := t.out ++ page.rows, pager := pager }
      match result with
      | .ok more => (t, more)
      | .error e => ({ t with run := t.run.missed e.code }, false)

variable {services}

/-- A turn behind which there is another page. -/
theorem turn_goes {q : Query} {t : Turn q} (h : (turn services t).2 = true) :
    (turn services t).1.pager.pages = t.pager.pages + 1 ∧
      (turn services t).1.pager.pages < MAX_PAGES := by
  unfold turn at h ⊢
  dsimp only at h ⊢
  split at h
  · cases h
  case h_2 page answer =>
    rw [answer]
    split at h
    · cases h
    case isFalse within =>
      rw [if_neg within]
      have goes := t.pager.advance_goes page.nextToken
      generalize t.pager.advance page.nextToken = outcome at h goes
      obtain ⟨pager, e | more⟩ := outcome
      · cases h
      · cases h
        exact goes rfl

/-- The page loop before the first page. -/
def Turn.start (q : Query) (r : Run) : Turn q := ⟨.start, [], [], r⟩

/-- **The page loop ends**, whatever the service answers. -/
theorem fetch_ends (services : Services) (q : Query) (r : Run) :
    (loop (turn services) MAX_PAGES (Turn.start q r)).isSome = true :=
  loop_ends (fun t => t.pager.pages) MAX_PAGES (fun _ => turn_goes) (by decide)
    (Nat.le_add_left _ _)

variable (services)

/-- The page loop at its end. -/
def fetched (q : Query) (r : Run) : Turn q :=
  (loop (turn services) MAX_PAGES (Turn.start q r)).get (fetch_ends services q r)

/-- `fetch!`. -/
def fetch (q : Query) : Op (List q.Row) := fun r =>
  let t := fetched services q r
  (.ok t.out, { t.run with log := t.run.log ++ [.list q t.exchanges] })

end Permesh.IdentityCenter

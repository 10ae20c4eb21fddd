import Permesh.IdentityCenter.Discovery
import Permesh.Lib.Maps

/-!
# Laws.IdentityCenter.Listing — how a list ends

A list that leaves the collection as complete as it was has finished: each of its pages but the first
was asked for with the token of the page before it, and the last page has none (`fetched_spec`). The
search for the instance succeeds only if it has finished and found it once (`searched_spec`).

A list is followed request by request (`Goes`), and what it leaves behind is stated once for all
operations. Tokens are compared as texts; what they stand for is the business of the service.
-/

namespace Permesh.IdentityCenter

open Permesh.Aws (Answer serviceCode)
open Permesh.Lib (loop loop_rule mem_insert_key nodup_snoc forall_mem_snoc)

variable {α : Type} {services : Services}

/-! ## Exchanges -/

/-- The rows that were returned. -/
def rowsOf (exchanges : List (Exchange α)) : List α :=
  exchanges.flatMap fun e => match e.2 with
    | .ok page => page.rows
    | .error _ => []

/-- The continuation of a page that was returned. -/
def continuation (e : Exchange α) : Option (Option String) := e.2.toOption.map (·.nextToken)

/-- The exchanges of a list that goes on: each page has a token, the next one is asked for with it, and
`token` is the last. -/
structure Chained (exchanges : List (Exchange α)) (tokens : List String) (token : Option String) :
    Prop where
  sent : (exchanges.map fun e => e.1.nextToken) ++ [token] = none :: tokens.map some
  received : exchanges.map continuation = tokens.map fun t => some (some t)
  once : tokens.Nodup
  valid : ∀ t ∈ tokens, Pager.validToken t = true

/-- The exchanges of a list that has ended: every token that was received was sent once, none twice,
and the last page has none. -/
structure Finished (exchanges : List (Exchange α)) : Prop where
  pages : exchanges.length ≤ MAX_PAGES
  chained : ∃ tokens : List String,
    (exchanges.map fun e => e.1.nextToken) = none :: tokens.map some ∧
    exchanges.map continuation = (tokens.map fun t => some (some t)) ++ [some none] ∧
    tokens.Nodup ∧ ∀ t ∈ tokens, Pager.validToken t = true

theorem rowsOf_append (exchanges : List (Exchange α)) (request : PageRequest)
    (answer : Answer (Page α)) : rowsOf (exchanges ++ [(request, answer)]) =
      rowsOf exchanges ++ rowsOf [(request, answer)] := List.flatMap_append

theorem rowsOf_ok (request : PageRequest) (page : Page α) :
    rowsOf [(request, .ok page)] = page.rows := List.append_nil _

/-- The pager of a list that goes on. -/
structure Goes (exchanges : List (Exchange α)) (pager : Pager) : Prop where
  chained : ∃ tokens, Chained exchanges tokens pager.token ∧ ∀ v, v ∈ pager.seen ↔ v ∈ tokens
  pages : pager.pages = exchanges.length ∧ exchanges.length < MAX_PAGES

theorem Goes.start : Goes (α := α) [] Pager.start where
  chained := ⟨[], ⟨rfl, rfl, List.nodup_nil, fun _ mem => (by cases mem)⟩, by simp [Pager.start]⟩
  pages := ⟨rfl, (by decide : 0 < MAX_PAGES)⟩

/-- **One more page**: the list goes on, has finished, or is not followed. -/
theorem Goes.advance {exchanges : List (Exchange α)} {pager : Pager} (h : Goes exchanges pager)
    (size : Nat) (page : Page α) :
    let all := exchanges ++ [(⟨pager.token, size⟩, .ok page)]
    ((pager.advance page.nextToken).2 = .ok true → Goes all (pager.advance page.nextToken).1) ∧
      ((pager.advance page.nextToken).2 = .ok false → Finished all) := by
  obtain ⟨⟨tokens, chained, seen⟩, pages, below⟩ := h
  intro all
  have sent : (all.map fun e => e.1.nextToken) = none :: tokens.map some := by
    rw [List.map_append]
    exact chained.sent
  have received : all.map continuation =
      (tokens.map fun t => some (some t)) ++ [some page.nextToken] := by
    rw [List.map_append, chained.received]
    rfl
  have length : all.length = exchanges.length + 1 := by simp [all]
  unfold Pager.advance
  cases token : page.nextToken with
  | none =>
    refine ⟨fun goes => (by cases goes), fun _ => ⟨by omega, tokens, sent, ?_, chained.once,
      chained.valid⟩⟩
    rw [received, token]
  | some v =>
    dsimp only
    split
    case isFalse => exact ⟨fun goes => (by cases goes), fun ends => (by cases ends)⟩
    case isTrue follows =>
      split
      · exact ⟨fun goes => (by cases goes), fun ends => (by cases ends)⟩
      case isFalse within =>
        refine ⟨fun _ => ⟨⟨tokens ++ [v], ⟨?_, ?_, ?_, ?_⟩, fun t => ?_⟩, ?_, ?_⟩,
          fun ends => (by cases ends)⟩
        · rw [sent, List.map_append]
          rfl
        · rw [received, token, List.map_append]
          rfl
        · exact nodup_snoc chained.once (mt (seen v).mpr follows.2)
        · exact forall_mem_snoc chained.valid follows.1
        · rw [mem_insert_key, seen, List.mem_append, List.mem_singleton, or_comm, eq_comm]
        · rw [length, pages]
        · rw [length, ← pages]
          omega

/-! ## What `fetch!` reads -/

/-- The page loop while it goes on. -/
structure Fetching {q : Query} (r : Run) (t : Turn q) : Prop where
  goes : Goes t.exchanges t.pager
  out : t.out = rowsOf t.exchanges
  rows : t.run.rows = r.rows + (rowsOf t.exchanges).length
  snapshot : t.run.snapshot = r.snapshot
  log : t.run.log = r.log

/-- A list that was fetched: all of it, or a part of it and a note. -/
structure Fetched {q : Query} (r : Run) (t : Turn q) : Prop where
  out : t.out <+: rowsOf t.exchanges
  rows : t.run.rows = r.rows + (rowsOf t.exchanges).length
  log : t.run.log = r.log
  outcome : (t.run.snapshot = r.snapshot ∧ Finished t.exchanges ∧ t.out = rowsOf t.exchanges ∧
    t.run.rows ≤ MAX_ROWS) ∨ ∃ code, t.run.snapshot = missed r.snapshot code

/-- **One page.** -/
theorem Fetching.turn {q : Query} {r : Run} {t : Turn q} (h : Fetching r t) :
    ((turn services t).2 = true → Fetching r (turn services t).1) ∧
      ((turn services t).2 = false → Fetched r (turn services t).1) := by
  unfold IdentityCenter.turn
  dsimp only
  cases answer : services.list t.run.requests q ⟨t.pager.token, q.maxResults⟩ with
  | error code =>
    dsimp only
    have none : rowsOf (t.exchanges ++ [(⟨t.pager.token, q.maxResults⟩, .error code)]) =
        rowsOf t.exchanges := by
      rw [rowsOf_append]
      exact List.append_nil _
    refine ⟨fun goes => (by cases goes), fun _ => ⟨?_, ?_, h.log, .inr ⟨serviceCode code, ?_⟩⟩⟩
    · rw [none]
      exact h.out ▸ List.prefix_rfl
    · rw [none]
      exact h.rows
    · rw [← h.snapshot]
      rfl
  | ok page =>
    dsimp only
    have more : rowsOf (t.exchanges ++ [(⟨t.pager.token, q.maxResults⟩, .ok page)]) =
        rowsOf t.exchanges ++ page.rows := by
      rw [rowsOf_append, rowsOf_ok]
    have rows : t.run.rows + page.rows.length =
        r.rows + (rowsOf t.exchanges ++ page.rows).length := by
      rw [h.rows, List.length_append, Nat.add_assoc]
    have advanced := h.goes.advance q.maxResults page
    split
    case isTrue beyond =>
      refine ⟨fun goes => (by cases goes), fun _ => ⟨?_, ?_, h.log, .inr ⟨"limit", ?_⟩⟩⟩
      · rw [more, h.out]
        exact List.prefix_append _ _
      · rw [more]
        exact rows
      · rw [← h.snapshot]
        rfl
    case isFalse within =>
      dsimp only at advanced
      generalize t.pager.advance page.nextToken = outcome at advanced
      obtain ⟨pager, e | more'⟩ := outcome
      · refine ⟨fun goes => (by cases goes), fun _ => ⟨?_, ?_, h.log, .inr ⟨e.code, ?_⟩⟩⟩
        · rw [more]
          exact h.out ▸ List.prefix_rfl
        · rw [more]
          exact rows
        · rw [← h.snapshot]
          rfl
      · dsimp only
        refine ⟨fun goes => ?_, fun ends => ?_⟩
        · refine ⟨advanced.1 (congrArg Except.ok goes), ?_, ?_, h.snapshot, h.log⟩
          · rw [more, h.out]
          · rw [more]
            exact rows
        · refine ⟨?_, ?_, h.log, .inl ⟨h.snapshot, advanced.2 (congrArg Except.ok ends), ?_,
            Nat.le_of_not_lt within⟩⟩
          · rw [more]
            exact h.out ▸ List.prefix_rfl
          · rw [more]
            exact rows
          · rw [more, h.out]

/-- **A list.** -/
theorem fetched_spec (services : Services) (q : Query) (r : Run) :
    Fetched r (fetched services q r) := by
  refine loop_rule (I := Fetching r) (fun t h => h.turn.1) (fun t h => h.turn.2) ?_
    (Option.some_get (fetch_ends services q r)).symm
  exact ⟨.start, rfl, rfl, rfl, rfl⟩

/-! ## The search for the instance -/

variable {p : IdentityCenterProvider}

/-- The configured instance among these rows: it has not been found, or it has been found once and
belongs to the configured store. -/
def Occurs (p : IdentityCenterProvider) (found : Bool) (rows : List InstanceMetadata) : Prop :=
  if found = true then ∃ i, (rows.filter (·.instanceArn == some p.config.instanceArn)) = [i] ∧
    i.identityStoreId = some p.config.identityStoreId
  else (rows.filter (·.instanceArn == some p.config.instanceArn)) = []

theorem find_occurs {found found' : Bool} {before rows : List InstanceMetadata}
    (h : Occurs p found before) (ok : p.find found rows = .ok found') :
    Occurs p found' (before ++ rows) := by
  induction rows generalizing found before with
  | nil =>
    cases ok
    rw [List.append_nil]
    exact h
  | cons i rest ih =>
    unfold IdentityCenterProvider.find at ok
    rw [List.append_cons]
    split at ok
    case isTrue here =>
      split at ok
      · cases ok
      case isFalse first =>
        rw [not_or, Bool.not_eq_true, not_not] at first
        refine ih ?_ ok
        unfold Occurs at h ⊢
        rw [if_neg (by simp [first.1])] at h
        rw [if_pos rfl]
        exact ⟨i, by rw [List.filter_append, h]; simp [here], first.2⟩
    case isFalse other =>
      refine ih ?_ ok
      unfold Occurs at h ⊢
      have same : ((before ++ [i]).filter (·.instanceArn == some p.config.instanceArn)) =
          before.filter (·.instanceArn == some p.config.instanceArn) := by
        rw [List.filter_append]
        simp [other]
      rw [same]
      exact h

/-- The search while it goes on. -/
structure Searching (p : IdentityCenterProvider) (t : Search) : Prop where
  goes : Goes t.exchanges t.pager
  occurs : Occurs p t.found (rowsOf t.exchanges)
  result : t.result = .ok ()

/-- A search that has succeeded. -/
structure Searched (p : IdentityCenterProvider) (t : Search) : Prop where
  finished : Finished t.exchanges
  occurs : Occurs p t.found (rowsOf t.exchanges)

/-- **One page of instances.** -/
theorem Searching.search {t : Search} (h : Searching p t) :
    ((p.search services t).2 = true → Searching p (p.search services t).1) ∧
      ((p.search services t).2 = false →
        (p.search services t).1.result = .ok () → Searched p (p.search services t).1) := by
  unfold IdentityCenterProvider.search
  dsimp only
  cases answer : services.list t.requests .instances ⟨t.pager.token, Query.instances.maxResults⟩ with
  | error code => exact ⟨fun goes => (by cases goes), fun _ ok => (by cases ok)⟩
  | ok page =>
    dsimp only
    cases rows : p.find t.found page.rows with
    | error e => exact ⟨fun goes => (by cases goes), fun _ ok => (by cases ok)⟩
    | ok found =>
      have advanced := h.goes.advance Query.instances.maxResults page
      have occurs : Occurs p found (rowsOf (t.exchanges ++
          [(⟨t.pager.token, Query.instances.maxResults⟩, .ok page)])) := by
        rw [rowsOf_append, rowsOf_ok]
        exact find_occurs h.occurs rows
      dsimp only at advanced ⊢
      generalize t.pager.advance page.nextToken = outcome at advanced
      obtain ⟨pager, e | more⟩ := outcome
      · exact ⟨fun goes => (by cases goes), fun _ ok => (by cases ok)⟩
      · refine ⟨fun goes => ?_, fun ends _ => ?_⟩
        · exact ⟨advanced.1 (congrArg Except.ok goes), occurs, h.result⟩
        · exact ⟨advanced.2 (congrArg Except.ok ends), occurs⟩

/-- **The search for the instance.** -/
theorem searched_spec (p : IdentityCenterProvider) (services : Services) (requests : Nat) :
    (p.searched services requests).result = .ok () → Searched p (p.searched services requests) := by
  refine loop_rule (I := Searching p) (Q := fun t => t.result = .ok () → Searched p t)
    (fun t h => h.search.1) (fun t h => h.search.2) ?_
    (Option.some_get (p.search_ends services requests)).symm
  exact ⟨.start, rfl, rfl⟩

end Permesh.IdentityCenter

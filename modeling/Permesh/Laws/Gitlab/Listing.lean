import Permesh.Laws.Gitlab.Pagination
import Permesh.Lib.Maps

/-!
# Laws.Gitlab.Listing — when a list is complete

A list that ends without a failure ought to be complete: no page of the run announced a page
behind the last one. And a repeated identifier ought to leave no rows. Both depend on the last page
alone (`faithful_iff_sound`): no total of an earlier page may reach behind it, and if it repeats an
identifier, the repetition must be the first thing wrong with it.

The page loop is followed with the identifiers seen so far, and what comes first in the rows of a page
decides (`Scan`). Filters and budgets are arbitrary. What a server leaves out without a trace is not
seen.
-/

namespace Permesh.Gitlab

open Permesh.Json Permesh.Http
open Permesh.Lib (nodup_snoc)

/-! ## Rows and identifiers -/

def idOf (row : Value) : Option Nat := (nativeId row).toOption

/-- The rows of a fetched page. -/
def rowsOf (page : Value × HeaderMap) : List Value := page.1.asArray.getD []

/-- The identifiers in the fetched pages. -/
def idsOf (pages : List (Value × HeaderMap)) : List Nat := (pages.flatMap rowsOf).filterMap idOf

/-- What comes first in the rows of a page: a row without an identifier, or one with an identifier
that was seen. -/
inductive Scan where
  | fresh
  | malformed
  | repeated
  deriving DecidableEq

def scan (seen : List Nat) : List Value → Scan
  | [] => .fresh
  | item :: items =>
    match nativeId item with
    | .error _ => .malformed
    | .ok id => if id ∈ seen then .repeated else scan (seen ++ [id]) items

/-- Fresh rows all have identifiers, and all different ones. -/
theorem scan_fresh {seen : List Nat} {items : List Value} (h : scan seen items = .fresh)
    (nodup : seen.Nodup) : (∀ row ∈ items, (idOf row).isSome = true) ∧
      (seen ++ items.filterMap idOf).Nodup := by
  induction items generalizing seen with
  | nil => exact ⟨fun _ hr => (by cases hr), by simpa using nodup⟩
  | cons item items ih =>
    unfold scan at h
    cases hid : nativeId item with
    | error e => rw [hid] at h; cases h
    | ok id =>
      rw [hid] at h
      dsimp only at h
      split at h
      · cases h
      case isFalse new =>
        have some' : idOf item = some id := by rw [idOf, hid]; rfl
        obtain ⟨named, all⟩ := ih h (nodup_snoc nodup new)
        rw [List.append_assoc] at all
        refine ⟨fun row hr => ?_, by rwa [List.filterMap_cons_some some']⟩
        rcases List.mem_cons.mp hr with rfl | hr
        · rw [some']
          rfl
        · exact named row hr

/-- `enlist` follows the scan. -/
theorem enlist_scan (p : Progress) (seen : List Nat) (ids : ∀ id, id ∈ p.ids ↔ id ∈ seen)
    (items : List Value) :
    (enlist p items).1.pages = p.pages ∧ (enlist p items).1.budget = p.budget ∧
    match scan seen items with
    | .fresh => (enlist p items).2 = .ok () ∧ (enlist p items).1.rows = p.rows ∧
        ∀ id, id ∈ (enlist p items).1.ids ↔ id ∈ seen ++ items.filterMap idOf
    | .malformed => (∃ e, (enlist p items).2 = .error e) ∧ (enlist p items).1.rows = p.rows
    | .repeated => (∃ e, (enlist p items).2 = .error e) ∧ (enlist p items).1.rows = [] := by
  induction items generalizing p seen with
  | nil => exact ⟨rfl, rfl, rfl, rfl, by simpa [enlist] using ids⟩
  | cons item items ih =>
    unfold enlist scan
    cases hid : nativeId item with
    | error e => exact ⟨rfl, rfl, ⟨e, rfl⟩, rfl⟩
    | ok id =>
      have some' : idOf item = some id := by rw [idOf, hid]; rfl
      dsimp only
      by_cases old : id ∈ seen
      · rw [if_pos old, if_pos ((ids id).mpr old)]
        exact ⟨rfl, rfl, ⟨_, rfl⟩, rfl⟩
      · rw [if_neg old, if_neg (mt (ids id).mp old)]
        have step := ih { p with ids := p.ids.insert id } (seen ++ [id])
          fun id' => by rw [Lib.mem_insert_key, ids]; simp [or_comm, eq_comm]
        rw [List.filterMap_cons_some some']
        simpa only [List.append_assoc, List.singleton_append] using step

/-! ## Pages -/

section

variable (client : Client) (path : String) (filters : List (String × String)) (rows₀ : Nat)

/-- A page behind the pages `init` is a list of at most 100 items, within the row budget, and says
whether the list goes on. -/
structure Passes (init : List (Value × HeaderMap)) (value : Value) (headers : HeaderMap)
    (items : List Value) (next : Bool) : Prop where
  items_eq : pageItems value = some items
  budget : rows₀ + (init.flatMap rowsOf).length + items.length ≤ MAX_ROWS
  next_eq : ∃ current, client.url path (Client.query filters (init.length + 1)) = .ok current ∧
    nextPage client.crate headers current (init.length + 1) items.length = .ok next

/-- What must hold of the last page of a run, behind the pages `init`. -/
structure Sound (init : List (Value × HeaderMap)) (value : Value) (headers : HeaderMap) : Prop where
  totals : ∀ items, Passes client path filters rows₀ init value headers items false →
    scan (idsOf init) items = .fresh → ∀ page ∈ init, ∀ m,
      number page.2 "x-total-pages" = .ok (some (some m)) → m ≤ init.length + 1
  repeats : init ≠ [] → ¬(idsOf (init ++ [(value, headers)])).Nodup → ∃ items next,
    Passes client path filters rows₀ init value headers items next ∧
      scan (idsOf init) items = .repeated

/-- A run that goes on: all pages so far were taken in. -/
structure Going (p : Progress) : Prop where
  rows : p.rows = p.pages.flatMap rowsOf
  ids : ∀ id, id ∈ p.ids ↔ id ∈ idsOf p.pages
  nodup : (idsOf p.pages).Nodup
  named : ∀ row ∈ p.rows, (idOf row).isSome = true
  filled : ∀ page ∈ p.pages, rowsOf page ≠ []
  announced : ∀ page ∈ p.pages, ∀ m, Announces client.crate page.2 m →
    m ≤ p.pages.length + 1 ∨ number page.2 "x-total-pages" = .ok (some (some m))
  more : ∀ init value headers, p.pages = init ++ [(value, headers)] → ∃ items,
    Passes client path filters rows₀ init value headers items true
  budget : p.budget.rows = rows₀ + (p.pages.flatMap rowsOf).length

end

variable {client : Client} {path : String} {filters : List (String × String)} {rows₀ : Nat}

theorem idsOf_append (init : List (Value × HeaderMap)) {value : Value} (headers : HeaderMap)
    {items : List Value} (h : pageItems value = some items) :
    (init ++ [(value, headers)]).flatMap rowsOf = init.flatMap rowsOf ++ items ∧
      idsOf (init ++ [(value, headers)]) = idsOf init ++ items.filterMap idOf := by
  have rows : rowsOf (value, headers) = items := by
    rw [rowsOf, (Option.filter_eq_some_iff.mp h).1]
    rfl
  constructor
  · rw [List.flatMap_append, List.flatMap_singleton, rows]
  · rw [idsOf, List.flatMap_append, List.flatMap_singleton, rows, List.filterMap_append]
    rfl

/-- A page that is fetched behind `p`. -/
def Progress.fetched (p : Progress) (budget : Budget) (value : Value) (headers : HeaderMap) :
    Progress :=
  { p with budget := budget, pages := p.pages ++ [(value, headers)] }

/-- A page that does not pass is an error and leaves the rows. -/
theorem receive_blocked {p : Progress} (going : Going client path filters rows₀ p) {budget : Budget}
    (hb : budget.rows = p.budget.rows) {value : Value} {headers : HeaderMap}
    (blocked : ∀ items next, ¬Passes client path filters rows₀ p.pages value headers items next) :
    ∃ e q, client.receive path filters (p.pages.length + 1) (p.fetched budget value headers) value
      headers = (q, .error e) ∧ q.rows = p.rows ∧ q.pages = p.pages ++ [(value, headers)] := by
  unfold Client.receive
  cases hi : pageItems value with
  | none => exact ⟨_, _, rfl, rfl, rfl⟩
  | some items =>
    dsimp only
    split
    case isTrue => exact ⟨_, _, rfl, rfl, rfl⟩
    case isFalse fits =>
      split
      case h_1 => exact ⟨_, _, rfl, rfl, rfl⟩
      case h_2 current hu =>
        split
        case h_1 => exact ⟨_, _, rfl, rfl, rfl⟩
        case h_2 next hn =>
          refine absurd ⟨hi, ?_, current, hu, hn⟩ (blocked items next)
          have : budget.rows + items.length ≤ MAX_ROWS := Nat.le_of_not_lt fits
          rw [hb, going.budget] at this
          exact this

/-- What becomes of a page that passes. -/
theorem receive_passes {p : Progress} (going : Going client path filters rows₀ p) {budget : Budget}
    (hb : budget.rows = p.budget.rows) {value : Value} {headers : HeaderMap} {items : List Value}
    {next : Bool} (passes : Passes client path filters rows₀ p.pages value headers items next) :
    ∃ q r, client.receive path filters (p.pages.length + 1) (p.fetched budget value headers) value
      headers = (q, r) ∧ q.pages = p.pages ++ [(value, headers)] ∧
      match scan (idsOf p.pages) items with
      | .malformed => (∃ e, r = .error e) ∧ q.rows = p.rows
      | .repeated => (∃ e, r = .error e) ∧ q.rows = []
      | .fresh => q.rows = p.rows ++ items ∧
          (∀ id, id ∈ q.ids ↔ id ∈ idsOf p.pages ++ items.filterMap idOf) ∧
          q.budget.rows = p.budget.rows + items.length ∧
          if next = false then r = .ok false
          else if items = [] then ∃ e, r = .error e else r = .ok true := by
  obtain ⟨hi, fits, current, hu, hn⟩ := passes
  have within : ¬(p.fetched budget value headers).budget.rows + items.length > MAX_ROWS := by
    show ¬budget.rows + items.length > MAX_ROWS
    rw [hb, going.budget]
    omega
  unfold Client.receive
  rw [hi]
  dsimp only
  rw [if_neg within, hu]
  dsimp only
  rw [hn]
  dsimp only
  have enlisted := enlist_scan
    { p.fetched budget value headers with
      budget := { (p.fetched budget value headers).budget with
        rows := (p.fetched budget value headers).budget.rows + items.length } }
    (idsOf p.pages) going.ids items
  revert enlisted
  generalize enlist _ items = outcome
  obtain ⟨q, r⟩ := outcome
  rintro ⟨pages, budget', result⟩
  dsimp only at pages budget' result ⊢
  cases hs : scan (idsOf p.pages) items with
  | malformed =>
    rw [hs] at result
    obtain ⟨⟨e, rfl⟩, rows⟩ := result
    exact ⟨_, _, rfl, pages, ⟨e, rfl⟩, rows⟩
  | repeated =>
    rw [hs] at result
    obtain ⟨⟨e, rfl⟩, rows⟩ := result
    exact ⟨_, _, rfl, pages, ⟨e, rfl⟩, rows⟩
  | fresh =>
    rw [hs] at result
    obtain ⟨rfl, rows, ids⟩ := result
    have rows' : q.rows ++ items = p.rows ++ items := by rw [rows]; rfl
    have total : q.budget.rows = p.budget.rows + items.length := by
      rw [budget', ← hb]
      rfl
    dsimp only
    cases next with
    | false => exact ⟨_, _, rfl, pages, rows', ids, total, by rw [if_pos rfl]⟩
    | true =>
      rw [if_neg Bool.noConfusion]
      by_cases empty : items = []
      · subst empty
        exact ⟨_, _, rfl, pages, rows', ids, total, by rw [if_neg (by decide), if_pos rfl]; exact ⟨_, rfl⟩⟩
      · have : items.isEmpty = false := by simpa using empty
        rw [this]
        exact ⟨_, _, rfl, pages, rows', ids, total, by rw [if_neg (by decide), if_neg empty]⟩

/-- A page that says that the list goes on does not say that it ends. -/
theorem Passes.unique {init : List (Value × HeaderMap)} {value : Value} {headers : HeaderMap}
    {items items' : List Value} {next next' : Bool}
    (h : Passes client path filters rows₀ init value headers items next)
    (h' : Passes client path filters rows₀ init value headers items' next') :
    items = items' ∧ next = next' := by
  obtain ⟨hi, -, current, hu, hn⟩ := h
  obtain ⟨hi', -, current', hu', hn'⟩ := h'
  cases hi.symm.trans hi'
  cases hu.symm.trans hu'
  cases hn.symm.trans hn'
  exact ⟨rfl, rfl⟩

/-- **One more page is taken in.** -/
theorem Going.step {p q : Progress} (going : Going client path filters rows₀ p) {value : Value}
    {headers : HeaderMap} {items : List Value}
    (passes : Passes client path filters rows₀ p.pages value headers items true)
    (fresh : scan (idsOf p.pages) items = .fresh) (filled : items ≠ [])
    (pages : q.pages = p.pages ++ [(value, headers)]) (rows : q.rows = p.rows ++ items)
    (ids : ∀ id, id ∈ q.ids ↔ id ∈ idsOf p.pages ++ items.filterMap idOf)
    (budget : q.budget.rows = p.budget.rows + items.length) :
    Going client path filters rows₀ q := by
  obtain ⟨named, nodup⟩ := scan_fresh fresh going.nodup
  obtain ⟨flat, idsEq⟩ := idsOf_append p.pages headers passes.items_eq
  constructor
  · rw [pages, flat, rows, going.rows]
  · intro id
    rw [pages, idsEq]
    exact ids id
  · rw [pages, idsEq]
    exact nodup
  · intro row hr
    rw [rows] at hr
    exact (List.mem_append.mp hr).elim (going.named row) (named row)
  · intro page hp
    rw [pages] at hp
    rcases List.mem_append.mp hp with hp | hp
    · exact going.filled page hp
    · rw [List.mem_singleton.mp hp, rowsOf, (Option.filter_eq_some_iff.mp passes.items_eq).1]
      exact filled
  · intro page hp m announces
    rw [pages, List.length_append, List.length_singleton]
    rw [pages] at hp
    rcases List.mem_append.mp hp with hp | hp
    · exact (going.announced page hp m announces).imp_left fun le => by omega
    · obtain ⟨current, -, hn⟩ := passes.next_eq
      rw [List.mem_singleton.mp hp] at announces ⊢
      exact (nextPage_announces hn announces).2
  · intro init value' headers' eq
    rw [pages] at eq
    obtain ⟨rfl, last⟩ := List.append_inj' eq rfl
    cases last
    exact ⟨items, passes⟩
  · rw [budget, pages, flat, List.length_append, going.budget]
    omega

/-- Only a fresh page that passes lets the run go on. -/
theorem Going.received {p q : Progress} (going : Going client path filters rows₀ p) {budget : Budget}
    (hb : budget.rows = p.budget.rows) {value : Value} {headers : HeaderMap}
    (more : client.receive path filters (p.pages.length + 1) (p.fetched budget value headers) value
      headers = (q, .ok true)) :
    Going client path filters rows₀ q ∧ q.pages.length = p.pages.length + 1 := by
  by_cases passes : ∃ items next, Passes client path filters rows₀ p.pages value headers items next
  · obtain ⟨items, next, passes⟩ := passes
    obtain ⟨q', r', eq, pages, result⟩ := receive_passes going hb passes
    cases more.symm.trans eq
    cases hs : scan (idsOf p.pages) items with
    | malformed =>
      rw [hs] at result
      obtain ⟨⟨e, he⟩, -⟩ := result
      cases he
    | repeated =>
      rw [hs] at result
      obtain ⟨⟨e, he⟩, -⟩ := result
      cases he
    | fresh =>
      rw [hs] at result
      obtain ⟨rows, ids, total, goes⟩ := result
      split at goes
      · cases goes
      case isFalse next_true =>
        split at goes
        · obtain ⟨e, he⟩ := goes
          cases he
        case isFalse filled =>
          rw [Bool.not_eq_false] at next_true
          subst next_true
          refine ⟨going.step passes hs filled pages rows ids total, ?_⟩
          rw [pages, List.length_append, List.length_singleton]
  · have none : ∀ items next,
        ¬Passes client path filters rows₀ p.pages value headers items next :=
      fun items next h => passes ⟨items, next, h⟩
    obtain ⟨e, q', eq, -⟩ := receive_blocked going hb none
    cases more.symm.trans eq

/-- A run that goes on has nothing wrong with its last page. -/
theorem Going.sound {p : Progress} (going : Going client path filters rows₀ p)
    {init : List (Value × HeaderMap)} {value : Value} {headers : HeaderMap}
    (h : p.pages = init ++ [(value, headers)]) :
    Sound client path filters rows₀ init value headers := by
  obtain ⟨items, passes⟩ := going.more init value headers h
  constructor
  · intro items' passes' _
    cases (passes.unique passes').2
  · intro _ repeated
    rw [← h] at repeated
    exact absurd going.nodup repeated

theorem attempts_rows (client : Client) (left attempt : Nat) (budget : Budget) :
    (client.attempts left attempt budget).2.rows = budget.rows := by
  induction left generalizing attempt budget with
  | zero => rfl
  | succ left ih =>
    unfold Client.attempts
    dsimp only
    split
    · rfl
    split
    · rfl
    · rfl
    split
    · rfl
    split
    · rfl
    split
    · split
      · rfl
      · exact ih _ _
    split
    · rfl
    split
    · rfl
    split <;> rfl

theorem request_rows (client : Client) (path : String) (query : List (String × String))
    (budget : Budget) : (client.request path query budget).2.rows = budget.rows := by
  unfold Client.request
  split
  · rfl
  · exact attempts_rows ..

theorem pages_of_error {left page : Nat} {p q : Progress} {e : ProviderError}
    (h : client.turn path filters page p = (q, .error e)) :
    client.pages path filters (left + 1) page p = (q, .error e) := by
  unfold Client.pages
  rw [h]

theorem pages_of_last {left page : Nat} {p q : Progress}
    (h : client.turn path filters page p = (q, .ok false)) :
    client.pages path filters (left + 1) page p = (q, .ok ()) := by
  unfold Client.pages
  rw [h]

theorem pages_of_more {left page : Nat} {p q : Progress}
    (h : client.turn path filters page p = (q, .ok true)) :
    client.pages path filters (left + 1) page p = client.pages path filters left (page + 1) q := by
  rw [Client.pages, h]

/-- How a run ends: between two pages, or with a page that was fetched. -/
theorem pages_end (left : Nat) {p : Progress} (going : Going client path filters rows₀ p) :
    ∃ p', Going client path filters rows₀ p' ∧
      ((∃ q e, client.pages path filters left (p.pages.length + 1) p = (q, .error e) ∧
        q.rows = p'.rows ∧ q.pages = p'.pages) ∨
      ∃ value headers budget q r, budget.rows = p'.budget.rows ∧
        client.receive path filters (p'.pages.length + 1) (p'.fetched budget value headers) value
          headers = (q, r) ∧ r ≠ .ok true ∧
        client.pages path filters left (p.pages.length + 1) p = (q, r.map fun _ => ())) := by
  induction left generalizing p with
  | zero => exact ⟨p, going, .inl ⟨p, _, rfl, rfl, rfl⟩⟩
  | succ left ih =>
    have rows := request_rows client path (Client.query filters (p.pages.length + 1)) p.budget
    cases hr : client.request path (Client.query filters (p.pages.length + 1)) p.budget with
    | mk result budget =>
      rw [hr] at rows
      cases result with
      | error e =>
        have turn : client.turn path filters (p.pages.length + 1) p =
            ({ p with budget := budget }, .error e) := by
          rw [Client.turn, hr]
        exact ⟨p, going, .inl ⟨_, e, pages_of_error turn, rfl, rfl⟩⟩
      | ok page =>
        obtain ⟨value, headers⟩ := page
        have turn : client.turn path filters (p.pages.length + 1) p =
            client.receive path filters (p.pages.length + 1) (p.fetched budget value headers) value
              headers := by
          rw [Client.turn, hr]
          rfl
        cases ht : client.receive path filters (p.pages.length + 1)
            (p.fetched budget value headers) value headers with
        | mk q r =>
          rw [ht] at turn
          cases r with
          | error e =>
            exact ⟨p, going, .inr ⟨value, headers, budget, q, _, rows, ht, by simp,
              pages_of_error turn⟩⟩
          | ok next =>
            cases next with
            | false =>
              exact ⟨p, going, .inr ⟨value, headers, budget, q, _, rows, ht, by simp,
                pages_of_last turn⟩⟩
            | true =>
              obtain ⟨going', length⟩ := going.received rows ht
              rw [pages_of_more turn, ← length]
              exact ih going'

/-! ## Whole runs -/

/-- The pages that a list fetches. -/
def fetchedPages (client : Client) (path : String) (filters : List (String × String))
    (budget : Budget) : List (Value × HeaderMap) :=
  (client.run path filters budget).1.pages

/-- A list without a failure is complete, and a repeated identifier leaves no rows. -/
structure Faithful (client : Client) (path : String) (filters : List (String × String))
    (budget : Budget) : Prop where
  concat : (client.listing path filters budget).1.failure = none →
    (client.listing path filters budget).1.rows =
      (fetchedPages client path filters budget).flatMap rowsOf
  distinct : (client.listing path filters budget).1.failure = none →
    (∀ row ∈ (client.listing path filters budget).1.rows, (idOf row).isSome = true) ∧
      ((client.listing path filters budget).1.rows.filterMap idOf).Nodup
  last : (client.listing path filters budget).1.failure = none →
    ∀ page ∈ fetchedPages client path filters budget, ∀ m, Announces client.crate page.2 m →
      m ≤ (fetchedPages client path filters budget).length
  repeated : ¬(idsOf (fetchedPages client path filters budget)).Nodup →
    (client.listing path filters budget).1.rows = [] ∧
      (client.listing path filters budget).1.failure ≠ none

theorem going_start (client : Client) (path : String) (filters : List (String × String))
    (budget : Budget) : Going client path filters budget.rows ⟨[], ∅, budget, []⟩ where
  rows := rfl
  ids id := by simp [idsOf]
  nodup := List.nodup_nil
  named _ h := by cases h
  filled _ h := by cases h
  announced _ h := by cases h
  more init value headers h := by simp at h
  budget := rfl

/-- A list with a failure owes no more than empty rows for a repeated identifier. -/
theorem faithful_of_failure {client : Client} {budget : Budget} {q : Progress} {e : ProviderError}
    (run : client.run path filters budget = (q, .error e)) :
    Faithful client path filters budget ↔ (¬(idsOf q.pages).Nodup → q.rows = []) := by
  have listing : client.listing path filters budget = (⟨q.rows, some e⟩, q.budget) := by
    rw [Client.listing, run]
  have fetched : fetchedPages client path filters budget = q.pages := by
    rw [fetchedPages, run]
  constructor
  · intro faithful repeated
    have := (faithful.repeated (by rwa [fetched])).1
    rwa [listing] at this
  · intro h
    constructor
    · rw [listing]; intro h; cases h
    · rw [listing]; intro h; cases h
    · rw [listing]; intro h; cases h
    · rw [fetched, listing]
      exact fun repeated => ⟨h repeated, by simp⟩

/-- The last page of a run is determined. -/
theorem forall_last {pages init : List (Value × HeaderMap)} {value : Value} {headers : HeaderMap}
    (h : pages = init ++ [(value, headers)])
    {P : List (Value × HeaderMap) → Value → HeaderMap → Prop} :
    (∀ init value headers, pages = init ++ [(value, headers)] → P init value headers) ↔
      P init value headers := by
  constructor
  · exact fun all => all init value headers h
  · intro hp init' value' headers' h'
    obtain ⟨rfl, last⟩ := List.append_inj' (h.symm.trans h') rfl
    cases last
    exact hp

/-- A page that is rejected before a repetition is reached is sound when there is none. -/
theorem sound_of_rejected {p : Progress} (going : Going client path filters rows₀ p) {value : Value}
    {headers : HeaderMap} (rejected : ∀ items next,
      Passes client path filters rows₀ p.pages value headers items next →
        scan (idsOf p.pages) items = .malformed) :
    Sound client path filters rows₀ p.pages value headers ↔
      (¬(idsOf (p.pages ++ [(value, headers)])).Nodup → p.rows = []) := by
  constructor
  · intro sound repeated
    rw [going.rows, List.flatMap_eq_nil_iff]
    by_contra filled
    have ne : p.pages ≠ [] := by
      intro empty
      rw [empty] at filled
      exact filled fun _ h => by cases h
    obtain ⟨items, next, passes, again⟩ := sound.repeats ne repeated
    rw [rejected items next passes] at again
    cases again
  · intro h
    constructor
    · intro items passes fresh
      rw [rejected items false passes] at fresh
      cases fresh
    · intro ne repeated
      obtain ⟨page, hp⟩ := List.exists_mem_of_ne_nil _ ne
      have none := h repeated
      rw [going.rows, List.flatMap_eq_nil_iff] at none
      exact absurd (none page hp) (going.filled page hp)

/-- A repetition that is reached leaves no rows. -/
theorem sound_of_repeated {init : List (Value × HeaderMap)} {value : Value} {headers : HeaderMap}
    {items : List Value} {next : Bool}
    (passes : Passes client path filters rows₀ init value headers items next)
    (repeated : scan (idsOf init) items = .repeated) :
    Sound client path filters rows₀ init value headers := by
  refine ⟨fun items' passes' fresh => ?_, fun _ _ => ⟨items, next, passes, repeated⟩⟩
  rw [← (passes.unique passes').1, repeated] at fresh
  cases fresh

/-- A list that its last page ends is faithful when no total of an earlier page reaches behind it. -/
theorem faithful_of_ended {budget : Budget} {p q : Progress}
    (going : Going client path filters budget.rows p) {value : Value} {headers : HeaderMap}
    {items : List Value}
    (passes : Passes client path filters budget.rows p.pages value headers items false)
    (fresh : scan (idsOf p.pages) items = .fresh)
    (run : client.run path filters budget = (q, .ok ()))
    (pages : q.pages = p.pages ++ [(value, headers)]) (taken : q.rows = p.rows ++ items) :
    Faithful client path filters budget ↔
      Sound client path filters budget.rows p.pages value headers := by
  obtain ⟨flat, ids⟩ := idsOf_append p.pages headers passes.items_eq
  obtain ⟨named, nodup⟩ := scan_fresh fresh going.nodup
  rw [← ids] at nodup
  have fetched : fetchedPages client path filters budget = p.pages ++ [(value, headers)] := by
    rw [fetchedPages, run, pages]
  have listing : client.listing path filters budget = (⟨q.rows, none⟩, q.budget) := by
    rw [Client.listing, run]
  have whole : q.rows = (p.pages ++ [(value, headers)]).flatMap rowsOf := by
    rw [taken, going.rows, flat]
  obtain ⟨current, -, hn⟩ := passes.next_eq
  constructor
  · intro faithful
    refine ⟨fun items' passes' _ page hp m total => ?_, fun _ repeated => absurd nodup repeated⟩
    have := faithful.last (by rw [listing]) page
      (by rw [fetched]; exact List.mem_append_left _ hp) m (.inr (.inr (names_number total)))
    rwa [fetched, List.length_append, List.length_singleton] at this
  · intro sound
    constructor
    · intro _
      rw [listing, fetched]
      exact whole
    · intro _
      rw [listing]
      refine ⟨fun row hr => ?_, ?_⟩
      · change row ∈ q.rows at hr
        rw [taken] at hr
        exact (List.mem_append.mp hr).elim (going.named row) (named row)
      · show (q.rows.filterMap idOf).Nodup
        rw [whole]
        exact nodup
    · intro _ page hp m announces
      rw [fetched] at hp ⊢
      rw [List.length_append, List.length_singleton]
      rcases List.mem_append.mp hp with hp | hp
      · rcases going.announced page hp m announces with le | total
        · exact le
        · exact sound.totals items passes fresh page hp m total
      · rw [List.mem_singleton.mp hp] at announces
        exact (nextPage_announces hn announces).1 rfl
    · rw [fetched]
      exact fun repeated => absurd nodup repeated

/-- **A list is faithful exactly when its last page is sound**: when it ends the list, no total of
an earlier page reaches behind it; and when it repeats an identifier, it is a list that passes and
the repetition comes before any malformed row. -/
theorem faithful_iff_sound (client : Client) (path : String) (filters : List (String × String))
    (budget : Budget) : Faithful client path filters budget ↔
      ∀ init value headers, fetchedPages client path filters budget = init ++ [(value, headers)] →
        Sound client path filters budget.rows init value headers := by
  obtain ⟨p, going, ⟨q, e, run, rows, pages⟩ | ⟨value, headers, budget', q, r, rows, receive, ends,
    run⟩⟩ := pages_end MAX_PAGES (going_start client path filters budget)
  · change client.run path filters budget = (q, .error e) at run
    rw [faithful_of_failure run, fetchedPages, run, pages]
    exact ⟨fun _ init value headers h => going.sound h,
      fun _ repeated => absurd going.nodup repeated⟩
  change client.run path filters budget = (q, r.map fun _ => ()) at run
  have fetched (pages : q.pages = p.pages ++ [(value, headers)]) :
      fetchedPages client path filters budget = p.pages ++ [(value, headers)] := by
    rw [fetchedPages, run, pages]
  by_cases passes : ∃ items next,
      Passes client path filters budget.rows p.pages value headers items next
  · obtain ⟨items, next, passes⟩ := passes
    obtain ⟨q', r', eq, pages, result⟩ := receive_passes going rows passes
    cases receive.symm.trans eq
    rw [forall_last (fetched pages)]
    cases hs : scan (idsOf p.pages) items with
    | malformed =>
      rw [hs] at result
      obtain ⟨⟨e, rfl⟩, same⟩ := result
      rw [faithful_of_failure run, pages, same, sound_of_rejected going]
      intro items' next' passes'
      rw [← (passes.unique passes').1, hs]
    | repeated =>
      rw [hs] at result
      obtain ⟨⟨e, rfl⟩, none⟩ := result
      rw [faithful_of_failure run]
      exact ⟨fun _ => sound_of_repeated passes hs, fun _ _ => none⟩
    | fresh =>
      rw [hs] at result
      obtain ⟨taken, -, -, goes⟩ := result
      cases next with
      | true =>
        rw [if_neg (by decide)] at goes
        split at goes
        · -- an empty page that announces another one
          obtain ⟨e, rfl⟩ := goes
          have nodup := (scan_fresh hs going.nodup).2
          rw [← (idsOf_append p.pages headers passes.items_eq).2] at nodup
          rw [faithful_of_failure run, pages]
          refine ⟨fun _ => ⟨fun items' passes' _ => ?_, fun _ repeated => absurd nodup repeated⟩,
            fun _ repeated => absurd nodup repeated⟩
          cases (passes.unique passes').2
        · exact absurd goes ends
      | false =>
        rw [if_pos rfl] at goes
        subst goes
        exact faithful_of_ended going passes hs run pages taken
  · have none : ∀ items next,
        ¬Passes client path filters budget.rows p.pages value headers items next :=
      fun items next h => passes ⟨items, next, h⟩
    obtain ⟨e, q', eq, same, pages⟩ := receive_blocked going rows none
    cases receive.symm.trans eq
    rw [forall_last (fetched pages), faithful_of_failure run, pages, same, sound_of_rejected going]
    exact fun items next h => absurd h (none items next)

/-! ## A total that is forgotten -/

/-- The documents of two pages of one row each. -/
def samplePage (id : Nat) : Value := .array [.object [("id", .number (.posInt id))]]

/-- A server whose first page announces three pages, and whose second page ends the list. -/
def sampleClient : Client where
  origin := ⟨"https://gitlab.example/", some ("https", "gitlab.example", 443), "", none, "/",
    [], none⟩
  token := "secret"
  crate := {
    parse := fun _ => none
    join := fun base path => some { base with path := s!"/{path}" }
    withSegments := fun _ _ => none
    extendPairs := fun url pairs => { url with pairs := url.pairs ++ pairs } }
  net := {
    server := fun request =>
      if request = 1 then .answered ⟨200, [("x-next-page", HeaderValue.ofString "2"),
        ("x-total-pages", HeaderValue.ofString "3")], none, [HeaderValue.ofString "[\x7b\"id\":1\x7d]"], false⟩
      else .answered ⟨200, [("x-next-page", HeaderValue.ofString "")], none,
        [HeaderValue.ofString "[\x7b\"id\":2\x7d]"], false⟩
    decode := fun bytes =>
      if bytes = HeaderValue.ofString "[\x7b\"id\":1\x7d]" then some (samplePage 1)
      else some (samplePage 2) }

/-- The list ends without a failure after two pages, although the first page announced three. -/
theorem forgotten_total : ¬Faithful sampleClient "groups/1/members" [] ⟨0, 0, 0⟩ := by
  intro faithful
  have none : (sampleClient.listing "groups/1/members" [] ⟨0, 0, 0⟩).1.failure = none := by
    decide +kernel
  have pages : fetchedPages sampleClient "groups/1/members" [] ⟨0, 0, 0⟩ =
      [(samplePage 1, [("x-next-page", HeaderValue.ofString "2"), ("x-total-pages", HeaderValue.ofString "3")]),
        (samplePage 2, [("x-next-page", HeaderValue.ofString "")])] := by
    decide +kernel
  have := faithful.last none _ (by rw [pages]; exact List.mem_cons_self ..) 3
    (.inr (.inr ⟨_, List.mem_cons_self .., by decide +kernel⟩))
  rw [pages] at this
  exact absurd this (by decide)

end Permesh.Gitlab

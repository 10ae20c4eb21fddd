import Permesh.Laws.Github.Pages
import Permesh.Lib.Maps

/-!
# Laws.Github.Listing — when a list is complete

A list that ends without an error ought to have reached the last page, and a `next` that leads
elsewhere ought to be an error (`Orderly`). Since `nextPage` reads the first link header only, this
holds exactly when the further link headers of the run list nothing that counts (`Unread`).

A run of the page loop is given by the pages it fetched, and the statement is about these. Both
directions use that the loop ends in one of few ways (`pages_ended`). What the further headers list may
still be true; it is only not read.
-/

namespace Permesh.Github

open Permesh.Json Permesh.Http
open Permesh.Lib (forall_mem_snoc)

/-! ## Requests -/

theorem attempts_sent (client : Client) (url : Url) (accept : String) (left attempt : Nat)
    (w : Wire) : ∃ times ≤ left, (client.attempts url accept left attempt w).2.sent =
      w.sent ++ List.replicate times (url, accept) ∧
      (client.attempts url accept left attempt w).2.budget.rows = w.budget.rows := by
  induction left generalizing attempt w with
  | zero => exact ⟨0, Nat.le_refl _, by simp [Client.attempts]⟩
  | succ left ih =>
    have once : (w.send url accept).sent = w.sent ++ List.replicate 1 (url, accept) := rfl
    unfold Client.attempts
    split
    · exact ⟨0, Nat.zero_le _, by simp⟩
    dsimp only
    split
    · exact ⟨1, by omega, once, rfl⟩
    · exact ⟨1, by omega, once, rfl⟩
    split
    case isTrue =>
      split
      · exact ⟨1, by omega, once, rfl⟩
      case _ delay _ =>
        obtain ⟨times, le, sent, rows⟩ := ih (attempt + 1) ((w.send url accept).sleep delay)
        refine ⟨1 + times, by omega, ?_, rows⟩
        rw [sent, show ((w.send url accept).sleep delay).sent = (w.send url accept).sent from rfl,
          once, List.append_assoc, List.replicate_append_replicate]
    case isFalse => exact ⟨1, by omega, once, rfl⟩

/-! ## Lists -/

/-- The rows of a page: an array of at most 100 rows. -/
def rowsOf (page : Page) : List Value :=
  (page.value.asArray.filter fun items => items.length ≤ 100).getD []

/-- No link header of the page lists a next page, and without a link header it is not full. -/
structure Final (page : Page) : Prop where
  ends : ∀ value ∈ page.headers.getAll "link", ∀ target, ¬ListsNext value target
  short : page.headers.getAll "link" = [] → (rowsOf page).length < 100

section

variable (client : Client) (segments : List String) (filters : List (String × String))

def fetchedPages (w : Wire) : List Page := (client.run segments filters w).1.pages

/-- The pages that were asked for, each up to three times: 1, 2, 3 and so on. -/
structure Asked (sent : List (Url × String)) (pages : List Page) (turns : List (Url × Nat)) :
    Prop where
  sent_eq : sent = turns.flatMap fun turn =>
    List.replicate turn.2 (turn.1, "application/vnd.github+json")
  times : ∀ turn ∈ turns, turn.2 ≤ 3
  pages_eq : pages.map Page.url <+: turns.map Prod.fst
  last : turns.length ≤ pages.length + 1
  urls : ∀ page url, (turns.map Prod.fst)[page]? = some url →
    client.url segments (Client.query filters (page + 1)) = .ok url

/-- What a list promises. -/
structure Orderly (w : Wire) : Prop where
  asked : ∃ sent turns, (client.list segments filters w).2.sent = w.sent ++ sent ∧
    Asked client segments filters sent (fetchedPages client segments filters w) turns
  unfetched : fetchedPages client segments filters w = [] →
    (client.list segments filters w).1.items = []
  items : ∀ init last, fetchedPages client segments filters w = init ++ [last] →
    (client.list segments filters w).1.items = init.flatMap rowsOf ++
      (rowsOf last).take (MAX_ROWS - (w.budget.rows + (init.flatMap rowsOf).length))
  final : (client.list segments filters w).1.error = none →
    ∃ init last, fetchedPages client segments filters w = init ++ [last] ∧ Final last
  guarded : ∀ page ∈ fetchedPages client segments filters w,
    ∀ value ∈ page.headers.getAll "link", ∀ target, ListsNext value target →
      ¬Leads client.crate page.url target → (client.list segments filters w).1.error ≠ none

/-- A page behind the pages `init` is a list of at most 100 rows within the row budget, and its
first link header says whether the list goes on. -/
structure Passes (rows₀ : Nat) (init : List Page) (page : Page) (next : Bool) : Prop where
  rows : page.value = .array (rowsOf page) ∧ (rowsOf page).length ≤ 100
  budget : (rowsOf page).length ≤ MAX_ROWS - (rows₀ + (init.flatMap rowsOf).length)
  next_eq : nextPage client.crate page.url page.headers (rowsOf page).length = .ok next

/-- If the last page of the run passes and ends the list, then the link headers behind the first one
list no next page on it, and on the pages before it only the page behind each of them. -/
def Unread (w : Wire) : Prop :=
  ∀ init last, fetchedPages client segments filters w = init ++ [last] →
    Passes client w.budget.rows init last false →
      (∀ value ∈ unread last.headers, ∀ target, ¬ListsNext value target) ∧
      ∀ page ∈ init, ∀ value ∈ unread page.headers, ∀ target, ListsNext value target →
        Leads client.crate page.url target

/-- A run that goes on: all pages so far were taken in. -/
structure Going (w : Wire) (p : Progress) : Prop where
  items : p.items = p.pages.flatMap rowsOf
  budget : p.wire.budget.rows = w.budget.rows + (p.pages.flatMap rowsOf).length
  passed : ∀ init page rest, p.pages = init ++ page :: rest →
    Passes client w.budget.rows init page true
  asked : ∃ sent turns, p.wire.sent = w.sent ++ sent ∧
    Asked client segments filters sent p.pages turns ∧ turns.length = p.pages.length

/-- A run that has ended. -/
structure Ended (w : Wire) (p : Progress) (failure : Option ProviderError) : Prop where
  asked : ∃ sent turns, p.wire.sent = w.sent ++ sent ∧
    Asked client segments filters sent p.pages turns
  unfetched : p.pages = [] → p.items = []
  items : ∀ init last, p.pages = init ++ [last] → p.items = init.flatMap rowsOf ++
    (rowsOf last).take (MAX_ROWS - (w.budget.rows + (init.flatMap rowsOf).length))
  passed : ∀ init page rest, p.pages = init ++ page :: rest → rest ≠ [] →
    Passes client w.budget.rows init page true
  verdict : failure = none ↔
    ∃ init last, p.pages = init ++ [last] ∧ Passes client w.budget.rows init last false

end

variable {client : Client} {segments : List String} {filters : List (String × String)} {w : Wire}

theorem Passes.unique {rows₀ : Nat} {init : List Page} {page : Page} {next next' : Bool}
    (h : Passes client rows₀ init page next) (h' : Passes client rows₀ init page next') :
    next = next' := by
  cases h.next_eq.symm.trans h'.next_eq
  rfl

variable (client segments filters w) in
theorem going_start : Going client segments filters w ⟨[], false, w, []⟩ where
  items := rfl
  budget := rfl
  passed := fun init _ _ h => by cases init <;> cases h
  asked := ⟨[], [], (List.append_nil _).symm,
    ⟨rfl, fun _ h => (by cases h), List.nil_prefix, Nat.zero_le _, fun _ _ h => (by cases h)⟩, rfl⟩

/-- One more page is asked for. -/
theorem Asked.ask {sent : List (Url × String)} {pages : List Page} {turns : List (Url × Nat)}
    (h : Asked client segments filters sent pages turns) (same : turns.length = pages.length)
    {url : Url} (hu : client.url segments (Client.query filters (pages.length + 1)) = .ok url)
    {times : Nat} (le : times ≤ 3) :
    Asked client segments filters
      (sent ++ List.replicate times (url, "application/vnd.github+json")) pages
      (turns ++ [(url, times)]) where
  sent_eq := by rw [List.flatMap_append, ← h.sent_eq, List.flatMap_singleton]
  times := forall_mem_snoc h.times le
  pages_eq := by
    rw [List.map_append]
    exact h.pages_eq.trans (List.prefix_append _ _)
  last := by rw [List.length_append, List.length_singleton, same]
  urls := fun page url' hp => by
    rw [List.map_append, List.map_singleton, List.getElem?_append, List.length_map, same] at hp
    split at hp
    · exact h.urls page url' hp
    case isFalse ge =>
      have last : page - pages.length = 0 := by
        have := (List.getElem?_eq_some_iff.mp hp).1
        simpa using this
      rw [last] at hp
      cases hp
      rw [show page = pages.length by omega]
      exact hu

/-- The page that was asked for last has come. -/
theorem Asked.fetch {sent : List (Url × String)} {pages : List Page} {turns : List (Url × Nat)}
    (page : Page) {times : Nat} (same : turns.length = pages.length)
    (h : Asked client segments filters sent pages (turns ++ [(page.url, times)])) :
    Asked client segments filters sent (pages ++ [page]) (turns ++ [(page.url, times)]) where
  sent_eq := h.sent_eq
  times := h.times
  pages_eq := by
    have urls := List.prefix_iff_eq_take.mp h.pages_eq
    rw [List.map_append, List.take_left' (by simp [same])] at urls
    rw [List.map_append, List.map_append, urls]
    exact List.prefix_refl _
  last := by simp [same]
  urls := h.urls

/-! ## Pages -/

/-- A page that is fetched behind `p`. -/
def Progress.fetch (p : Progress) (wire : Wire) (page : Page) : Progress :=
  { p with wire := wire, pages := p.pages ++ [page] }

/-- The rows of a page: its items, unless there are too many. -/
theorem rowsOf_array {page : Page} {items : List Value} (hv : page.value = .array items) :
    rowsOf page = if items.length > 100 then [] else items := by
  have known : page.value.asArray = some items := by rw [hv]; rfl
  rw [rowsOf, known]
  split
  case isTrue long =>
    rw [Option.filter_some, if_neg (by simpa using long)]
    rfl
  case isFalse short =>
    rw [Option.filter_some, if_pos (by simpa using short)]
    rfl

/-- A page that is no list has none. -/
theorem rowsOf_other {page : Page} (other : ∀ items, page.value ≠ .array items) :
    rowsOf page = [] := by
  unfold rowsOf Value.asArray
  split
  · exact absurd ‹_› (other _)
  · rfl

/-- What becomes of a page. -/
theorem receive_cases {p : Progress} (going : Going client segments filters w p) {wire : Wire}
    (rows : wire.budget.rows = p.wire.budget.rows) (n : Nat) (page : Page) :
    ∃ q r, client.receive n (p.fetch wire page) page = (q, r) ∧ q.pages = p.pages ++ [page] ∧
      q.items = p.items ++
        (rowsOf page).take (MAX_ROWS - (w.budget.rows + (p.pages.flatMap rowsOf).length)) ∧
      q.wire.sent = wire.sent ∧
      match r with
      | .error _ => ¬Passes client w.budget.rows p.pages page false
      | .ok next => Passes client w.budget.rows p.pages page next ∧
          q.wire.budget.rows = p.wire.budget.rows + (rowsOf page).length ∧
          (next = true → n ≠ MAX_PAGES) := by
  unfold Client.receive
  split
  case h_1 items hv =>
    have items_eq := rowsOf_array hv
    dsimp only
    by_cases long : items.length > 100
    · have none : rowsOf page = [] := items_eq.trans (if_pos long)
      rw [if_pos long]
      refine ⟨_, _, rfl, rfl, ?_, rfl, fun passes => ?_⟩
      · rw [none, List.take_nil, List.append_nil]
        rfl
      · have := passes.rows.1
        rw [none, hv] at this
        cases this
        exact absurd long (by decide)
    · have read : rowsOf page = items := items_eq.trans (if_neg long)
      rw [if_neg long, read]
      have left : MAX_ROWS - (p.fetch wire page).wire.budget.rows =
          MAX_ROWS - (w.budget.rows + (p.pages.flatMap rowsOf).length) := by
        rw [← going.budget, ← rows]
        rfl
      rw [left]
      have taken (n : Nat) : items.take (min items.length n) = items.take n := by
        rcases Nat.le_total items.length n with le | le
        · rw [Nat.min_eq_left le, List.take_length, List.take_of_length_le le]
        · rw [Nat.min_eq_right le]
      rw [taken]
      split
      case isTrue cut =>
        refine ⟨_, _, rfl, rfl, rfl, rfl, fun passes => ?_⟩
        have := passes.budget
        rw [read] at this
        omega
      case isFalse whole =>
        have fits : items.length ≤ MAX_ROWS - (w.budget.rows + (p.pages.flatMap rowsOf).length) := by
          omega
        have passes {next : Bool}
            (hn : nextPage client.crate page.url page.headers items.length = .ok next) :
            Passes client w.budget.rows p.pages page next := by
          refine ⟨⟨by rw [hv, read], by rw [read]; omega⟩, by rwa [read], by rwa [read]⟩
        have counted : wire.budget.rows + min items.length
            (MAX_ROWS - (w.budget.rows + (p.pages.flatMap rowsOf).length)) =
              p.wire.budget.rows + items.length := by
          rw [rows, Nat.min_eq_left fits]
        split
        case h_1 hn => exact ⟨_, _, rfl, rfl, rfl, rfl, passes hn, counted, fun h => (by cases h)⟩
        case h_2 hn =>
          refine ⟨_, _, rfl, rfl, rfl, rfl, fun ends => ?_⟩
          have := ends.next_eq
          rw [read, hn] at this
          cases this
        case h_3 hn =>
          split
          case isTrue =>
            exact ⟨_, _, rfl, rfl, rfl, rfl, fun ends => by cases ends.unique (passes hn)⟩
          case isFalse more =>
            exact ⟨_, _, rfl, rfl, rfl, rfl, passes hn, counted, fun _ => more⟩
  case h_2 other =>
    have none : rowsOf page = [] := rowsOf_other other
    refine ⟨_, _, rfl, rfl, ?_, rfl, fun passes => ?_⟩
    · rw [none, List.take_nil, List.append_nil]
      rfl
    · exact other _ passes.rows.1

/-- **One more page is taken in.** -/
theorem Going.step {p q : Progress} (going : Going client segments filters w p) {page : Page}
    (passes : Passes client w.budget.rows p.pages page true) (pages : q.pages = p.pages ++ [page])
    (items : q.items = p.items ++
      (rowsOf page).take (MAX_ROWS - (w.budget.rows + (p.pages.flatMap rowsOf).length)))
    (budget : q.wire.budget.rows = p.wire.budget.rows + (rowsOf page).length)
    (asked : ∃ sent turns, q.wire.sent = w.sent ++ sent ∧
      Asked client segments filters sent q.pages turns ∧ turns.length = q.pages.length) :
    Going client segments filters w q where
  items := by
    rw [items, pages, List.flatMap_append, List.flatMap_singleton, going.items,
      List.take_of_length_le passes.budget]
  budget := by
    rw [budget, pages, List.flatMap_append, List.flatMap_singleton, going.budget,
      List.length_append, Nat.add_assoc]
  passed := fun init page' rest h => by
    rw [pages] at h
    rcases List.eq_nil_or_concat rest with rfl | ⟨rest, last, rfl⟩
    · obtain ⟨rfl, same⟩ := List.append_inj' h rfl
      cases same
      exact passes
    · rw [List.concat_eq_append, ← List.cons_append, ← List.append_assoc] at h
      exact going.passed init page' rest (List.append_inj' h rfl).1
  asked := asked

/-- A run that ends behind the pages it has taken in. -/
theorem Going.ended {p : Progress} (going : Going client segments filters w p) {wire : Wire}
    (failure : ProviderError) (asked : ∃ sent turns, wire.sent = w.sent ++ sent ∧
      Asked client segments filters sent p.pages turns) :
    Ended client segments filters w { p with wire := wire } (some failure) where
  asked := asked
  unfetched := fun h => by
    have := going.items
    rw [h] at this
    exact this
  items := fun init last h => by
    have passes := going.passed init last [] h
    rw [List.take_of_length_le passes.budget]
    have := going.items
    rwa [h, List.flatMap_append, List.flatMap_singleton] at this
  passed := fun init page rest h _ => going.passed init page rest h
  verdict := by
    constructor
    · intro h
      cases h
    · rintro ⟨init, last, h, passes⟩
      cases (going.passed init last [] h).unique passes

/-- A run that ends with the page behind those it has taken in. -/
theorem Going.closed {p q : Progress} (going : Going client segments filters w p) {page : Page}
    {failure : Option ProviderError} (pages : q.pages = p.pages ++ [page])
    (items : q.items = p.items ++
      (rowsOf page).take (MAX_ROWS - (w.budget.rows + (p.pages.flatMap rowsOf).length)))
    (asked : ∃ sent turns, q.wire.sent = w.sent ++ sent ∧
      Asked client segments filters sent q.pages turns)
    (verdict : failure = none ↔ Passes client w.budget.rows p.pages page false) :
    Ended client segments filters w q failure where
  asked := asked
  unfetched := fun h => by
    rw [pages] at h
    cases List.append_ne_nil_of_right_ne_nil _ (List.cons_ne_nil _ _) h
  items := fun init last h => by
    rw [pages] at h
    obtain ⟨rfl, same⟩ := List.append_inj' h rfl
    cases same
    rw [items, going.items]
  passed := fun init page' rest h more => by
    rw [pages] at h
    rcases List.eq_nil_or_concat rest with rfl | ⟨rest, last, rfl⟩
    · exact absurd rfl more
    · rw [List.concat_eq_append, ← List.cons_append, ← List.append_assoc] at h
      exact going.passed init page' rest (List.append_inj' h rfl).1
  verdict := by
    rw [verdict, pages]
    constructor
    · exact fun passes => ⟨p.pages, page, rfl, passes⟩
    · rintro ⟨init, last, h, passes⟩
      obtain ⟨rfl, same⟩ := List.append_inj' h rfl
      cases same
      exact passes

/-- What one turn does. -/
theorem turn_cases {p : Progress} (going : Going client segments filters w p) :
    ∃ q r, client.turn segments filters (p.pages.length + 1) p = (q, r) ∧
      match r with
      | .error failure => Ended client segments filters w q (some failure)
      | .ok false => Ended client segments filters w q none
      | .ok true => Going client segments filters w q ∧
          q.pages.length = p.pages.length + 1 ∧ p.pages.length + 1 ≠ MAX_PAGES := by
  obtain ⟨sent, turns, sent_eq, asked, same⟩ := going.asked
  unfold Client.turn
  cases hu : client.url segments (Client.query filters (p.pages.length + 1)) with
  | error e => exact ⟨_, _, rfl, going.ended e ⟨sent, turns, sent_eq, asked⟩⟩
  | ok url =>
    obtain ⟨times, le, sends, rows⟩ :=
      attempts_sent client url "application/vnd.github+json" 3 0 p.wire
    change (client.get url p.wire).2.sent = _ at sends
    change (client.get url p.wire).2.budget.rows = _ at rows
    have asked' := asked.ask same hu le
    rw [sent_eq, List.append_assoc] at sends
    cases hg : client.get url p.wire with
    | mk answer wire =>
      rw [hg] at sends rows
      dsimp only at sends rows ⊢
      rw [hg]
      cases answer with
      | error e => exact ⟨_, _, rfl, going.ended e ⟨_, _, sends, asked'⟩⟩
      | ok fetched =>
        obtain ⟨headers, value⟩ := fetched
        obtain ⟨q, r, receive, pages, items, sent', result⟩ :=
          receive_cases going rows (p.pages.length + 1) ⟨url, headers, value⟩
        have fetch := Asked.fetch ⟨url, headers, value⟩ same asked'
        rw [← pages] at fetch
        have reached : ∃ sent turns, q.wire.sent = w.sent ++ sent ∧
            Asked client segments filters sent q.pages turns := ⟨_, _, sent'.trans sends, fetch⟩
        refine ⟨q, r, receive, ?_⟩
        cases r with
        | error e =>
          exact going.closed pages items reached
            ⟨fun h => (by cases h), fun passes => absurd passes result⟩
        | ok next =>
          obtain ⟨passes, budget, unbounded⟩ := result
          cases next with
          | false => exact going.closed pages items reached ⟨fun _ => passes, fun _ => rfl⟩
          | true =>
            have length : q.pages.length = p.pages.length + 1 := by rw [pages]; simp
            exact ⟨going.step passes pages items budget
              ⟨_, _, sent'.trans sends, fetch, by simp [length, same]⟩, length, unbounded rfl⟩

/-- **Every run ends.** -/
theorem pages_ended (left : Nat) {p : Progress} (going : Going client segments filters w p)
    (total : p.pages.length + left = MAX_PAGES) (more : 0 < left) :
    Ended client segments filters w (client.pages segments filters left (p.pages.length + 1) p).1
      (client.pages segments filters left (p.pages.length + 1) p).2 := by
  induction left generalizing p with
  | zero => omega
  | succ left ih =>
    obtain ⟨q, r, turn, result⟩ := turn_cases going
    unfold Client.pages
    rw [turn]
    match r, result with
    | .error failure, result => exact result
    | .ok false, result => exact result
    | .ok true, ⟨goes, length, unbounded⟩ =>
      have := ih goes (by omega) (by omega)
      rwa [length] at this

/-! ## Completeness -/

theorem list_eq (client : Client) (segments : List String) (filters : List (String × String))
    (w : Wire) : client.list segments filters w =
      (⟨(client.run segments filters w).1.items, (client.run segments filters w).2,
        (client.run segments filters w).1.success⟩, (client.run segments filters w).1.wire) := by
  unfold Client.list
  cases client.run segments filters w
  rfl

theorem run_ended (client : Client) (segments : List String) (filters : List (String × String))
    (w : Wire) : Ended client segments filters w (client.run segments filters w).1
      (client.run segments filters w).2 := by
  have start := going_start client segments filters w
  have ended := pages_ended MAX_PAGES start (Nat.zero_add _) (by decide)
  rw [List.length_nil, Nat.zero_add] at ended
  exact ended

/-- **A list is orderly exactly when its further link headers list nothing.** -/
theorem orderly_iff_unread (client : Client) (segments : List String)
    (filters : List (String × String)) (w : Wire) :
    Orderly client segments filters w ↔ Unread client segments filters w := by
  have ended := run_ended client segments filters w
  have list := list_eq client segments filters w
  constructor
  · intro orderly init last pages passes
    have quiet : (client.list segments filters w).1.error = none := by
      rw [list]
      exact ended.verdict.mpr ⟨init, last, pages, passes⟩
    constructor
    · intro value mem target
      obtain ⟨init', last', pages', final⟩ := orderly.final quiet
      obtain ⟨rfl, same⟩ := List.append_inj' (pages.symm.trans pages') rfl
      cases same
      exact final.ends value (List.mem_of_mem_tail mem) target
    · intro page hp value mem target lists
      by_contra astray
      refine orderly.guarded page ?_ value (List.mem_of_mem_tail mem) target lists astray quiet
      rw [pages]
      exact List.mem_append_left _ hp
  · intro unread
    refine ⟨?_, ?_, ?_, fun quiet => ?_, ?_⟩
    · rw [list]
      exact ended.asked
    · rw [list]
      exact ended.unfetched
    · rw [list]
      exact ended.items
    · rw [list] at quiet
      obtain ⟨init, last, pages, passes⟩ := ended.verdict.mp quiet
      refine ⟨init, last, pages, fun value mem target lists => ?_, fun empty => ?_⟩
      · rcases (nextPage_ok passes.next_eq).2 value mem target lists with further | ⟨h, -⟩
        · exact (unread init last pages passes).1 value further target lists
        · cases h
      · have := (nextPage_ok passes.next_eq).1 empty
        have le := passes.rows.2
        have ne : (rowsOf last).length ≠ 100 := by simpa using this.symm
        omega
    · intro page hp value mem target lists astray quiet
      rw [list] at quiet
      obtain ⟨init, last, pages, passes⟩ := ended.verdict.mp quiet
      obtain ⟨before, after⟩ := unread init last pages passes
      change page ∈ (client.run segments filters w).1.pages at hp
      change (client.run segments filters w).1.pages = _ at pages
      rw [pages] at hp
      rcases List.mem_append.mp hp with hp | hp
      · obtain ⟨earlier, later, rfl⟩ := List.append_of_mem hp
        have goes := ended.passed earlier page (later ++ [last])
          (by rw [pages, List.append_assoc, List.cons_append]) (by simp)
        rcases (nextPage_ok goes.next_eq).2 value mem target lists with further | ⟨-, leads⟩
        · exact astray (after page hp value further target lists)
        · exact astray leads
      · rw [List.mem_singleton.mp hp] at mem
        rcases (nextPage_ok passes.next_eq).2 value mem target lists with further | ⟨h, -⟩
        · exact before value further target lists
        · cases h

/-- A list that ends without an error drops no row of its pages. -/
theorem list_rows (quiet : (client.list segments filters w).1.error = none) :
    ∀ page ∈ fetchedPages client segments filters w, ∀ row ∈ page.value.asArray.getD [],
      row ∈ (client.list segments filters w).1.items := by
  intro page hp row hr
  have ended := run_ended client segments filters w
  rw [list_eq] at quiet ⊢
  obtain ⟨init, last, pages, passes⟩ := ended.verdict.mp quiet
  have items := ended.items init last pages
  rw [List.take_of_length_le passes.budget] at items
  change row ∈ (client.run segments filters w).1.items
  change page ∈ (client.run segments filters w).1.pages at hp
  rw [items]
  rw [pages] at hp
  rcases List.mem_append.mp hp with hp | hp
  · obtain ⟨earlier, later, rfl⟩ := List.append_of_mem hp
    have goes := ended.passed earlier page (later ++ [last])
      (by rw [pages, List.append_assoc, List.cons_append]) (by simp)
    rw [goes.rows.1] at hr
    exact List.mem_append_left _ (List.mem_flatMap.mpr ⟨page, hp, hr⟩)
  · rw [List.mem_singleton.mp hp, passes.rows.1] at hr
    exact List.mem_append_right _ hr

end Permesh.Github

import Permesh.Gitlab.Discovery
import Permesh.Laws.Gitlab.Listing
import Permesh.Lib.Program
import Mathlib.Algebra.Order.BigOperators.Group.Finset

/-!
# Laws.Gitlab.Exchanges — what one request or list may cost

The exchanges of an operation are numbered by its requests, and the byte counter is what was counted
in them (`Books`). An exchange fits if what was read of its body was counted and the counter stayed
within its bound. A request, and so a list, goes on behind exchanges that fit and ends with the first
one that does not (`attempts_clean`, `listing_clean`), and it looks at no exchange beyond its own
(`attempts_sees`).

What an operation makes of a request that fails is not decided here.
-/

namespace Permesh.Gitlab

open Permesh.Json Permesh.Http Permesh.Lib

/-! ## Bytes -/

/-- The bytes that are read of a body: up to the chunk that exceeds the limit. -/
def chunksRead (limit : Nat) : Nat → List (List UInt8) → Nat
  | total, [] => total
  | total, chunk :: chunks =>
    if total + chunk.length > limit then total + chunk.length
    else chunksRead limit (total + chunk.length) chunks

/-- The bytes of a body that are read in an exchange, where `late` of them had come when the deadline
passed. -/
def bytesRead (late : Nat) : Exchange → Nat
  | .failed _ => 0
  | .elapsed => late
  | .answered r => if r.contentLength.any (· > MAX_BODY) then 0 else chunksRead MAX_BODY 0 r.chunks

/-- The bytes that the budget counts: those of a body that was read whole. -/
def bytesCounted : Exchange → Nat
  | .answered r => ((r.body MAX_BODY).toOption.map List.length).getD 0
  | _ => 0

/-- The bytes that are read in the first `n` exchanges. -/
def downloaded (net : Net) (late : Nat → Nat) (n : Nat) : Nat :=
  ∑ i ∈ Finset.range n, bytesRead (late (i + 1)) (net.server (i + 1))

/-- The bytes that are counted in the first `n` exchanges. -/
def counted (net : Net) (n : Nat) : Nat :=
  ∑ i ∈ Finset.range n, bytesCounted (net.server (i + 1))

theorem readChunks_ok {limit : Nat} {broken : Bool} {bytes body : List UInt8}
    {chunks : List (List UInt8)} (h : readChunks limit broken bytes chunks = .ok body) :
    chunksRead limit bytes.length chunks = body.length := by
  induction chunks generalizing bytes with
  | nil =>
    unfold readChunks at h
    split at h
    · cases h
    · cases h
      rfl
  | cons chunk chunks ih =>
    unfold readChunks at h
    split at h
    case isTrue => cases h
    case isFalse fits =>
      rw [chunksRead, if_neg fits, ← ih h, List.length_append]

/-- A body that was read whole is counted as it was read. -/
theorem body_ok {r : Response} {body : List UInt8} (h : r.body MAX_BODY = .ok body) (late : Nat) :
    bytesRead late (.answered r) = body.length ∧ bytesCounted (.answered r) = body.length := by
  refine ⟨?_, by rw [bytesCounted, h]; rfl⟩
  unfold Response.body at h
  split at h
  · cases h
  case isFalse fits =>
    rw [bytesRead, if_neg fits]
    exact readChunks_ok h

/-! ## Requests -/

/-- The exchanges of an operation: a request above the bound is refused. -/
def sent (b : Budget) : Nat := min b.requests MAX_REQUESTS

section

variable (client : Client)

/-- What one attempt does: it is refused, or it ends with a body that was not read, or the body is
counted; and behind that it is over, or there is another attempt. -/
theorem Client.attempts_step (left attempt : Nat) (b : Budget) :
    (MAX_REQUESTS < b.requests + 1 ∧ ∃ e, client.attempts (left + 1) attempt b =
      (.error e, { b with requests := b.requests + 1 })) ∨
    b.requests + 1 ≤ MAX_REQUESTS ∧
      ((bytesCounted (client.net.server (b.requests + 1)) = 0 ∧
        ∃ e, client.attempts (left + 1) attempt b =
          (.error e, { b with requests := b.requests + 1 })) ∨
      ∃ size, bytesCounted (client.net.server (b.requests + 1)) = size ∧
        (∀ late, bytesRead late (client.net.server (b.requests + 1)) = size) ∧
        ((∃ e, client.attempts (left + 1) attempt b =
            (.error e, { b with requests := b.requests + 1, bytes := b.bytes + size })) ∨
          b.bytes + size ≤ MAX_TOTAL_BODY ∧
            ((∃ page, client.attempts (left + 1) attempt b =
              (.ok page, { b with requests := b.requests + 1, bytes := b.bytes + size })) ∨
            client.attempts (left + 1) attempt b = client.attempts left (attempt + 1)
              { b with requests := b.requests + 1, bytes := b.bytes + size }))) := by
  rw [Client.attempts]
  dsimp only
  split
  case isTrue exceeds => exact .inl ⟨exceeds, _, rfl⟩
  case isFalse within =>
    refine .inr ⟨Nat.le_of_not_lt within, ?_⟩
    cases hs : client.net.server (b.requests + 1) with
    | failed _ => exact .inl ⟨rfl, _, rfl⟩
    | elapsed => exact .inl ⟨rfl, _, rfl⟩
    | answered r =>
      dsimp only
      cases hb : r.body MAX_BODY with
      | error code => exact .inl ⟨by rw [bytesCounted, hb]; rfl, _, rfl⟩
      | ok body =>
        refine .inr ⟨body.length, (body_ok hb 0).2, fun late => (body_ok hb late).1, ?_⟩
        dsimp only
        split
        case isTrue => exact .inl ⟨_, rfl⟩
        case isFalse fits =>
          have fits := Nat.le_of_not_lt fits
          split
          · split
            · exact .inl ⟨_, rfl⟩
            · exact .inr ⟨fits, .inr rfl⟩
          · split
            · exact .inl ⟨_, rfl⟩
            · split
              · exact .inl ⟨_, rfl⟩
              · split
                · exact .inl ⟨_, rfl⟩
                · exact .inr ⟨fits, .inl ⟨_, rfl⟩⟩

end

/-! ### The counter -/

/-- The counter of a budget is what was counted in its exchanges. -/
def Books (net : Net) (b : Budget) : Prop := b.bytes = counted net (sent b)

/-- The exchange of a request: what was read of the body was counted, and the counter stayed within
its bound. -/
structure Fits (net : Net) (late : Nat → Nat) (request : Nat) : Prop where
  whole : bytesRead (late request) (net.server request) = bytesCounted (net.server request)
  counter : counted net request ≤ MAX_TOTAL_BODY

section

variable {client : Client} {late : Nat → Nat}

theorem sent_over {b : Budget} (exceeds : MAX_REQUESTS < b.requests + 1) (bytes : Nat) :
    sent { b with requests := b.requests + 1, bytes := bytes } = sent b := by
  simp only [sent]
  omega

theorem sent_next {b : Budget} (within : b.requests + 1 ≤ MAX_REQUESTS) (bytes : Nat) :
    sent b = b.requests ∧
      sent { b with requests := b.requests + 1, bytes := bytes } = b.requests + 1 := by
  simp only [sent]
  omega

/-- The books behind one more exchange. -/
theorem Books.next {net : Net} {b : Budget} {size : Nat} (books : Books net b)
    (within : b.requests + 1 ≤ MAX_REQUESTS)
    (counted : bytesCounted (net.server (b.requests + 1)) = size) :
    Books net { b with requests := b.requests + 1, bytes := b.bytes + size } := by
  obtain ⟨here, there⟩ := sent_next within (b.bytes + size)
  unfold Books at books ⊢
  rw [there, Gitlab.counted, Finset.sum_range_succ, counted, books, here]
  rfl

theorem attempts_books {left attempt : Nat} {b : Budget} (books : Books client.net b) :
    Books client.net (client.attempts left attempt b).2 := by
  induction left generalizing attempt b with
  | zero => exact books
  | succ left ih =>
    rcases client.attempts_step left attempt b with ⟨exceeds, e, eq⟩ | ⟨within, ⟨none, e, eq⟩ |
      ⟨size, hc, -, ⟨e, eq⟩ | ⟨-, ⟨page, eq⟩ | eq⟩⟩⟩
    · rw [eq]
      unfold Books
      rw [sent_over exceeds b.bytes]
      exact books
    · rw [eq]
      exact books.next within none
    · rw [eq]
      exact books.next within hc
    · rw [eq]
      exact books.next within hc
    · rw [eq]
      exact ih (books.next within hc)

/-- All exchanges fit. -/
structure Clean (net : Net) (late : Nat → Nat) (b : Budget) : Prop where
  books : Books net b
  fits : ∀ i, 0 < i → i ≤ sent b → Fits net late i

/-- All exchanges fit except for the last one. -/
def Ended (net : Net) (late : Nat → Nat) (n : Nat) : Prop := ∀ i, 0 < i → i < n → Fits net late i

theorem Clean.ended {net : Net} {b b' : Budget} (clean : Clean net late b)
    (le : sent b' ≤ sent b + 1) : Ended net late (sent b') :=
  fun i pos lt => clean.fits i pos (by omega)

/-- A request goes on behind exchanges that fit, and ends with the first one that does not. -/
theorem attempts_clean (left attempt : Nat) {b : Budget} (clean : Clean client.net late b) :
    match client.attempts left attempt b with
    | (.ok _, b') => Clean client.net late b'
    | (.error _, b') => Ended client.net late (sent b') := by
  induction left generalizing attempt b with
  | zero => exact clean.ended (Nat.le_succ _)
  | succ left ih =>
    rcases client.attempts_step left attempt b with ⟨exceeds, e, eq⟩ | ⟨within, rest⟩
    · rw [eq]
      exact clean.ended (by rw [sent_over exceeds b.bytes]; exact Nat.le_succ _)
    obtain ⟨here, -⟩ := sent_next within 0
    rcases rest with ⟨none, e, eq⟩ | ⟨size, hc, hr, rest⟩
    · rw [eq]
      exact clean.ended (by rw [(sent_next within _).2, here])
    have books := clean.books.next within hc
    have there := (sent_next within (b.bytes + size)).2
    rcases rest with ⟨e, eq⟩ | ⟨le, rest⟩
    · rw [eq]
      exact clean.ended (by rw [there, here])
    have clean' : Clean client.net late
        { b with requests := b.requests + 1, bytes := b.bytes + size } := by
      refine ⟨books, fun i pos le' => ?_⟩
      rw [there] at le'
      rcases Nat.lt_or_ge i (b.requests + 1) with lt | ge
      · exact clean.fits i pos (by omega)
      · obtain rfl : i = b.requests + 1 := by omega
        exact ⟨by rw [hr, hc], by rw [← there, ← books]; exact le⟩
    rcases rest with ⟨page, eq⟩ | eq
    · rw [eq]
      exact clean'
    · rw [eq]
      exact ih (attempt + 1) clean'

end

/-! ### The server that is seen -/

/-- The client with another server. -/
def Client.withServer (client : Client) (server : Nat → Exchange) : Client :=
  { client with net := { client.net with server := server } }

section

variable (client : Client) (server : Nat → Exchange)

theorem attempts_sent (left attempt : Nat) (b : Budget) :
    sent b ≤ sent (client.attempts left attempt b).2 := by
  induction left generalizing attempt b with
  | zero => exact Nat.le_refl _
  | succ left ih =>
    have step (bytes : Nat) : sent b ≤ sent { b with requests := b.requests + 1, bytes := bytes } := by
      simp only [sent]
      omega
    rcases client.attempts_step left attempt b with ⟨-, e, eq⟩ | ⟨-, ⟨-, e, eq⟩ |
      ⟨size, -, -, ⟨e, eq⟩ | ⟨-, ⟨page, eq⟩ | eq⟩⟩⟩
    · exact eq ▸ step b.bytes
    · exact eq ▸ step b.bytes
    · exact eq ▸ step _
    · exact eq ▸ step _
    · exact eq ▸ Nat.le_trans (step _) (ih _ _)

/-- A request looks at its own exchanges only. -/
theorem attempts_sees (left attempt : Nat) (b : Budget)
    (same : ∀ i, sent b < i → i ≤ sent (client.attempts left attempt b).2 →
      server i = client.net.server i) :
    (client.withServer server).attempts left attempt b = client.attempts left attempt b := by
  induction left generalizing attempt b with
  | zero => rfl
  | succ left ih =>
    rcases client.attempts_step left attempt b with ⟨exceeds, -⟩ | ⟨within, rest⟩
    · rw [Client.attempts, Client.attempts, if_pos (by exact exceeds), if_pos (by exact exceeds)]
    obtain ⟨here, there⟩ := sent_next within b.bytes
    have first : server (b.requests + 1) = client.net.server (b.requests + 1) := by
      apply same _ (by omega)
      have counts (bytes : Nat) : b.requests + 1 ≤
          sent { b with requests := b.requests + 1, bytes := bytes } :=
        Nat.le_of_eq (sent_next within bytes).2.symm
      rcases rest with ⟨-, e, eq⟩ | ⟨size, -, -, ⟨e, eq⟩ | ⟨-, ⟨page, eq⟩ | eq⟩⟩
      · exact eq ▸ counts b.bytes
      · exact eq ▸ counts _
      · exact eq ▸ counts _
      · exact eq ▸ Nat.le_trans (counts _) (attempts_sent client left (attempt + 1) _)
    rw [Client.attempts] at same ⊢
    rw [Client.attempts, show (client.withServer server).net.server = server from rfl, first]
    dsimp only at same ⊢
    split
    · rfl
    case isFalse =>
      rw [if_neg (by assumption)] at same
      cases hs : client.net.server (b.requests + 1) with
      | failed _ => rfl
      | elapsed => rfl
      | answered r =>
        rw [hs] at same
        dsimp only at same ⊢
        cases hb : r.body MAX_BODY with
        | error code => rfl
        | ok body =>
          rw [hb] at same
          dsimp only at same ⊢
          split
          · rfl
          case isFalse =>
            rw [if_neg (by assumption)] at same
            split
            case isFalse => rfl
            case isTrue again =>
              rw [if_pos again] at same
              split
              · rfl
              case h_2 hn =>
                rw [hn] at same
                refine ih _ _ fun i lt le => same i ?_ le
                exact Nat.lt_of_le_of_lt (by simp only [sent]; omega) lt

end

/-! ## Lists -/

section

variable {client : Client} {path : String} {filters : List (String × String)}

theorem enlist_frame (p : Progress) (items : List Value) :
    (enlist p items).1.budget = p.budget ∧
      ((enlist p items).1.rows = p.rows ∨ (enlist p items).1.rows = []) ∧
      ((enlist p items).2 = .ok () → (enlist p items).1.rows = p.rows) := by
  induction items generalizing p with
  | nil => exact ⟨rfl, .inl rfl, fun _ => rfl⟩
  | cons item items ih =>
    unfold enlist
    split
    · exact ⟨rfl, .inl rfl, fun _ => rfl⟩
    · split
      · exact ⟨rfl, .inr rfl, fun h => by cases h⟩
      · exact ih _

/-- A property of the rows of a list and of its budget that a page which was fetched keeps. -/
structure Received (J : List Value → Budget → Prop) : Prop where
  seen {rows : List Value} {b : Budget} (n : Nat) : J rows b → J rows { b with rows := b.rows + n }
  cleared {rows : List Value} {b : Budget} : J rows b → J [] b
  listed {rows items : List Value} {b : Budget} : J rows b → b.rows + items.length ≤ MAX_ROWS →
    J (rows ++ items) { b with rows := b.rows + items.length }

/-- A property that each step of a list keeps. -/
structure Stable (client : Client) (J : List Value → Budget → Prop) : Prop extends Received J where
  request {rows : List Value} {b : Budget} (path : String) (query : List (String × String)) :
    J rows b → J rows (client.request path query b).2

variable {J : List Value → Budget → Prop}

theorem receive_keeps (stable : Received J) {page : Nat} {p : Progress} (value : Value)
    (headers : HeaderMap) (h : J p.rows p.budget) :
    J (client.receive path filters page p value headers).1.rows
      (client.receive path filters page p value headers).1.budget := by
  unfold Client.receive
  cases pageItems value with
  | none => exact h
  | some items =>
    have seen := stable.seen items.length h
    dsimp only
    split
    · exact seen
    case isFalse within =>
      split
      · exact seen
      · split
        · exact seen
        · obtain ⟨budget, rows, ok⟩ := enlist_frame
            { p with budget := { p.budget with rows := p.budget.rows + items.length } } items
          split
          case h_1 q e he =>
            rw [he] at budget rows
            show J q.rows q.budget
            rw [show q.budget = _ from budget]
            rcases rows with rows | rows
            · rw [show q.rows = _ from rows]
              exact seen
            · rw [show q.rows = _ from rows]
              exact stable.cleared seen
          case h_2 q he =>
            rw [he] at budget ok
            have listed : J (q.rows ++ items) q.budget := by
              rw [show q.rows = p.rows from ok rfl, show q.budget = _ from budget]
              exact stable.listed h (Nat.le_of_not_lt within)
            split
            · exact listed
            · split
              · exact listed
              · exact listed

variable (path filters) in
theorem turn_keeps (stable : Stable client J) (page : Nat) {p : Progress} (h : J p.rows p.budget) :
    J (client.turn path filters page p).1.rows (client.turn path filters page p).1.budget := by
  have request := stable.request path (Client.query filters page) h
  unfold Client.turn
  split
  case h_1 budget hr =>
    rw [hr] at request
    exact request
  case h_2 budget hr =>
    rw [hr] at request
    exact receive_keeps stable.toReceived _ _ request

/-- **What each step keeps, a list keeps.** -/
theorem pages_keeps (stable : Stable client J) (left : Nat) {page : Nat} {p : Progress}
    (h : J p.rows p.budget) : J (client.pages path filters left page p).1.rows
      (client.pages path filters left page p).1.budget := by
  induction left generalizing page p with
  | zero => exact h
  | succ left ih =>
    have step := turn_keeps path filters stable page h
    unfold Client.pages
    split
    case h_1 q e ht =>
      rw [ht] at step
      exact step
    case h_2 q ht =>
      rw [ht] at step
      exact step
    case h_3 q ht =>
      rw [ht] at step
      exact ih step

theorem listing_keeps (stable : Stable client J) (path : String) (filters : List (String × String))
    {b : Budget} (h : J [] b) :
    J (client.listing path filters b).1.rows (client.listing path filters b).2 :=
  pages_keeps stable MAX_PAGES h

theorem request_keeps (J : Budget → Prop) {b : Budget}
    (attempts : ∀ left attempt, J b → J (client.attempts left attempt b).2) (path : String)
    (query : List (String × String)) (h : J b) : J (client.request path query b).2 := by
  unfold Client.request
  split
  · exact h
  · exact attempts 3 0 h

theorem books_stable (client : Client) : Stable client fun _ b => Books client.net b where
  request path query h := request_keeps (Books client.net) (fun _ _ => attempts_books) path query h
  seen _ h := h
  cleared h := h
  listed h _ := h

theorem sent_stable (client : Client) (n : Nat) : Stable client fun _ b => n ≤ sent b where
  request path query h :=
    request_keeps (n ≤ sent ·) (fun _ _ h => Nat.le_trans h (attempts_sent client _ _ _)) path query h
  seen _ h := h
  cleared h := h
  listed h _ := h

/-- The rows that are kept, together with `n` others, are within the bound. -/
theorem rows_stable (client : Client) (n : Nat) :
    Stable client fun rows b => n + rows.length ≤ min b.rows MAX_ROWS where
  request path query h := by
    rw [request_rows]
    exact h
  seen _ h := by
    dsimp only
    omega
  cleared h := by
    rw [List.length_nil]
    omega
  listed h within := by
    rw [List.length_append]
    dsimp only
    omega

/-! ### Where a list ends -/

section Clean

variable {late : Nat → Nat} (path filters)

theorem clean_received (net : Net) : Received fun _ b => Clean net late b where
  seen _ h := ⟨h.books, h.fits⟩
  cleared h := h
  listed h _ := ⟨h.books, h.fits⟩

/-- A request goes on behind exchanges that fit, and ends with the first one that does not. -/
theorem request_clean (query : List (String × String)) {b : Budget}
    (clean : Clean client.net late b) :
    Ended client.net late (sent (client.request path query b).2) ∧
      ∀ page, (client.request path query b).1 = .ok page →
        Clean client.net late (client.request path query b).2 := by
  have ends {b : Budget} (clean : Clean client.net late b) : Ended client.net late (sent b) :=
    clean.ended (Nat.le_succ _)
  unfold Client.request
  split
  · exact ⟨ends clean, fun _ ok => by cases ok⟩
  · have attempts := attempts_clean 3 0 clean
    cases ha : client.attempts 3 0 b with
    | mk r b' =>
      rw [ha] at attempts
      cases r with
      | ok page => exact ⟨ends attempts, fun _ _ => attempts⟩
      | error e => exact ⟨attempts, fun _ ok => by cases ok⟩

theorem turn_clean (page : Nat) {p : Progress} (clean : Clean client.net late p.budget) :
    Ended client.net late (sent (client.turn path filters page p).1.budget) ∧
      ∀ more, (client.turn path filters page p).2 = .ok more →
        Clean client.net late (client.turn path filters page p).1.budget := by
  obtain ⟨ended, goes⟩ := request_clean path (Client.query filters page) clean
  unfold Client.turn
  cases hr : client.request path (Client.query filters page) p.budget with
  | mk r b =>
    rw [hr] at ended goes
    cases r with
    | error e => exact ⟨ended, fun _ ok => by cases ok⟩
    | ok fetched =>
      have kept : Clean client.net late (client.receive path filters page
          { p with budget := b, pages := p.pages ++ [fetched] } fetched.1 fetched.2).1.budget :=
        receive_keeps (clean_received client.net) _ _ (goes _ rfl)
      exact ⟨kept.ended (Nat.le_succ _), fun _ _ => kept⟩

/-- **A list ends with the first exchange that does not fit.** -/
theorem pages_clean (left page : Nat) {p : Progress} (clean : Clean client.net late p.budget) :
    Ended client.net late (sent (client.pages path filters left page p).1.budget) := by
  induction left generalizing page p with
  | zero => exact clean.ended (Nat.le_succ _)
  | succ left ih =>
    obtain ⟨ended, goes⟩ := turn_clean path filters page clean
    unfold Client.pages
    split
    case h_1 ht =>
      rw [ht] at ended
      exact ended
    case h_2 ht =>
      rw [ht] at ended
      exact ended
    case h_3 ht =>
      rw [ht] at goes
      exact ih (page + 1) (goes _ rfl)

theorem listing_clean {b : Budget} (clean : Clean client.net late b) :
    Ended client.net late (sent (client.listing path filters b).2) :=
  pages_clean path filters MAX_PAGES 1 clean

end Clean

/-! ### A first exchange -/

section Sends

variable {b : Budget}

/-- A request whose address can be built sends something. -/
theorem request_sends (joins : ∀ path query, ∃ url, client.url path query = .ok url)
    (room : b.requests < MAX_REQUESTS) (path : String) (query : List (String × String)) :
    sent b < sent (client.request path query b).2 := by
  obtain ⟨url, hu⟩ := joins path query
  have step (bytes : Nat) : sent b < sent { b with requests := b.requests + 1, bytes := bytes } := by
    simp only [sent]
    omega
  unfold Client.request
  rw [hu]
  dsimp only
  rcases client.attempts_step 2 0 b with ⟨exceeds, -⟩ | ⟨-, ⟨-, e, eq⟩ |
    ⟨size, -, -, ⟨e, eq⟩ | ⟨-, ⟨page, eq⟩ | eq⟩⟩⟩
  · omega
  · exact eq ▸ step b.bytes
  · exact eq ▸ step _
  · exact eq ▸ step _
  · exact eq ▸ Nat.lt_of_lt_of_le (step _) (attempts_sent client _ _ _)

theorem listing_sends (joins : ∀ path query, ∃ url, client.url path query = .ok url)
    (room : b.requests < MAX_REQUESTS) (path : String) (filters : List (String × String)) :
    sent b < sent (client.listing path filters b).2 := by
  have first := request_sends joins room path (Client.query filters 1)
  have turned : sent b < sent (client.turn path filters 1 ⟨[], ∅, b, []⟩).1.budget := by
    unfold Client.turn
    split
    case h_1 hr =>
      rw [hr] at first
      exact first
    case h_2 hr =>
      rw [hr] at first
      exact Nat.lt_of_lt_of_le first
        (receive_keeps (sent_stable client _).toReceived _ _ (Nat.le_refl _))
  show sent b < sent (client.pages path filters MAX_PAGES 1 ⟨[], ∅, b, []⟩).1.budget
  rw [show MAX_PAGES = 99 + 1 from rfl, Client.pages]
  split
  case h_1 ht =>
    rw [ht] at turned
    exact turned
  case h_2 ht =>
    rw [ht] at turned
    exact turned
  case h_3 ht =>
    rw [ht] at turned
    exact Nat.lt_of_lt_of_le turned
      (pages_keeps (sent_stable client _) 99 (Nat.le_refl _))

end Sends

variable (server : Nat → Exchange)

theorem request_sees (client : Client) (path : String) (query : List (String × String)) (b : Budget)
    (same : ∀ i, sent b < i → i ≤ sent (client.request path query b).2 →
      server i = client.net.server i) :
    (client.withServer server).request path query b = client.request path query b := by
  unfold Client.request at same ⊢
  rw [show (client.withServer server).url path query = client.url path query from rfl]
  split
  · rfl
  case h_2 hu =>
    rw [hu] at same
    exact attempts_sees client server 3 0 b same

theorem turn_sees (client : Client) (page : Nat) (p : Progress)
    (same : ∀ i, sent p.budget < i → i ≤ sent (client.turn path filters page p).1.budget →
      server i = client.net.server i) :
    (client.withServer server).turn path filters page p = client.turn path filters page p := by
  have request := request_sees server client path (Client.query filters page) p.budget
    fun i lt le => same i lt (Nat.le_trans le (by
      unfold Client.turn
      split
      case h_1 hr =>
        rw [hr]
      case h_2 hr =>
        rw [hr]
        exact receive_keeps (sent_stable client _).toReceived _ _ (Nat.le_refl _)))
  unfold Client.turn
  rw [request]
  rfl

variable (path filters) in
theorem pages_sees (client : Client) (left page : Nat) (p : Progress)
    (same : ∀ i, sent p.budget < i →
      i ≤ sent (client.pages path filters left page p).1.budget → server i = client.net.server i) :
    (client.withServer server).pages path filters left page p =
      client.pages path filters left page p := by
  induction left generalizing page p with
  | zero => rfl
  | succ left ih =>
    have later : sent (client.turn path filters page p).1.budget ≤
        sent (client.pages path filters (left + 1) page p).1.budget := by
      unfold Client.pages
      split
      case h_1 ht => rw [ht]
      case h_2 ht => rw [ht]
      case h_3 ht =>
        rw [ht]
        exact pages_keeps (sent_stable client _) left (Nat.le_refl _)
    have turned : sent p.budget ≤ sent (client.turn path filters page p).1.budget :=
      turn_keeps path filters (sent_stable client _) page (Nat.le_refl _)
    unfold Client.pages at same ⊢
    rw [turn_sees server client page p fun i lt le => same i lt (Nat.le_trans le later)]
    split
    · rfl
    · rfl
    case h_3 q ht =>
      rw [ht] at same turned
      exact ih _ _ fun i lt le => same i (Nat.lt_of_le_of_lt turned lt) le

end

end Permesh.Gitlab

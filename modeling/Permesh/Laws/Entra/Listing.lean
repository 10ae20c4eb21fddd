import Permesh.Laws.Entra.Pagination
import Permesh.Laws.Text

/-!
# Laws.Entra.Listing — the rows of a list, and how it ends

The rows of a list have different identifiers, all of them in lower case, whether the list ended or
failed. A list has no failure exactly when its pages lead to one that names no other page
(`listing_ended`).

Distinctness is kept by every turn of the page loop, and by its failures. The other half follows the
pages as a path (`Reaches`) and uses that the loop fails or steps along it.
-/

namespace Permesh.Entra

open Permesh.Json Permesh.Http Permesh.Lib

/-! ## Identifiers -/

theorem validate_ok {o o' : Object} (h : o.validate = .ok o') :
    o' = { o with id := Text.lowercase o.id } := by
  unfold Object.validate at h
  split at h
  · cases h
  split at h
  · cases h
  · cases h
    rfl

theorem validateAll_ok {rows rows' : List Object} (h : validateAll rows = .ok rows') :
    rows' = rows.map fun o => { o with id := Text.lowercase o.id } := by
  induction rows generalizing rows' with
  | nil =>
    cases h
    rfl
  | cons o rest ih =>
    unfold validateAll at h
    split at h
    · cases h
    case h_2 o' first =>
      split at h
      · cases h
      case h_2 rest' others =>
        cases h
        rw [validate_ok first, ih others, List.map_cons]

/-- A page that the last request was answered with, its objects validated. -/
structure Answers (client : Client) (w : Wire) (page : Page) : Prop where
  decoded : ∃ response bytes raw, client.net.server w.budget.requests = .answered response ∧
    response.body MAX_BODY = .ok bytes ∧ client.decodePage bytes = some raw ∧
    page.next = raw.next ∧ page.value = raw.value.map fun o => { o with id := Text.lowercase o.id }

theorem page_ok {client : Client} {bytes : List UInt8} {page : Page}
    (h : client.page bytes = .ok page) : ∃ raw, client.decodePage bytes = some raw ∧
      page.next = raw.next ∧
      page.value = raw.value.map fun o => { o with id := Text.lowercase o.id } := by
  unfold Client.page at h
  split at h
  · cases h
  split at h
  · cases h
  split at h
  · cases h
  case h_2 raw decoded =>
    split at h
    · cases h
    split at h
    · cases h
    case h_2 value validated =>
      cases h
      exact ⟨raw, decoded, rfl, validateAll_ok validated⟩

theorem attempts_ok {client : Client} {url : Url} {left attempt : Nat} {w w' : Wire} {page : Page}
    (h : client.attempts url left attempt w = (.ok page, w')) : Answers client w' page := by
  induction left generalizing attempt w with
  | zero => cases h
  | succ left ih =>
    unfold Client.attempts at h
    dsimp only at h
    split at h
    · cases h
    split at h
    · cases h
    · cases h
    case h_3 response answered =>
      split at h
      · cases h
      case h_2 bytes read =>
        split at h
        · split at h
          · cases h
          · exact ih h
        · split at h
          · cases h
          · obtain ⟨page_eq, rfl⟩ := Prod.mk.inj h
            obtain ⟨raw, decoded⟩ := page_ok page_eq
            exact ⟨response, bytes, raw, answered, read, decoded⟩

theorem Answers.lower {client : Client} {w : Wire} {page : Page} (h : Answers client w page) :
    ∀ o ∈ page.value, Text.lowercase o.id = o.id := by
  obtain ⟨_, _, raw, _, _, _, _, value⟩ := h
  intro o mem
  rw [value] at mem
  obtain ⟨o', -, rfl⟩ := List.mem_map.mp mem
  exact Text.lowercase_idem o'.id

/-! ## Rows -/

/-- The rows so far. -/
structure Distinct (p : Progress) : Prop where
  ids : ∀ id, id ∈ p.seenIds ↔ id ∈ p.rows.map Object.id
  once : (p.rows.map Object.id).Nodup
  lower : ∀ o ∈ p.rows, Text.lowercase o.id = o.id

theorem Distinct.takeRows {p : Progress} (h : Distinct p) {rows : List Object}
    (lower : ∀ o ∈ rows, Text.lowercase o.id = o.id) : Distinct (takeRows p rows).1 := by
  induction rows generalizing p with
  | nil => exact h
  | cons row rest ih =>
    unfold Entra.takeRows
    dsimp only
    split
    · exact ⟨h.ids, h.once, h.lower⟩
    split
    · exact ⟨h.ids, h.once, h.lower⟩
    case isFalse new =>
      have fresh : row.id ∉ p.rows.map Object.id := mt (h.ids row.id).mpr new
      refine ih ⟨fun id => ?_, ?_, forall_mem_snoc h.lower (lower row List.mem_cons_self)⟩
        fun o mem => lower o (List.mem_cons_of_mem _ mem)
      · rw [mem_insert_key, h.ids, List.map_append, List.mem_append, List.map_singleton,
          List.mem_singleton, or_comm, eq_comm]
      · rw [List.map_append]
        exact nodup_snoc h.once fresh

variable {client : Client} {initial : Url}

variable (client initial) in
theorem Distinct.turn {p : Progress} (h : Distinct p) : Distinct (client.turn initial p).1 := by
  unfold Client.turn
  split
  · exact h
  dsimp only
  cases answer : client.request p.next p.wire with
  | mk result wire =>
    cases result with
    | error failure => exact ⟨h.ids, h.once, h.lower⟩
    | ok page =>
      have asked : Distinct { p with seenUrls := p.seenUrls.insert p.next.href, wire := wire } :=
        ⟨h.ids, h.once, h.lower⟩
      have taken := asked.takeRows (attempts_ok answer).lower
      dsimp only
      generalize Entra.takeRows _ page.value = outcome at taken
      obtain ⟨q, result⟩ := outcome
      cases result with
      | error failure => exact taken
      | ok done =>
        dsimp only
        split
        · exact taken
        split
        · exact taken
        · exact ⟨taken.ids, taken.once, taken.lower⟩

variable (client initial) in
theorem Distinct.pages (left : Nat) {p : Progress} (h : Distinct p) :
    Distinct (client.pages initial left p).1 := by
  induction left generalizing p with
  | zero => exact h
  | succ left ih =>
    have turned := h.turn client initial
    unfold Client.pages
    generalize client.turn initial p = outcome at turned
    obtain ⟨q, _ | _ | _⟩ := outcome
    · exact turned
    · exact turned
    · exact ih turned

/-- **The rows of a list** have different identifiers, in lower case. -/
theorem listing_distinct (client : Client) (initial : Url) (w : Wire) :
    (((client.listing initial w).1.rows).map Object.id).Nodup ∧
      ∀ o ∈ (client.listing initial w).1.rows, Text.lowercase o.id = o.id := by
  have start : Distinct ⟨[], initial, ∅, ∅, w⟩ := ⟨by simp, List.nodup_nil, fun _ mem => by cases mem⟩
  have ended := start.pages client initial MAX_PAGES
  exact ⟨ended.once, ended.lower⟩

/-! ## Ends -/

/-- The list goes on for so many pages. -/
inductive Reaches (client : Client) (initial : Url) : Nat → Progress → Progress → Prop where
  | here (p : Progress) : Reaches client initial 0 p p
  | page {n : Nat} {p q r : Progress} (goes : client.turn initial p = (q, .ok true))
      (rest : Reaches client initial n q r) : Reaches client initial (n + 1) p r

/-- The page that is requested next names no other page, and all its rows are taken. -/
structure LastPage (client : Client) (p : Progress) : Prop where
  fresh : p.next.href ∉ p.seenUrls
  last : ∃ page wire q, client.request p.next p.wire = (.ok page, wire) ∧ page.next = none ∧
    takeRows { p with seenUrls := p.seenUrls.insert p.next.href, wire := wire } page.value =
      (q, .ok ())

variable (client initial) in
theorem turn_last (p : Progress) :
    (∃ q, client.turn initial p = (q, .ok false)) ↔ LastPage client p := by
  constructor
  · rintro ⟨q, turned⟩
    unfold Client.turn at turned
    split at turned
    · cases turned
    case isFalse fresh =>
      dsimp only at turned
      split at turned
      · cases turned
      case h_2 page wire answer =>
        split at turned
        · cases turned
        case h_2 q' taken =>
          split at turned
          case h_1 last => exact ⟨fresh, page, wire, q', answer, last, taken⟩
          case h_2 => split at turned <;> cases turned
  · rintro ⟨fresh, page, wire, q, answer, last, taken⟩
    refine ⟨q, ?_⟩
    unfold Client.turn
    rw [if_neg fresh]
    dsimp only
    rw [answer]
    dsimp only
    rw [taken]
    dsimp only
    rw [last]

/-- A list that ended at a page without a next link, within `MAX_PAGES` pages. -/
def Ended (client : Client) (initial : Url) (w : Wire) : Prop :=
  ∃ n p, n < MAX_PAGES ∧ Reaches client initial n ⟨[], initial, ∅, ∅, w⟩ p ∧ LastPage client p

theorem pages_ok {left : Nat} {p : Progress} :
    (∃ q, client.pages initial left p = (q, .ok ())) ↔
      ∃ n r, n < left ∧ Reaches client initial n p r ∧ LastPage client r := by
  induction left generalizing p with
  | zero =>
    constructor
    · rintro ⟨q, ended⟩
      cases ended
    · rintro ⟨n, r, lt, -⟩
      exact absurd lt (Nat.not_lt_zero n)
  | succ left ih =>
    unfold Client.pages
    constructor
    · rintro ⟨q, ended⟩
      split at ended
      · cases ended
      case h_2 q' turned =>
        exact ⟨0, p, Nat.succ_pos left, .here p, (turn_last client initial p).mp ⟨q', turned⟩⟩
      case h_3 q' turned =>
        obtain ⟨n, r, lt, reaches, last⟩ := ih.mp ⟨q, ended⟩
        exact ⟨n + 1, r, Nat.succ_lt_succ lt, .page turned reaches, last⟩
    · rintro ⟨n, r, lt, reaches, last⟩
      cases reaches with
      | here =>
        obtain ⟨q, turned⟩ := (turn_last client initial p).mpr last
        rw [turned]
        exact ⟨q, rfl⟩
      | page goes rest =>
        rw [goes]
        exact ih.mpr ⟨_, r, Nat.lt_of_succ_lt_succ lt, rest, last⟩

/-- **A list without a failure has ended.** -/
theorem listing_ended (client : Client) (initial : Url) (w : Wire) :
    (client.listing initial w).1.failure = none ↔ Ended client initial w := by
  rw [Ended, ← pages_ok]
  unfold Client.listing
  generalize client.pages initial MAX_PAGES ⟨[], initial, ∅, ∅, w⟩ = run
  obtain ⟨q, failure | ⟨⟨⟩⟩⟩ := run
  · simp
  · simp

end Permesh.Entra

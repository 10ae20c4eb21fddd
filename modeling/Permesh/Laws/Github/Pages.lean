import Permesh.Github.Client

/-!
# Laws.Github.Pages — what a page says of further pages

`nextPage` reads the first link header only. On a page it accepts, every entry of that header that
lists `next` asks for the page behind the current one; what further link headers list is not read.

The entries of the header are those that the source splits it into; no other grammar of links is used.
The statement is about one page, and is used for every page of a list.
-/

namespace Permesh.Github

open Permesh.Json Permesh.Http Permesh.Lib

variable {crate : UrlCrate} {current : Url} {headers : HeaderMap} {length : Nat}

/-! ## Entries -/

/-- The entries of a link header value, whatever its bytes. -/
def entries (value : HeaderValue) : List String :=
  Text.split ',' (.ofList (value.map fun b => Char.ofNat b.toNat))

/-- A header value lists a next page. -/
def ListsNext (value : HeaderValue) (target : String) : Prop :=
  ∃ entry ∈ entries value, ∃ rel, linkEntry entry = some (target, rel) ∧ listsNext rel = true

/-- The address of the page behind the current one: the same origin, path and filters, and the page
increased by one. -/
structure Follows (current next : Url) : Prop where
  origin : next.sameOrigin current = true
  path : next.path = current.path
  anonymous : next.username = "" ∧ next.password = none
  fragment : next.fragment = none
  once : (next.pairs.map Prod.fst).Nodup
  filters : ∀ name, name ≠ "page" → ∀ value,
    (name, value) ∈ next.pairs ↔ lookupLast current.pairs name = some value
  page : ∃ page, (lookupLast current.pairs "page").bind Text.parseU64 = some page ∧
    ("page", toString (page + 1)) ∈ next.pairs

/-- An address that leads to the page behind the current one. -/
def Leads (crate : UrlCrate) (current : Url) (target : String) : Prop :=
  ∃ next, crate.parse target = some next ∧ Follows current next

theorem lookup_mapOf (pairs : List (String × String)) (name : String) :
    (mapOf pairs)[name]? = lookupLast pairs name := by
  rw [mapOf, getElem?_ofList, lookupLast]
  rfl

/-- The checks of `next_page` let only such addresses pass. -/
theorem leads_of_followed {target : String} (h : followed crate current target = true) :
    Leads crate current target := by
  unfold followed at h
  split at h
  case h_1 next params parsed hp =>
    simp only [Bool.and_eq_true, beq_iff_eq, Option.isNone_iff_eq_none] at h
    obtain ⟨⟨⟨⟨⟨⟨origin, path⟩, username⟩, password⟩, fragment⟩, size⟩, same⟩ := h
    have once := nodup_of_size_ofList size.symm
    have pairs (name value : String) : (name, value) ∈ next.pairs ↔ params[name]? = some value := by
      rw [← getElem?_ofList_eq_some once, ← same, mapOf]
    obtain ⟨page, hpage, rfl⟩ := Option.map_eq_some_iff.mp hp
    rw [lookup_mapOf] at hpage
    refine ⟨next, parsed, origin, path, ⟨username, password⟩, fragment, once, ?_, page, hpage, ?_⟩
    · intro name other value
      rw [pairs, getElem?_insert_key, if_neg (Ne.symm other), lookup_mapOf]
    · rw [pairs, getElem?_insert_key, if_pos rfl]
  case h_2 => cases h

/-- Accepted entries. -/
theorem linkEntries_ok {seen next : Bool} {parts : List String}
    (h : linkEntries crate current seen parts = .ok next) :
    (seen = true → next = true) ∧ ∀ entry ∈ parts, ∀ target rel,
      linkEntry entry = some (target, rel) → listsNext rel = true →
        next = true ∧ Leads crate current target := by
  induction parts generalizing seen with
  | nil =>
    cases h
    exact ⟨id, fun _ he => by cases he⟩
  | cons entry parts ih =>
    unfold linkEntries at h
    split at h
    · cases h
    case h_2 target rel he =>
      split at h
      case isTrue lists =>
        split at h
        case isTrue hf =>
          obtain ⟨stays, rest⟩ := ih h
          refine ⟨fun _ => stays rfl, fun entry' mem target' rel' he' lists' => ?_⟩
          rcases List.mem_cons.mp mem with rfl | mem
          · rw [he] at he'
            cases he'
            exact ⟨stays rfl, leads_of_followed hf⟩
          · exact rest entry' mem target' rel' he' lists'
        case isFalse => cases h
      case isFalse other =>
        obtain ⟨stays, rest⟩ := ih h
        refine ⟨stays, fun entry' mem target' rel' he' lists' => ?_⟩
        rcases List.mem_cons.mp mem with rfl | mem
        · rw [he] at he'
          cases he'
          exact absurd lists' other
        · exact rest entry' mem target' rel' he' lists'

/-! ## Pages -/

/-- The link header values behind the first one. -/
def unread (headers : HeaderMap) : List HeaderValue := (headers.getAll "link").tail

/-- **What an accepted page says**: without a link header it ends the list unless it is full, and
with one, every `next` of the first header leads to the page behind it. -/
theorem nextPage_ok {next : Bool} (h : nextPage crate current headers length = .ok next) :
    (headers.getAll "link" = [] → next = (length == 100)) ∧
    ∀ value ∈ headers.getAll "link", ∀ target, ListsNext value target →
      value ∈ unread headers ∨ (next = true ∧ Leads crate current target) := by
  unfold nextPage HeaderMap.get at h
  cases hv : headers.getAll "link" with
  | nil =>
    rw [hv] at h
    cases h
    exact ⟨fun _ => rfl, fun _ mem => by cases mem⟩
  | cons first rest =>
    rw [hv] at h
    refine ⟨fun empty => (by cases empty), fun value mem target lists => ?_⟩
    have tail : unread headers = rest := by rw [unread, hv, List.tail_cons]
    rcases List.mem_cons.mp mem with rfl | mem
    · obtain ⟨entry, he, rel, read, next'⟩ := lists
      simp only [List.head?_cons] at h
      unfold HeaderValue.toStr at h
      split at h
      · cases h
      case h_2 link hl =>
        split at hl
        case isTrue =>
          cases hl
          exact .inr ((linkEntries_ok h).2 entry he target rel read next')
        case isFalse => cases hl
    · rw [tail]
      exact .inl mem

end Permesh.Github

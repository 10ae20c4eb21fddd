import Permesh.Gitlab.Client
import Permesh.Laws.Text
import Permesh.Lib.Fold
import Permesh.Lib.Maps

/-!
# Laws.Gitlab.Signals — what `nextPage` accepts

Three headers may say whether there is a further page. `nextPage_iff` says exactly which pages are
accepted, and with which answer: each header is absent or written as it should be, and whichever of
the three is there agrees with the answer. Only where none is does the number of rows decide.

Each signal is brought to the form of an agreement on one answer, and the three are put together. The
conditions are about the texts of the headers, as they are written.
-/

namespace Permesh.Gitlab

open Permesh.Json Permesh.Http Permesh.Lib

variable {crate : UrlCrate} {headers : HeaderMap} {current : Url} {page count : Nat}

/-! ## Numbers -/

/-- What a header that is read says: nothing, an empty value, or a number in its shortest form. -/
def Written (headers : HeaderMap) (name : String) : Option (Option Nat) → Prop
  | none => headers.getAll name = []
  | some none => ∃ value, headers.getAll name = [value] ∧ value.toStr = some ""
  | some (some n) => ∃ value, headers.getAll name = [value] ∧ value.toStr = some (toString n) ∧
      n < UInt64.size

theorem number_iff {name : String} {read : Option (Option Nat)} :
    number headers name = .ok read ↔ Written headers name read := by
  constructor
  · intro h
    unfold number at h
    split at h
    case h_1 absent =>
      cases h
      exact absent
    case h_2 value single =>
      split at h
      case h_1 => cases h
      case h_2 text written =>
        split at h
        case isTrue empty =>
          cases h
          exact ⟨value, single, by rw [written, String.isEmpty_iff.mp empty]⟩
        case isFalse =>
          split at h
          case h_1 n hn =>
            cases h
            obtain ⟨parsed, shortest⟩ := Option.filter_eq_some_iff.mp hn
            have below := (Option.filter_eq_some_iff.mp parsed).2
            rw [decide_eq_true_eq] at below
            exact ⟨value, single, by rw [written, eq_of_beq shortest], below⟩
          case h_2 => cases h
    case h_3 => cases h
  · intro said
    unfold number
    match read with
    | none => rw [show headers.getAll name = [] from said]
    | some none =>
      obtain ⟨value, single, written⟩ := said
      simp [single, written]
    | some (some n) =>
      obtain ⟨value, single, written, below⟩ := said
      have parsed : Text.parseU64 (toString n) = some n := Text.parseUnsigned_toString below
      have given : (toString n).isEmpty = false := by
        rw [Bool.eq_false_iff]
        intro empty
        have blank : Text.parseU64 "" = none := by decide
        rw [String.isEmpty_iff.mp empty, blank] at parsed
        cases parsed
      simp only [single, written, given, parsed, Option.filter_some, beq_self_eq_true, if_true,
        Bool.false_eq_true, if_false]

/-! ## Links -/

/-- An address that asks for page `n` of the same list. Of a name that the current address repeats,
the last value counts. -/
structure SameList (current url : Url) (n : Nat) : Prop where
  origin : url.sameOrigin current = true
  path : url.path = current.path
  userinfo : url.username = current.username ∧ url.password = none
  fragment : url.fragment = none
  once : (url.pairs.map Prod.fst).Nodup
  filters : ∀ name, name ≠ "page" → ∀ value,
    (name, value) ∈ url.pairs ↔ lookupLast current.pairs name = some value
  page : ∃ text, ("page", text) ∈ url.pairs ∧ Text.parseU64 text = some n ∧ 0 < n

/-- An item of a link header that is accepted. -/
def Accepts (crate : UrlCrate) (current : Url) (page : Nat) (item : String) : Prop :=
  ∃ url rel n, linkItem crate item = some (url, rel) ∧ rel ∈ ["next", "prev", "first", "last"] ∧
    SameList current url n ∧ (rel = "next" → n = page + 1)

/-- An item with relation next. -/
def linksNext (crate : UrlCrate) (item : String) : Bool :=
  (linkItem crate item).any fun (_, rel) => rel == "next"

theorem filtersOf_getElem? (url : Url) (name : String) :
    (filtersOf url)[name]? = if name = "page" then none else lookupLast url.pairs name := by
  rw [filtersOf, getElem?_ofList, lookupLast, ← List.filter_reverse, List.find?_filter]
  split
  case isTrue page =>
    have none_left : url.pairs.reverse.find?
        (fun pair => (pair.1 != "page") = true ∧ decide (pair.1 = name) = true) = none := by
      rw [List.find?_eq_none]
      rintro pair -
      rw [page]
      simp
    rw [none_left]
    rfl
  case isFalse other =>
    have same : (fun pair : String × String =>
        decide ((pair.1 != "page") = true ∧ decide (pair.1 = name) = true)) = (·.1 == name) := by
      funext pair
      by_cases key : pair.1 = name
      · simp [key, other]
      · simp [key]
    rw [same]

theorem lookupLast_eq_some {pairs : List (String × String)} (once : (pairs.map Prod.fst).Nodup)
    {name value : String} : lookupLast pairs name = some value ↔ (name, value) ∈ pairs := by
  rw [← getElem?_ofList_eq_some once, getElem?_ofList, lookupLast]
  rfl

theorem filters_iff {url : Url} (once : (url.pairs.map Prod.fst).Nodup) :
    filtersOf current = filtersOf url ↔ ∀ name, name ≠ "page" → ∀ value,
      (name, value) ∈ url.pairs ↔ lookupLast current.pairs name = some value := by
  constructor
  · intro same name other value
    have there := congrArg (fun filters : Std.ExtTreeMap String String => filters[name]?) same
    rw [filtersOf_getElem?, filtersOf_getElem?, if_neg other, if_neg other] at there
    rw [there, lookupLast_eq_some once]
  · intro same
    ext name value
    rw [filtersOf_getElem?, filtersOf_getElem?]
    split
    · rfl
    case isFalse other =>
      rw [← same name other value, lookupLast_eq_some once]

theorem linkedPage_iff {url : Url} (once : (url.pairs.map Prod.fst).Nodup) {n : Nat} :
    linkedPage url = some n ↔
      ∃ text, ("page", text) ∈ url.pairs ∧ Text.parseU64 text = some n ∧ 0 < n := by
  have found (pair : String × String) :
      url.pairs.find? (·.1 == "page") = some pair ↔ pair ∈ url.pairs ∧ pair.1 = "page" :=
    find?_key_iff once
  rw [linkedPage, Option.filter_eq_some_iff, Option.bind_eq_some_iff, decide_eq_true_eq]
  constructor
  · rintro ⟨⟨⟨_, text⟩, there, parsed⟩, positive⟩
    obtain ⟨mem, rfl⟩ := (found _).mp there
    exact ⟨text, mem, parsed, positive⟩
  · rintro ⟨text, mem, parsed, positive⟩
    exact ⟨⟨_, (found _).mpr ⟨mem, rfl⟩, parsed⟩, positive⟩

/-- The checks of an address. -/
theorem sameList_iff {url : Url} {n : Nat} : SameList current url n ↔
    (url.sameOrigin current = true ∧ url.path = current.path ∧ url.username = current.username ∧
      url.password = none ∧ url.fragment = none) ∧ (url.pairs.map Prod.fst).Nodup ∧
      linkedPage url = some n ∧ filtersOf current = filtersOf url := by
  constructor
  · rintro ⟨origin, path, ⟨username, password⟩, fragment, once, filters, page⟩
    exact ⟨⟨origin, path, username, password, fragment⟩, once, (linkedPage_iff once).mpr page,
      (filters_iff once).mpr filters⟩
  · rintro ⟨⟨origin, path, username, password, fragment⟩, once, page, filters⟩
    exact ⟨origin, path, ⟨username, password⟩, fragment, once, (filters_iff once).mp filters,
      (linkedPage_iff once).mp page⟩

/-- The first check of an address: its relation is known, and it leads to the same list. -/
theorem kept_iff {url : Url} {rel : String} :
    ¬(!(["next", "prev", "first", "last"].contains rel) || !url.sameOrigin current ||
        url.path != current.path || url.username != current.username || url.password.isSome ||
        url.fragment.isSome) = true ↔ rel ∈ ["next", "prev", "first", "last"] ∧
      url.sameOrigin current = true ∧ url.path = current.path ∧ url.username = current.username ∧
        url.password = none ∧ url.fragment = none := by
  simp [or_iff_not_imp_left]

theorem linkNext_iff {seen linked : Bool} {item : String} :
    linkNext crate current page seen item = .ok linked ↔ Accepts crate current page item ∧
      seen.toNat + (linksNext crate item).toNat ≤ 1 ∧ linked = (seen || linksNext crate item) := by
  unfold linkNext Accepts linksNext
  cases read : linkItem crate item with
  | none => simp
  | some pair =>
    obtain ⟨url, rel⟩ := pair
    dsimp only
    constructor
    · intro h
      split at h
      · cases h
      case isFalse good =>
      obtain ⟨known, kept⟩ := kept_iff.mp good
      split at h
      · cases h
      case isFalse once =>
      split at h
      · cases h
      case h_2 n number =>
      split at h
      · cases h
      case isFalse same =>
      have list : SameList current url n :=
        sameList_iff.mpr ⟨kept, not_not.mp once, number, not_not.mp same⟩
      split at h
      case isTrue next =>
        split at h
        · cases h
        case isFalse fits =>
          cases h
          obtain ⟨fresh, named⟩ := not_or.mp fits
          exact ⟨⟨url, rel, n, rfl, known, list, fun _ => not_not.mp named⟩, by simp [fresh, next]⟩
      case isFalse other =>
        cases h
        have unnamed : (rel == "next") = false := beq_false_of_ne other
        refine ⟨⟨url, rel, n, rfl, known, list, fun next => absurd next other⟩, ?_⟩
        simp [unnamed, Bool.toNat_le]
    · rintro ⟨⟨_, _, n, same, known, list, named⟩, once, rfl⟩
      cases same
      obtain ⟨kept, nodup, number, filters⟩ := sameList_iff.mp list
      rw [if_neg (kept_iff.mpr ⟨known, kept⟩), if_neg (not_not.mpr nodup), number]
      dsimp only
      rw [if_neg (not_not.mpr filters)]
      by_cases next : rel = "next"
      · have fresh : seen = false := by
          cases seen with
          | false => rfl
          | true => simp [next] at once
        simp [next, fresh, named next]
      · simp [next]

theorem linkItems_iff {seen linked : Bool} {items : List String} :
    linkItems crate current page seen items = .ok linked ↔
      (∀ item ∈ items, Accepts crate current page item) ∧
        seen.toNat + items.countP (linksNext crate) ≤ 1 ∧
          linked = (seen || items.any (linksNext crate)) := by
  induction items generalizing seen with
  | nil => cases seen <;> simp [linkItems, eq_comm]
  | cons item items ih =>
    have counted : seen.toNat + (item :: items).countP (linksNext crate) =
        seen.toNat + (linksNext crate item).toNat + items.countP (linksNext crate) := by
      rw [List.countP_cons]
      cases linksNext crate item with
      | false => simp
      | true =>
        simp
        omega
    rw [linkItems, counted]
    cases step : linkNext crate current page seen item with
    | error failure =>
      refine iff_of_false nofun fun ⟨all, once, _⟩ => ?_
      have passed := linkNext_iff.mpr
        ⟨all item List.mem_cons_self, (Nat.le_add_right _ _).trans once, rfl⟩
      rw [step] at passed
      cases passed
    | ok seen' =>
      obtain ⟨accepted, once, rfl⟩ := linkNext_iff.mp step
      have joined : (seen || linksNext crate item).toNat =
          seen.toNat + (linksNext crate item).toNat := by
        revert once
        cases seen <;> cases linksNext crate item <;> decide
      dsimp only
      rw [ih, joined, List.forall_mem_cons, List.any_cons, Bool.or_assoc]
      simp [accepted]

/-! ## All link headers -/

/-- The items of all link headers. -/
def linkTexts (headers : HeaderMap) : List String :=
  (headers.getAll "link").flatMap fun value => Text.split ',' (value.toStr.getD "")

/-- All link headers are text, and their items are accepted, with one next page at most. -/
structure NextLinks (crate : UrlCrate) (headers : HeaderMap) (current : Url) (page : Nat) : Prop where
  text : ∀ value ∈ headers.getAll "link", value.toStr ≠ none
  accepted : ∀ item ∈ linkTexts headers, Accepts crate current page item
  single : (linkTexts headers).countP (linksNext crate) ≤ 1

theorem linkItems_append {seen : Bool} {items more : List String} :
    linkItems crate current page seen (items ++ more) =
      linkItems crate current page seen items >>= fun seen =>
        linkItems crate current page seen more := by
  induction items generalizing seen with
  | nil => rfl
  | cons item items ih =>
    rw [List.cons_append, linkItems, linkItems]
    cases linkNext crate current page seen item with
    | error failure => rfl
    | ok seen => exact ih

/-- The loop over all values is the loop over all items. -/
theorem linkValues_iff {seen linked : Bool} {values : List HeaderValue} :
    linkValues crate current page seen values = .ok linked ↔
      (∀ value ∈ values, value.toStr ≠ none) ∧ linkItems crate current page seen
        (values.flatMap fun value => Text.split ',' (value.toStr.getD "")) = .ok linked := by
  induction values generalizing seen with
  | nil => simp [linkValues, linkItems]
  | cons value values ih =>
    rw [linkValues, List.forall_mem_cons, List.flatMap_cons, linkItems_append]
    cases written : value.toStr with
    | none => simp
    | some text =>
      dsimp only [Option.getD_some]
      cases linkItems crate current page seen (Text.split ',' text) with
      | error failure => exact iff_of_false nofun nofun
      | ok seen =>
        simp only [ne_eq, reduceCtorEq, not_false_eq_true, true_and]
        exact ih

theorem nextLinks_iff {linked : Bool} :
    linkValues crate current page false (headers.getAll "link") = .ok linked ↔
      NextLinks crate headers current page ∧ linked = (linkTexts headers).any (linksNext crate) := by
  rw [linkValues_iff, linkItems_iff]
  constructor
  · rintro ⟨text, accepted, single, same⟩
    exact ⟨⟨text, accepted, by simpa [linkTexts] using single⟩, by simpa [linkTexts] using same⟩
  · rintro ⟨⟨text, accepted, single⟩, same⟩
    exact ⟨text, accepted, by simpa [linkTexts] using single, by simpa [linkTexts] using same⟩

/-! ## The signals -/

/-- What is said of a page that is accepted, and agrees with whether there is a further one. -/
structure Signalled (crate : UrlCrate) (headers : HeaderMap) (current : Url) (page count : Nat)
    (more : Bool) : Prop where
  pageNumber : Written headers "x-page" none ∨ Written headers "x-page" (some (some page))
  perPage : Written headers "x-per-page" none ∨ Written headers "x-per-page" (some (some 100))
  next : Written headers "x-next-page" none ∨
    (Written headers "x-next-page" (some none) ∧ more = false) ∨
    (Written headers "x-next-page" (some (some (page + 1))) ∧ more = true)
  total : Written headers "x-total-pages" none ∨ ∃ total,
    Written headers "x-total-pages" (some (some total)) ∧ more = decide (page < total) ∧
      (page ≤ total ∨ total = 0 ∧ page = 1 ∧ count = 0)
  links : NextLinks crate headers current page
  linked : (∃ item ∈ linkTexts headers, linksNext crate item = true) → more = true
  /-- Where nothing is said of further pages, a full page has one behind it. -/
  silent : Written headers "x-next-page" none → Written headers "x-total-pages" none →
    (∀ item ∈ linkTexts headers, linksNext crate item = false) → more = decide (count = 100)

theorem headerNext_iff {read : Option (Option Nat)} {header : Option Bool} :
    headerNext page read = .ok header ↔ (read = none ∧ header = none) ∨
      (read = some none ∧ header = some false) ∨
      (read = some (some (page + 1)) ∧ header = some true) := by
  match read with
  | none => simp [headerNext, eq_comm]
  | some none => simp [headerNext, eq_comm]
  | some (some next) =>
    rw [headerNext]
    split
    case isTrue same => simp [same, eq_comm]
    case isFalse other => simp [other]

theorem totalNext_iff {read : Option (Option Nat)} {total : Option Bool} :
    totalNext page count read = .ok total ↔ (read = none ∧ total = none) ∨ ∃ n,
      read = some (some n) ∧ total = some (decide (page < n)) ∧
        (page ≤ n ∨ n = 0 ∧ page = 1 ∧ count = 0) := by
  match read with
  | none => simp [totalNext, eq_comm]
  | some none => simp [totalNext]
  | some (some n) =>
    rw [totalNext]
    split
    case isTrue zero =>
      obtain ⟨rfl, rfl, rfl⟩ := zero
      simp [eq_comm]
    case isFalse other =>
      split
      case isTrue le => simp [le, eq_comm]
      case isFalse beyond => simp [beyond, other]

/-- Signals that are compared pair by pair agree with the answer, whichever of them are there. -/
theorem agreeing_iff {header link total : Option Bool} {more full : Bool} :
    (clash header link = false ∧ clash (header.or link) total = false ∧
      more = ((header.or link).or total).getD full) ↔
    (header = none ∨ header = some more) ∧ (link = none ∨ link = some more) ∧
      (total = none ∨ total = some more) ∧
      (header = none → link = none → total = none → more = full) := by
  rcases header with _ | _ | _ <;> rcases link with _ | _ | _ <;> rcases total with _ | _ | _ <;>
    cases more <;> simp [clash, eq_comm]

/-- A header that may be left out. -/
theorem any_ne_iff {read : Option (Option Nat)} {n : Nat} :
    ¬read.any (· != some n) = true ↔ read = none ∨ read = some (some n) := by
  cases read <;> simp

theorem nextPage_eq {more : Bool} : nextPage crate headers current page count = .ok more ↔
    ∃ pageNumber perPage nextNumber totalNumber header total linked,
      (number headers "x-page" = .ok pageNumber ∧
        (pageNumber = none ∨ pageNumber = some (some page))) ∧
      (number headers "x-per-page" = .ok perPage ∧ (perPage = none ∨ perPage = some (some 100))) ∧
      (number headers "x-next-page" = .ok nextNumber ∧ headerNext page nextNumber = .ok header) ∧
      (number headers "x-total-pages" = .ok totalNumber ∧
        totalNext page count totalNumber = .ok total) ∧
      linkValues crate current page false (headers.getAll "link") = .ok linked ∧
      clash header (if linked then some true else none) = false ∧
      clash (header.or (if linked then some true else none)) total = false ∧
      more = ((header.or (if linked then some true else none)).or total).getD (count == 100) := by
  constructor
  · intro h
    unfold nextPage at h
    obtain ⟨pageNumber, h₁, h⟩ := bind_ok h
    dsimp only at h
    split at h
    · cases h
    case isFalse same =>
    obtain ⟨perPage, h₂, h⟩ := bind_ok h
    split at h
    · cases h
    case isFalse same' =>
    obtain ⟨nextNumber, h₃, h⟩ := bind_ok h
    obtain ⟨header, h₄, h⟩ := bind_ok h
    obtain ⟨totalNumber, h₅, h⟩ := bind_ok h
    obtain ⟨total, h₆, h⟩ := bind_ok h
    obtain ⟨linked, h₇, h⟩ := bind_ok h
    by_cases first : clash header (if linked = true then some true else none) = true
    · rw [if_pos first] at h
      cases h
    rw [if_neg first] at h
    by_cases second : clash (header.or (if linked = true then some true else none)) total = true
    · rw [if_pos second] at h
      cases h
    rw [if_neg second] at h
    cases h
    exact ⟨pageNumber, perPage, nextNumber, totalNumber, header, total, linked,
      ⟨h₁, any_ne_iff.mp same⟩, ⟨h₂, any_ne_iff.mp same'⟩, ⟨h₃, h₄⟩, ⟨h₅, h₆⟩, h₇,
      Bool.eq_false_iff.mpr first, Bool.eq_false_iff.mpr second, rfl⟩
  · rintro ⟨pageNumber, perPage, nextNumber, totalNumber, header, total, linked, ⟨h₁, same⟩,
      ⟨h₂, same'⟩, ⟨h₃, h₄⟩, ⟨h₅, h₆⟩, h₇, first, second, rfl⟩
    unfold nextPage
    refine bind_ok_iff.mpr ⟨_, h₁, ?_⟩
    dsimp only
    rw [if_neg (any_ne_iff.mpr same)]
    refine bind_ok_iff.mpr ⟨_, h₂, ?_⟩
    rw [if_neg (any_ne_iff.mpr same')]
    refine bind_ok_iff.mpr ⟨_, h₃, bind_ok_iff.mpr ⟨_, h₄, bind_ok_iff.mpr ⟨_, h₅,
      bind_ok_iff.mpr ⟨_, h₆, bind_ok_iff.mpr ⟨_, h₇, ?_⟩⟩⟩⟩⟩
    rw [if_neg (Bool.eq_false_iff.mp first), if_neg (Bool.eq_false_iff.mp second)]
    rfl

theorem Written.unique {name : String} {read read' : Option (Option Nat)}
    (h : Written headers name read) (h' : Written headers name read') : read = read' := by
  have same := (number_iff.mpr h).symm.trans (number_iff.mpr h')
  cases same
  rfl

/-- What `x-next-page` says, if it agrees with the answer. -/
theorem nextSignal_iff {more : Bool} : (∃ read header, number headers "x-next-page" = .ok read ∧
      headerNext page read = .ok header ∧ (header = none ∨ header = some more)) ↔
    Written headers "x-next-page" none ∨
      (Written headers "x-next-page" (some none) ∧ more = false) ∨
      (Written headers "x-next-page" (some (some (page + 1))) ∧ more = true) := by
  simp only [number_iff, headerNext_iff]
  constructor
  · rintro ⟨read, header, written, ⟨rfl, rfl⟩ | ⟨rfl, rfl⟩ | ⟨rfl, rfl⟩, agrees⟩
    · exact .inl written
    · exact .inr (.inl ⟨written, by simpa [eq_comm] using agrees⟩)
    · exact .inr (.inr ⟨written, by simpa [eq_comm] using agrees⟩)
  · rintro (written | ⟨written, rfl⟩ | ⟨written, rfl⟩)
    · exact ⟨_, _, written, .inl ⟨rfl, rfl⟩, .inl rfl⟩
    · exact ⟨_, _, written, .inr (.inl ⟨rfl, rfl⟩), .inr rfl⟩
    · exact ⟨_, _, written, .inr (.inr ⟨rfl, rfl⟩), .inr rfl⟩

/-- What `x-total-pages` says, if it agrees with the answer. -/
theorem totalSignal_iff {more : Bool} : (∃ read total, number headers "x-total-pages" = .ok read ∧
      totalNext page count read = .ok total ∧ (total = none ∨ total = some more)) ↔
    Written headers "x-total-pages" none ∨ ∃ total,
      Written headers "x-total-pages" (some (some total)) ∧ more = decide (page < total) ∧
        (page ≤ total ∨ total = 0 ∧ page = 1 ∧ count = 0) := by
  simp only [number_iff, totalNext_iff]
  constructor
  · rintro ⟨read, total, written, ⟨rfl, rfl⟩ | ⟨n, rfl, rfl, fits⟩, agrees⟩
    · exact .inl written
    · exact .inr ⟨n, written, by simpa [eq_comm] using agrees, fits⟩
  · rintro (written | ⟨n, written, rfl, fits⟩)
    · exact ⟨_, _, written, .inl ⟨rfl, rfl⟩, .inl rfl⟩
    · exact ⟨_, _, written, .inr ⟨n, rfl, rfl, fits⟩, .inr rfl⟩

/-- **What is accepted**, and with which answer. -/
theorem nextPage_iff {more : Bool} : nextPage crate headers current page count = .ok more ↔
    Signalled crate headers current page count more := by
  rw [nextPage_eq]
  have link (linked : Bool) : ((if linked = true then some true else none) = none ∨
      (if linked = true then some true else none) = some more) ↔
        (linked = true → more = true) := by
    cases linked <;> cases more <;> simp
  have unlinked (linked : Bool) :
      (if linked = true then some true else none) = none ↔ linked = false := by
    cases linked <;> simp
  constructor
  · rintro ⟨pageNumber, perPage, nextNumber, totalNumber, header, total, linked, ⟨h₁, same⟩,
      ⟨h₂, same'⟩, ⟨h₃, h₄⟩, ⟨h₅, h₆⟩, h₇, agree⟩
    rw [agreeing_iff, link, unlinked] at agree
    obtain ⟨named, next, counted, silent⟩ := agree
    obtain ⟨links, rfl⟩ := nextLinks_iff.mp h₇
    rw [number_iff] at h₁ h₂
    refine ⟨?_, ?_, nextSignal_iff.mp ⟨_, _, h₃, h₄, named⟩,
      totalSignal_iff.mp ⟨_, _, h₅, h₆, counted⟩, links, ?_, fun noNext noTotal noLink => ?_⟩
    · rcases same with rfl | rfl
      · exact .inl h₁
      · exact .inr h₁
    · rcases same' with rfl | rfl
      · exact .inl h₂
      · exact .inr h₂
    · simpa using next
    · obtain rfl := noNext.unique (number_iff.mp h₃)
      obtain rfl := noTotal.unique (number_iff.mp h₅)
      cases h₄
      cases h₆
      exact silent rfl (by simpa using noLink) rfl
  · intro h
    obtain ⟨nextNumber, header, h₃, h₄, named⟩ := nextSignal_iff.mpr h.next
    obtain ⟨totalNumber, total, h₅, h₆, counted⟩ := totalSignal_iff.mpr h.total
    have h₇ := nextLinks_iff.mpr ⟨h.links, rfl⟩
    have optional {name : String} {n : Nat}
        (said : Written headers name none ∨ Written headers name (some (some n))) :
        ∃ read, number headers name = .ok read ∧ (read = none ∨ read = some (some n)) := by
      rcases said with said | said
      · exact ⟨_, number_iff.mpr said, .inl rfl⟩
      · exact ⟨_, number_iff.mpr said, .inr rfl⟩
    obtain ⟨pageNumber, h₁⟩ := optional h.pageNumber
    obtain ⟨perPage, h₂⟩ := optional h.perPage
    refine ⟨pageNumber, perPage, nextNumber, totalNumber, header, total, _, h₁, h₂, ⟨h₃, h₄⟩,
      ⟨h₅, h₆⟩, h₇, agreeing_iff.mpr ⟨named, (link _).mpr (by simpa using h.linked), counted, ?_⟩⟩
    intro noHeader noLink noTotal
    subst noHeader noTotal
    rw [unlinked] at noLink
    refine h.silent ?_ ?_ (by simpa using noLink)
    · rcases headerNext_iff.mp h₄ with ⟨rfl, -⟩ | ⟨-, none⟩ | ⟨-, none⟩
      · exact number_iff.mp h₃
      · cases none
      · cases none
    · rcases totalNext_iff.mp h₆ with ⟨rfl, -⟩ | ⟨_, -, none, -⟩
      · exact number_iff.mp h₅
      · cases none

/-- The pairs other than the page are those of the current address. -/
theorem SameList.pairs_perm {url : Url} {n : Nat} (h : SameList current url n)
    (once : (current.pairs.map Prod.fst).Nodup) :
    (url.pairs.filter (·.1 != "page")).Perm (current.pairs.filter (·.1 != "page")) := by
  rw [List.perm_ext_iff_of_nodup (h.once.of_map.filter _) (once.of_map.filter _)]
  rintro ⟨name, value⟩
  rw [List.mem_filter, List.mem_filter]
  apply and_congr_left
  intro other
  rw [h.filters name (bne_iff_ne.mp other), lookupLast_eq_some once]

/-- **What a page says of further pages.** A page is accepted exactly when what its headers say is
consistent, and rejected otherwise. Addresses are requested without a password, and with no name
twice: then each link keeps the origin, the path, the user and all parameters but the page. -/
theorem nextPage_exact (crate : UrlCrate) (headers : HeaderMap) (current : Url) (page count : Nat) :
    (∀ more, nextPage crate headers current page count = .ok more ↔
      Signalled crate headers current page count more) ∧
    ((∀ more, ¬Signalled crate headers current page count more) →
      ∃ failure, nextPage crate headers current page count = .error failure) ∧
    (current.password = none → (current.pairs.map Prod.fst).Nodup →
      ∀ more, nextPage crate headers current page count = .ok more →
        ∀ item ∈ linkTexts headers, ∃ url rel, linkItem crate item = some (url, rel) ∧
          url.sameOrigin current = true ∧ url.path = current.path ∧
          url.username = current.username ∧ url.password = current.password ∧
          (url.pairs.filter (·.1 != "page")).Perm (current.pairs.filter (·.1 != "page"))) := by
  refine ⟨fun more => nextPage_iff, fun none => ?_, fun anonymous once more accepted item mem => ?_⟩
  · cases answer : nextPage crate headers current page count with
    | error failure => exact ⟨failure, rfl⟩
    | ok more => exact absurd (nextPage_iff.mp answer) (none more)
  · obtain ⟨url, rel, n, read, -, same, -⟩ := (nextPage_iff.mp accepted).links.accepted item mem
    exact ⟨url, rel, read, same.origin, same.path, same.userinfo.1,
      same.userinfo.2.trans anonymous.symm, same.pairs_perm once⟩

/-- A page of the list of the members of a group. -/
def membersUrl (page : String) : Url where
  href := "https://gitlab.example/api/v4/groups/1/members?per_page=100&page=" ++ page
  origin := some ("https", "gitlab.example", 443)
  username := ""
  password := none
  path := "/api/v4/groups/1/members"
  pairs := [("per_page", "100"), ("page", page)]
  fragment := none

def membersCrate : UrlCrate where
  parse text := if text = (membersUrl "2").href then some (membersUrl "2") else none
  join _ _ := none
  withSegments _ _ := none
  extendPairs url _ := url

def membersHeaders : HeaderMap := [
  ("x-page", .ofString "1"),
  ("link", .ofString ("<" ++ (membersUrl "2").href ++ ">; rel=\"next\"")),
  ("x-total-pages", .ofString "2")]

theorem members_exact : nextPage membersCrate membersHeaders (membersUrl "1") 1 100 = .ok true ∧
    Signalled membersCrate membersHeaders (membersUrl "1") 1 100 true ∧
    (linkTexts membersHeaders).length = 1 ∧
    ∀ item ∈ linkTexts membersHeaders, ∃ url rel, linkItem membersCrate item = some (url, rel) ∧
      (url.pairs.filter (·.1 != "page")).Perm [("per_page", "100")] := by
  have accepted : nextPage membersCrate membersHeaders (membersUrl "1") 1 100 = .ok true := by
    decide +kernel
  obtain ⟨exact', -, kept⟩ := nextPage_exact membersCrate membersHeaders (membersUrl "1") 1 100
  refine ⟨accepted, (exact' true).mp accepted, by decide +kernel, fun item mem => ?_⟩
  obtain ⟨url, rel, read, -, -, -, -, perm⟩ := kept rfl (by decide) true accepted item mem
  exact ⟨url, rel, read, perm⟩

end Permesh.Gitlab

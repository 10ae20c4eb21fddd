import Permesh.Laws.Gitlab.Signals

/-!
# Laws.Gitlab.Pagination — what a page says of further pages

`nextPage` sees one page. On a page it accepts, a next page that is named is the one behind it, and
a page that ends the list names no page behind itself. A total is another matter: it may name any
page from the current one on, and the pages behind it may omit it.

The signals are read one by one, and what any of them announces is put together (`Announces`). The
statement is about one page, and is used for every page of a list.
-/

namespace Permesh.Gitlab

open Permesh.Json Permesh.Http Permesh.Lib

variable {crate : UrlCrate} {headers : HeaderMap} {current : Url} {page count : Nat}

/-- A header value that names a page. -/
def HeaderNames (headers : HeaderMap) (name : String) (m : Nat) : Prop :=
  ∃ value ∈ headers.getAll name, value.toStr.bind Text.parseU64 = some m

/-- An item of a link header with relation next, that names a page. -/
def LinkNames (crate : UrlCrate) (headers : HeaderMap) (m : Nat) : Prop :=
  ∃ value ∈ headers.getAll "link", ∃ text, value.toStr = some text ∧
    ∃ item ∈ Text.split ',' text, ∃ url, linkItem crate item = some (url, "next") ∧
      linkedPage url = some m

/-- A page announces the page `m`. -/
def Announces (crate : UrlCrate) (headers : HeaderMap) (m : Nat) : Prop :=
  HeaderNames headers "x-next-page" m ∨ LinkNames crate headers m ∨
    HeaderNames headers "x-total-pages" m

/-- A header that is read names one page at most. -/
theorem written_names {name : String} {read : Option (Option Nat)} {m : Nat}
    (h : Written headers name read) (names : HeaderNames headers name m) : read = some (some m) := by
  obtain ⟨value, mem, parsed⟩ := names
  have read_as {other : HeaderValue} {text : String} (single : headers.getAll name = [other])
      (written : other.toStr = some text) : Text.parseU64 text = some m := by
    rw [single] at mem
    rw [List.mem_singleton.mp mem, written, Option.bind_some] at parsed
    exact parsed
  match read with
  | none =>
    rw [show headers.getAll name = [] from h] at mem
    cases mem
  | some none =>
    obtain ⟨other, single, written⟩ := h
    have blank : Text.parseU64 "" = none := by decide
    cases blank.symm.trans (read_as single written)
  | some (some n) =>
    obtain ⟨other, single, written, below⟩ := h
    cases (Text.parseUnsigned_toString below).symm.trans (read_as single written)
    rfl

theorem names_number {name : String} {m : Nat} (h : number headers name = .ok (some (some m))) :
    HeaderNames headers name m := by
  obtain ⟨value, single, written, below⟩ := number_iff.mp h
  refine ⟨value, by rw [single]; exact List.mem_cons_self, ?_⟩
  rw [written]
  exact Text.parseUnsigned_toString below

/-- **What an accepted page announces.** A page that ends the list announces no page behind itself;
on any other page, only a total does. -/
theorem nextPage_announces {next : Bool} {m : Nat}
    (h : nextPage crate headers current page count = .ok next) (announces : Announces crate headers m) :
    (next = false → m ≤ page) ∧
      (m ≤ page + 1 ∨ number headers "x-total-pages" = .ok (some (some m))) := by
  have accepted := nextPage_iff.mp h
  rcases announces with names | ⟨value, mem, text, written, item, part, url, read, number⟩ | names
  · -- a named next page is the one behind, and the list goes on
    rcases accepted.next with said | ⟨said, -⟩ | ⟨said, rfl⟩
    · cases written_names said names
    · cases written_names said names
    · cases written_names said names
      exact ⟨nofun, .inl (Nat.le_refl _)⟩
  · have there : item ∈ linkTexts headers :=
      List.mem_flatMap.mpr ⟨value, mem, by rw [written]; exact part⟩
    obtain ⟨url', rel, n, read', -, same, named⟩ := accepted.links.accepted item there
    cases read.symm.trans read'
    cases number.symm.trans (sameList_iff.mp same).2.2.1
    have goes : next = true := accepted.linked ⟨item, there, by simp [linksNext, read]⟩
    rw [named rfl, goes]
    exact ⟨nofun, .inl (Nat.le_refl _)⟩
  · rcases accepted.total with said | ⟨total, said, rfl, -⟩
    · cases written_names said names
    · cases written_names said names
      exact ⟨fun stop => Nat.le_of_not_lt (of_decide_eq_false stop), .inr (number_iff.mpr said)⟩

end Permesh.Gitlab

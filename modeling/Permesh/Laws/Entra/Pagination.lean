import Permesh.Entra.Client
import Permesh.Lib.Maps

/-!
# Laws.Entra.Pagination — where requests go

Every address that a list requests is contained in the one it started from: the same origin and
path, no credentials, and nothing in the query but the selectors of the start and a token of the
server. No address is requested for two pages, so a list ends after `MAX_PAGES` of them.

The checks of `next_url` compare each address with the one that the list started from
(`contained_of_follows`), so nothing has to be carried from page to page but which addresses were
visited. Of the URL crate only what its documentation says is used (`Documented`).
-/

namespace Permesh.Entra

open Permesh.Json Permesh.Http Permesh.Lib

/-! ## Addresses -/

/-- A relative path of unreserved characters. -/
def plainPath (path : String) : Bool :=
  (path.toList.head?.any (· != '/')) &&
    path.toList.all fun c => Text.isAsciiAlphanumeric c || c == '-' || c == '/'

/-- The directories that are listed. -/
theorem plain_directory : ∀ path ∈ ["users", "servicePrincipals", "groups"],
    plainPath path = true := by
  decide

/-- The members of a group whose identifier was validated. -/
theorem plain_members {id : String} (h : uuid id = true) :
    plainPath s!"groups/{id}/members" = true := by
  have safe : ∀ c ∈ id.toList, (Text.isAsciiAlphanumeric c || c == '-' || c == '/') = true := by
    intro c mem
    obtain ⟨i, hi, rfl⟩ := List.mem_iff_getElem.mp mem
    rw [uuid, Bool.and_eq_true] at h
    have := List.all_eq_true.mp h.2 (id.toList[i], i) (List.mem_zipIdx_iff_getElem?.mpr (by simp))
    dsimp only at this
    split at this
    · rw [this, Bool.or_true, Bool.true_or]
    · simp only [Text.isAsciiHexdigit, Bool.or_eq_true, Bool.and_eq_true, decide_eq_true_eq] at this
      simp only [Text.isAsciiAlphanumeric, Text.isAsciiUppercase, Bool.or_eq_true,
        Bool.and_eq_true, decide_eq_true_eq]
      rcases this with (digit | ⟨low, high⟩) | ⟨low, high⟩
      · exact .inl (.inl (.inl (.inl digit)))
      · exact .inl (.inl (.inr ⟨low, Char.le_trans high (by decide : 'f' ≤ 'z')⟩))
      · exact .inl (.inl (.inl (.inr ⟨low, Char.le_trans high (by decide : 'F' ≤ 'Z')⟩)))
  have chars : (s!"groups/{id}/members").toList = "groups/".toList ++ id.toList ++ "/members".toList := by
    rw [← String.toList_append, ← String.toList_append]
    rfl
  rw [plainPath, chars, Bool.and_eq_true]
  refine ⟨by simp, ?_⟩
  rw [List.all_append, List.all_append, Bool.and_eq_true, Bool.and_eq_true]
  exact ⟨⟨by decide, List.all_eq_true.mpr safe⟩, by decide⟩

/-- What the `url` crate documents of joining such a path and of appending pairs to a query. -/
structure Documented (crate : UrlCrate) : Prop where
  join : ∀ base path url, plainPath path = true → crate.join base path = some url →
    url.origin = base.origin ∧ url.username = base.username ∧ url.password = base.password ∧
      url.pairs = [] ∧ url.fragment = none
  extendPairs : ∀ url pairs, (crate.extendPairs url pairs).origin = url.origin ∧
    (crate.extendPairs url pairs).username = url.username ∧
    (crate.extendPairs url pairs).password = url.password ∧
    (crate.extendPairs url pairs).pairs = url.pairs ++ pairs ∧
    (crate.extendPairs url pairs).fragment = url.fragment

/-- An address that stays with the one a list started from. -/
structure Contained (initial url : Url) : Prop where
  origin : url.sameOrigin initial = true
  path : url.path = initial.path
  anonymous : url.username = "" ∧ url.password = none
  fragment : url.fragment = none
  preserved : ∀ pair ∈ initial.pairs, pair ∈ url.pairs
  keys : ∀ pair ∈ url.pairs, pair.1 = "$select" ∨ pair.1 = "$top" ∨ pair.1 = "$skiptoken"
  once : (url.pairs.map Prod.fst).Nodup
  select : "$select" ∈ url.pairs.map Prod.fst → "$select" ∈ initial.pairs.map Prod.fst

theorem allowed_iff {name : String} :
    allowed name = true ↔ name = "$select" ∨ name = "$top" ∨ name = "$skiptoken" := by
  simp [allowed]

theorem sameOrigin_self {url : Url} (h : url.origin.isSome = true) : url.sameOrigin url = true := by
  obtain ⟨origin, known⟩ := Option.isSome_iff_exists.mp h
  simp [Url.sameOrigin, known]

/-- **The checks of `next_url`** let only contained addresses pass. -/
theorem contained_of_follows {initial url : Url} (h : follows initial url = true) :
    Contained initial url := by
  unfold follows at h
  simp only [Bool.and_eq_true, beq_iff_eq, Option.isNone_iff_eq_none, decide_eq_true_eq] at h
  obtain ⟨⟨⟨⟨⟨⟨⟨⟨⟨origin, path⟩, username⟩, password⟩, fragment⟩, keys, once⟩, select⟩, preserved⟩,
    -⟩, -⟩ := h
  refine ⟨origin, path, ⟨username, password⟩, fragment, ?_, ?_, once, ?_⟩
  · rintro ⟨name, value⟩ mem
    have kept := List.all_eq_true.mp preserved (name, value) mem
    rw [beq_iff_eq] at kept
    exact (getElem?_ofList_eq_some once).mp kept
  · intro pair mem
    exact allowed_iff.mp (List.all_eq_true.mp keys pair mem)
  · intro mem
    have there : (mapOf url.pairs).contains "$select" = true := by
      rw [mapOf, Std.ExtTreeMap.contains_ofList]
      exact List.contains_iff_mem.mpr mem
    rw [there, Bool.true_and, Bool.not_not] at select
    obtain ⟨pair, hp, key⟩ := List.any_eq_true.mp select
    exact List.mem_map.mpr ⟨pair, hp, beq_iff_eq.mp key⟩

variable {client : Client}

/-- An address that `url` builds is contained in itself. -/
theorem contained_url (documented : Documented client.crate)
    (graph : client.origin = graphOrigin) {path : String} (plain : plainPath path = true)
    {select : Option String} {url : Url} (built : client.url path select = .ok url) :
    Contained url url := by
  unfold Client.url at built
  split at built
  · cases built
  case h_2 base hb =>
    obtain ⟨origin, username, password, pairs, fragment⟩ := documented.join _ _ _ plain hb
    rw [graph] at origin username password
    have start : base.sameOrigin base = true := sameOrigin_self (by rw [origin]; rfl)
    split at built
    · cases built
      refine ⟨start, rfl, ⟨username, password⟩, fragment, fun _ mem => mem, ?_, ?_, id⟩
      · rw [pairs]
        exact fun _ mem => by cases mem
      · rw [pairs]
        exact List.nodup_nil
    · cases built
      obtain ⟨origin', username', password', pairs', fragment'⟩ := documented.extendPairs base
        [("$select", ‹String›), ("$top", "100")]
      rw [pairs, List.nil_append] at pairs'
      refine ⟨sameOrigin_self (by rw [origin', origin]; rfl), rfl,
        ⟨username'.trans username, password'.trans password⟩, fragment'.trans fragment,
        fun _ mem => mem, ?_, ?_, id⟩
      · rw [pairs']
        simp
      · rw [pairs']
        simp

/-! ## Requests -/

variable (client) in
theorem attempts_sent (url : Url) (left attempt : Nat) (w : Wire) :
    ∃ times ≤ left, (client.attempts url left attempt w).2.sent =
      w.sent ++ List.replicate times url := by
  induction left generalizing attempt w with
  | zero => exact ⟨0, Nat.le_refl _, by simp [Client.attempts]⟩
  | succ left ih =>
    unfold Client.attempts
    dsimp only
    split
    · exact ⟨0, Nat.zero_le _, by simp⟩
    split
    · exact ⟨1, by omega, rfl⟩
    · exact ⟨1, by omega, rfl⟩
    split
    · exact ⟨1, by omega, rfl⟩
    split
    case isTrue =>
      split
      · exact ⟨1, by omega, rfl⟩
      · obtain ⟨times, le, sent⟩ := ih (attempt + 1)
          ⟨{ w.budget with requests := w.budget.requests + 1 }, w.sent ++ [url]⟩
        refine ⟨1 + times, by omega, ?_⟩
        rw [sent, List.append_assoc, ← List.replicate_one, List.replicate_append_replicate]
    case isFalse =>
      split
      · exact ⟨1, by omega, rfl⟩
      · exact ⟨1, by omega, rfl⟩

theorem takeRows_frame (p : Progress) (rows : List Object) :
    (takeRows p rows).1.next = p.next ∧ (takeRows p rows).1.seenUrls = p.seenUrls ∧
      (takeRows p rows).1.wire.sent = p.wire.sent := by
  induction rows generalizing p with
  | nil => exact ⟨rfl, rfl, rfl⟩
  | cons row rows ih =>
    unfold takeRows
    dsimp only
    split
    · exact ⟨rfl, rfl, rfl⟩
    split
    · exact ⟨rfl, rfl, rfl⟩
    · exact ih _

/-! ## Runs -/

/-- The requests of a run: the addresses of its pages, each with the number of times it was
requested. -/
structure Visited (initial : Url) (w : Wire) (p : Progress) (turns : List (Url × Nat)) : Prop where
  sent : p.wire.sent = w.sent ++ turns.flatMap fun turn => List.replicate turn.2 turn.1
  retries : ∀ turn ∈ turns, turn.2 ≤ 3
  contained : ∀ turn ∈ turns, Contained initial turn.1
  seen : ∀ turn ∈ turns, turn.1.href ∈ p.seenUrls
  once : (turns.map fun turn => turn.1.href).Nodup

variable (client) in
/-- **One turn** visits a new page, and what it goes on with is contained. -/
theorem Visited.turn {initial : Url} {w : Wire} {p : Progress} {turns : List (Url × Nat)}
    (h : Visited initial w p turns) (next : Contained initial p.next) :
    ∃ turns', Visited initial w (client.turn initial p).1 turns' ∧
      turns'.length ≤ turns.length + 1 ∧
      ((client.turn initial p).2 = .ok true → Contained initial (client.turn initial p).1.next) := by
  unfold Client.turn
  split
  · exact ⟨turns, h, Nat.le_succ _, fun h => by cases h⟩
  case isFalse new =>
    obtain ⟨times, le, sent⟩ := attempts_sent client p.next 3 0 p.wire
    have visited {q : Progress} (wire : q.wire.sent = (client.request p.next p.wire).2.sent)
        (seen : q.seenUrls = p.seenUrls.insert p.next.href) :
        Visited initial w q (turns ++ [(p.next, times)]) := by
      constructor
      · rw [wire, List.flatMap_append, List.flatMap_singleton, ← List.append_assoc, ← h.sent]
        exact sent
      · exact forall_mem_snoc h.retries le
      · exact forall_mem_snoc h.contained next
      · rw [seen]
        exact forall_mem_snoc (fun turn mem => mem_insert_key.mpr (.inr (h.seen turn mem)))
          (mem_insert_key.mpr (.inl rfl))
      · refine nodup_map_snoc h.once fun turn mem same => new ?_
        rw [← same]
        exact h.seen turn mem
    have length : (turns ++ [(p.next, times)]).length ≤ turns.length + 1 := by simp
    dsimp only
    cases answer : client.request p.next p.wire with
    | mk result wire =>
      rw [answer] at visited
      cases result with
      | error failure => exact ⟨_, visited rfl rfl, length, fun h => by cases h⟩
      | ok page =>
        dsimp only
        obtain ⟨-, seen, sent'⟩ := takeRows_frame
          { p with seenUrls := p.seenUrls.insert p.next.href, wire := wire } page.value
        generalize takeRows _ page.value = taken at seen sent'
        obtain ⟨q, result⟩ := taken
        dsimp only at seen sent' ⊢
        cases result with
        | error failure => exact ⟨_, visited sent' seen, length, fun h => by cases h⟩
        | ok done =>
          dsimp only
          split
          · exact ⟨_, visited sent' seen, length, fun h => by cases h⟩
          case h_2 link _ =>
            split
            · exact ⟨_, visited sent' seen, length, fun h => by cases h⟩
            case h_2 url hu =>
              refine ⟨_, visited sent' seen, length, fun _ => ?_⟩
              unfold nextUrl at hu
              split at hu
              · cases hu
              split at hu
              · cases hu
              split at hu
              case isTrue follows =>
                cases hu
                exact contained_of_follows follows
              case isFalse => cases hu

variable (client) in
theorem Visited.pages {initial : Url} {w : Wire} (left : Nat) {p : Progress}
    {turns : List (Url × Nat)} (h : Visited initial w p turns) (next : Contained initial p.next) :
    ∃ turns', Visited initial w (client.pages initial left p).1 turns' ∧
      turns'.length ≤ turns.length + left := by
  induction left generalizing p turns with
  | zero => exact ⟨turns, h, Nat.le_refl _⟩
  | succ left ih =>
    obtain ⟨turns', visited, length, goes⟩ := h.turn client next
    unfold Client.pages
    generalize client.turn initial p = outcome at visited goes
    obtain ⟨q, result⟩ := outcome
    match result with
    | .error _ => exact ⟨turns', visited, by omega⟩
    | .ok false => exact ⟨turns', visited, by omega⟩
    | .ok true =>
      obtain ⟨turns'', visited', length'⟩ := ih visited (goes rfl)
      exact ⟨turns'', visited', by omega⟩

/-- **Every request of a list is contained in its start**, no page is requested twice, and there are
at most `MAX_PAGES` of them, each requested at most three times. -/
theorem listing_contained (client : Client) (documented : Documented client.crate)
    (graph : client.origin = graphOrigin) {path : String} (plain : plainPath path = true)
    (select : Option String) {initial : Url} (built : client.url path select = .ok initial)
    (w : Wire) : ∃ turns : List (Url × Nat),
      (client.listing initial w).2.sent =
        w.sent ++ (turns.flatMap fun turn => List.replicate turn.2 turn.1) ∧
      turns.length ≤ MAX_PAGES ∧
      (turns.map fun turn => turn.1.href).Nodup ∧
      ∀ turn ∈ turns, turn.2 ≤ 3 ∧ Contained initial turn.1 := by
  have start : Visited initial w ⟨[], initial, ∅, ∅, w⟩ [] :=
    ⟨(List.append_nil _).symm, fun _ h => (by cases h), fun _ h => (by cases h),
      fun _ h => (by cases h), List.nodup_nil⟩
  obtain ⟨turns, visited, length⟩ :=
    start.pages client MAX_PAGES (contained_url documented graph plain built)
  refine ⟨turns, visited.sent, ?_, visited.once, fun turn mem => ?_⟩
  · rwa [List.length_nil, Nat.zero_add] at length
  · exact ⟨visited.retries turn mem, visited.contained turn mem⟩

/-! ## A list of two pages -/

def samplePage : Url :=
  ⟨"https://graph.microsoft.com/v1.0/groups", some ("https", "graph.microsoft.com", 443), "", none,
    "/v1.0/groups", [], none⟩

def sampleClient : Client where
  origin := graphOrigin
  token := "secret"
  crate := {
    parse := fun text =>
      if text = "https://graph.microsoft.com/v1.0/groups?$skiptoken=2" then
        some { samplePage with href := text, pairs := [("$skiptoken", "2")] }
      else none
    join := fun base path =>
      if plainPath path then
        some { base with
          href := s!"{base.href}{path}"
          path := s!"{base.path}{path}"
          pairs := []
          fragment := none }
      else none
    withSegments := fun _ _ => none
    extendPairs := fun url pairs => { url with pairs := url.pairs ++ pairs } }
  net := {
    server := fun request => .answered ⟨200, [], none, [[if request = 1 then 1 else 2]], false⟩
    decode := fun _ => some .null }
  decodePage := fun bytes =>
    some ⟨[], if bytes = [1] then some "https://graph.microsoft.com/v1.0/groups?$skiptoken=2"
      else none⟩

theorem sample_documented : Documented sampleClient.crate where
  join := by
    intro base path url plain h
    simp only [sampleClient, if_pos plain, Option.some.injEq] at h
    subst h
    exact ⟨rfl, rfl, rfl, rfl, rfl⟩
  extendPairs := fun _ _ => ⟨rfl, rfl, rfl, rfl, rfl⟩

/-- Two pages are requested, both contained in the first. -/
theorem sample_contained :
    (sampleClient.listing samplePage ⟨⟨0, 0⟩, []⟩).2.sent =
      [samplePage, { samplePage with
        href := "https://graph.microsoft.com/v1.0/groups?$skiptoken=2"
        pairs := [("$skiptoken", "2")] }] ∧
    ∃ turns : List (Url × Nat),
      (sampleClient.listing samplePage ⟨⟨0, 0⟩, []⟩).2.sent =
        [] ++ (turns.flatMap fun turn => List.replicate turn.2 turn.1) ∧
      turns.length ≤ MAX_PAGES ∧
      (turns.map fun turn => turn.1.href).Nodup ∧
      ∀ turn ∈ turns, turn.2 ≤ 3 ∧ Contained samplePage turn.1 := by
  constructor
  · decide +kernel
  · exact listing_contained sampleClient sample_documented rfl (plain_directory "groups" (by decide))
      none (by decide +kernel) ⟨⟨0, 0⟩, []⟩

end Permesh.Entra

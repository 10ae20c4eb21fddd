import Permesh.Laws.Github.Complete
import Permesh.Laws.Github.Walk
import Permesh.Lib.Separators

/-!
# Laws.Github.Requests — where requests go

Names from responses become segments of later addresses, and `url` is the only function that builds an
address. So every request stays with the configured origin, on one of the endpoints, with the
parameters of its list (`Confined`). A link header is read, but never followed.

Everything sent in a traversal goes through `url`, so one lemma about it and the rule of a traversal are
enough. That segments are encoded as documented is an assumption about the URL crate.
-/

namespace Permesh.Github

open Permesh.Json Permesh.Http Permesh.Lib

/-! ## Addresses -/

/-- Segments that are written as they are. -/
def Unreserved (s : String) : Prop :=
  s ≠ "" ∧ s ≠ "." ∧ s ≠ ".." ∧
    ∀ c ∈ s.toList, Text.isAsciiAlphanumeric c = true ∨ c = '-' ∨ c = '_' ∨ c = '.'

/-- What the documentation of the `url` crate says about segments and parameters that are set. -/
structure Documented (crate : UrlCrate) : Prop where
  segments : ∀ base segments url, (∀ s ∈ segments, Unreserved s) →
    crate.withSegments base segments = some url →
      ∃ href, url = { base with href := href, path := "/" ++ "/".intercalate segments }
  pairs : ∀ base pairs, ∃ href,
    crate.extendPairs base pairs = { base with href := href, pairs := base.pairs ++ pairs }

/-- An origin and nothing else, as `new` parses it. -/
structure Bare (url : Url) : Prop where
  username : url.username = ""
  password : url.password = none
  pairs : url.pairs = []
  fragment : url.fragment = none

/-- The endpoints: segments and parameters. -/
inductive Endpoint : List String → List (String × String) → Prop where
  | user : Endpoint ["user"] []
  | membership (org : String) : Endpoint ["user", "memberships", "orgs", org] []
  | organization (org : String) : Endpoint ["orgs", org] []
  | permissions (org slug owner name : String) :
      Endpoint ["orgs", org, "teams", slug, "repos", owner, name] []
  | page {org : String} {purpose : Purpose} {segments : List String}
      {filters : List (String × String)} (listed : Listed org purpose segments filters) {page : Nat}
      (first : 1 ≤ page) (last : page ≤ MAX_PAGES) :
      Endpoint segments (filters ++ [("per_page", "100"), ("page", toString page)])

/-- An address at the origin of the client, on an endpoint. -/
structure Confined (client : Client) (url : Url) : Prop where
  origin : url.origin = client.origin.origin
  username : url.username = ""
  password : url.password = none
  fragment : url.fragment = none
  endpoint : ∃ segments query, Endpoint segments query ∧ (∀ s ∈ segments, safeSegment s = true) ∧
    url.path = "/" ++ "/".intercalate segments ∧ Text.split '/' url.path = "" :: segments ∧
    url.pairs = query

theorem Endpoint.nonempty {segments : List String} {query : List (String × String)}
    (h : Endpoint segments query) : segments ≠ [] := by
  cases h with
  | page listed => cases listed <;> exact List.cons_ne_nil _ _
  | _ => exact List.cons_ne_nil _ _

theorem unreserved_of_safe {s : String} (safe : safeSegment s = true) : Unreserved s := by
  simp only [safeSegment, Bool.and_eq_true, bne_iff_ne, Bool.not_eq_true', String.isEmpty_eq_false_iff,
    List.all_eq_true, Bool.or_eq_true, beq_iff_eq] at safe
  obtain ⟨⟨⟨⟨nonempty, -⟩, dot⟩, dots⟩, chars⟩ := safe
  refine ⟨nonempty, dot, dots, fun c mem => ?_⟩
  have := chars c mem
  tauto

theorem no_slash {s : String} (h : Unreserved s) : '/' ∉ s.toList := by
  intro mem
  rcases h.2.2.2 _ mem with h | h | h | h
  · exact absurd h (by decide)
  · exact absurd h (by decide)
  · exact absurd h (by decide)
  · exact absurd h (by decide)

/-- The parts of an address behind its origin are the segments. -/
theorem split_path {segments : List String} (nonempty : segments ≠ [])
    (unreserved : ∀ s ∈ segments, Unreserved s) :
    Text.split '/' ("/" ++ "/".intercalate segments) = "" :: segments := by
  have whole : "/" ++ "/".intercalate segments = "/".intercalate ("" :: segments) := by
    rw [String.intercalate_cons_of_ne_nil nonempty, String.empty_append]
  rw [whole]
  apply split_intercalate rfl (List.cons_ne_nil _ _)
  intro s mem
  rcases List.mem_cons.mp mem with rfl | mem
  · exact List.not_mem_nil
  · exact no_slash (unreserved s mem)

section

variable {client : Client}

/-- What `url` builds: safe segments behind the origin, and the parameters. -/
theorem url_ok (documented : Documented client.crate) {segments : List String}
    {query : List (String × String)} {url : Url} (ok : client.url segments query = .ok url) :
    (∀ s ∈ segments, safeSegment s = true) ∧ ∃ href, url = { client.origin with
      href := href
      path := "/" ++ "/".intercalate segments
      pairs := client.origin.pairs ++ query } := by
  unfold Client.url at ok
  split at ok
  · cases ok
  case isFalse safe =>
    rw [Bool.not_eq_false, List.all_eq_true] at safe
    refine ⟨safe, ?_⟩
    split at ok
    · cases ok
    case h_2 base set =>
      obtain ⟨href, rfl⟩ := documented.segments _ _ _ (fun s mem => unreserved_of_safe (safe s mem)) set
      cases ok
      split
      case isTrue empty =>
        rw [List.isEmpty_iff.mp empty, List.append_nil]
        exact ⟨href, rfl⟩
      case isFalse =>
        obtain ⟨href', extended⟩ := documented.pairs _ query
        exact ⟨href', extended⟩

variable (documented : Documented client.crate) (bare : Bare client.origin)

include documented bare

/-- **The address of an endpoint is confined.** -/
theorem confined_of_url {segments : List String} {query : List (String × String)} {url : Url}
    (endpoint : Endpoint segments query) (ok : client.url segments query = .ok url) :
    Confined client url := by
  obtain ⟨safe, href, rfl⟩ := url_ok documented ok
  refine ⟨rfl, bare.username, bare.password, bare.fragment, segments, query, endpoint, safe, rfl,
    split_path endpoint.nonempty fun s mem => unreserved_of_safe (safe s mem), ?_⟩
  rw [bare.pairs, List.nil_append]

/-! ## Requests -/

/-- Every request so far was confined. -/
def AllConfined (client : Client) (w : Wire) : Prop := ∀ request ∈ w.sent, Confined client request.1

omit documented bare in
theorem confined_getMedia {url : Url} (accept : String) (confined : Confined client url) {w : Wire}
    (h : AllConfined client w) : AllConfined client (client.getMedia url accept w).2 := by
  obtain ⟨times, -, sent, -⟩ := attempts_sent client url accept 3 0 w
  intro request mem
  rw [Client.getMedia, sent] at mem
  rcases List.mem_append.mp mem with mem | mem
  · exact h request mem
  · rw [(List.mem_replicate.mp mem).2]
    exact confined

theorem confined_object {segments : List String} (endpoint : Endpoint segments []) {w : Wire}
    (h : AllConfined client w) : AllConfined client (client.object segments w).2 := by
  unfold Client.object
  split
  · exact h
  case h_2 url ok =>
    have sent := confined_getMedia "application/vnd.github+json"
      (confined_of_url documented bare endpoint ok) h
    unfold Client.get
    split
    case h_1 failure w' got =>
      rw [got] at sent
      exact sent
    case h_2 headers value w' got =>
      rw [got] at sent
      split
      · exact sent
      · exact sent

omit documented bare in
/-- A page that was fetched asks for nothing. -/
theorem receive_sent (page : Nat) (p : Progress) (fetched : Page) :
    (client.receive page p fetched).1.wire.sent = p.wire.sent := by
  unfold Client.receive
  split
  · dsimp only
    split
    · rfl
    · split
      · rfl
      · split
        · rfl
        · rfl
        · split <;> rfl
  · rfl

theorem confined_turn {org : String} {purpose : Purpose} {segments : List String}
    {filters : List (String × String)} (listed : Listed org purpose segments filters) {page : Nat}
    (first : 1 ≤ page) (last : page ≤ MAX_PAGES) {p : Progress} (h : AllConfined client p.wire) :
    AllConfined client (client.turn segments filters page p).1.wire := by
  unfold Client.turn
  split
  · exact h
  case h_2 url ok =>
    have sent := confined_getMedia "application/vnd.github+json"
      (confined_of_url documented bare (.page listed first last) ok) h
    unfold Client.get
    split
    case h_1 failure w got =>
      rw [got] at sent
      exact sent
    case h_2 headers value w got =>
      rw [got] at sent
      unfold AllConfined
      rw [receive_sent]
      exact sent

theorem confined_pages {org : String} {purpose : Purpose} {segments : List String}
    {filters : List (String × String)} (listed : Listed org purpose segments filters)
    (left page : Nat) (first : 1 ≤ page) (last : page + left ≤ MAX_PAGES + 1) {p : Progress}
    (h : AllConfined client p.wire) :
    AllConfined client (client.pages segments filters left page p).1.wire := by
  induction left generalizing page p with
  | zero => exact h
  | succ left ih =>
    have turned := confined_turn documented bare listed first (by omega) h
    unfold Client.pages
    split
    case h_1 q failure turn =>
      rw [turn] at turned
      exact turned
    case h_2 q turn =>
      rw [turn] at turned
      exact turned
    case h_3 q turn =>
      rw [turn] at turned
      exact ih (page + 1) (by omega) (by omega) turned

theorem confined_list {org : String} {purpose : Purpose} {segments : List String}
    {filters : List (String × String)} (listed : Listed org purpose segments filters) {w : Wire}
    (h : AllConfined client w) : AllConfined client (client.list segments filters w).2 :=
  confined_pages documented bare listed MAX_PAGES 1 (Nat.le_refl 1) (by decide) h

theorem confined_permissions (org slug owner name : String) (repo : Value) {t : Traversal}
    (h : AllConfined client t.wire) :
    AllConfined client (client.permissions org slug owner name repo t).2.wire := by
  unfold Client.permissions
  split
  · exact h
  case h_2 url ok =>
    have sent := confined_getMedia "application/vnd.github.v3.repository+json"
      (confined_of_url documented bare (.permissions org slug owner name) ok) h
    split
    case h_1 headers value w got =>
      rw [got] at sent
      dsimp only
      split
      · exact sent
      · exact sent
    case h_2 failure w got =>
      rw [got] at sent
      exact sent

/-- Every step of a traversal asks for endpoints only. -/
theorem confined_walk : Walk client
    (fun _ t t' => AllConfined client t.wire → AllConfined client t'.wire)
    (fun _ _ => True) (fun _ _ => True) (fun _ _ => True) where
  refl _ := id
  trans h h' := fun sent => h' (h sent)
  le _ h := h
  organizationStays _ _ := trivial
  teamStays _ _ := trivial
  repositoryStays _ _ := trivial
  fail _ _ _ := id
  object _ org := confined_object documented bare (.organization org)
  permissions _ org slug owner name repo := confined_permissions documented bare org slug owner name repo
  issue listed h := fun sent => h (confined_list documented bare listed sent)
  enter _ _ _ := ⟨id, trivial⟩
  memberRow _ _ _ := id
  repositoryRow _ _ := ⟨id, fun _ _ => trivial⟩
  adopt _ _ _ _ := id
  teamRow _ _ _ := ⟨id, fun _ _ => trivial⟩
  teamMemberRow _ _ := id
  teamRepositoryRow _ _ _ := id
  collaboratorRow _ _ := id

/-! ## The operations -/

theorem confined_activeMember (organizations : List String) {w : Wire}
    (h : AllConfined client w) : AllConfined client (client.activeMember organizations w).2 := by
  induction organizations generalizing w with
  | nil => exact h
  | cons org organizations ih =>
    have sent := confined_object documented bare (.membership org) h
    unfold Client.activeMember
    split
    case h_1 failure w' got =>
      rw [got] at sent
      exact sent
    case h_2 membership w' got =>
      rw [got] at sent
      split
      · exact sent
      · exact ih sent

theorem confined_check : AllConfined client client.check.2 := by
  have start : AllConfined client ⟨⟨0, 0⟩, [], []⟩ := fun _ mem => by cases mem
  have sent := confined_object documented bare .user start
  unfold Client.check
  split
  case h_1 failure w got =>
    rw [got] at sent
    exact sent
  case h_2 user w got =>
    rw [got] at sent
    split
    · exact sent
    · have later := confined_activeMember documented bare client.organizations sent
      split
      case h_1 failure w' got' =>
        rw [got'] at later
        exact later
      case h_2 w' got' =>
        rw [got'] at later
        exact later

/-- **Every request of a check and of a discovery is confined.** -/
theorem requests_confined (observedAt : String) :
    (∀ request ∈ client.check.2.sent, Confined client request.1) ∧
      ∀ request ∈ (client.traversal observedAt).wire.sent, Confined client request.1 :=
  ⟨confined_check documented bare,
    (confined_walk documented bare).traverse _ _ fun _ mem => by cases mem⟩

end

/-- The text of an address: plain segments and parameters behind a host with its default port. -/
def renderUrl (url : Url) : String :=
  let query := "&".intercalate (url.pairs.map fun (name, value) => s!"{name}={value}")
  match url.origin with
  | some (scheme, host, _) =>
    s!"{scheme}://{host}{url.path}" ++ if url.pairs.isEmpty then "" else s!"?{query}"
  | none => url.href

/-- The functions of the `url` crate on plain segments and parameters. -/
def plainCrate : UrlCrate where
  parse _ := none
  join _ _ := none
  withSegments base segments :=
    let url := { base with path := "/" ++ "/".intercalate segments }
    some { url with href := renderUrl url }
  extendPairs base pairs :=
    let url := { base with pairs := base.pairs ++ pairs }
    { url with href := renderUrl url }

theorem plain_documented : Documented plainCrate where
  segments base segments url _ h := by
    cases h
    exact ⟨_, rfl⟩
  pairs base pairs := ⟨_, rfl⟩

/-- A discovery of one organization with one member. -/
theorem sample_confined :
    ∃ client : Client, client = { sampleClient [] with crate := plainCrate } ∧
      (∀ request ∈ client.check.2.sent, Confined client request.1) ∧
      ∀ request ∈ (client.traversal "2026-01-01T00:00:00Z").wire.sent, Confined client request.1 :=
  ⟨_, rfl, requests_confined plain_documented ⟨rfl, rfl, rfl, rfl⟩ _⟩

end Permesh.Github

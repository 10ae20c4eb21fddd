import Permesh.Laws.Github.Coverage

/-!
# Laws.Github.Complete — what a complete snapshot promises

The traversal of the organizations, list by list. In a run whose lists are all orderly, a complete
snapshot means that every list reached its last page and that every row is in the graph.

The lists are followed from the inside out, each by the rule for its loop. Which lists are orderly is
the subject of `Laws.Github.Listing`.
-/

namespace Permesh.Github

open Permesh.Json Permesh.Http Permesh.Lib

variable (client : Client)

/-! ## The traversal -/

theorem extends_members (org : String) (organization : EntityKey) (filter role : String)
    (t : Traversal) : Extends client t (client.members org organization filter role t) :=
  extends_rows _ t _ _ _ _ (grows_member organization role)

theorem extends_repositories (org : String) (organization : EntityKey) (t : Traversal) :
    Extends client t (client.repositories org organization t).2 := by
  obtain ⟨grows, taken⟩ := grows_repositoryRows org organization
    (client.issue t .organizationRepositories "organization repositories" ["orgs", org, "repos"]
      []).2.state ∅
    (client.issue t .organizationRepositories "organization repositories" ["orgs", org, "repos"]
      []).1
  exact .issue (.of_grows grows rfl) taken

theorem extends_permissions (org slug owner name : String) (repo : Value) (t : Traversal) :
    Extends client t (client.permissions org slug owner name repo t).2 := by
  unfold Client.permissions
  split
  · exact .of_grows (grows_fail ..) rfl
  split
  · split
    · exact .of_grows (.refl _) rfl
    · exact .of_grows (grows_fail ..) rfl
  · exact .of_grows (grows_fail ..) rfl

theorem extends_teamRepositoryRows (org slug : String) (organization team : EntityKey)
    (t : Traversal) (found : RepositoryMap) (rows : List Value) :
    Extends client t (client.teamRepositoryRows org slug organization team t found rows).2 ∧
      (Sound t.state → (client.teamRepositoryRows org slug organization team t found
        rows).2.state.snapshot.complete = true → ∀ row ∈ rows,
          (client.teamRepositoryRows org slug organization team t found rows).2.state.HoldsRow
            (.teamRepositories team) row) := by
  induction rows generalizing t found with
  | nil => exact ⟨.refl t, fun _ _ _ h => by cases h⟩
  | cons repo rows ih =>
    obtain ⟨grows, taken⟩ := grows_repository t.state repo
    unfold Client.teamRepositoryRows
    cases repository : t.state.repository repo with
    | mk result c₁ =>
      rw [repository] at grows taken
      dsimp only at grows taken ⊢
      cases result with
      | none =>
        obtain ⟨rest, others⟩ := ih { t with state := c₁ } found
        refine ⟨rest.after grows rfl, fun s all => ?_⟩
        obtain ⟨id, owner, name, -, accepted, -⟩ := taken s (rest.grows.complete all)
        cases accepted
      | some found' =>
        obtain ⟨resource, owner, name⟩ := found'
        dsimp only
        have adopted := grows_adopt c₁ org organization resource owner
        have asked := extends_permissions client org slug owner name repo
          { t with state := c₁.adopt org organization resource owner }
        generalize client.permissions org slug owner name repo _ = answer at asked
        obtain ⟨permissions, t₁⟩ := answer
        dsimp only at asked ⊢
        obtain ⟨granted, claim⟩ := grows_grant t₁.state (.group team) resource
          ((permissions.map repositoryRole).getD "unknown")
          (privilege ((permissions.map repositoryRole).getD "unknown"))
          "github.team_repository_effective"
        generalize (permissions.map repositoryRole).getD "unknown" = role at granted claim
        obtain ⟨rest, others⟩ := ih
          { t₁ with
            state := t₁.state.grant (.group team) resource role (privilege role)
              "github.team_repository_effective" }
          (found.insert resource (owner, name))
        have before : Extends client t t₁ := asked.after (grows.trans adopted) rfl
        have after : Extends client t₁ _ := rest.after granted rfl
        refine ⟨before.trans after, fun s all row mem => ?_⟩
        have s₁ := before.grows.sound s
        rcases List.mem_cons.mp mem with rfl | mem
        · have unbroken := rest.grows.complete all
          obtain ⟨id, _, _, hid, accepted, held⟩ := taken s
            (adopted.complete (asked.grows.complete (granted.complete unbroken)))
          cases accepted
          refine ⟨id, hid, ?_⟩
          rw [(before.trans after).grows.provider]
          simp only [Purpose.facts, List.forall_mem_cons, List.not_mem_nil, false_imp_iff,
            implies_true, and_true]
          refine ⟨((adopted.trans asked.grows).trans after.grows).holds all _ held, ?_⟩
          obtain ⟨g, known, -⟩ := rest.grows.holds all _ (claim s₁ unbroken)
          exact ⟨g, known, fun r hr => by cases hr⟩
        · exact others (granted.sound s₁) all row mem

theorem extends_team (org slug : String) (organization team : EntityKey) (found : RepositoryMap)
    (t : Traversal) : Extends client t (client.team org slug organization team found t).2 := by
  unfold Client.team
  refine (extends_rows (Collection.teamMember team) t (.teamMembers team)
    "team members" ["orgs", org, "teams", slug, "members"] [("role", "all")]
    (grows_teamMember team)).trans ?_
  obtain ⟨rest, taken⟩ := extends_teamRepositoryRows client org slug organization team _ found _
  exact .issue rest taken

theorem extends_teamRows (org : String) (organization : EntityKey) (t : Traversal)
    (found : RepositoryMap) (rows : List Value) :
    Extends client t (client.teamRows org organization t found rows).2 ∧ (Sound t.state →
      (client.teamRows org organization t found rows).2.state.snapshot.complete = true →
        ∀ row ∈ rows, (client.teamRows org organization t found rows).2.state.HoldsRow
          .teams row) := by
  induction rows generalizing t found with
  | nil => exact ⟨.refl t, fun _ _ _ h => by cases h⟩
  | cons row rows ih =>
    obtain ⟨grows, taken⟩ := grows_team t.state row org
    have said {t' : Traversal} (rest : Grows (t.state.team row org).2 t'.state) (s : Sound t.state)
        (all : t'.state.snapshot.complete = true) : t'.state.HoldsRow .teams row := by
      obtain ⟨id, hid, held⟩ := taken s (rest.complete all)
      refine ⟨id, hid, ?_⟩
      rw [(grows.trans rest).provider]
      simp only [Purpose.facts, List.forall_mem_cons, List.not_mem_nil, false_imp_iff,
        implies_true, and_true]
      exact rest.holds all _ held
    unfold Client.teamRows
    cases team : t.state.team row org with
    | mk result c₁ =>
      rw [team] at grows said
      dsimp only at grows said ⊢
      cases result with
      | none =>
        obtain ⟨rest, others⟩ := ih { t with state := c₁ } found
        refine ⟨rest.after grows rfl, fun s all row' mem => ?_⟩
        rcases List.mem_cons.mp mem with rfl | mem
        · exact said rest.grows s all
        · exact others (grows.sound s) all row' mem
      | some found' =>
        obtain ⟨key, slug⟩ := found'
        dsimp only
        have walked := extends_team client org slug organization key found { t with state := c₁ }
        obtain ⟨rest, others⟩ := ih
          (client.team org slug organization key found { t with state := c₁ }).2
          (client.team org slug organization key found { t with state := c₁ }).1
        refine ⟨(walked.trans rest).after grows rfl, fun s all row' mem => ?_⟩
        rcases List.mem_cons.mp mem with rfl | mem
        · exact said (walked.grows.trans rest.grows) s all
        · exact others (walked.grows.sound (grows.sound s)) all row' mem

theorem extends_teams (org : String) (organization : EntityKey) (found : RepositoryMap)
    (t : Traversal) : Extends client t (client.teams org organization found t).2 := by
  obtain ⟨rest, taken⟩ := extends_teamRows client org organization
    (client.issue t .teams "teams" ["orgs", org, "teams"] []).2 found
    (client.issue t .teams "teams" ["orgs", org, "teams"] []).1
  exact .issue rest taken

theorem extends_collaborators (t : Traversal) (found : List (EntityKey × String × String)) :
    Extends client t (client.collaborators t found) := by
  induction found generalizing t with
  | nil => exact .refl t
  | cons entry found ih =>
    obtain ⟨resource, owner, name⟩ := entry
    unfold Client.collaborators
    split
    · exact .of_grows (grows_fail ..) rfl
    · exact (extends_rows _ t _ _ _ _ (grows_collaborator resource)).trans (ih _)

theorem extends_organization (org : String) (t : Traversal) :
    Extends client t (client.organization org t) := by
  unfold Client.organization
  split
  · exact .of_grows (grows_fail ..) rfl
  case h_2 organization wire _ =>
    dsimp only
    split
    · exact .of_grows (grows_fail ..) rfl
    case h_2 id _ =>
      have entered : Extends client t { t with
          wire := wire
          state := t.state.organization (t.state.key "organization" id) org } :=
        .of_grows (grows_organization ..) rfl
      exact ((((entered.trans (extends_members ..)).trans (extends_members ..)).trans
        (extends_repositories ..)).trans (extends_teams ..)).trans (extends_collaborators ..)

theorem extends_traverse (t : Traversal) (organizations : List String) :
    Extends client t (client.traverse t organizations) := by
  induction organizations generalizing t with
  | nil => exact .refl t
  | cons org organizations ih =>
    unfold Client.traverse
    split
    · exact .of_grows (grows_fail ..) rfl
    · exact (extends_organization client org t).trans (ih _)

/-! ## The snapshot -/

theorem sound_new (id observedAt : String) : Sound (Collection.new id observedAt) where
  keyed := ⟨keyedBy_empty _, keyedBy_empty _, keyedBy_empty _, keyedBy_empty _, keyedBy_empty _,
    fun _ h => absurd h Std.ExtTreeMap.not_mem_empty⟩
  clean := fun _ => ⟨fun _ => Std.ExtTreeSet.not_mem_empty, fun _ => Std.ExtTreeSet.not_mem_empty,
    fun _ => Std.ExtTreeSet.not_mem_empty, fun _ => Std.ExtTreeSet.not_mem_empty⟩

/-- What a collection holds is in its snapshot, when nothing is blocked. -/
theorem shows_of_holds (core : Core) {c : Collection} (s : Sound c)
    (all : c.snapshot.complete = true) {fact : Fact} (held : c.Holds fact) :
    Shows (core.sort c.graph) fact := by
  have clean := s.clean all
  have valid : ∀ subject, c.validSubject subject = true := by
    intro subject
    cases subject with
    | account key => simpa [Collection.validSubject] using clean.accounts key
    | group key => simpa [Collection.validSubject] using clean.groups key
  cases fact with
  | account key =>
    exact (exists_mem_sorted (core.accounts_perm _) s.keyed.accounts key).mpr
      (Std.ExtTreeMap.mem_iff_isSome_getElem?.mp held)
  | resource key =>
    exact (exists_mem_sorted (core.resources_perm _) s.keyed.resources key).mpr
      (Std.ExtTreeMap.mem_iff_isSome_getElem?.mp held)
  | group key =>
    exact (exists_mem_sorted (core.groups_perm _) s.keyed.groups key).mpr
      (Std.ExtTreeMap.mem_iff_isSome_getElem?.mp held)
  | membership key =>
    obtain ⟨m, known⟩ := Option.isSome_iff_exists.mp (Std.ExtTreeMap.mem_iff_isSome_getElem?.mp held)
    refine ⟨m, (core.memberships_perm _).mem_iff.mpr ?_, s.keyed.memberships key m known⟩
    show m ∈ values _
    rw [← values_filter, List.mem_filter, mem_values]
    exact ⟨⟨key, known⟩, by simpa [valid] using clean.groups m.group⟩
  | grant key role =>
    obtain ⟨g, known, hrole⟩ := held
    refine ⟨g, (core.grants_perm _).mem_iff.mpr ?_, s.keyed.grants key g known, hrole⟩
    show g ∈ values _
    rw [← values_filter, List.mem_filter, mem_values]
    exact ⟨⟨key, known⟩, by simpa [valid] using clean.resources g.resource⟩

/-- A row is in a graph. -/
def Represented (s : Snapshot) (purpose : Purpose) (row : Value) : Prop :=
  ∃ id, nativeId row = some id ∧ ∀ fact ∈ purpose.facts s.provider row id, Shows s fact

/-- What a complete snapshot promises: every list that was issued reached its last page, and every
row that was fetched is in the graph. -/
def Complete (core : Core) (observedAt : String) : Prop :=
  ∀ snapshot, client.collect core observedAt = .ok snapshot → snapshot.complete = true →
    ∀ issue ∈ (client.traversal observedAt).issued,
      (∃ init last, fetchedPages client issue.segments issue.filters issue.wire = init ++ [last] ∧
        Final last) ∧
      ∀ page ∈ fetchedPages client issue.segments issue.filters issue.wire,
        ∀ row ∈ page.value.asArray.getD [], Represented snapshot issue.purpose row

/-- The lists of a complete snapshot are covered. -/
theorem collect_covered {core : Core} {observedAt : String} {snapshot : Snapshot}
    (ok : client.collect core observedAt = .ok snapshot) (all : snapshot.complete = true) :
    ∀ issue ∈ (client.traversal observedAt).issued,
      (client.list issue.segments issue.filters issue.wire).1.error = none ∧
      ∀ row ∈ (client.list issue.segments issue.filters issue.wire).1.items,
        Represented snapshot issue.purpose row := by
  intro issue mem
  obtain ⟨grows, new, issued, covered⟩ := extends_traverse client
    ⟨.new client.id observedAt, ⟨⟨0, 0⟩, [], []⟩, []⟩ client.organizations
  change Grows _ (client.traversal observedAt).state at grows
  change (client.traversal observedAt).issued = [] ++ new at issued
  have s := grows.sound (sound_new client.id observedAt)
  unfold Client.collect Collection.finish at ok
  split at ok
  · cases ok
  dsimp only at ok
  split at ok
  · cases ok
  cases ok
  have quiet : (client.traversal observedAt).state.snapshot.complete = true := all
  rw [issued, List.nil_append] at mem
  obtain ⟨ended, held⟩ := covered (sound_new client.id observedAt) quiet issue mem
  refine ⟨ended, fun row hr => ?_⟩
  obtain ⟨id, hid, facts⟩ := held row hr
  exact ⟨id, hid, fun fact hf => shows_of_holds core s quiet (facts fact hf)⟩

/-- **When lists and snapshots are complete**: a list is orderly exactly when its further link
headers list nothing, and in a run in which this holds of every list, a complete snapshot keeps its
promise. -/
theorem lists_complete :
    (∀ segments filters w,
      Orderly client segments filters w ↔ Unread client segments filters w) ∧
    ∀ core observedAt, (∀ issue ∈ (client.traversal observedAt).issued,
      Unread client issue.segments issue.filters issue.wire) → Complete client core observedAt := by
  refine ⟨orderly_iff_unread client, fun core observedAt unread snapshot ok all issue mem => ?_⟩
  obtain ⟨quiet, represented⟩ := collect_covered client ok all issue mem
  have orderly := (orderly_iff_unread client _ _ _).mpr (unread issue mem)
  exact ⟨orderly.final quiet, fun page hp row hr => represented row (list_rows quiet page hp row hr)⟩

/-! ## A second link header -/

/-- A server with one organization and one member, whose page has these headers. -/
def sampleClient (headers : HeaderMap) : Client where
  id := "github"
  organizations := ["acme"]
  origin := ⟨"https://api.github.com/", some ("https", "api.github.com", 443), "", none, "/", [],
    none⟩
  crate := {
    parse := fun _ => none
    join := fun _ _ => none
    withSegments := fun base segments =>
      some { base with path := "/" ++ "/".intercalate segments }
    extendPairs := fun url pairs => { url with pairs := url.pairs ++ pairs } }
  net := {
    server := fun request =>
      if request = 1 then .answered ⟨200, [], none, [HeaderValue.ofString "\x7b\"id\":1\x7d"], false⟩
      else if request = 2 then .answered ⟨200, headers, none,
        [HeaderValue.ofString "[\x7b\"id\":7,\"login\":\"alice\"\x7d]"], false⟩
      else .answered ⟨200, [], none, [HeaderValue.ofString "[]"], false⟩
    decode := fun bytes =>
      if bytes = HeaderValue.ofString "[]" then some (.array [])
      else if bytes = HeaderValue.ofString "\x7b\"id\":1\x7d" then
        some (.object [("id", .number (.posInt 1))])
      else some (.array [.object [("id", .number (.posInt 7)), ("login", .string "alice")]]) }
  clock := fun _ => 0
  rfc2822 := fun _ => none

/-- A link header without a next page. -/
def firstLink : String × HeaderValue :=
  ("link", HeaderValue.ofString "<https://api.github.com/orgs/acme/members?page=1>; rel=\"first\"")

/-- A link header with a next page. -/
def nextLink : String × HeaderValue :=
  ("link", HeaderValue.ofString
    "<https://api.github.com/orgs/acme/members?role=member&per_page=100&page=2>; rel=\"next\"")

/-- Nothing is left unread when there is one link header only. -/
theorem lists_complete_single :
    Orderly (sampleClient [firstLink]) ["orgs", "acme", "members"] [("role", "member")]
      ⟨⟨1, 0⟩, [], []⟩ ∧ Complete (sampleClient [firstLink]) Core.plain "2026-01-01T00:00:00Z" := by
  have single : ∀ segments filters w, ((fetchedPages (sampleClient [firstLink]) segments filters w).all
      fun page => (unread page.headers).isEmpty) = true →
        Unread (sampleClient [firstLink]) segments filters w := by
    intro segments filters w none init last pages _
    have empty : ∀ page ∈ init ++ [last], unread page.headers = [] := by
      intro page mem
      rw [← pages] at mem
      exact List.isEmpty_iff.mp (List.all_eq_true.mp none page mem)
    refine ⟨fun value mem => ?_, fun page hp value mem => ?_⟩
    · rw [empty last (List.mem_append_right _ (List.mem_singleton.mpr rfl))] at mem
      cases mem
    · rw [empty page (List.mem_append_left _ hp)] at mem
      cases mem
  constructor
  · exact ((lists_complete (sampleClient [firstLink])).1 _ _ _).mpr (single _ _ _ (by decide +kernel))
  · refine (lists_complete (sampleClient [firstLink])).2 _ _ fun issue mem => single _ _ _ ?_
    have all : ((sampleClient [firstLink]).traversal "2026-01-01T00:00:00Z").issued.all (fun issue =>
        (fetchedPages (sampleClient [firstLink]) issue.segments issue.filters issue.wire).all
          fun page => (unread page.headers).isEmpty) = true := by
      decide +kernel
    exact List.all_eq_true.mp all issue mem

theorem not_final {page : Page} (headers : page.headers = [firstLink, nextLink]) : ¬Final page := by
  intro final
  refine final.ends nextLink.2 (by rw [headers]; decide)
    "https://api.github.com/orgs/acme/members?role=member&per_page=100&page=2"
    ⟨"<https://api.github.com/orgs/acme/members?role=member&per_page=100&page=2>; rel=\"next\"",
      by decide +kernel, "next", by decide +kernel, by decide +kernel⟩

/-- A next page in the second link header is missed, and the snapshot claims to be complete. -/
theorem next_link_missed :
    ¬Orderly (sampleClient [firstLink, nextLink]) ["orgs", "acme", "members"] [("role", "member")]
      ⟨⟨1, 0⟩, [], []⟩ ∧
    ¬Complete (sampleClient [firstLink, nextLink]) Core.plain "2026-01-01T00:00:00Z" := by
  -- Both halves look at the same requests, so they are made once.
  obtain ⟨quiet, shown, ok, issued⟩ :
      ((sampleClient [firstLink, nextLink]).list ["orgs", "acme", "members"] [("role", "member")]
        ⟨⟨1, 0⟩, [], []⟩).1.error = none ∧
      (fetchedPages (sampleClient [firstLink, nextLink]) ["orgs", "acme", "members"]
        [("role", "member")] ⟨⟨1, 0⟩, [], []⟩).getLast?.map Page.headers =
          some [firstLink, nextLink] ∧
      ((sampleClient [firstLink, nextLink]).collect Core.plain
        "2026-01-01T00:00:00Z").toOption.any Snapshot.complete = true ∧
      ((sampleClient [firstLink, nextLink]).traversal
        "2026-01-01T00:00:00Z").issued.head?.map (fun issue =>
          (fetchedPages (sampleClient [firstLink, nextLink]) issue.segments issue.filters
            issue.wire).getLast?.map Page.headers) = some (some [firstLink, nextLink]) := by
    decide +kernel
  constructor
  · intro orderly
    obtain ⟨init, last, pages, final⟩ := orderly.final quiet
    rw [pages, List.getLast?_concat] at shown
    exact not_final (Option.some.inj shown) final
  · intro complete
    obtain ⟨issue, first, last_eq⟩ := Option.map_eq_some_iff.mp issued
    cases collected : (sampleClient [firstLink, nextLink]).collect Core.plain
        "2026-01-01T00:00:00Z" with
    | error e =>
      rw [collected] at ok
      cases ok
    | ok snapshot =>
      rw [collected] at ok
      obtain ⟨init, last, pages, final⟩ :=
        (complete snapshot collected ok issue (List.mem_of_head? first)).1
      rw [pages, List.getLast?_concat] at last_eq
      exact not_final (Option.some.inj last_eq) final

end Permesh.Github

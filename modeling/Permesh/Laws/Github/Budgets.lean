import Mathlib.Algebra.GroupWithZero.Nat
import Permesh.Laws.Github.Complete
import Permesh.Laws.Github.Steps
import Permesh.Laws.Github.Walk
import Permesh.Native.Session

/-!
# Laws.Github.Budgets — what a discovery costs

All requests and all rows of a traversal are counted against one budget. A row adds three records at
most, so what is collected is bounded by what was counted. A request that fails, a list that ends with
an error and a loop that a budget ends (`cut`) leave the snapshot incomplete.

A function pays for what it adds (`Pays`), and the rule of a traversal composes the payments. The cut
runs are followed through the same functions in the same order. Bytes are bounded per response only.
-/

namespace Permesh.Github

open Permesh.Json Permesh.Http Permesh.Lib

/-! ## Counting -/

/-- The budget counts every attempt of a request, and is never exceeded. -/
structure Metered (w : Wire) : Prop where
  counted : w.sent.length = w.budget.requests
  requests : w.budget.requests ≤ MAX_REQUESTS
  rows : w.budget.rows ≤ MAX_ROWS

section

variable (client : Client)

theorem metered_attempts (url : Url) (accept : String) (left attempt : Nat) {w : Wire}
    (h : Metered w) : Metered (client.attempts url accept left attempt w).2 := by
  induction left generalizing attempt w with
  | zero => exact h
  | succ left ih =>
    unfold Client.attempts
    split
    · exact h
    case isFalse within =>
      have sent : Metered (w.send url accept) := by
        refine ⟨?_, Nat.lt_of_not_le within, h.rows⟩
        show (w.sent ++ [(url, accept)]).length = w.budget.requests + 1
        rw [List.length_append, h.counted, List.length_singleton]
      dsimp only
      split
      · exact sent
      · exact sent
      · split
        · split
          · exact sent
          · exact ih (attempt + 1) ⟨sent.counted, sent.requests, sent.rows⟩
        · exact sent

theorem rows_get (url : Url) (w : Wire) :
    (client.get url w).2.budget.rows = w.budget.rows :=
  (attempts_sent client url _ 3 0 w).choose_spec.2.2

theorem rows_getMedia (url : Url) (accept : String) (w : Wire) :
    (client.getMedia url accept w).2.budget.rows = w.budget.rows :=
  (attempts_sent client url accept 3 0 w).choose_spec.2.2

theorem metered_object (segments : List String) {w : Wire} (h : Metered w) :
    Metered (client.object segments w).2 := by
  unfold Client.object
  split
  · exact h
  case h_2 url _ =>
    have sent : Metered (client.get url w).2 := metered_attempts client url _ 3 0 h
    split
    case h_1 failure w' got =>
      rw [got] at sent
      exact sent
    case h_2 headers value w' got =>
      rw [got] at sent
      split
      · exact sent
      · exact sent

theorem rows_object (segments : List String) (w : Wire) :
    (client.object segments w).2.budget.rows = w.budget.rows := by
  unfold Client.object
  split
  · rfl
  case h_2 url _ =>
    have rows := rows_get client url w
    split
    case h_1 failure w' got =>
      rw [got] at rows
      exact rows
    case h_2 headers value w' got =>
      rw [got] at rows
      split
      · exact rows
      · exact rows

/-- A run of a list: the budget counts the rows that it took. -/
structure Taken (w : Wire) (p : Progress) : Prop where
  metered : Metered p.wire
  rows : p.wire.budget.rows = w.budget.rows + p.items.length

variable {client}

theorem Taken.receive {w : Wire} {p : Progress} (h : Taken w p) (page : Nat) (fetched : Page) :
    Taken w (client.receive page p fetched).1 := by
  unfold Client.receive
  split
  case h_1 items _ =>
    dsimp only
    split
    · exact ⟨h.metered, h.rows⟩
    · have within := h.metered.rows
      have consumed : Taken w ⟨
          p.items ++ items.take (min items.length (MAX_ROWS - p.wire.budget.rows)), true,
          { p.wire with
            budget.rows := p.wire.budget.rows + min items.length (MAX_ROWS - p.wire.budget.rows) },
          p.pages⟩ := by
        refine ⟨⟨h.metered.counted, h.metered.requests, ?_⟩, ?_⟩
        · show p.wire.budget.rows + _ ≤ MAX_ROWS
          omega
        · show p.wire.budget.rows + _ = w.budget.rows + (p.items ++ _).length
          rw [List.length_append, List.length_take, h.rows]
          omega
      split
      · exact consumed
      · split
        · exact consumed
        · exact consumed
        · split <;> exact consumed
  case h_2 => exact h

theorem Taken.turn {w : Wire} {p : Progress} (h : Taken w p) (segments : List String)
    (filters : List (String × String)) (page : Nat) :
    Taken w (client.turn segments filters page p).1 := by
  unfold Client.turn
  split
  · exact h
  case h_2 url _ =>
    have sent : Metered (client.get url p.wire).2 := metered_attempts client url _ 3 0 h.metered
    have rows := rows_get client url p.wire
    split
    case h_1 failure wire got =>
      rw [got] at sent rows
      exact ⟨sent, rows.trans h.rows⟩
    case h_2 headers value wire got =>
      rw [got] at sent rows
      exact Taken.receive ⟨sent, rows.trans h.rows⟩ page _

theorem Taken.pages {w : Wire} {p : Progress} (h : Taken w p) (segments : List String)
    (filters : List (String × String)) (left page : Nat) :
    Taken w (client.pages segments filters left page p).1 := by
  induction left generalizing page p with
  | zero => exact h
  | succ left ih =>
    have turned : Taken w (client.turn segments filters page p).1 := h.turn segments filters page
    unfold Client.pages
    split
    case h_1 q failure turn =>
      rw [turn] at turned
      exact turned
    case h_2 q turn =>
      rw [turn] at turned
      exact turned
    case h_3 q turn =>
      rw [turn] at turned
      exact ih turned (page + 1)

theorem taken_list (client : Client) (segments : List String) (filters : List (String × String))
    {w : Wire} (h : Metered w) : Metered (client.list segments filters w).2 ∧
      (client.list segments filters w).2.budget.rows =
        w.budget.rows + (client.list segments filters w).1.items.length := by
  have start : Taken w ⟨[], false, w, []⟩ := ⟨h, rfl⟩
  have taken : Taken w (client.run segments filters w).1 := start.pages segments filters MAX_PAGES 1
  exact ⟨taken.metered, taken.rows⟩

end

/-! ## Records -/

/-- The records of a collection. -/
def Collection.records (c : Collection) : Nat :=
  c.snapshot.identities.length + c.accounts.size + c.resources.size + c.groups.size +
    c.memberships.size + c.grants.size

theorem records_account (c : Collection) (row : Value) :
    (c.account row).2.records ≤ c.records + 1 := by
  have step := account_step c row
  generalize c.account row = result at step ⊢
  cases step with
  | skipped => exact Nat.le_succ _
  | unread failure => exact Nat.le_succ c.records
  | blocked id failure =>
    have erased : (c.accounts.erase ⟨c.snapshot.provider, toString id⟩).size ≤ c.accounts.size :=
      Std.ExtTreeMap.size_erase_le
    simp only [Collection.records, Collection.fail, Collection.blockAccount]
    omega
  | taken id account types free =>
    have inserted : (c.accounts.insert ⟨c.snapshot.provider, toString id⟩ account).size ≤
        c.accounts.size + 1 := Std.ExtTreeMap.size_insert_le
    simp only [Collection.records]
    omega

theorem records_repository (c : Collection) (row : Value) :
    (c.repository row).2.records ≤ c.records + 1 := by
  have step := repository_step c row
  generalize c.repository row = result at step ⊢
  cases step with
  | skipped => exact Nat.le_succ _
  | unread failure => exact Nat.le_succ c.records
  | blocked id failure =>
    have erased : (c.resources.erase (c.key "repository" id)).size ≤ c.resources.size :=
      Std.ExtTreeMap.size_erase_le
    simp only [Collection.records, Collection.fail, Collection.blockResource]
    omega
  | taken id owner name resource free parent =>
    have inserted : (c.resources.insert (c.key "repository" id) resource).size ≤
        c.resources.size + 1 := Std.ExtTreeMap.size_insert_le
    simp only [Collection.records]
    omega

theorem records_team (c : Collection) (row : Value) (org : String) :
    (c.team row org).2.records ≤ c.records + 1 := by
  have step := team_step c row org
  generalize c.team row org = result at step ⊢
  cases step with
  | skipped => exact Nat.le_succ _
  | unread failure => exact Nat.le_succ c.records
  | blocked id failure =>
    have erased : (c.groups.erase (c.key "team" id)).size ≤ c.groups.size :=
      Std.ExtTreeMap.size_erase_le
    simp only [Collection.records, Collection.fail, Collection.blockGroup]
    omega
  | taken id slug name teams free =>
    have inserted : (c.groups.insert (c.key "team" id) ⟨c.key "team" id, name⟩).size ≤
        c.groups.size + 1 := Std.ExtTreeMap.size_insert_le
    simp only [Collection.records]
    omega

theorem records_membership (c : Collection) (member : Subject) (group : EntityKey)
    (method : String) : (c.membership member group method).records ≤ c.records + 1 := by
  have step := membership_step c member group method
  generalize c.membership member group method = c' at step ⊢
  cases step with
  | known => exact Nat.le_succ _
  | taken =>
    have inserted : (c.memberships.insert ((member, group) : MembershipKey)
        ⟨member, group, c.provenance method⟩).size ≤ c.memberships.size + 1 :=
      Std.ExtTreeMap.size_insert_le
    simp only [Collection.records]
    omega

theorem records_grant (c : Collection) (subject : Subject) (resource : EntityKey) (role : String)
    (privilege : Privilege) (method : String) :
    (c.grant subject resource role privilege method).records ≤ c.records + 1 := by
  have step := grant_step c subject resource role privilege method
  generalize c.grant subject resource role privilege method = c' at step ⊢
  cases step with
  | known => exact Nat.le_succ _
  | blocked failure =>
    have erased : (c.grants.erase ((method, subject, resource) : GrantKey)).size ≤ c.grants.size :=
      Std.ExtTreeMap.size_erase_le
    simp only [Collection.records, Collection.fail]
    omega
  | taken =>
    have inserted : (c.grants.insert ((method, subject, resource) : GrantKey)
        (c.grantOf subject resource role privilege method)).size ≤ c.grants.size + 1 :=
      Std.ExtTreeMap.size_insert_le
    simp only [Collection.records]
    omega

/-- The resource that is adopted was there. -/
theorem records_adopt (c : Collection) (org : String) (organization resource : EntityKey)
    (owner : String) : (c.adopt org organization resource owner).records = c.records := by
  have step := adopt_step c org organization resource owner
  generalize c.adopt org organization resource owner = c' at step ⊢
  cases step with
  | foreign => rfl
  | adopted old known =>
    have replaced : (c.resources.insert resource { old with parent := some organization }).size =
        c.resources.size := by
      rw [Std.ExtTreeMap.size_insert, if_pos]
      exact Std.ExtTreeMap.mem_iff_isSome_getElem?.mpr (by rw [known]; rfl)
    simp only [Collection.records, replaced]

theorem records_organization (c : Collection) (key : EntityKey) (org : String) :
    (c.organization key org).records ≤ c.records + 2 := by
  have resource : (c.resources.insert key ⟨key, org, some "github.organization", none⟩).size ≤
      c.resources.size + 1 := Std.ExtTreeMap.size_insert_le
  have group : (c.groups.insert key ⟨key, org⟩).size ≤ c.groups.size + 1 :=
    Std.ExtTreeMap.size_insert_le
  simp only [Collection.records, Collection.organization]
  omega

theorem records_forAccount {c : Collection} {user : Value} {n : Nat}
    {claims : EntityKey → Collection → Collection}
    (each : ∀ k c', (claims k c').records ≤ c'.records + n) :
    (c.forAccount user claims).records ≤ c.records + (n + 1) := by
  have first := records_account c user
  unfold Collection.forAccount
  cases account : c.account user with
  | mk result c' =>
    rw [account] at first
    cases result with
    | none =>
      dsimp only at first ⊢
      omega
    | some k =>
      have rest := each k c'
      dsimp only at first ⊢
      omega

/-! ## The traversal -/

/-- The rows that lists took. -/
def rowsTaken (client : Client) (issued : List Issue) : Nat :=
  (issued.map fun issue => (client.list issue.segments issue.filters issue.wire).1.items.length).sum

structure Fair (client : Client) (t : Traversal) : Prop where
  metered : Metered t.wire
  rows : t.wire.budget.rows = rowsTaken client t.issued

/-- A part of a traversal whose rows pay for three records each. -/
def Pays (client : Client) (n : Nat) (t t' : Traversal) : Prop :=
  Fair client t → Fair client t' ∧
    t'.state.records + 3 * t.wire.budget.rows ≤ t.state.records + 3 * t'.wire.budget.rows + n

theorem pays_state (client : Client) {n : Nat} (t : Traversal) {c : Collection}
    (h : c.records ≤ t.state.records + n) : Pays client n t { t with state := c } := by
  intro fair
  refine ⟨⟨fair.metered, fair.rows⟩, ?_⟩
  show c.records + 3 * t.wire.budget.rows ≤ t.state.records + 3 * t.wire.budget.rows + n
  omega

theorem records_accept (c : Collection) (endpoint : String) (list : Listing) :
    (c.accept endpoint list).2.records = c.records ∧ (c.accept endpoint list).1 = list.items := by
  unfold Collection.accept
  dsimp only
  split
  · exact ⟨rfl, rfl⟩
  · exact ⟨rfl, rfl⟩

/-- A list counts its rows. -/
theorem fair_issue {client : Client} {t : Traversal} (fair : Fair client t) (purpose : Purpose)
    (endpoint : String) (segments : List String) (filters : List (String × String)) :
    Fair client (client.issue t purpose endpoint segments filters).2 ∧
      (client.issue t purpose endpoint segments filters).2.wire.budget.rows =
        t.wire.budget.rows + (client.issue t purpose endpoint segments filters).1.length ∧
      (client.issue t purpose endpoint segments filters).2.state.records = t.state.records := by
  obtain ⟨metered, rows⟩ := taken_list client segments filters fair.metered
  obtain ⟨records, items⟩ := records_accept t.state endpoint (client.list segments filters t.wire).1
  refine ⟨⟨metered, ?_⟩, ?_, records⟩
  · show (client.list segments filters t.wire).2.budget.rows = rowsTaken client (t.issued ++ _)
    rw [rows, fair.rows, rowsTaken, rowsTaken, List.map_append, List.sum_append]
    rfl
  · show (client.list segments filters t.wire).2.budget.rows =
      t.wire.budget.rows + (t.state.accept endpoint (client.list segments filters t.wire).1).1.length
    rw [items, rows]

/-- A request takes no rows. -/
theorem pays_request (client : Client) (t : Traversal) {w : Wire} (metered : Metered t.wire → Metered w)
    (rows : w.budget.rows = t.wire.budget.rows) : Pays client 0 t { t with wire := w } := by
  intro fair
  refine ⟨⟨metered fair.metered, rows.trans fair.rows⟩, ?_⟩
  show t.state.records + 3 * t.wire.budget.rows ≤ t.state.records + 3 * w.budget.rows + 0
  omega

theorem Pays.trans {client : Client} {n m : Nat} {t t' t'' : Traversal} (h : Pays client n t t')
    (h' : Pays client m t' t'') : Pays client (n + m) t t'' := by
  intro fair
  obtain ⟨fair', first⟩ := h fair
  obtain ⟨fair'', second⟩ := h' fair'
  exact ⟨fair'', by omega⟩

theorem Pays.le {client : Client} {n m : Nat} {t t' : Traversal} (le : n ≤ m)
    (h : Pays client n t t') : Pays client m t t' := by
  intro fair
  obtain ⟨fair', records⟩ := h fair
  exact ⟨fair', by omega⟩

theorem pays_fail (client : Client) (t : Traversal) (endpoint : String) (failure : ProviderError) :
    Pays client 0 t (t.fail endpoint failure) := pays_state client t (Nat.le_refl t.state.records)

theorem pays_permissions (client : Client) (t : Traversal) (org slug owner name : String)
    (repo : Value) : Pays client 0 t (client.permissions org slug owner name repo t).2 := by
  unfold Client.permissions
  split
  · exact pays_fail client t _ _
  case h_2 url _ =>
    have rows := rows_getMedia client url "application/vnd.github.v3.repository+json" t.wire
    have metered (h : Metered t.wire) := metered_attempts client url
      "application/vnd.github.v3.repository+json" 3 0 h
    split
    case h_1 headers value w got =>
      rw [Client.getMedia] at got rows
      rw [got] at rows metered
      have asked := pays_request client t metered rows
      dsimp only
      split
      · exact asked
      · exact asked.trans (pays_fail client _ _ _)
    case h_2 failure w got =>
      rw [Client.getMedia] at got rows
      rw [got] at rows metered
      exact (pays_request client t metered rows).trans (pays_fail client _ _ _)

/-- Every step of a traversal pays for its records. -/
theorem pays_walk (client : Client) : Walk client (Pays client) (fun _ _ => True) (fun _ _ => True)
    (fun _ _ => True) where
  refl t := pays_state client t (Nat.le_refl _)
  trans h h' := h.trans h'
  le le h := h.le le
  organizationStays _ _ := trivial
  teamStays _ _ := trivial
  repositoryStays _ _ := trivial
  fail t endpoint failure := pays_fail client t endpoint failure
  object t org := pays_request client t (fun h => metered_object client _ h)
    (rows_object client ..)
  permissions t org slug owner name repo := pays_permissions client t org slug owner name repo
  issue _ h := by
    intro fair
    obtain ⟨listed, rows, records⟩ := fair_issue fair _ _ _ _
    obtain ⟨fair', paid⟩ := h listed
    refine ⟨fair', ?_⟩
    omega
  enter t id org := ⟨pays_state client t (records_organization ..), trivial⟩
  memberRow {t _} role user _ := pays_state client t (records_forAccount (n := 2) fun k c' =>
    Nat.le_trans (records_grant ..) (Nat.succ_le_succ (records_membership ..)))
  repositoryRow t repo := ⟨pays_state client t (records_repository ..), fun _ _ => trivial⟩
  adopt {t _} org resource owner _ := pays_state client t (Nat.le_of_eq (records_adopt ..))
  teamRow t row org := ⟨pays_state client t (records_team ..), fun _ _ => trivial⟩
  teamMemberRow {t _} user _ := pays_state client t
    (records_forAccount fun k c' => records_membership ..)
  teamRepositoryRow {t _ _} role _ _ := pays_state client t (records_grant ..)
  collaboratorRow {t _} user _ := pays_state client t
    (records_forAccount fun k c' => records_grant ..)

/-- **What a traversal costs**: what is sent and what is taken stays within the budget, and pays for
what is collected. -/
theorem traversal_pays (client : Client) (observedAt : String) :
    Fair client (client.traversal observedAt) ∧
      (client.traversal observedAt).state.records ≤
        3 * (client.traversal observedAt).wire.budget.rows + 2 * client.organizations.length := by
  have start : Fair client ⟨.new client.id observedAt, ⟨⟨0, 0⟩, [], []⟩, []⟩ :=
    ⟨⟨rfl, Nat.zero_le _, Nat.zero_le _⟩, rfl⟩
  obtain ⟨fair, paid⟩ := (pays_walk client).traverse _ client.organizations start
  refine ⟨fair, ?_⟩
  have none : (Collection.new client.id observedAt).records = 0 := rfl
  dsimp only at paid
  rw [none] at paid
  show (client.traverse _ client.organizations).state.records ≤
    3 * (client.traverse _ client.organizations).wire.budget.rows + _
  omega

/-- Sorting keeps the number of records. -/
theorem count_sort (core : Core) (s : Snapshot) :
    Native.Snapshot.count (core.sort s) = Native.Snapshot.count s := by
  have identities := (core.identities_perm s.identities).length_eq
  have accounts := (core.accounts_perm s.accounts).length_eq
  have resources := (core.resources_perm s.resources).length_eq
  have groups := (core.groups_perm s.groups).length_eq
  have memberships := (core.memberships_perm s.memberships).length_eq
  have grants := (core.grants_perm s.grants).length_eq
  simp only [Native.Snapshot.count, Core.sort, identities, accounts, resources, groups,
    memberships, grants]

/-- The graph has no more records than the collection. -/
theorem count_graph (c : Collection) : Native.Snapshot.count c.graph ≤ c.records := by
  have memberships : c.graph.memberships.length ≤ c.memberships.size := by
    show (values _).length ≤ _
    rw [values, List.length_map, Std.ExtTreeMap.length_toList]
    exact Std.ExtTreeMap.size_filter_le_size
  have grants : c.graph.grants.length ≤ c.grants.size := by
    show (values _).length ≤ _
    rw [values, List.length_map, Std.ExtTreeMap.length_toList]
    exact Std.ExtTreeMap.size_filter_le_size
  have length {α : Type} (m : Std.ExtTreeMap EntityKey α) : (values m).length = m.size := by
    rw [values, List.length_map, Std.ExtTreeMap.length_toList]
  have accounts : c.graph.accounts.length = _ := length c.accounts
  have resources : c.graph.resources.length = _ := length c.resources
  have groups : c.graph.groups.length = _ := length c.groups
  have identities : c.graph.identities = c.snapshot.identities := rfl
  simp only [Native.Snapshot.count, Collection.records, identities, accounts, resources, groups]
  omega

/-! ## Where a traversal is cut short -/

namespace Client

variable (client : Client)

/-- The list ends with an error. -/
def listCut (t : Traversal) (segments : List String) (filters : List (String × String)) : Bool :=
  (client.list segments filters t.wire).1.error.isSome

/-- The permissions of a repository are not given. -/
def teamRepositoryRowsCut (org slug : String) (organization team : EntityKey) :
    Traversal → RepositoryMap → List Value → Bool
  | _, _, [] => false
  | t, repositories, repo :: rest =>
    match t.state.repository repo with
    | (none, c) =>
      teamRepositoryRowsCut org slug organization team { t with state := c } repositories rest
    | (some (resource, owner, name), c) =>
      let (permissions, t) := client.permissions org slug owner name repo
        { t with state := c.adopt org organization resource owner }
      let role := (permissions.map repositoryRole).getD "unknown"
      permissions.isNone || teamRepositoryRowsCut org slug organization team
        { t with
          state := t.state.grant (.group team) resource role (privilege role)
            "github.team_repository_effective" }
        (repositories.insert resource (owner, name)) rest

/-- A list of the team is cut, or the permissions of one of its repositories are not given. -/
def teamCut (org slug : String) (organization team : EntityKey) (repositories : RepositoryMap)
    (t : Traversal) : Bool :=
  let (users, t₁) := client.issue t (.teamMembers team) "team members"
    ["orgs", org, "teams", slug, "members"] [("role", "all")]
  let t₁ := { t₁ with state := users.foldl (Collection.teamMember team) t₁.state }
  let (repos, t₂) := client.issue t₁ (.teamRepositories team) "team repositories"
    ["orgs", org, "teams", slug, "repos"] []
  client.listCut t ["orgs", org, "teams", slug, "members"] [("role", "all")] ||
    client.listCut t₁ ["orgs", org, "teams", slug, "repos"] [] ||
    client.teamRepositoryRowsCut org slug organization team t₂ repositories repos

def teamRowsCut (org : String) (organization : EntityKey) :
    Traversal → RepositoryMap → List Value → Bool
  | _, _, [] => false
  | t, repositories, row :: rest =>
    match t.state.team row org with
    | (none, c) => teamRowsCut org organization { t with state := c } repositories rest
    | (some (key, slug), c) =>
      let (repositories', t') := client.team org slug organization key repositories
        { t with state := c }
      client.teamCut org slug organization key repositories { t with state := c } ||
        teamRowsCut org organization t' repositories' rest

def teamsCut (org : String) (organization : EntityKey) (repositories : RepositoryMap)
    (t : Traversal) : Bool :=
  let (items, t') := client.issue t .teams "teams" ["orgs", org, "teams"] []
  client.listCut t ["orgs", org, "teams"] [] ||
    client.teamRowsCut org organization t' repositories items

/-- The budget is used up before the last repository, or the list of one of them is cut. -/
def collaboratorsCut : Traversal → List (EntityKey × String × String) → Bool
  | _, [] => false
  | t, (resource, owner, name) :: rest =>
    let (items, t') := client.issue t (.collaborators resource) "collaborators"
      ["repos", owner, name, "collaborators"] [("affiliation", "all")]
    t.spent || client.listCut t ["repos", owner, name, "collaborators"] [("affiliation", "all")] ||
      collaboratorsCut { t' with state := items.foldl (Collection.collaborator resource) t'.state } rest

/-- The organization is not given, or something of it is cut. -/
def organizationCut (org : String) (t : Traversal) : Bool :=
  match client.object ["orgs", org] t.wire with
  | (.error _, _) => true
  | (.ok organization, wire) =>
    match nativeId organization with
    | none => true
    | some id =>
      let t := { t with wire := wire }
      let key := t.state.key "organization" id
      let t := { t with state := t.state.organization key org }
      let t₁ := client.members org key "member" "member" t
      let t₂ := client.members org key "admin" "admin" t₁
      let (found, t₃) := client.repositories org key t₂
      let (found', t₄) := client.teams org key found t₃
      client.listCut t ["orgs", org, "members"] [("role", "member")] ||
        client.listCut t₁ ["orgs", org, "members"] [("role", "admin")] ||
        client.listCut t₂ ["orgs", org, "repos"] [] || client.teamsCut org key found t₃ ||
        client.collaboratorsCut t₄ found'.toList

/-- The budget is used up before the last organization, or something of one of them is cut. -/
def traverseCut : Traversal → List String → Bool
  | _, [] => false
  | t, org :: rest =>
    t.spent || client.organizationCut org t || traverseCut (client.organization org t) rest

/-- The traversal is cut short: by the budget, or by an error of a request. -/
def cut (observedAt : String) : Bool :=
  client.traverseCut ⟨.new client.id observedAt, ⟨⟨0, 0⟩, [], []⟩, []⟩ client.organizations

end Client

section

variable {client : Client}

/-- What is incomplete stays incomplete. -/
theorem Extends.incomplete {t t' : Traversal} (h : Extends client t t')
    (cut : t.state.snapshot.complete = false) : t'.state.snapshot.complete = false := by
  cases complete : t'.state.snapshot.complete with
  | false => rfl
  | true => exact absurd (h.grows.complete complete) (by rw [cut]; exact Bool.false_ne_true)

/-- The error of a list is recorded. -/
theorem listCut_incomplete {t : Traversal} {segments : List String}
    {filters : List (String × String)} (cut : client.listCut t segments filters = true)
    (purpose : Purpose) (endpoint : String) :
    (client.issue t purpose endpoint segments filters).2.state.snapshot.complete = false := by
  obtain ⟨failure, error⟩ := Option.isSome_iff_exists.mp cut
  show (t.state.accept endpoint (client.list segments filters t.wire).1).2.snapshot.complete = false
  unfold Collection.accept
  rw [error]
  rfl

/-- So a list that is cut makes incomplete what is built from its rows. -/
theorem listCut_rows {t : Traversal} {segments : List String} {filters : List (String × String)}
    (cut : client.listCut t segments filters = true) (purpose : Purpose) (endpoint : String)
    {c : Collection} (grows : Grows (client.issue t purpose endpoint segments filters).2.state c) :
    c.snapshot.complete = false := by
  cases complete : c.snapshot.complete with
  | false => rfl
  | true =>
    exact absurd (grows.complete complete) (by
      rw [listCut_incomplete cut]
      exact Bool.false_ne_true)

theorem permissions_incomplete (org slug owner name : String) (repo : Value) (t : Traversal)
    (cut : (client.permissions org slug owner name repo t).1.isNone = true) :
    (client.permissions org slug owner name repo t).2.state.snapshot.complete = false := by
  unfold Client.permissions at cut ⊢
  split
  · rfl
  case h_2 url ok =>
    simp only [ok] at cut
    split
    case h_1 headers value w got =>
      simp only [got] at cut
      dsimp only
      split
      case isTrue same =>
        rw [if_pos same] at cut
        cases cut
      case isFalse => rfl
    case h_2 => rfl

theorem teamRepositoryRowsCut_incomplete {org slug : String} {organization team : EntityKey}
    {t : Traversal} {found : RepositoryMap} {rows : List Value}
    (cut : client.teamRepositoryRowsCut org slug organization team t found rows = true) :
    (client.teamRepositoryRows org slug organization team t found rows).2.state.snapshot.complete =
      false := by
  induction rows generalizing t found with
  | nil => cases cut
  | cons repo rows ih =>
    unfold Client.teamRepositoryRowsCut at cut
    unfold Client.teamRepositoryRows
    cases repository : t.state.repository repo with
    | mk result c =>
      rw [repository] at cut
      cases result with
      | none => exact ih cut
      | some found' =>
        obtain ⟨resource, owner, name⟩ := found'
        dsimp only at cut ⊢
        have failed : (client.permissions org slug owner name repo
            { t with state := c.adopt org organization resource owner }).1.isNone = true → _ :=
          permissions_incomplete org slug owner name repo _
        generalize client.permissions org slug owner name repo _ = answer at cut failed ⊢
        obtain ⟨permissions, t₁⟩ := answer
        dsimp only at cut failed ⊢
        rcases Bool.or_eq_true_iff.mp cut with none | cut
        · have rest := (extends_teamRepositoryRows client org slug organization team
            { t₁ with
              state := t₁.state.grant (.group team) resource
                ((permissions.map repositoryRole).getD "unknown")
                (privilege ((permissions.map repositoryRole).getD "unknown"))
                "github.team_repository_effective" }
            (found.insert resource (owner, name)) rows).1
          have granted : Extends client t₁ _ := rest.after (grows_grant ..).1 rfl
          exact granted.incomplete (failed none)
        · exact ih cut

/-- Rows of a list that is cut are taken in, and the collection is incomplete. -/
theorem listCut_fold {step : Collection → Value → Collection} {t : Traversal} {purpose : Purpose}
    {segments : List String} {filters : List (String × String)}
    (grows : ∀ c row, Grows c (step c row) ∧ (Sound c → (step c row).snapshot.complete = true →
      (step c row).HoldsRow purpose row))
    (cut : client.listCut t segments filters = true) (endpoint : String) :
    ({ (client.issue t purpose endpoint segments filters).2 with
      state := (client.issue t purpose endpoint segments filters).1.foldl step
        (client.issue t purpose endpoint segments filters).2.state } :
          Traversal).state.snapshot.complete = false :=
  listCut_rows cut purpose endpoint (grows_rows grows _ _).1

theorem teamCut_incomplete {org slug : String} {organization team : EntityKey}
    {found : RepositoryMap} {t : Traversal}
    (cut : client.teamCut org slug organization team found t = true) :
    (client.team org slug organization team found t).2.state.snapshot.complete = false := by
  have members (cut : client.listCut t ["orgs", org, "teams", slug, "members"] [("role", "all")] =
      true) := listCut_fold (grows_teamMember team) cut "team members"
  unfold Client.teamCut at cut
  unfold Client.team
  dsimp only at cut ⊢
  generalize ({ (client.issue t (.teamMembers team) "team members" _ _).2 with
    state := _ } : Traversal) = t₁ at members cut ⊢
  obtain ⟨rest, taken⟩ := extends_teamRepositoryRows client org slug organization team
    (client.issue t₁ (.teamRepositories team) "team repositories"
      ["orgs", org, "teams", slug, "repos"] []).2 found
    (client.issue t₁ (.teamRepositories team) "team repositories"
      ["orgs", org, "teams", slug, "repos"] []).1
  rw [Bool.or_eq_true, Bool.or_eq_true] at cut
  rcases cut with (cut | cut) | cut
  · exact (Extends.issue rest taken).incomplete (members cut)
  · exact listCut_rows cut _ _ rest.grows
  · exact teamRepositoryRowsCut_incomplete cut

theorem teamRowsCut_incomplete {org : String} {organization : EntityKey} {t : Traversal}
    {found : RepositoryMap} {rows : List Value}
    (cut : client.teamRowsCut org organization t found rows = true) :
    (client.teamRows org organization t found rows).2.state.snapshot.complete = false := by
  induction rows generalizing t found with
  | nil => cases cut
  | cons row rows ih =>
    unfold Client.teamRowsCut at cut
    unfold Client.teamRows
    cases team : t.state.team row org with
    | mk result c =>
      rw [team] at cut
      cases result with
      | none => exact ih cut
      | some found' =>
        obtain ⟨key, slug⟩ := found'
        dsimp only at cut ⊢
        rcases Bool.or_eq_true_iff.mp cut with cut | cut
        · exact (extends_teamRows client org organization _ _ rows).1.incomplete
            (teamCut_incomplete cut)
        · exact ih cut

theorem teamsCut_incomplete {org : String} {organization : EntityKey} {found : RepositoryMap}
    {t : Traversal} (cut : client.teamsCut org organization found t = true) :
    (client.teams org organization found t).2.state.snapshot.complete = false := by
  unfold Client.teamsCut at cut
  unfold Client.teams
  dsimp only at cut ⊢
  rcases Bool.or_eq_true_iff.mp cut with cut | cut
  · exact listCut_rows cut _ _ (extends_teamRows client org organization _ found _).1.grows
  · exact teamRowsCut_incomplete cut

theorem collaboratorsCut_incomplete {t : Traversal} {found : List (EntityKey × String × String)}
    (cut : client.collaboratorsCut t found = true) :
    (client.collaborators t found).state.snapshot.complete = false := by
  induction found generalizing t with
  | nil => cases cut
  | cons entry found ih =>
    obtain ⟨resource, owner, name⟩ := entry
    unfold Client.collaboratorsCut at cut
    unfold Client.collaborators
    dsimp only at cut ⊢
    split
    · rfl
    case isFalse going =>
      rw [Bool.or_eq_true, Bool.or_eq_true] at cut
      rcases cut with (spent | cut) | cut
      · exact absurd spent going
      · exact (extends_collaborators client _ found).incomplete
          (listCut_fold (grows_collaborator resource) cut "collaborators")
      · exact ih cut

theorem members_incomplete {org filter : String} {organization : EntityKey} (role : String)
    {t : Traversal} (cut : client.listCut t ["orgs", org, "members"] [("role", filter)] = true) :
    (client.members org organization filter role t).state.snapshot.complete = false :=
  listCut_fold (grows_member organization role) cut "organization members"

theorem repositories_incomplete {org : String} {organization : EntityKey} {t : Traversal}
    (cut : client.listCut t ["orgs", org, "repos"] [] = true) :
    (client.repositories org organization t).2.state.snapshot.complete = false :=
  listCut_rows cut _ _ (grows_repositoryRows org organization _ ∅ _).1

theorem organizationCut_incomplete {org : String} {t : Traversal}
    (cut : client.organizationCut org t = true) :
    (client.organization org t).state.snapshot.complete = false := by
  unfold Client.organizationCut at cut
  unfold Client.organization
  split
  · rfl
  case h_2 organization wire object =>
    rw [object] at cut
    dsimp only at cut ⊢
    split
    · rfl
    case h_2 id identified =>
      rw [identified] at cut
      dsimp only at cut
      rw [Bool.or_eq_true, Bool.or_eq_true, Bool.or_eq_true, Bool.or_eq_true] at cut
      rcases cut with (((cut | cut) | cut) | cut) | cut
      · exact ((((extends_members ..).trans (extends_repositories ..)).trans
          (extends_teams ..)).trans (extends_collaborators ..)).incomplete
            (members_incomplete "member" cut)
      · exact (((extends_repositories ..).trans (extends_teams ..)).trans
          (extends_collaborators ..)).incomplete (members_incomplete "admin" cut)
      · exact ((extends_teams ..).trans (extends_collaborators ..)).incomplete
          (repositories_incomplete cut)
      · exact (extends_collaborators ..).incomplete (teamsCut_incomplete cut)
      · exact collaboratorsCut_incomplete cut

theorem traverseCut_incomplete {t : Traversal} {organizations : List String}
    (cut : client.traverseCut t organizations = true) :
    (client.traverse t organizations).state.snapshot.complete = false := by
  induction organizations generalizing t with
  | nil => cases cut
  | cons org organizations ih =>
    unfold Client.traverseCut at cut
    unfold Client.traverse
    split
    · rfl
    case isFalse going =>
      rw [Bool.or_eq_true, Bool.or_eq_true] at cut
      rcases cut with (spent | cut) | cut
      · exact absurd spent going
      · exact (extends_traverse client _ organizations).incomplete (organizationCut_incomplete cut)
      · exact ih cut

end

/-- **The budget of a discovery.** -/
theorem discovery_bounded (client : Client) (core : Core) (observedAt : String)
    (few : client.organizations.length ≤ 100) :
    (client.traversal observedAt).wire.sent.length ≤ MAX_REQUESTS ∧
      rowsTaken client (client.traversal observedAt).issued ≤ MAX_ROWS ∧
      ∀ snapshot, client.collect core observedAt = .ok snapshot →
        Native.Snapshot.count snapshot ≤
            4 * rowsTaken client (client.traversal observedAt).issued +
              2 * client.organizations.length ∧
          (∀ native : Core, Native.Snapshot.count (native.sort snapshot) ≤ 100000) ∧
          (client.cut observedAt = true → snapshot.complete = false) := by
  obtain ⟨fair, paid⟩ := traversal_pays client observedAt
  have rows := fair.metered.rows
  rw [fair.rows] at rows paid
  refine ⟨fair.metered.counted ▸ fair.metered.requests, rows, fun snapshot ok => ?_⟩
  unfold Client.collect Collection.finish at ok
  split at ok
  · cases ok
  · dsimp only at ok
    split at ok
    · cases ok
    · cases ok
      have count := count_graph (client.traversal observedAt).state
      rw [← count_sort core] at count
      refine ⟨by omega, fun native => ?_, fun cut => traverseCut_incomplete cut⟩
      rw [count_sort]
      unfold MAX_ROWS at rows
      omega

/-- A discovery of one organization. -/
theorem sample_bounded : (sampleClient []).organizations.length ≤ 100 ∧
    ((sampleClient []).traversal "2026-01-01T00:00:00Z").wire.sent.length ≤ MAX_REQUESTS :=
  ⟨by decide, (discovery_bounded (sampleClient []) Core.plain "2026-01-01T00:00:00Z" (by decide)).1⟩

end Permesh.Github

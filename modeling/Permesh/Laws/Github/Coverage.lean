import Permesh.Laws.Github.Growth
import Permesh.Laws.Github.Listing

/-!
# Laws.Github.Coverage — a complete graph

Every list of a traversal is accepted, and every row of it is taken in or recorded as a failure
(`Extends`). So a snapshot that is complete covers its lists: each ended without an error, and each
row is in the graph.

The relation is a preorder, and every function of a traversal is a step in it; so the functions are
composed by transitivity alone. A failure makes it hold at once, since it leaves the snapshot
incomplete.
-/

namespace Permesh.Github

open Permesh.Json Permesh.Http Permesh.Lib

/-! ## Rows -/

/-- A row whose account makes claims. -/
theorem grows_forAccount {claims : EntityKey → Collection → Collection} {purpose : Purpose}
    {row : Value} (grows : ∀ account c, Grows c (claims account c))
    (held : ∀ id c, Sound c →
      (claims ⟨c.snapshot.provider, toString id⟩ c).snapshot.complete = true →
      (claims ⟨c.snapshot.provider, toString id⟩ c).Holds
        (.account ⟨c.snapshot.provider, toString id⟩) →
      ∀ fact ∈ purpose.facts c.snapshot.provider row id,
        (claims ⟨c.snapshot.provider, toString id⟩ c).Holds fact) (c : Collection) :
    Grows c (c.forAccount row claims) ∧
      (Sound c → (c.forAccount row claims).snapshot.complete = true →
        (c.forAccount row claims).HoldsRow purpose row) := by
  obtain ⟨first, taken⟩ := grows_account c row
  unfold Collection.forAccount
  cases account : c.account row with
  | mk result c₁ =>
    rw [account] at first taken
    dsimp only at first taken ⊢
    cases result with
    | none =>
      refine ⟨first, fun s all => ?_⟩
      obtain ⟨id, -, accepted, -⟩ := taken s all
      cases accepted
    | some key =>
      have rest := grows key c₁
      refine ⟨first.trans rest, fun s all => ?_⟩
      obtain ⟨id, hid, accepted, there⟩ := taken s (rest.complete all)
      cases accepted
      rw [← first.provider] at rest all there ⊢
      refine ⟨id, hid, fun fact mem => held id c₁ (first.sound s) all (rest.holds all _ there) fact ?_⟩
      rwa [rest.provider] at mem

theorem grows_member (organization : EntityKey) (role : String) (c : Collection) (row : Value) :
    Grows c (c.member organization role row) ∧
      (Sound c → (c.member organization role row).snapshot.complete = true →
        (c.member organization role row).HoldsRow (.organizationMembers organization role) row) := by
  refine grows_forAccount (fun account c => ?_) (fun id c s all there => ?_) c
  · exact (grows_membership c (.account account) organization _).1.trans (grows_grant ..).1
  · obtain ⟨joined, member⟩ := grows_membership c (.account ⟨c.snapshot.provider, toString id⟩)
      organization "github.organization_members"
    obtain ⟨granted, claim⟩ := grows_grant
      (c.membership (.account ⟨c.snapshot.provider, toString id⟩) organization
        "github.organization_members") (.account ⟨c.snapshot.provider, toString id⟩) organization
      role (if role = "admin" then .owner else .standard) "github.organization_role"
    simp only [Purpose.facts, List.forall_mem_cons, List.not_mem_nil, false_imp_iff,
      implies_true, and_true]
    exact ⟨there, granted.holds all _ member, claim (joined.sound s) all⟩

theorem grows_teamMember (team : EntityKey) (c : Collection) (row : Value) :
    Grows c (c.teamMember team row) ∧
      (Sound c → (c.teamMember team row).snapshot.complete = true →
        (c.teamMember team row).HoldsRow (.teamMembers team) row) := by
  refine grows_forAccount (fun account c => (grows_membership ..).1) (fun id c _ _ there => ?_) c
  simp only [Purpose.facts, List.forall_mem_cons, List.not_mem_nil, false_imp_iff, implies_true,
    and_true]
  exact ⟨there, (grows_membership ..).2⟩

theorem grows_collaborator (resource : EntityKey) (c : Collection) (row : Value) :
    Grows c (c.collaborator resource row) ∧
      (Sound c → (c.collaborator resource row).snapshot.complete = true →
        (c.collaborator resource row).HoldsRow (.collaborators resource) row) := by
  refine grows_forAccount (fun account c => (grows_grant ..).1) (fun id c s all there => ?_) c
  simp only [Purpose.facts, List.forall_mem_cons, List.not_mem_nil, false_imp_iff, implies_true,
    and_true]
  exact ⟨there, (grows_grant ..).2 s all⟩

theorem grows_repositoryRows (org : String) (organization : EntityKey) (c : Collection)
    (found : RepositoryMap) (rows : List Value) :
    Grows c (Client.repositoryRows org organization c found rows).1 ∧
      (Sound c → (Client.repositoryRows org organization c found rows).1.snapshot.complete = true →
        ∀ row ∈ rows, (Client.repositoryRows org organization c found rows).1.HoldsRow
          .organizationRepositories row) := by
  induction rows generalizing c found with
  | nil => exact ⟨.refl c, fun _ _ _ h => by cases h⟩
  | cons repo rows ih =>
    obtain ⟨grows, taken⟩ := grows_repository c repo
    unfold Client.repositoryRows
    cases repository : c.repository repo with
    | mk result c₁ =>
      rw [repository] at grows taken
      dsimp only at grows taken ⊢
      cases result with
      | none =>
        obtain ⟨rest, others⟩ := ih c₁ found
        refine ⟨grows.trans rest, fun s all => ?_⟩
        obtain ⟨id, owner, name, -, accepted, -⟩ := taken s (rest.complete all)
        cases accepted
      | some found' =>
        obtain ⟨key, owner, name⟩ := found'
        dsimp only
        have adopted := grows_adopt c₁ org organization key owner
        obtain ⟨rest, others⟩ := ih (c₁.adopt org organization key owner)
          (found.insert key (owner, name))
        refine ⟨(grows.trans adopted).trans rest, fun s all row mem => ?_⟩
        rcases List.mem_cons.mp mem with rfl | mem
        · obtain ⟨id, _, _, hid, accepted, held⟩ := taken s (adopted.complete (rest.complete all))
          refine ⟨id, hid, ?_⟩
          rw [((grows.trans adopted).trans rest).provider]
          simp only [Purpose.facts, List.forall_mem_cons, List.not_mem_nil, false_imp_iff,
            implies_true, and_true]
          exact (adopted.trans rest).holds all _ held
        · exact others (adopted.sound (grows.sound s)) all row mem

/-! ## Lists -/

section

variable {client : Client}

/-- A list that ended without an error, with all its rows. -/
def Covered (client : Client) (c : Collection) (issue : Issue) : Prop :=
  (client.list issue.segments issue.filters issue.wire).1.error = none ∧
    ∀ row ∈ (client.list issue.segments issue.filters issue.wire).1.items,
      c.HoldsRow issue.purpose row

/-- A traversal goes on: the collection grows, and new lists are covered if it stays complete. -/
structure Extends (client : Client) (t t' : Traversal) : Prop where
  grows : Grows t.state t'.state
  issued : ∃ new, t'.issued = t.issued ++ new ∧
    (Sound t.state → t'.state.snapshot.complete = true → ∀ issue ∈ new,
      Covered client t'.state issue)

theorem Extends.of_grows {t t' : Traversal} (grows : Grows t.state t'.state)
    (same : t'.issued = t.issued) : Extends client t t' :=
  ⟨grows, [], by rw [same, List.append_nil], fun _ _ _ h => by cases h⟩

theorem Extends.refl (t : Traversal) : Extends client t t := .of_grows (.refl _) rfl

theorem Covered.mono {c c' : Collection} {issue : Issue} (h : Covered client c issue)
    (grows : Grows c c') (all : c'.snapshot.complete = true) : Covered client c' issue :=
  ⟨h.1, fun row mem => (h.2 row mem).mono grows all⟩

theorem Extends.trans {t t' t'' : Traversal} (h : Extends client t t')
    (h' : Extends client t' t'') : Extends client t t'' := by
  obtain ⟨new, issued, covered⟩ := h.issued
  obtain ⟨new', issued', covered'⟩ := h'.issued
  refine ⟨h.grows.trans h'.grows, new ++ new', ?_, fun s all issue mem => ?_⟩
  · rw [issued', issued, List.append_assoc]
  · rcases List.mem_append.mp mem with mem | mem
    · exact (covered s (h'.grows.complete all) issue mem).mono h'.grows all
    · exact covered' (h.grows.sound s) all issue mem

/-- A step of the collection before the traversal goes on. -/
theorem Extends.after {t t₁ t₂ : Traversal} (rest : Extends client t₁ t₂)
    (grows : Grows t.state t₁.state) (same : t₁.issued = t.issued) : Extends client t t₂ :=
  (Extends.of_grows grows same).trans rest

/-- **A list is covered once its rows are taken in.** -/
theorem Extends.issue {t t' : Traversal} {purpose : Purpose} {endpoint : String}
    {segments : List String} {filters : List (String × String)}
    (h : Extends client (client.issue t purpose endpoint segments filters).2 t')
    (rows : Sound (client.issue t purpose endpoint segments filters).2.state →
      t'.state.snapshot.complete = true →
      ∀ row ∈ (client.issue t purpose endpoint segments filters).1,
        t'.state.HoldsRow purpose row) : Extends client t t' := by
  obtain ⟨grows, items, quiet⟩ :=
    grows_accept t.state endpoint (client.list segments filters t.wire).1
  obtain ⟨new, issued, covered⟩ := h.issued
  refine ⟨Grows.trans grows h.grows, ⟨purpose, segments, filters, t.wire⟩ :: new, ?_,
    fun s all issue mem => ?_⟩
  · rw [issued, List.append_cons]
    rfl
  · rcases List.mem_cons.mp mem with rfl | mem
    · refine ⟨quiet (h.grows.complete all), fun row mem => rows (grows.sound s) all row ?_⟩
      rw [← items] at mem
      exact mem
    · exact covered (grows.sound s) all issue mem

/-- A list whose rows are taken in one after another. -/
theorem extends_rows (step : Collection → Value → Collection) (t : Traversal) (purpose : Purpose)
    (endpoint : String) (segments : List String) (filters : List (String × String))
    (grows : ∀ c row, Grows c (step c row) ∧ (Sound c → (step c row).snapshot.complete = true →
      (step c row).HoldsRow purpose row)) :
    Extends client t { (client.issue t purpose endpoint segments filters).2 with
      state := (client.issue t purpose endpoint segments filters).1.foldl step
        (client.issue t purpose endpoint segments filters).2.state } := by
  obtain ⟨all, taken⟩ := grows_rows grows (client.issue t purpose endpoint segments filters).2.state
    (client.issue t purpose endpoint segments filters).1
  exact .issue (.of_grows all rfl) taken

end

end Permesh.Github

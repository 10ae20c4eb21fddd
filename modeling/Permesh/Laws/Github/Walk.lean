import Permesh.Github.Discovery
import Permesh.Lib.Maps

/-!
# Laws.Github.Walk — the rule of a traversal

What every step of a traversal keeps, the traversal keeps. A step needs to know that its keys are in
order: the organization was entered, the team and the repositories were found. A row adds at most three
records, which are paid for when its list is taken in, and an organization adds two.

The functions of a traversal call one another in one order, which is followed here once. The relation is
a parameter; it has to be reflexive and transitive, and to hold of single rows.
-/

namespace Permesh.Github

open Permesh.Json Permesh.Http Permesh.Lib

/-- The lists of an organization: what the rows are about, the segments and the filters. -/
inductive Listed (org : String) : Purpose → List String → List (String × String) → Prop where
  | members (organization : EntityKey) {filter : String}
      (known : filter = "member" ∨ filter = "admin") (role : String) :
      Listed org (.organizationMembers organization role) ["orgs", org, "members"]
        [("role", filter)]
  | repositories : Listed org .organizationRepositories ["orgs", org, "repos"] []
  | teams : Listed org .teams ["orgs", org, "teams"] []
  | teamMembers (team : EntityKey) (slug : String) :
      Listed org (.teamMembers team) ["orgs", org, "teams", slug, "members"] [("role", "all")]
  | teamRepositories (team : EntityKey) (slug : String) :
      Listed org (.teamRepositories team) ["orgs", org, "teams", slug, "repos"] []
  | collaborators (repository : EntityKey) (owner name : String) :
      Listed org (.collaborators repository) ["repos", owner, name, "collaborators"]
        [("affiliation", "all")]

/-- A relation of traversals that every step keeps. The number is how many records may be added that
no row has paid for. -/
structure Walk (client : Client) (R : Nat → Traversal → Traversal → Prop)
    (Organization Team Repository : Traversal → EntityKey → Prop) : Prop where
  refl (t : Traversal) : R 0 t t
  trans {n m : Nat} {t t' t'' : Traversal} : R n t t' → R m t' t'' → R (n + m) t t''
  le {n m : Nat} {t t' : Traversal} : n ≤ m → R n t t' → R m t t'
  organizationStays {n : Nat} {t t' : Traversal} {k : EntityKey} :
    R n t t' → Organization t k → Organization t' k
  teamStays {n : Nat} {t t' : Traversal} {k : EntityKey} : R n t t' → Team t k → Team t' k
  repositoryStays {n : Nat} {t t' : Traversal} {k : EntityKey} :
    R n t t' → Repository t k → Repository t' k
  fail (t : Traversal) (endpoint : String) (failure : ProviderError) : R 0 t (t.fail endpoint failure)
  object (t : Traversal) (org : String) :
    R 0 t { t with wire := (client.object ["orgs", org] t.wire).2 }
  permissions (t : Traversal) (org slug owner name : String) (repo : Value) :
    R 0 t (client.permissions org slug owner name repo t).2
  issue {t t' : Traversal} {purpose : Purpose} {endpoint org : String} {segments : List String}
    {filters : List (String × String)} : Listed org purpose segments filters →
    R (3 * (client.issue t purpose endpoint segments filters).1.length)
      (client.issue t purpose endpoint segments filters).2 t' → R 0 t t'
  enter (t : Traversal) (id : Nat) (org : String) :
    R 2 t { t with state := t.state.organization (t.state.key "organization" id) org } ∧
      Organization { t with state := t.state.organization (t.state.key "organization" id) org }
        (t.state.key "organization" id)
  memberRow {t : Traversal} {organization : EntityKey} (role : String) (user : Value) :
    Organization t organization → R 3 t { t with state := t.state.member organization role user }
  repositoryRow (t : Traversal) (repo : Value) :
    R 1 t { t with state := (t.state.repository repo).2 } ∧
      ∀ found ∈ (t.state.repository repo).1,
        Repository { t with state := (t.state.repository repo).2 } found.1
  adopt {t : Traversal} {organization : EntityKey} (org : String) (resource : EntityKey)
    (owner : String) : Organization t organization →
      R 0 t { t with state := t.state.adopt org organization resource owner }
  teamRow (t : Traversal) (row : Value) (org : String) :
    R 1 t { t with state := (t.state.team row org).2 } ∧
      ∀ found ∈ (t.state.team row org).1,
        Team { t with state := (t.state.team row org).2 } found.1
  teamMemberRow {t : Traversal} {team : EntityKey} (user : Value) :
    Team t team → R 2 t { t with state := t.state.teamMember team user }
  teamRepositoryRow {t : Traversal} {team resource : EntityKey} (role : String) :
    Team t team → Repository t resource →
      R 1 t { t with
        state := t.state.grant (.group team) resource role (privilege role)
          "github.team_repository_effective" }
  collaboratorRow {t : Traversal} {resource : EntityKey} (user : Value) :
    Repository t resource → R 2 t { t with state := t.state.collaborator resource user }

namespace Walk

variable {client : Client} {R : Nat → Traversal → Traversal → Prop}
  {Organization Team Repository : Traversal → EntityKey → Prop}
  (walk : Walk client R Organization Team Repository)

include walk

/-- Rows that are taken in one after another, under a key that stays in order. -/
theorem rows {step : Collection → Value → Collection} {n : Nat} {Ready : Traversal → Prop}
    (stays : ∀ {n t t'}, R n t t' → Ready t → Ready t')
    (each : ∀ t row, Ready t → R n t { t with state := step t.state row }) {t : Traversal}
    (ready : Ready t) (items : List Value) :
    R (n * items.length) t { t with state := items.foldl step t.state } := by
  induction items generalizing t with
  | nil => exact walk.refl t
  | cons row items ih =>
    have first := each t row ready
    have rest := ih (stays first ready)
    refine walk.le ?_ (walk.trans first rest)
    rw [List.length_cons, Nat.mul_add_one, Nat.add_comm]

/-- A list whose rows are taken in one after another. -/
theorem list {step : Collection → Value → Collection} {n : Nat} {Ready : Traversal → Prop}
    (stays : ∀ {n t t'}, R n t t' → Ready t → Ready t')
    (each : ∀ t row, Ready t → R n t { t with state := step t.state row }) (le : n ≤ 3)
    {t : Traversal} {purpose : Purpose} {endpoint org : String} {segments : List String}
    {filters : List (String × String)} (listed : Listed org purpose segments filters)
    (ready : Ready (client.issue t purpose endpoint segments filters).2) :
    R 0 t { (client.issue t purpose endpoint segments filters).2 with
      state := (client.issue t purpose endpoint segments filters).1.foldl step
        (client.issue t purpose endpoint segments filters).2.state } :=
  walk.issue listed (walk.le (Nat.mul_le_mul_right _ le) (walk.rows stays each ready _))

/-- A key that is in order is so behind a list. -/
theorem issued {Ready : Traversal → Prop} (stays : ∀ {n t t'}, R n t t' → Ready t → Ready t')
    {t : Traversal} {purpose : Purpose} (endpoint : String) {org : String} {segments : List String}
    {filters : List (String × String)} (listed : Listed org purpose segments filters)
    (ready : Ready t) : Ready (client.issue t purpose endpoint segments filters).2 :=
  stays (walk.issue listed (walk.le (Nat.zero_le _) (walk.refl _))) ready

theorem members {t : Traversal} (org role : String) {filter : String} {organization : EntityKey}
    (known : filter = "member" ∨ filter = "admin") (entered : Organization t organization) :
    R 0 t (client.members org organization filter role t) := by
  have listed : Listed org _ _ _ := .members organization known role
  exact walk.list walk.organizationStays (fun t user ready => walk.memberRow role user ready)
    (Nat.le_refl 3) listed (walk.issued walk.organizationStays _ listed entered)

/-- The repositories found so far are in order. -/
abbrev Found (Repository : Traversal → EntityKey → Prop) (t : Traversal) (found : RepositoryMap) :
    Prop := ∀ k ∈ found, Repository t k

omit walk in
theorem Found.insert {t : Traversal} {found : RepositoryMap} (h : Found Repository t found)
    {key : EntityKey} (new : Repository t key) (names : String × String) :
    Found Repository t (found.insert key names) := by
  intro k mem
  rcases mem_insert_map.mp mem with rfl | mem
  · exact new
  · exact h k mem

theorem repositoryRows {t : Traversal} (org : String) {organization : EntityKey}
    (entered : Organization t organization) {found : RepositoryMap}
    (known : Found Repository t found) (rows : List Value) :
    R (1 * rows.length) t { t with
      state := (Client.repositoryRows org organization t.state found rows).1 } ∧
    Found Repository { t with
      state := (Client.repositoryRows org organization t.state found rows).1 }
        (Client.repositoryRows org organization t.state found rows).2 := by
  induction rows generalizing t found with
  | nil => exact ⟨walk.refl t, known⟩
  | cons repo rows ih =>
    obtain ⟨first, new⟩ := walk.repositoryRow t repo
    unfold Client.repositoryRows
    cases repository : t.state.repository repo with
    | mk result c =>
      rw [repository] at first new
      dsimp only at first new ⊢
      have known₁ : Found Repository { t with state := c } found :=
        fun k mem => walk.repositoryStays first (known k mem)
      cases result with
      | none =>
        obtain ⟨rest, later⟩ := ih (walk.organizationStays first entered) known₁
        refine ⟨walk.le ?_ (walk.trans first rest), later⟩
        simp only [List.length_cons]
        omega
      | some found' =>
        obtain ⟨key, owner, name⟩ := found'
        dsimp only
        have entered₁ := walk.organizationStays first entered
        have adopted := walk.adopt org key owner entered₁
        obtain ⟨rest, later⟩ := ih (walk.organizationStays adopted entered₁)
          (Found.insert (fun k mem => walk.repositoryStays adopted (known₁ k mem))
            (walk.repositoryStays adopted (new _ rfl)) (owner, name))
        refine ⟨walk.le ?_ (walk.trans (walk.trans first adopted) rest), later⟩
        simp only [List.length_cons]
        omega

theorem repositories {t : Traversal} (org : String) {organization : EntityKey}
    (entered : Organization t organization) :
    R 0 t (client.repositories org organization t).2 ∧
      Found Repository (client.repositories org organization t).2
        (client.repositories org organization t).1 := by
  have listed : Listed org _ _ _ := .repositories
  obtain ⟨rest, found⟩ := walk.repositoryRows org
    (walk.issued walk.organizationStays "organization repositories" listed entered)
    (fun k mem => absurd mem Std.ExtTreeMap.not_mem_empty)
    (client.issue t .organizationRepositories "organization repositories" ["orgs", org, "repos"]
      []).1
  exact ⟨walk.issue listed (walk.le (Nat.mul_le_mul_right _ (by decide)) rest), found⟩

theorem teamRepositoryRows {t : Traversal} (org slug : String) {organization team : EntityKey}
    (entered : Organization t organization) (member : Team t team) {found : RepositoryMap}
    (known : Found Repository t found) (rows : List Value) :
    R (2 * rows.length) t (client.teamRepositoryRows org slug organization team t found rows).2 ∧
      Found Repository (client.teamRepositoryRows org slug organization team t found rows).2
        (client.teamRepositoryRows org slug organization team t found rows).1 := by
  induction rows generalizing t found with
  | nil => exact ⟨walk.refl t, known⟩
  | cons repo rows ih =>
    obtain ⟨first, new⟩ := walk.repositoryRow t repo
    unfold Client.teamRepositoryRows
    cases repository : t.state.repository repo with
    | mk result c =>
      rw [repository] at first new
      dsimp only at first new ⊢
      have known₁ : Found Repository { t with state := c } found :=
        fun k mem => walk.repositoryStays first (known k mem)
      have entered₁ := walk.organizationStays first entered
      have member₁ := walk.teamStays first member
      cases result with
      | none =>
        obtain ⟨rest, later⟩ := ih entered₁ member₁ known₁
        refine ⟨walk.le ?_ (walk.trans first rest), later⟩
        simp only [List.length_cons]
        omega
      | some found' =>
        obtain ⟨resource, owner, name⟩ := found'
        dsimp only
        have adopted := walk.adopt org resource owner entered₁
        have asked := walk.permissions
          { t with state := c.adopt org organization resource owner } org slug owner name repo
        have before := walk.trans adopted asked
        generalize client.permissions org slug owner name repo _ = answer at before
        obtain ⟨permissions, t₁⟩ := answer
        dsimp only at before ⊢
        have there := walk.repositoryStays before (new _ rfl)
        generalize (permissions.map repositoryRole).getD "unknown" = role
        have granted := walk.teamRepositoryRow role (walk.teamStays before member₁) there
        have step := walk.trans before granted
        obtain ⟨rest, later⟩ := ih (walk.organizationStays step entered₁)
          (walk.teamStays step member₁)
          (Found.insert (fun k mem => walk.repositoryStays step (known₁ k mem))
            (walk.repositoryStays granted there) (owner, name))
        refine ⟨walk.le ?_ (walk.trans (walk.trans first step) rest), later⟩
        simp only [List.length_cons]
        omega

theorem team {t : Traversal} (org slug : String) {organization team : EntityKey}
    (entered : Organization t organization) (member : Team t team) {found : RepositoryMap}
    (known : Found Repository t found) :
    R 0 t (client.team org slug organization team found t).2 ∧
      Found Repository (client.team org slug organization team found t).2
        (client.team org slug organization team found t).1 := by
  have users : Listed org _ _ _ := .teamMembers team slug
  have repos : Listed org _ _ _ := .teamRepositories team slug
  have first := walk.list walk.teamStays (fun t user ready => walk.teamMemberRow user ready)
    (by decide) users (walk.issued walk.teamStays "team members" users member)
  unfold Client.team
  dsimp only
  generalize ({ (client.issue t (.teamMembers team) "team members" _ _).2 with
    state := _ } : Traversal) = t₁ at first ⊢
  have second (k : EntityKey) (there : Repository t k) :
      Repository (client.issue t₁ (.teamRepositories team) "team repositories"
        ["orgs", org, "teams", slug, "repos"] []).2 k :=
    walk.issued walk.repositoryStays _ repos (walk.repositoryStays first there)
  obtain ⟨rest, later⟩ := walk.teamRepositoryRows org slug
    (walk.issued walk.organizationStays _ repos (walk.organizationStays first entered))
    (walk.issued walk.teamStays _ repos (walk.teamStays first member))
    (fun k mem => second k (known k mem))
    (client.issue t₁ (.teamRepositories team) "team repositories"
      ["orgs", org, "teams", slug, "repos"] []).1
  exact ⟨walk.trans first (walk.issue repos (walk.le (Nat.mul_le_mul_right _ (by decide)) rest)),
    later⟩

theorem teamRows {t : Traversal} (org : String) {organization : EntityKey}
    (entered : Organization t organization) {found : RepositoryMap}
    (known : Found Repository t found) (rows : List Value) :
    R (1 * rows.length) t (client.teamRows org organization t found rows).2 ∧
      Found Repository (client.teamRows org organization t found rows).2
        (client.teamRows org organization t found rows).1 := by
  induction rows generalizing t found with
  | nil => exact ⟨walk.refl t, known⟩
  | cons row rows ih =>
    obtain ⟨first, new⟩ := walk.teamRow t row org
    unfold Client.teamRows
    cases team : t.state.team row org with
    | mk result c =>
      rw [team] at first new
      dsimp only at first new ⊢
      have known₁ : Found Repository { t with state := c } found :=
        fun k mem => walk.repositoryStays first (known k mem)
      have entered₁ := walk.organizationStays first entered
      cases result with
      | none =>
        obtain ⟨rest, later⟩ := ih entered₁ known₁
        refine ⟨walk.le ?_ (walk.trans first rest), later⟩
        simp only [List.length_cons]
        omega
      | some found' =>
        obtain ⟨key, slug⟩ := found'
        obtain ⟨visited, known₂⟩ := walk.team org slug entered₁ (new _ rfl) known₁
        obtain ⟨rest, later⟩ := ih (walk.organizationStays visited entered₁) known₂
        refine ⟨walk.le ?_ (walk.trans (walk.trans first visited) rest), later⟩
        simp only [List.length_cons]
        omega

theorem teams {t : Traversal} (org : String) {organization : EntityKey}
    (entered : Organization t organization) {found : RepositoryMap}
    (known : Found Repository t found) :
    R 0 t (client.teams org organization found t).2 ∧
      Found Repository (client.teams org organization found t).2
        (client.teams org organization found t).1 := by
  have listed : Listed org _ _ _ := .teams
  obtain ⟨rest, later⟩ := walk.teamRows org
    (walk.issued walk.organizationStays "teams" listed entered)
    (fun k mem => walk.issued walk.repositoryStays "teams" listed (known k mem))
    (client.issue t .teams "teams" ["orgs", org, "teams"] []).1
  exact ⟨walk.issue listed (walk.le (Nat.mul_le_mul_right _ (by decide)) rest), later⟩

theorem collaborators {t : Traversal} (org : String) {found : List (EntityKey × String × String)}
    (known : ∀ entry ∈ found, Repository t entry.1) : R 0 t (client.collaborators t found) := by
  induction found generalizing t with
  | nil => exact walk.refl t
  | cons entry found ih =>
    obtain ⟨resource, owner, name⟩ := entry
    obtain ⟨there, known⟩ := List.forall_mem_cons.mp known
    unfold Client.collaborators
    split
    · exact walk.fail ..
    · have listed : Listed org _ _ _ := .collaborators resource owner name
      have first := walk.list walk.repositoryStays
        (fun t user ready => walk.collaboratorRow user ready) (by decide) listed
        (walk.issued walk.repositoryStays "collaborators" listed there)
      exact walk.trans first (ih fun entry mem => walk.repositoryStays first (known entry mem))

theorem organization (org : String) (t : Traversal) : R 2 t (client.organization org t) := by
  have asked := walk.object t org
  unfold Client.organization
  split
  case h_1 failure wire object =>
    rw [object] at asked
    exact walk.le (by decide) (walk.trans asked (walk.fail ..))
  case h_2 organization wire object =>
    rw [object] at asked
    dsimp only at asked ⊢
    split
    · exact walk.le (by decide) (walk.trans asked (walk.fail ..))
    case h_2 id _ =>
      obtain ⟨first, entered⟩ := walk.enter { t with wire := wire } id org
      have members := walk.members org "member" (.inl rfl) entered
      have entered := walk.organizationStays members entered
      have admins := walk.members org "admin" (.inr rfl) entered
      have entered := walk.organizationStays admins entered
      obtain ⟨listed, known⟩ := walk.repositories org entered
      obtain ⟨teams, known⟩ := walk.teams org (walk.organizationStays listed entered) known
      have last := walk.collaborators org fun entry mem => known entry.1 (by
        rw [Std.ExtTreeMap.mem_iff_isSome_getElem?,
          Std.ExtTreeMap.mem_toList_iff_getElem?_eq_some.mp mem]
        rfl)
      exact walk.trans asked (walk.trans first (walk.trans members (walk.trans admins
        (walk.trans listed (walk.trans teams last)))))

/-- **The rule of a traversal.** -/
theorem traverse (t : Traversal) (organizations : List String) :
    R (2 * organizations.length) t (client.traverse t organizations) := by
  induction organizations generalizing t with
  | nil => exact walk.refl t
  | cons org organizations ih =>
    unfold Client.traverse
    split
    · exact walk.le (Nat.zero_le _) (walk.fail ..)
    · refine walk.le ?_ (walk.trans (walk.organization org t) (ih _))
      rw [List.length_cons]
      omega

end Walk

end Permesh.Github

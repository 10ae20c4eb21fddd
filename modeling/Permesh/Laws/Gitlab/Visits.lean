import Permesh.Laws.Gitlab.Listing
import Permesh.Laws.Gitlab.Parents

/-!
# Laws.Gitlab.Visits — the member lists of a run

Behind the scopes, a run goes through the direct and the effective members of each group and of each
project. No list is visited twice, and no list returns two rows of one identifier, so that no two
calls of `member` make grants of one identifier: what is in the map of grants stays there
(`grants_stay`).

A list is known by its label in the identifiers of grants (`Visit.label`), and no two visits have the same
one. The induction is over the visits of a run, with the rows of one visit inside.
-/

namespace Permesh.Gitlab

open Permesh.Json Permesh.Http Permesh.Lib

/-! ## The rows of a list -/

/-- The rows so far have different identifiers, and these are known. -/
structure Distinct (p : Progress) : Prop where
  ids : ∀ id, id ∈ p.ids ↔ id ∈ p.rows.filterMap idOf
  nodup : (p.rows.filterMap idOf).Nodup

section

variable {client : Client} {path : String} {filters : List (String × String)}

theorem Distinct.receive {page : Nat} {p : Progress} (h : Distinct p) (value : Value)
    (headers : HeaderMap) :
    ((client.receive path filters page p value headers).1.rows.filterMap idOf).Nodup ∧
      ((client.receive path filters page p value headers).2 = .ok true →
        Distinct (client.receive path filters page p value headers).1) := by
  unfold Client.receive
  cases pageItems value with
  | none => exact ⟨h.nodup, nofun⟩
  | some items =>
    dsimp only
    split
    · exact ⟨h.nodup, nofun⟩
    split
    · exact ⟨h.nodup, nofun⟩
    split
    · exact ⟨h.nodup, nofun⟩
    obtain ⟨-, -, enlisted⟩ := enlist_scan
      { p with budget := { p.budget with rows := p.budget.rows + items.length } }
      (p.rows.filterMap idOf) h.ids items
    revert enlisted
    generalize enlist _ items = outcome
    obtain ⟨q, r⟩ := outcome
    intro enlisted
    cases hs : scan (p.rows.filterMap idOf) items with
    | malformed =>
      rw [hs] at enlisted
      obtain ⟨⟨e, rfl⟩, rows⟩ := enlisted
      exact ⟨(show q.rows = p.rows from rows) ▸ h.nodup, nofun⟩
    | repeated =>
      rw [hs] at enlisted
      obtain ⟨⟨e, rfl⟩, rows⟩ := enlisted
      refine ⟨?_, nofun⟩
      rw [show q.rows = [] from rows]
      exact List.nodup_nil
    | fresh =>
      rw [hs] at enlisted
      obtain ⟨rfl, rows, ids⟩ := enlisted
      obtain ⟨-, nodup⟩ := scan_fresh hs h.nodup
      have listed : Distinct { q with rows := q.rows ++ items } := by
        have same : (q.rows ++ items).filterMap idOf =
            p.rows.filterMap idOf ++ items.filterMap idOf := by
          rw [List.filterMap_append, show q.rows = p.rows from rows]
        constructor
        · intro id
          rw [same]
          exact ids id
        · rw [same]
          exact nodup
      dsimp only
      split
      · exact ⟨listed.nodup, nofun⟩
      split
      · exact ⟨listed.nodup, nofun⟩
      · exact ⟨listed.nodup, fun _ => listed⟩

variable (client path filters) in
theorem Distinct.turn (page : Nat) {p : Progress} (h : Distinct p) :
    ((client.turn path filters page p).1.rows.filterMap idOf).Nodup ∧
      ((client.turn path filters page p).2 = .ok true →
        Distinct (client.turn path filters page p).1) := by
  unfold Client.turn
  split
  · exact ⟨h.nodup, nofun⟩
  case h_2 value headers budget _ =>
    have fetched : Distinct (p.fetched budget value headers) := ⟨h.ids, h.nodup⟩
    exact fetched.receive value headers

theorem Distinct.pages (left : Nat) {page : Nat} {p : Progress} (h : Distinct p) :
    ((client.pages path filters left page p).1.rows.filterMap idOf).Nodup := by
  induction left generalizing page p with
  | zero => exact h.nodup
  | succ left ih =>
    have turned := Distinct.turn client path filters page h
    unfold Client.pages
    revert turned
    generalize client.turn path filters page p = turned
    obtain ⟨q, e | next⟩ := turned
    · exact fun turned => turned.1
    · cases next
      · exact fun turned => turned.1
      · exact fun turned => ih (turned.2 rfl)

/-- **No two rows of a list have one identifier.** -/
theorem listing_distinct (client : Client) (path : String) (filters : List (String × String))
    (b : Budget) : ((client.listing path filters b).1.rows.filterMap idOf).Nodup :=
  Distinct.pages MAX_PAGES ⟨by simp, List.nodup_nil⟩

end

/-! ## Member lists -/

/-- One member list of a run. -/
structure Visit where
  kind : String
  scope : Nat × EntityKey
  effective : Bool

namespace Visit

def path (v : Visit) : String :=
  let all := if v.effective then "/all" else ""
  s!"{v.kind}/{v.scope.1}/members{all}"

/-- One row of the list. -/
def take (v : Visit) (calendar : Calendar) (c : Collection) (value : Value) : Collection :=
  match c.member calendar v.scope.2 (v.kind == "groups") v.effective value with
  | (.error failure, c) => c.fail failure
  | (.ok (), c) => c

end Visit

def Provider.visit (p : Provider) (c : Collection) (v : Visit) : Op Collection :=
  p.memberList v.kind v.scope c v.effective

theorem visit_eq (p : Provider) (c : Collection) (v : Visit) (m : Meter) :
    p.visit c v m = ((p.listing v.path [] m).1.rows.foldl
      (v.take (p.calendar (p.listing v.path [] m).2.budget.requests))
      (c.note (p.listing v.path [] m).1.failure), (p.listing v.path [] m).2) := by
  unfold Provider.visit Provider.memberList
  rw [run_bind, run_bind]
  rfl

/-- The lists of these groups or projects, in order. -/
def visitsOf (kind : String) (scopes : List (Nat × EntityKey)) : List Visit :=
  scopes.flatMap fun scope => [⟨kind, scope, false⟩, ⟨kind, scope, true⟩]

theorem members_visits (p : Provider) (kind : String) (scopes : List (Nat × EntityKey))
    (c : Collection) :
    scopes.foldlM (p.members kind) c = (visitsOf kind scopes).foldlM p.visit c := by
  induction scopes generalizing c with
  | nil => rfl
  | cons scope scopes ih =>
    rw [visitsOf, List.flatMap_cons, List.foldlM_append, List.foldlM_cons]
    exact bind_congr ih

theorem visits_append (p : Provider) (l l' : List Visit) (c : Collection) (m : Meter) :
    (l ++ l').foldlM p.visit c m =
      l'.foldlM p.visit (l.foldlM p.visit c m).1 (l.foldlM p.visit c m).2 := by
  rw [List.foldlM_append, run_bind]

/-- The collection before its members are read, with the lists that are visited. -/
def Provider.stocked (p : Provider) (time : String) :
    Op (Except ProviderError (Collection × List Visit)) := do
  let s ← p.loadGroups time
  let (c, found) ← s.groups.keys.foldlM p.listProjects (s.collection, ∅)
  let wanted := p.projectIds.foldl (·.insert ·) found
  if wanted.size > MAX_ROWS then return .error (error "limit")
  let (c, projects) ← wanted.toList.foldlM (p.loadProject s.groups) (c, ∅)
  let c := s.parents.toList.foldl (adopt s.groups) c
  if c.resources.isEmpty then return .error (error "forbidden")
  return .ok (c, visitsOf "groups" s.groups.toList ++ visitsOf "projects" projects.toList)

/-- A run is its stock and its visits. -/
theorem gather_stocked (p : Provider) (time : String) (m : Meter) :
    p.gather time m = match p.stocked time m with
      | (.error e, m') => (.error e, m')
      | (.ok (c, visits), m') =>
        (.ok (visits.foldlM p.visit c m').1, (visits.foldlM p.visit c m').2) := by
  unfold Provider.gather Provider.stocked
  simp only [run_bind]
  generalize p.loadGroups time m = run
  obtain ⟨s, m₁⟩ := run
  dsimp only
  generalize s.groups.keys.foldlM p.listProjects (s.collection, ∅) m₁ = run
  obtain ⟨⟨c₁, found⟩, m₂⟩ := run
  dsimp only
  split
  · rfl
  simp only [run_bind]
  generalize (p.projectIds.foldl (·.insert ·) found).toList.foldlM (p.loadProject s.groups) (c₁, ∅)
    m₂ = run
  obtain ⟨⟨c₂, projects⟩, m₃⟩ := run
  dsimp only
  split
  · rfl
  simp only [run_bind, members_visits]
  exact congrArg (fun run => (Except.ok run.1, run.2)) (visits_append p _ _ _ _).symm

/-! ## What the calls leave -/

theorem account_key {inst scope : String} {value : Value} {a : Account}
    (h : account inst scope value = .ok a) :
    ∃ id, idOf value = some id ∧ a.key = key inst scope "user" id := by
  unfold account at h
  obtain ⟨id, hid, h⟩ := bind_ok h
  obtain ⟨login, -, h⟩ := bind_ok h
  obtain ⟨state, -, h⟩ := bind_ok h
  obtain ⟨bot, -, h⟩ := bind_ok h
  cases h
  exact ⟨id, by rw [idOf, hid]; rfl, rfl⟩

/-- What `member` does: nothing, or it blocks the account of the row, or records it. -/
theorem member_cases (calendar : Calendar) (c : Collection) (resource : EntityKey)
    (group effective : Bool) (value : Value) :
    (∃ e, c.member calendar resource group effective value = (.error e, c)) ∨
    ∃ id candidate, idOf value = some id ∧
      candidate.key = key c.snapshot.provider c.scope "user" id ∧
      ((∃ e, c.member calendar resource group effective value = (.error e, { c with
          blocked := c.blocked.insert candidate.key
          accounts := c.accounts.erase candidate.key })) ∨
        ∃ a, c.member calendar resource group effective value =
          (.ok (), c.record resource group effective candidate a)) := by
  unfold Collection.member
  split
  · exact .inl ⟨_, rfl⟩
  case h_2 candidate read =>
    obtain ⟨id, native, key⟩ := account_key read
    split
    · exact .inl ⟨_, rfl⟩
    split
    · exact .inr ⟨id, candidate, native, key, .inl ⟨_, rfl⟩⟩
    split
    · exact .inl ⟨_, rfl⟩
    · exact .inr ⟨id, candidate, native, key, .inr ⟨_, rfl⟩⟩

section

variable (p : Provider)

/-- The key of a user. -/
def userKey (id : Nat) : EntityKey := key p.id p.scope "user" id

/-- A list has brought a row of this user. -/
abbrev Issued := Visit → Nat → Prop

/-- The collection behind these rows: its memberships and grants are those of rows, and a row of a
user whose account is not there has blocked it. -/
structure Fed (c₀ : Collection) (issued : Issued) (c : Collection) : Prop where
  resources : c.resources = c₀.resources
  groups : c.groups = c₀.groups
  provider : c.snapshot.provider = p.id
  scope : c.scope = p.scope
  accounts : KeyedBy Account.key c.accounts
  memberships : ∀ (k : MembershipKey) (x : Membership), c.memberships[k]? = some x →
    ∃ v id, issued v id ∧ v.kind = "groups" ∧ x.member = .account (userKey p id) ∧
      x.group = v.scope.2 ∧ Seen c.accounts c.blocked (userKey p id)
  grants : ∀ (k : String) (g : Grant), c.grants[k]? = some g → g.id = k ∧
    ∃ v id, issued v id ∧ k = grantId v.effective v.scope.2.id (userKey p id).id ∧
      g.subject = .account (userKey p id) ∧ g.resource = v.scope.2 ∧
      Seen c.accounts c.blocked (userKey p id)

variable {p} {c₀ : Collection} {issued : Issued}

/-- More rows may have been brought. -/
theorem Fed.mono {issued' : Issued} {c : Collection} (h : Fed p c₀ issued c)
    (more : ∀ v id, issued v id → issued' v id) : Fed p c₀ issued' c where
  resources := h.resources
  groups := h.groups
  provider := h.provider
  scope := h.scope
  accounts := h.accounts
  memberships k x there := by
    obtain ⟨v, id, brought, rest⟩ := h.memberships k x there
    exact ⟨v, id, more v id brought, rest⟩
  grants k g there := by
    obtain ⟨own, v, id, brought, rest⟩ := h.grants k g there
    exact ⟨own, v, id, more v id brought, rest⟩

theorem Fed.fail {c : Collection} (h : Fed p c₀ issued c) (failure : ProviderError) :
    Fed p c₀ issued (c.fail failure) :=
  ⟨h.resources, h.groups, h.provider, h.scope, h.accounts, h.memberships, h.grants⟩

theorem Fed.note {c : Collection} (h : Fed p c₀ issued c) (failure : Option ProviderError) :
    Fed p c₀ issued (c.note failure) := by
  cases failure with
  | none => exact h
  | some failure => exact h.fail failure

/-- The account of a contradictory row is blocked. -/
theorem Fed.block {c : Collection} (h : Fed p c₀ issued c) (k : EntityKey) :
    Fed p c₀ issued { c with
      blocked := c.blocked.insert k
      accounts := c.accounts.erase k } where
  resources := h.resources
  groups := h.groups
  provider := h.provider
  scope := h.scope
  accounts := h.accounts.erase k
  memberships k' x there := by
    obtain ⟨v, id, brought, group, member, resource, seen⟩ := h.memberships k' x there
    exact ⟨v, id, brought, group, member, resource, seen.takeOut k⟩
  grants k' g there := by
    obtain ⟨own, v, id, brought, named, subject, resource, seen⟩ := h.grants k' g there
    exact ⟨own, v, id, brought, named, subject, resource, seen.takeOut k⟩

theorem Fed.settle_key {c : Collection} (h : Fed p c₀ issued c) (candidate : Account) :
    (c.settle candidate).key = candidate.key := by
  unfold Collection.settle
  split
  · rfl
  case h_2 old there =>
    have same := h.accounts _ _ there
    split
    · exact same
    · exact same

/-- A row that is accepted is recorded under the user that it names. -/
theorem Fed.record {c : Collection} (h : Fed p c₀ issued c) {v : Visit} {id : Nat}
    (brought : issued v id) {candidate : Account} (named : candidate.key = userKey p id)
    (a : Assignment) :
    Fed p c₀ issued (c.record v.scope.2 (v.kind == "groups") v.effective candidate a) := by
  obtain ⟨accounts, blocked, snapshot, scope, -⟩ := record_accounts c v.scope.2 (v.kind == "groups")
    v.effective candidate a
  obtain ⟨resources, groups⟩ := record_scopes c v.scope.2 (v.kind == "groups") v.effective candidate a
  have known : Seen (c.accounts.insert candidate.key (c.settle candidate)) c.blocked (userKey p id) :=
    .inl (mem_insert_map.mpr (.inl named))
  constructor
  · exact resources.trans h.resources
  · exact groups.trans h.groups
  · rw [snapshot]
    exact h.provider
  · exact scope.trans h.scope
  · rw [accounts]
    exact h.accounts.insert (h.settle_key candidate)
  · intro k x there
    rw [record_memberships] at there
    rw [accounts, blocked]
    have old (there : c.memberships[k]? = some x) : ∃ v id, issued v id ∧ v.kind = "groups" ∧
        x.member = .account (userKey p id) ∧ x.group = v.scope.2 ∧
        Seen (c.accounts.insert candidate.key (c.settle candidate)) c.blocked (userKey p id) := by
      obtain ⟨v, id, brought, group, member, resource, seen⟩ := h.memberships k x there
      exact ⟨v, id, brought, group, member, resource, seen.insert _ _⟩
    split at there
    case isFalse => exact old there
    case isTrue direct =>
      rw [getElem?_insert_key] at there
      split at there
      · cases there
        rw [Bool.and_eq_true, beq_iff_eq] at direct
        exact ⟨v, id, brought, direct.1, congrArg Subject.account named, rfl, known⟩
      · exact old there
  · intro k g there
    rw [record_grants] at there
    rw [accounts, blocked]
    have old (there : c.grants[k]? = some g) : g.id = k ∧ ∃ v id, issued v id ∧
        k = grantId v.effective v.scope.2.id (userKey p id).id ∧
        g.subject = .account (userKey p id) ∧ g.resource = v.scope.2 ∧
        Seen (c.accounts.insert candidate.key (c.settle candidate)) c.blocked (userKey p id) := by
      obtain ⟨own, v, id, brought, named, subject, resource, seen⟩ := h.grants k g there
      exact ⟨own, v, id, brought, named, subject, resource, seen.insert _ _⟩
    split at there
    case isTrue => exact old there
    case isFalse =>
      rw [getElem?_insert_key] at there
      split at there
      case isTrue same =>
        cases there
        refine ⟨same, v, id, brought, ?_, congrArg Subject.account named, rfl, known⟩
        rw [← same, named]
      case isFalse => exact old there

/-- What `member` makes of a row. -/
theorem Fed.member {c : Collection} (h : Fed p c₀ issued c) (calendar : Calendar) {v : Visit}
    {value : Value} (brought : ∀ id, idOf value = some id → issued v id) :
    Fed p c₀ issued (c.member calendar v.scope.2 (v.kind == "groups") v.effective value).2 := by
  rcases member_cases calendar c v.scope.2 (v.kind == "groups") v.effective value with
    ⟨e, eq⟩ | ⟨id, candidate, native, named, ⟨e, eq⟩ | ⟨a, eq⟩⟩
  · rw [eq]
    exact h
  · rw [eq]
    exact h.block candidate.key
  · rw [eq]
    rw [h.provider, h.scope] at named
    exact h.record (brought id native) named a

/-- **No row overwrites the grant of another.** The identifier of a grant names the list and the
user. -/
theorem Fed.stay {c : Collection} (h : Fed p c₀ issued c) (calendar : Calendar) {v : Visit}
    {value : Value} (fresh : ∀ id, idOf value = some id → ∀ v', issued v' id →
      ¬(v'.effective = v.effective ∧ v'.scope.2.id = v.scope.2.id)) {k : String} {g : Grant}
    (there : c.grants[k]? = some g) :
    (c.member calendar v.scope.2 (v.kind == "groups") v.effective value).2.grants[k]? = some g := by
  rcases member_cases calendar c v.scope.2 (v.kind == "groups") v.effective value with
    ⟨e, eq⟩ | ⟨id, candidate, native, named, ⟨e, eq⟩ | ⟨a, eq⟩⟩
  · rw [eq]
    exact there
  · rw [eq]
    exact there
  · rw [eq, record_grants]
    split
    · exact there
    · rw [getElem?_insert_key, if_neg]
      · exact there
      · intro same
        obtain ⟨-, v', id', brought, key, -⟩ := h.grants k g there
        rw [h.provider, h.scope] at named
        rw [named, key] at same
        obtain ⟨effective, resource, rfl⟩ := grantId_inj same
        exact fresh id native v' brought ⟨effective.symm, resource.symm⟩

/-! ## Runs -/

/-- The rows of these lists, and some rows of one more. -/
def upTo (before : List Visit) (v : Visit) (taken : List Value) : Issued :=
  fun v' id => v' ∈ before ∨ v' = v ∧ some id ∈ taken.map idOf

/-- The rows of a list that have been taken. -/
theorem Fed.rows {before : List Visit} {c : Collection} (h : Fed p c₀ (fun v _ => v ∈ before) c)
    (calendar : Calendar) (v : Visit) (rows : List Value) :
    Fed p c₀ (upTo before v rows) (rows.foldl (v.take calendar) c) := by
  refine foldl_rule (fun taken c => Fed p c₀ (upTo before v taken) c)
    (h.mono fun v' id mem => .inl mem) (fun taken value c fed => ?_) rows
  have more : Fed p c₀ (upTo before v (taken ++ [value])) c := by
    refine fed.mono fun v' id brought => brought.imp_right fun ⟨same, mem⟩ => ⟨same, ?_⟩
    rw [List.map_append]
    exact List.mem_append_left _ mem
  have brought : ∀ id, idOf value = some id → upTo before v (taken ++ [value]) v id := by
    intro id native
    refine .inr ⟨rfl, ?_⟩
    rw [List.map_append, native.symm]
    exact List.mem_append_right _ (List.mem_singleton_self _)
  have member := more.member calendar brought
  unfold Visit.take
  revert member
  generalize c.member calendar v.scope.2 (v.kind == "groups") v.effective value = outcome
  obtain ⟨_ | _, c'⟩ := outcome
  · exact fun member => member.fail _
  · exact fun member => member

/-- **The lists that have been visited.** -/
theorem Fed.visits {c : Collection} (h : Fed p c₀ (fun _ _ => False) c) (visits : List Visit)
    (m : Meter) : Fed p c₀ (fun v _ => v ∈ visits) (visits.foldlM p.visit c m).1 := by
  induction visits using List.reverseRecOn with
  | nil => exact h.mono fun _ _ impossible => impossible.elim
  | append_singleton visits v ih =>
    rw [visits_append, List.foldlM_cons, run_bind, visit_eq]
    refine ((ih.note _).rows _ v _).mono fun v' id brought => List.mem_append.mpr ?_
    exact brought.imp_right fun ⟨same, _⟩ => List.mem_singleton.mpr same

/-- In the run from `m`, the collection before `member` is called with a row of a list. -/
inductive Calls (p : Provider) (time : String) (m : Meter) : Collection → Visit → Value → Prop where
  | call {c₀ c₁ : Collection} {m₀ m₁ : Meter} {before after : List Visit} {v : Visit}
      {taken rest : List Value} {value : Value}
      (stocked : p.stocked time m = (.ok (c₀, before ++ v :: after), m₀))
      (reached : before.foldlM p.visit c₀ m₀ = (c₁, m₁))
      (rows : (p.listing v.path [] m₁).1.rows = taken ++ value :: rest) :
      Calls p time m (taken.foldl (v.take (p.calendar (p.listing v.path [] m₁).2.budget.requests))
        (c₁.note (p.listing v.path [] m₁).1.failure)) v value

/-- What a list is known by in the identifiers of grants. -/
def Visit.label (v : Visit) : Bool × String := (v.effective, v.scope.2.id)

/-- **What is in the map of grants stays there**, if no list is visited twice. -/
theorem grants_stay {time : String} {m m₀ : Meter} {visits : List Visit} {c : Collection} {v : Visit}
    {value : Value} (start : p.stocked time m = (.ok (c₀, visits), m₀))
    (bare : Fed p c₀ (fun _ _ => False) c₀) (once : (visits.map Visit.label).Nodup)
    (calls : Calls p time m c v value) (calendar : Calendar) {k : String} {g : Grant}
    (there : c.grants[k]? = some g) :
    (c.member calendar v.scope.2 (v.kind == "groups") v.effective value).2.grants[k]? = some g := by
  cases calls with
  | @call c₀' c₁ m₀' m₁ before after _ taken rest _ stocked reached rows =>
    rw [start] at stocked
    cases stocked
    have fed := bare.visits before m₀
    rw [reached] at fed
    refine ((fed.note _).rows _ v taken).stay calendar ?_ there
    rintro id native v' (mem | ⟨rfl, mem⟩) ⟨effective, resource⟩
    · rw [List.map_append, List.nodup_append] at once
      apply once.2.2 v'.label (List.mem_map_of_mem mem) v.label (by simp)
      rw [Visit.label, Visit.label, effective, resource]
    · have distinct := listing_distinct p.client v'.path [] m₁.budget
      have same : (p.client.listing v'.path [] m₁.budget).1.rows = taken ++ value :: rest := rows
      rw [same, List.filterMap_append, List.nodup_append] at distinct
      refine distinct.2.2 id ?_ id ?_ rfl
      · obtain ⟨row, there, named⟩ := List.mem_map.mp mem
        exact List.mem_filterMap.mpr ⟨row, there, named⟩
      · exact List.mem_filterMap.mpr ⟨value, List.mem_cons_self, native⟩

end

end Permesh.Gitlab

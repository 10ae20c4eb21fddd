import Permesh.Laws.Gitlab.Visits

/-!
# Laws.Gitlab.Confined — what a snapshot may contain

A group is in a snapshot because it was asked for and loaded. A project is there because it was asked
for, or because its own document, read again behind the lists of projects, has it in a group that was
loaded (`Provider.rereads`). Everything else refers to accounts, groups and resources of the snapshot
(`collect_confined`).

The stock of a run is kept by each of its parts, and a document that is read again is compared with what
was loaded before. Whether a token may see a group is up to GitLab.
-/

namespace Permesh.Gitlab

open Permesh.Json Permesh.Http Permesh.Lib

variable {p : Provider}

/-! ## Groups and projects -/

/-- What the responses to the requests for projects say: the projects that were loaded, with the group
that each of them names. -/
def Provider.rereads (p : Provider) (time : String) : Op (List (Nat × Option Nat)) := do
  let s ← p.loadGroups time
  let (_, found) ← s.groups.keys.foldlM p.listProjects (s.collection, ∅)
  let wanted := p.projectIds.foldl (·.insert ·) found
  wanted.toList.foldlM (fun answers id => do
    match ← (p.load "project" id).run with
    | .ok (_, above) => return answers ++ [(id, above)]
    | .error _ => return answers) []

/-- The resource of a group of the configuration. -/
structure IsGroup (p : Provider) (r : Resource) : Prop where
  kind : r.kind = some "gitlab.group"
  configured : ∃ id ∈ p.groupIds, r.key = key p.id p.scope "group" id

/-- The resource of a project of the configuration, or of one whose own document has it in a group
that was loaded. -/
structure IsProject (p : Provider) (loaded : Nat → Prop) (rereads : List (Nat × Option Nat))
    (r : Resource) : Prop where
  kind : r.kind = some "gitlab.project"
  placed : ∃ id above, r.key = key p.id p.scope "project" id ∧ (id, above) ∈ rereads ∧
    (id ∈ p.projectIds ∨ ∃ group, above = some group ∧ loaded group)

/-- The groups and projects that are loaded, before any member is. -/
structure Stock (p : Provider) (groups : Std.ExtTreeMap Nat EntityKey)
    (rereads : List (Nat × Option Nat)) (c : Collection) : Prop where
  loaded : ∀ (id : Nat) (k : EntityKey), groups[id]? = some k →
    id ∈ p.groupIds ∧ k = key p.id p.scope "group" id ∧ k ∈ c.groups ∧ k ∈ c.resources
  named : KeyedBy Group.key c.groups
  keyed : KeyedBy Resource.key c.resources
  parents : ∀ (k : EntityKey) (r : Resource), c.resources[k]? = some r →
    ∀ above, r.parent = some above → ∃ id : Nat, groups[id]? = some above
  resources : ∀ (k : EntityKey) (r : Resource), c.resources[k]? = some r →
    IsGroup p r ∨ IsProject p (· ∈ groups) rereads r
  fed : Fed p c (fun _ _ => False) c

theorem fed_new (p : Provider) (time : String) :
    Fed p (.new p.id p.scope time) (fun _ _ => False) (.new p.id p.scope time) where
  resources := rfl
  groups := rfl
  provider := rfl
  scope := rfl
  accounts := keyedBy_empty _
  memberships k x there := by
    change (∅ : Std.ExtTreeMap MembershipKey Membership)[k]? = some x at there
    rw [Std.ExtTreeMap.getElem?_empty] at there
    cases there
  grants k g there := by
    change (∅ : Std.ExtTreeMap String Grant)[k]? = some g at there
    rw [Std.ExtTreeMap.getElem?_empty] at there
    cases there

theorem stock_new (p : Provider) (time : String) : Stock p ∅ [] (.new p.id p.scope time) where
  loaded id k there := by
    rw [Std.ExtTreeMap.getElem?_empty] at there
    cases there
  named := keyedBy_empty _
  keyed := keyedBy_empty _
  parents k r there := by
    change (∅ : Std.ExtTreeMap EntityKey Resource)[k]? = some r at there
    rw [Std.ExtTreeMap.getElem?_empty] at there
    cases there
  resources k r there := by
    change (∅ : Std.ExtTreeMap EntityKey Resource)[k]? = some r at there
    rw [Std.ExtTreeMap.getElem?_empty] at there
    cases there
  fed := fed_new p time

section

variable {groups : Std.ExtTreeMap Nat EntityKey} {rereads : List (Nat × Option Nat)}
  {c : Collection}

theorem Stock.fail (h : Stock p groups rereads c) (failure : ProviderError) :
    Stock p groups rereads (c.fail failure) where
  loaded := h.loaded
  named := h.named
  keyed := h.keyed
  parents := h.parents
  resources := h.resources
  fed := ⟨rfl, rfl, h.fed.provider, h.fed.scope, h.fed.accounts, h.fed.memberships, h.fed.grants⟩

theorem Stock.note (h : Stock p groups rereads c) (failure : Option ProviderError) :
    Stock p groups rereads (c.note failure) := by
  cases failure with
  | none => exact h
  | some failure => exact h.fail failure

/-- The members do not depend on the groups and resources. -/
theorem fed_scopes (h : Fed p c (fun _ _ => False) c)
    (groups : Std.ExtTreeMap EntityKey Group) (resources : Std.ExtTreeMap EntityKey Resource) :
    Fed p { c with groups := groups, resources := resources } (fun _ _ => False)
      { c with groups := groups, resources := resources } :=
  ⟨rfl, rfl, h.provider, h.scope, h.accounts, h.memberships, h.grants⟩

/-- More groups and more documents do not take a resource out. -/
theorem IsProject.mono {loaded loaded' : Nat → Prop} {rereads' : List (Nat × Option Nat)}
    {r : Resource} (h : IsProject p loaded rereads r) (more : ∀ id, loaded id → loaded' id)
    (sub : rereads ⊆ rereads') : IsProject p loaded' rereads' r := by
  obtain ⟨kind, id, above, key, reread, why⟩ := h
  refine ⟨kind, id, above, key, sub reread, why.imp_right ?_⟩
  rintro ⟨group, names, there⟩
  exact ⟨group, names, more group there⟩

/-- One more group is loaded. -/
theorem Stock.group (h : Stock p groups rereads c) {id : Nat} (asked : id ∈ p.groupIds)
    {r : Resource} (hk : r.key = key p.id p.scope "group" id) (hp : r.parent = none)
    (kind : r.kind = some "gitlab.group") :
    Stock p (groups.insert id r.key) rereads { c with
      groups := c.groups.insert r.key ⟨r.key, r.name⟩
      resources := c.resources.insert r.key r } where
  loaded id' k there := by
    rw [getElem?_insert_key] at there
    split at there
    case isTrue same =>
      cases there
      subst same
      exact ⟨asked, hk, mem_insert_map.mpr (.inl rfl), mem_insert_map.mpr (.inl rfl)⟩
    case isFalse =>
      obtain ⟨asked', key', group, resource⟩ := h.loaded id' k there
      exact ⟨asked', key', mem_insert_map.mpr (.inr group), mem_insert_map.mpr (.inr resource)⟩
  named := h.named.insert rfl
  keyed := h.keyed.insert rfl
  parents k r' there above names := by
    rw [getElem?_insert_key] at there
    split at there
    · cases there
      rw [hp] at names
      cases names
    · obtain ⟨id', known⟩ := h.parents k r' there above names
      by_cases same : id = id'
      · refine ⟨id', ?_⟩
        rw [getElem?_insert_key, if_pos same, hk, (h.loaded id' above known).2.1, same]
      · refine ⟨id', ?_⟩
        rw [getElem?_insert_key, if_neg same]
        exact known
  resources k r' there := by
    rw [getElem?_insert_key] at there
    split at there
    · cases there
      exact .inl ⟨kind, id, asked, hk⟩
    · exact (h.resources k r' there).imp_right fun project =>
        project.mono (fun id' mem => mem_insert_map.mpr (.inr mem)) fun _ mem => mem
  fed := fed_scopes h.fed _ _

/-- One more project is read again. -/
theorem Stock.reread (h : Stock p groups rereads c) (answer : Nat × Option Nat) :
    Stock p groups (rereads ++ [answer]) c where
  loaded := h.loaded
  named := h.named
  keyed := h.keyed
  parents := h.parents
  resources k r there := (h.resources k r there).imp_right fun project =>
    project.mono (fun _ mem => mem) fun _ mem => List.mem_append_left _ mem
  fed := h.fed

/-- One more resource, which is a project. -/
theorem Stock.project (h : Stock p groups rereads c) {r : Resource}
    (project : IsProject p (· ∈ groups) rereads r)
    (parent : ∀ above, r.parent = some above → ∃ id : Nat, groups[id]? = some above) :
    Stock p groups rereads { c with resources := c.resources.insert r.key r } where
  loaded id k there := by
    obtain ⟨asked, key, group, resource⟩ := h.loaded id k there
    exact ⟨asked, key, group, mem_insert_map.mpr (.inr resource)⟩
  named := h.named
  keyed := h.keyed.insert rfl
  parents k r' there above names := by
    rw [getElem?_insert_key] at there
    split at there
    · cases there
      exact parent above names
    · exact h.parents k r' there above names
  resources k r' there := by
    rw [getElem?_insert_key] at there
    split at there
    · cases there
      exact .inr project
    · exact h.resources k r' there
  fed := fed_scopes h.fed _ _

/-- A group is linked to the one above it. -/
theorem Stock.adopt (h : Stock p groups rereads c) (entry : EntityKey × Option Nat) :
    Stock p groups rereads (adopt groups c entry) := by
  unfold Gitlab.adopt
  split
  · exact h
  case h_2 above known =>
    obtain ⟨id, -, known⟩ := Option.bind_eq_some_iff.mp known
    split
    · exact h.fail _
    split
    case h_2 => exact h
    case h_1 r there =>
      have own : r.key = entry.1 := h.keyed _ r there
      constructor
      · intro id k there'
        obtain ⟨asked, key, group, resource⟩ := h.loaded id k there'
        exact ⟨asked, key, group, mem_insert_map.mpr (.inr resource)⟩
      · exact h.named
      · exact h.keyed.insert own
      · intro k r' there' above' names
        rw [getElem?_insert_key] at there'
        split at there'
        · cases there'
          cases names
          exact ⟨id, known⟩
        · exact h.parents k r' there' above' names
      · intro k r' there'
        rw [getElem?_insert_key] at there'
        split at there'
        · cases there'
          -- only the parent has changed
          rcases h.resources _ r there with group | project
          · exact .inl ⟨group.kind, group.configured⟩
          · exact .inr ⟨project.kind, project.placed⟩
        · exact h.resources k r' there'
      · exact fed_scopes h.fed _ _

end

/-! ## The stock of a run -/

/-- The groups of the configuration. -/
theorem loadGroups_stock (p : Provider) (time : String) (m : Meter) :
    Stock p (p.loadGroups time m).1.groups [] (p.loadGroups time m).1.collection := by
  refine foldlM_keeps_mem (I := fun s : Scopes => Stock p s.groups [] s.collection) p.groupIds
    (fun s id asked m stock => ?_) m (stock_new p time)
  unfold Provider.loadGroup
  rw [run_bind]
  cases loaded : ((p.load "group" id).run m).1 with
  | error e => exact stock.fail e
  | ok found =>
    obtain ⟨r, above⟩ := found
    obtain ⟨key, root, kind⟩ := load_ok loaded
    exact stock.group asked key root kind

section

variable {groups : Std.ExtTreeMap Nat EntityKey} {rereads : List (Nat × Option Nat)}

/-- The lists of projects change nothing but what the snapshot says of itself. -/
theorem Stock.listProjects {found : Collection × Std.ExtTreeSet Nat}
    (h : Stock p groups rereads found.1) (group : Nat) (m : Meter) :
    Stock p groups rereads (p.listProjects found group m).1.1 := by
  unfold Provider.listProjects
  rw [run_bind]
  refine List.foldlRecOn
    (motive := fun found' : Collection × Std.ExtTreeSet Nat => Stock p groups rereads found'.1) _ _ ?_
    fun found' stock value _ => ?_
  · exact h.note _
  · unfold listProject
    split
    · exact stock
    · exact stock.fail _

/-- The projects that are loaded are resources, under their keys. -/
def Placed (p : Provider) (c : Collection) (projects : Std.ExtTreeMap Nat EntityKey) : Prop :=
  ∀ (id : Nat) (k : EntityKey), projects[id]? = some k →
    k = key p.id p.scope "project" id ∧ k ∈ c.resources

/-- One project is read again. -/
theorem Stock.loadProject {found : Collection × Std.ExtTreeMap Nat EntityKey}
    (h : Stock p groups rereads found.1) (placed : Placed p found.1 found.2) (id : Nat) (m : Meter) :
    ∃ found' rereads' m', (Stock p groups rereads' found'.1 ∧ Placed p found'.1 found'.2) ∧
      p.loadProject groups found id m = (found', m') ∧
      (do match ← (p.load "project" id).run with
          | .ok (_, above) => return rereads ++ [(id, above)]
          | .error _ => return rereads : Op _) m = (rereads', m') := by
  unfold Provider.loadProject
  rw [run_bind, run_bind]
  cases loaded : ((p.load "project" id).run m).1 with
  | error e => exact ⟨(found.1.fail e, found.2), _, _, ⟨h.fail e, placed⟩, rfl, rfl⟩
  | ok answer =>
    obtain ⟨r, above⟩ := answer
    obtain ⟨key, root, kind⟩ := load_ok loaded
    have again := h.reread (id, above)
    dsimp only
    split
    · exact ⟨(found.1.fail (error "scope"), found.2), _, _, ⟨again.fail _, placed⟩, rfl, rfl⟩
    case isFalse why =>
      let r' := { r with parent := above.bind fun id => groups[id]? }
      have project : IsProject p (· ∈ groups) (rereads ++ [(id, above)]) r' := by
        refine ⟨kind, id, above, key, List.mem_append_right _ (List.mem_singleton_self _), ?_⟩
        rw [not_and_or, not_not, not_not, Option.any_eq_true] at why
        apply why.imp_right
        rintro ⟨group, names, there⟩
        exact ⟨group, names, of_decide_eq_true there⟩
      have parent (k : EntityKey) (names : r'.parent = some k) : ∃ id : Nat, groups[id]? = some k := by
        obtain ⟨group, -, there⟩ := Option.bind_eq_some_iff.mp names
        exact ⟨group, there⟩
      refine ⟨({ found.1 with resources := found.1.resources.insert r'.key r' },
        found.2.insert id r'.key), _, _, ⟨again.project project parent, fun id' k there => ?_⟩, rfl, rfl⟩
      rw [getElem?_insert_key] at there
      split at there
      case isTrue same =>
        cases there
        subst same
        exact ⟨key, mem_insert_map.mpr (.inl rfl)⟩
      case isFalse =>
        obtain ⟨key', resource⟩ := placed id' k there
        exact ⟨key', mem_insert_map.mpr (.inr resource)⟩

end

/-! ## The lists of a run -/

/-- A list of members of a group or a project that is there. -/
structure Open (p : Provider) (groups : Std.ExtTreeMap Nat EntityKey) (c : Collection) (v : Visit) :
    Prop where
  resource : v.scope.2 ∈ c.resources
  group : v.kind = "groups" → ∃ id : Nat, groups[id]? = some v.scope.2

theorem mem_visitsOf {kind : String} {scopes : List (Nat × EntityKey)} {v : Visit} :
    v ∈ visitsOf kind scopes ↔ v.kind = kind ∧ v.scope ∈ scopes := by
  obtain ⟨kind', scope, effective⟩ := v
  rw [visitsOf, List.mem_flatMap]
  constructor
  · rintro ⟨scope', mem, there⟩
    simp only [List.mem_cons, List.not_mem_nil, or_false, Visit.mk.injEq] at there
    rcases there with ⟨rfl, rfl, -⟩ | ⟨rfl, rfl, -⟩
    · exact ⟨rfl, mem⟩
    · exact ⟨rfl, mem⟩
  · rintro ⟨rfl, mem⟩
    refine ⟨scope, mem, ?_⟩
    cases effective <;> simp

/-- The lists of different groups or projects are different. -/
theorem visitsOf_nodup {kind : String} {scopes : List (Nat × EntityKey)}
    (once : (scopes.map fun scope => scope.2.id).Nodup) :
    ((visitsOf kind scopes).map Visit.label).Nodup := by
  induction scopes with
  | nil => exact List.nodup_nil
  | cons scope scopes ih =>
    rw [List.map_cons, List.nodup_cons] at once
    have other (effective : Bool) :
        (effective, scope.2.id) ∉ (visitsOf kind scopes).map Visit.label := by
      intro mem
      obtain ⟨v, there, same⟩ := List.mem_map.mp mem
      have listed := (mem_visitsOf.mp there).2
      exact once.1 (List.mem_map.mpr ⟨v.scope, listed, congrArg Prod.snd same⟩)
    have split : (visitsOf kind (scope :: scopes)).map Visit.label =
        (false, scope.2.id) :: (true, scope.2.id) :: (visitsOf kind scopes).map Visit.label := rfl
    rw [split, List.nodup_cons, List.nodup_cons]
    refine ⟨?_, other true, ih once.2⟩
    simp [other false]

/-- The keys of different groups, or of different projects, are different. -/
theorem scopes_nodup {kind : String} {scopes : Std.ExtTreeMap Nat EntityKey}
    (keys : ∀ (id : Nat) (k : EntityKey), scopes[id]? = some k → k = key p.id p.scope kind id) :
    (scopes.toList.map fun scope => scope.2.id).Nodup := by
  have same : (scopes.toList.map fun scope => scope.2.id) =
      scopes.keys.map fun id => (key p.id p.scope kind id).id := by
    rw [← Std.ExtTreeMap.map_fst_toList_eq_keys, List.map_map]
    apply List.map_congr_left
    intro scope mem
    rw [keys scope.1 scope.2 (Std.ExtTreeMap.mem_toList_iff_getElem?_eq_some.mp mem)]
    rfl
  rw [same]
  apply Std.ExtTreeMap.nodup_keys.map
  intro id id' eq
  have whole : key p.id p.scope kind id = key p.id p.scope kind id' :=
    congrArg (EntityKey.mk p.id) eq
  exact key_inj_kind whole

theorem adopt_mem {groups : Std.ExtTreeMap Nat EntityKey} {c : Collection}
    (entry : EntityKey × Option Nat) {k : EntityKey} (there : k ∈ c.resources) :
    k ∈ (adopt groups c entry).resources := by
  unfold adopt
  split
  · exact there
  split
  · exact there
  split
  · exact mem_insert_map.mpr (.inr there)
  · exact there

/-- The groups are linked. -/
theorem Stock.adopts {groups : Std.ExtTreeMap Nat EntityKey} {rereads : List (Nat × Option Nat)}
    {c : Collection} {projects : Std.ExtTreeMap Nat EntityKey} (h : Stock p groups rereads c)
    (placed : Placed p c projects) (entries : List (EntityKey × Option Nat)) :
    Stock p groups rereads (entries.foldl (Gitlab.adopt groups) c) ∧
      Placed p (entries.foldl (Gitlab.adopt groups) c) projects := by
  refine List.foldlRecOn (motive := fun c : Collection => Stock p groups rereads c ∧
    Placed p c projects) _ _ ⟨h, placed⟩ fun c' ⟨stock, placed⟩ entry _ => ?_
  refine ⟨stock.adopt entry, fun id k there => ?_⟩
  obtain ⟨key, resource⟩ := placed id k there
  exact ⟨key, adopt_mem entry resource⟩

/-- The lists that are visited are open, and different from each other. -/
theorem Stock.visits {groups : Std.ExtTreeMap Nat EntityKey} {rereads : List (Nat × Option Nat)}
    {c : Collection} {projects : Std.ExtTreeMap Nat EntityKey} (h : Stock p groups rereads c)
    (placed : Placed p c projects) :
    (∀ v ∈ visitsOf "groups" groups.toList ++ visitsOf "projects" projects.toList,
        Open p groups c v) ∧
      ((visitsOf "groups" groups.toList ++ visitsOf "projects" projects.toList).map
        Visit.label).Nodup := by
  have group {scope : Nat × EntityKey} (mem : scope ∈ groups.toList) :
      groups[scope.1]? = some scope.2 := Std.ExtTreeMap.mem_toList_iff_getElem?_eq_some.mp mem
  have project {scope : Nat × EntityKey} (mem : scope ∈ projects.toList) :
      projects[scope.1]? = some scope.2 := Std.ExtTreeMap.mem_toList_iff_getElem?_eq_some.mp mem
  constructor
  · intro v mem
    rcases List.mem_append.mp mem with mem | mem
    · have there := group (mem_visitsOf.mp mem).2
      exact ⟨(h.loaded _ _ there).2.2.2, fun _ => ⟨v.scope.1, there⟩⟩
    · obtain ⟨kind, mem⟩ := mem_visitsOf.mp mem
      exact ⟨(placed _ _ (project mem)).2, fun other => absurd (kind.symm.trans other) (by decide)⟩
  · rw [List.map_append, List.nodup_append]
    refine ⟨visitsOf_nodup (scopes_nodup fun id k there => (h.loaded id k there).2.1),
      visitsOf_nodup (scopes_nodup fun id k there => (placed id k there).1), ?_⟩
    intro a mem b mem' eq
    subst eq
    obtain ⟨v, listed, rfl⟩ := List.mem_map.mp mem
    obtain ⟨v', listed', same⟩ := List.mem_map.mp mem'
    have key := (h.loaded _ _ (group (mem_visitsOf.mp listed).2)).2.1
    have key' := (placed _ _ (project (mem_visitsOf.mp listed').2)).1
    have ids : v'.scope.2.id = v.scope.2.id := congrArg Prod.snd same
    rw [key, key'] at ids
    exact group_ne_project _ _ (congrArg (EntityKey.mk p.id) ids.symm)

/-- **The stock of a run.** -/
theorem stocked_stock {time : String} {m m' : Meter} {c : Collection} {visits : List Visit}
    (h : p.stocked time m = (.ok (c, visits), m')) :
    ∃ groups, Stock p groups (p.rereads time m).1 c ∧ (∀ v ∈ visits, Open p groups c v) ∧
      (visits.map Visit.label).Nodup := by
  have stock := loadGroups_stock p time m
  unfold Provider.stocked at h
  unfold Provider.rereads
  rw [run_bind] at h ⊢
  generalize p.loadGroups time m = run at h stock ⊢
  obtain ⟨s, m₁⟩ := run
  dsimp only at h stock ⊢
  rw [run_bind] at h ⊢
  have listed := foldlM_keeps (I := fun found : Collection × Std.ExtTreeSet Nat compare =>
      Stock p s.groups [] found.1) (f := p.listProjects)
    (fun found group m stock => stock.listProjects group m) s.groups.keys (b := (s.collection, ∅)) m₁
    stock
  generalize s.groups.keys.foldlM p.listProjects (s.collection, ∅) m₁ = run at h listed ⊢
  obtain ⟨⟨c₁, found⟩, m₂⟩ := run
  dsimp only at h listed ⊢
  split at h
  · cases h
  rw [run_bind] at h
  obtain ⟨⟨c₂, projects⟩, rereads, m₃, ⟨stock, placed⟩, projected, reread⟩ := foldlM_both
    (R := fun (found : Collection × Std.ExtTreeMap Nat EntityKey compare)
      (rereads : List (Nat × Option Nat)) =>
      Stock p s.groups rereads found.1 ∧ Placed p found.1 found.2)
    (f := p.loadProject s.groups)
    (fun found rereads id m ⟨stock, placed⟩ => stock.loadProject placed id m)
    (p.projectIds.foldl (·.insert ·) found).toList m₂ (b := (c₁, ∅)) (c := []) ⟨listed, by
      intro id k there
      rw [Std.ExtTreeMap.getElem?_empty] at there
      cases there⟩
  rw [projected] at h
  rw [reread]
  dsimp only at h stock placed ⊢
  obtain ⟨stock, placed⟩ := stock.adopts placed s.parents.toList
  split at h
  · cases h
  · cases h
    exact ⟨s.groups, stock, stock.visits placed⟩

/-! ## Snapshots -/

/-- Everything in a snapshot is in scope, and refers to what is in the snapshot. -/
structure Confined (p : Provider) (rereads : List (Nat × Option Nat)) (s : Snapshot) : Prop where
  /-- A project that was not asked for is in a group of the snapshot, as its own document says. -/
  resources : ∀ r ∈ s.resources, IsGroup p r ∨ IsProject p (fun id => id ∈ p.groupIds ∧
    ∃ group ∈ s.resources, group.key = key p.id p.scope "group" id ∧ IsGroup p group) rereads r
  parents : ∀ r ∈ s.resources, ∀ above, r.parent = some above →
    ∃ group ∈ s.resources, group.key = above ∧ IsGroup p group
  memberships : ∀ x ∈ s.memberships,
    (∃ a ∈ s.accounts, x.member = .account a.key) ∧ ∃ group ∈ s.groups, x.group = group.key
  subjects : ∀ g ∈ s.grants, ∃ a ∈ s.accounts, g.subject = .account a.key
  targets : ∀ g ∈ s.grants, ∃ r ∈ s.resources, g.resource = r.key
  once : (s.grants.map Grant.id).Nodup

theorem Confined.sort {rereads : List (Nat × Option Nat)} {s : Snapshot}
    (h : Confined p rereads s) (core : Core) : Confined p rereads (core.sort s) := by
  constructor
  · simpa using h.resources
  · simpa using h.parents
  · simpa using h.memberships
  · simpa using h.subjects
  · simpa using h.targets
  · exact ((core.grants_perm _).map _).nodup_iff.mpr h.once

/-- **What is gathered is confined.** -/
theorem Stock.confined {groups : Std.ExtTreeMap Nat EntityKey} {rereads : List (Nat × Option Nat)}
    {c₀ c : Collection} {visits : List Visit} (stock : Stock p groups rereads c₀)
    (opened : ∀ v ∈ visits, Open p groups c₀ v) (fed : Fed p c₀ (fun v _ => v ∈ visits) c) :
    Confined p rereads c.graph := by
  have resource {r : Resource} : r ∈ c.graph.resources ↔ ∃ k : EntityKey, c₀.resources[k]? = some r := by
    rw [← fed.resources]
    exact mem_values
  have group {id : Nat} {k : EntityKey} (there : groups[id]? = some k) :
      id ∈ p.groupIds ∧ k = key p.id p.scope "group" id ∧
        ∃ r ∈ c.graph.resources, r.key = k ∧ IsGroup p r := by
    obtain ⟨asked, rfl, -, loaded⟩ := stock.loaded id k there
    rw [Std.ExtTreeMap.mem_iff_isSome_getElem?, Option.isSome_iff_exists] at loaded
    obtain ⟨r, loaded⟩ := loaded
    have own := stock.keyed _ r loaded
    refine ⟨asked, rfl, r, resource.mpr ⟨_, loaded⟩, own, ?_⟩
    rcases stock.resources _ r loaded with isGroup | isProject
    · exact isGroup
    · obtain ⟨id', -, other, -⟩ := isProject.placed
      exact absurd (own.symm.trans other) (group_ne_project id id')
  have account {k : EntityKey} (seen : Seen c.accounts c.blocked k) (kept : k ∉ c.blocked) :
      ∃ a ∈ c.graph.accounts, a.key = k := by
    have there := seen.resolve_right kept
    rw [Std.ExtTreeMap.mem_iff_isSome_getElem?, Option.isSome_iff_exists] at there
    obtain ⟨a, there⟩ := there
    exact ⟨a, mem_values.mpr ⟨k, there⟩, fed.accounts k a there⟩
  constructor
  · intro r mem
    obtain ⟨k, there⟩ := resource.mp mem
    apply (stock.resources k r there).imp_right
    intro project
    refine project.mono (fun id loaded => ?_) fun _ mem => mem
    rw [Std.ExtTreeMap.mem_iff_isSome_getElem?, Option.isSome_iff_exists] at loaded
    obtain ⟨k, loaded⟩ := loaded
    obtain ⟨asked, rfl, found⟩ := group loaded
    exact ⟨asked, found⟩
  · intro r mem above names
    obtain ⟨k, there⟩ := resource.mp mem
    obtain ⟨id, known⟩ := stock.parents k r there above names
    exact (group known).2.2
  · intro x mem
    obtain ⟨there, kept⟩ := List.mem_filter.mp mem
    obtain ⟨k, there⟩ := mem_values.mp there
    obtain ⟨v, id, visited, direct, member, into, seen⟩ := fed.memberships k x there
    rw [member] at kept
    constructor
    · obtain ⟨a, there, own⟩ := account seen (of_decide_eq_true kept)
      exact ⟨a, there, by rw [member, own]⟩
    · obtain ⟨id', known⟩ := (opened v visited).group direct
      obtain ⟨-, -, listed, -⟩ := stock.loaded id' _ known
      rw [← fed.groups, Std.ExtTreeMap.mem_iff_isSome_getElem?, Option.isSome_iff_exists] at listed
      obtain ⟨g, listed⟩ := listed
      have named := stock.named
      rw [← fed.groups] at named
      exact ⟨g, mem_values.mpr ⟨_, listed⟩, into.trans (named _ g listed).symm⟩
  · intro g mem
    obtain ⟨there, kept⟩ := List.mem_filter.mp mem
    obtain ⟨k, there⟩ := mem_values.mp there
    obtain ⟨-, v, id, -, -, subject, -, seen⟩ := fed.grants k g there
    rw [subject] at kept
    obtain ⟨a, there, own⟩ := account seen (of_decide_eq_true kept)
    exact ⟨a, there, by rw [subject, own]⟩
  · intro g mem
    obtain ⟨k, there⟩ := mem_values.mp (List.mem_filter.mp mem).1
    obtain ⟨-, v, id, visited, -, -, target, -⟩ := fed.grants k g there
    have listed := (opened v visited).resource
    rw [Std.ExtTreeMap.mem_iff_isSome_getElem?, Option.isSome_iff_exists] at listed
    obtain ⟨r, listed⟩ := listed
    exact ⟨r, resource.mpr ⟨_, listed⟩, target.trans (stock.keyed _ r listed).symm⟩
  · have keyed : KeyedBy Grant.id c.grants := fun k g there => (fed.grants k g there).1
    exact keyed.nodup.sublist (List.filter_sublist.map _)

/-- **Snapshots are confined and closed.** A collection that reaches `finish` is confined, and so is
the snapshot that is returned. No call of `member` changes a grant that is in the collection. -/
theorem collect_confined (p : Provider) (core : Core) (time : String) (m : Meter) (c : Collection)
    (gathered : (p.gather time m).1 = .ok c) :
    Confined p (p.rereads time m).1 c.graph ∧
      (∀ s, (p.collect core time m).1 = .ok s → Confined p (p.rereads time m).1 s) ∧
      ∀ c' v value, Calls p time m c' v value → ∀ (calendar : Calendar) (k : String) (g : Grant),
        c'.grants[k]? = some g →
        (c'.member calendar v.scope.2 (v.kind == "groups") v.effective value).2.grants[k]? =
          some g := by
  have split := gathered
  rw [gather_stocked] at split
  cases stocked : p.stocked time m with
  | mk result m₀ =>
    rw [stocked] at split
    cases result with
    | error e => cases split
    | ok start =>
      obtain ⟨c₀, visits⟩ := start
      obtain ⟨groups, stock, opened, once⟩ := stocked_stock stocked
      cases split
      have confined := stock.confined opened (stock.fed.visits visits m₀)
      refine ⟨confined, fun s ok => ?_, fun c' v value calls calendar k g there =>
        grants_stay stocked stock.fed once calls calendar there⟩
      rw [Provider.collect_fst, gathered] at ok
      change Collection.finish core _ = .ok s at ok
      unfold Collection.finish at ok
      dsimp only at ok
      split at ok
      · cases ok
      split at ok
      · cases ok
      · cases ok
        exact confined.sort core

/-- A project of group 1. -/
def projectDocument (id : Nat) : Value :=
  .object [("id", .number (.posInt id)), ("path_with_namespace", .string "team/app"),
    ("namespace", .object [("kind", .string "group"), ("id", .number (.posInt 1))])]

def memberDocument (id : Nat) : Value :=
  .object [("id", .number (.posInt id)), ("username", .string "ann"), ("state", .string "active"),
    ("access_level", .number (.posInt 30))]

/-- A server with group 1, its project 20, and a member of both. -/
def teamProvider : Provider :=
  { familyProvider 1 1 with
    groupIds := [1]
    client := { (familyProvider 1 1).client with
      net := {
        server := fun request => .answered ⟨200, [], none, [[request.toUInt8]], false⟩
        decode := fun bytes => some (
          if bytes = [1] then groupDocument 1 3
          else if bytes = [2] then .array [projectDocument 20]
          else if bytes = [3] then projectDocument 20
          else .array [memberDocument 7]) } } }

theorem team_confined : ∃ c, (teamProvider.gather "" .new).1 = .ok c ∧
    c.graph.grants.length = 4 ∧ Confined teamProvider (teamProvider.rereads "" .new).1 c.graph := by
  have gathers : (teamProvider.gather "" .new).1.toOption.map (fun c => c.graph.grants.length) =
      some 4 := by
    decide +kernel
  cases gathered : (teamProvider.gather "" .new).1 with
  | error e =>
    rw [gathered] at gathers
    cases gathers
  | ok c =>
    rw [gathered] at gathers
    exact ⟨c, rfl, Option.some.inj gathers,
      (collect_confined teamProvider Core.plain "" .new c gathered).1⟩

end Permesh.Gitlab

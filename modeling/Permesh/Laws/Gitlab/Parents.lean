import Permesh.Gitlab.Discovery
import Permesh.Laws.Gitlab.Suppression
import Permesh.Lib.Fold
import Permesh.Lib.Links
import Permesh.Lib.Program

/-!
# Laws.Gitlab.Parents — the groups above the groups

The parent of a group is read in a request of its own, and the groups are linked when all of them have
been read. A group that names itself is left out of the links and recorded as a failure; nothing
rules out longer cycles. So the parents of a collection end exactly when the responses have no
cycle through several groups (`parents_end_iff`).

The links of a collection are those of the responses without the ones from a group to itself, so both
have the same longer cycles. Whether a core rejects a cycle is up to it; the theorem says when there is
none.
-/

namespace Permesh.Gitlab

open Permesh.Json Permesh.Http Permesh.Lib

/-! ## Keys of groups and projects -/

theorem key_inj_kind {inst scope kind : String} {id id' : Nat}
    (h : key inst scope kind id = key inst scope kind id') : id = id' := by
  have h := (EntityKey.mk.inj h).2
  exact Text.toString_injective ((String.append_right_inj _).mp h)

/-- No group has the key of a project. -/
theorem group_ne_project {inst scope : String} (id id' : Nat) :
    key inst scope "group" id ≠ key inst scope "project" id' := by
  intro h
  have h := congrArg String.toList (EntityKey.mk.inj h).2
  have group : "group".toList = ['g', 'r', 'o', 'u', 'p'] := by decide
  have project : "project".toList = ['p', 'r', 'o', 'j', 'e', 'c', 't'] := by decide
  simp only [String.toList_append, List.append_assoc, List.append_cancel_left_eq] at h
  rw [show (toString "group").toList = _ from group, show (toString "project").toList = _ from project,
    List.cons_append, List.cons_append] at h
  exact absurd (List.cons.inj h).1 (by decide)

/-! ## Links -/

/-- The parent of a resource of a collection. -/
def parentOf (resources : Std.ExtTreeMap EntityKey Resource) (k : EntityKey) : Option EntityKey :=
  resources[k]?.bind (·.parent)

/-- What the responses to the requests for groups say: the groups that were loaded, with the group
that each of them names as its parent. -/
def Provider.answers (p : Provider) : Op (List (Nat × Option Nat)) :=
  p.groupIds.foldlM (fun answers id => do
    match ← (p.load "group" id).run with
    | .ok (_, parent) => return answers ++ [(id, parent)]
    | .error _ => return answers) []

/-- The group that a group names as its parent, if it is another one of the loaded groups. -/
def named (answers : List (Nat × Option Nat)) (id : Nat) : Option Nat :=
  (answers.reverse.find? (·.1 == id)).bind fun answer =>
    answer.2.filter fun above => above != id && answers.any (·.1 == above)

/-! ## Groups that are loaded -/

/-- The scopes of the groups that were loaded, with what their responses say. -/
structure Loaded (p : Provider) (answers : List (Nat × Option Nat)) (s : Scopes) : Prop where
  groups : ∀ id, s.groups[id]? =
    if answers.any (·.1 == id) then some (key p.id p.scope "group" id) else none
  parents : ∀ id, s.parents[key p.id p.scope "group" id]? =
    (answers.reverse.find? (·.1 == id)).map Prod.snd
  keys : ∀ k ∈ s.parents, ∃ id, k = key p.id p.scope "group" id
  present : ∀ id, answers.any (·.1 == id) → key p.id p.scope "group" id ∈ s.collection.resources
  resources : ∀ k r, s.collection.resources[k]? = some r →
    r.key = k ∧ r.parent = none ∧ ∃ id, k = key p.id p.scope "group" id

theorem resource_ok {inst scope kind : String} {id : Nat} {value : Value} {r : Resource}
    (h : resource inst scope kind id value = .ok r) :
    r.key = key inst scope kind id ∧ r.parent = none ∧ r.kind = some s!"gitlab.{kind}" := by
  unfold resource at h
  obtain ⟨native, -, h⟩ := bind_ok h
  dsimp only at h
  split at h
  · cases h
  obtain ⟨label, -, h⟩ := bind_ok h
  cases h
  exact ⟨rfl, rfl, rfl⟩

/-- What one group adds to the scopes. -/
theorem Loaded.answer {p : Provider} {answers : List (Nat × Option Nat)} {s : Scopes}
    (loaded : Loaded p answers s) {id : Nat} {r : Resource} (parent : Option Nat)
    (hk : r.key = key p.id p.scope "group" id) (hp : r.parent = none) :
    Loaded p (answers ++ [(id, parent)]) {
      collection := { s.collection with
        groups := s.collection.groups.insert r.key ⟨r.key, r.name⟩
        resources := s.collection.resources.insert r.key r }
      groups := s.groups.insert id r.key
      parents := s.parents.insert r.key parent } := by
  rw [hk]
  constructor
  · intro id'
    rw [getElem?_insert_key, loaded.groups, List.any_append]
    by_cases same : id = id'
    · simp [same]
    · rw [if_neg same, List.any_cons, beq_false_of_ne same, List.any_nil, Bool.or_false, Bool.or_false]
  · intro id'
    rw [getElem?_insert_key, loaded.parents, List.reverse_append, List.reverse_singleton,
      List.singleton_append, List.find?_cons]
    by_cases same : id = id'
    · simp [same]
    · rw [if_neg fun h => same (key_inj_kind h), beq_false_of_ne same]
  · intro k hk'
    rcases mem_insert_map.mp hk' with rfl | hk'
    · exact ⟨id, rfl⟩
    · exact loaded.keys k hk'
  · intro id' answered
    rw [mem_insert_map]
    rw [List.any_append, Bool.or_eq_true] at answered
    rcases answered with answered | answered
    · exact .inr (loaded.present id' answered)
    · have same : id = id' := by simpa using answered
      exact .inl (same ▸ rfl)
  · intro k r' hr
    rw [getElem?_insert_key] at hr
    split at hr
    case isTrue same =>
      cases hr
      exact ⟨hk.trans same, hp, id, same.symm⟩
    case isFalse => exact loaded.resources k r' hr

theorem loaded_new (p : Provider) (time : String) : Loaded p [] ⟨.new p.id p.scope time, ∅, ∅⟩ where
  groups _ := rfl
  parents _ := rfl
  keys k hk := absurd hk Std.ExtTreeMap.not_mem_empty
  present _ h := by cases h
  resources k r hr := by
    change (∅ : Std.ExtTreeMap EntityKey Resource)[k]? = some r at hr
    rw [Std.ExtTreeMap.getElem?_empty] at hr
    cases hr

theorem load_ok {p : Provider} {kind : String} {id : Nat} {m : Meter}
    {found : Resource × Option Nat} (h : ((p.load kind id).run m).1 = .ok found) :
    found.1.key = key p.id p.scope kind id ∧ found.1.parent = none ∧
      found.1.kind = some s!"gitlab.{kind}" := by
  unfold Provider.load at h
  rw [ExceptT.run_bind, run_bind] at h
  cases hr : ((p.request s!"{kind}s/{id}").run m).1 with
  | error e =>
    rw [hr] at h
    cases h
  | ok value =>
    rw [hr] at h
    cases hv : resource p.id p.scope kind id value with
    | error e =>
      simp only [hv] at h
      cases h
    | ok r =>
      simp only [hv] at h
      cases hp : parent value kind with
      | error e =>
        simp only [hp] at h
        cases h
      | ok above =>
        simp only [hp] at h
        cases h
        exact resource_ok hv

/-- A group is loaded into the scopes as it is answered. -/
theorem loadGroup_answer (p : Provider) {answers : List (Nat × Option Nat)} {s : Scopes}
    (loaded : Loaded p answers s) (id : Nat) (m : Meter) :
    ∃ answers' s' m', Loaded p answers' s' ∧ p.loadGroup s id m = (s', m') ∧
      (do match ← (p.load "group" id).run with
          | .ok (_, parent) => return answers ++ [(id, parent)]
          | .error _ => return answers : Op _) m = (answers', m') := by
  unfold Provider.loadGroup
  rw [run_bind, run_bind]
  cases hl : ((p.load "group" id).run m).1 with
  | error e =>
    exact ⟨answers, { s with collection := s.collection.fail e }, _, ⟨loaded.groups, loaded.parents,
      loaded.keys, loaded.present, loaded.resources⟩, rfl, rfl⟩
  | ok found =>
    obtain ⟨r, parent⟩ := found
    obtain ⟨key, root, -⟩ := load_ok hl
    exact ⟨_, _, _, loaded.answer parent key root, rfl, rfl⟩

/-- The scopes of a run are those of its answers. -/
theorem loadGroups_loaded (p : Provider) (time : String) (m : Meter) :
    Loaded p (p.answers m).1 (p.loadGroups time m).1 := by
  obtain ⟨s, answers, m', loaded, hs, ha⟩ := foldlM_both (f := p.loadGroup)
    (R := fun s answers => Loaded p answers s) (fun s answers id m loaded => by
      obtain ⟨answers', s', m', loaded, hs, ha⟩ := loadGroup_answer p loaded id m
      exact ⟨s', answers', m', loaded, hs, ha⟩) p.groupIds m (loaded_new p time)
  unfold Provider.answers Provider.loadGroups
  rw [hs, ha]
  exact loaded

/-! ## Joining the groups -/

section

variable {p : Provider} {answers : List (Nat × Option Nat)}

/-- The resources before the groups are joined: a group has no parent, and a project has none or one
of the groups. -/
structure Staged (p : Provider) (answers : List (Nat × Option Nat))
    (resources : Std.ExtTreeMap EntityKey Resource) : Prop where
  keyed : KeyedBy Resource.key resources
  root : ∀ id, parentOf resources (key p.id p.scope "group" id) = none
  present : ∀ id, answers.any (·.1 == id) → key p.id p.scope "group" id ∈ resources
  other : ∀ k above, parentOf resources k = some above →
    ∃ id, above = key p.id p.scope "group" id

theorem Loaded.staged {s : Scopes} (loaded : Loaded p answers s) :
    Staged p answers s.collection.resources := by
  have none (k : EntityKey) : parentOf s.collection.resources k = none := by
    unfold parentOf
    cases hr : s.collection.resources[k]? with
    | none => rfl
    | some r => exact (loaded.resources k r hr).2.1
  exact ⟨fun k r hr => (loaded.resources k r hr).1, fun id => none _, loaded.present,
    fun k above h => by rw [none] at h; cases h⟩

theorem Staged.project {resources : Std.ExtTreeMap EntityKey Resource}
    (staged : Staged p answers resources) {id : Nat} {r : Resource}
    (hk : r.key = key p.id p.scope "project" id)
    (hp : ∀ above, r.parent = some above → ∃ id, above = key p.id p.scope "group" id) :
    Staged p answers (resources.insert r.key r) := by
  have parent (k : EntityKey) : parentOf (resources.insert r.key r) k =
      if r.key = k then r.parent else parentOf resources k := by
    unfold parentOf
    rw [getElem?_insert_key]
    split <;> rfl
  refine ⟨staged.keyed.insert rfl, fun id' => ?_, fun id' answered => ?_, fun k above h => ?_⟩
  · rw [parent, if_neg fun h => group_ne_project id' id (h.symm.trans hk)]
    exact staged.root id'
  · exact mem_insert_map.mpr (.inr (staged.present id' answered))
  · rw [parent] at h
    split at h
    · exact hp above h
    · exact staged.other k above h

/-- The parent that an entry brings to its group. -/
def adopted (groups : Std.ExtTreeMap Nat EntityKey) (entry : EntityKey × Option Nat) :
    Option EntityKey :=
  (entry.2.bind fun id => groups[id]?).filter (· ≠ entry.1)

theorem adopt_parent (groups : Std.ExtTreeMap Nat EntityKey) (c : Collection)
    (entry : EntityKey × Option Nat) (k : EntityKey) :
    (k ∈ (adopt groups c entry).resources ↔ k ∈ c.resources) ∧
    parentOf (adopt groups c entry).resources k =
      if k = entry.1 ∧ k ∈ c.resources then (adopted groups entry).or (parentOf c.resources k)
      else parentOf c.resources k := by
  unfold adopt adopted
  cases entry.2.bind fun id => groups[id]? with
  | none => simp
  | some parent =>
    dsimp only
    by_cases own : parent = entry.1
    · have filtered : (some parent).filter (fun above => above ≠ entry.1) = none := by
        simp [own]
      rw [if_pos own, filtered]
      simp [Collection.fail]
    have filtered : (some parent).filter (fun above => above ≠ entry.1) = some parent := by
      simp [own]
    rw [if_neg own, filtered, Option.some_or]
    cases hr : c.resources[entry.1]? with
    | none =>
      have absent : entry.1 ∉ c.resources := by
        intro mem
        rw [Std.ExtTreeMap.mem_iff_isSome_getElem?, hr] at mem
        cases mem
      refine ⟨Iff.rfl, ?_⟩
      rw [if_neg (by rintro ⟨rfl, mem⟩; exact absent mem)]
    | some r =>
      have mem : entry.1 ∈ c.resources := by
        rw [Std.ExtTreeMap.mem_iff_isSome_getElem?, hr]
        rfl
      constructor
      · rw [mem_insert_map]
        exact ⟨fun h => h.elim (fun eq => eq ▸ mem) id, .inr⟩
      · unfold parentOf
        rw [getElem?_insert_key]
        by_cases here : k = entry.1
        · subst here
          rw [if_pos rfl, if_pos ⟨rfl, mem⟩]
          rfl
        · rw [if_neg (Ne.symm here), if_neg fun h => here h.1]

theorem adopt_keyed (groups : Std.ExtTreeMap Nat EntityKey) (c : Collection)
    (entry : EntityKey × Option Nat) (keyed : KeyedBy Resource.key c.resources) :
    KeyedBy Resource.key (adopt groups c entry).resources := by
  unfold adopt
  split
  · exact keyed
  · split
    · exact keyed
    · split
      case h_1 r hr => exact keyed.insert (keyed entry.1 r hr)
      case h_2 => exact keyed

/-- Each entry brings a parent to its own group. -/
theorem adopt_parents (groups : Std.ExtTreeMap Nat EntityKey)
    (entries : List (EntityKey × Option Nat)) (nodup : (entries.map Prod.fst).Nodup)
    (c : Collection) (k : EntityKey) :
    (k ∈ (entries.foldl (adopt groups) c).resources ↔ k ∈ c.resources) ∧
    (k ∉ entries.map Prod.fst →
      parentOf (entries.foldl (adopt groups) c).resources k = parentOf c.resources k) ∧
    ∀ above, (k, above) ∈ entries → k ∈ c.resources → parentOf c.resources k = none →
      parentOf (entries.foldl (adopt groups) c).resources k = adopted groups (k, above) := by
  induction entries generalizing c with
  | nil => exact ⟨Iff.rfl, fun _ => rfl, fun _ h => by cases h⟩
  | cons entry entries ih =>
    rw [List.map_cons, List.nodup_cons] at nodup
    obtain ⟨stays, parent⟩ := adopt_parent groups c entry k
    obtain ⟨stays', others, own⟩ := ih nodup.2 (adopt groups c entry)
    rw [List.foldl_cons]
    refine ⟨stays'.trans stays, fun absent => ?_, fun above mem here root => ?_⟩
    · rw [List.map_cons, List.mem_cons, not_or] at absent
      rw [others absent.2, parent, if_neg fun h => absent.1 h.1]
    · rcases List.mem_cons.mp mem with rfl | mem
      · rw [others nodup.1, parent, if_pos ⟨rfl, here⟩, root, Option.or_none]
      · have ne : k ≠ entry.1 := by
          rintro rfl
          exact nodup.1 (List.mem_map.mpr ⟨_, mem, rfl⟩)
        rw [own above mem (stays.mpr here) (by rw [parent, if_neg fun h => ne h.1, root])]

/-- An entry that brings its group itself as a parent is recorded as a failure. -/
theorem adopt_own (groups : Std.ExtTreeMap Nat EntityKey) (entries : List (EntityKey × Option Nat))
    (c : Collection) (own : c.snapshot.complete = false ∨
      ∃ entry ∈ entries, (entry.2.bind fun id => groups[id]?) = some entry.1) :
    (entries.foldl (adopt groups) c).snapshot.complete = false := by
  induction entries generalizing c with
  | nil =>
    rcases own with failed | ⟨entry, mem, -⟩
    · exact failed
    · cases mem
  | cons entry entries ih =>
    rw [List.foldl_cons]
    apply ih _
    rcases own with failed | ⟨entry', mem, own⟩
    · refine .inl ?_
      unfold adopt
      split
      · exact failed
      · split
        · rfl
        · split <;> exact failed
    · rcases List.mem_cons.mp mem with rfl | mem
      · refine .inl ?_
        unfold adopt
        rw [own]
        dsimp only
        rw [if_pos rfl]
        rfl
      · exact .inr ⟨entry', mem, own⟩

/-- The resources when the groups are joined. -/
structure Linked (p : Provider) (answers : List (Nat × Option Nat))
    (resources : Std.ExtTreeMap EntityKey Resource) : Prop where
  keyed : KeyedBy Resource.key resources
  group : ∀ id, parentOf resources (key p.id p.scope "group" id) =
    (named answers id).map (key p.id p.scope "group")
  other : ∀ k above, parentOf resources k = some above →
    ∃ id, above = key p.id p.scope "group" id

theorem Loaded.joined {s : Scopes} (loaded : Loaded p answers s) {c : Collection}
    (staged : Staged p answers c.resources) :
    Linked p answers (s.parents.toList.foldl (adopt s.groups) c).resources := by
  have nodup : (s.parents.toList.map Prod.fst).Nodup := by
    rw [Std.ExtTreeMap.map_fst_toList_eq_keys]
    exact Std.ExtTreeMap.nodup_keys
  have spec := adopt_parents s.groups s.parents.toList nodup c
  have entry {k : EntityKey} {above : Option Nat} :
      (k, above) ∈ s.parents.toList ↔ s.parents[k]? = some above :=
    Std.ExtTreeMap.mem_toList_iff_getElem?_eq_some
  have group (id : Nat) : parentOf (s.parents.toList.foldl (adopt s.groups) c).resources
      (key p.id p.scope "group" id) = (named answers id).map (key p.id p.scope "group") := by
    have parents := loaded.parents id
    cases hf : answers.reverse.find? (·.1 == id) with
    | none =>
      rw [hf] at parents
      have absent : key p.id p.scope "group" id ∉ s.parents.toList.map Prod.fst := by
        intro mem
        obtain ⟨⟨k, above⟩, mem, rfl⟩ := List.mem_map.mp mem
        cases parents.symm.trans (entry.mp mem)
      rw [(spec _).2.1 absent, staged.root, named, hf]
      rfl
    | some answer =>
      rw [hf] at parents
      have answered : answers.any (·.1 == id) := List.any_eq_true.mpr
        ⟨answer, List.mem_reverse.mp (List.mem_of_find?_eq_some hf), by
          simpa using List.find?_some hf⟩
      rw [(spec _).2.2 answer.2 (entry.mpr parents) (staged.present id answered) (staged.root id),
        named, hf, Option.bind_some, adopted]
      cases answer.2 with
      | none => rfl
      | some above =>
        rw [Option.bind_some, loaded.groups]
        by_cases known : answers.any (·.1 == above) = true
        · rw [if_pos known, Option.filter_some, Option.filter_some, known]
          by_cases own : above = id
          · simp [own]
          · have ne : key p.id p.scope "group" above ≠ key p.id p.scope "group" id :=
              fun h => own (key_inj_kind h)
            simp [own, ne]
        · rw [if_neg known, Option.filter_some, if_neg fun h => known (Bool.and_eq_true_iff.mp h).2]
          rfl
  have keyed : KeyedBy Resource.key (s.parents.toList.foldl (adopt s.groups) c).resources :=
    List.foldlRecOn (motive := fun c : Collection => KeyedBy Resource.key c.resources) _ _
      staged.keyed fun c keyed entry _ => adopt_keyed s.groups c entry keyed
  refine ⟨keyed, group, fun k above h => ?_⟩
  by_cases isGroup : ∃ id, k = key p.id p.scope "group" id
  · obtain ⟨id, rfl⟩ := isGroup
    rw [group] at h
    obtain ⟨above', -, rfl⟩ := Option.map_eq_some_iff.mp h
    exact ⟨above', rfl⟩
  · have absent : k ∉ s.parents.toList.map Prod.fst := by
      intro mem
      obtain ⟨⟨k', above'⟩, listed, rfl⟩ := List.mem_map.mp mem
      refine isGroup (loaded.keys k' ?_)
      rw [Std.ExtTreeMap.mem_iff_isSome_getElem?, entry.mp listed]
      rfl
    rw [(spec k).2.1 absent] at h
    exact staged.other k above h

/-! ## Whole collections -/

/-- A collection that goes on with the same resources, and does not forget a failure. -/
structure Stays (c c' : Collection) : Prop where
  resources : c'.resources = c.resources
  failed : c.snapshot.complete = false → c'.snapshot.complete = false

theorem Stays.refl (c : Collection) : Stays c c := ⟨rfl, id⟩

theorem Stays.trans {c c' c'' : Collection} (first : Stays c c') (then_ : Stays c' c'') :
    Stays c c'' :=
  ⟨then_.resources.trans first.resources, fun h => then_.failed (first.failed h)⟩

theorem stays_fail (c : Collection) (failure : ProviderError) : Stays c (c.fail failure) :=
  ⟨rfl, fun _ => rfl⟩

theorem stays_note (c : Collection) (failure : Option ProviderError) : Stays c (c.note failure) := by
  cases failure with
  | none => exact .refl c
  | some failure => exact stays_fail c failure

theorem stays_member (calendar : Calendar) (c : Collection) (resource : EntityKey)
    (group effective : Bool) (value : Value) :
    Stays c (c.member calendar resource group effective value).2 := by
  unfold Collection.member
  split
  · exact .refl c
  · split
    · exact .refl c
    · split
      · exact ⟨rfl, id⟩
      · split
        · exact .refl c
        · unfold Collection.record
          dsimp only
          split <;> split <;> exact ⟨rfl, id⟩

theorem stays_memberList (p : Provider) (kind : String) (scope : Nat × EntityKey) (c : Collection)
    (effective : Bool) (m : Meter) : Stays c (p.memberList kind scope c effective m).1 := by
  unfold Provider.memberList
  rw [run_bind, run_bind]
  apply List.foldlRecOn (motive := Stays c) _ _ (stays_note c _)
  intro c' stays value _
  split
  case h_1 failure c'' hm =>
    have member : Stays c' c'' := (show _ = c'' from congrArg Prod.snd hm) ▸ stays_member ..
    exact stays.trans (member.trans (stays_fail c'' failure))
  case h_2 c'' hm =>
    have member : Stays c' c'' := (show _ = c'' from congrArg Prod.snd hm) ▸ stays_member ..
    exact stays.trans member

theorem stays_members (p : Provider) (kind : String) (c : Collection)
    (l : List (Nat × EntityKey)) (m : Meter) : Stays c (l.foldlM (p.members kind) c m).1 :=
  foldlM_keeps (I := Stays c) (fun _ scope m stays =>
    foldlM_keeps (I := Stays c) (fun c'' effective m stays =>
      stays.trans (stays_memberList p kind scope c'' effective m)) _ m stays) l m (.refl c)

theorem stays_listProjects (p : Provider) (found : Collection × Std.ExtTreeSet Nat) (group : Nat)
    (m : Meter) : Stays found.1 (p.listProjects found group m).1.1 := by
  unfold Provider.listProjects
  rw [run_bind]
  refine List.foldlRecOn
    (motive := fun found' : Collection × Std.ExtTreeSet Nat => Stays found.1 found'.1) _ _ ?_ ?_
  · exact stays_note found.1 _
  · intro found' stays value _
    apply stays.trans
    unfold listProject
    split
    · exact .refl _
    · exact stays_fail _ _

theorem loadProject_staged (p : Provider) {answers : List (Nat × Option Nat)} {s : Scopes}
    (loaded : Loaded p answers s) (found : Collection × Std.ExtTreeMap Nat EntityKey) (id : Nat)
    (m : Meter) (staged : Staged p answers found.1.resources) :
    Staged p answers (p.loadProject s.groups found id m).1.1.resources := by
  unfold Provider.loadProject
  rw [run_bind]
  cases hl : ((p.load "project" id).run m).1 with
  | error e => exact staged
  | ok project =>
    obtain ⟨r, parent⟩ := project
    dsimp only
    split
    · exact staged
    · refine Staged.project (r := { r with parent := parent.bind fun id => s.groups[id]? }) staged
        (load_ok hl).1 fun above h => ?_
      obtain ⟨id', -, hg⟩ := Option.bind_eq_some_iff.mp h
      rw [loaded.groups] at hg
      split at hg
      · cases hg
        exact ⟨id', rfl⟩
      · cases hg

/-- A group that was loaded names itself as its parent. -/
def NamesItself (answers : List (Nat × Option Nat)) (id : Nat) : Prop :=
  answers.reverse.find? (·.1 == id) = some (id, some id)

theorem Loaded.own {s : Scopes} (loaded : Loaded p answers s) {id : Nat}
    (own : NamesItself answers id) (c : Collection) :
    (s.parents.toList.foldl (adopt s.groups) c).snapshot.complete = false := by
  refine adopt_own s.groups _ c (.inr ⟨(key p.id p.scope "group" id, some id), ?_, ?_⟩)
  · rw [Std.ExtTreeMap.mem_toList_iff_getElem?_eq_some, loaded.parents, own]
    rfl
  · have answered : answers.any (·.1 == id) := List.any_eq_true.mpr
      ⟨_, List.mem_reverse.mp (List.mem_of_find?_eq_some own), beq_self_eq_true id⟩
    rw [Option.bind_some, loaded.groups, if_pos answered]

/-- The resources that are gathered are linked as the responses say. -/
theorem gather_linked (p : Provider) {time : String} {m : Meter} {c : Collection}
    (h : (p.gather time m).1 = .ok c) : Linked p (p.answers m).1 c.resources ∧
      ∀ id, NamesItself (p.answers m).1 id → c.snapshot.complete = false := by
  have loaded := loadGroups_loaded p time m
  unfold Provider.gather at h
  rw [run_bind] at h
  generalize p.loadGroups time m = run at h loaded
  obtain ⟨s, m₁⟩ := run
  dsimp only at h loaded
  rw [run_bind] at h
  -- the lists of projects leave the resources as they are
  have listed : Staged p (p.answers m).1
      (s.groups.keys.foldlM p.listProjects (s.collection, ∅) m₁).1.1.resources :=
    foldlM_keeps (I := fun found : Collection × Std.ExtTreeSet Nat compare =>
        Staged p (p.answers m).1 found.1.resources)
      (fun found group m staged => (stays_listProjects p found group m).resources.symm ▸ staged) _ m₁
      loaded.staged
  generalize s.groups.keys.foldlM p.listProjects (s.collection, ∅) m₁ = run at h listed
  obtain ⟨⟨c₁, found⟩, m₂⟩ := run
  dsimp only at h listed
  split at h
  · cases h
  rw [run_bind] at h
  have staged := foldlM_keeps (I := fun found : Collection × Std.ExtTreeMap Nat EntityKey compare =>
      Staged p (p.answers m).1 found.1.resources)
    (fun found id m staged => loadProject_staged p loaded found id m staged)
    (p.projectIds.foldl (·.insert ·) found).toList (b := (c₁, ∅)) m₂ listed
  generalize (p.projectIds.foldl (·.insert ·) found).toList.foldlM (p.loadProject s.groups) (c₁, ∅)
    m₂ = run at h staged
  obtain ⟨⟨c₂, projects⟩, m₃⟩ := run
  dsimp only at h staged
  have linked := loaded.joined staged
  split at h
  · cases h
  rw [run_bind, run_bind] at h
  have stays : Stays (s.parents.toList.foldl (adopt s.groups) c₂) c := by
    cases h
    exact (stays_members p "groups" _ _ _).trans (stays_members p "projects" _ _ _)
  refine ⟨?_, fun id own => stays.failed (loaded.own own c₂)⟩
  rw [stays.resources]
  exact linked

/-! ## Chains of parents -/

/-- **The chains of parents end where the responses have no cycle.** -/
theorem Linked.ends_iff {resources : Std.ExtTreeMap EntityKey Resource}
    (linked : Linked p answers resources) :
    (∀ k, Ends (parentOf resources) k) ↔ Acyclic (named answers) := by
  have finite : {id | named answers id ≠ none}.Finite := by
    apply (List.finite_toSet (answers.map Prod.fst)).subset
    intro id some
    cases hf : answers.reverse.find? (·.1 == id) with
    | none =>
      refine absurd ?_ some
      rw [named, hf]
      rfl
    | some answer =>
      have same : answer.1 = id := by simpa using List.find?_some hf
      exact List.mem_map.mpr ⟨answer, List.mem_reverse.mp (List.mem_of_find?_eq_some hf), same⟩
  rw [← ends_iff_acyclic finite]
  constructor
  · intro ends id
    exact (ends_map linked.group).mp (ends _)
  · intro ends k
    cases above : parentOf resources k with
    | none => exact .last above
    | some k' =>
      obtain ⟨id, rfl⟩ := linked.other k k' above
      exact .next above ((ends_map linked.group).mpr (ends id))

/-- The parent of a resource of a snapshot. -/
def parentIn (s : Snapshot) (k : EntityKey) : Option EntityKey :=
  (s.resources.find? fun r => decide (r.key = k)).bind (·.parent)

theorem parentIn_sort (core : Core) {c : Collection} (keyed : KeyedBy Resource.key c.resources) :
    parentIn (core.sort c.graph) = parentOf c.resources := by
  funext k
  exact congrArg (·.bind (·.parent)) (find?_sorted (core.resources_perm _) keyed k)

end

/-- **Parents end exactly when the responses have no cycle** through several groups. A cycle rejects
the whole collection, and a group that names itself is recorded as a failure. -/
theorem parents_end_iff (p : Provider) (core : Core) (time : String) (m : Meter) (c : Collection)
    (gathered : (p.gather time m).1 = .ok c)
    (rejects : ∀ s : Snapshot, (∃ k, ¬Ends (parentIn s) k) → core.validate s = false) :
    ((∀ k, Ends (parentOf c.resources) k) ↔ Acyclic (named (p.answers m).1)) ∧
    (¬Acyclic (named (p.answers m).1) → (p.collect core time m).1 = .error (error "malformed")) ∧
    ∀ id, NamesItself (p.answers m).1 id → c.snapshot.complete = false := by
  obtain ⟨linked, own⟩ := gather_linked p gathered
  refine ⟨linked.ends_iff, fun cyclic => ?_, own⟩
  rw [← linked.ends_iff, not_forall] at cyclic
  have rejected : core.validate (core.sort c.graph) = false :=
    rejects _ (parentIn_sort core linked.keyed ▸ cyclic)
  rw [Provider.collect_fst, gathered]
  show c.finish core = _
  unfold Collection.finish
  dsimp only
  rw [if_pos rejected]

/-! ## Two groups that name each other -/

/-- Core that rejects a snapshot in which a chain of parents is longer than the resources are many. -/
def rootedCore : Core :=
  { Core.plain with
    validate := fun s => s.resources.all fun r =>
      (follow (parentIn s) (s.resources.length + 1) r.key).isNone }

theorem rootedCore_rejects (s : Snapshot) (cyclic : ∃ k, ¬Ends (parentIn s) k) :
    rootedCore.validate s = false := by
  obtain ⟨k, endless⟩ := cyclic
  by_contra valid
  rw [Bool.not_eq_false] at valid
  apply endless
  cases hr : s.resources.find? fun r => decide (r.key = k) with
  | none =>
    refine .last ?_
    rw [parentIn, hr]
    rfl
  | some r =>
    have key : r.key = k := by simpa using List.find?_some hr
    have out := List.all_eq_true.mp valid r (List.mem_of_find?_eq_some hr)
    rw [key, Option.isNone_iff_eq_none] at out
    exact ends_iff.mpr ⟨_, out⟩

/-- The document of a group, with its parent. -/
def groupDocument (id above : Nat) : Value :=
  .object [("id", .number (.posInt id)), ("full_path", .string "team"),
    ("parent_id", .number (.posInt above))]

/-- A server with the groups 1 and 2, and no projects and members. -/
def familyProvider (first second : Nat) : Provider where
  id := "gitlab-main"
  scope := "gitlab.example"
  groupIds := [1, 2]
  projectIds := []
  client := {
    origin := ⟨"https://gitlab.example/", some ("https", "gitlab.example", 443), "", none, "/",
      [], none⟩
    token := "secret"
    crate := {
      parse := fun _ => none
      join := fun base path => some { base with path := s!"/{path}" }
      withSegments := fun _ _ => none
      extendPairs := fun url pairs => { url with pairs := url.pairs ++ pairs } }
    net := {
      server := fun request =>
        .answered ⟨200, [], none, [[if request ≤ 2 then request.toUInt8 else 0]], false⟩
      decode := fun bytes => some (
        if bytes = [1] then groupDocument 1 first
        else if bytes = [2] then groupDocument 2 second
        else .array []) } }
  calendar _ := ⟨fun _ => none, 0⟩

/-- A group that names itself is recorded, and leaves the parents without a cycle. -/
theorem self_parent_recorded : ∃ c, ((familyProvider 2 2).gather "" .new).1 = .ok c ∧
    ((∀ k, Ends (parentOf c.resources) k) ↔ Acyclic (named ((familyProvider 2 2).answers .new).1)) ∧
    c.snapshot.complete = false := by
  have gathers : ((familyProvider 2 2).gather "" .new).1.toOption.isSome = true := by decide +kernel
  cases hg : ((familyProvider 2 2).gather "" .new).1 with
  | error e =>
    rw [hg] at gathers
    cases gathers
  | ok c =>
    obtain ⟨ends, -, own⟩ :=
      parents_end_iff (familyProvider 2 2) rootedCore "" .new c hg rootedCore_rejects
    have names : NamesItself ((familyProvider 2 2).answers .new).1 2 := by
      unfold NamesItself
      decide +kernel
    exact ⟨c, rfl, ends, own 2 names⟩

/-- Two groups that name each other are no partial failure: no chain of parents ends, and the whole
collection is rejected. -/
theorem mutual_parents_reject : ∃ c, ((familyProvider 2 1).gather "" .new).1 = .ok c ∧
    c.snapshot.complete = true ∧
    ¬Ends (parentOf c.resources) (key "gitlab-main" "gitlab.example" "group" 1) ∧
    ((familyProvider 2 1).collect rootedCore "" .new).1 = .error (error "malformed") := by
  have gathers : ((familyProvider 2 1).gather "" .new).1.toOption.map (fun c =>
      (c.snapshot.complete,
        follow (parentOf c.resources) 2 (key "gitlab-main" "gitlab.example" "group" 1))) =
      some (true, some (key "gitlab-main" "gitlab.example" "group" 1)) := by
    decide +kernel
  have collects : ((familyProvider 2 1).collect rootedCore "" .new).1 =
      .error (error "malformed") := by
    decide +kernel
  cases hg : ((familyProvider 2 1).gather "" .new).1 with
  | error e =>
    rw [hg] at gathers
    cases gathers
  | ok c =>
    rw [hg] at gathers
    obtain ⟨complete, cycle⟩ := Prod.mk.inj (Option.some.inj gathers)
    exact ⟨c, rfl, complete, not_ends_of_cycle cycle, collects⟩

end Permesh.Gitlab

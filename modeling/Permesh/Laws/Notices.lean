import Permesh.Notices

/-!
# Laws.Notices — which packages a release carries notices of

The listing of a provider is what its package leads to through ordinary and build dependencies, in a
strict order (`reachable_iff`). There is one exactly if the package is there once, all it leads to is
known, and there are not too many.

The search is the general one of `Lib.Worklist`, whose stack makes no difference, and dependency is read
off the graph as a relation; what is left is that a sorted list is determined by its members. The
notices themselves are files and are not read here.
-/

namespace Permesh.Notices

open Lib Relation

variable {metadata : Metadata} {nodes : List Node} {root : String} {listed : List Package}

/-- A package is built with another one. -/
def DependsOn (nodes : List Node) (a b : String) : Prop :=
  ∃ node, (nodesById nodes)[a]? = some node ∧ ∃ dependency ∈ node.deps, dependency.pkg = b ∧
    ∃ kind ∈ dependency.depKinds, kind = none ∨ kind = some "build"

/-- **The listing of a package**, `root`, and everything it is built with. -/
structure Built (metadata : Metadata) (nodes : List Node) (root : String) (listed : List Package) :
    Prop where
  known : ∀ id, ReflTransGen (DependsOn nodes) root id →
    metadata.byId[id]?.isSome ∧ (nodesById nodes)[id]?.isSome
  members : ∀ p, p ∈ listed ↔ ReflTransGen (DependsOn nodes) root p.id ∧ metadata.byId[p.id]? = some p
  increasing : listed.Pairwise fun a b => compare a.key b.key = .lt
  few : listed.length ≤ 4096

theorem key_id {a b : Package} (same : a.key = b.key) : a.id = b.id := by
  simp only [Package.key, List.cons.injEq] at same
  exact same.2.2.1

theorem id_of_byId {id : String} {p : Package} (there : metadata.byId[id]? = some p) : p.id = id := by
  have mem := mem_of_getElem?_ofList there
  simp only [List.mem_map, Prod.mk.injEq] at mem
  obtain ⟨q, -, same, rfl⟩ := mem
  exact same

theorem followed_iff {dependency : Dependency} : dependency.followed = true ↔
    ∃ kind ∈ dependency.depKinds, kind = none ∨ kind = some "build" := by
  simp [Dependency.followed]

theorem next_eq_some {id : String} {found : List String} : metadata.next nodes id = some found ↔
    metadata.byId[id]?.isSome ∧ ∃ node, (nodesById nodes)[id]? = some node ∧
      (node.deps.filter Dependency.followed).map (·.pkg) = found := by
  cases there : metadata.byId[id]? <;> simp [Metadata.next, there, Option.bind_eq_some_iff]

theorem next_isSome {id : String} : (metadata.next nodes id).isSome ↔
    metadata.byId[id]?.isSome ∧ (nodesById nodes)[id]?.isSome := by
  simp only [Option.isSome_iff_exists, next_eq_some]
  grind

theorem leads_iff {a b : String} : Leads (metadata.next nodes) a b ↔
    metadata.byId[a]?.isSome ∧ DependsOn nodes a b := by
  unfold Leads DependsOn
  simp only [next_eq_some]
  constructor
  · rintro ⟨found, ⟨known, node, here, rfl⟩, mem⟩
    obtain ⟨dependency, kept, rfl⟩ := List.mem_map.mp mem
    obtain ⟨mem, followed⟩ := List.mem_filter.mp kept
    exact ⟨known, node, here, dependency, mem, rfl, followed_iff.mp followed⟩
  · rintro ⟨known, node, here, dependency, mem, rfl, kinds⟩
    refine ⟨_, ⟨known, node, here, rfl⟩, ?_⟩
    exact List.mem_map_of_mem (List.mem_filter.mpr ⟨mem, followed_iff.mpr kinds⟩)

/-- If everything that was found is known, the search follows all dependencies. -/
theorem reached_iff {all : Std.ExtTreeSet String}
    (reached : ∀ id, id ∈ all ↔ Reached (metadata.next nodes) [root] id)
    (known : ∀ id ∈ all, (metadata.next nodes id).isSome) (id : String) :
    id ∈ all ↔ ReflTransGen (DependsOn nodes) root id := by
  constructor
  · intro mem
    obtain ⟨start, one, path⟩ := (reached id).mp mem
    cases List.mem_singleton.mp one
    exact ReflTransGen.mono (fun a b leads => (leads_iff.mp leads).2) _ _ path
  · intro path
    induction path with
    | refl => exact (reached root).mpr ⟨root, List.mem_singleton_self root, .refl⟩
    | @tail a b _ depends ih =>
      apply (reached b).mpr
      apply ((reached a).mp ih).lead
      exact leads_iff.mpr ⟨(next_isSome.mp (known a ih)).1, depends⟩

/-! ## The listing -/

/-- The packages that were seen. -/
def found (metadata : Metadata) (seen : Std.ExtTreeSet String) : List Package :=
  (seen.toList.filterMap (metadata.byId[·]?)).mergeSort (keyLe Package.key)

variable {seen : Std.ExtTreeSet String}

theorem found_perm (metadata : Metadata) (seen : Std.ExtTreeSet String) :
    (found metadata seen).Perm (seen.toList.filterMap (metadata.byId[·]?)) :=
  List.mergeSort_perm _ _

theorem mem_found {p : Package} :
    p ∈ found metadata seen ↔ p.id ∈ seen ∧ metadata.byId[p.id]? = some p := by
  simp only [(found_perm metadata seen).mem_iff, List.mem_filterMap, Std.ExtTreeSet.mem_toList]
  constructor
  · rintro ⟨id, mem, there⟩
    cases id_of_byId there
    exact ⟨mem, there⟩
  · rintro ⟨mem, there⟩
    exact ⟨p.id, mem, there⟩

theorem found_nodup : (found metadata seen).Nodup := by
  have apart : seen.toList.Nodup := by
    apply (Std.ExtTreeSet.distinct_toList (t := seen)).imp
    intro a b ne eq
    exact ne (Std.compare_eq_iff_eq.mpr eq)
  rw [(found_perm metadata seen).nodup_iff]
  apply apart.filterMap
  intro a b p here there
  exact (id_of_byId here).symm.trans (id_of_byId there)

theorem found_increasing :
    (found metadata seen).Pairwise fun a b => compare a.key b.key = .lt := by
  have sorted : (found metadata seen).Pairwise (keyLe Package.key · ·) :=
    List.pairwise_mergeSort keyLe_trans keyLe_total _
  apply ((List.Pairwise.and_mem.mp sorted).and found_nodup).imp
  rintro a b ⟨⟨here, there, le⟩, ne⟩
  apply lt_of_apart le
  intro same
  have id := key_id same
  have eq := (mem_found.mp here).2
  rw [id, (mem_found.mp there).2] at eq
  exact ne (Option.some.inj eq).symm

theorem found_length (known : ∀ id ∈ seen, (metadata.byId[id]?).isSome) :
    (found metadata seen).length = seen.size := by
  rw [(found_perm metadata seen).length_eq, ← Std.ExtTreeSet.length_toList]
  have all : ∀ id ∈ seen.toList, (metadata.byId[id]?).isSome := by simpa using known
  generalize seen.toList = ids at all
  induction ids with
  | nil => rfl
  | cons id ids ih =>
    obtain ⟨p, there⟩ := Option.isSome_iff_exists.mp (all id List.mem_cons_self)
    rw [List.filterMap_cons_some there, List.length_cons, List.length_cons]
    rw [ih fun id mem => all id (List.mem_cons_of_mem _ mem)]

/-- Two listings in the same strict order have the same members only if they are one. -/
theorem increasing_eq {listed others : List Package}
    (increasing : listed.Pairwise fun a b => compare a.key b.key = .lt)
    (increasing' : others.Pairwise fun a b => compare a.key b.key = .lt)
    (same : ∀ p, p ∈ listed ↔ p ∈ others) : listed = others := by
  have irrefl (a : Package) : compare a.key a.key ≠ .lt := by simp
  have nodup {l : List Package} (h : l.Pairwise fun a b => compare a.key b.key = .lt) : l.Nodup := by
    apply h.imp
    rintro a b lt rfl
    exact irrefl a lt
  refine List.Perm.eq_of_pairwise ?_ increasing increasing'
    ((List.perm_ext_iff_of_nodup (nodup increasing) (nodup increasing')).mpr same)
  intro a b _ _ lt gt
  exact absurd (Std.TransCmp.lt_trans lt gt) (irrefl a)

/-- What a successful search lists. -/
theorem built_found {all : Std.ExtTreeSet String}
    (ok : search (metadata.next nodes) 4096 [root] ∅ = some all) :
    Built metadata nodes root (found metadata all) := by
  obtain ⟨reached, known, few⟩ := search_iff.mp ok
  have members := reached_iff reached known
  have packages (id : String) (mem : id ∈ all) := next_isSome.mp (known id mem)
  constructor
  · intro id path
    exact packages id ((members id).mpr path)
  · intro p
    rw [mem_found, members]
  · exact found_increasing
  · rwa [found_length fun id mem => (packages id mem).1]

/-- What can be listed is found. -/
theorem found_of_built (h : Built metadata nodes root listed) :
    ∃ all, search (metadata.next nodes) 4096 [root] ∅ = some all := by
  let all : Std.ExtTreeSet String := .ofList (listed.map (·.id))
  have mem (id : String) : id ∈ all ↔ ReflTransGen (DependsOn nodes) root id := by
    simp only [all, Std.ExtTreeSet.mem_ofList, List.contains_iff_mem, List.mem_map, h.members]
    constructor
    · rintro ⟨p, ⟨path, -⟩, rfl⟩
      exact path
    · intro path
      obtain ⟨p, there⟩ := Option.isSome_iff_exists.mp (h.known id path).1
      cases id_of_byId there
      exact ⟨p, ⟨path, there⟩, rfl⟩
  refine ⟨all, search_iff.mpr ⟨?_, ?_, ?_⟩⟩
  · intro id
    rw [mem]
    constructor
    · intro path
      induction path with
      | refl => exact ⟨root, List.mem_singleton_self root, .refl⟩
      | @tail a b path depends ih => exact ih.lead (leads_iff.mpr ⟨(h.known a path).1, depends⟩)
    · rintro ⟨start, one, path⟩
      cases List.mem_singleton.mp one
      exact ReflTransGen.mono (fun a b leads => (leads_iff.mp leads).2) _ _ path
  · intro id there
    exact next_isSome.mpr (h.known id ((mem id).mp there))
  · have le : all.size ≤ (listed.map (·.id)).length := Std.ExtTreeSet.size_ofList_le
    rw [List.length_map] at le
    exact le.trans h.few

/-- **The listing of a provider.** It is there exactly if the provider has one package and everything
that this package is built with is known and within the limit. -/
theorem reachable_iff {provider : String} : reachable metadata provider = .ok listed ↔
    ∃ root nodes, (metadata.packages.filter (·.name = providerPackage provider)).map (·.id) = [root] ∧
      metadata.resolve = some nodes ∧ Built metadata nodes root listed := by
  unfold reachable
  constructor
  · intro ok
    split at ok
    · cases ok
    case h_2 nodes resolved =>
      dsimp only at ok
      split at ok
      · cases ok
      case isFalse one =>
        obtain ⟨root, only⟩ := List.length_eq_one_iff.mp (not_not.mp one)
        rw [only] at ok
        split at ok
        · cases ok
        case h_2 all searched =>
          cases ok
          exact ⟨root, nodes, only, resolved, built_found searched⟩
  · rintro ⟨root, nodes, only, resolved, built⟩
    obtain ⟨all, searched⟩ := found_of_built built
    have here := built_found searched
    have same : listed = found metadata all := by
      apply increasing_eq built.increasing here.increasing
      intro p
      rw [built.members, here.members]
    rw [resolved, only, same]
    simp [searched, found]

end Permesh.Notices

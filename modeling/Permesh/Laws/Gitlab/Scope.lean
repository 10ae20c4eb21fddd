import Mathlib.Algebra.GroupWithZero.Nat
import Mathlib.Data.List.Perm.Basic
import Mathlib.Data.Set.List
import Permesh.Gitlab.Protocol
import Permesh.Laws.Native.Remarks
import Permesh.Laws.Text
import Permesh.Lib.Fold
import Permesh.Lib.Maps

/-!
# Laws.Gitlab.Scope — the numeric scope of a configuration

A list of identifiers is accepted if it names different positive numbers, each in the one way that
numbers are printed. What is kept is the set of these numbers, in increasing order (`ids_iff`). So a
provider does not depend on the order of its configuration, and it is clear which configurations build
one (`newWithNetwork_iff`).

Reading an identifier is inverse to printing a number, so the accepted lists are the printed ones; the
set is built by insertion and listed in order. The origin is read by the URL crate.
-/

namespace Permesh.Gitlab

open Permesh.Lib Permesh.Native

theorem readId_iff {value : String} {id : Nat} :
    readId value = some id ↔ (0 < id ∧ id < 2 ^ 64) ∧ value = toString id := by
  unfold readId
  rw [Option.filter_eq_some_iff, Bool.and_eq_true, decide_eq_true_eq, beq_iff_eq]
  constructor
  · rintro ⟨parsed, positive, printed⟩
    refine ⟨⟨positive, ?_⟩, printed.symm⟩
    rw [Text.parseU64, Text.parseUnsigned, Option.filter_eq_some_iff] at parsed
    exact of_decide_eq_true parsed.2
  · rintro ⟨⟨positive, below⟩, rfl⟩
    exact ⟨Text.parseUnsigned_toString below, positive, rfl⟩

/-- One turn of the loop of `ids`. -/
def collectId (seen : Std.ExtTreeSet Nat) (value : String) :
    Except ProviderError (Std.ExtTreeSet Nat) :=
  match readId value with
  | none => .error (error "configuration")
  | some id => if id ∈ seen then .error (error "configuration") else .ok (seen.insert id)

theorem collectId_ok {seen seen' : Std.ExtTreeSet Nat} {value : String} :
    collectId seen value = .ok seen' ↔
      ∃ id, readId value = some id ∧ id ∉ seen ∧ seen' = seen.insert id := by
  unfold collectId
  cases read : readId value with
  | none => simp
  | some id =>
    dsimp only
    split
    case isTrue old =>
      constructor
      · intro h
        cases h
      · rintro ⟨id', same, fresh, -⟩
        cases same
        exact absurd old fresh
    case isFalse fresh =>
      constructor
      · intro h
        cases h
        exact ⟨id, rfl, fresh, rfl⟩
      · rintro ⟨id', same, -, rfl⟩
        cases same
        rfl

/-- What a loop has read: different new numbers, which are in the set behind it. -/
structure Reads (seen : Std.ExtTreeSet Nat) (values : List String) (l : List Nat)
    (seen' : Std.ExtTreeSet Nat) : Prop where
  read : values.map readId = l.map some
  once : l.Nodup
  fresh : ∀ id ∈ l, id ∉ seen
  all : ∀ id, id ∈ seen' ↔ id ∈ l ∨ id ∈ seen

theorem Reads.cons {seen seen' : Std.ExtTreeSet Nat} {value : String} {values : List String}
    {id : Nat} {l : List Nat} (read : readId value = some id) (fresh : id ∉ seen) :
    Reads seen (value :: values) (id :: l) seen' ↔ Reads (seen.insert id) values l seen' := by
  constructor
  · intro h
    have rest := h.read
    rw [List.map_cons, List.map_cons, List.cons.injEq] at rest
    obtain ⟨new, once⟩ := List.nodup_cons.mp h.once
    refine ⟨rest.2, once, fun id' mem old => ?_, fun id' => ?_⟩
    · rcases mem_insert_key.mp old with rfl | old
      · exact new mem
      · exact h.fresh id' (List.mem_cons_of_mem _ mem) old
    · rw [h.all, List.mem_cons, mem_insert_key, eq_comm (a := id)]
      tauto
  · intro h
    have new (id' : Nat) (mem : id' ∈ l) : id ≠ id' ∧ id' ∉ seen := by
      have out := h.fresh id' mem
      rw [mem_insert_key, not_or] at out
      exact out
    refine ⟨?_, List.nodup_cons.mpr ⟨fun mem => (new id mem).1 rfl, h.once⟩, fun id' mem => ?_,
      fun id' => ?_⟩
    · rw [List.map_cons, List.map_cons, read, h.read]
    · rcases List.mem_cons.mp mem with rfl | mem
      · exact fresh
      · exact (new id' mem).2
    · rw [h.all, List.mem_cons, mem_insert_key, eq_comm (a := id)]
      tauto

/-- The loop accepts what it can read. -/
theorem collectIds_ok {values : List String} {seen seen' : Std.ExtTreeSet Nat} :
    values.foldlM collectId seen = .ok seen' ↔ ∃ l, Reads seen values l seen' := by
  induction values generalizing seen with
  | nil =>
    constructor
    · intro h
      cases h
      exact ⟨[], rfl, List.nodup_nil, fun _ mem => (by cases mem), fun id => by simp⟩
    · rintro ⟨l, h⟩
      have none : l = [] := List.map_eq_nil_iff.mp h.read.symm
      subst none
      refine congrArg Except.ok (Std.ExtTreeSet.ext_mem fun id => ?_)
      rw [h.all]
      simp
  | cons value values ih =>
    rw [List.foldlM_cons]
    constructor
    · intro h
      obtain ⟨next, first, rest⟩ := bind_ok h
      obtain ⟨id, read, fresh, rfl⟩ := collectId_ok.mp first
      obtain ⟨l, rest⟩ := ih.mp rest
      exact ⟨id :: l, (Reads.cons read fresh).mpr rest⟩
    · rintro ⟨l, h⟩
      cases l with
      | nil => cases h.read
      | cons id l =>
        have read : readId value = some id := (List.cons.inj h.read).1
        have fresh := h.fresh id List.mem_cons_self
        rw [collectId_ok.mpr ⟨id, read, fresh, rfl⟩]
        exact ih.mpr ⟨l, (Reads.cons read fresh).mp h⟩

/-- Texts that are read are the numbers in print. -/
theorem printed_of_read {values : List String} {l : List Nat}
    (read : values.map readId = l.map some) : values = l.map toString := by
  induction values generalizing l with
  | nil => rw [List.map_eq_nil_iff.mp read.symm]; rfl
  | cons value values ih =>
    cases l with
    | nil => cases read
    | cons id l =>
      obtain ⟨first, rest⟩ := List.cons.inj read
      rw [List.map_cons, ih rest, (readId_iff.mp first).2]

theorem read_of_printed {l : List Nat} (good : ∀ id ∈ l, 0 < id ∧ id < 2 ^ 64) :
    (l.map toString).map readId = l.map some := by
  rw [List.map_map]
  exact List.map_congr_left fun id mem => readId_iff.mpr ⟨good id mem, rfl⟩

/-- The texts are these positive 64-bit numbers in print, and the numbers are in increasing order. -/
structure Scoped (values : List String) (l : List Nat) : Prop where
  increasing : l.Pairwise (· < ·)
  positive : ∀ id ∈ l, 0 < id ∧ id < 2 ^ 64
  printed : values.Perm (l.map toString)

/-- **The numeric scope**: exactly the lists of different positive 64-bit numbers in print are
accepted. -/
theorem ids_iff {values : List String} {l : List Nat} : ids values = .ok l ↔ Scoped values l := by
  have loop : ids values = (values.foldlM collectId ∅).map (·.toList) := by
    show (values.foldlM collectId ∅ >>= fun seen => pure seen.toList) = _
    cases values.foldlM collectId ∅ <;> rfl
  have sorted (seen : Std.ExtTreeSet Nat) : seen.toList.Pairwise (· < ·) :=
    (Std.ExtTreeSet.ordered_toList (t := seen)).imp fun lt => Nat.compare_eq_lt.mp lt
  have increasing {l l' : List Nat} (h : l.Pairwise (· < ·)) (h' : l'.Pairwise (· < ·))
      (perm : l.Perm l') : l = l' :=
    perm.eq_of_pairwise (fun _ _ _ _ lt gt => absurd gt (Nat.lt_asymm lt)) h h'
  have listed {seen : Std.ExtTreeSet Nat} {read : List Nat} (h : Reads ∅ values read seen) :
      seen.toList.Perm read := by
    apply (List.perm_ext_iff_of_nodup ((sorted seen).imp Nat.ne_of_lt) h.once).mpr
    intro id
    rw [Std.ExtTreeSet.mem_toList, h.all]
    simp
  rw [loop]
  constructor
  · intro h
    cases run : values.foldlM collectId ∅ with
    | error e =>
      rw [run] at h
      cases h
    | ok seen =>
      rw [run] at h
      cases h
      obtain ⟨read, reads⟩ := collectIds_ok.mp run
      have perm := listed reads
      refine ⟨sorted seen, fun id mem => ?_, ?_⟩
      · have there := List.mem_map_of_mem (f := some) (perm.mem_iff.mp mem)
        rw [← reads.read] at there
        obtain ⟨value, -, found⟩ := List.mem_map.mp there
        exact (readId_iff.mp found).1
      · rw [printed_of_read reads.read]
        exact (perm.map _).symm
  · rintro ⟨ordered, good, perm⟩
    -- the numbers that the values name, in the order of the values
    obtain ⟨read, rfl⟩ : values ∈ Set.range (List.map (toString : Nat → String)) := by
      rw [Set.range_list_map]
      intro value mem
      obtain ⟨id, -, printed⟩ := List.mem_map.mp (perm.mem_iff.mp mem)
      exact ⟨id, printed⟩
    have perm : read.Perm l := (List.map_perm_map_iff Text.toString_injective).mp perm
    have reads : Reads ∅ (read.map toString) read (.ofList read) := by
      refine ⟨read_of_printed fun id mem => good id (perm.mem_iff.mp mem),
        perm.nodup_iff.mpr (ordered.imp Nat.ne_of_lt), fun id _ => Std.ExtTreeSet.not_mem_empty,
        fun id => ?_⟩
      simp
    rw [collectIds_ok.mpr ⟨read, reads⟩]
    exact congrArg Except.ok (increasing (sorted _) ordered ((listed reads).trans perm))

/-! ## The order of a configuration -/

theorem collectId_error {seen : Std.ExtTreeSet Nat} {value : String} {e : ProviderError}
    (h : collectId seen value = .error e) : e = error "configuration" := by
  unfold collectId at h
  split at h
  · cases h
    rfl
  split at h
  · cases h
    rfl
  · cases h

theorem ids_error {values : List String} {e : ProviderError} (h : ids values = .error e) :
    e = error "configuration" := by
  have loop (values : List String) (seen : Std.ExtTreeSet Nat)
      (h : (values.foldlM collectId seen) = .error e) : e = error "configuration" := by
    induction values generalizing seen with
    | nil => cases h
    | cons value values ih =>
      rw [List.foldlM_cons] at h
      cases first : collectId seen value with
      | error e' =>
        rw [first] at h
        cases h
        exact collectId_error first
      | ok next =>
        rw [first] at h
        exact ih next h
  change (values.foldlM collectId ∅ >>= fun seen => pure seen.toList) = _ at h
  cases run : values.foldlM collectId ∅ with
  | error e' =>
    rw [run] at h
    cases h
    exact loop values ∅ run
  | ok seen =>
    rw [run] at h
    cases h

theorem ids_perm {values values' : List String} (perm : values.Perm values') :
    ids values = ids values' := by
  have kept {values values' : List String} (perm : values.Perm values') {l : List Nat}
      (h : ids values = .ok l) : ids values' = .ok l := by
    obtain ⟨increasing, positive, printed⟩ := ids_iff.mp h
    exact ids_iff.mpr ⟨increasing, positive, perm.symm.trans printed⟩
  cases h : ids values with
  | ok l => exact (kept perm h).symm
  | error e =>
    cases h' : ids values' with
    | ok l =>
      rw [kept perm.symm h'] at h
      cases h
    | error e' => rw [ids_error h, ids_error h']

/-- The order of the groups and projects of a configuration does not matter. -/
theorem newWithNetwork_perm (K : Native.Crates) (world : World) (id value token : String)
    (network : Option Native.NetworkContext) {groups groups' projects projects' : List String}
    (sameGroups : groups.Perm groups') (sameProjects : projects.Perm projects') :
    newWithNetwork K world id value groups projects token network =
      newWithNetwork K world id value groups' projects' token network := by
  unfold newWithNetwork validConfiguration
  rw [sameGroups.length_eq, sameProjects.length_eq, ids_perm sameGroups, ids_perm sameProjects]

/-! ## The constructor -/

theorem Scoped.length {values : List String} {l : List Nat} (h : Scoped values l) :
    values.length = l.length := by
  rw [h.printed.length_eq, List.length_map]

theorem ids_isOk {values : List String} : (ids values).isOk = true ↔ ∃ l, Scoped values l := by
  cases h : ids values with
  | ok l => exact ⟨fun _ => ⟨l, ids_iff.mp h⟩, fun _ => rfl⟩
  | error e =>
    refine ⟨fun ok => (by cases ok), ?_⟩
    rintro ⟨l, accepted⟩
    rw [ids_iff.mpr accepted] at h
    cases h

/-- An address that is accepted has a host. -/
theorem origin_ok {crate : UrlCrate} {value : String} {url : Url} (h : origin crate value = .ok url) :
    ∃ host port, url.origin = some ("https", host, port) := by
  unfold origin at h
  split at h
  · cases h
  split at h
  · cases h
  split at h
  · cases h
  split at h
  · cases h
  split at h
  · cases h
  case isFalse plain =>
    cases h
    rw [Bool.or_eq_true, not_or] at plain
    cases origin : url.origin with
    | none => simp [origin] at plain
    | some address =>
      obtain ⟨scheme, host, port⟩ := address
      have https : scheme = "https" := by
        simp only [origin, Option.any_some, Bool.or_eq_true, not_or, Bool.not_eq_true',
          Bool.not_eq_false, beq_iff_eq] at plain
        exact plain.1.1.1.1.1
      exact ⟨host, port, by rw [https]⟩

/-- **Which configurations build a provider, and which one.** -/
theorem newWithNetwork_iff (K : Native.Crates) (world : World) (id value : String)
    (groups projects : List String) (token : String) (network : Option Native.NetworkContext)
    (p : Provider) : newWithNetwork K world id value groups projects token network = .ok p ↔
    validInstance id = true ∧ validToken token = true ∧ Scoped groups p.groupIds ∧
      Scoped projects p.projectIds ∧ 1 ≤ p.groupIds.length + p.projectIds.length ∧
      p.groupIds.length + p.projectIds.length ≤ 50 ∧ Native.clientBuilder K network = true ∧
      world.builds = true ∧ ∃ url host port, origin world.crate value = .ok url ∧
        url.origin = some ("https", host, port) ∧ p.id = id ∧ p.scope = s!"gitlab:{host}:{port}" ∧
        p.client = ⟨url, token, world.crate, world.net⟩ ∧ p.calendar = world.calendar := by
  have guard : (!validInstance id || !validConfiguration world.crate value groups projects ||
      !validToken token) = false ↔ validInstance id = true ∧ validToken token = true ∧
        (1 ≤ groups.length + projects.length ∧ groups.length + projects.length ≤ 50 ∧
          (origin world.crate value).isOk = true ∧ (∃ l, Scoped groups l) ∧ ∃ l, Scoped projects l) := by
    simp only [validConfiguration, Bool.or_eq_false_iff, Bool.not_eq_false', Bool.and_eq_true,
      decide_eq_true_eq, ids_isOk]
    tauto
  unfold newWithNetwork
  constructor
  · intro h
    split at h
    · cases h
    case' isFalse pass =>
    obtain ⟨validId, valid, least, most, -⟩ := guard.mp (eq_false_of_ne_true pass)
    dsimp only at h
    obtain ⟨url, address, h⟩ := bind_ok h
    obtain ⟨host, port, https⟩ := origin_ok address
    rw [https] at h
    obtain ⟨scope, named, h⟩ := bind_ok h
    cases named
    obtain ⟨_, client, h⟩ := bind_ok h
    obtain ⟨groupIds, accepted, h⟩ := bind_ok h
    obtain ⟨projectIds, accepted', h⟩ := bind_ok h
    cases h
    have scopedGroups := ids_iff.mp accepted
    have scopedProjects := ids_iff.mp accepted'
    rw [scopedGroups.length, scopedProjects.length] at least most
    obtain ⟨builder, builds⟩ := httpClient_ok.mp client
    exact ⟨validId, valid, scopedGroups, scopedProjects, least, most, builder, builds, url, host, port,
      address, https, rfl, rfl, rfl, rfl⟩
  · rintro ⟨validId, valid, scopedGroups, scopedProjects, least, most, builder, builds, url, host, port,
      address, https, hid, hscope, hclient, hcalendar⟩
    rw [← scopedGroups.length, ← scopedProjects.length] at least most
    have pass := guard.mpr ⟨validId, valid, least, most, by rw [address]; rfl, ⟨_, scopedGroups⟩,
      ⟨_, scopedProjects⟩⟩
    rw [pass, if_neg Bool.false_ne_true]
    obtain ⟨id', scope', groupIds, projectIds, client, calendar⟩ := p
    cases hid
    cases hscope
    cases hclient
    cases hcalendar
    have client : httpClient K network world.builds (error "configuration") = .ok () :=
      httpClient_ok.mpr ⟨builder, builds⟩
    simp only [bind, Except.bind, address, https, client, ids_iff.mpr scopedGroups,
      ids_iff.mpr scopedProjects]
    rfl

end Permesh.Gitlab

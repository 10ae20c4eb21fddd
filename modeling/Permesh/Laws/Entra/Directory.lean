import Permesh.Entra.Discovery
import Permesh.Laws.Entra.Listing
import Permesh.Lib.Fold
import Permesh.Lib.Program
import Mathlib.Data.List.Forall2

/-!
# Laws.Entra.Directory — accounts, groups and memberships of the rows

The collection keeps a sublist of the rows of each directory: those that can be converted and whose
identifier is free. It stays complete exactly as long as it keeps all of them. A member row joins an
account or a group that was kept, is left out as a service principal, or is missed.

Each loop over rows has an invariant that relates the kept rows to the map of the collection
(`Accounted`, `Grouped`, `Joined`); taking a row either appends it or leaves a gap. Which of two rows
with one identifier is kept is decided by their order, and nothing is claimed about it.
-/

namespace Permesh.Entra

open Permesh.Json Permesh.Http Permesh.Lib

variable {p : Provider}

/-! ## Objects -/

/-- A row of the users or of the service principals. -/
abbrev AccountRow := Bool × Object

/-- What a row becomes. -/
def Converts (p : Provider) (row : AccountRow) (pair : Identity × Account) : Prop :=
  row.2.account p.id p.tenantId row.1 = .ok pair

/-- The identity and the account of one object. -/
structure PairOf (p : Provider) (id : String) (pair : Identity × Account) : Prop where
  identity : pair.1.id = s!"entra:{p.tenantId}:{id}"
  account : pair.2.key = objectKey p.id p.tenantId id
  kind : pair.1.kind = pair.2.kind
  affiliation : pair.1.affiliation = pair.2.affiliation
  status : pair.1.status = pair.2.status

theorem Converts.pairOf {row : AccountRow} {pair : Identity × Account} (h : Converts p row pair) :
    PairOf p row.2.id pair := by
  unfold Converts Object.account at h
  dsimp only at h
  generalize (if row.1 = true then graphServicePrincipal else graphUser) = expected at h
  split at h
  · cases h
  · cases h
    exact ⟨rfl, rfl, rfl, rfl, rfl⟩

theorem objectKey_inj {inst tenant id id' : String}
    (h : objectKey inst tenant id = objectKey inst tenant id') : id = id' :=
  (String.append_right_inj _).mp (EntityKey.mk.inj h).2

theorem groupKey_inj {inst tenant id id' : String}
    (h : groupKey inst tenant id = groupKey inst tenant id') : id = id' :=
  (String.append_right_inj _).mp (EntityKey.mk.inj h).2

/-- The group of a row. -/
def toGroup (p : Provider) (o : Object) : Group := ⟨groupKey p.id p.tenantId o.id, o.named⟩

/-! ## Sublists -/

theorem sublist_append_ne {α : Type} {kept rows : List α} (sub : kept.Sublist rows) (row : α) :
    kept ≠ rows ++ [row] := by
  intro eq
  have := sub.length_le
  rw [eq, List.length_append, List.length_singleton] at this
  omega

/-! ## Accounts -/

/-- The accounts of these rows: the ones that are kept, and what they become. The collection is
complete if `base` holds and all rows are kept. -/
structure Accounted (p : Provider) (base : Prop) (rows kept : List AccountRow)
    (pairs : List (Identity × Account)) (c : Collection) : Prop where
  sub : kept.Sublist rows
  converts : List.Forall₂ (Converts p) kept pairs
  identities : c.snapshot.identities = pairs.map Prod.fst
  accounts : c.snapshot.accounts = pairs.map Prod.snd
  once : (kept.map (·.2.id)).Nodup
  known : ∀ (id : String) (service : Bool),
    c.accounts[id]? = some service ↔ ∃ o : Object, (service, o) ∈ kept ∧ o.id = id
  complete : c.snapshot.complete = true ↔ base ∧ kept = rows

theorem Accounted.mem {base : Prop} {rows kept : List AccountRow}
    {pairs : List (Identity × Account)} {c : Collection} (h : Accounted p base rows kept pairs c)
    (id : String) : id ∈ c.accounts ↔ id ∈ kept.map (·.2.id) := by
  rw [Std.ExtTreeMap.mem_iff_isSome_getElem?, Option.isSome_iff_exists]
  constructor
  · rintro ⟨service, there⟩
    obtain ⟨o, mem, rfl⟩ := (h.known id service).mp there
    exact List.mem_map.mpr ⟨(service, o), mem, rfl⟩
  · intro mem
    obtain ⟨⟨service, o⟩, there, rfl⟩ := List.mem_map.mp mem
    exact ⟨service, (h.known o.id service).mpr ⟨o, there, rfl⟩⟩

/-- A row that is not kept. -/
theorem Accounted.skip {base : Prop} {rows kept : List AccountRow}
    {pairs : List (Identity × Account)} {c : Collection} (h : Accounted p base rows kept pairs c)
    (row : AccountRow) (code : String) :
    Accounted p base (rows ++ [row]) kept pairs (c.missed code) where
  sub := h.sub.trans (List.sublist_append_left _ _)
  converts := h.converts
  identities := h.identities
  accounts := h.accounts
  once := h.once
  known := h.known
  complete := ⟨fun complete => Bool.noConfusion complete,
    fun ⟨_, all⟩ => absurd all (sublist_append_ne h.sub row)⟩

/-- **One row.** -/
theorem Accounted.take {base : Prop} {rows kept : List AccountRow}
    {pairs : List (Identity × Account)} {c : Collection} (h : Accounted p base rows kept pairs c)
    (service : Bool) (o : Object) : ∃ kept' pairs',
      Accounted p base (rows ++ [(service, o)]) kept' pairs' (p.takeAccount service c o) := by
  unfold Provider.takeAccount
  split
  · exact ⟨kept, pairs, h.skip _ _⟩
  case h_2 identity account converts =>
    split
    · exact ⟨kept, pairs, h.skip _ _⟩
    case isFalse fresh =>
      refine ⟨kept ++ [(service, o)], pairs ++ [(identity, account)], ?_⟩
      constructor
      · exact h.sub.append (List.Sublist.refl _)
      · exact List.rel_append h.converts (.cons converts .nil)
      · rw [List.map_append, ← h.identities]
        rfl
      · rw [List.map_append, ← h.accounts]
        rfl
      · rw [List.map_append]
        exact nodup_snoc h.once (mt (h.mem o.id).mpr fresh)
      · intro id service'
        rw [getElem?_insert_key]
        simp only [List.mem_append, List.mem_singleton, Prod.mk.injEq]
        split
        case isTrue same =>
          subst same
          constructor
          · intro eq
            cases eq
            exact ⟨o, .inr ⟨rfl, rfl⟩, rfl⟩
          · rintro ⟨o', mem | ⟨rfl, rfl⟩, same⟩
            · refine absurd ((h.mem o.id).mpr ?_) fresh
              rw [← same]
              exact List.mem_map.mpr ⟨_, mem, rfl⟩
            · rfl
        case isFalse other =>
          rw [h.known]
          constructor
          · rintro ⟨o', mem, same⟩
            exact ⟨o', .inl mem, same⟩
          · rintro ⟨o', mem | ⟨rfl, rfl⟩, same⟩
            · exact ⟨o', mem, same⟩
            · exact absurd same other
      · refine h.complete.trans (and_congr_right fun _ => ?_)
        exact (List.append_left_inj _).symm

/-- **The rows of a directory.** -/
theorem Accounted.takeAll {base : Prop} {rows kept : List AccountRow}
    {pairs : List (Identity × Account)} {c : Collection} (h : Accounted p base rows kept pairs c)
    (service : Bool) (objects : List Object) : ∃ kept' pairs',
      Accounted p base (rows ++ objects.map (service, ·)) kept' pairs'
        (objects.foldl (p.takeAccount service) c) := by
  refine foldl_rule (fun taken c => ∃ kept' pairs',
    Accounted p base (rows ++ taken.map (service, ·)) kept' pairs' c) ?_ ?_ objects
  · rw [List.map_nil, List.append_nil]
    exact ⟨kept, pairs, h⟩
  · rintro taken o c' ⟨kept', pairs', accounted⟩
    rw [List.map_append, ← List.append_assoc]
    exact accounted.take service o

/-! ## Groups -/

/-- The groups of these rows, apart from the accounts. -/
structure Grouped (p : Provider) (base : Prop) (accounts : Std.ExtTreeMap String Bool)
    (rows kept : List Object) (c : Collection) : Prop where
  sub : kept.Sublist rows
  groups : c.snapshot.groups = kept.map (toGroup p)
  known : ∀ (id : String) (g : Group),
    c.groups[id]? = some g ↔ ∃ o ∈ kept, o.id = id ∧ g = toGroup p o
  apart : ∀ o ∈ kept, o.id ∉ accounts
  same : c.accounts = accounts
  complete : c.snapshot.complete = true ↔ base ∧ kept = rows

/-- **One row**, whose identifier no row before has. -/
theorem Grouped.take {base : Prop} {accounts : Std.ExtTreeMap String Bool} {rows kept : List Object}
    {c : Collection} (h : Grouped p base accounts rows kept c) (o : Object)
    (fresh : o.id ∉ rows.map Object.id) :
    ∃ kept', Grouped p base accounts (rows ++ [o]) kept' (p.takeGroup c o) := by
  unfold Provider.takeGroup
  split
  · refine ⟨kept, h.sub.trans (List.sublist_append_left _ _), h.groups, h.known, h.apart, h.same, ?_⟩
    exact ⟨fun complete => Bool.noConfusion complete,
      fun ⟨_, all⟩ => absurd all (sublist_append_ne h.sub o)⟩
  case isFalse free =>
    rw [not_or] at free
    refine ⟨kept ++ [o], ?_⟩
    constructor
    · exact h.sub.append (List.Sublist.refl _)
    · rw [List.map_append, ← h.groups]
      rfl
    · intro id g
      rw [getElem?_insert_key]
      simp only [List.mem_append, List.mem_singleton]
      split
      case isTrue same =>
        subst same
        constructor
        · intro eq
          cases eq
          exact ⟨o, .inr rfl, rfl, rfl⟩
        · rintro ⟨o', mem | rfl, same, rfl⟩
          · exact absurd (List.mem_map.mpr ⟨o', h.sub.subset mem, same⟩) fresh
          · rfl
      case isFalse other =>
        rw [h.known]
        constructor
        · rintro ⟨o', mem, named⟩
          exact ⟨o', .inl mem, named⟩
        · rintro ⟨o', mem | rfl, same, eq⟩
          · exact ⟨o', mem, same, eq⟩
          · exact absurd same other
    · intro o' mem
      rcases List.mem_append.mp mem with mem | mem
      · exact h.apart o' mem
      · rw [List.mem_singleton.mp mem, ← h.same]
        exact free.2
    · exact h.same
    · refine h.complete.trans (and_congr_right fun _ => ?_)
      exact (List.append_left_inj _).symm

/-- **The rows of the groups**, which have different identifiers. -/
theorem Grouped.takeAll {base : Prop} {accounts : Std.ExtTreeMap String Bool} {c : Collection}
    (h : Grouped p base accounts [] [] c) {objects : List Object}
    (once : (objects.map Object.id).Nodup) :
    ∃ kept, Grouped p base accounts objects kept (objects.foldl p.takeGroup c) := by
  induction objects using List.reverseRecOn with
  | nil => exact ⟨[], h⟩
  | append_singleton objects o ih =>
    rw [List.map_append, List.nodup_append] at once
    obtain ⟨kept, grouped⟩ := ih once.1
    rw [List.foldl_append]
    apply grouped.take o
    intro mem
    exact once.2.2 o.id mem o.id (List.mem_singleton_self _) rfl

/-! ## Members -/

/-- A row of the members of a group. -/
abbrev MemberRow := String × Object

/-- The memberships of these rows. -/
structure Joined (p : Provider) (base : Prop) (fixed : Collection) (rows : List MemberRow)
    (c : Collection) : Prop where
  accounts : c.accounts = fixed.accounts
  groups : c.groups = fixed.groups
  listed : ∀ key : MembershipKey,
    key ∈ c.memberships ↔ key ∈ c.snapshot.memberships.map fun x => (x.member, x.group)
  once : (c.snapshot.memberships.map fun x => (x.member, x.group)).Nodup
  joined : ∀ (subject : Subject) (group : EntityKey), (subject, group) ∈ c.memberships ↔
    ∃ row ∈ rows, p.judge fixed row.2 = .joins subject ∧ group = groupKey p.id p.tenantId row.1
  snapshot : c.snapshot.identities = fixed.snapshot.identities ∧
    c.snapshot.accounts = fixed.snapshot.accounts ∧ c.snapshot.groups = fixed.snapshot.groups
  complete : c.snapshot.complete = true ↔
    base ∧ ∀ row ∈ rows, ∀ code, p.judge fixed row.2 ≠ .misses code

theorem judge_eq {c fixed : Collection} (accounts : c.accounts = fixed.accounts)
    (groups : c.groups = fixed.groups) (o : Object) : p.judge c o = p.judge fixed o := by
  unfold Provider.judge
  rw [accounts, groups]

/-- What a row that makes no membership adds. -/
theorem joined_skip {fixed : Collection} {rows : List MemberRow} {row : MemberRow}
    (skip : ∀ subject, p.judge fixed row.2 ≠ .joins subject) (subject : Subject)
    (group : EntityKey) :
    (∃ r ∈ rows, p.judge fixed r.2 = .joins subject ∧ group = groupKey p.id p.tenantId r.1) ↔
      ∃ r ∈ rows ++ [row], p.judge fixed r.2 = .joins subject ∧
        group = groupKey p.id p.tenantId r.1 := by
  constructor
  · rintro ⟨r, mem, joins⟩
    exact ⟨r, List.mem_append_left _ mem, joins⟩
  · rintro ⟨r, mem, joins⟩
    rcases List.mem_append.mp mem with mem | mem
    · exact ⟨r, mem, joins⟩
    · rw [List.mem_singleton.mp mem] at joins
      exact absurd joins.1 (skip subject)

/-- **One row.** -/
theorem Joined.take {base : Prop} {fixed c : Collection} {rows : List MemberRow}
    (h : Joined p base fixed rows c) (observedAt : String) (group : Group) (row : MemberRow)
    (key : group.key = groupKey p.id p.tenantId row.1) :
    Joined p base fixed (rows ++ [row]) (p.takeMember observedAt group c row.2) := by
  unfold Provider.takeMember
  rw [judge_eq h.accounts h.groups]
  -- a row that is not missed leaves the collection complete
  have fine (found : ∀ code, p.judge fixed row.2 ≠ .misses code) : c.snapshot.complete = true ↔
      base ∧ ∀ r ∈ rows ++ [row], ∀ code, p.judge fixed r.2 ≠ .misses code := by
    rw [h.complete, List.forall_mem_append, List.forall_mem_singleton, and_iff_left found]
  cases judged : p.judge fixed row.2 with
  | excluded =>
    have skip (subject : Subject) : p.judge fixed row.2 ≠ .joins subject := by simp [judged]
    exact ⟨h.accounts, h.groups, h.listed, h.once,
      fun subject group => (h.joined subject group).trans (joined_skip skip subject group),
      h.snapshot, fine (by simp [judged])⟩
  | misses code =>
    have skip (subject : Subject) : p.judge fixed row.2 ≠ .joins subject := by simp [judged]
    refine ⟨h.accounts, h.groups, h.listed, h.once,
      fun subject group => (h.joined subject group).trans (joined_skip skip subject group),
      h.snapshot, fun complete => Bool.noConfusion complete, fun ⟨_, all⟩ => ?_⟩
    exact absurd judged (all row (List.mem_append_right _ (List.mem_singleton_self _)) code)
  | joins subject =>
    have here : ∃ r ∈ rows ++ [row], p.judge fixed r.2 = .joins subject ∧
        group.key = groupKey p.id p.tenantId r.1 :=
      ⟨row, List.mem_append_right _ (List.mem_singleton_self _), judged, key⟩
    -- the row joins its subject and its group, and nothing else
    have more (subject' : Subject) (group' : EntityKey) :
        (∃ r ∈ rows ++ [row], p.judge fixed r.2 = .joins subject' ∧
          group' = groupKey p.id p.tenantId r.1) ↔
        (subject, group.key) = (subject', group') ∨ (subject', group') ∈ c.memberships := by
      rw [h.joined]
      constructor
      · rintro ⟨r, mem, joins, named⟩
        rcases List.mem_append.mp mem with mem | mem
        · exact .inr ⟨r, mem, joins, named⟩
        · rw [List.mem_singleton.mp mem, judged, Verdict.joins.injEq] at joins
          rw [List.mem_singleton.mp mem, ← key] at named
          exact .inl (by rw [joins, named])
      · rintro (same | ⟨r, mem, joins, named⟩)
        · cases same
          exact here
        · exact ⟨r, List.mem_append_left _ mem, joins, named⟩
    dsimp only
    split
    case isTrue there =>
      refine ⟨h.accounts, h.groups, h.listed, h.once, fun subject' group' => ?_, h.snapshot,
        fine (by simp [judged])⟩
      rw [more, or_iff_right_of_imp]
      intro same
      cases same
      exact there
    case isFalse new =>
      refine ⟨h.accounts, h.groups, fun entry => ?_, ?_, fun subject' group' => ?_, h.snapshot,
        fine (by simp [judged])⟩
      · rw [mem_insert_key, h.listed, List.map_append, List.mem_append, List.map_singleton,
          List.mem_singleton, or_comm, eq_comm]
      · rw [List.map_append]
        exact nodup_snoc h.once (mt (h.listed _).mpr new)
      · rw [more, mem_insert_key]

/-- **The rows of the members of a group.** -/
theorem Joined.takeAll {base : Prop} {fixed c : Collection} {rows : List MemberRow}
    (h : Joined p base fixed rows c) (observedAt : String) {id : String} {group : Group}
    (key : group.key = groupKey p.id p.tenantId id) (objects : List Object) :
    Joined p base fixed (rows ++ objects.map (id, ·))
      (objects.foldl (p.takeMember observedAt group) c) := by
  refine foldl_rule (fun taken c => Joined p base fixed (rows ++ taken.map (id, ·)) c) ?_ ?_ objects
  · rw [List.map_nil, List.append_nil]
    exact h
  · intro taken o c' joined
    rw [List.map_append, ← List.append_assoc]
    exact joined.take observedAt group (id, o) key

end Permesh.Entra

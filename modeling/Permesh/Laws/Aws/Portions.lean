import Permesh.Laws.Aws.Rows

/-!
# Laws.Aws.Portions — what a principal adds

A group, a user or a role that takes part adds its portion to the snapshot: its entry, its
memberships, its inline policies, and one grant for each policy. The portion does not depend on what
is in the snapshot before (`attachments_plus`), so a run is the sum of the portions.

A step that adds to a snapshot commutes with adding something before it; this is shown for a single
attachment and carried through the loops. Warnings are added in the same way.
-/

namespace Permesh.Aws

open Permesh.Lib

/-- A group, a user or a role that takes part, with its policies. -/
inductive Principal where
  | group (k : EntityKey) (name : String) (attached : List AttachedPolicy)
    (inline : List PolicyDetail)
  | account (k : EntityKey) (name : String) (joins : List String) (attached : List AttachedPolicy)
    (inline : List PolicyDetail)

namespace Principal

/-- The account of a user or a role. -/
def accounts : Principal → List Account
  | .group .. => []
  | .account k name .. => [AwsProvider.principalAccount k name]

def groups : Principal → List Group
  | .group k name .. => [⟨k, name⟩]
  | .account .. => []

def subject : Principal → Subject
  | .group k .. => .group k
  | .account k .. => .account k

def joins : Principal → List String
  | .group .. => []
  | .account _ _ joins .. => joins

def attached : Principal → List AttachedPolicy
  | .group _ _ attached _ => attached
  | .account _ _ _ attached _ => attached

def inline : Principal → List PolicyDetail
  | .group _ _ _ inline => inline
  | .account _ _ _ _ inline => inline

end Principal

/-! ## Sums -/

/-- The lists of another snapshot behind those of this one. -/
def plus (s t : Snapshot) : Snapshot :=
  { s with
    accounts := s.accounts ++ t.accounts
    groups := s.groups ++ t.groups
    resources := s.resources ++ t.resources
    memberships := s.memberships ++ t.memberships
    grants := s.grants ++ t.grants }

def State.plus (s t : State) : State := ⟨Aws.plus s.snapshot t.snapshot, s.warnings ∪ t.warnings⟩

theorem union_insert (w w' : Std.ExtTreeSet String) (code : String) :
    (w ∪ w').insert code = w ∪ w'.insert code := by
  apply Std.ExtTreeSet.ext_mem
  intro code'
  simp only [Std.ExtTreeSet.mem_union_iff, mem_insert_key]
  exact or_left_comm

theorem State.plus_warn (s t : State) (code : String) :
    (s.plus t).warn code = s.plus (t.warn code) := by
  rw [State.warn, State.plus, union_insert]
  rfl

theorem union_eq_empty {w w' : Std.ExtTreeSet String} : w ∪ w' = ∅ ↔ w = ∅ ∧ w' = ∅ := by
  simp only [Std.ExtTreeSet.eq_empty_iff_forall_not_mem, Std.ExtTreeSet.mem_union_iff, not_or,
    forall_and]

/-- What is read off a sum is what is read off its parts, one behind the other. -/
theorem sum_read {α β : Type} (read : Snapshot → List α)
    (additive : ∀ s t, read (plus s t) = read s ++ read t) (part : β → Snapshot)
    (start : Snapshot) (xs : List β) :
    read (xs.foldl (fun s x => plus s (part x)) start) =
      read start ++ xs.flatMap fun x => read (part x) := by
  induction xs generalizing start with
  | nil => simp
  | cons x xs ih => rw [List.foldl_cons, ih, additive, List.flatMap_cons, List.append_assoc]

/-! ## Portions -/

section

variable (p : AwsProvider) (policies : Std.ExtTreeMap String Resource)
  (names : Std.ExtTreeMap String EntityKey) (provenance : Provenance)

/-- Nothing yet. -/
def nothing : State := ⟨Snapshot.new p.id, ∅⟩

/-- The entry of a principal, with its memberships. -/
def entered : Principal → State
  | .group k name .. =>
    { nothing p with snapshot := { (nothing p).snapshot with groups := [⟨k, name⟩] } }
  | .account k name joins .. =>
    joins.foldl (AwsProvider.join provenance names k)
      { nothing p with
        snapshot := { (nothing p).snapshot with accounts := [AwsProvider.principalAccount k name] } }

/-- The policies of a subject, found behind a state. -/
def attaching (s : State) (x : Principal) : Attaching :=
  x.inline.foldl (p.inlined (sid x.subject)) (x.attached.foldl (attach policies) ⟨s, ∅, ∅⟩)

/-- The grants of what was found. -/
def granted (subject : Subject) (t : Attaching) : State :=
  { t.state with
    snapshot := { t.state.snapshot with
      grants := t.state.snapshot.grants ++
        t.targets.toList.map (attachment provenance subject) } }

def portion (x : Principal) : State :=
  granted provenance x.subject (attaching p policies (entered p names provenance x) x)

/-- What was found behind a state, behind another one. -/
def Attaching.behind (s : State) (t : Attaching) : Attaching := { t with state := s.plus t.state }

theorem attach_behind (s : State) (t : Attaching) (a : AttachedPolicy) :
    attach policies (t.behind s) a = (attach policies t a).behind s := by
  unfold attach
  cases a.policyArn.bind fun arn => policies[arn]? with
  | none =>
    dsimp only [Attaching.behind]
    rw [State.plus_warn]
  | some resource =>
    dsimp only [Attaching.behind]
    split
    · rw [State.plus_warn]
    · rfl

theorem inlined_behind (sid : String) (s : State) (t : Attaching) (a : PolicyDetail) :
    p.inlined sid (t.behind s) a = (p.inlined sid t a).behind s := by
  unfold AwsProvider.inlined
  cases a.policyName.filter fun v => p.safe v && !v.toList.contains ':' with
  | none =>
    dsimp only [Attaching.behind]
    rw [State.plus_warn]
  | some name =>
    dsimp only
    by_cases old : name ∈ t.names
    · rw [if_pos (show name ∈ (t.behind s).names from old), if_pos old]
      simp only [Attaching.behind, State.plus_warn]
    · rw [if_neg (show name ∉ (t.behind s).names from old), if_neg old]
      simp only [Attaching.behind, State.plus, plus, List.append_assoc]

/-- Steps that do not see what is there before. -/
theorem foldl_behind {β : Type} {step : Attaching → β → Attaching}
    (h : ∀ s t b, step (t.behind s) b = (step t b).behind s) (s : State) (t : Attaching)
    (l : List β) : l.foldl step (t.behind s) = (l.foldl step t).behind s :=
  List.foldl_hom (Attaching.behind s) (h s)

theorem attaching_plus (s t : State) (x : Principal) :
    attaching p policies (s.plus t) x = (attaching p policies t x).behind s := by
  have attached := foldl_behind (attach_behind policies) s ⟨t, ∅, ∅⟩ x.attached
  have inline := foldl_behind (inlined_behind p (sid x.subject)) s
    (x.attached.foldl (attach policies) ⟨t, ∅, ∅⟩) x.inline
  rw [← attached] at inline
  exact inline

/-- **What `attachments` adds does not depend on what was there.** -/
theorem attachments_plus (s t : State) (x : Principal) :
    p.attachments policies provenance (s.plus t) x.subject x.attached x.inline =
      (let s' := s.plus (granted provenance x.subject (attaching p policies t x))
      if total s'.snapshot > MAX_ROWS then .error (error "limit") else .ok s') := by
  have whole : p.attachments policies provenance (s.plus t) x.subject x.attached x.inline =
      (let s' := granted provenance x.subject (attaching p policies (s.plus t) x)
      if total s'.snapshot > MAX_ROWS then .error (error "limit") else .ok s') := rfl
  rw [whole, attaching_plus]
  have sum : granted provenance x.subject ((attaching p policies t x).behind s) =
      s.plus (granted provenance x.subject (attaching p policies t x)) := by
    simp only [granted, Attaching.behind, State.plus, plus, List.append_assoc]
  rw [sum]

theorem join_plus (k : EntityKey) (s t : State) (name : String) :
    AwsProvider.join provenance names k (s.plus t) name =
      s.plus (AwsProvider.join provenance names k t name) := by
  unfold AwsProvider.join
  cases names[name]? with
  | none => exact State.plus_warn ..
  | some g => simp only [State.plus, plus, List.append_assoc]

/-! ## What a portion holds -/

/-- A managed policy of a principal, by its resource. -/
def Managed (attached : List AttachedPolicy) (r : Resource) : Prop :=
  ∃ a ∈ attached, ∃ arn, a.policyArn = some arn ∧ policies[arn]? = some r ∧
    a.policyName = some r.name

/-- What the managed policies of a principal are. -/
structure Targeted (s : State) (attached : List AttachedPolicy) (t : Attaching) : Prop where
  snapshot : t.state.snapshot = s.snapshot
  names : t.names = ∅
  targets : ∀ (k : EntityKey) role, t.targets[k]? = some role →
    ∃ r, Managed policies attached r ∧ r.key = k ∧ r.name = role
  clean : t.state.warnings = ∅ → s.warnings = ∅ ∧ ∀ a ∈ attached, ∃ arn r,
    a.policyArn = some arn ∧ policies[arn]? = some r ∧ a.policyName = some r.name ∧
      r.key ∈ t.targets

variable {policies}

theorem Managed.mono {attached : List AttachedPolicy} {r : Resource}
    (h : Managed policies attached r) (a : AttachedPolicy) :
    Managed policies (attached ++ [a]) r := by
  obtain ⟨a', mem, rest⟩ := h
  exact ⟨a', List.mem_append_left _ mem, rest⟩

theorem warn_clean {s : State} {code : String} {P : Prop} (clean : (s.warn code).warnings = ∅) :
    P := absurd clean insert_ne_empty

theorem Targeted.attach {s : State} {attached : List AttachedPolicy} {t : Attaching}
    (h : Targeted policies s attached t) (a : AttachedPolicy) :
    Targeted policies s (attached ++ [a]) (attach policies t a) := by
  have targets (k : EntityKey) (role : String) (there : t.targets[k]? = some role) :
      ∃ r, Managed policies (attached ++ [a]) r ∧ r.key = k ∧ r.name = role := by
    obtain ⟨r, managed, key, name⟩ := h.targets k role there
    exact ⟨r, managed.mono a, key, name⟩
  unfold Aws.attach
  cases found : a.policyArn.bind fun arn => policies[arn]? with
  | none => exact ⟨h.snapshot, h.names, targets, warn_clean⟩
  | some resource =>
    obtain ⟨arn, harn, known⟩ := Option.bind_eq_some_iff.mp found
    dsimp only
    split
    · exact ⟨h.snapshot, h.names, targets, warn_clean⟩
    case isFalse same =>
      have named : a.policyName = some resource.name := Decidable.not_not.mp same
      refine ⟨h.snapshot, h.names, fun k role there => ?_, fun clean => ?_⟩
      · rw [getElem?_insert_key] at there
        split at there
        case isTrue here =>
          cases there
          exact ⟨resource, ⟨a, by simp, arn, harn, known, named⟩, here, rfl⟩
        case isFalse => exact targets k role there
      · obtain ⟨start, all⟩ := h.clean clean
        refine ⟨start, forall_mem_snoc (fun a' mem => ?_)
          ⟨arn, resource, harn, known, named, mem_insert_map.mpr (.inl rfl)⟩⟩
        obtain ⟨arn', r, harn', known', named', there⟩ := all a' mem
        exact ⟨arn', r, harn', known', named', mem_insert_map.mpr (.inr there)⟩

variable {p}

/-- What the inline policies of a principal are, by their names. -/
structure Inlined (p : AwsProvider) (sid : String) (t₀ : Attaching) (inline : List PolicyDetail)
    (found : List String) (t : Attaching) : Prop where
  snapshot : t.state.snapshot = { t₀.state.snapshot with
    resources := t₀.state.snapshot.resources ++ found.map (p.inlineResource sid) }
  names : ∀ n, n ∈ t.names ↔ n ∈ found
  once : found.Nodup
  legal : ∀ n ∈ found, (∃ a ∈ inline, a.policyName = some n) ∧ ':' ∉ n.toList
  targets : ∀ (k : EntityKey) role, t.targets[k]? = some role → t₀.targets[k]? = some role ∨
    ∃ n ∈ found, k = (p.inlineResource sid n).key ∧ role = n
  old : ∀ k ∈ t₀.targets, k ∈ t.targets
  new : ∀ n ∈ found, (p.inlineResource sid n).key ∈ t.targets
  clean : t.state.warnings = ∅ →
    t₀.state.warnings = ∅ ∧ ∀ a ∈ inline, ∃ n ∈ found, a.policyName = some n

theorem Inlined.inlined {sid : String} {t₀ t : Attaching} {inline : List PolicyDetail}
    {found : List String} (h : Inlined p sid t₀ inline found t) (a : PolicyDetail) :
    ∃ found', Inlined p sid t₀ (inline ++ [a]) found' (p.inlined sid t a) := by
  have legal (n : String) (mem : n ∈ found) :
      (∃ a' ∈ inline ++ [a], a'.policyName = some n) ∧ ':' ∉ n.toList := by
    obtain ⟨⟨a', there, name⟩, plain⟩ := h.legal n mem
    exact ⟨⟨a', List.mem_append_left _ there, name⟩, plain⟩
  unfold AwsProvider.inlined
  cases hname : a.policyName.filter fun v => p.safe v && !v.toList.contains ':' with
  | none =>
    exact ⟨found, h.snapshot, h.names, h.once, legal, h.targets, h.old, h.new, warn_clean⟩
  | some name =>
    obtain ⟨named, passes⟩ := Option.filter_eq_some_iff.mp hname
    dsimp only
    split
    · exact ⟨found, h.snapshot, h.names, h.once, legal, h.targets, h.old, h.new, warn_clean⟩
    case isFalse fresh =>
      have plain : ':' ∉ name.toList := by simpa using (Bool.and_eq_true_iff.mp passes).2
      rw [h.names] at fresh
      refine ⟨found ++ [name], ?_, fun n => ?_, ?_,
        forall_mem_snoc legal ⟨⟨a, by simp, named⟩, plain⟩, fun k role there => ?_,
        fun k mem => mem_insert_map.mpr (.inr (h.old k mem)),
        forall_mem_snoc (fun n mem => mem_insert_map.mpr (.inr (h.new n mem)))
          (mem_insert_map.mpr (.inl rfl)), fun clean => ?_⟩
      · simp only [h.snapshot, List.map_append, List.map_singleton, List.append_assoc]
      · rw [mem_insert_key, h.names, List.mem_append, List.mem_singleton, or_comm, eq_comm]
      · exact nodup_snoc h.once fresh
      · rw [getElem?_insert_key] at there
        split at there
        case isTrue here =>
          cases there
          exact .inr ⟨name, by simp, here.symm, rfl⟩
        case isFalse =>
          apply (h.targets k role there).imp_right
          rintro ⟨n, mem, rest⟩
          exact ⟨n, List.mem_append_left _ mem, rest⟩
      · obtain ⟨start, all⟩ := h.clean clean
        refine ⟨start, forall_mem_snoc (fun a' mem => ?_) ⟨name, by simp, named⟩⟩
        obtain ⟨n, there, name⟩ := all a' mem
        exact ⟨n, List.mem_append_left _ there, name⟩

end

section

variable (p : AwsProvider) (policies : Std.ExtTreeMap String Resource)
  (names : Std.ExtTreeMap String EntityKey) (provenance : Provenance)

/-- The policies of a principal. -/
theorem attaching_found (s : State) (x : Principal) : ∃ found,
    ∃ t₀, Targeted policies s x.attached t₀ ∧
      Inlined p (sid x.subject) t₀ x.inline found (attaching p policies s x) := by
  have start : Targeted policies s [] ⟨s, ∅, ∅⟩ :=
    ⟨rfl, rfl, fun k role there => (by rw [Std.ExtTreeMap.getElem?_empty] at there; cases there),
      fun clean => ⟨clean, nofun⟩⟩
  have targeted := foldl_rule (Targeted policies s) start (fun _ a _ h => h.attach a) x.attached
  refine foldl_rule (fun before t => ∃ found, ∃ t₀, Targeted policies s x.attached t₀ ∧
    Inlined p (sid x.subject) t₀ before found t) ⟨[], _, targeted, ?_⟩ ?_ x.inline
  · refine ⟨by simp, fun n => ?_, List.nodup_nil, nofun, fun _ _ => .inl, fun _ mem => mem, nofun,
      fun clean => ⟨clean, nofun⟩⟩
    rw [targeted.names]
    simp
  · rintro before a t ⟨found, t₀, first, h⟩
    obtain ⟨found', next⟩ := h.inlined a
    exact ⟨found', t₀, first, next⟩

/-- The memberships of a principal. -/
theorem entered_eq (x : Principal) : (entered p names provenance x).snapshot =
      { (nothing p).snapshot with
        accounts := x.accounts
        groups := x.groups
        memberships := (x.joins.filterMap fun n => names[n]?).map fun g =>
          ⟨x.subject, g, provenance⟩ } ∧
    ((entered p names provenance x).warnings = ∅ → ∀ n ∈ x.joins, ∃ g, names[n]? = some g) := by
  cases x with
  | group k name _ _ => exact ⟨rfl, fun _ => nofun⟩
  | account k name joins _ _ =>
    refine foldl_rule (fun before (s : State) => s.snapshot = { (nothing p).snapshot with
        accounts := [AwsProvider.principalAccount k name]
        memberships := (before.filterMap fun n => names[n]?).map fun g =>
          ⟨.account k, g, provenance⟩ } ∧
      (s.warnings = ∅ → ∀ n ∈ before, ∃ g, names[n]? = some g)) ?_ ?_ joins
    · exact ⟨rfl, fun _ => nofun⟩
    rintro before n s ⟨snapshot, clean⟩
    unfold AwsProvider.join
    cases found : names[n]? with
    | none =>
      refine ⟨?_, warn_clean⟩
      rw [List.filterMap_append, List.filterMap_cons_none found, List.filterMap_nil,
        List.append_nil]
      exact snapshot
    | some g =>
      refine ⟨?_, fun none n' mem => ?_⟩
      · simp only [snapshot, List.filterMap_append, List.filterMap_cons_some found,
          List.filterMap_nil, List.map_append, List.map_singleton]
      · rcases List.mem_append.mp mem with mem | mem
        · exact clean none n' mem
        · rw [List.mem_singleton.mp mem]
          exact ⟨g, found⟩

/-- The portion of a principal, with the names of its inline policies. -/
structure Holds (x : Principal) (found : List String) (s : State) : Prop where
  accounts : s.snapshot.accounts = x.accounts
  groups : s.snapshot.groups = x.groups
  memberships : s.snapshot.memberships =
    (x.joins.filterMap fun n => names[n]?).map fun g => ⟨x.subject, g, provenance⟩
  resources : s.snapshot.resources = found.map (p.inlineResource (sid x.subject))
  once : found.Nodup
  legal : ∀ n ∈ found, (∃ a ∈ x.inline, a.policyName = some n) ∧ ':' ∉ n.toList
  grants : ∀ g ∈ s.snapshot.grants, ∃ r, g = attachment provenance x.subject (r.key, r.name) ∧
    (Managed policies x.attached r ∨ ∃ n ∈ found, r = p.inlineResource (sid x.subject) n)
  targets : (s.snapshot.grants.map (·.resource)).Nodup
  joined : s.warnings = ∅ → ∀ n ∈ x.joins, ∃ g, names[n]? = some g
  attached : s.warnings = ∅ → ∀ a ∈ x.attached, ∃ arn r, a.policyArn = some arn ∧
    policies[arn]? = some r ∧ a.policyName = some r.name ∧
      ∃ g ∈ s.snapshot.grants, g.resource = r.key
  inline : s.warnings = ∅ → ∀ a ∈ x.inline, ∃ n ∈ found, a.policyName = some n ∧
    ∃ g ∈ s.snapshot.grants, g.resource = (p.inlineResource (sid x.subject) n).key

/-- **What the portion of a principal is.** -/
theorem portion_holds (x : Principal) : ∃ found,
    Holds p policies names provenance x found (portion p policies names provenance x) := by
  obtain ⟨entry, joined⟩ := entered_eq p names provenance x
  obtain ⟨found, t₀, first, last⟩ :=
    attaching_found p policies (entered p names provenance x) x
  refine ⟨found, ?_⟩
  have snapshot := last.snapshot
  rw [first.snapshot, entry] at snapshot
  have target (k : EntityKey) (there : k ∈ (attaching p policies
      (entered p names provenance x) x).targets) :
      ∃ g ∈ (portion p policies names provenance x).snapshot.grants, g.resource = k := by
    obtain ⟨role, there⟩ := Option.isSome_iff_exists.mp
      (Std.ExtTreeMap.mem_iff_isSome_getElem?.mp there)
    refine ⟨attachment provenance x.subject (k, role), List.mem_append_right _ ?_, rfl⟩
    exact List.mem_map_of_mem (Std.ExtTreeMap.mem_toList_iff_getElem?_eq_some.mpr there)
  have grants : (portion p policies names provenance x).snapshot.grants =
      (attaching p policies (entered p names provenance x) x).targets.toList.map
        (attachment provenance x.subject) := by
    show (attaching p policies (entered p names provenance x) x).state.snapshot.grants ++ _ = _
    rw [snapshot]
    rfl
  constructor
  · exact congrArg Snapshot.accounts snapshot
  · exact congrArg Snapshot.groups snapshot
  · exact congrArg Snapshot.memberships snapshot
  · exact congrArg Snapshot.resources snapshot
  · exact last.once
  · exact last.legal
  · intro g mem
    rw [grants] at mem
    obtain ⟨⟨k, role⟩, there, rfl⟩ := List.mem_map.mp mem
    rw [Std.ExtTreeMap.mem_toList_iff_getElem?_eq_some] at there
    rcases last.targets k role there with there | ⟨n, known, rfl, rfl⟩
    · obtain ⟨r, managed, rfl, rfl⟩ := first.targets k role there
      exact ⟨r, rfl, .inl managed⟩
    · exact ⟨p.inlineResource (sid x.subject) role, rfl, .inr ⟨role, known, rfl⟩⟩
  · rw [grants, List.map_map]
    have keys := Std.ExtTreeMap.nodup_keys
      (t := (attaching p policies (entered p names provenance x) x).targets)
    rwa [← Std.ExtTreeMap.map_fst_toList_eq_keys] at keys
  · intro none
    exact joined (first.clean (last.clean none).1).1
  · intro none a mem
    obtain ⟨arn, r, harn, known, named, there⟩ := (first.clean (last.clean none).1).2 a mem
    exact ⟨arn, r, harn, known, named, target _ (last.old _ there)⟩
  · intro none a mem
    obtain ⟨n, there, named⟩ := (last.clean none).2 a mem
    exact ⟨n, there, named, target _ (last.new n there)⟩

end

end Permesh.Aws

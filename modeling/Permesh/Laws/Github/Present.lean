import Permesh.Laws.Github.Outcome

/-!
# Laws.Github.Present — what is in the finished graph

The verdicts, said of the rows themselves: an account, a repository or a team is in the finished
graph exactly when all rows seen with its identifier agree, and a grant exactly when its two ends
are kept and all its reports agree.

Agreement is unfolded into statements about rows, one for each kind of entity. Nothing here looks at the
collection again: it is used through `Expected` only.
-/

namespace Permesh.Github

open Permesh.Json Permesh.Lib

/-! ## Agreement of rows -/

section Rows

variable (p : String) (observations : List Observation)

/-- The row was seen as an account with this identifier. -/
def SeenAccount (id : Nat) (row : Value) : Prop :=
  nativeId row = some id ∧ ∃ ms gs, .account row ms gs ∈ observations

def SeenRepository (id : Nat) (row : Value) : Prop :=
  nativeId row = some id ∧ .repository row ∈ observations

def SeenTeam (id : Nat) (row : Value) (org : String) : Prop :=
  nativeId row = some id ∧ .team row org ∈ observations

/-- Every row has a valid login and no malformed type; they have one login and at most one
explicit type. -/
structure AccountAgrees (id : Nat) : Prop where
  seen : ∃ row, SeenAccount observations id row
  login : ∃ login, ∀ row, SeenAccount observations id row → field row "login" = some login
  formed : ∀ row, SeenAccount observations id row →
    (row.get "type").isSome = true → (field row "type").isSome = true
  type : ∀ row row', SeenAccount observations id row → SeenAccount observations id row' →
    ∀ ty ty', field row "type" = some ty → field row' "type" = some ty' → ty = ty'

/-- All rows parse to one full name. -/
structure RepositoryAgrees (id : Nat) : Prop where
  seen : ∃ row, SeenRepository observations id row
  name : ∃ name, ∀ row, SeenRepository observations id row →
    (fullName row).map Prod.fst = some name

/-- All rows parse to one organization, slug and name. -/
structure TeamAgrees (id : Nat) : Prop where
  seen : ∃ row org, SeenTeam observations id row org
  metadata : ∃ metadata, ∀ row org, SeenTeam observations id row org →
    rowTeam row org = some metadata

/-- The key is that of an account or team whose rows were seen and do not agree. -/
def SubjectDisagrees : Subject → Prop
  | .account k => ∃ id, k = ⟨p, toString id⟩ ∧ (∃ row, SeenAccount observations id row) ∧
      ¬AccountAgrees observations id
  | .group k => ∃ id, k = ⟨p, s!"team:{id}"⟩ ∧ (∃ row org, SeenTeam observations id row org) ∧
      ¬TeamAgrees observations id

def ResourceDisagrees (k : EntityKey) : Prop :=
  ∃ id, k = ⟨p, s!"repository:{id}"⟩ ∧ (∃ row, SeenRepository observations id row) ∧
    ¬RepositoryAgrees observations id

/-- Subject and resource are not excluded, and all observations of the claim carried one role and
privilege. -/
structure ClaimAgrees (k : GrantKey) : Prop where
  subject : ¬SubjectDisagrees p observations k.2.1
  resource : ¬ResourceDisagrees p observations k.2.2
  report : ∃ report, (k, report) ∈ observations.flatMap (claims p) ∧
    ∀ report', (k, report') ∈ observations.flatMap (claims p) → report' = report

end Rows

variable {p t : String} {observations : List Observation}

/-! ## Verdicts and rows -/

theorem accountKey_eq {row : Value} {id : Nat} :
    accountKey p row = some ⟨p, toString id⟩ ↔ nativeId row = some id := by
  rw [accountKey, Option.map_eq_some_iff]
  constructor
  · rintro ⟨id', h, same⟩
    rw [h, Text.toString_injective (EntityKey.mk.inj same).2]
  · intro h
    exact ⟨id, h, rfl⟩

theorem repositoryKey_eq {row : Value} {id : Nat} :
    repositoryKey p row = some ⟨p, s!"repository:{id}"⟩ ↔ nativeId row = some id := by
  rw [repositoryKey, Option.map_eq_some_iff]
  constructor
  · rintro ⟨id', h, same⟩
    rw [h, Text.toString_injective ((String.append_right_inj _).mp (EntityKey.mk.inj same).2)]
  · intro h
    exact ⟨id, h, rfl⟩

theorem teamKey_eq {row : Value} {id : Nat} :
    teamKey p row = some ⟨p, s!"team:{id}"⟩ ↔ nativeId row = some id := by
  rw [teamKey, Option.map_eq_some_iff]
  constructor
  · rintro ⟨id', h, same⟩
    rw [h, Text.toString_injective ((String.append_right_inj _).mp (EntityKey.mk.inj same).2)]
  · intro h
    exact ⟨id, h, rfl⟩

theorem mem_logins {id : Nat} {x : Option String} :
    x ∈ observations.flatMap (logins p ⟨p, toString id⟩) ↔
      ∃ row, SeenAccount observations id row ∧ rowLogin row = x := by
  rw [List.mem_flatMap]
  constructor
  · rintro ⟨o, ho, hx⟩
    cases o with
    | account row ms gs =>
      rw [logins] at hx
      split at hx
      case isTrue hk => exact ⟨row, ⟨accountKey_eq.mp hk, ms, gs, ho⟩, (List.mem_singleton.mp hx).symm⟩
      case isFalse => cases hx
    | _ => cases hx
  · rintro ⟨row, ⟨hid, ms, gs, ho⟩, rfl⟩
    refine ⟨_, ho, ?_⟩
    rw [logins, if_pos (accountKey_eq.mpr hid)]
    exact List.mem_singleton.mpr rfl

theorem mem_types {id : Nat} {x : Option String} :
    x ∈ observations.flatMap (types p ⟨p, toString id⟩) ↔
      ∃ row, SeenAccount observations id row ∧ ∃ ty, field row "type" = some ty ∧ x = some ty := by
  rw [List.mem_flatMap]
  constructor
  · rintro ⟨o, ho, hx⟩
    cases o with
    | account row ms gs =>
      rw [types] at hx
      split at hx
      case isTrue hk =>
        rw [Option.mem_toList, Option.map_eq_some_iff] at hx
        obtain ⟨ty, hty, same⟩ := hx
        exact ⟨row, ⟨accountKey_eq.mp hk, ms, gs, ho⟩, ty, hty, same.symm⟩
      case isFalse => cases hx
    | _ => cases hx
  · rintro ⟨row, ⟨hid, ms, gs, ho⟩, ty, hty, rfl⟩
    refine ⟨_, ho, ?_⟩
    rw [types, if_pos (accountKey_eq.mpr hid), hty]
    exact List.mem_singleton.mpr rfl

theorem mem_names {id : Nat} {x : Option String} :
    x ∈ observations.flatMap (names p ⟨p, s!"repository:{id}"⟩) ↔
      ∃ row, SeenRepository observations id row ∧ (fullName row).map Prod.fst = x := by
  rw [List.mem_flatMap]
  constructor
  · rintro ⟨o, ho, hx⟩
    cases o with
    | repository row =>
      rw [names] at hx
      split at hx
      case isTrue hk => exact ⟨row, ⟨repositoryKey_eq.mp hk, ho⟩, (List.mem_singleton.mp hx).symm⟩
      case isFalse => cases hx
    | _ => cases hx
  · rintro ⟨row, ⟨hid, ho⟩, rfl⟩
    refine ⟨_, ho, ?_⟩
    rw [names, if_pos (repositoryKey_eq.mpr hid)]
    exact List.mem_singleton.mpr rfl

theorem mem_teamRows {id : Nat} {x : Option (String × String × String)} :
    x ∈ observations.flatMap (teamRows p ⟨p, s!"team:{id}"⟩) ↔
      ∃ row org, SeenTeam observations id row org ∧ rowTeam row org = x := by
  rw [List.mem_flatMap]
  constructor
  · rintro ⟨o, ho, hx⟩
    cases o with
    | team row org =>
      rw [teamRows] at hx
      split at hx
      case isTrue hk => exact ⟨row, org, ⟨teamKey_eq.mp hk, ho⟩, (List.mem_singleton.mp hx).symm⟩
      case isFalse => cases hx
    | _ => cases hx
  · rintro ⟨row, org, ⟨hid, ho⟩, rfl⟩
    refine ⟨_, ho, ?_⟩
    rw [teamRows, if_pos (teamKey_eq.mpr hid)]
    exact List.mem_singleton.mpr rfl

/-- A row with a valid login and no malformed type. -/
theorem rowLogin_eq_some_iff {row : Value} {login : String} :
    rowLogin row = some login ↔ field row "login" = some login ∧
      ((row.get "type").isSome = true → (field row "type").isSome = true) := by
  constructor
  · intro h
    rw [rowLogin, Option.filter_eq_some_iff] at h
    refine ⟨h.1, fun typed => ?_⟩
    have formed := h.2
    rw [typed, Bool.true_and, Bool.not_eq_true', Option.isNone_eq_false_iff] at formed
    exact formed
  · rintro ⟨named, formed⟩
    apply rowLogin_eq_some named
    rintro ⟨typed, none⟩
    have := formed typed
    rw [none] at this
    cases this

theorem expectedAccount_agrees {id : Nat} :
    (expectedAccount p observations ⟨p, toString id⟩).isSome = true ↔
      AccountAgrees observations id := by
  have typeAgreed : accountType p observations ⟨p, toString id⟩ ≠ .conflict ↔
      ∀ row row', SeenAccount observations id row → SeenAccount observations id row' →
        ∀ ty ty', field row "type" = some ty → field row' "type" = some ty' → ty = ty' := by
    constructor
    · intro ne row row' seen seen' ty ty' h h'
      have mem : some ty ∈ observations.flatMap (types p ⟨p, toString id⟩) :=
        mem_types.mpr ⟨row, seen, ty, h, rfl⟩
      have mem' : some ty' ∈ observations.flatMap (types p ⟨p, toString id⟩) :=
        mem_types.mpr ⟨row', seen', ty', h', rfl⟩
      cases hv : accountType p observations ⟨p, toString id⟩ with
      | unseen =>
        rw [accountType, Agreement.of_eq_unseen] at hv
        rw [hv] at mem
        cases mem
      | agreed a =>
        have all := (Agreement.of_eq_agreed.mp hv).2
        rw [Option.some.inj (all _ mem), Option.some.inj (all _ mem')]
      | conflict => exact absurd hv ne
    · intro one hv
      obtain ⟨ne, differ⟩ := Agreement.of_eq_conflict.mp hv
      obtain ⟨x, hx⟩ := List.exists_mem_of_ne_nil _ ne
      obtain ⟨row, seen, ty, h, rfl⟩ := mem_types.mp hx
      obtain ⟨y, hy, hne⟩ := differ ty
      obtain ⟨row', seen', ty', h', rfl⟩ := mem_types.mp hy
      exact hne (by rw [one row row' seen seen' ty ty' h h'])
  constructor
  · intro present
    rw [expectedAccount] at present
    split at present
    case isTrue => cases present
    case isFalse clean =>
      rw [ExcludedAccount, not_or] at clean
      rw [Option.isSome_map] at present
      cases hv : accountLogin p observations ⟨p, toString id⟩ with
      | agreed login =>
        obtain ⟨ne, all⟩ := Agreement.of_eq_agreed.mp hv
        obtain ⟨x, hx⟩ := List.exists_mem_of_ne_nil _ ne
        obtain ⟨row, seen, -⟩ := mem_logins.mp hx
        have named (row : Value) (h : SeenAccount observations id row) :=
          rowLogin_eq_some_iff.mp (all _ (mem_logins.mpr ⟨row, h, rfl⟩))
        exact ⟨⟨row, seen⟩, ⟨login, fun row h => (named row h).1⟩, fun row h => (named row h).2,
          typeAgreed.mp clean.2⟩
      | _ =>
        rw [hv] at present
        cases present
  · rintro ⟨⟨row, seen⟩, ⟨login, named⟩, formed, type⟩
    have hv : accountLogin p observations ⟨p, toString id⟩ = .agreed login := by
      refine Agreement.of_eq_agreed.mpr ⟨fun none => ?_, fun x hx => ?_⟩
      · have := (mem_logins (p := p)).mpr ⟨row, seen, rfl⟩
        rw [none] at this
        cases this
      · obtain ⟨row, seen, rfl⟩ := mem_logins.mp hx
        exact rowLogin_eq_some_iff.mpr ⟨named row seen, formed row seen⟩
    have clean : ¬ExcludedAccount p observations ⟨p, toString id⟩ := by
      rintro (conflict | conflict)
      · rw [hv] at conflict
        cases conflict
      · exact typeAgreed.mpr type conflict
    rw [expectedAccount, if_neg clean, hv]
    rfl

/-! ## Keys -/

/-- Only an account row speaks of an account key. -/
theorem key_of_logins {k : EntityKey} (h : observations.flatMap (logins p k) ≠ []) :
    ∃ id : Nat, k = ⟨p, toString id⟩ := by
  obtain ⟨x, hx⟩ := List.exists_mem_of_ne_nil _ h
  obtain ⟨o, -, hx⟩ := List.mem_flatMap.mp hx
  cases o with
  | account row ms gs =>
    rw [logins] at hx
    split at hx
    case isTrue hk =>
      obtain ⟨id, -, rfl⟩ := Option.map_eq_some_iff.mp hk
      exact ⟨id, rfl⟩
    case isFalse => cases hx
  | _ => cases hx

theorem key_of_names {k : EntityKey} (h : observations.flatMap (names p k) ≠ []) :
    ∃ id : Nat, k = ⟨p, s!"repository:{id}"⟩ := by
  obtain ⟨x, hx⟩ := List.exists_mem_of_ne_nil _ h
  obtain ⟨o, -, hx⟩ := List.mem_flatMap.mp hx
  cases o with
  | repository row =>
    rw [names] at hx
    split at hx
    case isTrue hk =>
      obtain ⟨id, -, rfl⟩ := Option.map_eq_some_iff.mp hk
      exact ⟨id, rfl⟩
    case isFalse => cases hx
  | _ => cases hx

theorem key_of_teamRows {k : EntityKey} (h : observations.flatMap (teamRows p k) ≠ []) :
    ∃ id : Nat, k = ⟨p, s!"team:{id}"⟩ := by
  obtain ⟨x, hx⟩ := List.exists_mem_of_ne_nil _ h
  obtain ⟨o, -, hx⟩ := List.mem_flatMap.mp hx
  cases o with
  | team row org =>
    rw [teamRows] at hx
    split at hx
    case isTrue hk =>
      obtain ⟨id, -, rfl⟩ := Option.map_eq_some_iff.mp hk
      exact ⟨id, rfl⟩
    case isFalse => cases hx
  | _ => cases hx

/-- What is agreed on, or in conflict, was seen. -/
theorem ne_nil_of_value {α : Type} [DecidableEq α] {seen : List (Option α)}
    (h : (Agreement.of seen).value.isSome = true ∨ Agreement.of seen = .conflict) : seen ≠ [] := by
  rintro rfl
  rcases h with h | h <;> cases h

/-- An account is expected exactly when its rows agree. -/
theorem account_present {k : EntityKey} : (expectedAccount p observations k).isSome = true ↔
    ∃ id, k = ⟨p, toString id⟩ ∧ AccountAgrees observations id := by
  constructor
  · intro present
    have seen : observations.flatMap (logins p k) ≠ [] := by
      apply ne_nil_of_value
      rw [expectedAccount] at present
      split at present
      · cases present
      · rw [Option.isSome_map] at present
        exact .inl present
    obtain ⟨id, rfl⟩ := key_of_logins seen
    exact ⟨id, rfl, expectedAccount_agrees.mp present⟩
  · rintro ⟨id, rfl, agrees⟩
    exact expectedAccount_agrees.mpr agrees

theorem account_excluded {k : EntityKey} : ExcludedAccount p observations k ↔
    ∃ id, k = ⟨p, toString id⟩ ∧ (∃ row, SeenAccount observations id row) ∧
      ¬AccountAgrees observations id := by
  constructor
  · intro excluded
    have seen : observations.flatMap (logins p k) ≠ [] := by
      intro none
      have unseen : accountLogin p observations k = .unseen := by
        rw [accountLogin, none]
        rfl
      rcases excluded with conflict | conflict
      · rw [unseen] at conflict
        cases conflict
      · rw [accountType_unseen unseen] at conflict
        cases conflict
    obtain ⟨id, rfl⟩ := key_of_logins seen
    refine ⟨id, rfl, ?_, fun agrees => ?_⟩
    · obtain ⟨x, hx⟩ := List.exists_mem_of_ne_nil _ seen
      obtain ⟨row, hrow, -⟩ := mem_logins.mp hx
      exact ⟨row, hrow⟩
    · have := expectedAccount_agrees (p := p).mpr agrees
      rw [expectedAccount, if_pos excluded] at this
      cases this
  · rintro ⟨id, rfl, ⟨row, seen⟩, disagrees⟩
    by_contra clean
    apply disagrees
    rw [← expectedAccount_agrees (p := p), expectedAccount, if_neg clean, Option.isSome_map]
    have mem := (mem_logins (p := p)).mpr ⟨row, seen, rfl⟩
    cases hv : accountLogin p observations ⟨p, toString id⟩ with
    | agreed _ => rfl
    | unseen =>
      rw [accountLogin, Agreement.of_eq_unseen] at hv
      rw [hv] at mem
      cases mem
    | conflict => exact absurd (.inl hv) clean

theorem repositoryAgrees_iff {id : Nat} : RepositoryAgrees observations id ↔
    (∃ row, SeenRepository observations id row) ∧ ∃ name, ∀ row,
      SeenRepository observations id row → (fullName row).map Prod.fst = some name :=
  ⟨fun h => ⟨h.seen, h.name⟩, fun h => ⟨h.1, h.2⟩⟩

theorem repository_present {k : EntityKey} :
    (repositoryName p observations k).value.isSome = true ↔
      ∃ id : Nat, k = ⟨p, s!"repository:{id}"⟩ ∧ RepositoryAgrees observations id := by
  constructor
  · intro present
    obtain ⟨id, rfl⟩ := key_of_names (ne_nil_of_value (.inl present))
    exact ⟨id, rfl, repositoryAgrees_iff.mpr ((Agreement.agreed_iff fun _ => mem_names).mp present)⟩
  · rintro ⟨id, rfl, agrees⟩
    exact (Agreement.agreed_iff fun _ => mem_names).mpr (repositoryAgrees_iff.mp agrees)

theorem repository_excluded {k : EntityKey} :
    repositoryName p observations k = .conflict ↔ ResourceDisagrees p observations k := by
  constructor
  · intro conflict
    obtain ⟨id, rfl⟩ := key_of_names (ne_nil_of_value (.inr conflict))
    have := (Agreement.conflict_iff fun _ => mem_names).mp conflict
    exact ⟨id, rfl, this.1, mt repositoryAgrees_iff.mp this.2⟩
  · rintro ⟨id, rfl, seen, disagrees⟩
    exact (Agreement.conflict_iff fun _ => mem_names).mpr
      ⟨seen, mt repositoryAgrees_iff.mpr disagrees⟩

theorem mem_teamRows' {id : Nat} {x : Option (String × String × String)} :
    x ∈ observations.flatMap (teamRows p ⟨p, s!"team:{id}"⟩) ↔ ∃ row : Value × String,
      SeenTeam observations id row.1 row.2 ∧ rowTeam row.1 row.2 = x := by
  rw [mem_teamRows, Prod.exists]

theorem teamAgrees_iff {id : Nat} : TeamAgrees observations id ↔
    (∃ row : Value × String, SeenTeam observations id row.1 row.2) ∧
      ∃ metadata, ∀ row : Value × String,
        SeenTeam observations id row.1 row.2 → rowTeam row.1 row.2 = some metadata := by
  constructor
  · rintro ⟨⟨row, org, seen⟩, metadata, all⟩
    exact ⟨⟨(row, org), seen⟩, metadata, fun row => all row.1 row.2⟩
  · rintro ⟨⟨row, seen⟩, metadata, all⟩
    exact ⟨⟨row.1, row.2, seen⟩, metadata, fun row org => all (row, org)⟩

theorem team_present {k : EntityKey} :
    (teamMetadata p observations k).value.isSome = true ↔
      ∃ id : Nat, k = ⟨p, s!"team:{id}"⟩ ∧ TeamAgrees observations id := by
  constructor
  · intro present
    obtain ⟨id, rfl⟩ := key_of_teamRows (ne_nil_of_value (.inl present))
    exact ⟨id, rfl, teamAgrees_iff.mpr ((Agreement.agreed_iff fun _ => mem_teamRows').mp present)⟩
  · rintro ⟨id, rfl, agrees⟩
    exact (Agreement.agreed_iff fun _ => mem_teamRows').mpr (teamAgrees_iff.mp agrees)

theorem team_excluded {k : EntityKey} :
    teamMetadata p observations k = .conflict ↔ ∃ id : Nat, k = ⟨p, s!"team:{id}"⟩ ∧
      (∃ row org, SeenTeam observations id row org) ∧ ¬TeamAgrees observations id := by
  constructor
  · intro conflict
    obtain ⟨id, rfl⟩ := key_of_teamRows (ne_nil_of_value (.inr conflict))
    have := (Agreement.conflict_iff fun _ => mem_teamRows').mp conflict
    exact ⟨id, rfl, Prod.exists.mp this.1, mt teamAgrees_iff.mp this.2⟩
  · rintro ⟨id, rfl, seen, disagrees⟩
    exact (Agreement.conflict_iff fun _ => mem_teamRows').mpr
      ⟨Prod.exists.mpr seen, mt teamAgrees_iff.mpr disagrees⟩

theorem subject_excluded {subject : Subject} :
    ExcludedSubject p observations subject ↔ SubjectDisagrees p observations subject := by
  cases subject with
  | account k => exact account_excluded
  | group k => exact team_excluded

/-- A grant is expected exactly when its claim agrees. -/
theorem grant_present {k : GrantKey} : (expectedGrant p t observations k).isSome = true ↔
    ClaimAgrees p observations k := by
  have mem (x : Option (String × Privilege)) :
      x ∈ (said k (observations.flatMap (claims p))).map some ↔
        ∃ report, (k, report) ∈ observations.flatMap (claims p) ∧ some report = x := by
    simp only [List.mem_map, mem_said]
  rw [expectedGrant]
  split
  case isTrue excluded =>
    refine ⟨fun h => (by cases h), fun agrees => ?_⟩
    rcases excluded with subject | resource
    · exact absurd (subject_excluded.mp subject) agrees.subject
    · exact absurd (repository_excluded.mp resource) agrees.resource
  case isFalse clean =>
    rw [not_or, subject_excluded, repository_excluded] at clean
    rw [Option.isSome_map, claimRole, Agreement.agreed_iff mem]
    constructor
    · rintro ⟨⟨report, h⟩, a, all⟩
      exact ⟨clean.1, clean.2, a, Option.some.inj (all report h) ▸ h,
        fun report' h' => Option.some.inj (all report' h')⟩
    · rintro ⟨-, -, report, h, all⟩
      exact ⟨⟨report, h⟩, report, fun report' h' => congrArg some (all report' h')⟩

/-! ## The finished graph -/

/-- `finish` after sorting. -/
def checked (core : Core) (s : Snapshot) : Except ProviderError Snapshot :=
  if core.validateSnapshot s = false then .error (error "malformed") else .ok s

/-- Two snapshots with the same entities, claims and complete flag. -/
structure SameGraph (s s' : Snapshot) : Prop where
  accounts : s.accounts = s'.accounts
  resources : s.resources = s'.resources
  groups : s.groups = s'.groups
  memberships : s.memberships = s'.memberships
  grants : s.grants = s'.grants
  complete : s.complete = s'.complete

/-- A snapshot holds exactly what the observations agree on. -/
structure Reflects (p : String) (observations : List Observation) (s : Snapshot) : Prop where
  accounts : ∀ k, (∃ a ∈ s.accounts, a.key = k) ↔
    ∃ id, k = ⟨p, toString id⟩ ∧ AccountAgrees observations id
  resources : ∀ k, (∃ r ∈ s.resources, r.key = k) ↔
    ∃ id : Nat, k = ⟨p, s!"repository:{id}"⟩ ∧ RepositoryAgrees observations id
  groups : ∀ k, (∃ g ∈ s.groups, g.key = k) ↔
    ∃ id : Nat, k = ⟨p, s!"team:{id}"⟩ ∧ TeamAgrees observations id
  grants : ∀ k : GrantKey, (∃ g ∈ s.grants, (g.provenance.method, g.subject, g.resource) = k) ↔
    ClaimAgrees p observations k

/-- What is excluded early stays out of a snapshot. -/
structure StaysOut (p : String) (earlier : List Observation) (s : Snapshot) : Prop where
  accounts : ∀ id, (∃ row, SeenAccount earlier id row) → ¬AccountAgrees earlier id →
    ∀ a ∈ s.accounts, a.key ≠ ⟨p, toString id⟩
  resources : ∀ id : Nat, (∃ row, SeenRepository earlier id row) → ¬RepositoryAgrees earlier id →
    ∀ r ∈ s.resources, r.key ≠ ⟨p, s!"repository:{id}"⟩
  groups : ∀ id : Nat, (∃ row org, SeenTeam earlier id row org) → ¬TeamAgrees earlier id →
    ∀ g ∈ s.groups, g.key ≠ ⟨p, s!"team:{id}"⟩
  grants : ∀ k : GrantKey, (∃ report, (k, report) ∈ earlier.flatMap (claims p)) →
    ¬ClaimAgrees p earlier k →
      ∀ g ∈ s.grants, (g.provenance.method, g.subject, g.resource) ≠ k

/-- The snapshot that `finish` checks. -/
def finished (core : Core) (p t : String) (observations : List Observation) : Snapshot :=
  core.sort ((Collection.start p t).observeAll observations).graph

theorem finish_eq (core : Core) (p t : String) (observations : List Observation) :
    ((Collection.start p t).observeAll observations).finish core =
      checked core (finished core p t observations) := by
  rw [Collection.finish, if_neg (by rw [(tracks p t observations).success]; decide)]
  rfl

/-- **A finished graph is what the observations agree on.** -/
theorem reflects (core : Core) (p t : String) (observations : List Observation) :
    Reflects p observations (finished core p t observations) := by
  have expected := (tracks p t observations).expected
  constructor
  · intro k
    rw [← account_present, ← expected.account]
    refine exists_mem_sorted (core.accounts_perm _) (fun k a h => ?_) k
    rw [expected.account, expectedAccount] at h
    split at h
    · cases h
    · obtain ⟨login, -, rfl⟩ := Option.map_eq_some_iff.mp h
      rfl
  · intro k
    rw [← repository_present, ← Option.isSome_map (f := repositoryOf k), ← expected.resource]
    refine exists_mem_sorted (core.resources_perm _) (fun k r h => ?_) k
    rw [expected.resource] at h
    obtain ⟨name, -, rfl⟩ := Option.map_eq_some_iff.mp h
    rfl
  · intro k
    rw [← team_present, ← Option.isSome_map (f := teamOf k), ← expected.group]
    refine exists_mem_sorted (core.groups_perm _) (fun k g h => ?_) k
    rw [expected.group] at h
    obtain ⟨metadata, -, rfl⟩ := Option.map_eq_some_iff.mp h
    rfl
  · intro k
    rw [← grant_present (t := t), ← expected.grant]
    refine exists_mem_sorted (core.grants_perm _) (fun k g h => ?_) k
    rw [expected.grant, expectedGrant] at h
    split at h
    · cases h
    · obtain ⟨report, -, rfl⟩ := Option.map_eq_some_iff.mp h
      obtain ⟨method, subject, resource⟩ := k
      rfl

theorem ExcludedSubject.append {subject : Subject} (h : ExcludedSubject p observations subject)
    (later : List Observation) : ExcludedSubject p (observations ++ later) subject := by
  cases subject with
  | account k => exact ExcludedAccount.append h later
  | group k =>
    rw [ExcludedSubject, teamMetadata] at h ⊢
    rw [List.flatMap_append, Agreement.of_append_conflict h]

/-- **Nothing observed later restores an excluded entity.** -/
theorem staysOut (core : Core) (p t : String) (earlier later : List Observation) :
    StaysOut p earlier (finished core p t (earlier ++ later)) := by
  have reflects := reflects core p t (earlier ++ later)
  constructor
  · intro id seen disagrees a ha same
    have excluded : ExcludedAccount p earlier ⟨p, toString id⟩ :=
      account_excluded.mpr ⟨id, rfl, seen, disagrees⟩
    have present := account_present.mpr ((reflects.accounts _).mp ⟨a, ha, same⟩)
    rw [expectedAccount, if_pos (excluded.append later)] at present
    cases present
  · intro id seen disagrees r hr same
    have conflict := repository_excluded (p := p).mpr ⟨id, rfl, seen, disagrees⟩
    have present := repository_present.mpr ((reflects.resources _).mp ⟨r, hr, same⟩)
    rw [repositoryName, List.flatMap_append, Agreement.of_append_conflict conflict] at present
    cases present
  · intro id seen disagrees g hg same
    have conflict := team_excluded (p := p).mpr ⟨id, rfl, seen, disagrees⟩
    have present := team_present.mpr ((reflects.groups _).mp ⟨g, hg, same⟩)
    rw [teamMetadata, List.flatMap_append, Agreement.of_append_conflict conflict] at present
    cases present
  · rintro k ⟨report, seen⟩ disagrees g hg same
    have agrees := (reflects.grants k).mp ⟨g, hg, same⟩
    apply disagrees
    refine ⟨fun h => agrees.subject ?_, fun h => agrees.resource ?_, report, seen, ?_⟩
    · rw [← subject_excluded] at h ⊢
      exact h.append later
    · rw [← repository_excluded] at h ⊢
      rw [repositoryName, List.flatMap_append, Agreement.of_append_conflict h]
    · obtain ⟨report', -, all⟩ := agrees.report
      have still {r : String × Privilege} (h : (k, r) ∈ earlier.flatMap (claims p)) :
          (k, r) ∈ (earlier ++ later).flatMap (claims p) := by
        rw [List.flatMap_append]
        exact List.mem_append_left _ h
      intro r hr
      rw [all r (still hr), all report (still seen)]

/-- **The finished graph does not depend on the order of the observations.** -/
theorem sameGraph (core : Core) (p t : String) {observations observations' : List Observation}
    (perm : observations.Perm observations') (one : OneMethod p observations) :
    SameGraph (finished core p t observations) (finished core p t observations') := by
  have expected := (tracks p t observations).expected
  have expected' := (tracks p t observations').expected
  have accounts : ((Collection.start p t).observeAll observations).accounts =
      ((Collection.start p t).observeAll observations').accounts := by
    apply Std.ExtTreeMap.ext_getElem?
    intro k
    rw [expected.account, expected'.account, expectedAccount_perm perm]
  have resources : ((Collection.start p t).observeAll observations).resources =
      ((Collection.start p t).observeAll observations').resources := by
    apply Std.ExtTreeMap.ext_getElem?
    intro k
    rw [expected.resource, expected'.resource, repositoryName_perm perm]
  have groups : ((Collection.start p t).observeAll observations).groups =
      ((Collection.start p t).observeAll observations').groups := by
    apply Std.ExtTreeMap.ext_getElem?
    intro k
    rw [expected.group, expected'.group, teamMetadata_perm perm]
  constructor
  · exact congrArg (core.sortAccounts ∘ values) accounts
  · exact congrArg (core.sortResources ∘ values) resources
  · exact congrArg (core.sortGroups ∘ values) groups
  · refine congrArg (core.sortMemberships ∘ values) (Std.ExtTreeMap.ext_getElem? fun k => ?_)
    rw [expected.membership, expected'.membership, expectedMembership_perm perm one]
  · refine congrArg (core.sortGrants ∘ values) (Std.ExtTreeMap.ext_getElem? fun k => ?_)
    rw [expected.grant, expected'.grant, expectedGrant_perm perm]
  · rw [Bool.eq_iff_iff]
    exact expected.complete.trans ((exhaustive_perm perm).trans expected'.complete.symm)

/-- **The order of the observations does not matter, and what is finished is what they agree on.**
`finish` checks the same graph for every order; an account, a repository, a team or a grant is in it
exactly when all that was seen of it agrees; and what a part of the observations excludes stays
out. -/
theorem finish_agreed (core : Core) (p t : String) {observations observations' : List Observation}
    (perm : observations.Perm observations') (one : OneMethod p observations) :
    ∃ s s', ((Collection.start p t).observeAll observations).finish core = checked core s ∧
      ((Collection.start p t).observeAll observations').finish core = checked core s' ∧
      SameGraph s s' ∧ Reflects p observations s ∧
      ∀ earlier later, observations = earlier ++ later → StaysOut p earlier s := by
  refine ⟨finished core p t observations, finished core p t observations', finish_eq ..,
    finish_eq .., sameGraph core p t perm one, reflects core p t observations, ?_⟩
  rintro earlier later rfl
  exact staysOut core p t earlier later

/-- Two logins of one account, around a repository: in both orders the account is left out. -/
theorem finish_agreed_renamed :
    let alice : Value := .object [("id", .number (.posInt 1)), ("login", .string "alice")]
    let bob : Value := .object [("id", .number (.posInt 1)), ("login", .string "bob")]
    let app : Value := .object [("id", .number (.posInt 7)), ("full_name", .string "acme/app")]
    ∃ s s', ((Collection.start "github" "now").observeAll
        [.account alice [] [], .repository app, .account bob [] []]).finish .plain =
          checked .plain s ∧
      ((Collection.start "github" "now").observeAll
        [.repository app, .account alice [] [], .account bob [] []]).finish .plain =
          checked .plain s' ∧
      SameGraph s s' ∧ ∀ a ∈ s.accounts, a.key ≠ ⟨"github", "1"⟩ := by
  intro alice bob app
  obtain ⟨s, s', h, h', same, -, out⟩ := finish_agreed .plain "github" "now"
    (.swap (.repository app) (.account alice [] []) [.account bob [] []])
    (by unfold OneMethod; decide)
  refine ⟨s, s', h, h', same, (out _ [] (List.append_nil _).symm).accounts 1 ?_ fun agrees => ?_⟩
  · exact ⟨alice, by decide, [], [], List.mem_cons_self ..⟩
  · obtain ⟨login, one⟩ := agrees.login
    have first := one alice ⟨by decide, [], [], List.mem_cons_self ..⟩
    have last := one bob ⟨by decide, [], [],
      List.mem_cons_of_mem _ (List.mem_cons_of_mem _ (List.mem_cons_self ..))⟩
    exact absurd (first.trans last.symm) (by decide)

end Permesh.Github

import Permesh.Laws.Gitlab.Suppression

/-!
# Laws.Gitlab.Consistent — the exact condition for suppression

The rows of an account are disputed when two of them disagree or one of them is malformed. Disputed
rows suppress their account in every order, and the order of the rows never shows in the finished
snapshot, exactly when the calls are consistent (`suppresses_iff_consistent`).

If the calls are consistent, what is known of an account at the end does not depend on their order. If
they suppress, the calls of an account are arranged so that those read to the end come last
(`Arranged`), and each inconsistency would show there. The runs are finite, but of any length.
-/

namespace Permesh.Gitlab

open Permesh.Json Permesh.Lib

/-! ## Rows -/

def username (row : Value) : Option String := (text row "username").toOption

def stateOf (row : Value) : Option String := (row.get "state").bind Value.asStr

/-- A bot flag is the only explicit kind. -/
def explicitKind (row : Value) : Option IdentityKind :=
  if (row.get "bot").bind Value.asBool = some true then some .bot else none

/-- Two rows disagree on username, state or explicit kind. -/
def Disagree (row row' : Value) : Prop :=
  username row ≠ username row' ∨ stateOf row ≠ stateOf row' ∨
    ∃ kind kind', explicitKind row = some kind ∧ explicitKind row' = some kind' ∧ kind ≠ kind'

/-- Username, state or bot flag of a row are malformed. -/
def Malformed (row : Value) : Prop :=
  username row = none ∨ (∃ v, row.get "state" = some v ∧ v.asStr = none) ∨
    ∃ v, row.get "bot" = some v ∧ v.asBool = none

/-- The rows of an account disagree, or one of them is malformed. -/
def Disputed (calls : List Call) (id : Nat) : Prop :=
  (∃ call ∈ calls, ∃ call' ∈ calls, nativeId call.row = .ok id ∧ nativeId call'.row = .ok id ∧
    Disagree call.row call'.row) ∨
  ∃ call ∈ calls, nativeId call.row = .ok id ∧ Malformed call.row

/-- Nothing of an account is in a snapshot. -/
structure Suppressed (k : EntityKey) (s : Snapshot) : Prop where
  accounts : ∀ a ∈ s.accounts, a.key ≠ k
  memberships : ∀ m ∈ s.memberships, m.member ≠ .account k
  grants : ∀ g ∈ s.grants, g.subject ≠ .account k

section

variable (parse : String → Option Int) (inst scope time : String)
  (resources : Std.ExtTreeMap EntityKey Resource) (groups : Std.ExtTreeMap EntityKey Group)
  (core : Core)

/-- The snapshot that `finish` checks. -/
def finished (calls : List Call) : Snapshot :=
  core.sort (feedAll parse (start inst scope time resources groups) calls).graph

/-- Disputed rows suppress their account and the order of the rows does not show, for all orders
of the calls. -/
structure Suppresses (calls : List Call) : Prop where
  suppressed : ∀ calls', calls.Perm calls' → ∀ id, Disputed calls' id →
    Suppressed (key inst scope "user" id)
      (finished parse inst scope time resources groups core calls')
  order : ∀ calls', calls.Perm calls' →
    (finished parse inst scope time resources groups core calls).accounts =
        (finished parse inst scope time resources groups core calls').accounts ∧
      (finished parse inst scope time resources groups core calls).memberships =
        (finished parse inst scope time resources groups core calls').memberships ∧
      (finished parse inst scope time resources groups core calls).grants =
        (finished parse inst scope time resources groups core calls').grants

/-- The row of the call is one of the account, and is read to the end. -/
structure Read (id : Nat) (call : Call) (b : Assignment) : Prop where
  id_eq : nativeId call.row = .ok id
  formed : ¬Malformed call.row
  assigned : call.assigned parse = some b

/-- The accounts whose rows are all read to the end or all disregarded, as far as they are at odds:
once some rows of an account are read to the end and agree on username and status, its rows are not
disputed, and the rows for one grant are the same. -/
def Consistent (calls : List Call) : Prop :=
  ∀ id, (∃ call ∈ calls, ∃ b, Read parse id call b) →
    (∀ call ∈ calls, ∀ call' ∈ calls, ∀ b b', Read parse id call b → Read parse id call' b' →
      username call.row = username call'.row ∧
        statusOf (stateOf call.row) = statusOf (stateOf call'.row)) →
    ¬Disputed calls id ∧
    ∀ call ∈ calls, ∀ call' ∈ calls, ∀ b b', Read parse id call b → Read parse id call' b' →
      b.level ≠ 0 → b'.level ≠ 0 → call.effective = call'.effective →
      call.resource.id = call'.resource.id →
      call.resource = call'.resource ∧ call.group = call'.group ∧ b = b'

end

variable {parse : String → Option Int} {inst scope time : String}
  {resources : Std.ExtTreeMap EntityKey Resource} {groups : Std.ExtTreeMap EntityKey Group}
  {core : Core} {calls calls' : List Call}

theorem optional_eq {α : Type} {row : Value} {name : String} {read : Value → Option α} :
    (∃ v, row.get name = some v ∧ read v = none) ∨
      optional row name read = .ok ((row.get name).bind read) := by
  unfold optional
  cases row.get name with
  | none => exact .inr rfl
  | some v =>
    cases h : read v with
    | none => exact .inl ⟨v, rfl, h⟩
    | some a => right; simp [h]

variable (inst scope) in
/-- A row that is not malformed reads as an account. -/
theorem account_of_formed {row : Value} {id : Nat} (hid : nativeId row = .ok id)
    (formed : ¬Malformed row) : ∃ a, account inst scope row = .ok a ∧
      a.key = key inst scope "user" id ∧ username row = some a.login ∧
      a.status = statusOf (stateOf row) := by
  rw [Malformed, not_or, not_or] at formed
  obtain ⟨named, state, bot⟩ := formed
  rw [account, hid, optional_eq.resolve_left state, optional_eq.resolve_left bot]
  unfold username at named ⊢
  cases hl : text row "username" with
  | error e => rw [hl] at named; exact absurd rfl named
  | ok login => exact ⟨_, rfl, rfl, rfl, rfl⟩

/-- A row that reads as an account is not malformed. -/
theorem formed_of_account {row : Value} {a : Account} (h : account inst scope row = .ok a) :
    ¬Malformed row := by
  rw [account] at h
  cases hid : nativeId row with
  | error e => rw [hid] at h; cases h
  | ok id =>
    rw [hid] at h
    rintro (named | ⟨v, hv, none⟩ | ⟨v, hv, none⟩)
    · cases hl : text row "username" with
      | error e => rw [hl] at h; cases h
      | ok login => rw [username, hl] at named; cases named
    · cases hl : text row "username" with
      | error e => rw [hl] at h; cases h
      | ok login =>
        have : optional row "state" Value.asStr = .error (error "malformed") := by
          rw [optional, hv]
          simp [none]
        rw [hl, this] at h
        cases h
    · cases hl : text row "username" with
      | error e => rw [hl] at h; cases h
      | ok login =>
        have : optional row "bot" Value.asBool = .error (error "malformed") := by
          rw [optional, hv]
          simp [none]
        rw [hl, this] at h
        cases hs : optional row "state" Value.asStr with
        | error e => rw [hs] at h; cases h
        | ok state => rw [hs] at h; cases h

/-- The readings of a row, as the collection and as the rows have them. -/
theorem formed_iff {id : Nat} {call : Call} :
    (∃ a, Formed inst scope (key inst scope "user" id) call a) ↔
      nativeId call.row = .ok id ∧ ¬Malformed call.row := by
  constructor
  · rintro ⟨a, candidate, hk⟩
    obtain ⟨id', hid, hk'⟩ := candidate_key candidate
    rw [key_inj (hk.symm.trans hk')]
    refine ⟨hid, ?_⟩
    rw [Call.candidate] at candidate
    cases ha : account inst scope call.row with
    | error e => rw [ha] at candidate; cases candidate
    | ok a => exact formed_of_account ha
  · rintro ⟨hid, formed⟩
    obtain ⟨a, ha, hk, -⟩ := account_of_formed inst scope hid formed
    exact ⟨a, by rw [Call.candidate, ha]; rfl, hk⟩

theorem Formed.row {id : Nat} {call : Call} {a : Account}
    (h : Formed inst scope (key inst scope "user" id) call a) :
    nativeId call.row = .ok id ∧ ¬Malformed call.row ∧ username call.row = some a.login ∧
      a.status = statusOf (stateOf call.row) := by
  obtain ⟨hid, formed⟩ := formed_iff.mp ⟨a, h⟩
  obtain ⟨a', ha, -, named, status⟩ := account_of_formed inst scope hid formed
  have : a = a' := by
    have := h.candidate
    rw [Call.candidate, ha] at this
    exact (Option.some.inj this).symm
  subst this
  exact ⟨hid, formed, named, status⟩

theorem Accepted.read {id : Nat} {call : Call} {a : Account}
    (h : Accepted parse inst scope (key inst scope "user" id) call a) :
    ∃ b, Read parse id call b := by
  obtain ⟨hid, formed, -⟩ := h.toFormed.row
  obtain ⟨b, hb⟩ := Option.isSome_iff_exists.mp h.assigned
  exact ⟨b, hid, formed, hb⟩

variable (inst scope) in
theorem Read.accepted {id : Nat} {call : Call} {b : Assignment} (h : Read parse id call b) :
    ∃ a, Accepted parse inst scope (key inst scope "user" id) call a := by
  obtain ⟨a, formed⟩ := formed_iff.mpr ⟨h.id_eq, h.formed⟩
  exact ⟨a, formed, by rw [h.assigned]; rfl⟩

/-! ## Standings of permuted calls -/

theorem Means.perm {k : EntityKey} {s : Standing} (h : Means parse inst scope k calls s)
    (perm : calls.Perm calls') : Means parse inst scope k calls' s := by
  cases s <;> simpa only [Means, perm.mem_iff] using h

/-- The rows that are read to the end agree on username and status. -/
def Agree (parse : String → Option Int) (inst scope : String) (k : EntityKey) (calls : List Call) :
    Prop :=
  ∀ call ∈ calls, ∀ call' ∈ calls, ∀ a a', Accepted parse inst scope k call a →
    Accepted parse inst scope k call' a' → a.login = a'.login ∧ a.status = a'.status

/-- If no row that is rejected late is at odds with rows that agree, the standing is determined. -/
theorem Means.unique {k : EntityKey} {s s' : Standing} (h : Means parse inst scope k calls s)
    (h' : Means parse inst scope k calls s')
    (open_ : Agree parse inst scope k calls → ∀ call ∈ calls, ∀ call' ∈ calls, ∀ a a',
      Accepted parse inst scope k call a → Formed inst scope k call' a' →
        a.login = a'.login ∧ a.status = a'.status) : s = s' := by
  have clash {login : String} {status : IdentityStatus} {bot : Bool}
      (present : Means parse inst scope k calls (.present login status bot))
      (blocked : Means parse inst scope k calls .blocked) : False := by
    obtain ⟨-, all, -⟩ := present
    obtain ⟨call, hc, a, accepted, call', hc', a', formed, differ⟩ := blocked
    refine differ (open_ (fun call hc call' hc' a a' accepted accepted' => ?_) call hc call' hc' a a'
      accepted formed)
    obtain ⟨login, status⟩ := all call hc a accepted
    obtain ⟨login', status'⟩ := all call' hc' a' accepted'
    exact ⟨login.trans login'.symm, status.trans status'.symm⟩
  cases s with
  | unseen =>
    cases s' with
    | unseen => rfl
    | present login status bot =>
      obtain ⟨⟨call, hc, a, accepted, -⟩, -⟩ := h'
      exact absurd accepted (h call hc a)
    | blocked =>
      obtain ⟨call, hc, a, accepted, -⟩ := h'
      exact absurd accepted (h call hc a)
  | present login status bot =>
    cases s' with
    | unseen =>
      obtain ⟨⟨call, hc, a, accepted, -⟩, -⟩ := h
      exact absurd accepted (h' call hc a)
    | present login' status' bot' =>
      obtain ⟨⟨call, hc, a, accepted, rfl, rfl⟩, -, bots⟩ := h
      obtain ⟨-, all, bots'⟩ := h'
      obtain ⟨rfl, rfl⟩ := all call hc a accepted
      rw [Bool.eq_iff_iff.mpr (bots.trans bots'.symm)]
    | blocked => exact (clash h h').elim
  | blocked =>
    cases s' with
    | unseen =>
      obtain ⟨call, hc, a, accepted, -⟩ := h
      exact absurd accepted (h' call hc a)
    | present login status bot => exact (clash h' h).elim
    | blocked => rfl

/-- Rows that agree, behind rows that are not read to the end, are not blocked. -/
theorem standing_ne_blocked {k : EntityKey} {early late : List Call}
    (rejected : ∀ call ∈ early, ∀ a, ¬Accepted parse inst scope k call a)
    (accepted : ∀ call ∈ late, ∀ a, Formed inst scope k call a → Accepted parse inst scope k call a)
    (agree : Agree parse inst scope k late) :
    standing parse inst scope k (early ++ late) ≠ .blocked := by
  have first : standing parse inst scope k early = .unseen := by
    have means := standing_means parse inst scope k early
    cases hs : standing parse inst scope k early with
    | unseen => rfl
    | present login status bot =>
      rw [hs] at means
      obtain ⟨⟨call, hc, a, h, -⟩, -⟩ := means
      exact absurd h (rejected call hc a)
    | blocked =>
      rw [hs] at means
      obtain ⟨call, hc, a, h, -⟩ := means
      exact absurd h (rejected call hc a)
  have fold : standing parse inst scope k (early ++ late) = standing parse inst scope k late := by
    rw [standing, List.foldl_append]
    exact congrArg (late.foldl (standingStep parse inst scope k)) first
  rw [fold]
  intro blocked
  have means := standing_means parse inst scope k late
  rw [blocked] at means
  obtain ⟨call, hc, a, h, call', hc', a', formed, differ⟩ := means
  exact differ (agree call hc call' hc' a a' h (accepted call' hc' a' formed))

/-! ## The finished snapshot -/

theorem Tracks.kept {c : Collection} (h : Tracks parse inst scope time calls c) (k : EntityKey) :
    c.kept (.account k) = true ↔ standing parse inst scope k calls ≠ .blocked := by
  rw [Collection.kept, decide_eq_true_eq, (h.accounts k).blocked]

theorem mem_finished_accounts {a : Account} :
    a ∈ (finished parse inst scope time resources groups core calls).accounts ↔
      ∃ k, (standing parse inst scope k calls).account k = some a := by
  have tracks := tracks parse inst scope time resources groups calls
  rw [finished, Core.sort, (core.accounts_perm _).mem_iff]
  show a ∈ values _ ↔ _
  rw [mem_values]
  exact exists_congr fun k => by rw [(tracks.accounts k).account]

/-- What is looked up in a filtered journal. -/
theorem mem_journal {κ β : Type} [Ord κ] [Std.TransOrd κ] [Std.LawfulEqOrd κ] [DecidableEq κ]
    {keyOf : β → κ} {keep : β → Bool} {issued : List β} {m : Std.ExtTreeMap κ β}
    (h : Journal keyOf keep issued m) {v : β} :
    v ∈ (values m).filter keep ↔ lastUnder keyOf (keyOf v) issued = some v ∧ keep v = true := by
  rw [values_filter, mem_values]
  simp only [Std.ExtTreeMap.getElem?_filter', h _, Option.filter_eq_some_iff]
  constructor
  · rintro ⟨k, last, kept⟩
    obtain ⟨-, rfl⟩ := lastUnder_eq_some last
    exact ⟨last, kept⟩
  · rintro ⟨last, kept⟩
    exact ⟨_, last, kept⟩

theorem mem_finished_memberships {m : Membership} :
    m ∈ (finished parse inst scope time resources groups core calls).memberships ↔
      lastUnder membershipKey (membershipKey m)
          (calls.filterMap (Call.membership? parse inst scope time)) = some m ∧
        (feedAll parse (start inst scope time resources groups) calls).kept m.member = true := by
  rw [finished, Core.sort, (core.memberships_perm _).mem_iff]
  exact mem_journal (tracks parse inst scope time resources groups calls).memberships

theorem mem_finished_grants {g : Grant} :
    g ∈ (finished parse inst scope time resources groups core calls).grants ↔
      lastUnder Grant.id g.id (calls.filterMap (Call.grant? parse inst scope time)) = some g ∧
        (feedAll parse (start inst scope time resources groups) calls).kept g.subject = true := by
  rw [finished, Core.sort, (core.grants_perm _).mem_iff]
  exact mem_journal (tracks parse inst scope time resources groups calls).grants

/-- What is in the finished snapshot of an account comes from rows read to the end that agree. -/
theorem suppressed_of {k : EntityKey}
    (h : standing parse inst scope k calls = .unseen ∨ standing parse inst scope k calls = .blocked) :
    Suppressed k (finished parse inst scope time resources groups core calls) := by
  have tracks := tracks parse inst scope time resources groups calls
  have means := standing_means parse inst scope k calls
  have out {call : Call} {a : Account} (hc : call ∈ calls)
      (accepted : Accepted parse inst scope k call a)
      (kept : (feedAll parse (start inst scope time resources groups) calls).kept (.account k) =
        true) : False := by
    rcases h with unseen | blocked
    · rw [unseen] at means
      exact means call hc a accepted
    · exact (tracks.kept k).mp kept blocked
  constructor
  · intro a ha same
    obtain ⟨k', hk'⟩ := mem_finished_accounts.mp ha
    have : k' = k := by
      cases hs : standing parse inst scope k' calls with
      | present login status bot =>
        rw [hs] at hk'
        cases hk'
        exact same
      | _ =>
        rw [hs] at hk'
        cases hk'
    subst this
    rcases h with unseen | blocked
    · rw [unseen] at hk'
      cases hk'
    · rw [blocked] at hk'
      cases hk'
  · intro m hm same
    obtain ⟨last, kept⟩ := mem_finished_memberships.mp hm
    obtain ⟨mem, -⟩ := lastUnder_eq_some last
    obtain ⟨call, hc, issued⟩ := List.mem_filterMap.mp mem
    obtain ⟨a, accepted, member, -⟩ := membership?_eq_some issued
    rw [same] at kept
    have : a.key = k := Subject.account.inj (member.symm.trans same)
    subst this
    exact out hc accepted kept
  · intro g hg same
    obtain ⟨last, kept⟩ := mem_finished_grants.mp hg
    obtain ⟨mem, -⟩ := lastUnder_eq_some last
    obtain ⟨call, hc, issued⟩ := List.mem_filterMap.mp mem
    obtain ⟨a, b, accepted, -, -, rfl⟩ := grant?_eq_some issued
    rw [same] at kept
    have : a.key = k := Subject.account.inj same
    subst this
    exact out hc accepted kept

/-! ## Consistent calls suppress -/

theorem Disputed.perm {id : Nat} (h : Disputed calls id) (perm : calls.Perm calls') :
    Disputed calls' id := by
  simpa only [Disputed, perm.mem_iff] using h

variable (inst scope) in
/-- Rows of an account that are read to the end agree in the same way for both readings. -/
theorem agree_iff {id : Nat} : Agree parse inst scope (key inst scope "user" id) calls ↔
    ∀ call ∈ calls, ∀ call' ∈ calls, ∀ b b', Read parse id call b → Read parse id call' b' →
      username call.row = username call'.row ∧
        statusOf (stateOf call.row) = statusOf (stateOf call'.row) := by
  constructor
  · intro agree call hc call' hc' b b' read read'
    obtain ⟨a, accepted⟩ := read.accepted inst scope
    obtain ⟨a', accepted'⟩ := read'.accepted inst scope
    obtain ⟨login, status⟩ := agree call hc call' hc' a a' accepted accepted'
    obtain ⟨-, -, named, state⟩ := accepted.toFormed.row
    obtain ⟨-, -, named', state'⟩ := accepted'.toFormed.row
    exact ⟨by rw [named, named', login], by rw [← state, ← state', status]⟩
  · intro agree call hc call' hc' a a' accepted accepted'
    obtain ⟨b, read⟩ := accepted.read
    obtain ⟨b', read'⟩ := accepted'.read
    obtain ⟨name, status⟩ := agree call hc call' hc' b b' read read'
    obtain ⟨-, -, named, state⟩ := accepted.toFormed.row
    obtain ⟨-, -, named', state'⟩ := accepted'.toFormed.row
    rw [named, named'] at name
    exact ⟨Option.some.inj name, by rw [state, state', status]⟩

/-- Where rows read to the end agree, consistent calls hide nothing. -/
theorem Consistent.undisputed (h : Consistent parse calls) {id : Nat} {call : Call} {a : Account}
    (hc : call ∈ calls) (accepted : Accepted parse inst scope (key inst scope "user" id) call a)
    (agree : Agree parse inst scope (key inst scope "user" id) calls) :
    ¬Disputed calls id ∧
    ∀ call ∈ calls, ∀ call' ∈ calls, ∀ b b', Read parse id call b → Read parse id call' b' →
      b.level ≠ 0 → b'.level ≠ 0 → call.effective = call'.effective →
      call.resource.id = call'.resource.id →
      call.resource = call'.resource ∧ call.group = call'.group ∧ b = b' := by
  obtain ⟨b, read⟩ := accepted.read
  exact h id ⟨call, hc, b, read⟩ ((agree_iff inst scope).mp agree)

theorem Consistent.open {k : EntityKey} (h : Consistent parse calls)
    (agree : Agree parse inst scope k calls) :
    ∀ call ∈ calls, ∀ call' ∈ calls, ∀ a a', Accepted parse inst scope k call a →
      Formed inst scope k call' a' → a.login = a'.login ∧ a.status = a'.status := by
  intro call hc call' hc' a a' accepted formed
  obtain ⟨id, -, hk⟩ := candidate_key accepted.candidate
  rw [accepted.keyed] at hk
  subst hk
  obtain ⟨hid, -, named, state⟩ := accepted.toFormed.row
  obtain ⟨hid', -, named', state'⟩ := formed.row
  have same : ¬Disagree call.row call'.row := fun disagree =>
    (h.undisputed hc accepted agree).1 (.inl ⟨call, hc, call', hc', hid, hid', disagree⟩)
  rw [Disagree, not_or, not_or, not_not, not_not] at same
  rw [named, named'] at same
  exact ⟨Option.some.inj same.1, by rw [state, state', same.2.1]⟩

/-- Permuted consistent calls leave the same standing. -/
theorem Consistent.standing_eq (h : Consistent parse calls) (perm : calls.Perm calls')
    (k : EntityKey) :
    standing parse inst scope k calls = standing parse inst scope k calls' :=
  (standing_means parse inst scope k calls).unique
    ((standing_means parse inst scope k calls').perm perm.symm) h.open

variable (inst scope time resources groups) in
theorem Consistent.kept_eq (h : Consistent parse calls) (perm : calls.Perm calls') :
    (feedAll parse (start inst scope time resources groups) calls).kept =
      (feedAll parse (start inst scope time resources groups) calls').kept := by
  funext subject
  cases subject with
  | group k => rfl
  | account k =>
    rw [Bool.eq_iff_iff, (tracks parse inst scope time resources groups calls).kept k,
      (tracks parse inst scope time resources groups calls').kept k, h.standing_eq perm]

/-- An account that is kept and has rows read to the end is one whose rows agree. -/
theorem agree_of_kept {k : EntityKey} {call : Call} {a : Account} (hc : call ∈ calls)
    (accepted : Accepted parse inst scope k call a)
    (kept : (feedAll parse (start inst scope time resources groups) calls).kept (.account k) =
      true) : Agree parse inst scope k calls := by
  have means := standing_means parse inst scope k calls
  cases hs : standing parse inst scope k calls with
  | unseen =>
    rw [hs] at means
    exact absurd accepted (means call hc a)
  | blocked =>
    have tracks := tracks parse inst scope time resources groups calls
    exact absurd hs ((tracks.kept k).mp kept)
  | present login status bot =>
    rw [hs] at means
    obtain ⟨-, all, -⟩ := means
    intro call hc call' hc' a a' accepted accepted'
    obtain ⟨login, status⟩ := all call hc a accepted
    obtain ⟨login', status'⟩ := all call' hc' a' accepted'
    exact ⟨login.trans login'.symm, status.trans status'.symm⟩

/-- Consistent calls issue one grant under each identifier of a kept account. -/
theorem Consistent.grant_unique (h : Consistent parse calls) {call call' : Call} {g g' : Grant}
    (hc : call ∈ calls) (hc' : call' ∈ calls)
    (issued : call.grant? parse inst scope time = some g)
    (issued' : call'.grant? parse inst scope time = some g') (same : g.id = g'.id)
    (kept : (feedAll parse (start inst scope time resources groups) calls).kept g.subject = true) :
    g = g' := by
  have subject := grant?_subject issued issued' same
  obtain ⟨a, b, accepted, assigned, level, rfl⟩ := grant?_eq_some issued
  obtain ⟨a', b', accepted', assigned', level', rfl⟩ := grant?_eq_some issued'
  have hk : a.key = a'.key := Subject.account.inj subject
  have agree := agree_of_kept hc accepted kept
  obtain ⟨id, -, hid⟩ := candidate_key accepted.candidate
  rw [← hk, hid] at accepted'
  rw [hid] at accepted agree
  obtain ⟨list, resource, -⟩ := grantId_inj (show grantId call.effective call.resource.id
      (key inst scope "user" id).id = grantId call'.effective call'.resource.id
      (key inst scope "user" id).id by simpa only [Collection.grantOf, ← hk, hid] using same)
  have read : Read parse id call b :=
    ⟨accepted.toFormed.row.1, accepted.toFormed.row.2.1, assigned⟩
  have read' : Read parse id call' b' :=
    ⟨accepted'.toFormed.row.1, accepted'.toFormed.row.2.1, assigned'⟩
  obtain ⟨hr, hg, rfl⟩ := (h.undisputed hc accepted agree).2 call hc call' hc' b b' read read' level
    level' list resource
  rw [hr, hg, list, hk]

/-- Memberships with one key are the same. -/
theorem membership?_unique {call call' : Call} {m m' : Membership}
    (issued : call.membership? parse inst scope time = some m)
    (issued' : call'.membership? parse inst scope time = some m')
    (same : membershipKey m = membershipKey m') : m = m' := by
  obtain ⟨-, -, -, provenance⟩ := membership?_eq_some issued
  obtain ⟨-, -, -, provenance'⟩ := membership?_eq_some issued'
  obtain ⟨member, group⟩ := Prod.mk.inj same
  cases m
  cases m'
  simp_all

/-- The filtered values of two journals with the same entries. -/
theorem journal_values_eq {κ β : Type} [Ord κ] [Std.TransOrd κ] [Std.LawfulEqOrd κ]
    [DecidableEq κ] {keyOf : β → κ} {keep : β → Bool} {issued issued' : List β}
    {m m' : Std.ExtTreeMap κ β} (h : Journal keyOf keep issued m)
    (h' : Journal keyOf keep issued' m') (perm : issued.Perm issued')
    (one : ∀ u ∈ issued, ∀ v ∈ issued, keyOf u = keyOf v → keep u = true → u = v)
    (same : ∀ u ∈ issued, ∀ v ∈ issued, keyOf u = keyOf v → keep u = keep v) :
    (values m).filter keep = (values m').filter keep := by
  rw [values_filter, values_filter]
  refine congrArg values (Std.ExtTreeMap.ext_getElem? fun k => ?_)
  rw [Std.ExtTreeMap.getElem?_filter', Std.ExtTreeMap.getElem?_filter', h k, h' k]
  cases hl : lastUnder keyOf k issued with
  | none =>
    cases hl' : lastUnder keyOf k issued' with
    | none => rfl
    | some v =>
      obtain ⟨mem, hk⟩ := lastUnder_eq_some hl'
      have := lastUnder_isSome.mpr ⟨v, perm.mem_iff.mpr mem, hk⟩
      rw [hl] at this
      cases this
  | some u =>
    obtain ⟨mem, hk⟩ := lastUnder_eq_some hl
    by_cases kept : keep u = true
    · rw [← hl, lastUnder_perm perm fun v hv w hw kv kw => ?_]
      exact (one u mem v hv (hk.trans kv.symm) kept).symm.trans
        (one u mem w hw (hk.trans kw.symm) kept)
    · have some' := lastUnder_isSome.mpr ⟨u, perm.mem_iff.mp mem, hk⟩
      obtain ⟨v, hv⟩ := Option.isSome_iff_exists.mp some'
      obtain ⟨mem', hk'⟩ := lastUnder_eq_some hv
      rw [hv, Option.filter_some, Option.filter_some, if_neg kept, if_neg]
      rwa [← same u mem v (perm.mem_iff.mpr mem') (hk.trans hk'.symm)]

/-- **Consistent calls suppress.** -/
theorem Consistent.suppresses (h : Consistent parse calls) :
    Suppresses parse inst scope time resources groups core calls := by
  constructor
  · intro calls' perm id disputed
    apply suppressed_of
    have means := standing_means parse inst scope
      (key inst scope "user" id) calls
    rw [← h.standing_eq perm]
    cases hs : standing parse inst scope (key inst scope "user" id) calls with
    | unseen => exact .inl rfl
    | blocked => exact .inr rfl
    | present login status bot =>
      rw [hs] at means
      obtain ⟨⟨call, hc, a, accepted, -⟩, all, -⟩ := means
      refine absurd (disputed.perm perm.symm) (h.undisputed hc accepted ?_).1
      intro call hc call' hc' a a' accepted accepted'
      obtain ⟨login, status⟩ := all call hc a accepted
      obtain ⟨login', status'⟩ := all call' hc' a' accepted'
      exact ⟨login.trans login'.symm, status.trans status'.symm⟩
  · intro calls' perm
    have before := tracks parse inst scope time resources groups calls
    have after := tracks parse inst scope time resources groups calls'
    have kept := h.kept_eq inst scope time resources groups perm
    refine ⟨?_, ?_, ?_⟩
    · refine congrArg (core.sortAccounts ∘ values) (Std.ExtTreeMap.ext_getElem? fun k => ?_)
      rw [(before.accounts k).account, (after.accounts k).account, h.standing_eq perm]
    · apply congrArg core.sortMemberships
      have after := after.memberships
      rw [← kept] at after
      refine (journal_values_eq before.memberships after (perm.filterMap _) ?_ ?_).trans
        (by rw [kept]; rfl)
      · intro m hm m' hm' same _
        obtain ⟨call, -, issued⟩ := List.mem_filterMap.mp hm
        obtain ⟨call', -, issued'⟩ := List.mem_filterMap.mp hm'
        exact membership?_unique issued issued' same
      · intro m _ m' _ same
        rw [(Prod.mk.inj same).1]
    · apply congrArg core.sortGrants
      have after := after.grants
      rw [← kept] at after
      refine (journal_values_eq before.grants after (perm.filterMap _) ?_ ?_).trans
        (by rw [kept]; rfl)
      · intro g hg g' hg' same keep
        obtain ⟨call, hc, issued⟩ := List.mem_filterMap.mp hg
        obtain ⟨call', hc', issued'⟩ := List.mem_filterMap.mp hg'
        exact h.grant_unique hc hc' issued issued' same keep
      · intro g hg g' hg' same
        obtain ⟨call, -, issued⟩ := List.mem_filterMap.mp hg
        obtain ⟨call', -, issued'⟩ := List.mem_filterMap.mp hg'
        rw [grant?_subject issued issued' same]

/-! ## Calls that suppress are consistent -/

/-- Calls arranged so that the rows of an account that are read to the end come last. -/
structure Arranged (parse : String → Option Int) (inst scope : String) (k : EntityKey)
    (calls early late : List Call) : Prop where
  perm : calls.Perm (early ++ late)
  rejected : ∀ call ∈ early, ∀ a, ¬Accepted parse inst scope k call a
  accepted : ∀ call ∈ late, ∃ a, Accepted parse inst scope k call a

theorem exists_arranged (parse : String → Option Int) (inst scope : String) (k : EntityKey)
    (calls : List Call) : ∃ early late, Arranged parse inst scope k calls early late := by
  classical
  refine ⟨calls.filter fun call => ¬∃ a, Accepted parse inst scope k call a,
    calls.filter fun call => ∃ a, Accepted parse inst scope k call a, ?_, ?_, ?_⟩
  · refine (List.filter_append_perm (fun call => decide (∃ a, Accepted parse inst scope k call a))
      calls).symm.trans (List.perm_append_comm.trans ?_)
    simp only [decide_not]
    exact .refl _
  · intro call hc a accepted
    rw [List.mem_filter, decide_eq_true_eq] at hc
    exact hc.2 ⟨a, accepted⟩
  · intro call hc
    rw [List.mem_filter, decide_eq_true_eq] at hc
    exact hc.2

/-- In arranged calls whose rows agree, the account is not blocked. -/
theorem Arranged.ne_blocked {k : EntityKey} {early late : List Call}
    (h : Arranged parse inst scope k calls early late) (agree : Agree parse inst scope k calls) :
    standing parse inst scope k (early ++ late) ≠ .blocked := by
  refine standing_ne_blocked h.rejected (fun call hc a formed => ?_)
    fun call hc call' hc' => agree call ?_ call' ?_
  · obtain ⟨a', accepted⟩ := h.accepted call hc
    rwa [Option.some.inj (formed.candidate.symm.trans accepted.candidate)]
  · exact h.perm.mem_iff.mpr (List.mem_append_right _ hc)
  · exact h.perm.mem_iff.mpr (List.mem_append_right _ hc')

/-- A call whose row is read to the end can be made the last one. -/
theorem Arranged.last {k : EntityKey} {early late : List Call}
    (h : Arranged parse inst scope k calls early late) {call : Call} {a : Account}
    (hc : call ∈ calls) (accepted : Accepted parse inst scope k call a) :
    ∃ rest, Arranged parse inst scope k calls early (rest ++ [call]) := by
  have mem : call ∈ late := by
    rcases List.mem_append.mp (h.perm.mem_iff.mp hc) with early' | late'
    · exact absurd accepted (h.rejected call early' a)
    · exact late'
  obtain ⟨left, right, rfl⟩ := List.append_of_mem mem
  have moved : (left ++ call :: right).Perm (left ++ right ++ [call]) := by
    rw [List.append_assoc]
    exact List.Perm.append_left left (List.perm_append_singleton call right).symm
  exact ⟨left ++ right, h.perm.trans (moved.append_left early), h.rejected,
    fun call hc => h.accepted call (moved.mem_iff.mpr hc)⟩

/-- The grant of the last call is in the finished snapshot. -/
theorem Arranged.grant_mem {k : EntityKey} {early rest : List Call} {call : Call}
    (h : Arranged parse inst scope k calls early (rest ++ [call]))
    (agree : Agree parse inst scope k calls) {g : Grant}
    (issued : call.grant? parse inst scope time = some g) (hk : g.subject = .account k) :
    g ∈ (finished parse inst scope time resources groups core
      (early ++ (rest ++ [call]))).grants := by
  rw [mem_finished_grants, hk, (tracks parse inst scope time resources groups _).kept]
  refine ⟨?_, h.ne_blocked agree⟩
  rw [← List.append_assoc, List.filterMap_append, filterMap_singleton, issued]
  exact lastUnder_append_singleton.trans (if_pos rfl)

/-- Suppressing calls have no disputed account whose accepted rows agree. -/
theorem Suppresses.undisputed
    (h : Suppresses parse inst scope time resources groups core calls) {id : Nat} {call : Call}
    {a : Account} (hc : call ∈ calls)
    (accepted : Accepted parse inst scope (key inst scope "user" id) call a)
    (agree : Agree parse inst scope (key inst scope "user" id) calls) : ¬Disputed calls id := by
  intro disputed
  obtain ⟨early, late, arranged⟩ :=
    exists_arranged parse inst scope (key inst scope "user" id) calls
  have suppressed := h.suppressed _ arranged.perm id (disputed.perm arranged.perm)
  have clear := arranged.ne_blocked agree
  have means := standing_means parse inst scope
    (key inst scope "user" id) (early ++ late)
  cases hs : standing parse inst scope (key inst scope "user" id) (early ++ late) with
  | unseen =>
    rw [hs] at means
    exact means call (arranged.perm.mem_iff.mp hc) a accepted
  | blocked => exact clear hs
  | present login status bot =>
    exact suppressed.accounts _ (mem_finished_accounts.mpr
      ⟨key inst scope "user" id, by rw [hs]; rfl⟩) rfl

/-- Level and custom role are read back from the role. -/
theorem Assignment.role_inj {b b' : Assignment} (h : b.role = b'.role) : b = b' := by
  obtain ⟨level, custom⟩ := b
  obtain ⟨level', custom'⟩ := b'
  have cut (level : Nat) (custom : Option Nat) : (Assignment.mk level custom).role =
      "access_level:" ++ (toString level ++ (":" ++ (levelName level ++
        (custom.map fun id => s!":member_role_id:{id}").getD ""))) := by
    rw [← String.append_assoc, ← String.append_assoc, ← String.append_assoc]
    rfl
  rw [cut, cut] at h
  have h := congrArg String.toList ((String.append_right_inj _).mp h)
  simp only [String.toList_append] at h
  have front : level = level' ∧ levelName level ++
      (custom.map fun id => s!":member_role_id:{id}").getD "" = levelName level' ++
        (custom'.map fun id => s!":member_role_id:{id}").getD "" := by
    obtain ⟨digits, rest⟩ := sep_append_inj (plain_digits level)
      (plain_digits level') h
    rw [← String.toList_append, ← String.toList_append] at rest
    exact ⟨Text.toString_injective (String.toList_inj.mp digits), String.toList_inj.mp rest⟩
  obtain ⟨rfl, rest⟩ := front
  have rest := (String.append_right_inj _).mp rest
  cases custom with
  | none =>
    cases custom' with
    | none => rfl
    | some id => exact absurd (congrArg String.toList rest) (by simp)
  | some id =>
    cases custom' with
    | none => exact absurd (congrArg String.toList rest) (by simp)
    | some id' => rw [Text.toString_injective ((String.append_right_inj _).mp rest)]

/-- The list of a grant names the kind of its resource. -/
theorem method_inj {group group' effective : Bool}
    (h : method group effective = method group' effective) : group = group' := by
  revert h
  cases group <;> cases group' <;> cases effective <;> decide

/-- **Calls that suppress are consistent.** -/
theorem Suppresses.consistent
    (h : Suppresses parse inst scope time resources groups core calls) : Consistent parse calls := by
  rintro id ⟨call, hc, b, read⟩ agree
  have agree := (agree_iff inst scope).mpr agree
  obtain ⟨a, accepted⟩ := read.accepted inst scope
  refine ⟨h.undisputed hc accepted agree, ?_⟩
  intro call hc call' hc' b b' read read' level level' list resource
  obtain ⟨early, late, arranged⟩ :=
    exists_arranged parse inst scope (key inst scope "user" id) calls
  -- each of the two grants survives in the order that puts its row last
  have grant {call : Call} {b : Assignment} (hc : call ∈ calls) (read : Read parse id call b)
      (level : b.level ≠ 0) :
      (Collection.new inst scope time).grantOf call.resource (key inst scope "user" id) call.group
        call.effective b ∈ (finished parse inst scope time resources groups core calls).grants := by
    obtain ⟨a, accepted⟩ := read.accepted inst scope
    obtain ⟨rest, arranged⟩ := arranged.last hc accepted
    rw [(h.order _ arranged.perm).2.2]
    refine arranged.grant_mem agree ?_ rfl
    simp only [Call.grant?, accepted.candidate, read.assigned, accepted.keyed, if_neg level]
  obtain ⟨first, -⟩ := mem_finished_grants.mp (grant hc read level)
  obtain ⟨second, -⟩ := mem_finished_grants.mp (grant hc' read' level')
  have same : grantId call.effective call.resource.id (key inst scope "user" id).id =
      grantId call'.effective call'.resource.id (key inst scope "user" id).id := by
    rw [list, resource]
  have eq := Option.some.inj (first.symm.trans ((congrArg (fun i => lastUnder Grant.id i _)
    same).trans second))
  obtain ⟨-, -, hr, role, -, -, -, provenance⟩ := Grant.mk.inj eq
  refine ⟨hr, ?_, Assignment.role_inj role⟩
  have := (Provenance.mk.inj provenance).1
  rw [list] at this
  exact method_inj this

/-- **Disputed rows are suppressed in every order exactly when the calls are consistent.** -/
theorem suppresses_iff_consistent (parse : String → Option Int) (inst scope time : String)
    (resources : Std.ExtTreeMap EntityKey Resource) (groups : Std.ExtTreeMap EntityKey Group)
    (core : Core) (calls : List Call) :
    Suppresses parse inst scope time resources groups core calls ↔ Consistent parse calls :=
  ⟨Suppresses.consistent, Consistent.suppresses⟩

/-- An expired row calls account 7 mallory, and a later row calls it alice: alice stays. -/
theorem expired_row_hides :
    let expired : Call := ⟨⟨"gitlab", "s:group:1"⟩, true, false, .object [
      ("access_level", .number (.posInt 30)), ("expires_at", .string "2020-01-01"),
      ("id", .number (.posInt 7)), ("username", .string "mallory")], 20000⟩
    let current : Call := ⟨⟨"gitlab", "s:group:1"⟩, true, true, .object [
      ("access_level", .number (.posInt 30)), ("id", .number (.posInt 7)),
      ("username", .string "alice")], 20000⟩
    ¬Suppresses (fun _ => some 18262) "gitlab" "s" "now" ∅ ∅ .plain [expired, current] := by
  intro expired current suppresses
  have accepted : Accepted (fun _ => some 18262) "gitlab" "s" (key "gitlab" "s" "user" 7) current
      ⟨key "gitlab" "s" "user" 7, "alice", .unknown, .unknown, .unknown, []⟩ :=
    ⟨⟨by decide +kernel, rfl⟩, by decide +kernel⟩
  have only {call : Call} {a : Account} (hc : call ∈ [expired, current])
      (h : Accepted (fun _ => some 18262) "gitlab" "s" (key "gitlab" "s" "user" 7) call a) :
      a = ⟨key "gitlab" "s" "user" 7, "alice", .unknown, .unknown, .unknown, []⟩ := by
    rcases List.mem_cons.mp hc with rfl | hc
    · exact absurd h.assigned (by decide +kernel)
    · rw [List.mem_singleton.mp hc] at h
      exact Option.some.inj (h.candidate.symm.trans accepted.candidate)
  have here : current ∈ [expired, current] := List.mem_cons_of_mem _ (List.mem_cons_self ..)
  refine suppresses.undisputed here accepted ?_ (.inl ⟨expired, List.mem_cons_self .., current, here,
    by decide +kernel, by decide +kernel, .inl (by decide +kernel)⟩)
  intro call hc call' hc' a a' h h'
  rw [only hc h, only hc' h']
  exact ⟨rfl, rfl⟩

end Permesh.Gitlab

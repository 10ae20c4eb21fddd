import Permesh.Laws.Cloudflare.Rows

/-!
# Laws.Cloudflare.Suppression — who is blocked

What the loops of `collect` leave behind, in terms of the rows that were listed: who is active, who
is blocked, and which grants and memberships there are. A member is blocked by a rejected group only
if all rows that the group lists for it are the same.

Each loop has its own description, and a description holds for the rows taken so far; the loops over
members, grants and groups are then put together. Nothing is said of rows that were never listed.
-/

namespace Permesh.Cloudflare

open Permesh.Json Permesh.Http Permesh.Lib

/-- The membership in a group was accepted. -/
def Accepted (v : Value) : Prop := (v.get "status").bind Value.asStr = some "accepted"

/-- The membership in the account was accepted. -/
def IsMember (v : Value) : Prop := ∃ key login, member v = .ok (key, login, true)

/-- The rows of the account agree on a member whose membership was accepted. -/
def Active (rows : List Value) (m : String) : Prop := ∃ v, Agree rows m v ∧ IsMember v

/-- The rows of a group agree that the member was accepted. -/
def Joins (rows : List Value) (m : String) : Prop := ∃ v, Agree rows m v ∧ Accepted v

/-- Some row of a group says that the member was accepted. -/
def Lists (rows : List Value) (m : String) : Prop := ∃ row ∈ rows, id row = .ok m ∧ Accepted row

section

variable (client : Client) (zones : Std.ExtTreeSet String) (observedAt : String)

/-- The policies of a group are rejected. -/
def Rejected (visit : Visit) : Prop :=
  ∃ e, client.groupPolicies zones observedAt visit.key visit.value = .error e

def membershipOf (m group : String) : Membership where
  member := .account (client.memberKey m)
  group := client.groupKey group
  provenance := ⟨"cloudflare.iam.user_groups.members", observedAt⟩

/-- The state behind the members. -/
structure Enrolled (entries : List (String × Value)) (s : State) : Prop where
  active : ∀ m, m ∈ s.active ↔ ∃ v, (m, v) ∈ entries ∧ IsMember v
  blocked : ∀ m, m ∈ s.blocked ↔ ∃ v, (m, v) ∈ entries ∧ IsMember v ∧
    ∃ e, client.memberPolicies zones observedAt m v = .error e
  grants : ∀ x, x ∈ s.grants ↔ ∃ m v, (m, v) ∈ entries ∧ IsMember v ∧
    ∃ grants, client.memberPolicies zones observedAt m v = .ok grants ∧ x ∈ grants
  memberships : s.memberships = []
  visits : s.visits = []

/-- The state behind the groups, from the state behind the members. -/
structure Grouped (s₁ : State) (entries : List (String × Value)) (s : State) : Prop where
  active : s.active = s₁.active
  visited : ∀ visit ∈ s.visits, (visit.key, visit.value) ∈ entries
  blocked : ∀ m, m ∈ s.blocked ↔ m ∈ s₁.blocked ∨
    m ∈ s₁.active ∧ ∃ visit ∈ s.visits, Rejected client zones observedAt visit ∧ Joins visit.rows m
  memberships : ∀ m x, (m, x) ∈ s.memberships ↔ m ∈ s₁.active ∧ ∃ visit ∈ s.visits,
    ¬Rejected client zones observedAt visit ∧ Joins visit.rows m ∧
      x = membershipOf client observedAt m visit.key
  grants : ∀ x, x ∈ s.grants ↔ x ∈ s₁.grants ∨ ∃ visit ∈ s.visits, ∃ grants,
    client.groupPolicies zones observedAt visit.key visit.value = .ok grants ∧ x ∈ grants

/-- The state behind the rows of a group. -/
structure Joined (group : String) (rejected : Bool) (s₀ : State) (entries : List (String × Value))
    (s : State) : Prop where
  active : s.active = s₀.active
  grants : s.grants = s₀.grants
  visits : s.visits = s₀.visits
  blocked : ∀ m, m ∈ s.blocked ↔ m ∈ s₀.blocked ∨
    rejected = true ∧ m ∈ s₀.active ∧ ∃ v, (m, v) ∈ entries ∧ Accepted v
  memberships : ∀ m x, (m, x) ∈ s.memberships ↔ (m, x) ∈ s₀.memberships ∨
    rejected = false ∧ m ∈ s₀.active ∧ (∃ v, (m, v) ∈ entries ∧ Accepted v) ∧
      x = membershipOf client observedAt m group

end

variable {client : Client} {zones : Std.ExtTreeSet String} {observedAt : String}

/-- An entry more. -/
theorem exists_entry_append {entries : List (String × Value)} {entry : String × Value} {m : String}
    {P : Value → Prop} : (∃ v, (m, v) ∈ entries ++ [entry] ∧ P v) ↔
      (∃ v, (m, v) ∈ entries ∧ P v) ∨ m = entry.1 ∧ P entry.2 := by
  constructor
  · rintro ⟨v, mem, h⟩
    rcases List.mem_append.mp mem with mem | mem
    · exact .inl ⟨v, mem, h⟩
    · cases List.mem_singleton.mp mem
      exact .inr ⟨rfl, h⟩
  · rintro (⟨v, mem, h⟩ | ⟨rfl, h⟩)
    · exact ⟨v, List.mem_append_left _ mem, h⟩
    · exact ⟨entry.2, List.mem_append_right _ (List.mem_singleton.mpr rfl), h⟩

/-! ## Members -/

/-- A row that is no member says nothing. -/
theorem Enrolled.skip {entries : List (String × Value)} {s s' : State}
    (h : Enrolled client zones observedAt entries s) {entry : String × Value}
    (none : ¬IsMember entry.2) (active : s'.active = s.active) (blocked : s'.blocked = s.blocked)
    (grants : s'.grants = s.grants) (memberships : s'.memberships = s.memberships)
    (visits : s'.visits = s.visits) :
    Enrolled client zones observedAt (entries ++ [entry]) s' := by
  constructor
  · intro m
    rw [active, h.active, exists_entry_append]
    exact ⟨.inl, fun h => h.resolve_right fun h => none h.2⟩
  · intro m
    rw [blocked, h.blocked, exists_entry_append]
    exact ⟨.inl, fun h => h.resolve_right fun h => none h.2.1⟩
  · intro x
    rw [grants, h.grants]
    apply exists_congr
    intro m
    rw [exists_entry_append]
    exact ⟨.inl, fun h => h.resolve_right fun h => none h.2.1⟩
  · exact memberships.trans h.memberships
  · exact visits.trans h.visits

theorem Enrolled.enroll {entries : List (String × Value)} {s s' : State}
    (h : Enrolled client zones observedAt entries s) {entry : String × Value}
    (ok : client.enroll zones observedAt s entry = .ok s') :
    Enrolled client zones observedAt (entries ++ [entry]) s' := by
  unfold Client.enroll at ok
  split at ok
  case h_1 e he =>
    cases ok
    refine h.skip ?_ rfl rfl rfl rfl rfl
    rintro ⟨key, login, hm⟩
    rw [he] at hm
    cases hm
  case h_2 key login hp =>
    cases ok
    refine h.skip ?_ rfl rfl rfl rfl rfl
    rintro ⟨key', login', hm⟩
    rw [hp] at hm
    cases hm
  case h_3 key login hm =>
    have isMember : IsMember entry.2 := ⟨key, login, hm⟩
    dsimp only at ok
    split at ok
    case h_1 granted hg =>
      split at ok
      · cases ok
      cases ok
      constructor
      · intro m
        rw [mem_insert_key, h.active, exists_entry_append, or_comm, eq_comm, and_iff_left isMember]
      · intro m
        rw [h.blocked, exists_entry_append]
        refine ⟨.inl, fun h => h.resolve_right ?_⟩
        rintro ⟨rfl, -, e, he⟩
        rw [hg] at he
        cases he
      · intro x
        rw [List.mem_append, h.grants]
        simp only [exists_entry_append, exists_or]
        refine or_congr_right ⟨fun mem => ⟨entry.1, rfl, isMember, granted, hg, mem⟩, ?_⟩
        rintro ⟨m, rfl, -, granted', hg', mem⟩
        rw [hg] at hg'
        cases hg'
        exact mem
      · exact h.memberships
      · exact h.visits
    case h_2 e he =>
      cases ok
      constructor
      · intro m
        rw [mem_insert_key, h.active, exists_entry_append, or_comm, eq_comm, and_iff_left isMember]
      · intro m
        rw [mem_insert_key, h.blocked, exists_entry_append, or_comm]
        refine or_congr_right ⟨?_, fun h => h.1.symm⟩
        rintro rfl
        exact ⟨rfl, isMember, e, he⟩
      · intro x
        rw [h.grants]
        simp only [exists_entry_append, exists_or]
        refine ⟨.inl, fun h => h.resolve_right ?_⟩
        rintro ⟨m, rfl, -, granted, hg, -⟩
        rw [he] at hg
        cases hg
      · exact h.memberships
      · exact h.visits

/-! ## Members of a group -/

/-- A row that is not accepted, or of somebody who is not active, says nothing. -/
theorem Joined.skip {group : String} {rejected : Bool} {s₀ s s' : State}
    {entries : List (String × Value)}
    (h : Joined client observedAt group rejected s₀ entries s) {entry : String × Value}
    (none : ¬(Accepted entry.2 ∧ entry.1 ∈ s₀.active)) (active : s'.active = s.active)
    (grants : s'.grants = s.grants) (visits : s'.visits = s.visits)
    (blocked : s'.blocked = s.blocked) (memberships : s'.memberships = s.memberships) :
    Joined client observedAt group rejected s₀ (entries ++ [entry]) s' := by
  refine ⟨active.trans h.active, grants.trans h.grants, visits.trans h.visits, fun m => ?_,
    fun m x => ?_⟩
  · rw [blocked, h.blocked, exists_entry_append]
    refine or_congr_right ⟨fun ⟨r, a, e⟩ => ⟨r, a, .inl e⟩, ?_⟩
    rintro ⟨r, a, e | ⟨rfl, e⟩⟩
    · exact ⟨r, a, e⟩
    · exact absurd ⟨e, a⟩ none
  · rw [memberships, h.memberships, exists_entry_append]
    refine or_congr_right ⟨fun ⟨r, a, e, x⟩ => ⟨r, a, .inl e, x⟩, ?_⟩
    rintro ⟨r, a, e | ⟨rfl, e⟩, x⟩
    · exact ⟨r, a, e, x⟩
    · exact absurd ⟨e, a⟩ none

theorem Joined.join {group : String} {rejected : Bool} {s₀ s : State}
    {entries : List (String × Value)}
    (h : Joined client observedAt group rejected s₀ entries s) (entry : String × Value) :
    Joined client observedAt group rejected s₀ (entries ++ [entry])
      (client.join observedAt (client.groupKey group) rejected s entry) := by
  unfold Client.join
  dsimp only
  split
  case isTrue pending =>
    refine h.skip (fun both => ?_) rfl rfl rfl rfl rfl
    have := both.1
    rw [Accepted, pending] at this
    exact absurd this (by decide)
  split
  case isTrue other =>
    refine h.skip (fun both => ?_) rfl rfl rfl rfl rfl
    rcases other with other | other
    · exact other both.1
    · rw [h.active] at other
      exact other both.2
  case isFalse taken =>
    rw [not_or, ne_eq, not_not, not_not, h.active] at taken
    obtain ⟨accepted, active⟩ := taken
    cases rejected with
    | true =>
      rw [if_pos rfl]
      refine ⟨h.active, h.grants, h.visits, fun m => ?_, fun m x => ?_⟩
      · rw [mem_insert_key, h.blocked, exists_entry_append]
        constructor
        · rintro (rfl | old | ⟨r, a, e⟩)
          · exact .inr ⟨rfl, active, .inr ⟨rfl, accepted⟩⟩
          · exact .inl old
          · exact .inr ⟨r, a, .inl e⟩
        · rintro (old | ⟨r, a, e | ⟨rfl, -⟩⟩)
          · exact .inr (.inl old)
          · exact .inr (.inr ⟨r, a, e⟩)
          · exact .inl rfl
      · rw [h.memberships]
        simp
    | false =>
      rw [if_neg Bool.false_ne_true]
      refine ⟨h.active, h.grants, h.visits, fun m => ?_, fun m x => ?_⟩
      · rw [h.blocked]
        simp
      · rw [List.mem_append, h.memberships, exists_entry_append, List.mem_singleton]
        constructor
        · rintro ((old | ⟨r, a, e, hx⟩) | same)
          · exact .inl old
          · exact .inr ⟨r, a, .inl e, hx⟩
          · cases same
            exact .inr ⟨rfl, active, .inr ⟨rfl, accepted⟩, rfl⟩
        · rintro (old | ⟨r, a, e | ⟨rfl, -⟩, hx⟩)
          · exact .inl (.inl old)
          · exact .inl (.inr ⟨r, a, e, hx⟩)
          · exact .inr (by rw [hx]; rfl)

/-- The rows that a visit lists. -/
def visitRows (client : Client) (key : String) (s : State) : List Value :=
  (client.listing s!"accounts/{client.accountId}/iam/user_groups/{key}/members" [] s.budget).1.rows

theorem visit_joined (client : Client) (observedAt key : String) (value : Value) (rejected : Bool)
    (s : State) : (client.visit observedAt key value rejected s).active = s.active ∧
      (client.visit observedAt key value rejected s).grants = s.grants ∧
      (client.visit observedAt key value rejected s).visits =
        s.visits ++ [⟨key, value, visitRows client key s⟩] ∧
      (∀ m, m ∈ (client.visit observedAt key value rejected s).blocked ↔ m ∈ s.blocked ∨
        rejected = true ∧ m ∈ s.active ∧ Joins (visitRows client key s) m) ∧
      ∀ m x, (m, x) ∈ (client.visit observedAt key value rejected s).memberships ↔
        (m, x) ∈ s.memberships ∨ rejected = false ∧ m ∈ s.active ∧
          Joins (visitRows client key s) m ∧ x = membershipOf client observedAt m key := by
  unfold Client.visit
  generalize listed : client.listing
    s!"accounts/{client.accountId}/iam/user_groups/{key}/members" [] s.budget = answer
  obtain ⟨list, budget⟩ := answer
  have rows : visitRows client key s = list.rows := by rw [visitRows, listed]
  dsimp only
  have entries (m : String) (v : Value) :=
    mem_unique list.rows (warnFailure s.snapshot list.failure) m v
  generalize unique list.rows (warnFailure s.snapshot list.failure) = distinct at entries ⊢
  have joined := foldl_rule (Joined client observedAt key rejected
      { s with
        budget := budget
        snapshot := distinct.2
        visits := s.visits ++ [⟨key, value, list.rows⟩] })
    ⟨rfl, rfl, rfl, by simp, by simp⟩ (fun _ entry _ h => h.join entry) distinct.1.toList
  rw [rows]
  refine ⟨joined.active, joined.grants, joined.visits, fun m => ?_, fun m x => ?_⟩
  · simp only [joined.blocked m, entries, Joins]
  · simp only [joined.memberships m x, entries, Joins]

/-! ## Groups -/

/-- What `assign` does. -/
theorem assign_ok {s s₂ : State} {granted : Except ProviderError (List (Grant × Resource))}
    (ha : Client.assign s granted = .ok s₂) :
    s₂.active = s.active ∧ s₂.blocked = s.blocked ∧ s₂.memberships = s.memberships ∧
      s₂.visits = s.visits ∧
      ∀ x, x ∈ s₂.grants ↔ x ∈ s.grants ∨ ∃ grants, granted = .ok grants ∧ x ∈ grants := by
  unfold Client.assign at ha
  split at ha
  case h_1 e =>
    cases ha
    refine ⟨rfl, rfl, rfl, rfl, fun x => ⟨.inl, fun h => h.resolve_right ?_⟩⟩
    rintro ⟨_, hg, -⟩
    cases hg
  case h_2 grants =>
    split at ha
    · cases ha
    cases ha
    refine ⟨rfl, rfl, rfl, rfl, fun x => ?_⟩
    rw [List.mem_append]
    refine or_congr_right ⟨fun mem => ⟨grants, rfl, mem⟩, ?_⟩
    rintro ⟨grants', hg, mem⟩
    cases hg
    exact mem

theorem Grouped.group {s₁ s s' : State} {entries : List (String × Value)}
    (h : Grouped client zones observedAt s₁ entries s) {entry : String × Value}
    (ok : client.group zones observedAt s entry = .ok s') :
    Grouped client zones observedAt s₁ (entries ++ [entry]) s' := by
  unfold Client.group at ok
  split at ok
  · cases ok
    exact ⟨h.active, fun visit mem => List.mem_append_left _ (h.visited visit mem), h.blocked,
      h.memberships, h.grants⟩
  case h_2 name _ =>
    dsimp only at ok
    split at ok
    · cases ok
    case h_2 s₂ ha =>
      obtain ⟨active, blocked, memberships, visits, grants⟩ := assign_ok ha
      split at ok
      · cases ok
      cases ok
      obtain ⟨active', grants', visits', blocked', memberships'⟩ := visit_joined client observedAt
        entry.1 entry.2 (client.groupPolicies zones observedAt entry.1 entry.2).toOption.isNone s₂
      generalize visitRows client entry.1 s₂ = rows at visits' blocked' memberships'
      generalize client.visit observedAt entry.1 entry.2 _ s₂ = s' at *
      have rejected : (client.groupPolicies zones observedAt entry.1 entry.2).toOption.isNone = true ↔
          Rejected client zones observedAt ⟨entry.1, entry.2, rows⟩ := by
        unfold Rejected
        cases client.groupPolicies zones observedAt entry.1 entry.2 <;> simp [Except.toOption]
      have accepted : (client.groupPolicies zones observedAt entry.1 entry.2).toOption.isNone =
          false ↔ ¬Rejected client zones observedAt ⟨entry.1, entry.2, rows⟩ := by
        rw [← rejected, Bool.not_eq_true]
      have all {P : Visit → Prop} : (∃ visit ∈ s'.visits, P visit) ↔
          (∃ visit ∈ s.visits, P visit) ∨ P ⟨entry.1, entry.2, rows⟩ := by
        rw [visits', visits]
        exact exists_mem_snoc
      constructor
      · exact active'.trans (active.trans h.active)
      · rw [visits', visits]
        exact forall_mem_snoc (fun visit mem => List.mem_append_left _ (h.visited visit mem))
          (List.mem_append_right _ (List.mem_singleton_self _))
      · intro m
        rw [blocked', blocked, h.blocked, rejected, active, h.active, all, and_or_left, or_assoc,
          and_left_comm]
      · intro m x
        rw [memberships', memberships, h.memberships, accepted, active, h.active, all, and_or_left,
          and_left_comm]
      · intro x
        rw [grants', grants, h.grants, all, or_assoc]

end Permesh.Cloudflare

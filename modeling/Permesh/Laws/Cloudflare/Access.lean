import Permesh.Laws.Cloudflare.Suppression

/-!
# Laws.Cloudflare.Access — what a deny suppresses

A run that returns a snapshot, against the rows it has read. A member of a rejected group ought to
have no grant and no membership. This holds exactly when the rows of the group agree on the member,
or something else keeps the member out (`suppresses_iff_settled`).

A member of a snapshot has no access for one of two reasons: it is blocked, or it has nothing to report
(`noAccess_iff`). Both directions compare the rows of the groups with these. What Cloudflare denies
beyond the policies that it lists is out of sight.
-/

namespace Permesh.Cloudflare

open Permesh.Json Permesh.Http Permesh.Lib

variable {client : Client} {zones : Std.ExtTreeSet String} {observedAt : String}

/-! ## Keys -/

theorem memberKey_id (client : Client) (m : String) : (client.memberKey m).id.toList =
    "member:".toList ++ client.accountId.toList ++ [':'] ++ m.toList := by
  show ("member:" ++ client.accountId ++ ":" ++ m).toList = _
  simp

theorem groupKey_id (client : Client) (g : String) : (client.groupKey g).id.toList =
    "user-group:".toList ++ client.accountId.toList ++ [':'] ++ g.toList := by
  show ("user-group:" ++ client.accountId ++ ":" ++ g).toList = _
  simp

theorem memberKey_injective (client : Client) : Function.Injective client.memberKey := by
  intro m m' h
  have chars := congrArg (fun k : EntityKey => k.id.toList) h
  simp only [memberKey_id, List.append_cancel_left_eq] at chars
  exact String.toList_injective chars

/-- A grant with the identifier of a grant of a member is one of the same member. -/
theorem subject_of_id {m : String} {x y : Grant} {subject : Subject}
    (hx : Names (.account (client.memberKey m)) x) (hy : Names subject y)
    (native : m.toList.length = 32) (known : (∃ m' : String, m'.toList.length = 32 ∧
      subject = .account (client.memberKey m')) ∨ ∃ g, subject = .group (client.groupKey g))
    (same : x.id = y.id) : y.subject = .account (client.memberKey m) := by
  obtain ⟨-, rest, hid⟩ := hx
  obtain ⟨subject_eq, rest', hid'⟩ := hy
  rw [hid, hid'] at same
  have chars := congrArg String.toList same
  rcases known with ⟨m', native', rfl⟩ | ⟨g, rfl⟩
  · simp only [subjectKey, String.toList_append, memberKey_id, List.append_assoc,
      List.append_cancel_left_eq] at chars
    have := (List.append_inj chars (native.trans native'.symm)).1
    rw [subject_eq, String.toList_injective this]
  · simp only [subjectKey, String.toList_append, memberKey_id, groupKey_id, List.append_assoc] at chars
    exact absurd (congrArg List.head? chars) (by simp)

/-! ## The run -/

/-- What the state of a run says of the rows it has read. -/
structure Read (client : Client) (observedAt : String) (g : Client.Gathered) : Prop where
  active : ∀ m, m ∈ g.state.active ↔ Active g.memberRows m
  blocked : ∀ m, m ∈ g.state.blocked ↔
    (∃ v, Agree g.memberRows m v ∧ IsMember v ∧
      ∃ e, client.memberPolicies g.zones observedAt m v = .error e) ∨
    Active g.memberRows m ∧ ∃ visit ∈ g.state.visits,
      Rejected client g.zones observedAt visit ∧ Joins visit.rows m
  grants : ∀ x, x ∈ g.state.grants ↔
    (∃ m v, Agree g.memberRows m v ∧ IsMember v ∧
      ∃ grants, client.memberPolicies g.zones observedAt m v = .ok grants ∧ x ∈ grants) ∨
    ∃ visit ∈ g.state.visits, ∃ grants,
      client.groupPolicies g.zones observedAt visit.key visit.value = .ok grants ∧ x ∈ grants
  memberships : ∀ m x, (m, x) ∈ g.state.memberships ↔ Active g.memberRows m ∧
    ∃ visit ∈ g.state.visits, ¬Rejected client g.zones observedAt visit ∧ Joins visit.rows m ∧
      x = membershipOf client observedAt m visit.key
  visited : ∀ visit ∈ g.state.visits, Agree g.groupRows visit.key visit.value

theorem enrolled_start (s : Snapshot) (budget : Budget) :
    Enrolled client zones observedAt [] ⟨s, budget, ∅, ∅, [], [], []⟩ := by
  refine ⟨fun m => ?_, fun m => ?_, fun x => ?_, rfl, rfl⟩ <;> simp

theorem Enrolled.grouped {entries : List (String × Value)} {s : State}
    (h : Enrolled client zones observedAt entries s) : Grouped client zones observedAt s [] s := by
  refine ⟨rfl, ?_, fun m => ?_, fun m x => ?_, fun x => ?_⟩
  · rw [h.visits]
    exact fun _ mem => by cases mem
  · simp [h.visits]
  · simp [h.visits, h.memberships]
  · simp [h.visits]

/-- **What was read decides who is blocked.** -/
theorem read_of_gather {g : Client.Gathered} (ok : client.gather observedAt = .ok g) :
    Read client observedAt g := by
  unfold Client.gather at ok
  obtain ⟨response, -, ok⟩ := bind_ok ok
  obtain ⟨account, -, ok⟩ := bind_ok ok
  dsimp only at ok
  obtain ⟨s₁, first, ok⟩ := bind_ok ok
  obtain ⟨s₂, second, ok⟩ := bind_ok ok
  cases ok
  have enrolled := foldlM_rule (Enrolled client _ observedAt) (enrolled_start _ _)
    (fun _ _ _ _ h ok => h.enroll ok) first
  have grouped := foldlM_rule (Grouped client _ observedAt s₁) enrolled.grouped
    (fun _ _ _ _ h ok => h.group ok) second
  constructor
  · intro m
    rw [grouped.active, enrolled.active]
    simp only [mem_unique, Active]
  · intro m
    rw [grouped.blocked, enrolled.blocked, enrolled.active]
    simp only [mem_unique, Active]
  · intro x
    rw [grouped.grants, enrolled.grants]
    simp only [mem_unique]
  · intro m x
    rw [grouped.memberships, enrolled.active]
    simp only [mem_unique, Active]
  · intro visit mem
    exact (mem_unique ..).mp (grouped.visited visit mem)

theorem Agree.unique {rows : List Value} {k : String} {v v' : Value} (h : Agree rows k v)
    (h' : Agree rows k v') : v = v' := by
  obtain ⟨row, mem, hid⟩ := h.1
  exact (h.2 row mem hid).symm.trans (h'.2 row mem hid)

theorem Agree.native {rows : List Value} {k : String} {v : Value} (h : Agree rows k v) :
    k.toList.length = 32 := by
  obtain ⟨row, -, hid⟩ := h.1
  exact id_length hid

theorem Agree.row {rows : List Value} {k : String} {v row : Value} (h : Agree rows k v)
    (mem : row ∈ rows) (hid : id row = .ok k) : Agree rows k row := by
  rw [h.2 row mem hid]
  exact h

/-- Every grant is one of a member or of a group. -/
theorem Read.names {g : Client.Gathered} (h : Read client observedAt g) {x : Grant × Resource}
    (mem : x ∈ g.state.grants) : ∃ subject, Names subject x.1 ∧
      ((∃ m : String, m.toList.length = 32 ∧ subject = .account (client.memberKey m)) ∨
        ∃ key, subject = .group (client.groupKey key)) := by
  rcases (h.grants x).mp mem with ⟨m, v, agree, -, grants, ok, hx⟩ | ⟨visit, -, grants, ok, hx⟩
  · exact ⟨_, policies_of ok x hx, .inl ⟨m, agree.native, rfl⟩⟩
  · exact ⟨_, policies_of ok x hx, .inr ⟨visit.key, rfl⟩⟩

/-- The grants of a member are those of its own policies. -/
theorem Read.own {g : Client.Gathered} (h : Read client observedAt g) {m : String}
    {x : Grant × Resource} : x ∈ g.state.grants ∧ x.1.subject = .account (client.memberKey m) ↔
      ∃ v, Agree g.memberRows m v ∧ IsMember v ∧
        ∃ grants, client.memberPolicies g.zones observedAt m v = .ok grants ∧ x ∈ grants := by
  rw [h.grants]
  constructor
  · rintro ⟨⟨m', v, agree, isMember, grants, ok, hx⟩ | ⟨visit, -, grants, ok, hx⟩, subject⟩
    · rw [(policies_of ok x hx).1] at subject
      cases memberKey_injective client (Subject.account.inj subject)
      exact ⟨v, agree, isMember, grants, ok, hx⟩
    · rw [(policies_of ok x hx).1] at subject
      cases subject
  · rintro ⟨v, agree, isMember, grants, ok, hx⟩
    exact ⟨.inl ⟨m, v, agree, isMember, grants, ok, hx⟩, (policies_of ok x hx).1⟩

/-! ## The snapshot -/

/-- What is emitted of the grants so far. -/
structure Emitted (blocked : EntityKey → Bool) (entries : List (Grant × Resource))
    (o : Client.Output) : Prop where
  seen : ∀ i, i ∈ o.seen → ∃ x ∈ o.grants, x.id = i
  taken : ∀ x ∈ o.grants, Client.leftOut blocked x.subject = false ∧ ∃ r, (x, r) ∈ entries
  whole : ∀ x ∈ entries, Client.leftOut blocked x.1.subject = false → ∃ y ∈ o.grants, y.id = x.1.id

theorem Emitted.emit {blocked : EntityKey → Bool} {entries : List (Grant × Resource)}
    {o : Client.Output} (h : Emitted blocked entries o) (entry : Grant × Resource) :
    Emitted blocked (entries ++ [entry]) (Client.emit blocked o entry) := by
  obtain ⟨grant, resource⟩ := entry
  unfold Client.emit
  dsimp only
  split
  case isTrue out =>
    refine ⟨h.seen, fun x mem => ?_, fun x mem shown => ?_⟩
    · obtain ⟨free, r, there⟩ := h.taken x mem
      exact ⟨free, r, List.mem_append_left _ there⟩
    · rcases List.mem_append.mp mem with mem | mem
      · exact h.whole x mem shown
      · rw [List.mem_singleton.mp mem] at shown
        rw [out] at shown
        cases shown
  case isFalse free =>
    have kept : ∀ x ∈ o.grants,
        x ∈ (if grant.id ∈ o.seen then o.grants else o.grants ++ [grant]) := by
      intro x mem
      split
      · exact mem
      · exact List.mem_append_left _ mem
    have named : ∃ x ∈ (if grant.id ∈ o.seen then o.grants else o.grants ++ [grant]),
        x.id = grant.id := by
      by_cases old : grant.id ∈ o.seen
      · rw [if_pos old]
        exact h.seen _ old
      · rw [if_neg old]
        exact ⟨grant, List.mem_append_right _ (List.mem_singleton.mpr rfl), rfl⟩
    refine ⟨fun i mem => ?_, fun x mem => ?_, fun x mem shown => ?_⟩
    · rcases mem_insert_key.mp mem with rfl | mem
      · exact named
      · obtain ⟨x, there, hx⟩ := h.seen i mem
        exact ⟨x, kept x there, hx⟩
    · dsimp only at mem
      have old (mem : x ∈ o.grants) :
          Client.leftOut blocked x.subject = false ∧ ∃ r, (x, r) ∈ entries ++ [(grant, resource)] := by
        obtain ⟨free, r, there⟩ := h.taken x mem
        exact ⟨free, r, List.mem_append_left _ there⟩
      split at mem
      · exact old mem
      · rcases List.mem_append.mp mem with mem | mem
        · exact old mem
        · rw [List.mem_singleton.mp mem]
          exact ⟨Bool.eq_false_iff.mpr free, resource, by simp⟩
    · rcases List.mem_append.mp mem with mem | mem
      · obtain ⟨y, there, hy⟩ := h.whole x mem shown
        exact ⟨y, kept y there, hy⟩
      · rw [List.mem_singleton.mp mem]
        exact named

/-- The snapshot has nothing for the account of a member. -/
structure NoAccess (client : Client) (s : Snapshot) (m : String) : Prop where
  grants : ∀ g ∈ s.grants, g.subject ≠ .account (client.memberKey m)
  memberships : ∀ x ∈ s.memberships, x.member ≠ .account (client.memberKey m)

/-- A member has nothing to report: no grants of its own, and no group that is not rejected agrees
that it is a member. -/
structure Idle (client : Client) (observedAt : String) (g : Client.Gathered) (m : String) : Prop where
  grants : ∀ v, Agree g.memberRows m v → IsMember v → ∀ grants,
    client.memberPolicies g.zones observedAt m v = .ok grants → grants = []
  memberships : Active g.memberRows m → ∀ visit ∈ g.state.visits,
    ¬Rejected client g.zones observedAt visit → ¬Joins visit.rows m

/-- **Nothing is shown of a member exactly when it is blocked or has nothing to report.** -/
theorem noAccess_iff {g : Client.Gathered} (h : Read client observedAt g) (core : Core)
    (m : String) : NoAccess client (core.sort (client.graph g.state)) m ↔
      m ∈ g.state.blocked ∨ Idle client observedAt g m := by
  have start : Emitted (fun key => decide (key ∈ g.state.blocked.toList.map client.memberKey)) []
      ⟨∅, [], g.state.snapshot.resources.foldl (fun m r => m.insert r.key r) ∅⟩ :=
    ⟨fun _ mem => (by simp at mem), fun _ mem => (by cases mem), fun _ mem => (by cases mem)⟩
  have emitted := foldl_rule
    (Emitted fun key => decide (key ∈ g.state.blocked.toList.map client.memberKey)) start
    (fun _ entry _ h => h.emit entry) g.state.grants
  have hidden {x : Grant} (hx : x.subject = .account (client.memberKey m)) :
      Client.leftOut (fun key => decide (key ∈ g.state.blocked.toList.map client.memberKey))
        x.subject = true ↔ m ∈ g.state.blocked := by
    rw [hx]
    show decide (client.memberKey m ∈ g.state.blocked.toList.map client.memberKey) = true ↔ _
    rw [decide_eq_true_eq, List.mem_map_of_injective (memberKey_injective client)]
    exact Std.ExtTreeSet.mem_toList
  have grants (x : Grant) : x ∈ (core.sort (client.graph g.state)).grants ↔
      x ∈ (client.graph g.state).grants := (core.grants_perm _).mem_iff
  have memberships (x : Membership) : x ∈ (core.sort (client.graph g.state)).memberships ↔
      ∃ k, (k, x) ∈ g.state.memberships ∧ k ∉ g.state.blocked := by
    apply (core.memberships_perm _).mem_iff.trans
    show x ∈ (g.state.memberships.filter _).map Prod.snd ↔ _
    simp [List.mem_map, List.mem_filter]
  constructor
  · intro none
    by_cases blocked : m ∈ g.state.blocked
    · exact .inl blocked
    refine .inr ⟨fun v agree isMember own ok => ?_, fun active visit mem accepted joins => ?_⟩
    · by_contra filled
      obtain ⟨x, hx⟩ := List.exists_mem_of_ne_nil _ filled
      obtain ⟨mem, subject⟩ := h.own.mpr ⟨v, agree, isMember, own, ok, hx⟩
      obtain ⟨y, shown, same⟩ := emitted.whole x mem
        (Bool.eq_false_iff.mpr (mt (hidden subject).mp blocked))
      obtain ⟨-, r, there⟩ := emitted.taken y shown
      obtain ⟨subject', names, known⟩ := h.names there
      exact none.grants y ((grants y).mpr shown)
        (subject_of_id (policies_of ok x hx) names agree.native known same.symm)
    · have there := (h.memberships m _).mpr ⟨active, visit, mem, accepted, joins, rfl⟩
      exact none.memberships _ ((memberships _).mpr ⟨m, there, blocked⟩) rfl
  · intro out
    constructor
    · intro x mem subject
      obtain ⟨shown, r, there⟩ := emitted.taken x ((grants x).mp mem)
      rcases out with blocked | idle
      · rw [(hidden subject).mpr blocked] at shown
        cases shown
      · obtain ⟨v, agree, isMember, own, ok, hx⟩ := h.own.mp ⟨there, subject⟩
        rw [idle.grants v agree isMember own ok] at hx
        cases hx
    · intro x mem member
      obtain ⟨k, there, free⟩ := (memberships x).mp mem
      obtain ⟨active, visit, visited, accepted, joins, rfl⟩ := (h.memberships k x).mp there
      cases memberKey_injective client (Subject.account.inj member)
      rcases out with blocked | idle
      · exact free blocked
      · exact idle.memberships active visit visited accepted joins

/-! ## Suppression -/

section

variable (client) (observedAt)

/-- A deny suppresses: the members that a rejected group lists, and every member whose own policies
are rejected, have no access in the snapshot. -/
structure Suppresses (g : Client.Gathered) (s : Snapshot) : Prop where
  groups : ∀ row ∈ g.groupRows, ∀ key, id row = .ok key →
    (∃ e, client.groupPolicies g.zones observedAt key row = .error e) →
    ∀ visit ∈ g.state.visits, visit.key = key → ∀ m, Active g.memberRows m →
      Lists visit.rows m → NoAccess client s m
  members : ∀ row ∈ g.memberRows, ∀ m, id row = .ok m → IsMember row →
    (∃ e, client.memberPolicies g.zones observedAt m row = .error e) → NoAccess client s m

/-- Of every active member that a rejected group lists as accepted: the rows of some rejected group
agree that it is accepted, or its own policies are rejected, or it has nothing to report. -/
def Settled (g : Client.Gathered) : Prop :=
  ∀ visit ∈ g.state.visits, Rejected client g.zones observedAt visit →
    ∀ m, Active g.memberRows m → Lists visit.rows m →
      (∃ visit' ∈ g.state.visits, Rejected client g.zones observedAt visit' ∧
        Joins visit'.rows m) ∨
      (∃ v, Agree g.memberRows m v ∧ IsMember v ∧
        ∃ e, client.memberPolicies g.zones observedAt m v = .error e) ∨
      Idle client observedAt g m

end

/-- **A deny suppresses exactly when the rows of the rejected groups are settled.** -/
theorem suppresses_iff_settled (client : Client) (core : Core) (rejection : ProviderError)
    (observedAt : String) {g : Client.Gathered} {s : Snapshot}
    (gathered : client.gather observedAt = .ok g)
    (ok : client.collect core rejection observedAt = .ok s) :
    Suppresses client observedAt g s ↔ Settled client observedAt g := by
  have h := read_of_gather gathered
  have shape : s = core.sort (client.graph g.state) := by
    unfold Client.collect Client.finish at ok
    rw [gathered] at ok
    dsimp only at ok
    split at ok
    · cases ok
    · cases ok
      rfl
  subst shape
  constructor
  · intro suppresses visit mem rejected m active lists
    obtain ⟨row, there, hid⟩ := (h.visited visit mem).1
    have value : row = visit.value := (h.visited visit mem).2 row there hid
    have := suppresses.groups row there visit.key hid (by rw [value]; exact rejected) visit mem rfl m
      active lists
    rcases (noAccess_iff h core m).mp this with blocked | idle
    · rcases (h.blocked m).mp blocked with own | ⟨-, joined⟩
      · exact .inr (.inl own)
      · exact .inl joined
    · exact .inr (.inr idle)
  · intro settled
    constructor
    · intro row there key hid rejected visit mem same m active lists
      subst same
      rw [(h.visited visit mem).2 row there hid] at rejected
      apply (noAccess_iff h core m).mpr
      rcases settled visit mem rejected m active lists with joined | own | idle
      · exact .inl ((h.blocked m).mpr (.inr ⟨active, joined⟩))
      · exact .inl ((h.blocked m).mpr (.inl own))
      · exact .inr idle
    · intro row there m hid isMember rejected
      apply (noAccess_iff h core m).mpr
      by_cases known : ∃ v, Agree g.memberRows m v
      · obtain ⟨v, agree⟩ := known
        exact .inl ((h.blocked m).mpr (.inl ⟨row, agree.row there hid, isMember, rejected⟩))
      · -- rows that disagree make no member
        refine .inr ⟨fun v agree => absurd ⟨v, agree⟩ known, fun active => ?_⟩
        obtain ⟨v, agree, -⟩ := active
        exact absurd ⟨v, agree⟩ known

/-! ## Rows that disagree -/

def sampleId (c : Char) : String := .ofList (List.replicate 32 c)

/-- A policy on all resources. -/
def samplePolicy (access : String) : Value := .object [
  ("access", .string access),
  ("id", .string (sampleId 'c')),
  ("permission_groups", .array [.object [
    ("id", .string (sampleId 'd')), ("name", .string "Administrator")]]),
  ("resource_groups", .array [.object [("scope", .object [
    ("key", .string ("com.cloudflare.api.account." ++ sampleId 'a')),
    ("objects", .array [.object [("key", .string "*")]])])]])]

/-- A response with a result. -/
def sampleResponse (result : Value) : Value :=
  .object [("result", result), ("success", .bool true)]

def sampleGroup : Value := .object [
  ("id", .string (sampleId 'e')),
  ("name", .string "Restricted"),
  ("policies", .array [samplePolicy "deny"])]

/-- An account with one member, allowed everything, and one group, denied everything, which lists
the member with these rows. -/
def sampleClient (rows : List Value) : Client where
  id := "cloudflare"
  accountId := sampleId 'a'
  origin := ⟨"https://api.cloudflare.com/client/v4/", some ("https", "api.cloudflare.com", 443), "",
    none, "/client/v4/", [], none⟩
  crate := {
    parse := fun _ => none
    join := fun base path =>
      some { base with href := s!"{base.href}{path}", path := s!"{base.path}{path}" }
    withSegments := fun _ _ => none
    extendPairs := fun url pairs => { url with pairs := url.pairs ++ pairs } }
  net := {
    server := fun request => .answered ⟨200, [], none, [[UInt8.ofNat request]], false⟩
    decode := fun bytes =>
      some (sampleResponse (match bytes with
        | [1] => .object [("id", .string (sampleId 'a')), ("name", .string "Acme")]
        | [2] => .array [.object [
          ("id", .string (sampleId 'b')), ("policies", .array [samplePolicy "allow"]),
          ("status", .string "accepted")]]
        | [4] => .array [sampleGroup]
        | [5] => .array rows
        | _ => .array [])) }
  render := fun _ => ""

def sampleRow : Value :=
  .object [("id", .string (sampleId 'b')), ("status", .string "accepted")]

/-- The same member with another field. -/
def otherRow : Value :=
  .object [("email", .string "m@example.com"), ("id", .string (sampleId 'b')),
    ("status", .string "accepted")]

/-- What is read of the group. -/
theorem sample_read (rows : List Value) {g : Client.Gathered}
    (checked : ((sampleClient rows).gather "2026-01-01T00:00:00Z").toOption.any (fun g =>
      g.state.visits.map Visit.rows == [rows]) = true)
    (gathered : (sampleClient rows).gather "2026-01-01T00:00:00Z" = .ok g) :
    g.state.visits.map Visit.rows = [rows] := by
  rw [gathered] at checked
  exact beq_iff_eq.mp checked

/-- Rows that agree: the member is suppressed. -/
theorem suppressed_agreeing : ∃ g s,
    (sampleClient [sampleRow]).gather "2026-01-01T00:00:00Z" = .ok g ∧
    (sampleClient [sampleRow]).collect Core.plain ⟨"", ""⟩ "2026-01-01T00:00:00Z" = .ok s ∧
    Suppresses (sampleClient [sampleRow]) "2026-01-01T00:00:00Z" g s := by
  have read : ((sampleClient [sampleRow]).gather "2026-01-01T00:00:00Z").toOption.any (fun g =>
      g.state.visits.map Visit.rows == [[sampleRow]]) = true := by
    decide +kernel
  have returned : ((sampleClient [sampleRow]).collect Core.plain ⟨"", ""⟩
      "2026-01-01T00:00:00Z").toOption.isSome = true := by
    decide +kernel
  cases gathered : (sampleClient [sampleRow]).gather "2026-01-01T00:00:00Z" with
  | error e =>
    rw [gathered] at read
    cases read
  | ok g =>
    cases ok : (sampleClient [sampleRow]).collect Core.plain ⟨"", ""⟩ "2026-01-01T00:00:00Z" with
    | error e =>
      rw [ok] at returned
      cases returned
    | ok s =>
      refine ⟨g, s, rfl, rfl, (suppresses_iff_settled (sampleClient [sampleRow]) Core.plain ⟨"", ""⟩
        "2026-01-01T00:00:00Z" gathered ok).mpr fun visit mem rejected m _ lists => .inl ?_⟩
      have rows : visit.rows = [sampleRow] := by
        have := List.mem_map_of_mem (f := Visit.rows) mem
        rw [sample_read _ read gathered] at this
        exact List.mem_singleton.mp this
      refine ⟨visit, mem, rejected, ?_⟩
      rw [rows] at lists ⊢
      obtain ⟨row, there, hid, accepted⟩ := lists
      cases List.mem_singleton.mp there
      exact ⟨sampleRow, ⟨⟨sampleRow, there, hid⟩, fun row' mem' _ => List.mem_singleton.mp mem'⟩,
        accepted⟩

/-- Two rows that differ in another field: the member of the denied group keeps its grant. -/
theorem differing_rows_show : ∃ g s,
    (sampleClient [sampleRow, otherRow]).gather "2026-01-01T00:00:00Z" = .ok g ∧
    (sampleClient [sampleRow, otherRow]).collect Core.plain ⟨"", ""⟩ "2026-01-01T00:00:00Z" = .ok s ∧
    ¬Suppresses (sampleClient [sampleRow, otherRow]) "2026-01-01T00:00:00Z" g s := by
  have read : ((sampleClient [sampleRow, otherRow]).gather "2026-01-01T00:00:00Z").toOption.any
      (fun g => g.groupRows == [sampleGroup] && decide (sampleId 'b' ∈ g.state.active) &&
        ((sampleClient [sampleRow, otherRow]).groupPolicies g.zones "2026-01-01T00:00:00Z"
          (sampleId 'e') sampleGroup).toOption.isNone &&
        g.state.visits.any fun visit => visit.key == sampleId 'e' &&
          visit.rows == [sampleRow, otherRow]) = true := by
    decide +kernel
  have shown : ((sampleClient [sampleRow, otherRow]).collect Core.plain ⟨"", ""⟩
      "2026-01-01T00:00:00Z").toOption.any (fun s => s.grants.any fun grant =>
        grant.subject == .account ((sampleClient []).memberKey (sampleId 'b'))) = true := by
    decide +kernel
  cases gathered : (sampleClient [sampleRow, otherRow]).gather "2026-01-01T00:00:00Z" with
  | error e =>
    rw [gathered] at read
    cases read
  | ok g =>
    cases ok : (sampleClient [sampleRow, otherRow]).collect Core.plain ⟨"", ""⟩
        "2026-01-01T00:00:00Z" with
    | error e =>
      rw [ok] at shown
      cases shown
    | ok s =>
      rw [gathered] at read
      rw [ok] at shown
      refine ⟨g, s, rfl, rfl, fun suppresses => ?_⟩
      simp only [Except.toOption, Option.any_some, Bool.and_eq_true, beq_iff_eq, decide_eq_true_eq,
        List.any_eq_true] at read shown
      obtain ⟨⟨⟨groups, active⟩, rejected⟩, visit, mem, key, rows⟩ := read
      obtain ⟨grant, there, subject⟩ := shown
      have none := suppresses.groups sampleGroup (by rw [groups]; exact List.mem_singleton.mpr rfl)
        (sampleId 'e') (by decide +kernel) ?_ visit mem key (sampleId 'b')
        (((read_of_gather gathered).active _).mp active)
        ⟨sampleRow, by rw [rows]; exact List.mem_cons_self .., by decide +kernel, rfl⟩
      · exact none.grants grant there subject
      · cases hg : (sampleClient [sampleRow, otherRow]).groupPolicies g.zones "2026-01-01T00:00:00Z"
            (sampleId 'e') sampleGroup with
        | error e => exact ⟨e, rfl⟩
        | ok grants =>
          rw [hg] at rejected
          cases rejected

end Permesh.Cloudflare

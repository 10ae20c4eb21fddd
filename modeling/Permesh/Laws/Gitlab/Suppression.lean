import Permesh.Laws.Gitlab.Standing
import Permesh.Lib.Journal
import Permesh.Lib.Separators

/-!
# Laws.Gitlab.Suppression — when contradictory member rows are suppressed

Contradictory or malformed rows ought to suppress their account in every order of the rows. They do
so exactly when they cannot hide (`Consistent`): a row that is read as an account and rejected
afterwards is forgotten, a row that does not read as an account was never known, and of two
accepted rows for one grant the later one wins.

The memberships and grants of a collection are journals: what was entered last under a key, unless the
subject is blocked by now. One more call extends them, whether it records something or not. The exact
condition is the subject of `Laws.Gitlab.Consistent`.
-/

namespace Permesh.Gitlab

open Permesh.Json Permesh.Lib

variable {parse : String → Option Int} {inst scope time : String}
  {resources : Std.ExtTreeMap EntityKey Resource} {groups : Std.ExtTreeMap EntityKey Group}

/-! ## Keys -/

theorem key_inj {id id' : Nat} (h : key inst scope "user" id = key inst scope "user" id') :
    id = id' := by
  have h := (EntityKey.mk.inj h).2
  exact Text.toString_injective ((String.append_right_inj _).mp h)

/-- A grant identifier names its kind of list, its resource and its account. -/
theorem grantId_inj {e e' : Bool} {r r' : String} {id id' : Nat}
    (h : grantId e r (key inst scope "user" id).id = grantId e' r' (key inst scope "user" id').id) :
    e = e' ∧ r = r' ∧ id = id' := by
  have cut (e : Bool) (r : String) (id : Nat) : grantId e r (key inst scope "user" id).id =
      ((if e then "effective" else "direct") ++ ":" ++ r ++ (":" ++ scope ++ ":user")) ++
        (":" ++ toString id) := by
    have user : (":user" : String) = ":" ++ "user" := rfl
    rw [user, grantId, key]
    simp only [toString, String.append_assoc]
  rw [cut, cut] at h
  obtain ⟨front, rfl⟩ := append_colon_inj h
  have front := (String.append_left_inj _).mp front
  rw [String.append_assoc, String.append_assoc] at front
  cases e <;> cases e'
  · exact ⟨rfl, (String.append_right_inj _).mp ((String.append_right_inj _).mp front), rfl⟩
  · exact absurd (congrArg (fun s => s.toList.head?) front) (by simp)
  · exact absurd (congrArg (fun s => s.toList.head?) front) (by simp)
  · exact ⟨rfl, (String.append_right_inj _).mp ((String.append_right_inj _).mp front), rfl⟩

/-! ## What the calls issue -/

section

variable (parse inst scope time)

/-- The membership of a row that is read to the end. -/
def Call.membership? (call : Call) : Option Membership :=
  match call.candidate inst scope, call.assigned parse with
  | some a, some _ =>
    if call.group && !call.effective then
      some ((Collection.new inst scope time).membershipOf call.resource a.key call.group
        call.effective)
    else none
  | _, _ => none

/-- The grant of a row that is read to the end. -/
def Call.grant? (call : Call) : Option Grant :=
  match call.candidate inst scope, call.assigned parse with
  | some a, some b =>
    if b.level = 0 then none
    else some ((Collection.new inst scope time).grantOf call.resource a.key call.group
      call.effective b)
  | _, _ => none

end

theorem membership?_eq_some {call : Call} {m : Membership}
    (h : call.membership? parse inst scope time = some m) :
    ∃ a, Accepted parse inst scope a.key call a ∧ m.member = .account a.key ∧
      m.provenance = ⟨method true false, time⟩ := by
  unfold Call.membership? at h
  split at h
  case h_1 a b ha hb =>
    split at h
    case isTrue direct =>
      cases h
      rw [Bool.and_eq_true, Bool.not_eq_true'] at direct
      refine ⟨a, ⟨⟨ha, rfl⟩, by rw [hb]; rfl⟩, rfl, ?_⟩
      show Provenance.mk (method call.group call.effective) time = _
      rw [direct.1, direct.2]
    case isFalse => cases h
  case h_2 => cases h

theorem grant?_eq_some {call : Call} {g : Grant}
    (h : call.grant? parse inst scope time = some g) :
    ∃ a b, Accepted parse inst scope a.key call a ∧ call.assigned parse = some b ∧ b.level ≠ 0 ∧
      g = (Collection.new inst scope time).grantOf call.resource a.key call.group call.effective
        b := by
  unfold Call.grant? at h
  split at h
  case h_1 a b ha hb =>
    split at h
    case isTrue => cases h
    case isFalse level =>
      cases h
      exact ⟨a, b, ⟨⟨ha, rfl⟩, by rw [hb]; rfl⟩, hb, level, rfl⟩
  case h_2 => cases h

/-- The key of a candidate is that of a user. -/
theorem candidate_key {call : Call} {a : Account} (h : call.candidate inst scope = some a) :
    ∃ id, nativeId call.row = .ok id ∧ a.key = key inst scope "user" id := by
  rw [Call.candidate, account] at h
  cases hid : nativeId call.row with
  | error e => rw [hid] at h; cases h
  | ok id =>
    rw [hid] at h
    refine ⟨id, rfl, ?_⟩
    cases hl : text call.row "username" with
    | error e => rw [hl] at h; cases h
    | ok login =>
      cases hs : optional call.row "state" Value.asStr with
      | error e => rw [hl, hs] at h; cases h
      | ok state =>
        cases hb : optional call.row "bot" Value.asBool with
        | error e => rw [hl, hs, hb] at h; cases h
        | ok bot =>
          rw [hl, hs, hb] at h
          cases h
          rfl

/-- Grants with one identifier have one subject. -/
theorem grant?_subject {call call' : Call} {g g' : Grant}
    (h : call.grant? parse inst scope time = some g)
    (h' : call'.grant? parse inst scope time = some g') (same : g.id = g'.id) :
    g.subject = g'.subject := by
  obtain ⟨a, b, accepted, -, -, rfl⟩ := grant?_eq_some h
  obtain ⟨a', b', accepted', -, -, rfl⟩ := grant?_eq_some h'
  obtain ⟨id, -, hk⟩ := candidate_key accepted.candidate
  obtain ⟨id', -, hk'⟩ := candidate_key accepted'.candidate
  simp only [Collection.grantOf, hk, hk'] at same ⊢
  rw [(grantId_inj same).2.2]

/-! ## The collection after a run -/

def membershipKey (m : Membership) : MembershipKey := (m.member, m.group)

/-- What is known of a collection fed with the calls. -/
structure Tracks (parse : String → Option Int) (inst scope time : String) (calls : List Call)
    (c : Collection) : Prop where
  provider : c.snapshot.provider = inst
  scope_eq : c.scope = scope
  time_eq : c.time = time
  accounts : ∀ k, AccountAt (standing parse inst scope k calls) k c
  memberships : Journal membershipKey (fun m => c.kept m.member)
    (calls.filterMap (Call.membership? parse inst scope time)) c.memberships
  grants : Journal Grant.id (fun g => c.kept g.subject)
    (calls.filterMap (Call.grant? parse inst scope time)) c.grants

/-- A subject that a later collection keeps was kept before. -/
theorem kept_of_subset {c c' : Collection} (h : ∀ k, k ∈ c.blocked → k ∈ c'.blocked)
    (subject : Subject) (kept : c'.kept subject = true) : c.kept subject = true := by
  cases subject with
  | group k => rfl
  | account k =>
    simp only [Collection.kept, decide_eq_true_eq] at kept ⊢
    exact fun hb => kept (h k hb)

/-- The two journals of a collection. -/
structure Journals (parse : String → Option Int) (inst scope time : String) (calls : List Call)
    (c : Collection) : Prop where
  memberships : Journal membershipKey (fun m => c.kept m.member)
    (calls.filterMap (Call.membership? parse inst scope time)) c.memberships
  grants : Journal Grant.id (fun g => c.kept g.subject)
    (calls.filterMap (Call.grant? parse inst scope time)) c.grants

/-- A call that records nothing keeps the journals, if its account is blocked then or the row is
not read to the end. -/
theorem Tracks.quiet {calls : List Call} {c c' : Collection} {call : Call}
    (h : Tracks parse inst scope time calls c) (hm : c'.memberships = c.memberships)
    (hg : c'.grants = c.grants) (hb : ∀ k, k ∈ c.blocked → k ∈ c'.blocked)
    (silent : ∀ a, Accepted parse inst scope a.key call a → a.key ∈ c'.blocked) :
    Journals parse inst scope time (calls ++ [call]) c' := by
  have memberships := h.memberships.narrow (fun m => c'.kept m.member)
    fun m => kept_of_subset hb m.member
  have grants := h.grants.narrow (fun g => c'.kept g.subject)
    fun g => kept_of_subset hb g.subject
  have out {a : Account} (accepted : Accepted parse inst scope a.key call a) :
      c'.kept (.account a.key) = false := by
    simpa [Collection.kept] using silent a accepted
  constructor
  · rw [hm, List.filterMap_append]
    cases hc : call.membership? parse inst scope time with
    | none => simpa [hc] using memberships
    | some m =>
      obtain ⟨a, accepted, hs, -⟩ := membership?_eq_some hc
      rw [filterMap_singleton, hc]
      apply memberships.drop (by rw [hs]; exact out accepted)
      intro u _ same
      rw [(Prod.mk.inj same).1, hs]
      exact out accepted
  · rw [hg, List.filterMap_append]
    cases hc : call.grant? parse inst scope time with
    | none => simpa [hc] using grants
    | some g =>
      obtain ⟨a, b, accepted, -, -, rfl⟩ := grant?_eq_some hc
      rw [filterMap_singleton, hc]
      apply grants.drop (out accepted)
      intro u hu same
      obtain ⟨call', -, hc'⟩ := List.mem_filterMap.mp hu
      rw [grant?_subject hc' hc same]
      exact out accepted

/-- What is recorded blocks nobody. -/
theorem kept_record (c : Collection) (resource : EntityKey) (group effective : Bool) (a : Account)
    (b : Assignment) : (c.record resource group effective a b).kept = c.kept := by
  obtain ⟨-, blocked, -⟩ := record_accounts c resource group effective a b
  funext subject
  cases subject with
  | group k => rfl
  | account k => simp only [Collection.kept, blocked]

/-- A call that is read to the end and records its claims. -/
theorem Tracks.recorded {calls : List Call} {c : Collection} {call : Call}
    (h : Tracks parse c.snapshot.provider c.scope c.time calls c) {a : Account} {b : Assignment}
    (read : call.candidate c.snapshot.provider c.scope = some a)
    (assigned : call.assigned parse = some b) :
    Journals parse c.snapshot.provider c.scope c.time (calls ++ [call])
      (c.record call.resource call.group call.effective a b) := by
  constructor
  · have issued : call.membership? parse c.snapshot.provider c.scope c.time =
        if call.group && !call.effective then
          some (c.membershipOf call.resource a.key call.group call.effective)
        else none := by
      simp only [Call.membership?, read, assigned]
      rfl
    rw [List.filterMap_append, filterMap_singleton, issued, record_memberships, kept_record]
    split
    · exact h.memberships.insert (c.membershipOf call.resource a.key call.group call.effective)
    · rw [Option.toList_none, List.append_nil]
      exact h.memberships
  · have issued : call.grant? parse c.snapshot.provider c.scope c.time =
        if b.level = 0 then none
        else some (c.grantOf call.resource a.key call.group call.effective b) := by
      simp only [Call.grant?, read, assigned]
      rfl
    rw [List.filterMap_append, filterMap_singleton, issued, record_grants, kept_record]
    split
    · rw [Option.toList_none, List.append_nil]
      exact h.grants
    · exact h.grants.insert (c.grantOf call.resource a.key call.group call.effective b)

/-- The journals behind one more call. -/
theorem Tracks.journals {calls : List Call} {c : Collection}
    (h : Tracks parse c.snapshot.provider c.scope c.time calls c) (call : Call) :
    Journals parse c.snapshot.provider c.scope c.time (calls ++ [call]) (call.feed parse c) := by
  unfold Call.feed Collection.member
  split
  case h_1 hc =>
    refine h.quiet rfl rfl (fun _ h => h) fun a accepted => ?_
    have candidate := accepted.candidate
    rw [Call.candidate, hc] at candidate
    cases candidate
  case h_2 a hc =>
    have read : call.candidate c.snapshot.provider c.scope = some a := by
      rw [Call.candidate, hc]
      rfl
    have only {a' : Account} {k : EntityKey}
        (accepted : Accepted parse c.snapshot.provider c.scope k call a') : a' = a :=
      Option.some.inj (accepted.candidate.symm.trans read)
    split
    case isTrue hb =>
      exact h.quiet rfl rfl (fun _ h => h) fun a' accepted => by rwa [only accepted]
    split
    case isTrue hx =>
      refine h.quiet rfl rfl (fun k hk => mem_insert_key.mpr (.inr hk)) fun a' accepted => ?_
      rw [only accepted]
      exact mem_insert_key.mpr (.inl rfl)
    split
    case h_1 e he =>
      refine h.quiet rfl rfl (fun _ h => h) fun a' accepted => ?_
      have assigned := accepted.assigned
      rw [Call.assigned, he] at assigned
      cases assigned
    case h_2 b hb =>
      apply h.recorded read
      rw [Call.assigned, hb]
      rfl

/-- **One more call.** -/
theorem Tracks.feed {calls : List Call} {c : Collection}
    (h : Tracks parse inst scope time calls c) (call : Call) :
    Tracks parse inst scope time (calls ++ [call]) (call.feed parse c) := by
  obtain ⟨hsnap, hscope, htime⟩ := feed_fixed parse c call
  have accounts (k : EntityKey) :
      AccountAt (standing parse inst scope k (calls ++ [call])) k (call.feed parse c) := by
    rw [standing, List.foldl_append]
    exact (h.accounts k).feed h.provider h.scope_eq call
  have journals : Journals parse inst scope time (calls ++ [call]) (call.feed parse c) := by
    have hp := h.provider
    have hs := h.scope_eq
    have ht := h.time_eq
    subst hp hs ht
    exact h.journals call
  exact ⟨by rw [hsnap, h.provider], hscope.trans h.scope_eq, htime.trans h.time_eq, accounts,
    journals.memberships, journals.grants⟩

variable (parse inst scope time resources groups) in
/-- **The collection after any run.** -/
theorem tracks (calls : List Call) :
    Tracks parse inst scope time calls
      (feedAll parse (start inst scope time resources groups) calls) := by
  induction calls using List.reverseRecOn with
  | nil =>
    refine ⟨rfl, rfl, rfl, fun k => ⟨?_, ?_⟩, Journal.empty, Journal.empty⟩
    · simp [standing, feedAll, start, Collection.new]
    · simp [standing, feedAll, start, Collection.new, Standing.account]
  | append_singleton calls call ih =>
    rw [feedAll, List.foldl_append]
    exact ih.feed call

end Permesh.Gitlab

import Permesh.Gitlab.Records
import Mathlib.Data.List.Induction

/-!
# Laws.Gitlab.Standing — what the collection knows of an account

A member row is read in two stages, as an account and then as an assignment, and only a row that
passes both is recorded. So what the collection knows of an account (`Standing`) depends on the
order of the rows: a row that fails at the second stage is compared with the rows accepted before
it, and leaves nothing for the rows behind it.

The standing of an account is a fold over the calls, and the collection is shown to hold what it says.
What it means is an induction on the calls, with one lemma for each way a row may go.
-/

namespace Permesh.Gitlab

open Permesh.Json Permesh.Lib

/-! ## Calls -/

/-- A call of `member`, on some day. -/
structure Call where
  resource : EntityKey
  group : Bool
  effective : Bool
  row : Value
  today : Int

variable (parse : String → Option Int) (inst scope time : String)

/-- The account that a row reads as. -/
def Call.candidate (call : Call) : Option Account := (account inst scope call.row).toOption

/-- The assignment that a row reads as. -/
def Call.assigned (call : Call) : Option Assignment :=
  (assignment ⟨parse, call.today⟩ call.row).toOption

def Call.feed (c : Collection) (call : Call) : Collection :=
  (c.member ⟨parse, call.today⟩ call.resource call.group call.effective call.row).2

def feedAll (c : Collection) (calls : List Call) : Collection := calls.foldl (Call.feed parse) c

variable {parse inst scope time}

/-- A candidate is a bot or of no known kind, and nothing else is known of it. -/
theorem candidate_shape {call : Call} {a : Account} (h : call.candidate inst scope = some a) :
    (a.kind = .bot ∨ a.kind = .unknown) ∧ a.affiliation = .unknown ∧ a.verifiedEmails = [] := by
  rw [Call.candidate, account] at h
  cases hid : nativeId call.row with
  | error e => rw [hid] at h; cases h
  | ok id =>
    cases hl : text call.row "username" with
    | error e => rw [hid, hl] at h; cases h
    | ok login =>
      cases hs : optional call.row "state" Value.asStr with
      | error e => rw [hid, hl, hs] at h; cases h
      | ok state =>
        cases hb : optional call.row "bot" Value.asBool with
        | error e => rw [hid, hl, hs, hb] at h; cases h
        | ok bot =>
          rw [hid, hl, hs, hb] at h
          cases h
          refine ⟨?_, rfl, rfl⟩
          by_cases hbot : bot = some true
          · exact .inl (if_pos hbot)
          · exact .inr (if_neg hbot)

/-- What `record` does to the accounts, and what it leaves alone. -/
theorem record_accounts (c : Collection) (resource : EntityKey) (group effective : Bool)
    (candidate : Account) (a : Assignment) :
    (c.record resource group effective candidate a).accounts =
        c.accounts.insert candidate.key (c.settle candidate) ∧
      (c.record resource group effective candidate a).blocked = c.blocked ∧
      (c.record resource group effective candidate a).snapshot = c.snapshot ∧
      (c.record resource group effective candidate a).scope = c.scope ∧
      (c.record resource group effective candidate a).time = c.time := by
  unfold Collection.record
  cases group && !effective <;> by_cases h : a.level = 0 <;> simp [h]

/-- Only the direct list of a group makes memberships. -/
theorem record_memberships (c : Collection) (resource : EntityKey) (group effective : Bool)
    (candidate : Account) (a : Assignment) :
    (c.record resource group effective candidate a).memberships =
      if group && !effective then c.memberships.insert (.account candidate.key, resource)
        (c.membershipOf resource candidate.key group effective)
      else c.memberships := by
  unfold Collection.record
  cases group && !effective <;> by_cases h : a.level = 0 <;> simp [h, Collection.membershipOf]

/-- A row without an access level makes no grant. -/
theorem record_grants (c : Collection) (resource : EntityKey) (group effective : Bool)
    (candidate : Account) (a : Assignment) :
    (c.record resource group effective candidate a).grants =
      if a.level = 0 then c.grants
      else c.grants.insert (grantId effective resource.id candidate.key.id)
        (c.grantOf resource candidate.key group effective a) := by
  unfold Collection.record
  cases group && !effective <;> by_cases h : a.level = 0 <;>
    simp [h, Collection.grantOf, Collection.membershipOf]

theorem record_scopes (c : Collection) (resource : EntityKey) (group effective : Bool)
    (candidate : Account) (a : Assignment) :
    (c.record resource group effective candidate a).resources = c.resources ∧
      (c.record resource group effective candidate a).groups = c.groups := by
  unfold Collection.record
  cases group && !effective <;> by_cases h : a.level = 0 <;> simp [h]

/-! ## Standing -/

/-- What is known of an account: nothing, or login, status and whether some row calls it a bot, or
that its rows contradict each other. -/
inductive Standing where
  | unseen
  | present (login : String) (status : IdentityStatus) (bot : Bool)
  | blocked
  deriving DecidableEq

/-- One more row, that is accepted or not. -/
def Standing.next : Standing → Account → (accepted : Bool) → Standing
  | .unseen, a, true => .present a.login a.status (a.kind = .bot)
  | .unseen, _, false => .unseen
  | .present login status bot, a, accepted =>
    if login = a.login ∧ status = a.status then
      .present login status (bot || (accepted && a.kind = .bot))
    else .blocked
  | .blocked, _, _ => .blocked

def Standing.account (k : EntityKey) : Standing → Option Account
  | .present login status bot =>
    some ⟨k, login, if bot then .bot else .unknown, .unknown, status, []⟩
  | _ => none

section

variable (parse inst scope)

/-- The standing after one more call. -/
def standingStep (k : EntityKey) (s : Standing) (call : Call) : Standing :=
  match call.candidate inst scope with
  | some a => if a.key = k then s.next a (call.assigned parse).isSome else s
  | none => s

def standing (k : EntityKey) (calls : List Call) : Standing :=
  calls.foldl (standingStep parse inst scope k) .unseen

end

/-- What the collection holds of one account. -/
structure AccountAt (s : Standing) (k : EntityKey) (c : Collection) : Prop where
  blocked : k ∈ c.blocked ↔ s = .blocked
  account : c.accounts[k]? = s.account k

/-- The collection's own check, against the standing. -/
theorem AccountAt.contradicts {s : Standing} {c : Collection} {call : Call} {a : Account}
    (h : AccountAt s a.key c) (hs : s ≠ .blocked) (ha : call.candidate inst scope = some a)
    (accepted : Bool) : c.contradicts a = true ↔ s.next a accepted = .blocked := by
  rw [Collection.contradicts, h.account]
  cases s with
  | unseen => cases accepted <;> simp [Standing.account, Standing.next]
  | blocked => exact absurd rfl hs
  | present login status bot =>
    have kinds : (((if bot then IdentityKind.bot else .unknown) != .unknown) &&
        (a.kind != .unknown) && ((if bot then IdentityKind.bot else .unknown) != a.kind)) =
          false := by
      rcases (candidate_shape ha).1 with kind | kind <;> rw [kind] <;> cases bot <;> decide
    simp only [Standing.account, Option.any_some, kinds, Bool.or_false, Standing.next]
    by_cases same : login = a.login ∧ status = a.status
    · simp [same]
    · simpa [if_neg same, ← not_and_or] using same

/-- A row that is not accepted and contradicts nothing leaves the standing as it is. -/
theorem Standing.next_false {s : Standing} {a : Account} (h : s.next a false ≠ .blocked) :
    s.next a false = s := by
  cases s with
  | unseen => rfl
  | blocked => rfl
  | present login status bot =>
    rw [Standing.next] at h ⊢
    split
    · rw [Bool.false_and, Bool.or_false]
    case isFalse differs => exact absurd (if_neg differs) h

/-- An accepted row settles the account as its standing has it. -/
theorem AccountAt.settle {s : Standing} {c : Collection} {call : Call} {a : Account}
    (h : AccountAt s a.key c) (ha : call.candidate inst scope = some a)
    (clear : s.next a true ≠ .blocked) : some (c.settle a) = (s.next a true).account a.key := by
  obtain ⟨kind, affiliation, emails⟩ := candidate_shape ha
  obtain ⟨key, login, akind, aff, status, verified⟩ := a
  subst affiliation emails
  rw [Collection.settle, h.account]
  cases s with
  | unseen => rcases kind with rfl | rfl <;> rfl
  | blocked => exact absurd rfl clear
  | present login' status' bot =>
    rw [Standing.next] at clear ⊢
    by_cases same : login' = login ∧ status' = status
    · rw [if_pos same]
      rcases kind with rfl | rfl <;> cases bot <;> rfl
    · exact absurd (if_neg same) clear

/-- A row moves the standing of its account, and the collection with it. -/
theorem AccountAt.feed {s : Standing} {k : EntityKey} {c : Collection} (h : AccountAt s k c)
    (hi : c.snapshot.provider = inst) (hs : c.scope = scope) (call : Call) :
    AccountAt (standingStep parse inst scope k s call) k (call.feed parse c) := by
  subst hi hs
  unfold standingStep Call.feed Collection.member
  cases hc : Gitlab.account c.snapshot.provider c.scope call.row with
  | error e =>
    rw [Call.candidate, hc]
    exact h
  | ok a =>
    have ha : call.candidate c.snapshot.provider c.scope = some a := by
      rw [Call.candidate, hc]
      rfl
    rw [ha]
    dsimp only
    by_cases hk : a.key = k
    · subst hk
      rw [if_pos rfl]
      by_cases hb : a.key ∈ c.blocked
      · have := h.blocked.mp hb
        subst this
        rw [if_pos hb]
        exact h
      rw [if_neg hb]
      have contra := h.contradicts (mt h.blocked.mpr hb) ha (call.assigned parse).isSome
      by_cases hx : c.contradicts a = true
      · rw [if_pos hx, contra.mp hx]
        exact ⟨⟨fun _ => rfl, fun _ => mem_insert_key.mpr (.inl rfl)⟩,
          by rw [getElem?_erase_key, if_pos rfl]; rfl⟩
      rw [if_neg hx]
      have clear := mt contra.mpr hx
      rw [Call.assigned] at clear ⊢
      cases hx : assignment ⟨parse, call.today⟩ call.row with
      | error e =>
        rw [hx] at clear
        show AccountAt (s.next a false) a.key c
        rw [Standing.next_false clear]
        exact h
      | ok b =>
        rw [hx] at clear
        obtain ⟨accounts, blocked, -⟩ :=
          record_accounts c call.resource call.group call.effective a b
        show AccountAt (s.next a true) a.key (c.record call.resource call.group call.effective a b)
        refine ⟨?_, ?_⟩
        · rw [blocked]
          exact ⟨fun hb' => absurd hb' hb, fun hs => absurd hs clear⟩
        · rw [accounts, getElem?_insert_key, if_pos rfl]
          exact h.settle ha clear
    · rw [if_neg hk]
      split
      · exact h
      split
      · exact ⟨by rw [mem_insert_key, or_iff_right hk]; exact h.blocked,
          by rw [getElem?_erase_key, if_neg hk]; exact h.account⟩
      split
      · exact h
      case h_2 b _ =>
        obtain ⟨accounts, blocked, -⟩ :=
          record_accounts c call.resource call.group call.effective a b
        refine ⟨by rw [blocked]; exact h.blocked, ?_⟩
        rw [accounts, getElem?_insert_key, if_neg hk]
        exact h.account

/-! ## Runs -/

/-- A collection with the resources and groups that are already loaded. -/
def start (inst scope time : String) (resources : Std.ExtTreeMap EntityKey Resource)
    (groups : Std.ExtTreeMap EntityKey Group) : Collection :=
  { Collection.new inst scope time with resources := resources, groups := groups }

variable (parse) in
/-- What no call changes. -/
theorem feed_fixed (c : Collection) (call : Call) :
    (call.feed parse c).snapshot = c.snapshot ∧ (call.feed parse c).scope = c.scope ∧
      (call.feed parse c).time = c.time := by
  unfold Call.feed Collection.member
  split
  · exact ⟨rfl, rfl, rfl⟩
  split
  · exact ⟨rfl, rfl, rfl⟩
  split
  · exact ⟨rfl, rfl, rfl⟩
  split
  · exact ⟨rfl, rfl, rfl⟩
  · exact (record_accounts ..).2.2

section

variable (parse inst scope)

/-- The row reads as an account with this key. -/
structure Formed (k : EntityKey) (call : Call) (a : Account) : Prop where
  candidate : call.candidate inst scope = some a
  keyed : a.key = k

/-- The row is read to the end. -/
structure Accepted (k : EntityKey) (call : Call) (a : Account) : Prop extends
    Formed inst scope k call a where
  assigned : (call.assigned parse).isSome = true

/-- What a standing means for the calls so far. -/
def Means (k : EntityKey) (calls : List Call) : Standing → Prop
  | .unseen => ∀ call ∈ calls, ∀ a, ¬Accepted parse inst scope k call a
  | .present login status bot =>
    (∃ call ∈ calls, ∃ a, Accepted parse inst scope k call a ∧ a.login = login ∧
      a.status = status) ∧
    (∀ call ∈ calls, ∀ a, Accepted parse inst scope k call a → a.login = login ∧
      a.status = status) ∧
    (bot = true ↔ ∃ call ∈ calls, ∃ a, Accepted parse inst scope k call a ∧ a.kind = .bot)
  | .blocked => ∃ call ∈ calls, ∃ a, Accepted parse inst scope k call a ∧
      ∃ call' ∈ calls, ∃ a', Formed inst scope k call' a' ∧
        ¬(a.login = a'.login ∧ a.status = a'.status)

end

/-- A conflict stays one. -/
theorem Means.blocked {k : EntityKey} {calls : List Call}
    (h : Means parse inst scope k calls .blocked) (call : Call) :
    Means parse inst scope k (calls ++ [call]) .blocked := by
  obtain ⟨call', hc, a, accepted, call'', hc', rest⟩ := h
  exact ⟨call', List.mem_append_left _ hc, a, accepted, call'', List.mem_append_left _ hc', rest⟩

/-- A call about something else has no say. -/
theorem Means.skip {k : EntityKey} {calls : List Call} {s : Standing} {call : Call}
    (h : Means parse inst scope k calls s) (no : ∀ a, ¬Accepted parse inst scope k call a) :
    Means parse inst scope k (calls ++ [call]) s := by
  cases s with
  | unseen => exact forall_mem_snoc h no
  | blocked => exact h.blocked call
  | present login status bot =>
    obtain ⟨seen, all, bots⟩ := h
    refine ⟨exists_mem_snoc.mpr (.inl seen), forall_mem_snoc all ?_, ?_⟩
    · intro a accepted
      exact absurd accepted (no a)
    · rw [bots, exists_mem_snoc]
      exact (or_iff_left fun ⟨a, accepted, _⟩ => no a accepted).symm

section

variable {k : EntityKey} {calls : List Call} {call : Call} {a : Account} {login : String}
  {status : IdentityStatus} {bot : Bool}

/-- A call has one candidate. -/
theorem Accepted.unique (h : Accepted parse inst scope k call a) {a' : Account}
    (h' : Accepted parse inst scope k call a') : a' = a :=
  Option.some.inj (h'.candidate.symm.trans h.candidate)

/-- The first row of an account that is accepted. -/
theorem Means.first (h : Means parse inst scope k calls .unseen)
    (accepted : Accepted parse inst scope k call a) :
    Means parse inst scope k (calls ++ [call]) (.present a.login a.status (a.kind = .bot)) := by
  refine ⟨exists_mem_snoc.mpr (.inr ⟨a, accepted, rfl, rfl⟩), ?_, ?_⟩
  · apply forall_mem_snoc
    · intro call' mem a' accepted'
      exact absurd accepted' (h call' mem a')
    · intro a' accepted'
      rw [accepted.unique accepted']
      exact ⟨rfl, rfl⟩
  · rw [decide_eq_true_eq, exists_mem_snoc]
    constructor
    · intro kind
      exact .inr ⟨a, accepted, kind⟩
    · rintro (⟨call', mem, a', accepted', -⟩ | ⟨a', accepted', kind⟩)
      · exact absurd accepted' (h call' mem a')
      · rwa [accepted.unique accepted'] at kind

/-- A further row that agrees. -/
theorem Means.agrees (h : Means parse inst scope k calls (.present login status bot))
    (accepted : Accepted parse inst scope k call a) (same : login = a.login ∧ status = a.status) :
    Means parse inst scope k (calls ++ [call])
      (.present login status (bot || decide (a.kind = .bot))) := by
  obtain ⟨seen, all, bots⟩ := h
  refine ⟨exists_mem_snoc.mpr (.inl seen), forall_mem_snoc all ?_, ?_⟩
  · intro a' accepted'
    rw [accepted.unique accepted']
    exact ⟨same.1.symm, same.2.symm⟩
  · rw [Bool.or_eq_true, bots, decide_eq_true_eq, exists_mem_snoc]
    apply or_congr_right
    constructor
    · intro kind
      exact ⟨a, accepted, kind⟩
    · rintro ⟨a', accepted', kind⟩
      rwa [accepted.unique accepted'] at kind

/-- A further row that does not, accepted or not. -/
theorem Means.contradicts (h : Means parse inst scope k calls (.present login status bot))
    (formed : Formed inst scope k call a) (differs : ¬(login = a.login ∧ status = a.status)) :
    Means parse inst scope k (calls ++ [call]) .blocked := by
  obtain ⟨⟨call', mem, a', accepted, rfl, rfl⟩, -⟩ := h
  exact ⟨call', List.mem_append_left _ mem, a', accepted, call,
    List.mem_append_right _ (List.mem_singleton_self call), a, formed, differs⟩

end

/-- One call keeps the meaning of the standing. -/
theorem Means.step {k : EntityKey} {calls : List Call} {s : Standing}
    (h : Means parse inst scope k calls s) (call : Call) :
    Means parse inst scope k (calls ++ [call]) (standingStep parse inst scope k s call) := by
  rw [standingStep]
  cases ha : call.candidate inst scope with
  | none => exact h.skip fun a accepted => by cases ha.symm.trans accepted.candidate
  | some a =>
    dsimp only
    by_cases hk : a.key = k
    · rw [if_pos hk]
      have formed : Formed inst scope k call a := ⟨ha, hk⟩
      cases hb : (call.assigned parse).isSome with
      | false =>
        by_cases clear : s.next a false = .blocked
        · rw [clear]
          cases s with
          | unseen => cases clear
          | blocked => exact h.blocked call
          | present login status bot =>
            apply h.contradicts formed
            intro same
            rw [Standing.next, if_pos same] at clear
            cases clear
        · rw [Standing.next_false clear]
          apply h.skip
          intro a accepted
          cases hb.symm.trans accepted.assigned
      | true =>
        have accepted : Accepted parse inst scope k call a := ⟨formed, hb⟩
        cases s with
        | unseen => exact h.first accepted
        | blocked => exact h.blocked call
        | present login status bot =>
          rw [Standing.next]
          by_cases same : login = a.login ∧ status = a.status
          · rw [if_pos same, Bool.true_and]
            exact h.agrees accepted same
          · rw [if_neg same]
            exact h.contradicts formed same
    · rw [if_neg hk]
      exact h.skip fun a' accepted =>
        hk (Option.some.inj (ha.symm.trans accepted.candidate) ▸ accepted.keyed)

variable (parse inst scope) in
/-- **What the standing of a run means.** -/
theorem standing_means (k : EntityKey) (calls : List Call) :
    Means parse inst scope k calls (standing parse inst scope k calls) := by
  induction calls using List.reverseRecOn with
  | nil => exact fun call hc => (by cases hc)
  | append_singleton calls call ih =>
    rw [standing, List.foldl_append]
    exact ih.step call

end Permesh.Gitlab

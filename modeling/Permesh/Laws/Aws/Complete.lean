import Permesh.Laws.Aws.Pages

/-!
# Laws.Aws.Complete — what a complete inventory means

A snapshot is complete if nothing was warned of. Then all pages were read, and every row, every group
of a user and every policy of a principal is represented in it, on whichever page what it refers to
was listed (`collect_complete`).

Every row that is dropped leaves a warning behind. The proof goes the other way round: without a
warning each loop of the inventory has taken every one of its rows, and without a warning of the page
loop the pages are a chain that ends. A complete snapshot is complete with regard to these pages. What
AWS leaves out of them is not known here, nor is what the policies say.
-/

namespace Permesh.Aws

open Permesh.Lib

variable {p : AwsProvider} {c : Collected}

/-! ## What is represented -/

/-- A grant of a policy. -/
def HasGrant (s : Snapshot) (subject : Subject) (r : Resource) : Prop :=
  ∃ g ∈ s.grants, g.subject = subject ∧ g.resource = r.key ∧ g.role = r.name

/-- The policies of a principal, of both kinds. -/
structure Carried (p : AwsProvider) (c : Collected) (s : Snapshot) (subject : Subject)
    (attached : List AttachedPolicy) (inline : List PolicyDetail) : Prop where
  attached : ∀ a ∈ attached, ∃ r ∈ s.resources, a.policyName = some r.name ∧
    (∃ v ∈ c.policies, ∃ id arn, v.policyId = some id ∧ a.policyArn = some arn ∧
      p.managed id v = some (arn, r)) ∧ HasGrant s subject r
  inline : ∀ a ∈ inline, ∃ n, a.policyName = some n ∧
    p.inlineResource (sid subject) n ∈ s.resources ∧
    HasGrant s subject (p.inlineResource (sid subject) n)

/-- Every row is represented, with everything it refers to. -/
structure Represented (p : AwsProvider) (c : Collected) (s : Snapshot) : Prop where
  policies : ∀ v ∈ c.policies, ∃ id arn r, v.policyId = some id ∧ v.arn = some arn ∧
    v.policyName = some r.name ∧ p.managed id v = some (arn, r) ∧ r ∈ s.resources
  groups : ∀ v ∈ c.groups, ∃ id name, v.groupId = some id ∧ v.groupName = some name ∧
    ⟨p.groupKey id, name⟩ ∈ s.groups ∧
    Carried p c s (.group (p.groupKey id)) (v.attachedManagedPolicies.getD [])
      (v.groupPolicyList.getD [])
  users : ∀ v ∈ c.users, ∃ id name, v.userId = some id ∧ v.userName = some name ∧
    AwsProvider.principalAccount (p.userKey id) name ∈ s.accounts ∧
    (∀ n ∈ v.groupList.getD [], ∃ g ∈ s.groups, g.name = n ∧
      ∃ m ∈ s.memberships, m.member = .account (p.userKey id) ∧ m.group = g.key) ∧
    Carried p c s (.account (p.userKey id)) (v.attachedManagedPolicies.getD [])
      (v.userPolicyList.getD [])
  roles : ∀ v ∈ c.roles, ∃ id name, v.roleId = some id ∧ v.roleName = some name ∧
    AwsProvider.principalAccount (p.roleKey id) name ∈ s.accounts ∧
    Carried p c s (.account (p.roleKey id)) (v.attachedManagedPolicies.getD [])
      (v.rolePolicyList.getD [])

/-- Of neighbours that are alike one is kept. -/
theorem exists_mem_destutter {α κ : Type} {f : α → κ} {R : α → α → Prop} [DecidableRel R]
    (apart : ∀ a b, R a b ↔ f a ≠ f b) {l : List α} {x : α} (mem : x ∈ l) :
    ∃ y ∈ l.destutter R, f y = f x := by
  have from_first (l : List α) : ∀ a x, x ∈ a :: l → ∃ y ∈ l.destutter' R a, f y = f x := by
    induction l with
    | nil =>
      intro a x mem
      rw [List.mem_singleton.mp mem]
      exact ⟨a, by simp, rfl⟩
    | cons b l ih =>
      intro a x mem
      rw [List.destutter'_cons]
      split
      case isTrue =>
        rcases List.mem_cons.mp mem with rfl | mem
        · exact ⟨x, List.mem_cons_self .., rfl⟩
        · obtain ⟨y, there, same⟩ := ih b x mem
          exact ⟨y, List.mem_cons_of_mem _ there, same⟩
      case isFalse alike =>
        rw [apart, not_not] at alike
        rcases List.mem_cons.mp mem with rfl | mem
        · exact ih x x (List.mem_cons_self ..)
        · rcases List.mem_cons.mp mem with rfl | mem
          · obtain ⟨y, there, same⟩ := ih a a (List.mem_cons_self ..)
            exact ⟨y, there, same.trans alike⟩
          · exact ih a x (List.mem_cons_of_mem _ mem)
  cases l with
  | nil => cases mem
  | cons a l => exact from_first l a x mem

section

variable {policies : Std.ExtTreeMap String Resource} {names : Std.ExtTreeMap String EntityKey}
  {xs : List Principal} {provenance : Provenance} {s : State} (core : Core)
  (inv : Inventory p policies names provenance (base p policies) xs s)

include inv

theorem Inventory.account_ordered {x : Principal} (hx : x ∈ xs) {a : Account}
    (mem : a ∈ x.accounts) : a ∈ (AwsProvider.ordered core s).accounts := by
  rw [(ordered_lists core s).1.mem_iff, inv.mem_accounts]
  exact ⟨x, hx, mem⟩

theorem Inventory.group_ordered {x : Principal} (hx : x ∈ xs) {g : Group} (mem : g ∈ x.groups) :
    g ∈ (AwsProvider.ordered core s).groups := by
  rw [(ordered_lists core s).2.1.mem_iff, inv.mem_groups]
  exact ⟨x, hx, mem⟩

theorem Inventory.managed_ordered {arn : String} {r : Resource} (there : policies[arn]? = some r) :
    r ∈ (AwsProvider.ordered core s).resources := by
  rw [(ordered_lists core s).2.2.1.mem_iff, inv.mem_resources]
  exact .inl ⟨arn, there⟩

/-- Of two memberships that are alike one is left. -/
theorem Inventory.membership_ordered {x : Principal} (hx : x ∈ xs) {n : String} (joins : n ∈ x.joins)
    {k : EntityKey} (named : names[n]? = some k) :
    ∃ m ∈ (AwsProvider.ordered core s).memberships, m.member = x.subject ∧ m.group = k := by
  have there : (⟨x.subject, k, provenance⟩ : Membership) ∈ s.snapshot.memberships :=
    inv.mem_memberships.mpr ⟨x, hx, n, joins, k, named, rfl⟩
  rw [← (report_lists s).2.2.2.1] at there
  obtain ⟨m, mem, same⟩ := exists_mem_destutter (f := fun m : Membership => (m.member, m.group))
    (R := fun b a => ¬(a.member = b.member ∧ a.group = b.group))
    (fun a b => by simp only [ne_eq, Prod.mk.injEq, eq_comm])
    ((core.memberships_perm _).mem_iff.mpr there)
  obtain ⟨member, group⟩ := Prod.mk.inj same
  exact ⟨m, mem, member, group⟩

/-- The grant of a resource has its role. -/
theorem Inventory.grant_ordered (closed : Closed p c s.snapshot) {x : Principal} (hx : x ∈ xs)
    {g : Grant} {r : Resource} (mem : g ∈ (portion p policies names provenance x).snapshot.grants)
    (target : g.resource = r.key) (there : r ∈ s.snapshot.resources) :
    HasGrant (AwsProvider.ordered core s) x.subject r := by
  obtain ⟨found, h⟩ := portion_holds p policies names provenance x
  obtain ⟨r', rfl, source⟩ := h.grants g mem
  have there' : r' ∈ s.snapshot.resources := by
    rw [inv.mem_resources]
    rcases source with ⟨-, -, arn, -, known', -⟩ | ⟨n, known', rfl⟩
    · exact .inl ⟨arn, known'⟩
    · refine .inr ⟨x, hx, ?_⟩
      rw [h.resources]
      exact List.mem_map_of_mem known'
  -- resources with one key are one resource
  have same : r' = r := List.inj_on_of_nodup_map closed.resourcesOnce there' there target
  subst same
  refine ⟨attachment provenance x.subject (r'.key, r'.name), ?_, rfl, rfl, rfl⟩
  rw [(closed.ordered core).2, (core.grants_perm _).mem_iff, inv.mem_grants]
  exact ⟨x, hx, mem⟩

/-- The policies of a principal of which nothing was warned. -/
theorem Inventory.carried (known : Known p c policies names xs) (closed : Closed p c s.snapshot)
    (none : s.warnings = ∅) {x : Principal} (hx : x ∈ xs) :
    Carried p c (AwsProvider.ordered core s) x.subject x.attached x.inline := by
  obtain ⟨found, h⟩ := portion_holds p policies names provenance x
  have clean := inv.clean none x hx
  constructor
  · intro a mem
    obtain ⟨arn, r, harn, there, named, g, mem, target⟩ := h.attached clean a mem
    obtain ⟨id, v, only, valid⟩ := known.managed there
    refine ⟨r, inv.managed_ordered core there, named, ⟨v, only.1, id, arn, only.2.1, harn, valid⟩, ?_⟩
    exact inv.grant_ordered core closed hx mem target (inv.mem_resources.mpr (.inl ⟨arn, there⟩))
  · intro a mem
    obtain ⟨n, inline, named, g, mem, target⟩ := h.inline clean a mem
    have there : p.inlineResource (sid x.subject) n ∈ s.snapshot.resources := by
      refine inv.mem_resources.mpr (.inr ⟨x, hx, ?_⟩)
      rw [h.resources]
      exact List.mem_map_of_mem inline
    exact ⟨n, named, (ordered_lists core s).2.2.1.mem_iff.mpr there,
      inv.grant_ordered core closed hx mem target there⟩

end

/-- **Without a warning every row is represented.** -/
theorem represented_of_assemble (core : Core) {observedAt : String} {s : State}
    (ok : p.assemble observedAt c = .ok s) (none : s.warnings = ∅) (small : c.total ≤ MAX_ROWS) :
    Represented p c (AwsProvider.ordered core s) := by
  obtain ⟨policies, names, xs, known, inv, whole⟩ := assembled ok
  have whole := whole none
  have carried {x : Principal} (hx : x ∈ xs) :=
    inv.carried core known (known.closed inv small) none hx
  constructor
  · intro v mem
    obtain ⟨id, arn, r, valid, there⟩ := whole.policies v mem
    obtain ⟨-, harn, hname, -⟩ := managed_ok valid.2
    exact ⟨id, arn, r, valid.1.2.1, harn, hname, valid.2, inv.managed_ordered core there⟩
  · intro v mem
    obtain ⟨id, name, valid, there⟩ := whole.groups v mem
    have hx := (known.principals _).mpr (.group valid ((known.names _ _).mp there))
    exact ⟨id, name, valid.1.2.1, (named_ok valid.2).2.1,
      inv.group_ordered core hx (List.mem_singleton_self _), carried hx⟩
  · intro v mem
    obtain ⟨id, name, only, named⟩ := whole.users v mem
    have hx := (known.principals _).mpr (.user only named)
    refine ⟨id, name, only.2.1, (named_ok named).2.1,
      inv.account_ordered core hx (List.mem_singleton_self _), fun n joins => ?_, carried hx⟩
    obtain ⟨found, h⟩ := portion_holds p policies names (inventory observedAt)
      (.account (p.userKey id) name (v.groupList.getD []) (v.attachedManagedPolicies.getD [])
        (v.userPolicyList.getD []))
    obtain ⟨k, there⟩ := h.joined (inv.clean none _ hx) n joins
    obtain ⟨gid, gv, valid, rfl, -⟩ := (known.names n k).mp there
    have hg := (known.principals _).mpr (.group valid ((known.names _ _).mp there))
    exact ⟨⟨p.groupKey gid, n⟩, inv.group_ordered core hg (List.mem_singleton_self _), rfl,
      inv.membership_ordered core hx joins there⟩
  · intro v mem
    obtain ⟨id, name, only, named⟩ := whole.roles v mem
    have hx := (known.principals _).mpr (.role only named)
    exact ⟨id, name, only.2.1, (named_ok named).2.1,
      inv.account_ordered core hx (List.mem_singleton_self _), carried hx⟩

/-! ## Runs -/

/-- A snapshot is complete only if nothing was warned of. -/
theorem warnings_of_complete {core : Core} {s : State}
    (complete : (AwsProvider.ordered core s).complete = true) : s.warnings = ∅ := by
  have reported : (AwsProvider.report s).complete = true := complete
  unfold AwsProvider.report at reported
  split at reported
  case isTrue none => exact Std.ExtTreeSet.isEmpty_iff.mp none
  case isFalse => cases reported

/-- Warnings of the collection are warnings of the snapshot. -/
theorem incomplete {core : Core} {rejection : ProviderError} {observedAt : String} {s : Snapshot}
    (warned : c.warnings ≠ ∅) (ok : p.finish core rejection observedAt c = .ok s) :
    s.complete = false := by
  unfold AwsProvider.finish at ok
  split at ok
  · cases ok
  case h_2 state assembles =>
    dsimp only at ok
    split at ok
    · cases ok
    · cases ok
      obtain ⟨_, _, _, -, -, whole⟩ := assembled assembles
      rw [← Bool.not_eq_true]
      exact fun complete => warned (whole (warnings_of_complete complete)).start

section

variable {services : Services} {core : Core} {rejection : ProviderError} {observedAt : String}

/-- A finished snapshot is complete only if every row is represented. -/
theorem represented_of_finish {s : Snapshot} (small : c.total ≤ MAX_ROWS)
    (ok : p.finish core rejection observedAt c = .ok s) (complete : s.complete = true) :
    Represented p c s := by
  unfold AwsProvider.finish at ok
  split at ok
  · cases ok
  case h_2 state assembles =>
    dsimp only at ok
    split at ok
    · cases ok
    · cases ok
      exact represented_of_assemble core assembles (warnings_of_complete complete) small

/-- All pages are read, if nothing is warned of. -/
theorem Ends.complete {all : List Output} {r : Run} (ends : Ends services all r)
    (quiet : r.collected.warnings = ∅) : ∃ init last, r.log = exchanges none (init ++ [last]) ∧
      Answered services r.log ∧ Chain services init ∧ init.length + 1 ≤ MAX_PAGES ∧
      last.isTruncated = false ∧ (∀ m, last.marker = some m → m = "") ∧
      r.collected = rowsOf (init ++ [last]) ∧ (rowsOf (init ++ [last])).total ≤ MAX_ROWS := by
  cases ends with
  | @last init last chain answer room small whole =>
    refine ⟨init, last, (exchanges_append ..).symm, ?_, chain, room, whole, ?_, ?_, small⟩
    · apply chain.answered.append
      rwa [length_exchanges]
    · intro m marker
      by_contra filled
      rw [marker, Option.any_some, if_pos (bne_iff_ne.mpr filled)] at quiet
      exact insert_ne_empty quiet
    · dsimp only at quiet ⊢
      split at quiet
      · exact absurd quiet insert_ne_empty
      case isFalse empty => exact if_neg empty
  | failed => exact absurd quiet insert_ne_empty
  | stuck => exact absurd quiet insert_ne_empty
  | full _ length =>
    rw [reached, if_pos length] at quiet
    exact absurd quiet insert_ne_empty

/-- A request for the first page that fails. -/
theorem collect_first_failed {code : Option String}
    (failed : services.iam 0 (request none 100) = .error code) :
    ∃ e, p.collect services core rejection observedAt = .error e ∧
      (p.caller services = .ok () → e = error (serviceCode code)) := by
  cases caller : p.caller services with
  | error e =>
    refine ⟨e, ?_, nofun⟩
    unfold AwsProvider.collect AwsProvider.gather
    rw [caller]
    rfl
  | ok =>
    have first := pages_step services (MAX_PAGES - 1) []
    rw [show ([] : List Output).length = 0 from rfl, show behind none [] = none from rfl,
      failed] at first
    have gathered : p.gather services = .error (error (serviceCode code)) := by
      unfold AwsProvider.gather
      rw [caller]
      exact first
    refine ⟨error (serviceCode code), ?_, fun _ => rfl⟩
    unfold AwsProvider.collect
    rw [gathered]

/-- A request for a later page that fails. -/
theorem collect_later_failed {outputs : List Output} {code : Option String} (later : outputs ≠ [])
    (room : outputs.length < MAX_PAGES) (chain : Chain services outputs)
    (failed : services.iam outputs.length (request (behind none outputs) 100) = .error code)
    (caller : p.caller services = .ok ()) :
    p.collect services core rejection observedAt =
      p.finish core rejection observedAt ((rowsOf outputs).warn (serviceCode code)) := by
  have gathered : p.gather services = .ok { asked outputs (.error code) with
      collected := (rowsOf outputs).warn (serviceCode code) } := by
    unfold AwsProvider.gather
    rw [caller]
    change AwsProvider.pages services MAX_PAGES 0 (after []) = _
    rw [pages_chain chain (Nat.le_of_lt room), reached, if_neg (Nat.ne_of_lt room),
      show MAX_PAGES - outputs.length = MAX_PAGES - outputs.length - 1 + 1 by omega, pages_step,
      failed]
    exact if_neg (mt List.length_eq_zero_iff.mp later)
  unfold AwsProvider.collect
  rw [gathered]

end

/-- **What a complete inventory means**, and what becomes of a request that fails: on the first page it
fails the operation; later it leaves the rows of the pages before, and the snapshot is not complete. -/
theorem collect_complete (p : AwsProvider) (services : Services) (core : Core)
    (rejection : ProviderError) (observedAt : String) :
    (∀ s, p.collect services core rejection observedAt = .ok s → s.complete = true →
      ∃ r init last, p.gather services = .ok r ∧
        r.log = exchanges none (init ++ [last]) ∧ Answered services r.log ∧
        Chain services init ∧ init.length + 1 ≤ MAX_PAGES ∧
        last.isTruncated = false ∧ (∀ m, last.marker = some m → m = "") ∧
        Represented p (rowsOf (init ++ [last])) s) ∧
    (∀ code, services.iam 0 (request none 100) = .error code →
      ∃ e, p.collect services core rejection observedAt = .error e ∧
        (p.caller services = .ok () → e = error (serviceCode code))) ∧
    ∀ outputs code, outputs ≠ [] → outputs.length < MAX_PAGES → Chain services outputs →
      services.iam outputs.length (request (behind none outputs) 100) = .error code →
      p.caller services = .ok () →
      p.collect services core rejection observedAt =
          p.finish core rejection observedAt ((rowsOf outputs).warn (serviceCode code)) ∧
        ∀ s, p.collect services core rejection observedAt = .ok s → s.complete = false := by
  refine ⟨fun s ok complete => ?_, fun code failed => collect_first_failed failed,
    fun outputs code later room chain failed caller => ?_⟩
  · unfold AwsProvider.collect at ok
    split at ok
    · cases ok
    case h_2 r gathered =>
      obtain ⟨-, -, pages⟩ := bind_ok gathered
      obtain ⟨all, ends⟩ := pages_ends MAX_PAGES (chain_nil services) rfl pages
      have none : r.collected.warnings = ∅ := by
        by_contra warned
        rw [incomplete warned ok] at complete
        cases complete
      obtain ⟨init, last, log, answered, chain, room, whole, marker, rows, small⟩ :=
        ends.complete none
      rw [rows] at ok
      exact ⟨r, init, last, gathered, log, answered, chain, room, whole, marker,
        represented_of_finish small ok complete⟩
  · have same : p.collect services core rejection observedAt =
        p.finish core rejection observedAt ((rowsOf outputs).warn (serviceCode code)) :=
      collect_later_failed later room chain failed caller
    exact ⟨same, fun s ok => incomplete insert_ne_empty (same ▸ ok)⟩

/-- The user of the sample, and a marker. -/
def sampleFirst : Output :=
  { samplePage with groupDetailList := none, policies := none, isTruncated := true, marker := some "2" }

/-- The group and the policy of this user. -/
def sampleSecond : Output := { samplePage with userDetailList := none }

/-- Two pages, of which the first one refers to the second one. -/
def sampleServices : Services where
  sts := .ok ⟨some "123456789012", some "arn:aws:iam::123456789012:user/auditor"⟩
  iam index _ := .ok (if index = 0 then sampleFirst else sampleSecond)

/-- Both pages are read and represented. -/
theorem sample_complete : ∃ s, sampleProvider.collect sampleServices Core.plain ⟨"", ""⟩
      "2026-01-01T00:00:00Z" = .ok s ∧ (s.memberships.length = 1 ∧ s.grants.length = 2) ∧
    Represented sampleProvider (rowsOf [sampleFirst, sampleSecond]) s := by
  have complete : (sampleProvider.collect sampleServices Core.plain ⟨"", ""⟩
      "2026-01-01T00:00:00Z").toOption.any (fun s =>
        s.complete && s.memberships.length == 1 && s.grants.length == 2) = true := by
    decide +kernel
  have pages : ((sampleProvider.gather sampleServices).toOption.map fun r =>
      r.log.map fun e => e.2.toOption) = some [some sampleFirst, some sampleSecond] := by
    decide +kernel
  cases ok : sampleProvider.collect sampleServices Core.plain ⟨"", ""⟩ "2026-01-01T00:00:00Z" with
  | error e =>
    rw [ok] at complete
    cases complete
  | ok s =>
    rw [ok] at complete
    simp only [Except.toOption, Option.any_some, Bool.and_eq_true, beq_iff_eq] at complete
    obtain ⟨⟨complete, member⟩, grants⟩ := complete
    obtain ⟨r, init, last, gathered, log, -, -, -, -, -, represented⟩ :=
      (collect_complete sampleProvider sampleServices Core.plain _ _).1 s ok complete
    have read : init ++ [last] = [sampleFirst, sampleSecond] := by
      rw [gathered, Except.toOption, Option.map_some, log, answers_exchanges] at pages
      exact List.map_injective_iff.mpr (fun _ _ => Option.some.inj) (Option.some.inj pages)
    exact ⟨s, rfl, ⟨member, grants⟩, read ▸ represented⟩

end Permesh.Aws

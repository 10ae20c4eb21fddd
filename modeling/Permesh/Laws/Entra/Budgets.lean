import Mathlib.Algebra.GroupWithZero.Nat
import Permesh.Laws.Entra.Session

/-!
# Laws.Entra.Budgets — what a discovery may cost

Every request is counted before it is sent, and every row before it is taken. A row becomes at most two
records, so that a collection never has more entries than the runtime allows: what the provider collects
passes the checks of the operation (`entra_published`). Each part of a collection is shown to pay for
what it keeps, and the parts are put together in the order of the source.

The bytes of the frames are not counted here. The output still refuses a record of more than 1 MiB and
ends the session behind 64 MiB, however few entries there are.
-/

namespace Permesh.Entra

open Permesh.Lib Permesh.Native

variable {p : Provider} {client : Client}

/-! ## Requests -/

/-- The requests that were sent are those that were counted, up to the limit. -/
def Metered (w : Wire) : Prop := w.sent.length = min w.budget.requests MAX_REQUESTS

variable (client) in
theorem Metered.attempts {w : Wire} (h : Metered w) (url : Url) (left attempt : Nat) :
    Metered (client.attempts url left attempt w).2 ∧
      (client.attempts url left attempt w).2.budget.rows = w.budget.rows := by
  induction left generalizing attempt w with
  | zero => exact ⟨h, rfl⟩
  | succ left ih =>
    unfold Metered at h
    unfold Client.attempts
    dsimp only
    split
    case isTrue spent =>
      refine ⟨?_, rfl⟩
      unfold Metered
      dsimp only
      omega
    case isFalse within =>
      have sent : Metered ⟨{ w.budget with requests := w.budget.requests + 1 }, w.sent ++ [url]⟩ := by
        unfold Metered
        rw [List.length_append, List.length_singleton]
        dsimp only
        omega
      split
      · exact ⟨sent, rfl⟩
      · exact ⟨sent, rfl⟩
      split
      · exact ⟨sent, rfl⟩
      split
      · split
        · exact ⟨sent, rfl⟩
        · exact ih sent (attempt + 1)
      · split <;> exact ⟨sent, rfl⟩

/-! ## Rows -/

/-- A list, behind this many rows of other lists. -/
structure Counted (taken : Nat) (q : Progress) : Prop where
  metered : Metered q.wire
  rows : taken + q.rows.length ≤ min q.wire.budget.rows MAX_ROWS

theorem Counted.takeRows {taken : Nat} {q : Progress} (h : Counted taken q) (rows : List Object) :
    Counted taken (takeRows q rows).1 := by
  induction rows generalizing q with
  | nil => exact h
  | cons row rows ih =>
    have le := h.rows
    have paid : Counted taken { q with wire := { q.wire with budget :=
        { q.wire.budget with rows := q.wire.budget.rows + 1 } } } := by
      refine ⟨h.metered, ?_⟩
      dsimp only
      omega
    unfold Entra.takeRows
    dsimp only
    split
    · exact paid
    split
    · exact paid
    · refine ih ⟨h.metered, ?_⟩
      dsimp only
      rw [List.length_append, List.length_singleton]
      omega

theorem Counted.turn {taken : Nat} {q : Progress} (h : Counted taken q) (initial : Url) :
    Counted taken (client.turn initial q).1 := by
  unfold Client.turn
  split
  · exact h
  obtain ⟨metered, rows⟩ := h.metered.attempts client q.next 3 0
  have asked : Counted taken { q with
      seenUrls := q.seenUrls.insert q.next.href, wire := (client.request q.next q.wire).2 } := by
    refine ⟨metered, ?_⟩
    have same : (client.request q.next q.wire).2.budget.rows = q.wire.budget.rows := rows
    dsimp only
    rw [same]
    exact h.rows
  dsimp only
  generalize client.request q.next q.wire = answer at asked
  obtain ⟨result, wire⟩ := answer
  cases result with
  | error failure => exact asked
  | ok page =>
    dsimp only
    have received := asked.takeRows page.value
    generalize Entra.takeRows _ page.value = found at received
    obtain ⟨q', result⟩ := found
    cases result with
    | error failure => exact received
    | ok done =>
      dsimp only
      split
      · exact received
      split <;> exact ⟨received.metered, received.rows⟩

theorem Counted.pages {taken : Nat} {q : Progress} (h : Counted taken q) (initial : Url)
    (left : Nat) : Counted taken (client.pages initial left q).1 := by
  induction left generalizing q with
  | zero => exact h
  | succ left ih =>
    have turned : Counted taken (client.turn initial q).1 := h.turn initial
    unfold Client.pages
    generalize client.turn initial q = outcome at turned
    obtain ⟨q', result⟩ := outcome
    rcases result with failure | _ | _
    · exact turned
    · exact turned
    · exact ih turned

/-! ## Collections -/

/-- The rows that a collection has taken. -/
def Collection.taken (c : Collection) : Nat := (c.visits.map fun v => v.list.rows.length).sum

/-- What a collection has spent. -/
structure Spent (c : Collection) : Prop where
  metered : Metered c.wire
  rows : c.taken ≤ min c.wire.budget.rows MAX_ROWS

/-- A collection whose records are paid for by rows, with this many rows left. -/
structure Paid (p : Provider) (left : Nat) (c : Collection) : Prop where
  spent : Spent c
  provider : c.snapshot.provider = p.id
  pairs : c.snapshot.identities.length = c.snapshot.accounts.length
  records : c.snapshot.accounts.length + c.snapshot.groups.length +
    c.snapshot.memberships.length + left ≤ c.taken
  resources : c.snapshot.resources = []
  grants : c.snapshot.grants = []

theorem Paid.missed {left : Nat} {c : Collection} (h : Paid p left c) (code : String) :
    Paid p left (c.missed code) :=
  ⟨⟨h.spent.metered, h.spent.rows⟩, h.provider, h.pairs, h.records, h.resources, h.grants⟩

/-- A row may become nothing. -/
theorem Paid.skip {left : Nat} {c : Collection} (h : Paid p (left + 1) c) : Paid p left c := by
  have records := h.records
  exact ⟨h.spent, h.provider, h.pairs, by omega, h.resources, h.grants⟩

/-- A part of the collection, from one that is paid for. -/
abbrev Paying (p : Provider) {α : Type} (x : Op α) (Q : α → Nat) : Prop :=
  Ensures (Paid p 0) x.run (Post (fun a => Paid p (Q a)) Spent)

theorem proveTenant_paying : Paying p p.proveTenant fun _ => 0 := by
  intro c h
  show Post (fun _ => Paid p 0) Spent (p.proveTenant c).1 (p.proveTenant c).2
  have asked (url : Url) : Paid p 0 { c with wire := (p.client.request url c.wire).2 } := by
    obtain ⟨metered, rows⟩ := h.spent.metered.attempts p.client url 3 0
    have same : (p.client.request url c.wire).2.budget.rows = c.wire.budget.rows := rows
    refine ⟨⟨metered, ?_⟩, h.provider, h.pairs, h.records, h.resources, h.grants⟩
    change c.taken ≤ min (p.client.request url c.wire).2.budget.rows MAX_ROWS
    rw [same]
    exact h.spent.rows
  unfold Provider.proveTenant
  split
  · exact h.spent
  case h_2 url _ =>
    have asked := asked (p.client.crate.extendPairs url [("$select", "id")])
    generalize p.client.request _ c.wire = answer at asked
    obtain ⟨result, wire⟩ := answer
    cases result with
    | error failure => exact asked.spent
    | ok page =>
      dsimp only
      split
      · exact asked.spent
      · exact asked

/-- **One list**: its rows pay for what becomes of them. -/
theorem visit_paying (scope : Scope) (path : String) (select : Option String) :
    Paying p (p.visit scope path select) List.length := by
  intro c h
  show Post (fun rows : List Object => Paid p rows.length) Spent (p.visit scope path select c).1
    (p.visit scope path select c).2
  unfold Provider.visit
  split
  · exact h.spent
  case h_2 initial _ =>
    have start : Counted c.taken ⟨[], initial, ∅, ∅, c.wire⟩ := ⟨h.spent.metered, h.spent.rows⟩
    have counted : Counted c.taken (p.client.pages initial MAX_PAGES ⟨[], initial, ∅, ∅, c.wire⟩).1 :=
      start.pages initial MAX_PAGES
    have records := h.records
    have listed : Paid p (p.client.listing initial c.wire).1.rows.length { c with
        wire := (p.client.listing initial c.wire).2
        visits := c.visits ++ [⟨scope, initial, c.wire, (p.client.listing initial c.wire).1⟩] } := by
      have taken : Collection.taken { c with
          wire := (p.client.listing initial c.wire).2
          visits := c.visits ++ [⟨scope, initial, c.wire, (p.client.listing initial c.wire).1⟩] } =
            c.taken + (p.client.listing initial c.wire).1.rows.length := by
        unfold Collection.taken
        rw [List.map_append, List.sum_append, List.map_singleton, List.sum_singleton]
      refine ⟨⟨counted.metered, ?_⟩, h.provider, h.pairs, ?_, h.resources, h.grants⟩
      · rw [taken]
        exact counted.rows
      · rw [taken]
        dsimp only
        omega
    dsimp only
    split
    · exact listed.missed _
    · exact listed

/-- A list whose rows are taken one after another. -/
theorem rows_paying {step : Collection → Object → Collection} {x : Op (List Object)}
    (first : Paying p x List.length)
    (each : ∀ left c o, Paid p (left + 1) c → Paid p left (step c o)) :
    Paying p (do let rows ← x; modify fun c => rows.foldl step c) fun _ => 0 := by
  refine first.seq fun rows => Ensures.update fun c h => ?_
  induction rows generalizing c with
  | nil => exact h
  | cons o rows ih =>
    rw [List.foldl_cons]
    exact ih _ (each _ c o h)

theorem takeAccount_paid (service : Bool) (left : Nat) (c : Collection) (o : Object)
    (h : Paid p (left + 1) c) : Paid p left (p.takeAccount service c o) := by
  unfold Provider.takeAccount
  split
  · exact h.skip.missed _
  · split
    · exact h.skip.missed _
    · have records := h.records
      have pairs := h.pairs
      refine ⟨⟨h.spent.metered, h.spent.rows⟩, h.provider, ?_, ?_, h.resources, h.grants⟩
      · dsimp only
        rw [List.length_append, List.length_append, pairs]
        rfl
      · dsimp only
        rw [List.length_append, List.length_singleton]
        change _ ≤ c.taken
        omega

theorem directory_paying (service : Bool) : Paying p (p.directory service) fun _ => 0 := by
  unfold Provider.directory
  split <;> exact rows_paying (visit_paying _ _ _) (takeAccount_paid service)

theorem takeGroup_paid (left : Nat) (c : Collection) (o : Object) (h : Paid p (left + 1) c) :
    Paid p left (p.takeGroup c o) := by
  unfold Provider.takeGroup
  split
  · exact h.skip.missed _
  · have records := h.records
    refine ⟨⟨h.spent.metered, h.spent.rows⟩, h.provider, h.pairs, ?_, h.resources, h.grants⟩
    dsimp only
    rw [List.length_append, List.length_singleton]
    change _ ≤ c.taken
    omega

theorem groupDirectory_paying : Paying p p.groupDirectory fun _ => 0 :=
  rows_paying (visit_paying _ _ _) takeGroup_paid

theorem takeMember_paid (observedAt : String) (group : Group) (left : Nat) (c : Collection)
    (o : Object) (h : Paid p (left + 1) c) : Paid p left (p.takeMember observedAt group c o) := by
  unfold Provider.takeMember
  split
  · split
    · exact h.skip
    · have records := h.records
      refine ⟨⟨h.spent.metered, h.spent.rows⟩, h.provider, h.pairs, ?_, h.resources, h.grants⟩
      dsimp only
      rw [List.length_append, List.length_singleton]
      change _ ≤ c.taken
      omega
  · exact h.skip
  · exact h.skip.missed _

/-- **A collection is paid for.** -/
theorem gather_paying (observedAt : String) : Paying p (p.gather observedAt) fun _ => 0 := by
  have loop (l : List (String × Group)) : Paying p (l.forM (p.members observedAt)) fun _ => 0 := by
    induction l with
    | nil => exact fun c h => h
    | cons entry l ih =>
      rw [List.forM]
      refine Ensures.seq ?_ fun _ => ih
      exact rows_paying (visit_paying _ _ _) (takeMember_paid observedAt entry.2)
  have members : Paying p (do (← get).groups.toList.forM (p.members observedAt) : Op Unit)
      fun _ => 0 :=
    Ensures.seq (R := fun _ => Paid p 0) (fun _ h => h) fun c => loop c.groups.toList
  have rest := groupDirectory_paying (p := p) |>.seq fun _ => members
  unfold Provider.gather
  refine proveTenant_paying.seq fun _ => (directory_paying false).seq fun _ => ?_
  split
  · exact (directory_paying true).seq fun _ => rest
  · exact rest

/-! ## The operation -/

theorem paid_start : Paid p 0 (p.start .fresh) :=
  ⟨⟨rfl, Nat.le_refl 0⟩, rfl, rfl, Nat.le_refl 0, rfl, rfl⟩

/-- What a collection returns has at most two records for a row. -/
theorem collect_paid {core : Core} {observedAt : String} {snapshot : Snapshot}
    (ok : (p.collect core observedAt .fresh).1 = .ok snapshot) :
    snapshot.provider = p.id ∧ core.validate snapshot = true ∧
      snapshot.entries.length ≤ 2 * (p.gather observedAt (p.start .fresh)).2.taken := by
  have paid := gather_paying (p := p) observedAt _ paid_start
  unfold Provider.collect at ok
  change Post _ _ (p.gather observedAt (p.start .fresh)).1 (p.gather observedAt (p.start .fresh)).2
    at paid
  generalize p.gather observedAt (p.start .fresh) = result at ok paid
  obtain ⟨_ | _, c⟩ := result
  · cases ok
  · replace paid : Paid p 0 c := paid
    dsimp only at ok
    split at ok
    · cases ok
    case isFalse valid =>
      cases ok
      have records := paid.records
      have pairs := paid.pairs
      refine ⟨paid.provider, Bool.not_eq_false _ ▸ valid, ?_⟩
      rw [← Snapshot.count_entries, Snapshot.count_sort, Snapshot.count, paid.resources, paid.grants]
      simp only [List.length_nil]
      omega

variable {K : Crates} {setup : K.SetupSpec}

/-- **The cost of a discovery.** At most `MAX_REQUESTS` requests are sent, retries included, and at most
`MAX_ROWS` rows are taken, so that whatever is collected in time passes the checks of the operation and
is handed to the output. -/
theorem entra_published (p : Provider) (observedAt : String) :
    (p.gather observedAt (p.start .fresh)).2.wire.sent.length ≤ MAX_REQUESTS ∧
      (p.gather observedAt (p.start .fresh)).2.taken ≤ MAX_ROWS ∧
      ∀ snapshot, (p.collect K.core observedAt .fresh).1 = .ok snapshot →
        snapshot.entries.length ≤ 2 * (p.gather observedAt (p.start .fresh)).2.taken ∧
          ∀ world : World, world.now = some observedAt → world.inTime = true →
            provided (adapter K setup) (p.provider K.core world) false p.id =
              .ok (published (adapter K setup) (K.core.sort snapshot)) := by
  have spent : Spent (p.gather observedAt (p.start .fresh)).2 := by
    have paid := gather_paying (p := p) observedAt _ paid_start
    change Post _ _ (p.gather observedAt (p.start .fresh)).1
      (p.gather observedAt (p.start .fresh)).2 at paid
    generalize p.gather observedAt (p.start .fresh) = result at paid
    obtain ⟨_ | _, c⟩ := result
    · exact paid
    · exact Paid.spent paid
  have metered := spent.metered
  have rows := spent.rows
  unfold Metered at metered
  refine ⟨by omega, by omega, fun snapshot ok => ?_⟩
  obtain ⟨provider, valid, count⟩ := collect_paid ok
  refine ⟨count, fun world now inTime => ?_⟩
  have discovered : (p.provider K.core world).discover = .ok snapshot := by
    unfold Provider.provider
    rw [now, inTime]
    exact ok
  have few : snapshot.entries.length ≤ 100000 := by
    unfold MAX_ROWS at rows
    omega
  unfold provided
  rw [if_neg Bool.false_ne_true, discovered]
  exact if_pos ⟨provider, valid, few⟩

end Permesh.Entra

import Permesh.Laws.Gitlab.Exchanges

/-!
# Laws.Gitlab.Budgets — what one operation may cost

An operation shares one budget between all its requests and lists. Requests and rows stay within
their bounds in any case. The bound of the bodies is checked behind each body, so a check, which ends
with its first failure, exceeds it by one body at most.

A collection records a failure and goes on with the next group, project or list. It keeps to the
bound if no exchange exceeds it in front of the last request or list of its traversal, and only then
where all bodies are read whole and none is empty (`operation_budgets`).
-/

namespace Permesh.Gitlab

open Permesh.Json Permesh.Http Permesh.Lib

/-! ## Operations built from requests and lists -/

section

variable {p : Provider} (client : Client) {R : (α : Type) → Op α → Op α → Prop}

/-- **What relates the requests and the lists of two clients relates whole operations.** -/
theorem Provider.load_congr (congr : Congruence R)
    (request : ∀ path, R _ (p.request path).run ({ p with client }.request path).run)
    (kind : String) (id : Nat) :
    R _ (p.load kind id).run ({ p with client }.load kind id).run := by
  refine congr.orElse (request _) fun value => ?_
  refine congr.orElse (congr.lift _) fun resource => ?_
  exact congr.orElse (congr.lift _) fun parent => congr.pure _

theorem Provider.gather_congr (congr : Congruence R)
    (request : ∀ path, R _ (p.request path).run ({ p with client }.request path).run)
    (listing : ∀ path filters, R _ (p.listing path filters) ({ p with client }.listing path filters))
    (time : String) : R _ (p.gather time) ({ p with client }.gather time) := by
  have load := Provider.load_congr client congr request
  have loadGroup (s : Scopes) (id : Nat) :
      R _ (p.loadGroup s id) ({ p with client }.loadGroup s id) := by
    refine congr.bind (load _ _) fun r => ?_
    cases r with
    | ok _ => exact congr.pure _
    | error _ => exact congr.pure _
  have loadProject (groups found) (id : Nat) :
      R _ (p.loadProject groups found id) ({ p with client }.loadProject groups found id) := by
    refine congr.bind (load _ _) fun r => ?_
    cases r with
    | ok loaded =>
      dsimp only
      split <;> exact congr.pure _
    | error _ => exact congr.pure _
  have members (kind c scope) :
      R _ (p.members kind c scope) ({ p with client }.members kind c scope) :=
    congr.foldlM (fun c effective => congr.bind (listing _ _) fun _ =>
      congr.bind congr.get fun _ => congr.pure _) _ _
  refine congr.bind (congr.foldlM loadGroup _ _) fun s => ?_
  refine congr.bind (congr.foldlM (fun found group =>
    congr.bind (listing _ _) fun _ => congr.pure _) _ _) fun found => ?_
  dsimp only
  split
  · exact congr.pure _
  refine congr.bind (congr.foldlM (loadProject s.groups) _ _) fun projects => ?_
  split
  · exact congr.pure _
  refine congr.bind (congr.foldlM (members "groups") _ _) fun c => ?_
  exact congr.bind (congr.foldlM (members "projects") _ _) fun c => congr.pure _

theorem Provider.collect_congr (congr : Congruence R)
    (request : ∀ path, R _ (p.request path).run ({ p with client }.request path).run)
    (listing : ∀ path filters, R _ (p.listing path filters) ({ p with client }.listing path filters))
    (core : Core) (time : String) :
    R _ (p.collect core time) ({ p with client }.collect core time) := by
  refine congr.bind (gather_congr client congr request listing time) fun r => ?_
  cases r with
  | ok c => exact congr.pure _
  | error e => exact congr.pure _

theorem Provider.check_congr (congr : Congruence R)
    (request : ∀ path, R _ (p.request path).run ({ p with client }.request path).run) :
    R _ p.check.run ({ p with client } : Provider).check.run := by
  have probe (kind id) : R _ (p.probe kind id).run ({ p with client }.probe kind id).run :=
    congr.orElse (request _) fun value => congr.orElse (congr.lift _) fun _ => congr.pure _
  refine congr.orElse (request _) fun user => ?_
  refine congr.orElse (congr.lift _) fun _ => ?_
  refine congr.orElse (congr.forM (probe "group") _) fun _ => ?_
  exact congr.orElse (congr.forM (probe "project") _) fun _ => congr.pure _

end

/-! ## Whole operations -/

section

variable (p : Provider)

/-- The operations with another server. -/
def Provider.withServer (server : Nat → Exchange) : Provider :=
  { p with client := p.client.withServer server }

theorem Provider.request_sees (server : Nat → Exchange) (path : String) :
    Sees (fun m => sent m.budget) (fun i => server i = p.client.net.server i)
      (p.request path).run ((p.withServer server).request path).run := by
  intro m
  refine ⟨request_keeps (sent m.budget ≤ sent ·)
    (fun _ _ h => Nat.le_trans h (attempts_sent p.client _ _ _)) path [] (Nat.le_refl _), ?_⟩
  intro same
  have eq := Gitlab.request_sees server p.client path [] m.budget same
  show ((p.withServer server).request path : Meter → _) m = (p.request path : Meter → _) m
  unfold Provider.request
  rw [show (p.withServer server).client = p.client.withServer server from rfl, eq]

theorem Provider.listing_sees (server : Nat → Exchange) (path : String)
    (filters : List (String × String)) :
    Sees (fun m => sent m.budget) (fun i => server i = p.client.net.server i)
      (p.listing path filters) ((p.withServer server).listing path filters) := by
  intro m
  refine ⟨listing_keeps (sent_stable p.client _) path filters (Nat.le_refl _), fun same => ?_⟩
  have eq := pages_sees path filters server p.client MAX_PAGES 1 ⟨[], ∅, m.budget, []⟩ same
  unfold Provider.listing Client.listing Client.run
  rw [show (p.withServer server).client = p.client.withServer server from rfl, eq]

/-- The rows that the lists of an operation keep. -/
def Held (m : Meter) : Prop := m.listed.length ≤ min m.budget.rows MAX_ROWS

theorem Provider.collect_sees (server : Nat → Exchange) (core : Core) (time : String) :
    Sees (fun m => sent m.budget) (fun i => server i = p.client.net.server i)
      (p.collect core time) ((p.withServer server).collect core time) :=
  collect_congr _ (sees_congruence _ _) (p.request_sees server) (p.listing_sees server) core time

theorem Provider.check_sees (server : Nat → Exchange) :
    Sees (fun m => sent m.budget) (fun i => server i = p.client.net.server i)
      p.check.run (p.withServer server).check.run :=
  check_congr _ (sees_congruence _ _) (p.request_sees server)

theorem Provider.collect_books (core : Core) (time : String) :
    Keeps (fun m => Books p.client.net m.budget) (p.collect core time) :=
  collect_congr p.client (keeps_congruence _)
    (fun path _ h => request_keeps (Books _) (fun _ _ => attempts_books) path [] h)
    (fun path filters _ h => listing_keeps (books_stable p.client) path filters h) core time

theorem Provider.collect_held (core : Core) (time : String) :
    Keeps Held (p.collect core time) := by
  refine collect_congr p.client (keeps_congruence _) ?_ ?_ core time
  · intro path m h
    show m.listed.length ≤ min (p.client.request path [] m.budget).2.rows MAX_ROWS
    rw [request_rows]
    exact h
  · intro path filters m h
    show (m.listed ++ (p.client.listing path filters m.budget).1.rows).length ≤ _
    rw [List.length_append]
    exact listing_keeps (rows_stable p.client m.listed.length) path filters h

/-- The meter of an operation whose exchanges all fit so far. -/
def Running (late : Nat → Nat) (m : Meter) : Prop := Clean p.client.net late m.budget

/-- The meter of an operation that has ended. -/
def Over (late : Nat → Nat) (m : Meter) : Prop := Ended p.client.net late (sent m.budget)

variable {p} {late : Nat → Nat}

theorem Running.stopped {m : Meter} (running : Running p late m) : Over p late m :=
  Clean.ended running (Nat.le_succ _)

theorem Provider.request_clean (path : String) :
    Ensures (Running p late) (p.request path).run (Until (Running p late) (Over p late)) := by
  intro m running
  obtain ⟨ended, goes⟩ := Gitlab.request_clean path [] running
  show Until _ _ ((p.client.request path [] m.budget).1.map Prod.fst)
    { m with budget := (p.client.request path [] m.budget).2 }
  cases fetched : (p.client.request path [] m.budget).1 with
  | ok page => exact goes page fetched
  | error e => exact ended

/-- Reading a document costs nothing. -/
theorem lift_running {ε α : Type} (e : Except ε α) :
    Ensures (Running p late) (liftM e : ExceptT ε Op α).run (Until (Running p late) (Over p late)) := by
  intro m running
  cases e with
  | ok a => exact running
  | error e => exact running.stopped

/-- **A check ends with its first failure**, so all exchanges but the last one fit. -/
theorem Provider.check_clean :
    Ensures (Running p late) p.check.run (Until (Running p late) (Over p late)) := by
  have probe (kind : String) (id : Nat) :
      Ensures (Running p late) (p.probe kind id).run (Until (Running p late) (Over p late)) :=
    (request_clean _).orElse fun value => (lift_running _).orElse fun _ _ running => running
  refine (request_clean _).orElse fun user => ?_
  refine (lift_running _).orElse fun _ => ?_
  refine (Ensures.forM (probe "group") _).orElse fun _ => ?_
  exact (Ensures.forM (probe "project") _).orElse fun _ _ running => running

end

/-! ## The last request or list -/

section Last

variable (p : Provider) (time : String)

/-- The groups of a collection, with the meter behind them. -/
def Provider.grouped : Scopes × Meter := p.loadGroups time .new

/-- The projects that the groups list. -/
def Provider.projected : (Collection × Std.ExtTreeSet Nat) × Meter :=
  (p.grouped time).1.groups.keys.foldlM p.listProjects ((p.grouped time).1.collection, ∅)
    (p.grouped time).2

/-- The projects that are asked for. -/
def Provider.wanted : Std.ExtTreeSet Nat := p.projectIds.foldl (·.insert ·) (p.projected time).1.2

/-- The projects that were loaded. -/
def Provider.known : (Collection × Std.ExtTreeMap Nat EntityKey) × Meter :=
  (p.wanted time).toList.foldlM (p.loadProject (p.grouped time).1.groups)
    ((p.projected time).1.1, ∅) (p.projected time).2

def Provider.adopted : Collection :=
  (p.grouped time).1.parents.toList.foldl (adopt (p.grouped time).1.groups) (p.known time).1.1

/-- The members of the groups. -/
def Provider.covered : Collection × Meter :=
  (p.grouped time).1.groups.toList.foldlM (p.members "groups") (p.adopted time) (p.known time).2

/-- The meter in front of the effective members of the last scope. -/
def Provider.lastMembers (kind : String) (scopes : List (Nat × EntityKey)) (c : Collection)
    (m : Meter) : Option Meter :=
  scopes.getLast?.map fun scope =>
    let before := scopes.dropLast.foldlM (p.members kind) c m
    (p.memberList kind scope before.1 false before.2).2

/-- **The meter in front of the last request or list of a collection**: of the effective members of
the last project that was loaded, or else of the last group. Where nothing was loaded, it is the
request for the last project, or else for the last group, and where the projects are too many, the
projects of the last group. -/
def Provider.last : Option Meter :=
  let groups := front p.loadGroup ⟨.new p.id p.scope time, ∅, ∅⟩ p.groupIds .new
  let lists := (front p.listProjects ((p.grouped time).1.collection, ∅)
    (p.grouped time).1.groups.keys (p.grouped time).2).or groups
  let projects := (front (p.loadProject (p.grouped time).1.groups) ((p.projected time).1.1, ∅)
    (p.wanted time).toList (p.projected time).2).or lists
  if (p.wanted time).size > MAX_ROWS then lists
  else if (p.adopted time).resources.isEmpty then projects
  else
    (p.lastMembers "projects" (p.known time).1.2.toList (p.covered time).1 (p.covered time).2).or
      ((p.lastMembers "groups" (p.grouped time).1.groups.toList (p.adopted time)
        (p.known time).2).or projects)

/-- **The bound is not exceeded before the last request or list**: each exchange in front of it fits.
The last exchange that an operation may have does not matter, since no request follows it. -/
def Provider.ExceedsLast (late : Nat → Nat) : Prop :=
  ∀ m, p.last time = some m → ∀ i, 0 < i → i ≤ sent m.budget → i < MAX_REQUESTS →
    Fits p.client.net late i

variable {time}

/-- One request or one list behind a meter. -/
inductive Provider.Behind (m : Meter) : Meter → Prop where
  | request (path : String) : Provider.Behind m ((p.request path).run m).2
  | listing (path : String) (filters : List (String × String)) :
      Provider.Behind m (p.listing path filters m).2

/-- The last request or list led to this meter, or there was none. -/
inductive Provider.Ahead : Option Meter → Meter → Prop where
  | start : Provider.Ahead none .new
  | behind {m m' : Meter} (books : Books p.client.net m.budget) (step : p.Behind m m') :
      Provider.Ahead (some m) m'

variable {p} {m m' : Meter}

theorem Provider.Behind.books (h : p.Behind m m') (books : Books p.client.net m.budget) :
    Books p.client.net m'.budget := by
  cases h with
  | request path => exact request_keeps (Books _) (fun _ _ => attempts_books) path [] books
  | listing path filters => exact listing_keeps (books_stable p.client) path filters books

/-- A request or a list ends with the first exchange that does not fit. -/
theorem Provider.Behind.ended {late : Nat → Nat} (h : p.Behind m m') (running : Running p late m) :
    Ended p.client.net late (sent m'.budget) := by
  cases h with
  | request path => exact (Gitlab.request_clean path [] running).1
  | listing path filters => exact listing_clean path filters running

theorem Provider.Behind.sends (h : p.Behind m m')
    (joins : ∀ path query, ∃ url, p.client.url path query = .ok url)
    (room : m.budget.requests < MAX_REQUESTS) : sent m.budget < sent m'.budget := by
  cases h with
  | request path => exact request_sends joins room path []
  | listing path filters => exact listing_sends joins room path filters

theorem Provider.Behind.grows (h : p.Behind m m') : sent m.budget ≤ sent m'.budget := by
  cases h with
  | request path =>
    exact request_keeps (sent m.budget ≤ sent ·)
      (fun _ _ h => Nat.le_trans h (attempts_sent p.client _ _ _)) path [] (Nat.le_refl _)
  | listing path filters =>
    exact listing_keeps (sent_stable p.client _) path filters (Nat.le_refl _)

/-! ### The units of a collection -/

theorem Provider.load_behind (kind : String) (id : Nat) (m : Meter) :
    p.Behind m ((p.load kind id).run m).2 := by
  have same : ((p.load kind id).run m).2 = ((p.request s!"{kind}s/{id}").run m).2 := by
    unfold Provider.load
    rw [ExceptT.run_bind, run_bind]
    cases ((p.request s!"{kind}s/{id}").run m).1 with
    | error e => rfl
    | ok value =>
      dsimp only
      cases Gitlab.resource p.id p.scope kind id value with
      | error e => rfl
      | ok resource => cases Gitlab.parent value kind <;> rfl
  exact same ▸ .request _

theorem Provider.loadGroup_behind (s : Scopes) (id : Nat) (m : Meter) :
    p.Behind m (p.loadGroup s id m).2 := by
  have same : (p.loadGroup s id m).2 = ((p.load "group" id).run m).2 := by
    unfold Provider.loadGroup
    rw [run_bind]
    cases ((p.load "group" id).run m).1 <;> rfl
  exact same ▸ p.load_behind "group" id m

theorem Provider.loadProject_behind (groups : Std.ExtTreeMap Nat EntityKey)
    (found : Collection × Std.ExtTreeMap Nat EntityKey) (id : Nat) (m : Meter) :
    p.Behind m (p.loadProject groups found id m).2 := by
  have same : (p.loadProject groups found id m).2 = ((p.load "project" id).run m).2 := by
    unfold Provider.loadProject
    rw [run_bind]
    cases ((p.load "project" id).run m).1 with
    | error e => rfl
    | ok loaded =>
      dsimp only
      split <;> rfl
  exact same ▸ p.load_behind "project" id m

theorem Provider.listProjects_behind (found : Collection × Std.ExtTreeSet Nat) (group : Nat)
    (m : Meter) : p.Behind m (p.listProjects found group m).2 := .listing _ _

theorem Provider.memberList_behind (kind : String) (scope : Nat × EntityKey) (c : Collection)
    (effective : Bool) (m : Meter) : p.Behind m (p.memberList kind scope c effective m).2 :=
  .listing _ _

/-- The direct members, and then the effective ones. -/
theorem Provider.members_run (kind : String) (scope : Nat × EntityKey) (c : Collection) (m : Meter) :
    p.members kind c scope m = p.memberList kind scope (p.memberList kind scope c false m).1 true
      (p.memberList kind scope c false m).2 := rfl

/-! ### Their traversal -/

theorem Provider.Ahead.books {last : Option Meter} (h : p.Ahead last m) :
    Books p.client.net m.budget := by
  cases h with
  | start => rfl
  | behind books step => exact step.books books

/-- A loop over units is behind its last one. -/
theorem Provider.Ahead.fold {α β : Type} {f : β → α → Op β}
    (each : ∀ b a m, p.Behind m (f b a m).2) (l : List α) (b : β) {last : Option Meter}
    (h : p.Ahead last m) : p.Ahead ((front f b l m).or last) (l.foldlM f b m).2 := by
  rcases List.eq_nil_or_concat' l with rfl | ⟨l, a, rfl⟩
  · exact h
  · rw [front_concat, Option.some_or, foldlM_concat]
    have books : Keeps (fun m => Books p.client.net m.budget) (l.foldlM f b) :=
      Keeps.foldlM (fun b a _ => (each b a _).books) l b
    exact .behind (books m h.books) (each _ a _)

/-- The members of all scopes are behind the effective members of the last one. -/
theorem Provider.Ahead.members (kind : String) (scopes : List (Nat × EntityKey)) (c : Collection)
    {last : Option Meter} (h : p.Ahead last m) : p.Ahead ((p.lastMembers kind scopes c m).or last)
      (scopes.foldlM (p.members kind) c m).2 := by
  rcases List.eq_nil_or_concat' scopes with rfl | ⟨scopes, scope, rfl⟩
  · exact h
  · rw [Provider.lastMembers, List.getLast?_concat, List.dropLast_concat, Option.map_some,
      Option.some_or, foldlM_concat, Provider.members_run]
    have direct (c : Collection) (scope : Nat × EntityKey) {m : Meter}
        (books : Books p.client.net m.budget) :
        Books p.client.net (p.memberList kind scope c false m).2.budget :=
      (p.memberList_behind kind scope c false m).books books
    have books : Keeps (fun m => Books p.client.net m.budget) (scopes.foldlM (p.members kind) c) := by
      refine Keeps.foldlM (fun c scope m books => ?_) scopes c
      rw [Provider.members_run]
      exact (p.memberList_behind kind scope _ true _).books (direct c scope books)
    exact .behind (direct _ scope (books m h.books)) (p.memberList_behind kind scope _ true _)

variable (p time)

/-- The meter behind a collection. -/
theorem Provider.gather_meter : (p.gather time .new).2 =
    if (p.wanted time).size > MAX_ROWS then (p.projected time).2
    else if (p.adopted time).resources.isEmpty then (p.known time).2
    else ((p.known time).1.2.toList.foldlM (p.members "projects") (p.covered time).1
      (p.covered time).2).2 := by
  unfold Provider.gather
  rw [run_bind, run_bind]
  dsimp only
  split
  case isTrue many =>
    rw [if_pos (show (p.wanted time).size > MAX_ROWS from many)]
    rfl
  case isFalse few =>
    rw [if_neg (show ¬(p.wanted time).size > MAX_ROWS from few), run_bind]
    split
    case isTrue none =>
      rw [if_pos (show (p.adopted time).resources.isEmpty = true from none)]
      rfl
    case isFalse some =>
      rw [if_neg (show ¬(p.adopted time).resources.isEmpty = true from some), run_bind, run_bind]
      rfl

/-- **A collection ends with its last request or list.** -/
theorem Provider.last_ahead : p.Ahead (p.last time) (p.gather time .new).2 := by
  have groups := (Ahead.start (p := p)).fold p.loadGroup_behind p.groupIds
    ⟨.new p.id p.scope time, ∅, ∅⟩
  rw [Option.or_none] at groups
  have lists := groups.fold p.listProjects_behind (p.grouped time).1.groups.keys
    ((p.grouped time).1.collection, ∅)
  have projects := lists.fold (p.loadProject_behind (p.grouped time).1.groups)
    (p.wanted time).toList ((p.projected time).1.1, ∅)
  have above := projects.members "groups" (p.grouped time).1.groups.toList (p.adopted time)
  have below := above.members "projects" (p.known time).1.2.toList (p.covered time).1
  rw [Provider.gather_meter, Provider.last]
  split
  · exact lists
  · split
    · exact projects
    · exact below

theorem Provider.collect_meter (core : Core) :
    (p.collect core time .new).2 = (p.gather time .new).2 := by
  unfold Provider.collect
  rw [run_bind]
  cases (p.gather time .new).1 <;> rfl

variable {p time} {late : Nat → Nat} {core : Core}

/-- What exceeds the bound in the last request or list ends the collection. -/
theorem Provider.ExceedsLast.ended (h : p.ExceedsLast time late) :
    Ended p.client.net late (sent (p.collect core time .new).2.budget) := by
  rw [Provider.collect_meter]
  have ahead := p.last_ahead time
  unfold Provider.ExceedsLast at h
  cases hl : p.last time with
  | none =>
    rw [hl] at ahead
    generalize (p.gather time .new).2 = final at ahead
    cases ahead
    exact fun i pos lt => absurd lt (Nat.not_lt_zero i)
  | some m =>
    rw [hl] at ahead
    generalize (p.gather time .new).2 = final at ahead
    cases ahead with
    | behind books step =>
      have fits := h m hl
      by_cases room : m.budget.requests < MAX_REQUESTS
      · refine step.ended ⟨books, fun i pos le => fits i pos le ?_⟩
        simp only [sent] at le
        omega
      · -- nothing is sent any more
        intro i pos lt
        simp only [sent] at lt
        refine fits i pos ?_ (by omega)
        simp only [sent]
        omega

/-- A collection that ends with the first exchange that does not fit meets it in the last request or
list. -/
theorem Provider.ExceedsLast.of_ended
    (joins : ∀ path query, ∃ url, p.client.url path query = .ok url)
    (ended : Ended p.client.net late (sent (p.collect core time .new).2.budget)) :
    p.ExceedsLast time late := by
  rw [Provider.collect_meter] at ended
  intro m hl i pos le below
  have ahead := p.last_ahead time
  rw [hl] at ahead
  generalize (p.gather time .new).2 = final at ahead ended
  cases ahead with
  | behind books step =>
    apply ended i pos
    by_cases room : m.budget.requests < MAX_REQUESTS
    · exact Nat.lt_of_le_of_lt le (step.sends joins room)
    · refine Nat.lt_of_lt_of_le below (Nat.le_trans ?_ step.grows)
      simp only [sent]
      omega

end Last

/-! ## What an operation downloads -/

/-- Once the bound of the bodies is exceeded, no further byte is read, so that it is exceeded by one
body at most. -/
structure Within (net : Net) (late : Nat → Nat) (n : Nat) : Prop where
  stops : ∀ k ≤ n, MAX_TOTAL_BODY < downloaded net late k →
    downloaded net late n = downloaded net late k
  bound : ∀ k ≤ n, downloaded net late k ≤ MAX_TOTAL_BODY + MAX_BODY

section

variable {net : Net} {late : Nat → Nat}

/-- Exchanges that fit are within the bound. -/
theorem Ended.downloaded_eq {n k : Nat} (ended : Ended net late n) (lt : k < n) :
    downloaded net late k = counted net k ∧ counted net k ≤ MAX_TOTAL_BODY := by
  constructor
  · apply Finset.sum_congr rfl
    intro i mem
    rw [Finset.mem_range] at mem
    exact (ended (i + 1) (Nat.succ_pos i) (by omega)).whole
  · cases k with
    | zero => exact Nat.zero_le _
    | succ k => exact (ended (k + 1) (Nat.succ_pos k) lt).counter

theorem Ended.within {n : Nat} (ended : Ended net late n)
    (small : ∀ i, bytesRead (late i) (net.server i) ≤ MAX_BODY) : Within net late n := by
  have before {k : Nat} (lt : k < n) : downloaded net late k ≤ MAX_TOTAL_BODY := by
    obtain ⟨eq, le⟩ := ended.downloaded_eq lt
    exact eq ▸ le
  constructor
  · intro k le exceeds
    rcases Nat.lt_or_ge k n with lt | ge
    · exact absurd (before lt) (Nat.not_le_of_lt exceeds)
    · rw [Nat.le_antisymm le ge]
  · intro k le
    cases k with
    | zero => exact Nat.zero_le _
    | succ k =>
      rw [downloaded, Finset.sum_range_succ]
      exact Nat.add_le_add (before le) (small _)

/-- Where all bodies are read whole and none is empty, nothing else is within the bound. -/
theorem Within.ended {n : Nat} (within : Within net late n)
    (bodies : ∀ i, 0 < i → i ≤ n → bytesRead (late i) (net.server i) = bytesCounted (net.server i) ∧
      0 < bytesCounted (net.server i)) : Ended net late n := by
  intro i pos lt
  refine ⟨(bodies i pos (by omega)).1, ?_⟩
  by_contra exceeds
  have whole : downloaded net late i = counted net i :=
    Finset.sum_congr rfl fun j mem => (bodies (j + 1) (Nat.succ_pos j) (by
      rw [Finset.mem_range] at mem
      omega)).1
  have stop := within.stops i (by omega) (by omega)
  have more : downloaded net late (i + 1) ≤ downloaded net late n :=
    Finset.sum_le_sum_of_subset fun j mem => by
      rw [Finset.mem_range] at mem ⊢
      omega
  rw [downloaded, Finset.sum_range_succ] at more
  obtain ⟨read, size⟩ := bodies (i + 1) (Nat.succ_pos i) (by omega)
  change downloaded net late i + _ ≤ _ at more
  omega

/-- What an operation ends with depends on the exchanges of its requests only. -/
def Local {α : Type} (p : Provider) (operation : Provider → Op α) : Prop :=
  ∀ server : Nat → Exchange, (∀ i, 0 < i → i ≤ sent (operation p .new).2.budget →
    server i = p.client.net.server i) → operation (p.withServer server) .new = operation p .new

end

theorem finish_count {core : Core} {c : Collection} {snapshot : Snapshot}
    (h : c.finish core = .ok snapshot) : snapshot.accounts.length + snapshot.resources.length +
      snapshot.groups.length + snapshot.memberships.length + snapshot.grants.length ≤ MAX_ROWS := by
  unfold Collection.finish at h
  dsimp only at h
  split at h
  · cases h
  · split at h
    · cases h
    case isFalse within =>
      cases h
      exact Nat.le_of_not_lt within

/-- **The budgets of an operation.** A check downloads nothing more once the bound of the bodies is
exceeded. A collection does so as well if the bound is not exceeded before its last request or list,
and only then where addresses can be built, bodies are read whole and none is empty. Requests and
rows are bounded in any case. -/
theorem operation_budgets (p : Provider) (core : Core) (time : String) (late : Nat → Nat)
    (small : ∀ i, bytesRead (late i) (p.client.net.server i) ≤ MAX_BODY) :
    Within p.client.net late (sent (p.check.run .new).2.budget) ∧
    (p.ExceedsLast time late →
      Within p.client.net late (sent (p.collect core time .new).2.budget)) ∧
    ((∀ path query, ∃ url, p.client.url path query = .ok url) →
      (∀ i, 0 < i → i ≤ sent (p.collect core time .new).2.budget →
        bytesRead (late i) (p.client.net.server i) = bytesCounted (p.client.net.server i) ∧
          0 < bytesCounted (p.client.net.server i)) →
      Within p.client.net late (sent (p.collect core time .new).2.budget) →
        p.ExceedsLast time late) ∧
    Books p.client.net (p.collect core time .new).2.budget ∧
    (sent (p.check.run .new).2.budget ≤ MAX_REQUESTS ∧ Local p fun p => p.check.run) ∧
    (sent (p.collect core time .new).2.budget ≤ MAX_REQUESTS ∧
      Local p fun p => p.collect core time) ∧
    (p.collect core time .new).2.listed.length ≤ MAX_ROWS ∧
    ∀ snapshot, (p.collect core time .new).1 = .ok snapshot →
      snapshot.accounts.length + snapshot.resources.length + snapshot.groups.length +
        snapshot.memberships.length + snapshot.grants.length ≤ MAX_ROWS := by
  have new : Running p late .new := ⟨rfl, fun i pos le => absurd le (Nat.not_le_of_lt pos)⟩
  refine ⟨?_, fun last => last.ended.within small,
    fun joins bodies within => .of_ended joins (within.ended bodies),
    p.collect_books core time .new rfl, ⟨Nat.min_le_right _ _, fun server same => ?_⟩,
    ⟨Nat.min_le_right _ _, fun server same => ?_⟩, ?_, fun snapshot ok => ?_⟩
  · have checked := Provider.check_clean .new new
    refine Ended.within ?_ small
    cases hr : (p.check.run .new).1 with
    | ok health =>
      rw [hr] at checked
      exact Running.stopped checked
    | error e =>
      rw [hr] at checked
      exact checked
  · exact (p.check_sees server .new).2 fun i lt le => same i lt le
  · exact (p.collect_sees server core time .new).2 fun i lt le => same i lt le
  · have held := p.collect_held core time .new (Nat.zero_le _)
    exact Nat.le_trans held (Nat.min_le_right _ _)
  · rw [Provider.collect_fst] at ok
    obtain ⟨c, -, finish⟩ := bind_ok ok
    exact finish_count finish

/-! ## A flood -/

/-- A server that has nothing but answers each request with a body of this size. -/
def floodClient (body : List UInt8) : Client where
  origin := ⟨"https://gitlab.example/", some ("https", "gitlab.example", 443), "", none, "/",
    [], none⟩
  token := "secret"
  crate := {
    parse := fun _ => none
    join := fun base path => some { base with path := s!"/{path}" }
    withSegments := fun _ _ => none
    extendPairs := fun url pairs => { url with pairs := url.pairs ++ pairs } }
  net := {
    server := fun _ => .answered ⟨404, [], none, [body], false⟩
    decode := fun _ => none }

def floodProvider (body : List UInt8) : Provider where
  id := "gitlab-main"
  scope := "gitlab.example"
  groupIds := List.range' 1 50
  projectIds := []
  client := floodClient body
  calendar _ := ⟨fun _ => none, 0⟩

section

variable {body : List UInt8}

theorem flood_body (full : body.length = MAX_BODY) :
    (⟨404, [], none, [body], false⟩ : Response).body MAX_BODY = .ok body := by
  rw [Response.body, if_neg (by simp), readChunks, if_neg (by rw [full]; simp)]
  rfl

theorem flood_sizes (full : body.length = MAX_BODY) (late i : Nat) :
    bytesRead late ((floodClient body).net.server i) = MAX_BODY ∧
      bytesCounted ((floodClient body).net.server i) = MAX_BODY :=
  full ▸ body_ok (flood_body full) late

/-- Each request of the flood fails with one exchange. -/
theorem flood_attempts (full : body.length = MAX_BODY) {b : Budget}
    (room : b.requests < MAX_REQUESTS) : ∃ e b',
      (floodClient body).attempts 3 0 b = (.error e, b') ∧ b'.requests = b.requests + 1 := by
  rw [Client.attempts]
  dsimp only
  rw [if_neg (Nat.not_lt_of_le room)]
  dsimp only [floodClient]
  rw [flood_body full]
  dsimp only
  split
  · exact ⟨_, _, rfl, rfl⟩
  · exact ⟨_, _, rfl, rfl⟩

/-- A group whose request fails is recorded as a failure. -/
theorem loadGroup_error (p : Provider) {m : Meter} {e : ProviderError} {b : Budget}
    (h : ∀ path, p.client.request path [] m.budget = (.error e, b)) (id : Nat) (s : Scopes) :
    p.loadGroup s id m = ({ s with collection := s.collection.fail e }, { m with budget := b }) := by
  have request (path : String) : (p.request path).run m = (.error e, { m with budget := b }) := by
    show ((p.client.request path [] m.budget).1.map Prod.fst,
      { m with budget := (p.client.request path [] m.budget).2 }) = _
    rw [h]
    rfl
  have load : (p.load "group" id).run m = (.error e, { m with budget := b }) := by
    unfold Provider.load
    rw [ExceptT.run_bind, run_bind, request]
    rfl
  unfold Provider.loadGroup
  rw [run_bind, load]
  rfl

/-- No group has been loaded, with one exchange for each. -/
structure Flooded (n : Nat) (s : Scopes) (m : Meter) : Prop where
  groups : s.groups = ∅
  parents : s.parents = ∅
  resources : s.collection.resources = ∅
  requests : m.budget.requests = n

theorem flood_groups (full : body.length = MAX_BODY) {n : Nat} (ids : List Nat) {s : Scopes}
    {m : Meter} (flooded : Flooded n s m) (room : n + ids.length ≤ MAX_REQUESTS) :
    Flooded (n + ids.length) (ids.foldlM (floodProvider body).loadGroup s m).1
      (ids.foldlM (floodProvider body).loadGroup s m).2 := by
  induction ids generalizing n s m with
  | nil => exact flooded
  | cons id ids ih =>
    rw [List.length_cons] at room ⊢
    obtain ⟨e, b, eq, requests⟩ := flood_attempts full (b := m.budget) (by
      rw [flooded.requests]
      omega)
    have step := loadGroup_error (floodProvider body) (fun _ => eq) id s
    rw [List.foldlM_cons, run_bind, step, show n + (ids.length + 1) = n + 1 + ids.length by omega]
    exact ih ⟨flooded.groups, flooded.parents, flooded.resources, by rw [requests, flooded.requests]⟩
      (by omega)

/-- The flood has an exchange for each of the 50 groups. -/
theorem flood_sent (full : body.length = MAX_BODY) (core : Core) (time : String) :
    sent ((floodProvider body).collect core time .new).2.budget = 50 := by
  have groups := flood_groups full (List.range' 1 50)
    (s := ⟨.new "gitlab-main" "gitlab.example" time, ∅, ∅⟩) (m := .new) ⟨rfl, rfl, rfl, rfl⟩ (by decide)
  change Flooded 50 ((floodProvider body).loadGroups time .new).1
    ((floodProvider body).loadGroups time .new).2 at groups
  have gather : (floodProvider body).gather time .new = (.error (error "forbidden"),
      ((floodProvider body).loadGroups time .new).2) := by
    unfold Provider.gather
    rw [run_bind]
    generalize (floodProvider body).loadGroups time .new = run at groups
    obtain ⟨⟨c, loaded, parents⟩, m⟩ := run
    obtain ⟨rfl, rfl, resources, -⟩ := groups
    change c.resources = ∅ at resources
    obtain ⟨snapshot, resources, groups, accounts, blocked, memberships, grants, time, scope⟩ := c
    subst resources
    rfl
  unfold Provider.collect
  rw [run_bind, gather]
  generalize (floodProvider body).loadGroups time .new = run at groups
  have requests : run.2.budget.requests = 50 := groups.requests
  show sent run.2.budget = 50
  rw [sent, requests]
  rfl

/-- 50 bodies of 2 MiB are read. -/
theorem flood_downloaded (full : body.length = MAX_BODY) :
    downloaded (floodProvider body).client.net (fun _ => 0) 50 = 100 * 1024 * 1024 := by
  have sizes (i : Nat) : bytesRead 0 ((floodProvider body).client.net.server i) = MAX_BODY :=
    (flood_sizes full 0 i).1
  rw [downloaded, Finset.sum_congr rfl fun i _ => sizes (i + 1), Finset.sum_const, Finset.card_range]
  rfl

end

/-- A check of the flood stays within the bound. -/
theorem flood_check_within :
    Within (floodProvider (.replicate MAX_BODY 0)).client.net (fun _ => 0)
      (sent ((floodProvider (.replicate MAX_BODY 0)).check.run .new).2.budget) := by
  have full : (List.replicate MAX_BODY (0 : UInt8)).length = MAX_BODY := List.length_replicate ..
  generalize List.replicate MAX_BODY (0 : UInt8) = body at full
  exact (operation_budgets (floodProvider body) .plain "" (fun _ => 0) fun i =>
    Nat.le_of_eq (flood_sizes full 0 i).1).1

/-- A collection does not: each group that fails is followed by the next one, and 100 MiB are read. -/
theorem flood_not_within :
    (∀ i, bytesRead 0 ((floodProvider (.replicate MAX_BODY 0)).client.net.server i) ≤ MAX_BODY) ∧
    downloaded (floodProvider (.replicate MAX_BODY 0)).client.net (fun _ => 0)
      (sent ((floodProvider (.replicate MAX_BODY 0)).collect .plain "" .new).2.budget) =
        100 * 1024 * 1024 ∧
    ¬Within (floodProvider (.replicate MAX_BODY 0)).client.net (fun _ => 0)
      (sent ((floodProvider (.replicate MAX_BODY 0)).collect .plain "" .new).2.budget) := by
  have full : (List.replicate MAX_BODY (0 : UInt8)).length = MAX_BODY := List.length_replicate ..
  generalize List.replicate MAX_BODY (0 : UInt8) = body at full
  have total := flood_downloaded full
  rw [flood_sent full .plain ""]
  refine ⟨fun i => Nat.le_of_eq (flood_sizes full 0 i).1, total, fun within => ?_⟩
  have bound := within.bound 50 (Nat.le_refl _)
  rw [total] at bound
  exact absurd bound (by decide)

end Permesh.Gitlab

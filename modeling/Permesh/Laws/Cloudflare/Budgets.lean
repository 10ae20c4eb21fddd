import Mathlib.Algebra.GroupWithZero.Nat
import Permesh.Laws.Cloudflare.Order
import Permesh.Laws.Cloudflare.Session

/-!
# Laws.Cloudflare.Budgets — what a discovery may cost

The requests of a run are counted over all of its lists, and so are its rows. Nothing that the server
would answer beyond the last request changes a run, and what a run collects never has more entries than
the runtime allows (`cloudflare_published`).

The requests are bounded by a comparison: a run against another server that answers the first requests
alike is the same run. The rows and the claims are counted along the run (`Afforded`). Nothing is said
about bytes: the output still refuses a record of more than 1 MiB, and more than 64 MiB in all.
-/

namespace Permesh.Cloudflare

open Permesh.Json Permesh.Http Permesh.Lib Permesh.Native

variable {client : Client} {observedAt : String}

/-! ## Requests -/

section Requests

variable {server : Nat → Exchange}
  (same : ∀ request ≤ MAX_REQUESTS, server request = client.net.server request)
include same

theorem attempts_facing (left attempt : Nat) (budget : Budget) :
    (client.facing server).attempts left attempt budget = client.attempts left attempt budget := by
  induction left generalizing attempt budget with
  | zero => rfl
  | succ left ih =>
    unfold Client.attempts
    dsimp only
    split
    · rfl
    case isFalse within =>
      have here : (client.facing server).net.server (budget.requests + 1) =
          client.net.server (budget.requests + 1) := same _ (Nat.le_of_not_lt within)
      rw [here]
      simp only [ih]
      rfl

theorem request_facing : (client.facing server).request = client.request := by
  funext path query budget
  have url : (client.facing server).url path query = client.url path query := rfl
  unfold Client.request
  rw [url]
  split
  · rfl
  · exact attempts_facing same _ _ _

theorem pages_facing (path : String) (filters : List (String × String)) (left page : Nat)
    (p : Progress) :
    (client.facing server).pages path filters left page p = client.pages path filters left page p := by
  induction left generalizing page p with
  | zero => rfl
  | succ left ih =>
    unfold Client.pages
    rw [request_facing same]
    simp only [ih]
    rfl

theorem listing_facing : (client.facing server).listing = client.listing := by
  funext path filters budget
  unfold Client.listing
  rw [pages_facing same]

theorem group_facing (zones : Std.ExtTreeSet String) (s : State) (entry : String × Value) :
    (client.facing server).group zones observedAt s entry =
      client.group zones observedAt s entry := by
  unfold Client.group Client.visit
  rw [listing_facing same]
  rfl

/-- **A run is the same in front of another server** that answers its requests alike. -/
theorem gather_facing : (client.facing server).gather observedAt = client.gather observedAt := by
  have groups (zones : Std.ExtTreeSet String) :
      (client.facing server).group zones observedAt = client.group zones observedAt := by
    funext s entry
    exact group_facing same zones s entry
  unfold Client.gather
  rw [request_facing same, listing_facing same]
  simp only [groups]
  rfl

end Requests

/-! ## Rows -/

/-- A list, behind this many rows of other lists. -/
def Counted (taken : Nat) (p : Progress) : Prop :=
  taken + p.rows.length ≤ min p.budget.rows MAX_ROWS

variable (client) in
theorem attempts_rows (left attempt : Nat) (budget : Budget) :
    (client.attempts left attempt budget).2.rows = budget.rows := by
  induction left generalizing attempt budget with
  | zero => rfl
  | succ left ih =>
    unfold Client.attempts
    dsimp only
    split
    · rfl
    split
    · rfl
    · rfl
    split
    · rfl
    split
    · split
      · rfl
      · exact ih _ _
    split
    · rfl
    split
    · rfl
    · split <;> rfl

variable (client) in
theorem request_rows (path : String) (query : List (String × String)) (budget : Budget) :
    (client.request path query budget).2.rows = budget.rows := by
  unfold Client.request
  split
  · rfl
  · exact attempts_rows client _ _ _

theorem Counted.receive {taken : Nat} {p : Progress} (h : Counted taken p) (page : Nat)
    (response : Value) : Counted taken (client.receive page p response).1 := by
  unfold Counted at *
  unfold Client.receive
  split
  · exact h
  split
  · exact h
  split
  · exact h
  dsimp only
  split
  · dsimp only
    omega
  case isFalse within =>
    split
    · dsimp only
      omega
    split
    · dsimp only
      omega
    · dsimp only
      rw [List.length_append]
      omega

theorem Counted.pages {taken : Nat} {p : Progress} (h : Counted taken p) (path : String)
    (filters : List (String × String)) (left page : Nat) :
    Counted taken (client.pages path filters left page p).1 := by
  induction left generalizing page p with
  | zero => exact h
  | succ left ih =>
    unfold Client.pages
    have rows := request_rows client path
      (filters ++ [("per_page", "50"), ("page", toString page)]) p.budget
    generalize client.request path _ p.budget = answer at rows
    obtain ⟨result, budget⟩ := answer
    have asked : Counted taken { p with budget := budget } := by
      unfold Counted at *
      dsimp only at rows ⊢
      rwa [rows]
    cases result with
    | error failure => exact asked
    | ok response =>
      dsimp only
      have received : Counted taken (client.receive page _ response).1 := asked.receive page response
      generalize client.receive page _ response = found at received
      obtain ⟨q, result⟩ := found
      rcases result with failure | _ | _
      · exact received
      · exact received
      · exact ih received (page + 1)

variable (client) in
/-- **One list.** -/
theorem listing_counted {taken : Nat} {budget : Budget} (h : taken ≤ min budget.rows MAX_ROWS)
    (path : String) (filters : List (String × String)) :
    taken + (client.listing path filters budget).1.rows.length ≤
      min (client.listing path filters budget).2.rows MAX_ROWS := by
  have start : Counted taken ⟨[], [], none, none, budget⟩ := h
  exact start.pages path filters MAX_PAGES 1

/-! ## Records -/

theorem length_unique (rows : List Value) (s : Snapshot) :
    (unique rows s).1.toList.length ≤ rows.length := by
  rw [Std.ExtTreeMap.length_toList]
  refine foldl_rule (fun rows (u : Unique) => u.out.size ≤ rows.length) ?_ (fun rows row u h => ?_) rows
  · exact Nat.le_refl 0
  rw [List.length_append, List.length_singleton]
  unfold Unique.take
  split
  · exact Nat.le_succ_of_le h
  split
  · exact Nat.le_succ_of_le h
  split
  · exact Nat.le_succ_of_le (Nat.le_trans Std.ExtTreeMap.size_erase_le h)
  · exact Nat.le_trans Std.ExtTreeMap.size_insert_le (Nat.succ_le_succ h)

/-- The rows of the groups that were visited. -/
def State.visited (s : State) : Nat := (s.visits.map fun visit => visit.rows.length).sum

/-- A state within the limits, behind this many rows of other lists. -/
structure Afforded (taken : Nat) (s : State) : Prop where
  rows : taken + s.visited ≤ min s.budget.rows MAX_ROWS
  claims : s.grants.length + s.memberships.length ≤ MAX_ROWS

theorem Afforded.enroll {taken : Nat} {zones : Std.ExtTreeSet String} {s s' : State}
    {entry : String × Value} (h : Afforded taken s ∧ s.memberships = [])
    (ok : client.enroll zones observedAt s entry = .ok s') :
    Afforded taken s' ∧ s'.memberships = [] := by
  obtain ⟨⟨rows, claims⟩, none⟩ := h
  unfold Client.enroll at ok
  split at ok
  · cases ok
    exact ⟨⟨rows, claims⟩, none⟩
  · cases ok
    exact ⟨⟨rows, claims⟩, none⟩
  · dsimp only at ok
    split at ok
    · split at ok
      · cases ok
      case isFalse few =>
        cases ok
        refine ⟨⟨rows, ?_⟩, none⟩
        dsimp only
        rw [none, List.length_append, List.length_nil]
        omega
    · cases ok
      exact ⟨⟨rows, claims⟩, none⟩

theorem assign_frame {s s' : State} {granted : Except ProviderError (List (Grant × Resource))}
    (ok : Client.assign s granted = .ok s') : s'.budget = s.budget ∧ s'.visits = s.visits := by
  unfold Client.assign at ok
  split at ok
  · cases ok
    exact ⟨rfl, rfl⟩
  · split at ok
    · cases ok
    · cases ok
      exact ⟨rfl, rfl⟩

/-- The members of a group are one more list. -/
theorem visit_rows {taken : Nat} {s : State} (h : taken + s.visited ≤ min s.budget.rows MAX_ROWS)
    (key : String) (value : Value) (rejected : Bool) :
    taken + (client.visit observedAt key value rejected s).visited ≤
      min (client.visit observedAt key value rejected s).budget.rows MAX_ROWS := by
  have listed := listing_counted client h
    s!"accounts/{client.accountId}/iam/user_groups/{key}/members" []
  unfold Client.visit
  generalize client.listing _ [] s.budget = answer at listed
  obtain ⟨list, budget⟩ := answer
  dsimp only at listed ⊢
  refine List.foldlRecOn (motive := fun s : State => taken + s.visited ≤ min s.budget.rows MAX_ROWS)
    _ _ ?_ fun s h entry _ => ?_
  · unfold State.visited at *
    dsimp only
    rw [List.map_append, List.sum_append, List.map_singleton, List.sum_singleton, ← Nat.add_assoc]
    exact listed
  · unfold Client.join
    dsimp only
    split
    · exact h
    split
    · exact h
    split <;> exact h

theorem Afforded.group {taken : Nat} {zones : Std.ExtTreeSet String} {s s' : State}
    {entry : String × Value} (h : Afforded taken s)
    (ok : client.group zones observedAt s entry = .ok s') : Afforded taken s' := by
  unfold Client.group at ok
  split at ok
  · cases ok
    exact ⟨h.rows, h.claims⟩
  · dsimp only at ok
    split at ok
    · cases ok
    case h_2 s₁ assigned =>
      split at ok
      · cases ok
      case isFalse few =>
        cases ok
        obtain ⟨budget, visits⟩ := assign_frame assigned
        refine ⟨visit_rows ?_ _ _ _, Nat.le_of_not_lt few⟩
        rw [budget, State.visited, visits]
        exact h.rows

/-- The rows that a run has taken. -/
def Client.Gathered.taken (client : Client) (g : Client.Gathered) : Nat :=
  g.memberRows.length + client.zoneList.1.rows.length + g.groupRows.length + g.state.visited

/-- **The rows of a run.** -/
theorem afforded_of_gather {g : Client.Gathered} (ok : client.gather observedAt = .ok g) :
    g.taken client ≤ MAX_ROWS ∧ g.state.grants.length + g.state.memberships.length ≤ MAX_ROWS := by
  obtain ⟨response, account, s₁, -, first, second, eq⟩ := gather_parts ok
  have start : 0 ≤ min (client.request s!"accounts/{client.accountId}" [] ⟨0, 0⟩).2.rows MAX_ROWS :=
    Nat.zero_le _
  have members := listing_counted client start s!"accounts/{client.accountId}/members" []
  have zones := listing_counted client members "zones" [("account.id", client.accountId)]
  have groups := listing_counted client zones
    s!"accounts/{client.accountId}/iam/user_groups" []
  rw [Nat.zero_add] at groups
  have enrolled := foldlM_rule (fun _ (s : State) => Afforded _ s ∧ s.memberships = [])
    ⟨⟨groups, Nat.zero_le _⟩, rfl⟩ (fun _ _ _ _ h ok => Afforded.enroll h ok) first
  have afforded := foldlM_rule (fun _ (s : State) => Afforded _ s) enrolled.1
    (fun _ _ _ _ h ok => h.group ok) second
  refine ⟨?_, afforded.claims⟩
  have rows := afforded.rows
  unfold Client.Gathered.taken
  rw [eq]
  exact Nat.le_trans rows (Nat.min_le_right _ _)

/-! ## The graph -/

/-- One grant adds at most one resource. -/
theorem emit_length (blocked : EntityKey → Bool) (entries : List (Grant × Resource))
    (start : Std.ExtTreeMap EntityKey Resource) :
    (entries.foldl (Client.emit blocked) ⟨∅, [], start⟩).grants.length ≤ entries.length ∧
      (entries.foldl (Client.emit blocked) ⟨∅, [], start⟩).resources.size ≤
        start.size + entries.length := by
  refine foldl_rule (fun entries (o : Client.Output) => o.grants.length ≤ entries.length ∧
    o.resources.size ≤ start.size + entries.length) ?_ (fun entries entry o h => ?_) entries
  · exact ⟨Nat.le_refl 0, Nat.le_refl _⟩
  obtain ⟨grants, resources⟩ := h
  rw [List.length_append, List.length_singleton]
  unfold Client.emit
  dsimp only
  split
  · omega
  dsimp only
  constructor
  · split
    · omega
    · rw [List.length_append, List.length_singleton]
      omega
  · split
    · omega
    · have one : (o.resources.insert entry.2.key entry.2).size ≤ o.resources.size + 1 :=
        Std.ExtTreeMap.size_insert_le
      omega

theorem values_length {κ α : Type} [Ord κ] [Std.TransOrd κ] (m : Std.ExtTreeMap κ α) :
    (values m).length = m.size := by
  rw [values, List.length_map, Std.ExtTreeMap.length_toList]

theorem keyed_length (resources : List Resource) :
    (resources.foldl (fun m r => m.insert r.key r) (∅ : Std.ExtTreeMap EntityKey Resource)).size ≤
      resources.length := by
  refine foldl_rule (fun resources (m : Std.ExtTreeMap EntityKey Resource) =>
    m.size ≤ resources.length) ?_ (fun resources r m h => ?_) resources
  · exact Nat.le_refl 0
  rw [List.length_append, List.length_singleton]
  exact Nat.le_trans Std.ExtTreeMap.size_insert_le (Nat.succ_le_succ h)

/-- What no list and no grant adds to. -/
structure Headed (client : Client) (s : Snapshot) : Prop where
  provider : s.provider = client.id
  identities : s.identities = []

theorem lasting_headed : Lasting (Headed client) where
  warning h _ := ⟨h.provider, h.identities⟩
  inventory h _ _ _ := ⟨h.provider, h.identities⟩

theorem zone_length {n : Nat} {found : Std.ExtTreeSet String × Snapshot}
    (h : found.2.resources.length ≤ n) (entry : String × Value) :
    (client.zone found entry).2.resources.length ≤ n + 1 := by
  unfold Client.zone
  dsimp only
  split
  · exact Nat.le_succ_of_le h
  split
  · exact Nat.le_succ_of_le h
  · dsimp only
    rw [List.length_append, List.length_singleton]
    exact Nat.succ_le_succ h

variable (client) in
/-- Behind the account, a zone is a row. -/
theorem zoned_length (account : Resource) :
    (client.zoned account).2.resources.length ≤ 1 + client.zoneList.1.rows.length := by
  have opened : (client.opened account).2.resources = [account] :=
    congrArg (fun stock => stock.2.2) (stock_opened client account)
  have listed : (unique client.zoneList.1.rows
      (warnFailure (client.opened account).2 client.zoneList.1.failure)).2.resources = [account] :=
    (congrArg (fun stock => stock.2.2) ((stock_unique client.zoneList.1.rows _).trans
      (stock_warnFailure (client.opened account).2 client.zoneList.1.failure))).trans opened
  have rows := length_unique client.zoneList.1.rows
    (warnFailure (client.opened account).2 client.zoneList.1.failure)
  unfold Client.zoned
  dsimp only
  generalize unique client.zoneList.1.rows _ = found at listed rows
  obtain ⟨zones, s⟩ := found
  have each : (zones.toList.foldl client.zone (∅, s)).2.resources.length ≤
      1 + zones.toList.length := by
    refine foldl_rule (fun entries (found : Std.ExtTreeSet String × Snapshot) =>
      found.2.resources.length ≤ 1 + entries.length) ?_ (fun entries entry found h => ?_) zones.toList
    · exact Nat.le_of_eq (congrArg List.length listed)
    · rw [List.length_append, List.length_singleton]
      exact zone_length h entry
  exact Nat.le_trans each (Nat.add_le_add_left rows 1)

/-- **The records of a run**: the account, one for each row, and three for each claim. -/
theorem graph_length {g : Client.Gathered} (ok : client.gather observedAt = .ok g) :
    (client.graph g.state).entries.length ≤ 1 + g.taken client +
      2 * (g.state.grants.length + g.state.memberships.length) := by
  have headed : Headed client g.state.snapshot := lasting_headed.gather ⟨rfl, rfl⟩ ok
  obtain ⟨response, account, s₁, -, first, second, eq⟩ := gather_parts ok
  have accounts := accounts_of_members first
  have groups := groups_of_members first second
  have accountRows := accounts.sublist.length_le
  have groupRows := groups.sublist.length_le
  rw [List.length_map, List.length_map, ← groups.accounts] at accountRows
  rw [List.length_map, List.length_map] at groupRows
  have memberRows : (client.opened account).1.toList.length ≤ client.memberList.1.rows.length :=
    length_unique _ _
  have listed : (client.grouped account).1.toList.length ≤ client.groupList.1.rows.length :=
    length_unique _ _
  have resources : g.state.snapshot.resources = (client.zoned account).2.resources :=
    groups.resources.trans (accounts.resources.trans
      (congrArg (fun stock => stock.2.2) (stock_grouped client account)))
  have zones := zoned_length client account
  have keyed := keyed_length g.state.snapshot.resources
  rw [resources] at keyed
  obtain ⟨grants, added⟩ := emit_length
    (fun key => key ∈ g.state.blocked.toList.map client.memberKey) g.state.grants
    (g.state.snapshot.resources.foldl (fun m r => m.insert r.key r) ∅)
  have memberships := List.length_filter_le (fun entry : String × Membership =>
    entry.1 ∉ g.state.blocked) g.state.memberships
  have shown : (client.graph g.state).memberships.length ≤ g.state.memberships.length := by
    unfold Client.graph
    dsimp only
    rw [List.length_map]
    exact memberships
  have graphed : (client.graph g.state).resources.length ≤
      (client.zoned account).2.resources.length + g.state.grants.length := by
    unfold Client.graph
    dsimp only
    rw [values_length]
    rw [resources] at added ⊢
    omega
  have total : (client.graph g.state).entries.length = Snapshot.count (client.graph g.state) :=
    (Snapshot.count_entries _).symm
  have none : (client.graph g.state).identities = [] := headed.identities
  have claimed : (client.graph g.state).grants.length ≤ g.state.grants.length := grants
  have taken : g.taken client = client.memberList.1.rows.length + client.zoneList.1.rows.length +
      client.groupList.1.rows.length + g.state.visited := by
    unfold Client.Gathered.taken
    rw [eq]
  have same : (client.graph g.state).accounts.length = g.state.snapshot.accounts.length ∧
    (client.graph g.state).groups.length = g.state.snapshot.groups.length := ⟨rfl, rfl⟩
  rw [total, Snapshot.count, none, List.length_nil]
  omega

variable {K : Crates} {setup : K.SetupSpec}

/-- **The cost of a discovery.** A run does not depend on what a server would answer behind its first
`MAX_REQUESTS` requests, retries included, and it takes at most `MAX_ROWS` rows and `MAX_ROWS`
claims. What is collected in time passes the checks of the operation and is handed to the output,
unless the core rejects it. -/
theorem cloudflare_published (client : Client) (observedAt : String) :
    (∀ server, (∀ request ≤ MAX_REQUESTS, server request = client.net.server request) →
      ∀ rejection, (client.facing server).collect K.core rejection observedAt =
        client.collect K.core rejection observedAt) ∧
    ∀ g, client.gather observedAt = .ok g → g.taken client ≤ MAX_ROWS ∧
      g.state.grants.length + g.state.memberships.length ≤ MAX_ROWS ∧
      (client.graph g.state).entries.length ≤ 1 + g.taken client +
        2 * (g.state.grants.length + g.state.memberships.length) ∧
      ∀ (world : World) snapshot, world.now = some observedAt → world.inTime = true →
        client.collect K.core world.rejection observedAt = .ok snapshot →
          provided (adapter K setup) (client.provider K.core world) false client.id =
            if K.core.validate snapshot = true then
              .ok (published (adapter K setup) (K.core.sort snapshot))
            else .error .internal := by
  refine ⟨fun server same rejection => ?_, fun g ok => ?_⟩
  · unfold Client.collect
    rw [gather_facing same]
    rfl
  obtain ⟨rows, claims⟩ := afforded_of_gather ok
  have records := graph_length ok
  refine ⟨rows, claims, records, fun world snapshot now inTime collected => ?_⟩
  have discovered : (client.provider K.core world).discover = .ok snapshot := by
    unfold Client.provider
    rw [now, inTime]
    exact collected
  obtain ⟨g', ok', rfl⟩ := collect_graph collected
  cases ok.symm.trans ok'
  have headed : Headed client g.state.snapshot := lasting_headed.gather ⟨rfl, rfl⟩ ok
  have few : (K.core.sort (client.graph g.state)).entries.length ≤ 100000 := by
    rw [← Snapshot.count_entries, Snapshot.count_sort, Snapshot.count_entries]
    unfold MAX_ROWS at rows claims
    omega
  unfold provided
  rw [if_neg Bool.false_ne_true, discovered]
  refine if_congr ?_ rfl rfl
  exact ⟨fun h => h.2.1, fun valid => ⟨headed.provider, valid, few⟩⟩

end Permesh.Cloudflare

import Permesh.Cloudflare.Protocol
import Permesh.Laws.Cloudflare.Closed
import Permesh.Laws.Native.Remarks
import Permesh.Laws.Native.Stream
import Permesh.Laws.Text

/-!
# Laws.Cloudflare.Session — what a session of the Cloudflare provider streams

Everything that a run leaves out is a warning, whose text has a colon, as the texts on visibility do
not. The account is the parent of every zone and of the scope of all policies, and it is always there.
So every session of the provider is streamed well (`cloudflare_streams`).

A property that warnings keep, and whatever is added to the inventory, is one of every collection
(`Lasting`); the remarks are such a property. When a record was observed is no part of it.
-/

namespace Permesh.Cloudflare

open Permesh.Json Permesh.Http Permesh.Lib Permesh.Native

/-! ## Remarks -/

/-- The remarks of a snapshot. -/
abbrev Remarked (s : Snapshot) : Prop := Remarks VISIBILITY (· ∉ VISIBILITY) s

/-- A warning is no text on visibility. -/
theorem reason_apart (code : String) : s!"Cloudflare partial collection: {code}." ∉ VISIBILITY := by
  have apart : "Cloudflare partial collection: " ++ (code ++ ".") ∉ VISIBILITY :=
    text_apart (b := 58) (by decide +kernel) (by decide +kernel) _
  rwa [← String.append_assoc] at apart

theorem Remarked.warning {s : Snapshot} (h : Remarked s) (code : String) :
    Remarked (warning s code) :=
  Remarks.append h (reason_apart code) rfl rfl

/-- A property of snapshots that warnings keep, and whatever is added to the inventory. -/
structure Lasting (I : Snapshot → Prop) : Prop where
  warning {s : Snapshot} (h : I s) (code : String) : I (warning s code)
  inventory {s : Snapshot} (h : I s) (accounts : List Account) (resources : List Resource)
    (groups : List Group) :
    I { s with accounts := accounts, resources := resources, groups := groups }

section Lasting

variable {I : Snapshot → Prop} (lasting : Lasting I)
include lasting

theorem Lasting.warnFailure {s : Snapshot} (h : I s) (failure : Option String) :
    I (warnFailure s failure) := by
  cases failure with
  | none => exact h
  | some code => exact lasting.warning h code

theorem Lasting.unique {s : Snapshot} (h : I s) (rows : List Value) : I (unique rows s).2 := by
  refine foldl_rule (fun _ (u : Unique) => I u.snapshot) h (fun _ row u h => ?_) rows
  unfold Unique.take
  split
  · exact lasting.warning h _
  split
  · exact h
  split
  · exact lasting.warning h _
  · exact h

variable {client : Client} {observedAt : String}

theorem Lasting.zone {found : Std.ExtTreeSet String × Snapshot} (h : I found.2)
    (entry : String × Value) : I (client.zone found entry).2 := by
  unfold Client.zone
  dsimp only
  split
  · exact lasting.warning h _
  split
  · exact lasting.warning h _
  · exact lasting.inventory h _ _ _

theorem Lasting.enroll {zones : Std.ExtTreeSet String} {s s' : State} {entry : String × Value}
    (h : I s.snapshot) (ok : client.enroll zones observedAt s entry = .ok s') : I s'.snapshot := by
  unfold Client.enroll at ok
  split at ok
  · cases ok
    exact lasting.warning h _
  · cases ok
    exact h
  · dsimp only at ok
    split at ok
    · split at ok
      · cases ok
      · cases ok
        exact lasting.inventory h _ _ _
    · cases ok
      exact lasting.warning (lasting.inventory h _ _ _) _

theorem Lasting.join {group : EntityKey} {rejected : Bool} {s : State} (h : I s.snapshot)
    (entry : String × Value) : I (client.join observedAt group rejected s entry).snapshot := by
  unfold Client.join
  dsimp only
  split
  · exact h
  split
  · exact lasting.warning h _
  split <;> exact h

theorem Lasting.visit {s : State} (h : I s.snapshot) (key : String) (value : Value)
    (rejected : Bool) : I (client.visit observedAt key value rejected s).snapshot := by
  unfold Client.visit
  dsimp only
  exact List.foldlRecOn (motive := fun s : State => I s.snapshot) _ _
    (lasting.unique (lasting.warnFailure h _) _) fun s h entry _ => lasting.join h entry

theorem Lasting.group {zones : Std.ExtTreeSet String} {s s' : State} {entry : String × Value}
    (h : I s.snapshot) (ok : client.group zones observedAt s entry = .ok s') : I s'.snapshot := by
  unfold Client.group at ok
  split at ok
  · cases ok
    exact lasting.warning h _
  · dsimp only at ok
    split at ok
    · cases ok
    case h_2 s₁ assigned =>
      have kept : I s₁.snapshot := by
        unfold Client.assign at assigned
        split at assigned
        · cases assigned
          exact lasting.warning (lasting.inventory h _ _ _) _
        · split at assigned
          · cases assigned
          · cases assigned
            exact lasting.inventory h _ _ _
      split at ok
      · cases ok
      · cases ok
        exact lasting.visit kept _ _ _

/-- **What lasts holds of every run that returns.** -/
theorem Lasting.gather (start : I { Snapshot.new client.id with limitations := VISIBILITY })
    {g : Client.Gathered} (ok : client.gather observedAt = .ok g) : I g.state.snapshot := by
  obtain ⟨response, account, s₁, -, first, second, -⟩ := gather_parts ok
  have opened : I (client.opened account).2 :=
    lasting.unique (lasting.warnFailure (lasting.inventory start [] [account] []) _) _
  have zoned : I (client.zoned account).2 := by
    refine List.foldlRecOn (motive := fun found : Std.ExtTreeSet String × Snapshot => I found.2)
      _ _ ?_ fun found h entry _ => lasting.zone h entry
    exact lasting.unique (lasting.warnFailure opened _) _
  have grouped : I (client.grouped account).2 := lasting.unique (lasting.warnFailure zoned _) _
  have enrolled : I s₁.snapshot :=
    foldlM_rule (fun _ (s : State) => I s.snapshot) grouped (fun _ _ _ _ h ok => lasting.enroll h ok)
      first
  exact foldlM_rule (fun _ (s : State) => I s.snapshot) enrolled
    (fun _ _ _ _ h ok => lasting.group h ok) second

end Lasting

theorem lasting_remarked : Lasting Remarked where
  warning h code := h.warning code
  inventory h _ _ _ := h.congr rfl rfl

variable {client : Client} {observedAt : String}

/-! ## Parents -/

/-- The resource is the account, or below it. -/
def Below (client : Client) (r : Resource) : Prop :=
  ∀ k ∈ r.parent, k = accountKey client

theorem target_below {zones : Std.ExtTreeSet String} {target : String} {r : Resource}
    (h : client.target zones target = .ok r) : Below client r := by
  unfold Client.target at h
  split at h
  · cases h
    exact fun k same => (Option.some.inj same).symm
  · split at h
    · cases h
      exact fun k same => (Option.some.inj same).symm
    · cases h

theorem policies_below {zones : Std.ExtTreeSet String} {subject : Subject} {provenance : Provenance}
    {value : Value} {grants : List (Grant × Resource)}
    (ok : client.policies value subject zones provenance = .ok grants) :
    ∀ x ∈ grants, Below client x.2 := by
  obtain ⟨a, below, rfl⟩ := policies_rule (I := fun a => ∀ x ∈ a.records, Below client x.2)
    (fun _ mem => by cases mem) (fun _ _ h => h)
    (fun _ policyId _ resource a role a' _ target h ok => by
      obtain ⟨roleId, name, -, -, -, records⟩ := role_ok ok
      rw [records]
      exact forall_mem_snoc h (target_below target)) ok
  exact below

/-- The resources of a run: the account, and what is below it. -/
structure Rooted (client : Client) (g : Client.Gathered) : Prop where
  account : accountKey client ∈ g.state.snapshot.resources.map (·.key)
  below : ∀ r ∈ g.state.snapshot.resources, Below client r
  granted : ∀ x ∈ g.state.grants, Below client x.2

theorem account_root {response : Value} {r : Resource} (h : client.account response = .ok r) :
    r.parent = none := by
  unfold Client.account at h
  split at h
  · cases h
  · obtain ⟨native, -, h⟩ := bind_ok h
    dsimp only at h
    split at h
    · cases h
    · obtain ⟨name, -, h⟩ := bind_ok h
      cases h
      rfl

theorem zone_below {found : Std.ExtTreeSet String × Snapshot}
    (h : ∀ r ∈ found.2.resources, Below client r) (entry : String × Value) :
    ∀ r ∈ (client.zone found entry).2.resources, Below client r := by
  unfold Client.zone
  dsimp only
  split
  · exact h
  split
  · exact h
  · exact forall_mem_snoc h fun k same => (Option.some.inj same).symm

theorem rooted_of_gather {g : Client.Gathered} (ok : client.gather observedAt = .ok g) :
    Rooted client g := by
  have read := read_of_gather ok
  obtain ⟨response, account, s₁, found, first, second, -⟩ := gather_parts ok
  have accounts := accounts_of_members first
  have groups := groups_of_members first second
  have resources : g.state.snapshot.resources = (client.zoned account).2.resources :=
    groups.resources.trans (accounts.resources.trans
      (congrArg (fun stock => stock.2.2) (stock_grouped client account)))
  have opened : (client.opened account).2.resources = [account] :=
    congrArg (fun stock => stock.2.2) (stock_opened client account)
  have listed : (unique client.zoneList.1.rows
      (warnFailure (client.opened account).2 client.zoneList.1.failure)).2.resources = [account] :=
    (congrArg (fun stock => stock.2.2) ((stock_unique client.zoneList.1.rows _).trans
      (stock_warnFailure (client.opened account).2 client.zoneList.1.failure))).trans opened
  have zoned := zoned_of_opened client account
  constructor
  · rw [resources]
    refine List.mem_map.mpr ⟨account, zoned.first account ?_, account_key found⟩
    rw [opened]
    exact List.mem_singleton_self account
  · rw [resources]
    refine List.foldlRecOn (motive := fun found : Std.ExtTreeSet String × Snapshot =>
      ∀ r ∈ found.2.resources, Below client r) _ _ ?_ fun found h entry _ => zone_below h entry
    intro r mem
    dsimp only at mem
    rw [listed] at mem
    rw [List.mem_singleton.mp mem]
    intro k parent
    rw [account_root found] at parent
    cases parent
  · intro x mem
    obtain ⟨subject, value, provenance, grants, -, granted, there⟩ := read.source mem
    exact policies_below granted x there

/-- Every resource of the graph is the account, or below it. -/
theorem graph_below {g : Client.Gathered} (h : Rooted client g) :
    ∀ r ∈ (client.graph g.state).resources, Below client r := by
  have start : ∀ (k : EntityKey) (r : Resource), (g.state.snapshot.resources.foldl
      (fun m r => m.insert r.key r) (∅ : Std.ExtTreeMap EntityKey Resource))[k]? = some r →
        Below client r := by
    refine List.foldlRecOn (motive := fun m : Std.ExtTreeMap EntityKey Resource =>
      ∀ (k : EntityKey) r, m[k]? = some r → Below client r) _ _ ?_ fun m below r mem k r' there => ?_
    · intro k r there
      rw [Std.ExtTreeMap.getElem?_empty] at there
      cases there
    · rw [getElem?_insert_key] at there
      split at there
      · cases there
        exact h.below r mem
      · exact below k r' there
  have all := List.foldlRecOn (motive := fun o : Client.Output =>
      ∀ (k : EntityKey) r, o.resources[k]? = some r → Below client r)
    g.state.grants (Client.emit fun key => key ∈ g.state.blocked.toList.map client.memberKey)
    (b := ⟨∅, [], g.state.snapshot.resources.foldl (fun m r => m.insert r.key r) ∅⟩) start
    fun o below entry mem k r there => by
      unfold Client.emit at there
      dsimp only at there
      split at there
      · exact below k r there
      · dsimp only at there
        split at there
        · exact below k r there
        · rw [getElem?_insert_key] at there
          split at there
          · cases there
            exact h.granted entry mem
          · exact below k r there
  intro r mem
  obtain ⟨k, there⟩ := mem_values.mp mem
  exact all k r there

/-! ## What is gathered -/

/-- **What is gathered is closed under reference.** -/
theorem graph_integral {g : Client.Gathered} (ok : client.gather observedAt = .ok g) :
    (client.graph g.state).Integral := by
  have read := read_of_gather ok
  have stocked := stocked_of_gather ok
  have rooted := rooted_of_gather ok
  have produced := produced_graph client g.state
  constructor
  · intro x mem
    obtain ⟨m, there⟩ := mem_graph_memberships mem
    obtain ⟨active, visit, -, -, -, rfl⟩ := (read.memberships m x).mp there
    obtain ⟨a, account, member⟩ := stocked.account read active
    obtain ⟨group, listed, into⟩ := exists_group (stocked.known _ there)
    rw [show (membershipOf client observedAt m visit.key).member = .account a.key from member]
    exact ⟨⟨a, account, rfl⟩, group, listed, into.symm⟩
  · intro x mem
    obtain ⟨r, resource, target⟩ := read.resource mem
    refine ⟨?_, r, resource, target.symm⟩
    rcases read.subject stocked mem with ⟨a, account, same⟩ | ⟨group, listed, same⟩
    · rw [same]
      exact ⟨a, account, rfl⟩
    · rw [same]
      exact ⟨group, listed, rfl⟩
  · intro r mem k parent
    rw [graph_below rooted r mem k parent]
    have there := produced.old _ (((keyed_resources _).2 _).mpr rooted.account)
    rw [Std.ExtTreeMap.mem_iff_isSome_getElem?, Option.isSome_iff_exists] at there
    obtain ⟨above, there⟩ := there
    exact ⟨above, mem_values.mpr ⟨_, there⟩, produced.keyed _ above there⟩
  · exact stocked.accountsOnce
  · exact produced.keyed.nodup
  · exact stocked.groupsOnce
  · exact produced.once

/-- What a collection returns is the sorted graph of what it has gathered. -/
theorem collect_graph {core : Core} {rejection : ProviderError} {snapshot : Snapshot}
    (ok : client.collect core rejection observedAt = .ok snapshot) :
    ∃ g, client.gather observedAt = .ok g ∧ snapshot = core.sort (client.graph g.state) := by
  unfold Client.collect at ok
  split at ok
  · cases ok
  case h_2 g gathered =>
    unfold Client.finish at ok
    dsimp only at ok
    split at ok
    · cases ok
    · exact ⟨g, gathered, (Except.ok.inj ok).symm⟩

/-! ## The provider -/

theorem visibility_code : ∀ v ∈ VISIBILITY, limitationCode v = "visibility_limited" :=
  fun _ mem => if_pos mem

theorem reason_code {v : String} (apart : v ∉ VISIBILITY) :
    limitationCode v ≠ "visibility_limited" := by
  unfold limitationCode
  rw [if_neg apart]
  split <;> decide

theorem check_limitations {health : Health} (ok : client.check = .ok health) :
    health.limitations = VISIBILITY := by
  unfold Client.check at ok
  obtain ⟨response, -, ok⟩ := bind_ok ok
  obtain ⟨account, -, ok⟩ := bind_ok ok
  dsimp only at ok
  obtain ⟨members, -, ok⟩ := bind_ok ok
  split at ok
  · cases ok
  · obtain ⟨-, -, ok⟩ := bind_ok ok
    cases ok
    rfl

variable {K : Crates} {setup : K.SetupSpec} {world : World}

/-- The provider is fair. -/
theorem fair_provider (client : Client) : Fair (adapter K setup) (client.provider K.core world) := by
  refine .remarks rfl (List.cons_ne_nil _ _) visibility_code (fun _ => reason_code)
    (fun health ok => check_limitations (within_ok ok)) fun snapshot ok => ?_
  have ok := within_ok ok
  split at ok
  · obtain ⟨_, -, ok⟩ := bind_ok ok
    obtain ⟨_, -, ok⟩ := bind_ok ok
    cases ok
  · obtain ⟨g, gathered, rfl⟩ := collect_graph ok
    exact ⟨(graph_integral gathered).sort K.core,
      (lasting_remarked.gather (.start _ _ _ rfl rfl) gathered).congr rfl rfl⟩

/-- **What a host reads from the Cloudflare provider**, in every run of a session and wherever it is
cut off. -/
theorem cloudflare_streams {fromSlice : List UInt8 → Option (WireRequest (adapter K setup))}
    {serializer : Serializer K} {networkEnabled : Bool} {signals : List Lib.Signal}
    {m : Lib.Machine (sig (adapter K setup))}
    (run : (Native.start (host K setup world fromSlice serializer) networkEnabled).run
      (port (host K setup world fromSlice serializer)) signals = some m) :
    Streamed (answers (begun m.link.trace)) := by
  refine Session.streamed (fun instanceId configuration credentials network provider built => ?_) run
  obtain ⟨client, -, returned⟩ := bind_ok built
  cases returned
  exact fair_provider client

/-- A server with one member and one group that is denied something. -/
def sampleWorld : World where
  crate := { (sampleClient []).crate with parse := fun _ => some (sampleClient []).origin }
  net := (sampleClient []).net
  render := (sampleClient []).render
  rejection := ⟨"", ""⟩
  builds := true
  now := some "2026-01-01T00:00:00Z"
  inTime := true

/-- A session with one account. -/
def sampleHost : Host (adapter Sample.crates ()) :=
  host Sample.crates () sampleWorld
    (Sample.decoding (adapter Sample.crates ()) (⟨sampleId 'a'⟩ : Configuration)
      (⟨"token"⟩ : Credentials))
    Sample.brief

/-- The whole answer of a discovery: a member, the account and the scope of all its policies, a group,
the grant of the member, and the complete event. -/
theorem cloudflare_streams_discovery :
    ∃ m, (Native.start sampleHost true).run (port sampleHost) (Sample.discovery 6) = some m ∧
      (answers (begun m.link.trace)).length = 6 ∧ Streamed (answers (begun m.link.trace)) := by
  have six : ((Native.start sampleHost true).run (port sampleHost) (Sample.discovery 6)).any
      (fun m => (answers (begun m.link.trace)).length == 6) = true := by decide +kernel
  obtain ⟨m, run, all⟩ := (Option.any_eq_true _ _).mp six
  exact ⟨m, run, beq_iff_eq.mp all, cloudflare_streams run⟩

end Permesh.Cloudflare

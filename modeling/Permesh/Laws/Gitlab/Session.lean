import Permesh.Gitlab.Protocol
import Permesh.Laws.Gitlab.Confined
import Permesh.Laws.Native.Remarks
import Permesh.Laws.Native.Stream
import Permesh.Laws.Text

/-!
# Laws.Gitlab.Session — what a session of the GitLab provider streams

A run of a collection goes on with the next group, project or list where one of them fails, and says
so in a text with a colon, which the texts on visibility do not have. What it has gathered is closed
under reference (`Stock.integral`), so every session of the provider is streamed well
(`gitlab_streams`).

The remarks are carried through every part of a run, and what is stocked is confined
(`Laws.Gitlab.Confined`). In which order groups are visited makes no difference to the claim.
-/

namespace Permesh.Gitlab

open Permesh.Json Permesh.Http Permesh.Lib Permesh.Native

variable {p : Provider}

/-! ## Remarks -/

/-- The remarks of a collection. -/
abbrev Remarked (c : Collection) : Prop := Remarks VISIBILITY (· ∉ VISIBILITY) c.snapshot

/-- A reason is no text on visibility. -/
theorem reason_apart (code : String) : s!"GitLab partial collection: {code}" ∉ VISIBILITY :=
  text_apart (b := 58) (by decide +kernel) (by decide +kernel) code

theorem Remarked.fail {c : Collection} (h : Remarked c) (failure : ProviderError) :
    Remarked (c.fail failure) :=
  Remarks.fail h (reason_apart failure.code) (fun _ mem apart => apart mem) rfl rfl

theorem Remarked.note {c : Collection} (h : Remarked c) (failure : Option ProviderError) :
    Remarked (c.note failure) := by
  cases failure with
  | none => exact h
  | some failure => exact h.fail failure

theorem Remarked.record {c : Collection} (h : Remarked c) (resource : EntityKey)
    (group effective : Bool) (candidate : Account) (a : Assignment) :
    Remarked (c.record resource group effective candidate a) := by
  unfold Collection.record
  split <;> split <;> exact h.congr rfl rfl

theorem Remarked.take {c : Collection} (h : Remarked c) (v : Visit) (calendar : Calendar)
    (value : Value) : Remarked (v.take calendar c value) := by
  unfold Visit.take
  rcases member_cases calendar c v.scope.2 (v.kind == "groups") v.effective value with
    ⟨e, same⟩ | ⟨id, candidate, -, -, ⟨e, blocked⟩ | ⟨a, taken⟩⟩
  · rw [same]
    exact h.fail e
  · rw [blocked]
    refine Remarked.fail ?_ e
    exact h.congr rfl rfl
  · rw [taken]
    exact h.record _ _ _ candidate a

/-- A list of members keeps the remarks. -/
theorem Remarked.visit {c : Collection} (h : Remarked c) (v : Visit) (m : Meter) :
    Remarked (p.visit c v m).1 := by
  rw [visit_eq]
  exact List.foldlRecOn (motive := Remarked) _ _ (h.note _) fun c h value _ => h.take v _ value

theorem Remarked.loadGroup {s : Scopes} (h : Remarked s.collection) (id : Nat) (m : Meter) :
    Remarked (p.loadGroup s id m).1.collection := by
  unfold Provider.loadGroup
  rw [run_bind]
  cases ((p.load "group" id).run m).1 with
  | error e => exact h.fail e
  | ok found => exact h.congr rfl rfl

theorem Remarked.listProjects {found : Collection × Std.ExtTreeSet Nat} (h : Remarked found.1)
    (group : Nat) (m : Meter) : Remarked (p.listProjects found group m).1.1 := by
  unfold Provider.listProjects
  rw [run_bind]
  refine List.foldlRecOn (motive := fun found' : Collection × Std.ExtTreeSet Nat => Remarked found'.1)
    _ _ ?_ fun found' h value _ => ?_
  · exact h.note _
  · unfold listProject
    split
    · exact h
    · exact h.fail _

theorem Remarked.loadProject {groups : Std.ExtTreeMap Nat EntityKey}
    {found : Collection × Std.ExtTreeMap Nat EntityKey} (h : Remarked found.1) (id : Nat) (m : Meter) :
    Remarked (p.loadProject groups found id m).1.1 := by
  unfold Provider.loadProject
  rw [run_bind]
  cases ((p.load "project" id).run m).1 with
  | error e => exact h.fail e
  | ok answer =>
    dsimp only
    split
    · exact h.fail _
    · exact h.congr rfl rfl

theorem Remarked.adopt {c : Collection} (h : Remarked c) (groups : Std.ExtTreeMap Nat EntityKey)
    (entry : EntityKey × Option Nat) : Remarked (adopt groups c entry) := by
  unfold Gitlab.adopt
  split
  · exact h
  split
  · exact h.fail _
  split
  · exact h.congr rfl rfl
  · exact h

/-- The collection before its members are read. -/
theorem stocked_remarked {time : String} {m m' : Meter} {c : Collection} {visits : List Visit}
    (h : p.stocked time m = (.ok (c, visits), m')) : Remarked c := by
  have loaded : Remarked (p.loadGroups time m).1.collection :=
    foldlM_keeps (I := fun s : Scopes => Remarked s.collection)
      (fun s id m h => h.loadGroup id m) p.groupIds m
      (.start _ _ (Collection.new p.id p.scope time).snapshot rfl rfl)
  unfold Provider.stocked at h
  rw [run_bind] at h
  generalize p.loadGroups time m = run at h loaded
  obtain ⟨s, m₁⟩ := run
  dsimp only at h loaded
  rw [run_bind] at h
  have listed := foldlM_keeps (I := fun found : Collection × Std.ExtTreeSet Nat compare =>
      Remarked found.1) (f := p.listProjects) (fun found group m h => h.listProjects group m)
    s.groups.keys (b := (s.collection, ∅)) m₁ loaded
  generalize s.groups.keys.foldlM p.listProjects (s.collection, ∅) m₁ = run at h listed
  obtain ⟨⟨c₁, found⟩, m₂⟩ := run
  dsimp only at h listed
  split at h
  · cases h
  rw [run_bind] at h
  have projected := foldlM_keeps
    (I := fun found : Collection × Std.ExtTreeMap Nat EntityKey compare => Remarked found.1)
    (f := p.loadProject s.groups) (fun found id m h => h.loadProject id m)
    (p.projectIds.foldl (·.insert ·) found).toList (b := (c₁, ∅)) m₂ listed
  generalize (p.projectIds.foldl (·.insert ·) found).toList.foldlM (p.loadProject s.groups) (c₁, ∅)
    m₂ = run at h projected
  obtain ⟨⟨c₂, projects⟩, m₃⟩ := run
  dsimp only at h projected
  split at h
  · cases h
  cases h
  exact List.foldlRecOn (motive := Remarked) _ _ projected fun c h entry _ => h.adopt _ entry

/-! ## What is gathered -/

/-- **What is gathered is closed under reference.** -/
theorem Stock.integral {groups : Std.ExtTreeMap Nat EntityKey} {rereads : List (Nat × Option Nat)}
    {c₀ c : Collection} {visits : List Visit} (stock : Stock p groups rereads c₀)
    (opened : ∀ v ∈ visits, Open p groups c₀ v) (fed : Fed p c₀ (fun v _ => v ∈ visits) c) :
    c.graph.Integral := by
  have confined := stock.confined opened fed
  constructor
  · intro x mem
    obtain ⟨⟨a, account, member⟩, g, group, into⟩ := confined.memberships x mem
    rw [member, into]
    exact ⟨⟨a, account, rfl⟩, g, group, rfl⟩
  · intro g mem
    obtain ⟨a, account, subject⟩ := confined.subjects g mem
    obtain ⟨r, resource, target⟩ := confined.targets g mem
    rw [subject, target]
    exact ⟨⟨a, account, rfl⟩, r, resource, rfl⟩
  · intro r mem k parent
    obtain ⟨group, above, same, -⟩ := confined.parents r mem k parent
    exact ⟨group, above, same⟩
  · exact fed.accounts.nodup
  · have keyed := stock.keyed
    rw [← fed.resources] at keyed
    exact keyed.nodup
  · have named := stock.named
    rw [← fed.groups] at named
    exact named.nodup
  · exact confined.once

/-- What a collection returns is the sorted graph of what it has gathered. -/
theorem collect_graph {core : Core} {time : String} {m : Meter} {snapshot : Snapshot}
    (ok : (p.collect core time m).1 = .ok snapshot) :
    ∃ c, (p.gather time m).1 = .ok c ∧ snapshot = core.sort c.graph := by
  rw [Provider.collect_fst] at ok
  obtain ⟨c, gathered, ok⟩ := bind_ok ok
  refine ⟨c, gathered, ?_⟩
  unfold Collection.finish at ok
  dsimp only at ok
  split at ok
  · cases ok
  split at ok
  · cases ok
  · exact (Except.ok.inj ok).symm

/-- A run that comes to its end is closed under reference and keeps its remarks. -/
theorem gather_fair {time : String} {m : Meter} {c : Collection}
    (gathered : (p.gather time m).1 = .ok c) : c.graph.Integral ∧ Remarked c := by
  rw [gather_stocked] at gathered
  cases stocked : p.stocked time m with
  | mk result m₀ =>
    rw [stocked] at gathered
    cases result with
    | error e => cases gathered
    | ok start =>
      obtain ⟨c₀, visits⟩ := start
      obtain ⟨groups, stock, opened, -⟩ := stocked_stock stocked
      have remarked := foldlM_keeps (I := Remarked) (f := p.visit) (fun c v m h => h.visit v m)
        visits m₀ (stocked_remarked stocked)
      cases gathered
      exact ⟨stock.integral opened (stock.fed.visits visits m₀), remarked⟩

/-! ## The provider -/

theorem visibility_code : ∀ v ∈ VISIBILITY, limitationCode v = "visibility_limited" :=
  fun _ mem => if_pos mem

theorem reason_code {v : String} (apart : v ∉ VISIBILITY) :
    limitationCode v ≠ "visibility_limited" := by
  unfold limitationCode
  rw [if_neg apart]
  split <;> decide

theorem check_limitations {m : Meter} {health : Health} (ok : (p.check.run m).1 = .ok health) :
    health.limitations = VISIBILITY := by
  have yields : Yields (fun _ => True) p.check fun health _ => health.limitations = VISIBILITY := by
    unfold Provider.check
    refine Yields.bind (R := fun _ _ => True) (fun _ _ _ _ _ => trivial) fun user => ?_
    refine Yields.bind (R := fun _ _ => True) (fun _ _ _ _ _ => trivial) fun _ => ?_
    refine Yields.bind (R := fun _ _ => True) (fun _ _ _ _ _ => trivial) fun _ => ?_
    refine Yields.bind (R := fun _ _ => True) (fun _ _ _ _ _ => trivial) fun _ => ?_
    intro m health m' _ ok
    cases ok
    rfl
  exact yields m health _ trivial (Prod.ext ok rfl)

variable {K : Crates} {setup : K.SetupSpec} {world : World}

/-- The provider is fair. -/
theorem fair_provider (p : Provider) (now : Option String) (inTime : Bool) :
    Fair (adapter K setup world.crate) (p.provider K.core now inTime) := by
  refine .remarks rfl (List.cons_ne_nil _ _) visibility_code
    (fun _ => reason_code) (fun health ok => check_limitations (within_ok ok)) fun snapshot ok => ?_
  have ok := within_ok ok
  cases now with
  | none => cases ok
  | some time =>
    obtain ⟨c, gathered, rfl⟩ := collect_graph ok
    obtain ⟨integral, remarked⟩ := gather_fair gathered
    exact ⟨integral.sort K.core, remarked.congr rfl rfl⟩

/-- **What a host reads from the GitLab provider**, in every run of a session and wherever it is cut
off. -/
theorem gitlab_streams
    {fromSlice : List UInt8 → Option (WireRequest (adapter K setup world.crate))}
    {serializer : Serializer K} {networkEnabled : Bool} {signals : List Lib.Signal}
    {m : Lib.Machine (sig (adapter K setup world.crate))}
    (run : (Native.start (host K setup world fromSlice serializer) networkEnabled).run
      (port (host K setup world fromSlice serializer)) signals = some m) :
    Streamed (answers (begun m.link.trace)) := by
  refine Session.streamed (fun instanceId configuration credentials network provider built => ?_) run
  obtain ⟨p, -, returned⟩ := bind_ok built
  cases returned
  exact fair_provider p world.now world.inTime

/-- A server with group 1, its project 20, and a member of both. -/
def sampleWorld : World where
  crate := { teamProvider.client.crate with parse := fun _ => some teamProvider.client.origin }
  net := teamProvider.client.net
  calendar := teamProvider.calendar
  builds := true
  now := some "2026-01-01T00:00:00Z"
  inTime := true

/-- A session with group 1. -/
def sampleHost : Host (adapter Sample.crates () sampleWorld.crate) :=
  host Sample.crates () sampleWorld
    (Sample.decoding (adapter Sample.crates () sampleWorld.crate)
      (⟨"https://gitlab.example", ["1"], []⟩ : Configuration) (⟨"secret"⟩ : Credentials))
    Sample.brief

/-- The whole answer of a discovery: the member, the group and its project as resources, the group,
a membership, two grants for each of both, and the complete event. -/
theorem gitlab_streams_discovery :
    ∃ m, (Native.start sampleHost true).run (port sampleHost) (Sample.discovery 10) = some m ∧
      (answers (begun m.link.trace)).length = 10 ∧ Streamed (answers (begun m.link.trace)) := by
  have ten : ((Native.start sampleHost true).run (port sampleHost) (Sample.discovery 10)).any
      (fun m => (answers (begun m.link.trace)).length == 10) = true := by decide +kernel
  obtain ⟨m, run, all⟩ := (Option.any_eq_true _ _).mp ten
  exact ⟨m, run, beq_iff_eq.mp all, gitlab_streams run⟩

end Permesh.Gitlab

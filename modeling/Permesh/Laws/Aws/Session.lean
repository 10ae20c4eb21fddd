import Permesh.Aws.Protocol
import Permesh.Laws.Aws.Complete
import Permesh.Laws.Native.Stream

/-!
# Laws.Aws.Session — what a session of the AWS provider streams

The warnings of an inventory are told behind the texts on visibility, all of them at once. No resource
is above another one. So every session of the provider is streamed well, and no resource of its stream
has a parent (`aws_streams`).

What is collected is closed under reference because the inventory is (`Closed`, and `Known.roots` for
the parents). The services are arbitrary functions: nothing is said about what AWS itself holds.
-/

namespace Permesh.Aws

open Permesh.Lib Permesh.Native

/-! ## Remarks -/

/-- The remarks of a snapshot. -/
abbrev Remarked (s : Snapshot) : Prop := Remarks VISIBILITY (· ∉ VISIBILITY) s

/-- A warning is no text on visibility. -/
theorem reason_apart (code : String) : s!"AWS partial attachment collection: {code}." ∉ VISIBILITY := by
  have apart : "AWS partial attachment collection: " ++ (code ++ ".") ∉ VISIBILITY :=
    text_apart (b := 58) (by decide +kernel) (by decide +kernel) _
  rwa [← String.append_assoc] at apart

/-- The warnings are the reasons. -/
theorem report_remarked {s : State} (limitations : s.snapshot.limitations = VISIBILITY)
    (complete : s.snapshot.complete = true) : Remarked (AwsProvider.report s) := by
  unfold AwsProvider.report
  split
  · exact .start _ _ _ limitations complete
  case isFalse warned =>
    refine ⟨_, congrArg (· ++ _) limitations, fun v mem => ?_, ?_⟩
    · obtain ⟨code, -, rfl⟩ := List.mem_map.mp mem
      exact reason_apart code
    · have some : s.warnings.toList ≠ [] := fun none =>
        warned (by rw [← Std.ExtTreeSet.isEmpty_toList, none]; rfl)
      simp [some]

section

variable {p : AwsProvider} {c : Collected} {policies : Std.ExtTreeMap String Resource}
  {names : Std.ExtTreeMap String EntityKey} {provenance : Provenance} {xs : List Principal} {s : State}

/-- Portions leave the flag and the limitations as they are. -/
theorem Inventory.quiet {first : Snapshot} (inv : Inventory p policies names provenance first xs s) :
    s.snapshot.limitations = first.limitations ∧ s.snapshot.complete = first.complete := by
  rw [inv.snapshot]
  exact List.foldlRecOn (motive := fun t : Snapshot => t.limitations = first.limitations ∧
    t.complete = first.complete) xs _ ⟨rfl, rfl⟩ fun _ h _ _ => h

/-! ## References -/

theorem managed_root {id arn : String} {v : ManagedPolicyDetail} {r : Resource}
    (h : p.managed id v = some (arn, r)) : r.parent = none := by
  unfold AwsProvider.managed at h
  split at h
  · split at h
    · cases h
    · cases h
      rfl
  · cases h

/-- No policy is above another one. -/
theorem Known.roots (known : Known p c policies names xs)
    (inv : Inventory p policies names provenance (base p policies) xs s) :
    ∀ r ∈ s.snapshot.resources, r.parent = none := by
  intro r mem
  rcases inv.mem_resources.mp mem with ⟨arn, there⟩ | ⟨x, -, there⟩
  · obtain ⟨id, v, -, managed⟩ := known.managed there
    exact managed_root managed
  · obtain ⟨found, holds⟩ := portion_holds p policies names provenance x
    rw [holds.resources] at there
    obtain ⟨name, -, rfl⟩ := List.mem_map.mp there
    rfl

/-- A closed snapshot without parents. -/
theorem Closed.integral {s : Snapshot} (closed : Closed p c s)
    (roots : ∀ r ∈ s.resources, r.parent = none) : s.Integral where
  members m mem := by
    obtain ⟨⟨a, account, member⟩, group, listed, into⟩ := closed.members m mem
    rw [member]
    exact ⟨⟨a, account, rfl⟩, group, listed, into.symm⟩
  claims g mem := by
    obtain ⟨r, resource, target⟩ := closed.targets g mem
    refine ⟨?_, r, resource, target.symm⟩
    rcases closed.subjects g mem with ⟨a, account, same⟩ | ⟨group, listed, same⟩
    · rw [same]
      exact ⟨a, account, rfl⟩
    · rw [same]
      exact ⟨group, listed, rfl⟩
  parents r mem k parent := by
    rw [roots r mem] at parent
    cases parent
  accountsOnce := closed.accountsOnce
  resourcesOnce := closed.resourcesOnce
  groupsOnce := closed.groupsOnce
  grantsOnce := closed.grantsOnce

end

/-! ## The provider -/

variable {p : AwsProvider} {services : Services}

/-- The page loop adds pages and warnings. -/
theorem pages_gathered {left page : Nat} {r r' : Run} (h : Gathered r.collected)
    (ok : AwsProvider.pages services left page r = .ok r') : Gathered r'.collected := by
  induction left generalizing page r with
  | zero =>
    cases ok
    exact h
  | succ left ih =>
    unfold AwsProvider.pages at ok
    dsimp only at ok
    split at ok
    · split at ok
      · cases ok
      · cases ok
        exact h.warn _
    split at ok
    · cases ok
    case h_2 added =>
      have more := h.add added
      split at ok
      · split at ok <;> cases ok
        · exact more.warn _
        · exact more
      split at ok
      · cases ok
        exact more.warn _
      · refine ih ?_ ok
        split
        · exact more.warn _
        · exact more

theorem gather_gathered {r : Run} (ok : p.gather services = .ok r) : Gathered r.collected := by
  obtain ⟨-, -, pages⟩ := bind_ok ok
  exact pages_gathered .empty pages

/-- **What is collected is closed under reference**, its remarks are kept, and nothing has a parent. -/
theorem collect_fair {core : Core} {rejection : ProviderError} {observedAt : String}
    {snapshot : Snapshot} (ok : p.collect services core rejection observedAt = .ok snapshot) :
    snapshot.Integral ∧ Remarked snapshot ∧ ∀ r ∈ snapshot.resources, r.parent = none := by
  unfold AwsProvider.collect at ok
  split at ok
  · cases ok
  case h_2 r gathered =>
    unfold AwsProvider.finish at ok
    split at ok
    · cases ok
    case h_2 s assembles =>
      dsimp only at ok
      split at ok
      · cases ok
      · cases ok
        obtain ⟨policies, names, xs, known, inv, -⟩ := assembled assembles
        obtain ⟨closed, -⟩ := (known.closed inv (gather_gathered gathered).total_le).ordered core
        have resources := (ordered_lists core s).2.2.1
        have roots : ∀ r ∈ (AwsProvider.ordered core s).resources, r.parent = none :=
          fun r mem => known.roots inv r (resources.mem_iff.mp mem)
        obtain ⟨limitations, complete⟩ := inv.quiet
        exact ⟨closed.integral roots, (report_remarked limitations complete).congr rfl rfl, roots⟩

theorem visibility_code : ∀ v ∈ VISIBILITY, limitationCode VISIBILITY v = "visibility_limited" :=
  fun _ mem => if_pos mem

/-- Other texts have other codes. -/
theorem reason_code {visibility : List String} {v : String} (apart : v ∉ visibility) :
    limitationCode visibility v ≠ "visibility_limited" := by
  unfold limitationCode
  rw [if_neg apart]
  split
  · decide
  split
  · decide
  split <;> decide

theorem check_limitations {health : Health} (ok : p.check services = .ok health) :
    health.limitations = VISIBILITY := by
  unfold AwsProvider.check at ok
  obtain ⟨-, -, ok⟩ := bind_ok ok
  split at ok <;> cases ok
  rfl

variable {K : Crates} {setup : K.SetupSpec} {world : World}

/-- A discovery returns what was collected at some time. -/
theorem discover_ok {core : Core} {snapshot : Snapshot}
    (ok : (p.provider core world).discover = .ok snapshot) :
    ∃ observedAt, p.collect world.services core world.rejection observedAt = .ok snapshot := by
  replace ok := within_ok ok
  split at ok
  · obtain ⟨_, -, ok⟩ := bind_ok ok
    cases ok
  · exact ⟨_, ok⟩

/-- The provider is fair. -/
theorem fair_provider (p : AwsProvider) : Fair (adapter K setup) (p.provider K.core world) := by
  refine .remarks rfl (List.cons_ne_nil _ _) visibility_code (fun _ => reason_code)
    (fun health ok => check_limitations (within_ok ok)) fun snapshot ok => ?_
  obtain ⟨_, ok⟩ := discover_ok ok
  obtain ⟨integral, remarked, -⟩ := collect_fair ok
  exact ⟨integral, remarked⟩

/-- The factory builds no other providers. -/
theorem factory_ok {fromSlice : List UInt8 → Option (WireRequest (adapter K setup))}
    {serializer : Serializer K} {instanceId : String} {configuration : Configuration}
    {credentials : Credentials} {network : Option NetworkContext} {provider : Native.Provider}
    (built : (host K setup world fromSlice serializer).factory instanceId configuration credentials
      network = .ok provider) : ∃ p : AwsProvider, provider = p.provider K.core world := by
  obtain ⟨_, -, built⟩ := bind_ok built
  obtain ⟨p, -, returned⟩ := bind_ok built
  cases returned
  exact ⟨p, rfl⟩

/-- **What a host reads from the AWS provider**, in every run of a session and wherever it is cut
off: a stream whose resources have no parents. -/
theorem aws_streams {fromSlice : List UInt8 → Option (WireRequest (adapter K setup))}
    {serializer : Serializer K} {networkEnabled : Bool} {signals : List Lib.Signal}
    {m : Lib.Machine (sig (adapter K setup))}
    (run : (Native.start (host K setup world fromSlice serializer) networkEnabled).run
      (port (host K setup world fromSlice serializer)) signals = some m) :
    Streamed (answers (begun m.link.trace)) ∧
      ∀ value, .record (.resource value) ∈ answers (begun m.link.trace) → value.parent = none := by
  constructor
  · refine Session.streamed (fun instanceId configuration credentials network provider built => ?_) run
    obtain ⟨p, rfl⟩ := factory_ok built
    exact fair_provider p
  · intro value mem
    obtain ⟨d, provider, snapshot, -, built, returned, entry, there, same⟩ := Session.recorded run mem
    obtain ⟨p, rfl⟩ := factory_ok built
    obtain ⟨_, ok⟩ := discover_ok returned
    obtain ⟨-, -, roots⟩ := collect_fair ok
    obtain ⟨r, listed, -, -, parent⟩ := resource_entry there same
    rw [parent, roots r listed]
    rfl

/-- Two pages, and a caller of the account. -/
def sampleWorld : World where
  services := sampleServices
  rejection := ⟨"", ""⟩
  builds := true
  now := some "2026-01-01T00:00:00Z"
  inTime := true

/-- A session with one account. -/
def sampleHost : Host (adapter Sample.crates ()) :=
  host Sample.crates () sampleWorld
    (Sample.decoding (adapter Sample.crates ())
      (⟨sampleProvider.account, "eu-west-1", none⟩ : Configuration) sampleProvider.credentials)
    Sample.brief

/-- The whole answer of a discovery: a user, two policies, a group, the membership, two grants, and
the complete event. -/
theorem aws_streams_discovery :
    ∃ m, (Native.start sampleHost false).run (port sampleHost) (Sample.discovery 8) = some m ∧
      (answers (begun m.link.trace)).length = 8 ∧ Streamed (answers (begun m.link.trace)) ∧
      ∀ value, .record (.resource value) ∈ answers (begun m.link.trace) → value.parent = none := by
  have eight : ((Native.start sampleHost false).run (port sampleHost) (Sample.discovery 8)).any
      (fun m => (answers (begun m.link.trace)).length == 8) = true := by decide +kernel
  obtain ⟨m, run, all⟩ := (Option.any_eq_true _ _).mp eight
  exact ⟨m, run, beq_iff_eq.mp all, aws_streams run⟩

end Permesh.Aws

import Permesh.IdentityCenter.Protocol
import Permesh.Laws.Aws.Session
import Permesh.Laws.IdentityCenter.Confined

/-!
# Laws.IdentityCenter.Session — what a session of the Identity Center provider streams

Each part of a collection keeps the remarks of its snapshot (`Remarking`). A permission set lies under
an account of the allowlist, and all of these are shown. So every session of the provider is streamed
well, and its resources are accounts and what lies under accounts (`identity_center_streams`).

In which order the resources of a snapshot are sent is up to the core, which sorts it. The account
above a permission set is therefore known with the complete event and not before (`Nested.under`), and
a stream that was cut off may lack it.
-/

namespace Permesh.IdentityCenter

open Permesh.Lib Permesh.Native

variable {p : IdentityCenterProvider} {services : Services}

/-! ## Remarks -/

/-- The remarks of a snapshot. -/
abbrev Remarked (s : Snapshot) : Prop := Remarks VISIBILITY (· ∉ VISIBILITY) s

/-- A note is no text on visibility. -/
theorem reason_apart (code : String) : s!"Identity Center partial collection: {code}." ∉ VISIBILITY := by
  have apart : "Identity Center partial collection: " ++ (code ++ ".") ∉ VISIBILITY :=
    text_apart (b := 58) (by decide +kernel) (by decide +kernel) _
  rwa [← String.append_assoc] at apart

theorem Remarked.missed {s : Snapshot} (h : Remarked s) (code : String) : Remarked (missed s code) :=
  Remarks.fail h (reason_apart _) (fun _ mem apart => apart mem) rfl rfl

/-- **A part of the collection that keeps the remarks**, also where it fails. -/
abbrev Remarking {α : Type} (x : Op α) : Prop := Keeps (fun r : Run => Remarked r.snapshot) x.run

theorem malformed_remarking {α : Type} : Remarking (malformed : Op α) := Keeps.result _

theorem note_remarking (code : String) : Remarking (note code) := Keeps.update fun _ h => h.missed code

/-- A record is added. -/
theorem update_remarking {f : Run → Run}
    (limitations : ∀ r, (f r).snapshot.limitations = r.snapshot.limitations)
    (complete : ∀ r, (f r).snapshot.complete = r.snapshot.complete) : Remarking (modify f : Op Unit) :=
  Keeps.update fun r h => h.congr (limitations r) (complete r)

theorem fetch_remarking (q : Query) : Remarking (fetch services q) := by
  intro r h
  show Remarked (fetched services q r).run.snapshot
  rcases (fetched_spec services q r).outcome with ⟨same, -⟩ | ⟨code, noted⟩
  · rw [same]
    exact h
  · rw [noted]
    exact h.missed code

theorem prove_remarking : Remarking (p.prove services) := by
  intro r h
  show Remarked (p.prove services r).2.snapshot
  unfold IdentityCenterProvider.prove
  dsimp only
  split
  · exact h
  split
  · exact h
  split
  · exact h
  split <;> exact h

theorem takeUser_remarking (keys : Keys) (user : StoreUser) : Remarking (p.takeUser keys user) := by
  unfold IdentityCenterProvider.takeUser
  refine (Keeps.result _).seq fun account => ?_
  split
  · exact malformed_remarking
  · exact Keeps.seq (update_remarking (fun _ => rfl) fun _ => rfl) fun _ => Keeps.result _

theorem users_remarking : Remarking (p.users services) :=
  (fetch_remarking _).seq fun rows => Keeps.fold takeUser_remarking rows ∅

theorem takeGroup_remarking (userKeys keys : Keys) (group : StoreGroup) :
    Remarking (p.takeGroup userKeys keys group) := by
  unfold IdentityCenterProvider.takeGroup
  refine (Keeps.result _).seq fun record => ?_
  split
  · exact malformed_remarking
  · exact Keeps.seq (update_remarking (fun _ => rfl) fun _ => rfl) fun _ => Keeps.result _

theorem groups_remarking (userKeys : Keys) : Remarking (p.groups services userKeys) :=
  (fetch_remarking _).seq fun rows => Keeps.fold (takeGroup_remarking userKeys) rows ∅

theorem takeMember_remarking (userKeys : Keys) (observedAt : String) (entry : String × EntityKey)
    (t : Members) (member : GroupMembership) :
    Remarking (p.takeMember userKeys observedAt entry t member) := by
  unfold IdentityCenterProvider.takeMember
  split
  case h_2 => exact malformed_remarking
  case h_1 id _ =>
    split
    · exact malformed_remarking
    dsimp only
    split
    case h_1 user _ =>
      split
      case h_1 => exact (note_remarking _).seq fun _ => Keeps.result _
      case h_2 userKey _ =>
        split
        · exact malformed_remarking
        · exact Keeps.seq (update_remarking (fun _ => rfl) fun _ => rfl) fun _ => Keeps.result _
    case h_2 => exact (note_remarking _).seq fun _ => Keeps.result _

theorem members_remarking (userKeys groupKeys : Keys) (observedAt : String) :
    Remarking (p.members services userKeys groupKeys observedAt) := by
  refine Keeps.fold (fun t entry => ?_) _ _
  refine (fetch_remarking _).seq fun rows => Keeps.fold (fun t member => ?_) rows t
  exact takeMember_remarking userKeys observedAt entry t member

theorem takeName_remarking (t : Names) (account : OrganizationAccount) :
    Remarking (p.takeName t account) := by
  unfold IdentityCenterProvider.takeName
  split
  case h_2 => exact malformed_remarking
  case h_1 id _ =>
    split
    · exact malformed_remarking
    dsimp only
    split
    case isFalse => exact Keeps.result _
    case isTrue =>
      split
      case h_2 => exact malformed_remarking
      case h_1 name _ => exact Keeps.result _

theorem accountNames_remarking : Remarking (p.accountNames services) := by
  unfold IdentityCenterProvider.accountNames
  dsimp only
  split
  case isFalse => exact Keeps.result _
  case isTrue =>
    refine (fetch_remarking _).seq fun rows => ?_
    refine (Keeps.fold takeName_remarking rows _).seq fun t => ?_
    refine Keeps.seq (Keeps.forM (fun id => ?_) _) fun _ => Keeps.result _
    split
    · exact Keeps.result _
    · exact note_remarking _

theorem takeAssignment_remarking (userKeys groupKeys : Keys) (observedAt : String) (target : Target)
    (grants : Std.ExtTreeSet String) (assignment : AccountAssignment) :
    Remarking (p.takeAssignment userKeys groupKeys observedAt target grants assignment) := by
  unfold IdentityCenterProvider.takeAssignment
  split
  · exact malformed_remarking
  split
  case h_2 => exact malformed_remarking
  case h_1 id _ =>
    split
    case h_1 => exact (note_remarking _).seq fun _ => Keeps.result _
    case h_2 subject _ =>
      dsimp only
      split
      · exact malformed_remarking
      · exact Keeps.seq (update_remarking (fun _ => rfl) fun _ => rfl) fun _ => Keeps.result _

theorem takePermission_remarking (userKeys groupKeys : Keys) (observedAt account : String)
    (t : Permissions) (arn : String) :
    Remarking (p.takePermission services userKeys groupKeys observedAt account t arn) := by
  unfold IdentityCenterProvider.takePermission
  split
  · exact malformed_remarking
  have described : Remarking (p.describe services arn) := fun _ h => h
  refine described.seq fun answer => ?_
  split
  case h_1 => exact (note_remarking _).seq fun _ => Keeps.result _
  case h_2 => exact malformed_remarking
  case h_3 permission =>
    split
    case h_2 => exact malformed_remarking
    case h_1 name _ =>
      split
      · exact malformed_remarking
      refine Keeps.seq (update_remarking (fun _ => rfl) fun _ => rfl) fun _ => ?_
      refine (fetch_remarking _).seq fun rows => ?_
      refine (Keeps.fold (fun grants row => ?_) rows _).seq fun _ => Keeps.result _
      exact takeAssignment_remarking userKeys groupKeys observedAt _ grants row

theorem takeAccount_remarking (userKeys groupKeys : Keys) (observedAt : String)
    (grants : Std.ExtTreeSet String) (entry : String × String) :
    Remarking (p.takeAccount services userKeys groupKeys observedAt grants entry) := by
  unfold IdentityCenterProvider.takeAccount
  refine Keeps.seq (update_remarking (fun _ => rfl) fun _ => rfl) fun _ => ?_
  refine (fetch_remarking _).seq fun rows => ?_
  refine (Keeps.fold (fun t arn => ?_) rows _).seq fun _ => Keeps.result _
  exact takePermission_remarking userKeys groupKeys observedAt entry.1 t arn

/-- **A collection keeps its remarks.** -/
theorem gather_remarking (observedAt : String) : Remarking (p.gather services observedAt) := by
  unfold IdentityCenterProvider.gather
  refine prove_remarking.seq fun _ => users_remarking.seq fun userKeys => ?_
  refine (groups_remarking userKeys).seq fun groupKeys => ?_
  refine (members_remarking userKeys groupKeys observedAt).seq fun _ => ?_
  refine accountNames_remarking.seq fun names => ?_
  refine (Keeps.fold (fun grants entry => ?_) _ _).seq fun _ => Keeps.result _
  exact takeAccount_remarking userKeys groupKeys observedAt grants entry

/-! ## References -/

theorem Emitted.denotes {s : Snapshot} {subject : Subject} (h : Emitted s subject) :
    s.Denotes subject := by
  cases subject with
  | account key => exact h
  | group key => exact h

/-- **What is gathered is closed under reference.** -/
theorem Gathered.integral {r : Run} (h : Gathered p r) : r.snapshot.Integral where
  members m mem := by
    obtain ⟨-, member, group⟩ := h.sound.memberships m mem
    exact ⟨member.denotes, group.denotes⟩
  claims g mem := by
    obtain ⟨-, -, -, -, -, -, target, subject⟩ := h.sound.grants g mem
    exact ⟨subject.denotes, target⟩
  parents x mem k parent := by
    obtain ⟨account, allowed, ⟨name, rfl⟩ | ⟨arn, -, -, -, under⟩⟩ := h.sound.resources x mem
    · cases parent
    · rw [under] at parent
      cases parent
      exact (h.surveyed.accounts account allowed).2
  accountsOnce := h.unique.accounts
  resourcesOnce := h.unique.resources
  groupsOnce := h.unique.groups
  grantsOnce := h.unique.grants

/-- A resource without a parent is an account, and so is the one above any other. -/
theorem Gathered.nested {r : Run} (h : Gathered p r) {x : Resource} (mem : x ∈ r.snapshot.resources) :
    (x.parent = none → x.kind = some "aws.account") ∧ ∀ k ∈ x.parent,
      ∃ above ∈ r.snapshot.resources, above.key = k ∧ above.kind = some "aws.account" ∧
        above.parent = none := by
  obtain ⟨account, allowed, ⟨name, rfl⟩ | ⟨arn, -, -, -, under⟩⟩ := h.sound.resources x mem
  · exact ⟨fun _ => rfl, fun k parent => by cases parent⟩
  · refine ⟨fun root => ?_, fun k parent => ?_⟩
    · rw [under] at root
      cases root
    · rw [under] at parent
      cases parent
      obtain ⟨above, there, key⟩ := (h.surveyed.accounts account allowed).2
      refine ⟨above, there, key, ?_⟩
      -- The key of an account is not that of a permission set.
      obtain ⟨_, -, ⟨name, rfl⟩ | ⟨arn, -, -, other, -⟩⟩ := h.sound.resources above there
      · exact ⟨rfl, rfl⟩
      · rw [other] at key
        exact absurd (key_inj (by decide) (by decide) key).1 (by decide)

/-! ## The provider -/

theorem visibility_code : ∀ v ∈ VISIBILITY, Aws.limitationCode VISIBILITY v = "visibility_limited" :=
  fun _ mem => if_pos mem

theorem check_limitations {health : Health} (ok : p.check services = .ok health) :
    health.limitations = VISIBILITY := by
  unfold IdentityCenterProvider.check at ok
  obtain ⟨-, -, ok⟩ := bind_ok ok
  cases ok
  rfl

/-- Without a time nothing is collected. -/
theorem unclocked_fails : Fails (p.unclocked services) :=
  Fails.seq fun _ => Fails.seq fun _ => Fails.seq fun _ => Fails.throw _

variable {K : Crates} {setup : K.SetupSpec} {world : World}

/-- A discovery returns what was gathered at some time, sorted. -/
theorem discover_ok {core : Core} {snapshot : Snapshot}
    (ok : (p.provider core world).discover = .ok snapshot) :
    ∃ observedAt, Gathered p (p.gather world.services observedAt p.start).2 ∧
      snapshot = core.sort (p.gather world.services observedAt p.start).2.snapshot := by
  replace ok := within_ok ok
  split at ok
  · exact absurd ok (unclocked_fails _ snapshot)
  · exact ⟨_, gathered_of_ok ok, (IdentityCenterProvider.collect_ok ok).2⟩

/-- The provider is fair. -/
theorem fair_provider (p : IdentityCenterProvider) :
    Fair (adapter K setup) (p.provider K.core world) := by
  refine .remarks rfl (List.cons_ne_nil _ _) visibility_code (fun _ => Aws.reason_code)
    (fun health ok => check_limitations (within_ok ok)) fun snapshot ok => ?_
  obtain ⟨observedAt, gathered, rfl⟩ := discover_ok ok
  have kept : Remarked (p.gather world.services observedAt p.start).2.snapshot :=
    gather_remarking observedAt p.start (.start _ _ _ rfl rfl)
  exact ⟨gathered.integral.sort K.core, kept.congr rfl rfl⟩

/-- The factory builds no other providers. -/
theorem factory_ok {fromSlice : List UInt8 → Option (WireRequest (adapter K setup))}
    {serializer : Serializer K} {instanceId : String} {configuration : Configuration}
    {credentials : SessionCredentials} {network : Option NetworkContext} {provider : Native.Provider}
    (built : (host K setup world fromSlice serializer).factory instanceId configuration credentials
      network = .ok provider) : ∃ p : IdentityCenterProvider, provider = p.provider K.core world := by
  obtain ⟨p, -, returned⟩ := bind_ok built
  cases returned
  exact ⟨p, rfl⟩

/-- **The resources of a stream** are accounts, and what lies under accounts. -/
structure Nested (events : List (Event K)) : Prop where
  top : ∀ value, .record (.resource value) ∈ events → value.parent = none →
    value.kind = some "aws.account"
  /-- The account above a resource is known by the complete event. -/
  under : ∀ count complete codes, .complete count complete codes ∈ events →
    ∀ value, .record (.resource value) ∈ events → ∀ key ∈ value.parent,
      ∃ account, .record (.resource account) ∈ events ∧ account.key = key ∧
        account.kind = some "aws.account" ∧ account.parent = none

section

variable {fromSlice : List UInt8 → Option (WireRequest (adapter K setup))} {serializer : Serializer K}
  {networkEnabled : Bool} {signals : List Lib.Signal} {m : Lib.Machine (sig (adapter K setup))}

/-- The resources of every session are as those of its snapshot. -/
theorem nested_of_run
    (run : (Native.start (host K setup world fromSlice serializer) networkEnabled).run
      (port (host K setup world fromSlice serializer)) signals = some m) :
    Nested (answers (begun m.link.trace)) where
  top value mem root := by
    obtain ⟨d, provider, snapshot, -, built, returned, entry, there, same⟩ := Session.recorded run mem
    obtain ⟨p, rfl⟩ := factory_ok built
    obtain ⟨observedAt, gathered, rfl⟩ := discover_ok returned
    obtain ⟨x, listed, -, kind, above⟩ := resource_entry there same
    rw [Core.mem_sort_resources] at listed
    rw [kind]
    apply (gathered.nested listed).1
    rwa [above, Option.map_eq_none_iff] at root
  under count complete codes closed value mem key parent := by
    obtain ⟨d, provider, snapshot, -, built, returned, all⟩ := Session.whole run closed
    obtain ⟨p, rfl⟩ := factory_ok built
    obtain ⟨observedAt, gathered, rfl⟩ := discover_ok returned
    obtain ⟨entry, there, same⟩ := (all _).mp mem
    obtain ⟨x, listed, -, -, above⟩ := resource_entry there same.symm
    rw [Core.mem_sort_resources] at listed
    rw [above] at parent
    obtain ⟨k, hk, rfl⟩ := Option.map_eq_some_iff.mp parent
    obtain ⟨account, known, rfl, kind, root⟩ := (gathered.nested listed).2 k hk
    -- All records of the snapshot are in the stream, the account among them.
    have entered : Entry.resource account ∈ (K.core.sort
        (p.gather world.services observedAt p.start).2.snapshot).entries := by
      simpa [Snapshot.entries] using known
    refine ⟨_, (all _).mpr ⟨.resource account, entered, rfl⟩, rfl, kind, ?_⟩
    rw [root]
    rfl

/-- **What a host reads from the Identity Center provider**, in every run of a session and wherever it
is cut off. -/
theorem identity_center_streams
    (run : (Native.start (host K setup world fromSlice serializer) networkEnabled).run
      (port (host K setup world fromSlice serializer)) signals = some m) :
    Streamed (answers (begun m.link.trace)) ∧ Nested (answers (begun m.link.trace)) := by
  refine ⟨Session.streamed (fun instanceId configuration credentials network provider built => ?_) run,
    nested_of_run run⟩
  obtain ⟨p, rfl⟩ := factory_ok built
  exact fair_provider p

end

/-- The services of the sample. -/
def sampleWorld : World where
  services := sampleServices
  builds := true
  now := some "2026-01-01T00:00:00Z"
  inTime := true

/-- A session with one account. -/
def sampleHost : Host (adapter Sample.crates ()) :=
  host Sample.crates () sampleWorld
    (Sample.decoding (adapter Sample.crates ()) sample.config
      (⟨"ASIATEST1234567890123", "SYNTHETIC_SECRET", "SYNTHETIC_SESSION"⟩ : SessionCredentials))
    Sample.brief

/-- The whole answer of a discovery: a user, the account, a permission set under it, a group, the
membership, two grants, and the complete event. -/
theorem identity_center_streams_discovery :
    ∃ m, (Native.start sampleHost true).run (port sampleHost) (Sample.discovery 8) = some m ∧
      (answers (begun m.link.trace)).length = 8 ∧ Streamed (answers (begun m.link.trace)) ∧
      Nested (answers (begun m.link.trace)) := by
  have eight : ((Native.start sampleHost true).run (port sampleHost) (Sample.discovery 8)).any
      (fun m => (answers (begun m.link.trace)).length == 8) = true := by decide +kernel
  obtain ⟨m, run, all⟩ := (Option.any_eq_true _ _).mp eight
  exact ⟨m, run, beq_iff_eq.mp all, identity_center_streams run⟩

end Permesh.IdentityCenter

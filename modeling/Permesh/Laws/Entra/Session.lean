import Permesh.Entra.Protocol
import Permesh.Laws.Entra.Observed
import Permesh.Laws.Native.Stream
import Permesh.Lib.Shuffled

/-!
# Laws.Entra.Session — what a session of the Entra provider streams

What a provider says about visibility depends on its configuration; what a collection has missed is
told in words with a colon. There are accounts, groups and memberships, and each part of a collection
leaves it so (`Keeping`). So every session of the provider is streamed well (`entra_streams`).

An account and its identity are two records, and the identities are sent behind the accounts. Both are
in every stream with its complete event (`Identified`); a stream that was cut off may show an account
alone.
-/

namespace Permesh.Entra

open Permesh.Lib Permesh.Native

variable {p : Provider}

/-! ## Remarks -/

/-- All texts on visibility. -/
def texts : List String :=
  VISIBILITY ++ ["Entra service-principal inventory is disabled by configuration."]

theorem texts_plain : ∀ v ∈ texts, 58 ∉ Text.asBytes v := by decide +kernel

theorem limitations_texts {v : String} (mem : v ∈ p.limitations) : v ∈ texts := by
  rcases List.mem_append.mp mem with mem | mem
  · exact List.mem_append_left _ mem
  · split at mem
    · cases mem
    · exact List.mem_append_right _ mem

/-- The remarks of a snapshot. -/
abbrev Remarked (p : Provider) (s : Snapshot) : Prop := Remarks p.limitations (· ∉ texts) s

theorem Remarked.missed {s : Snapshot} (h : Remarked p s) (code : String) :
    Remarked p (missed s code) := by
  have noted : ∃ message ∉ texts, Entra.missed s code = { s with
      complete := false
      limitations := if s.limitations.any (· == message) then s.limitations
        else s.limitations ++ [message] } := by
    refine ⟨_, ?_, rfl⟩
    split <;> exact fun mem => texts_plain _ mem (by decide +kernel)
  obtain ⟨message, apart, eq⟩ := noted
  rw [eq]
  refine Remarks.fail h apart (fun v mem other => other (limitations_texts mem)) rfl ?_
  exact if_congr (by simp) rfl rfl

/-! ## Collections -/

/-- A collection with its remarks, and without resources. -/
structure Bare (p : Provider) (c : Collection) : Prop where
  remarked : Remarked p c.snapshot
  resources : c.snapshot.resources = []
  grants : c.snapshot.grants = []

theorem Bare.missed {c : Collection} (h : Bare p c) (code : String) : Bare p (c.missed code) :=
  ⟨h.remarked.missed code, h.resources, h.grants⟩

/-- **A part of the collection that leaves it so**, also where it fails. -/
abbrev Keeping (p : Provider) {α : Type} (x : Op α) : Prop := Keeps (Bare p) x.run

theorem proveTenant_keeping : Keeping p p.proveTenant := by
  intro c h
  obtain ⟨wire, frame, -⟩ := proveTenant_frame (p := p) c
  show Bare p (p.proveTenant c).2
  rw [frame]
  exact ⟨h.remarked, h.resources, h.grants⟩

theorem visit_keeping (scope : Scope) (path : String) (select : Option String) :
    Keeping p (p.visit scope path select) := by
  intro c h
  show Bare p (p.visit scope path select c).2
  unfold Provider.visit
  split
  · exact h
  · dsimp only
    split
    · exact ⟨h.remarked.missed _, h.resources, h.grants⟩
    · exact ⟨h.remarked, h.resources, h.grants⟩

/-- A list whose rows are taken one after another. -/
theorem rows_keeping {α : Type} {step : Collection → α → Collection} {x : Op (List α)}
    (first : Keeping p x) (each : ∀ c a, Bare p c → Bare p (step c a)) :
    Keeping p (do let rows ← x; modify fun c => rows.foldl step c) := by
  refine Keeps.seq first fun rows => Keeps.update fun c h => ?_
  exact List.foldlRecOn (motive := Bare p) rows step h fun c h a _ => each c a h

theorem takeAccount_bare (service : Bool) (c : Collection) (o : Object) (h : Bare p c) :
    Bare p (p.takeAccount service c o) := by
  unfold Provider.takeAccount
  split
  · exact h.missed _
  · split
    · exact h.missed _
    · exact ⟨h.remarked.congr rfl rfl, h.resources, h.grants⟩

theorem directory_keeping (service : Bool) : Keeping p (p.directory service) := by
  unfold Provider.directory
  split <;> exact rows_keeping (visit_keeping _ _ _) (takeAccount_bare service)

theorem takeGroup_bare (c : Collection) (o : Object) (h : Bare p c) : Bare p (p.takeGroup c o) := by
  unfold Provider.takeGroup
  split
  · exact h.missed _
  · exact ⟨h.remarked.congr rfl rfl, h.resources, h.grants⟩

theorem groupDirectory_keeping : Keeping p p.groupDirectory :=
  rows_keeping (visit_keeping _ _ _) takeGroup_bare

theorem takeMember_bare (observedAt : String) (group : Group) (c : Collection) (o : Object)
    (h : Bare p c) : Bare p (p.takeMember observedAt group c o) := by
  unfold Provider.takeMember
  split
  · split
    · exact h
    · exact ⟨h.remarked.congr rfl rfl, h.resources, h.grants⟩
  · exact h
  · exact h.missed _

/-- **A collection keeps its remarks.** -/
theorem gather_keeping (observedAt : String) : Keeping p (p.gather observedAt) := by
  have members : Keeping p (do (← get).groups.toList.forM (p.members observedAt) : Op Unit) := by
    refine Keeps.seq (fun _ h => h) fun c => Keeps.forM (fun entry => ?_) _
    exact rows_keeping (visit_keeping _ _ _) (takeMember_bare observedAt entry.2)
  have rest := groupDirectory_keeping.seq fun _ => members
  unfold Provider.gather
  refine proveTenant_keeping.seq fun _ => (directory_keeping false).seq fun _ => ?_
  split
  · exact (directory_keeping true).seq fun _ => rest
  · exact rest

/-! ## References -/

/-- **What is collected is closed under reference.** -/
theorem Observed.integral {visits : List Visit} {kept : List AccountRow}
    {pairs : List (Identity × Account)} {groups : List Object} {s : Snapshot}
    (h : Observed p visits kept pairs groups s) (resources : s.resources = [])
    (grants : s.grants = []) : s.Integral := by
  have keys : (pairs.map fun pair => pair.2.key) =
      kept.map fun row => objectKey p.id p.tenantId row.2.id := by
    have matched := h.matched
    clear h
    induction matched with
    | nil => rfl
    | cons pair _ ih => rw [List.map_cons, List.map_cons, pair.account, ih]
  have account {o : Object} (mem : (false, o) ∈ kept) :
      s.Denotes (.account (objectKey p.id p.tenantId o.id)) := by
    have there : objectKey p.id p.tenantId o.id ∈ pairs.map fun pair => pair.2.key := by
      rw [keys]
      exact List.mem_map.mpr ⟨_, mem, rfl⟩
    obtain ⟨pair, mem, key⟩ := List.mem_map.mp there
    exact ⟨pair.2, h.accounts.mem_iff.mpr (List.mem_map_of_mem mem), key⟩
  have group {o : Object} (mem : o ∈ groups) : s.Denotes (.group (groupKey p.id p.tenantId o.id)) :=
    ⟨toGroup p o, h.shown.mem_iff.mpr (List.mem_map_of_mem mem), rfl⟩
  obtain ⟨accountsOnce, groupsOnce, -⟩ := List.nodup_append.mp h.once
  constructor
  · intro m mem
    obtain ⟨member, ⟨o, mem', into⟩, -⟩ := h.joins m mem
    refine ⟨?_, into ▸ group mem'⟩
    cases subject : m.member with
    | account key =>
      rw [subject] at member
      obtain ⟨o, mem, rfl⟩ := member
      exact account mem
    | group key =>
      rw [subject] at member
      obtain ⟨o, mem, rfl⟩ := member
      exact group mem
  · intro g mem
    rw [grants] at mem
    cases mem
  · intro r mem
    rw [resources] at mem
    cases mem
  · apply (h.accounts.map _).nodup_iff.mpr
    rw [List.map_map]
    change (pairs.map fun pair => pair.2.key).Nodup
    rw [keys]
    have once := accountsOnce.map (f := objectKey p.id p.tenantId) fun _ _ => objectKey_inj
    rwa [List.map_map] at once
  · rw [resources]
    exact List.nodup_nil
  · apply (h.shown.map _).nodup_iff.mpr
    rw [List.map_map]
    have once := groupsOnce.map (f := groupKey p.id p.tenantId) fun _ _ => groupKey_inj
    rwa [List.map_map] at once
  · rw [grants]
    exact List.nodup_nil

/-! ## The provider -/

theorem visibility_code {v : String} (mem : v ∈ texts) : limitationCode v = "visibility_limited" := by
  unfold limitationCode
  split
  case h_5 =>
    refine if_pos ((List.mem_append.mp mem).imp_right fun mem => ?_)
    exact List.mem_singleton.mp mem
  all_goals exact absurd (by decide +kernel) (texts_plain _ mem)

theorem reason_code {v : String} (apart : v ∉ texts) : limitationCode v ≠ "visibility_limited" := by
  unfold limitationCode
  split
  case h_5 =>
    rw [if_neg fun here => apart (List.mem_append.mpr (here.imp_right List.mem_singleton.mpr))]
    decide
  all_goals decide

theorem check_limitations {health : Health} (ok : p.check = .ok health) :
    health.limitations = p.limitations := by
  unfold Provider.check at ok
  obtain ⟨-, -, ok⟩ := bind_ok ok
  cases ok
  rfl

variable {K : Crates} {setup : K.SetupSpec} {world : World}

/-- Without a time nothing is collected. -/
theorem unclocked_fails : Fails p.unclocked := by
  have last : Fails (do p.groupDirectory; throw (error "malformed") : Op Snapshot) :=
    Fails.seq fun _ => Fails.throw _
  unfold Provider.unclocked
  refine Fails.seq fun _ => Fails.seq fun _ => ?_
  split
  · exact Fails.seq fun _ => last
  · exact last

/-- A discovery returns what was collected at some time. -/
theorem discover_ok {core : Core} {snapshot : Snapshot}
    (ok : (p.provider core world).discover = .ok snapshot) :
    ∃ observedAt c, p.gather observedAt (p.start .fresh) = (.ok (), c) ∧
      Bare p c ∧ snapshot = core.sort c.snapshot := by
  replace ok := within_ok ok
  split at ok
  · exact absurd ok (unclocked_fails _ snapshot)
  case h_2 observedAt _ =>
    have bare : Bare p (p.gather observedAt (p.start .fresh)).2 :=
      gather_keeping observedAt _ ⟨.start _ _ _ rfl rfl, rfl, rfl⟩
    unfold Provider.collect at ok
    split at ok
    · cases ok
    case h_2 c ran =>
      rw [ran] at bare
      dsimp only at ok
      split at ok <;> cases ok
      exact ⟨observedAt, c, ran, bare, rfl⟩

/-- The provider is fair. -/
theorem fair_provider (p : Provider) : Fair (adapter K setup) (p.provider K.core world) := by
  have some : p.limitations ≠ [] := List.append_ne_nil_of_left_ne_nil (List.cons_ne_nil _ _) _
  refine .remarks rfl some (fun v mem => visibility_code (limitations_texts mem))
    (fun _ => reason_code) (fun health ok => check_limitations (within_ok ok)) fun snapshot ok => ?_
  obtain ⟨observedAt, c, ran, bare, rfl⟩ := discover_ok ok
  obtain ⟨_, _, _, _, gathered⟩ := gather_yields observedAt .fresh _ _ c rfl ran
  refine ⟨(gathered.observed K.core).integral ?_ ?_, bare.remarked.congr rfl rfl⟩
  · exact List.eq_nil_iff_forall_not_mem.mpr fun r mem => by
      rw [Core.mem_sort_resources, bare.resources] at mem
      cases mem
  · exact List.eq_nil_iff_forall_not_mem.mpr fun g mem => by
      rw [Core.mem_sort_grants, bare.grants] at mem
      cases mem

/-- The factory builds no other providers. -/
theorem factory_ok {fromSlice : List UInt8 → Option (WireRequest (adapter K setup))}
    {serializer : Serializer K} {instanceId : String} {configuration : Configuration}
    {credentials : Credentials} {network : Option NetworkContext} {provider : Native.Provider}
    (built : (host K setup world fromSlice serializer).factory instanceId configuration credentials
      network = .ok provider) : ∃ p : Provider, provider = p.provider K.core world := by
  obtain ⟨p, -, returned⟩ := bind_ok built
  cases returned
  exact ⟨p, rfl⟩

/-- The records of an object: an account, and the identity of the same id. -/
structure SameObject (account : Wire.Account) (identity : Wire.Identity) : Prop where
  ids : ∃ tenant id : String, account.key.id = s!"object:{tenant}:{id}" ∧
    identity.id = s!"entra:{tenant}:{id}"
  kind : identity.kind = account.kind
  affiliation : identity.affiliation = account.affiliation
  status : identity.status = account.status

/-- **Every account of a stream with its complete event has its identity** in the stream. -/
def Identified (events : List (Event K)) : Prop :=
  ∀ count complete codes, .complete count complete codes ∈ events →
    ∀ account, .record (.account account) ∈ events →
      ∃ identity, .record (.identity identity) ∈ events ∧ SameObject account identity

/-- An account that is observed comes with an identity. -/
theorem Observed.identified {visits : List Visit} {kept : List AccountRow}
    {pairs : List (Identity × Account)} {groups : List Object} {s : Snapshot}
    (h : Observed p visits kept pairs groups s) {a : Account} (mem : a ∈ s.accounts) :
    ∃ i ∈ s.identities, ∃ id, PairOf p id (i, a) := by
  obtain ⟨pair, there, rfl⟩ := List.mem_map.mp (h.accounts.mem_iff.mp mem)
  obtain ⟨row, -, pairOf⟩ := exists_read h.matched there
  exact ⟨pair.1, h.identities.mem_iff.mpr (List.mem_map_of_mem there), row.2.id, pairOf⟩

/-- The records of such a pair. -/
theorem PairOf.sameObject {id : String} {i : Identity} {a : Account} (h : PairOf p id (i, a))
    {account : Wire.Account} {identity : Wire.Identity} (shown : Records.account a = .account account)
    (paired : Records.identity i = .identity identity) : SameObject account identity := by
  cases shown
  cases paired
  constructor
  · exact ⟨p.tenantId, id, congrArg EntityKey.id h.account, h.identity⟩
  · exact congrArg Records.identityKind h.kind
  · exact congrArg Records.affiliation h.affiliation
  · exact congrArg Records.identityStatus h.status

section

variable {fromSlice : List UInt8 → Option (WireRequest (adapter K setup))} {serializer : Serializer K}
  {networkEnabled : Bool} {signals : List Lib.Signal} {m : Lib.Machine (sig (adapter K setup))}

theorem identified_of_run
    (run : (Native.start (host K setup world fromSlice serializer) networkEnabled).run
      (port (host K setup world fromSlice serializer)) signals = some m) :
    Identified (answers (begun m.link.trace)) := by
  intro count complete codes closed account mem
  obtain ⟨d, provider, snapshot, -, built, returned, all⟩ := Session.whole run closed
  obtain ⟨p, rfl⟩ := factory_ok built
  obtain ⟨observedAt, c, ran, -, rfl⟩ := discover_ok returned
  obtain ⟨_, _, _, _, gathered⟩ := gather_yields observedAt .fresh _ _ c rfl ran
  obtain ⟨entry, there, same⟩ := (all _).mp mem
  cases entry with
  | account a =>
    have listed : a ∈ (K.core.sort c.snapshot).accounts := by simpa [Snapshot.entries] using there
    obtain ⟨i, shown, id, pair⟩ := (gathered.observed K.core).identified listed
    have entered : Entry.identity i ∈ (K.core.sort c.snapshot).entries := by
      simpa [Snapshot.entries] using shown
    exact ⟨_, (all _).mpr ⟨.identity i, entered, rfl⟩, pair.sameObject same rfl⟩
  | _ => cases same

/-- **What a host reads from the Entra provider**, in every run of a session and wherever it is cut
off. -/
theorem entra_streams
    (run : (Native.start (host K setup world fromSlice serializer) networkEnabled).run
      (port (host K setup world fromSlice serializer)) signals = some m) :
    Streamed (answers (begun m.link.trace)) ∧ Identified (answers (begun m.link.trace)) := by
  refine ⟨Session.streamed (fun instanceId configuration credentials network provider built => ?_) run,
    identified_of_run run⟩
  obtain ⟨p, rfl⟩ := factory_ok built
  exact fair_provider p

end

def sampleTenant : String := "11111111-1111-1111-1111-111111111111"

/-- An object that is only named. -/
def sampleObject (id objectType : String) : Object :=
  ⟨id, some "name", none, none, none, none, some objectType⟩

def sampleUser : Object := sampleObject "22222222-2222-2222-2222-222222222222" graphUser
def sampleGroup : Object := sampleObject "33333333-3333-3333-3333-333333333333" graphGroup

/-- A tenant with a user in a group, which is a member of itself. -/
def sampleWorld : World where
  crate := sampleClient.crate
  net := {
    server := fun request => .answered ⟨200, [], none, [[UInt8.ofNat request]], false⟩
    decode := fun _ => some .null }
  decodePage := fun bytes => match bytes with
    | [1] => some ⟨[sampleObject sampleTenant "organization"], none⟩
    | [2] => some ⟨[sampleUser], none⟩
    | [3] => some ⟨[sampleGroup], none⟩
    | _ => some ⟨[sampleUser, sampleGroup], none⟩
  builds := true
  now := some "2026-01-01T00:00:00Z"
  inTime := true

/-- A session with one tenant. -/
def sampleHost : Host (adapter Sample.crates ()) :=
  host Sample.crates () sampleWorld
    (Sample.decoding (adapter Sample.crates ()) (⟨sampleTenant, false⟩ : Configuration)
      (⟨"token"⟩ : Credentials))
    Sample.brief

/-- The whole answer of a discovery: an account, its identity, a group, two memberships, and the
complete event. -/
theorem entra_streams_discovery :
    ∃ m, (Native.start sampleHost true).run (port sampleHost) (Sample.discovery 6) = some m ∧
      (answers (begun m.link.trace)).length = 6 ∧ Streamed (answers (begun m.link.trace)) ∧
      Identified (answers (begun m.link.trace)) := by
  have six : ((Native.start sampleHost true).run (port sampleHost) (Sample.discovery 6)).any
      (fun m => (answers (begun m.link.trace)).length == 6) = true := by decide +kernel
  obtain ⟨m, run, all⟩ := (Option.any_eq_true _ _).mp six
  exact ⟨m, run, beq_iff_eq.mp all, entra_streams run⟩

end Permesh.Entra

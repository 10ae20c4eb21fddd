import Permesh.Laws.IdentityCenter.Collected

/-!
# Laws.IdentityCenter.Confined — the approved scope is not left

No request but those of the proof is made unless the scope was proved, and a snapshot shows what lies
within the scope (`collect_scoped`): allowlisted accounts, permission sets of the instance under them,
and assignments and memberships of principals that are shown. The organization adds nothing to it.

What the parts ensure is read off at the end of a run. The services are arbitrary, and the scope is the
configured one, proved once at the start of the run; that it stays the caller's is not checked again.
-/

namespace Permesh.IdentityCenter

variable {p : IdentityCenterProvider} {log : List Step} {s : Snapshot}

/-! ## Sorting -/

theorem emitted_sort (core : Core) {subject : Subject} :
    Emitted (core.sort s) subject ↔ Emitted s subject := by
  cases subject with
  | account key => simp [Emitted]
  | group key => simp [Emitted]

theorem Sound.sort (h : Sound p log s) (core : Core) : Sound p log (core.sort s) := by
  constructor
  · simpa using h.accounts
  · simpa using h.groups
  · simpa only [Joined, Core.mem_sort_memberships, emitted_sort] using h.memberships
  · simpa using h.resources
  · simpa only [Granted, Core.mem_sort_grants, Core.mem_sort_resources, emitted_sort] using h.grants

theorem Unique.sort (h : Unique s) (core : Core) : Unique (core.sort s) where
  accounts := ((core.accounts_perm _).map _).nodup_iff.mpr h.accounts
  groups := ((core.groups_perm _).map _).nodup_iff.mpr h.groups
  resources := ((core.resources_perm _).map _).nodup_iff.mpr h.resources
  memberships := ((core.memberships_perm _).map _).nodup_iff.mpr h.memberships
  grants := ((core.grants_perm _).map _).nodup_iff.mpr h.grants

/-! ## Keys -/

/-- The key of a record has the kind of the record. -/
theorem Owned.kind {x : Resource} (h : Owned p log x) :
    ∃ kind ∈ ["aws-account", "permission-set-assignment"], ∃ id, x.key = p.key kind id := by
  obtain ⟨account, -, ⟨name, rfl⟩ | ⟨arn, -, -, key, -⟩⟩ := h
  · exact ⟨"aws-account", by decide, account, rfl⟩
  · exact ⟨"permission-set-assignment", by decide, _, key⟩

/-- The keys of all records. -/
def recordKeys (s : Snapshot) : List EntityKey :=
  s.accounts.map (·.key) ++ s.groups.map (·.key) ++ s.resources.map (·.key)

/-- No two records of any kind have the same key. -/
theorem Sound.once (h : Sound p log s) (unique : Unique s) : (recordKeys s).Nodup := by
  have account : ∀ k ∈ s.accounts.map (·.key), ∃ id, k = p.key "user" id := by
    intro k mem
    obtain ⟨a, there, rfl⟩ := List.mem_map.mp mem
    obtain ⟨row, -, ok⟩ := h.accounts a there
    exact ⟨_, user_key ok⟩
  have group : ∀ k ∈ s.groups.map (·.key), ∃ id, k = p.key "group" id := by
    intro k mem
    obtain ⟨g, there, rfl⟩ := List.mem_map.mp mem
    obtain ⟨row, -, ok⟩ := h.groups g there
    exact ⟨_, group_key ok⟩
  refine List.nodup_append.mpr ⟨List.nodup_append.mpr ⟨unique.accounts, unique.groups, ?_⟩,
    unique.resources, ?_⟩
  · intro k mem k' mem' same
    obtain ⟨id, rfl⟩ := account k mem
    obtain ⟨id', rfl⟩ := group k' mem'
    exact absurd (key_inj (by decide) (by decide) same).1 (by decide)
  · intro k mem k' mem' same
    obtain ⟨x, there, rfl⟩ := List.mem_map.mp mem'
    obtain ⟨kind, kinds, id', key⟩ := (h.resources x there).kind
    rw [key] at same
    have other : kind ∈ IdentityCenter.kinds ∧ "user" ≠ kind ∧ "group" ≠ kind := by
      simp only [List.mem_cons, List.not_mem_nil, or_false] at kinds
      rcases kinds with rfl | rfl <;> decide
    rcases List.mem_append.mp mem with mem | mem
    · obtain ⟨id, rfl⟩ := account k mem
      exact other.2.1 (key_inj (by decide) other.1 same).1
    · obtain ⟨id, rfl⟩ := group k mem
      exact other.2.2 (key_inj (by decide) other.1 same).1

/-! ## The collection -/

/-- What a snapshot shows lies within the scope, and nothing is shown twice. -/
structure Confined (p : IdentityCenterProvider) (log : List Step) (s : Snapshot) : Prop where
  sound : Sound p log s
  keys : (recordKeys s).Nodup
  memberships : (s.memberships.map fun m => (m.member, m.group)).Nodup
  grants : (s.grants.map (·.id)).Nodup

variable {services : Services}

/-- What a collection leads to. -/
theorem gather_post (p : IdentityCenterProvider) (services : Services) (observedAt : String) :
    Lib.Post (fun _ => Gathered p) (fun r => Guarded p r.log) (p.gather services observedAt p.start).1
      (p.gather services observedAt p.start).2 :=
  gather_ensures observedAt p.start rfl

theorem collect_guarded (p : IdentityCenterProvider) (services : Services) (core : Core)
    (observedAt : String) : Guarded p (p.collect services core observedAt).2 := by
  have post := gather_post p services observedAt
  rw [p.collect_log]
  cases result : (p.gather services observedAt p.start).1 with
  | error e =>
    rw [result] at post
    exact post
  | ok =>
    rw [result] at post
    exact post.scope.guarded

theorem gathered_of_ok {core : Core} {observedAt : String}
    (ok : (p.collect services core observedAt).1 = .ok s) :
    Gathered p (p.gather services observedAt p.start).2 := by
  have post := gather_post p services observedAt
  rw [(IdentityCenterProvider.collect_ok ok).1] at post
  exact post

/-- **The scope**, whatever the services answer. -/
theorem collect_scoped (p : IdentityCenterProvider) (services : Services) (core : Core)
    (observedAt : String) :
    Guarded p (p.collect services core observedAt).2 ∧
      (∀ s, (p.collect services core observedAt).1 = .ok s →
        Confined p (p.collect services core observedAt).2 s) ∧
      ∀ services', SameButAccounts services services' →
        Undisturbed (p.collect services core observedAt) (p.collect services' core observedAt) := by
  refine ⟨collect_guarded p services core observedAt, fun s ok => ?_, fun services' same =>
    collect_alike core observedAt same⟩
  obtain ⟨scope, sound, unique, -⟩ := gathered_of_ok ok
  obtain ⟨-, rfl⟩ := IdentityCenterProvider.collect_ok ok
  rw [p.collect_log]
  have unique := unique.sort core
  exact ⟨sound.sort core, (sound.sort core).once unique, unique.memberships, unique.grants⟩

/-! ## A sample -/

def sampleInstance : String := "arn:aws:sso:::instance/ssoins-1234567890123456"
def samplePermission : String :=
  "arn:aws:sso:::permissionSet/ssoins-1234567890123456/ps-1234567890123456"
def sampleUser : String := "11111111-1111-1111-1111-111111111111"
def sampleGroup : String := "22222222-2222-2222-2222-222222222222"

def sample : IdentityCenterProvider where
  id := "center"
  config := {
    accountId := "111111111111"
    region := "eu-west-1"
    instanceArn := sampleInstance
    identityStoreId := "d-1234567890"
    accounts := ["222222222222"]
    includeOrganizations := true
    callerRole := none }
  credentials := ⟨"ASIATEST1234567890123", "SYNTHETIC_SECRET", some "SYNTHETIC_SESSION"⟩
  valid := by decide +kernel

/-- Two pages of users, and an account of the organization that is not allowlisted. -/
def sampleServices : Services where
  getCallerIdentity :=
    .ok ⟨some "111111111111", some "arn:aws:sts::111111111111:assumed-role/Review/test"⟩
  list _ q request := .ok <| match q with
    | .instances => ⟨[⟨some sampleInstance, some "d-1234567890"⟩], none⟩
    | .users _ =>
      if request.nextToken = none then ⟨[], some "next"⟩
      else ⟨[⟨"d-1234567890", sampleUser, some "review-user", none, some "DISABLED"⟩], none⟩
    | .groups _ => ⟨[⟨"d-1234567890", sampleGroup, some "Reviewers"⟩], none⟩
    | .groupMemberships _ _ =>
      ⟨[⟨"d-1234567890", some "33333333-3333-3333-3333-333333333333", some sampleGroup,
        some (.userId sampleUser)⟩], none⟩
    | .accounts =>
      ⟨[⟨some "222222222222", some "Reviewed account"⟩, ⟨some "333333333333", some "Other"⟩], none⟩
    | .permissionSets _ _ => ⟨[samplePermission], none⟩
    | .accountAssignments _ _ _ =>
      ⟨[⟨some "222222222222", some samplePermission, some sampleGroup, some "GROUP"⟩,
        ⟨some "222222222222", some samplePermission, some sampleUser, some "USER"⟩], none⟩
  describePermissionSet _ _ _ := .ok (some ⟨some "AdministratorAccess", some samplePermission⟩)

/-- The collection of the sample. -/
def sampleOutcome : Except ProviderError Snapshot × List Step :=
  sample.collect sampleServices Core.plain "2026-01-01T00:00:00Z"

theorem sampleOutcome_ok : ∃ s, sampleOutcome.1 = .ok s ∧ s.complete = true ∧
    s.grants.length = 2 := by
  have shown : sampleOutcome.1.toOption.map (fun s => (s.complete, s.grants.length)) =
      some (true, 2) := by decide +kernel
  obtain ⟨s, ok, eq⟩ := Option.map_eq_some_iff.mp shown
  refine ⟨s, ?_, congrArg Prod.fst eq, congrArg Prod.snd eq⟩
  cases result : sampleOutcome.1 with
  | error e =>
    rw [result] at ok
    cases ok
  | ok t =>
    rw [result] at ok
    cases ok
    rfl

theorem sample_scoped :
    ∃ s, sampleOutcome.1 = .ok s ∧ s.grants.length = 2 ∧ Confined sample sampleOutcome.2 s := by
  obtain ⟨s, ok, -, grants⟩ := sampleOutcome_ok
  exact ⟨s, ok, grants, (collect_scoped sample sampleServices Core.plain _).2.1 s ok⟩

end Permesh.IdentityCenter

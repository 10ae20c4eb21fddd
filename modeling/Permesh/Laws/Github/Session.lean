import Permesh.Github.Protocol
import Permesh.Laws.Github.Closed
import Permesh.Laws.Github.Steps
import Permesh.Laws.Github.Walk
import Permesh.Laws.Native.Remarks
import Permesh.Laws.Native.Stream
import Permesh.Laws.Text

/-!
# Laws.Github.Session — what a session of the GitHub provider streams

Every step of a traversal that leaves something out makes the snapshot incomplete and says why, in a
text with a colon, which the texts on visibility do not have. So the codes and the flag of the
complete event agree, in every run (`github_streams`).

The rule of a traversal carries the remarks as it carries everything else. The provider is arbitrary up
to its client, and so are the responses; the schedule of the session enters in `Session.streamed`
alone.
-/

namespace Permesh.Github

open Permesh.Json Permesh.Http Permesh.Native

/-! ## Remarks -/

/-- The remarks of a collection. -/
abbrev Remarked (c : Collection) : Prop := Remarks VISIBILITY (· ∉ VISIBILITY) c.snapshot

/-- A reason is no text on visibility. -/
theorem reason_apart (endpoint message : String) : s!"GitHub {endpoint}: {message}" ∉ VISIBILITY := by
  have colon : 58 ∈ Text.asBytes ": " := by decide +kernel
  refine text_apart (b := 58) (by decide +kernel) ?_ message
  rw [Text.asBytes_append]
  exact List.mem_append_right _ colon

/-- What a collection does keeps its remarks. -/
abbrev Remarking (c c' : Collection) : Prop := Remarked c → Remarked c'

theorem remarking_fail (c : Collection) (endpoint : String) (failure : ProviderError) :
    Remarking c (c.fail endpoint failure) := fun h =>
  h.fail (reason_apart endpoint failure.message) (fun _ mem apart => apart mem) rfl rfl

theorem remarking_account (c : Collection) (row : Value) : Remarking c (c.account row).2 := by
  have step := account_step c row
  generalize c.account row = result at step ⊢
  cases step with
  | skipped => exact id
  | unread failure => exact remarking_fail c _ failure
  | blocked id failure => exact fun h => remarking_fail (c.blockAccount _) _ failure (h.congr rfl rfl)
  | taken => exact fun h => h.congr rfl rfl

theorem remarking_repository (c : Collection) (row : Value) :
    Remarking c (c.repository row).2 := by
  have step := repository_step c row
  generalize c.repository row = result at step ⊢
  cases step with
  | skipped => exact id
  | unread failure => exact remarking_fail c _ failure
  | blocked id failure => exact fun h => remarking_fail (c.blockResource _) _ failure (h.congr rfl rfl)
  | taken => exact fun h => h.congr rfl rfl

theorem remarking_team (c : Collection) (row : Value) (org : String) :
    Remarking c (c.team row org).2 := by
  have step := team_step c row org
  generalize c.team row org = result at step ⊢
  cases step with
  | skipped => exact id
  | unread failure => exact remarking_fail c _ failure
  | blocked id failure => exact fun h => remarking_fail (c.blockGroup _) _ failure (h.congr rfl rfl)
  | taken => exact fun h => h.congr rfl rfl

theorem remarking_membership (c : Collection) (member : Subject) (group : EntityKey)
    (method : String) : Remarking c (c.membership member group method) := by
  have step := membership_step c member group method
  generalize c.membership member group method = result at step ⊢
  cases step with
  | known => exact id
  | taken => exact fun h => h.congr rfl rfl

theorem remarking_grant (c : Collection) (subject : Subject) (resource : EntityKey) (role : String)
    (privilege : Privilege) (method : String) :
    Remarking c (c.grant subject resource role privilege method) := by
  have step := grant_step c subject resource role privilege method
  generalize c.grant subject resource role privilege method = result at step ⊢
  cases step with
  | known => exact id
  | blocked failure => exact fun h => remarking_fail { c with
      grants := c.grants.erase _, blockedGrants := c.blockedGrants.insert _ } _ failure (h.congr rfl rfl)
  | taken => exact fun h => h.congr rfl rfl

theorem remarking_adopt (c : Collection) (org : String) (organization resource : EntityKey)
    (owner : String) : Remarking c (c.adopt org organization resource owner) := by
  have step := adopt_step c org organization resource owner
  generalize c.adopt org organization resource owner = result at step ⊢
  cases step with
  | foreign => exact id
  | adopted => exact fun h => h.congr rfl rfl

theorem remarking_accept (c : Collection) (endpoint : String) (list : Listing) :
    Remarking c (c.accept endpoint list).2 := by
  unfold Collection.accept
  dsimp only
  split
  · exact fun h => remarking_fail { c with success := _ } _ _ (h.congr rfl rfl)
  · exact fun h => h.congr rfl rfl

theorem remarking_forAccount {c : Collection} {user : Value}
    {claims : EntityKey → Collection → Collection}
    (keeps : ∀ k c', Remarking c' (claims k c')) : Remarking c (c.forAccount user claims) := by
  have first := remarking_account c user
  unfold Collection.forAccount
  generalize c.account user = result at first ⊢
  obtain ⟨found, c'⟩ := result
  cases found with
  | none => exact first
  | some k => exact fun h => keeps k c' (first h)

theorem remarking_permissions (client : Client) (org slug owner name : String) (repo : Value)
    (t : Traversal) :
    Remarking t.state (client.permissions org slug owner name repo t).2.state := by
  unfold Client.permissions
  split
  · exact remarking_fail t.state _ _
  · split
    · dsimp only
      split
      · exact id
      · exact remarking_fail t.state _ _
    · exact remarking_fail t.state _ _

/-- **Every step of a traversal keeps the remarks.** -/
theorem remarking_walk (client : Client) : Walk client (fun _ t t' => Remarking t.state t'.state)
    (fun _ _ => True) (fun _ _ => True) (fun _ _ => True) where
  refl _ h := h
  trans h h' remarked := h' (h remarked)
  le _ h := h
  organizationStays _ _ := trivial
  teamStays _ _ := trivial
  repositoryStays _ _ := trivial
  fail t endpoint failure := remarking_fail t.state endpoint failure
  object _ _ h := h
  permissions t org slug owner name repo := remarking_permissions client org slug owner name repo t
  issue _ h remarked := h (remarking_accept _ _ _ remarked)
  enter _ _ _ := ⟨fun h => h.congr rfl rfl, trivial⟩
  memberRow _ _ _ := remarking_forAccount fun _ c' h =>
    remarking_grant _ _ _ _ _ _ (remarking_membership c' _ _ _ h)
  repositoryRow t repo := ⟨remarking_repository t.state repo, fun _ _ => trivial⟩
  adopt _ _ _ _ := remarking_adopt _ _ _ _ _
  teamRow t row org := ⟨remarking_team t.state row org, fun _ _ => trivial⟩
  teamMemberRow _ _ := remarking_forAccount fun _ c' => remarking_membership c' _ _ _
  teamRepositoryRow _ _ _ := remarking_grant _ _ _ _ _ _
  collaboratorRow _ _ := remarking_forAccount fun _ c' => remarking_grant c' _ _ _ _ _

/-! ## Fairness -/

theorem visibility_code : ∀ v ∈ VISIBILITY, limitationCode v = "visibility_limited" :=
  fun _ mem => if_pos mem

theorem reason_code {v : String} (apart : v ∉ VISIBILITY) :
    limitationCode v ≠ "visibility_limited" := by
  unfold limitationCode
  rw [if_neg apart]
  split
  · decide
  · split
    · decide
    · split <;> decide

/-- A closed snapshot of a collection is closed under reference. -/
theorem Closed.integral {c : Collection} {s : Snapshot} (h : Closed c s) : s.Integral := by
  have denotes {subject : Subject} (h : Denotes s subject) : s.Denotes subject := by
    cases subject <;> exact h
  constructor
  · intro m mem
    obtain ⟨member, group⟩ := h.memberships m mem
    exact ⟨denotes member, denotes group⟩
  · intro g mem
    obtain ⟨subject, resource⟩ := h.grants g mem
    exact ⟨denotes subject, resource⟩
  · intro r mem k parent
    obtain ⟨above, there, same, -⟩ := h.parents r mem k parent
    exact ⟨above, there, same⟩
  · exact h.accountsOnce
  · exact h.resourcesOnce
  · exact h.groupsOnce
  · exact h.grantsOnce

/-- What a discovery returns is the sorted graph of its traversal. -/
theorem collect_graph {client : Client} {core : Core} {observedAt : String} {snapshot : Snapshot}
    (ok : client.collect core observedAt = .ok snapshot) :
    snapshot = core.sort (client.traversal observedAt).state.graph := by
  unfold Client.collect Collection.finish at ok
  split at ok
  · cases ok
  · dsimp only at ok
    split at ok
    · cases ok
    · exact (Except.ok.inj ok).symm

theorem check_limitations {client : Client} {health : Health} (ok : client.check.1 = .ok health) :
    health.limitations = VISIBILITY := by
  unfold Client.check at ok
  split at ok
  · cases ok
  · split at ok
    · cases ok
    · split at ok
      · cases ok
      · cases ok
        rfl

variable {K : Crates} {setup : K.SetupSpec} {world : World}

/-- The provider is fair. -/
theorem fair_provider (client : Client) (now : Option String) :
    Native.Fair (adapter K setup) (client.provider K.core now) := by
  refine .remarks rfl (List.cons_ne_nil _ _) visibility_code (fun _ => reason_code)
    (fun health ok => check_limitations ok) fun snapshot ok => ?_
  cases now with
  | none => cases ok
  | some observedAt =>
    rw [collect_graph ok]
    refine ⟨(closed_graph ?_ ?_).integral.sort K.core, ?_⟩
    · exact ((extends_traverse client _ _).grows.sound (sound_new client.id observedAt)).keyed
    · exact ((onward_walk client).traverse _ _).linked (linked_new client.id observedAt)
    · have start : Remarked (Collection.new client.id observedAt) := .start _ _ _ rfl rfl
      have remarked := (remarking_walk client).traverse
        ⟨.new client.id observedAt, ⟨⟨0, 0⟩, [], []⟩, []⟩ client.organizations start
      exact remarked.congr rfl rfl

/-- **What a host reads from the GitHub provider**, in every run of a session and wherever it is cut
off. -/
theorem github_streams {fromSlice : List UInt8 → Option (WireRequest (adapter K setup))}
    {serializer : Serializer K} {networkEnabled : Bool} {signals : List Lib.Signal}
    {m : Lib.Machine (sig (adapter K setup))}
    (run : (start (host K setup world fromSlice serializer) networkEnabled).run
      (port (host K setup world fromSlice serializer)) signals = some m) :
    Streamed (answers (begun m.link.trace)) := by
  refine Session.streamed (fun instanceId configuration credentials network provider built => ?_) run
  obtain ⟨client, -, returned⟩ := Lib.bind_ok built
  cases returned
  exact fair_provider client world.now

/-- A server with one organization and one member. -/
def sampleWorld : World where
  crate := { (sampleClient []).crate with parse := fun _ => some (sampleClient []).origin }
  net := (sampleClient []).net
  clock := fun _ => 0
  rfc2822 := fun _ => none
  builds := true
  now := some "2026-01-01T00:00:00Z"

/-- A session with one organization. -/
def sampleHost : Host (adapter Sample.crates ()) :=
  host Sample.crates () sampleWorld
    (Sample.decoding (adapter Sample.crates ()) (⟨["acme"]⟩ : Configuration) (⟨"token"⟩ : Credentials))
    Sample.brief

/-- The whole answer of a discovery: a member, an organization as resource and as group, a
membership, a grant, and the complete event. -/
theorem github_streams_discovery :
    ∃ m, (start sampleHost true).run (port sampleHost) (Sample.discovery 6) = some m ∧
      (answers (begun m.link.trace)).length = 6 ∧ Streamed (answers (begun m.link.trace)) := by
  have six : ((start sampleHost true).run (port sampleHost) (Sample.discovery 6)).any
      (fun m => (answers (begun m.link.trace)).length == 6) = true := by decide +kernel
  obtain ⟨m, run, all⟩ := (Option.any_eq_true _ _).mp six
  exact ⟨m, run, beq_iff_eq.mp all, github_streams run⟩

end Permesh.Github

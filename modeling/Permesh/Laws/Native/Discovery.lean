import Permesh.Laws.Native.Terminal

/-!
# Laws.Native.Discovery — the records are the sorted snapshot

What `response::operation` sends when nothing interrupts it. Records go out only for a snapshot
that passed all three checks, and a complete frame stands behind all of them: the entries of the
sorted snapshot in order, each one once, and none of their fields is lost (`Entry.decode_project`).

The projection is decoded again field by field, so it loses nothing. An operation that is cut off by a
limit sends an initial part of the same list (`frames_cases`); what a run adds to that is the subject
of `Laws.Native.Spoken`.
-/

namespace Permesh

/-! ## The projection is lossless -/

/-- One entry of a snapshot. -/
inductive Entry where
  | account (value : Account)
  | identity (value : Identity)
  | resource (value : Resource)
  | group (value : Group)
  | membership (value : Membership)
  | grant (value : Grant)
  deriving DecidableEq, Repr

/-- The entries of a snapshot, in the order the runtime sends them. -/
def Snapshot.entries (snapshot : Snapshot) : List Entry :=
  snapshot.accounts.map .account ++ snapshot.identities.map .identity ++
    snapshot.resources.map .resource ++ snapshot.groups.map .group ++
    snapshot.memberships.map .membership ++ snapshot.grants.map .grant

/-- The projection of `records.rs` that fits the entry. -/
def Entry.project : Entry → Wire.Record
  | .account value => Records.account value
  | .identity value => Records.identity value
  | .resource value => Records.resource value
  | .group value => Records.group value
  | .membership value => Records.membership value
  | .grant value => Records.grant value

namespace Wire

def IdentityKind.decode : IdentityKind → Permesh.IdentityKind
  | .human => .human
  | .service => .service
  | .bot => .bot
  | .unknown => .unknown

def IdentityStatus.decode : IdentityStatus → Permesh.IdentityStatus
  | .active => .active
  | .inactive => .inactive
  | .suspended => .suspended
  | .unknown => .unknown

def Affiliation.decode : Affiliation → Permesh.Affiliation
  | .internal => .internal
  | .external => .external
  | .unknown => .unknown

def EvidenceKind.decode : EvidenceKind → Permesh.EvidenceKind
  | .permission => .permission
  | .assignment => .assignment
  | .policyAttachment => .policyAttachment
  | .unknown => .unknown

def Privilege.decode : Privilege → Permesh.Privilege
  | .standard => .standard
  | .elevated => .elevated
  | .admin => .admin
  | .owner => .owner
  | .unknown => .unknown

def Certainty.decode : Certainty → Permesh.Certainty
  | .observed => .observed
  | .derived => .derived
  | .inferred => .inferred
  | .unknown => .unknown

def EntityKey.decode (value : EntityKey) : Permesh.EntityKey := ⟨value.provider, value.id⟩

def Subject.decode : Subject → Permesh.Subject
  | .account key => .account key.decode
  | .group key => .group key.decode

def Provenance.decode (value : Provenance) : Permesh.Provenance :=
  ⟨value.method, value.observedAt⟩

/-- The inverse of the projection. -/
def Record.decode : Record → Entry
  | .account value => .account {
      key := value.key.decode
      login := value.login
      kind := value.kind.decode
      affiliation := value.affiliation.decode
      status := value.status.decode
      verifiedEmails := value.verifiedEmails }
  | .identity value => .identity {
      id := value.id
      kind := value.kind.decode
      affiliation := value.affiliation.decode
      status := value.status.decode
      verifiedEmails := value.verifiedEmails }
  | .resource value => .resource {
      key := value.key.decode
      name := value.name
      kind := value.kind
      parent := value.parent.map EntityKey.decode }
  | .group value => .group { key := value.key.decode, name := value.name }
  | .membership value => .membership {
      member := value.member.decode
      group := value.group.decode
      provenance := value.provenance.decode }
  | .grant value => .grant {
      id := value.id
      subject := value.subject.decode
      resource := value.resource.decode
      role := value.role
      privilege := value.privilege.decode
      certainty := value.certainty.decode
      evidenceKind := value.evidenceKind.decode
      provenance := value.provenance.decode }

end Wire

section Lossless

open Records

@[simp] theorem decode_identityKind (k : IdentityKind) : (identityKind k).decode = k := by
  cases k <;> rfl

@[simp] theorem decode_identityStatus (s : IdentityStatus) : (identityStatus s).decode = s := by
  cases s <;> rfl

@[simp] theorem decode_affiliation (a : Affiliation) : (affiliation a).decode = a := by
  cases a <;> rfl

@[simp] theorem decode_evidenceKind (e : EvidenceKind) : (evidenceKind e).decode = e := by
  cases e <;> rfl

@[simp] theorem decode_privilege (p : Privilege) : (privilege p).decode = p := by
  cases p <;> rfl

@[simp] theorem decode_certainty (c : Certainty) : (certainty c).decode = c := by
  cases c <;> rfl

@[simp] theorem decode_key (k : EntityKey) : (key k).decode = k := rfl

@[simp] theorem decode_subject (s : Subject) : (subject s).decode = s := by
  cases s <;> rfl

@[simp] theorem decode_provenance (p : Provenance) : (provenance p).decode = p := rfl

/-- **No field of an entry is lost**: decoding the projection gives the entry back. -/
theorem Entry.decode_project (entry : Entry) : entry.project.decode = entry := by
  cases entry with
  | resource value =>
    obtain ⟨key, name, kind, parent⟩ := value
    cases parent <;> simp [Entry.project, Records.resource, Wire.Record.decode]
  | _ =>
    simp [Entry.project, Records.account, Records.identity, Records.group, Records.membership,
      Records.grant, Wire.Record.decode]

end Lossless

namespace Native

open Permesh.Lib

variable {K : Crates} {A : Adapter K}

/-! ## The records of an operation -/

theorem records_map {α : Type} (convert : α → Wire.Record) :
    ∀ values : List α,
      (records convert values : JobM (sig A) Unit) = records id (values.map convert)
  | [] => rfl
  | data :: values => by
    rw [List.map_cons, records, records, records_map convert values]
    rfl

theorem records_append :
    ∀ first second : List Wire.Record,
      (records id first >>= fun _ => records id second : JobM (sig A) Unit) =
        records id (first ++ second)
  | [], second => rfl
  | data :: first, second => by
    rw [List.cons_append, records, records, bind_assoc]
    congr 1
    funext _
    exact records_append first second

/-- The six loops of the operation are one loop over all entries. -/
theorem records_entries (snapshot : Snapshot) (last : JobM (sig A) Unit) :
    (do
      records Records.account snapshot.accounts
      records Records.identity snapshot.identities
      records Records.resource snapshot.resources
      records Records.group snapshot.groups
      records Records.membership snapshot.memberships
      records Records.grant snapshot.grants
      last) = (records id (snapshot.entries.map Entry.project) >>= fun _ => last) := by
  have all : snapshot.entries.map Entry.project =
      snapshot.accounts.map Records.account ++ (snapshot.identities.map Records.identity ++
        (snapshot.resources.map Records.resource ++ (snapshot.groups.map Records.group ++
          (snapshot.memberships.map Records.membership ++
            snapshot.grants.map Records.grant)))) := by
    simp [Snapshot.entries, Entry.project, Function.comp_def]
  simp only [all, ← records_append, ← records_map, bind_assoc]

/-- The records go out in order, all of them or up to a limit. -/
theorem records_exec (H : Host A) (k : Except Failure Unit → Job (sig A)) :
    ∀ (values : List Wire.Record) (out : Output),
      (∃ out', (records id values k).exec (port H) out =
        (values.map .record ++ ((k (.ok ())).exec (port H) out').1,
          ((k (.ok ())).exec (port H) out').2)) ∨
      ∃ sent e out', sent <+: values ∧ (records id values k).exec (port H) out =
        (sent.map .record ++ ((k (.error e)).exec (port H) out').1,
          ((k (.error e)).exec (port H) out').2)
  | [], out => .inl ⟨out, rfl⟩
  | data :: values, out => by
    rw [records, JobM.exec_send, id_eq]
    cases (port H).begin out (.record data) with
    | error e => exact .inr ⟨[], e, out, List.nil_prefix, rfl⟩
    | ok pair =>
      obtain ⟨bytes, next⟩ := pair
      rcases records_exec H k values next with ⟨out', h⟩ | ⟨sent, e, out', hp, h⟩
      · exact .inl ⟨out', by simp only [h, List.map_cons, List.cons_append]⟩
      · exact .inr ⟨data :: sent, e, out', List.cons_prefix_cons.mpr ⟨rfl, hp⟩,
          by simp only [h, List.map_cons, List.cons_append]⟩

/-! ## The operation -/

/-- The record that an event carries. -/
def Event.record? : Event K → Option Wire.Record
  | .record value => some value
  | _ => none

/-- The snapshot that the provider returned has passed the checks of `operation`. -/
structure Publishable (K : Crates) (provider : Provider) (instanceId : String)
    (snapshot : Snapshot) : Prop where
  discovered : provider.discover = .ok snapshot
  provider : snapshot.provider = instanceId
  valid : K.core.validate snapshot = true
  count : Snapshot.count snapshot ≤ 100000

/-- The loop over the records with one last event behind it. -/
theorem records_last (H : Host A) (values : List Wire.Record) (last : Event K) (out : Output) :
    (∃ sent, (Job.exec (port H)
      ((records id values >>= fun _ => JobM.send last : JobM (sig A) Unit) .done) out).1 =
        List.map .record sent) ∨
    (Job.exec (port H)
      ((records id values >>= fun _ => JobM.send last : JobM (sig A) Unit) .done) out).1 =
        values.map .record ++ [last] := by
  let rest : Except Failure Unit → Job (sig A) :=
    JobM.follow (fun _ => (JobM.send last : JobM (sig A) Unit)) .done
  have loop := records_exec H rest values out
  rcases loop with ⟨out', h⟩ | ⟨sent, e, out', -, h⟩
  · have ends : (Job.exec (port H) (rest (.ok ())) out').1 = [] ∨
        (Job.exec (port H) (rest (.ok ())) out').1 = [last] := JobM.exec_last
    rcases ends with none | one
    · exact .inl ⟨values, (congrArg Prod.fst h).trans (by rw [none, List.append_nil])⟩
    · exact .inr ((congrArg Prod.fst h).trans (by rw [one]))
  · exact .inl ⟨sent, (congrArg Prod.fst h).trans (List.append_nil _)⟩

/-- What an uninterrupted operation sends. -/
def frames (H : Host A) (provider : Provider) (check : Bool) (instanceId : String)
    (out : Output) : List (Event K) :=
  (Job.exec (port H) (operation A provider check instanceId .done) out).1

theorem Snapshot.count_sort (core : Core) (snapshot : Snapshot) :
    Snapshot.count (core.sort snapshot) = Snapshot.count snapshot := by
  simp only [Snapshot.count, Core.sort, (core.identities_perm _).length_eq,
    (core.accounts_perm _).length_eq, (core.resources_perm _).length_eq,
    (core.groups_perm _).length_eq, (core.memberships_perm _).length_eq,
    (core.grants_perm _).length_eq]

theorem Snapshot.count_entries (snapshot : Snapshot) :
    Snapshot.count snapshot = snapshot.entries.length := by
  simp only [Snapshot.count, Snapshot.entries, List.length_append, List.length_map]
  omega

/-- **What an uninterrupted operation sends**: nothing, a health frame, or, for a snapshot that
passed the checks, its records in order, up to a limit or with the complete frame behind them. -/
theorem frames_cases (H : Host A) (provider : Provider) (check : Bool) (instanceId : String)
    (out : Output) :
    frames H provider check instanceId out = [] ∨
    (∃ limitations, frames H provider check instanceId out = [.health limitations]) ∨
    check = false ∧ ∃ snapshot, Publishable K provider instanceId snapshot ∧
      ((∃ sent, frames H provider check instanceId out = List.map .record sent) ∨
      frames H provider check instanceId out =
        ((K.core.sort snapshot).entries.map Entry.project).map .record ++
          [.complete (Snapshot.count (K.core.sort snapshot)) (K.core.sort snapshot).complete
            (A.limitations (K.core.sort snapshot).limitations)]) := by
  cases check with
  | true =>
    rw [frames, operation, if_pos rfl, JobM.exec_call]
    cases providerError A provider.check with
    | error e => exact .inl rfl
    | ok health =>
      have last : (Job.exec (port H) (JobM.send (.health (A.limitations health.limitations)) .done)
          out).1 = [] ∨ _ := JobM.exec_last
      rcases last with h | h
      · exact .inl h
      · exact .inr (.inl ⟨_, h⟩)
  | false =>
    rw [frames, operation, if_neg Bool.false_ne_true, JobM.exec_call]
    cases discovered : provider.discover with
    | error e => exact .inl rfl
    | ok snapshot =>
      simp only [providerError]
      by_cases hp : snapshot.provider = instanceId
      case neg => rw [if_pos hp]; exact .inl rfl
      rw [if_neg (not_not.mpr hp)]
      by_cases hv : K.core.validate snapshot = false
      case pos => rw [if_pos hv]; exact .inl rfl
      rw [if_neg hv]
      by_cases hc : 100000 < Snapshot.count (K.core.sort snapshot)
      case pos => rw [if_pos hc]; exact .inl rfl
      rw [if_neg hc, records_entries]
      have passed : Publishable K provider instanceId snapshot :=
        ⟨discovered, hp, Bool.not_eq_false _ ▸ hv,
          Nat.le_of_not_lt (Snapshot.count_sort K.core snapshot ▸ hc)⟩
      refine .inr (.inr ⟨trivial, snapshot, passed, ?_⟩)
      exact records_last H _ _ out

/-- **Records and the complete frame.** A record goes out only in a discovery whose snapshot names
the instance, is valid and has at most 100000 entries. When the complete frame goes out, the
records before it are the entries of the sorted snapshot in order, its count is their number, its
flag the snapshot's, and decoding the records gives these entries back. -/
theorem operation_frames (H : Host A) (provider : Provider) (check : Bool) (instanceId : String)
    (out : Output) :
    (∀ record, .record record ∈ frames H provider check instanceId out →
      check = false ∧ ∃ snapshot, Publishable K provider instanceId snapshot) ∧
    ∀ count complete limitations,
      .complete count complete limitations ∈ frames H provider check instanceId out →
      ∃ snapshot, Publishable K provider instanceId snapshot ∧
        frames H provider check instanceId out =
          ((K.core.sort snapshot).entries.map fun entry => .record entry.project) ++
            [.complete count complete limitations] ∧
        count = (K.core.sort snapshot).entries.length ∧
        complete = snapshot.complete ∧
        ((frames H provider check instanceId out).filterMap Event.record?).map
          Wire.Record.decode = (K.core.sort snapshot).entries := by
  rcases frames_cases H provider check instanceId out with
    none | ⟨limits, health⟩ | ⟨discovery, snapshot, passed, ⟨sent, part⟩ | whole⟩
  · rw [none]
    exact ⟨fun _ h => (by cases h), fun _ _ _ h => (by cases h)⟩
  · rw [health]
    exact ⟨fun _ h => (by simp at h), fun _ _ _ h => (by simp at h)⟩
  · rw [part]
    exact ⟨fun _ _ => ⟨discovery, snapshot, passed⟩, fun _ _ _ h => (by simp at h)⟩
  · rw [whole]
    refine ⟨fun _ _ => ⟨discovery, snapshot, passed⟩, fun count complete limitations h => ?_⟩
    simp only [List.map_map, List.mem_append, List.mem_map, reduceCtorEq, Function.comp_apply,
      and_false, exists_false, List.mem_singleton, Event.complete.injEq, false_or] at h
    obtain ⟨rfl, rfl, rfl⟩ := h
    refine ⟨snapshot, passed, by rw [List.map_map]; rfl, Snapshot.count_entries _,
      rfl, ?_⟩
    have records : ∀ entries : List Entry, ((entries.map Entry.project).map
        (Event.record : Wire.Record → Event K)).filterMap Event.record? =
          entries.map Entry.project := by
      intro entries
      simp [List.filterMap_map, Function.comp_def, Event.record?]
    rw [List.filterMap_append, records, List.map_append, List.map_map]
    simp [Function.comp_def, Entry.decode_project, Event.record?]

namespace Sample

/-- An organization with an entry of each kind. -/
def organization : Snapshot where
  provider := "main"
  identities := [⟨"person", .human, .internal, .active, ["octocat@example.com"]⟩]
  accounts := [⟨⟨"main", "u1"⟩, "octocat", .human, .internal, .active, []⟩]
  resources := [⟨⟨"main", "o1"⟩, "acme", some "organization", none⟩]
  groups := [⟨⟨"main", "t1"⟩, "team"⟩]
  memberships := [⟨.account ⟨"main", "u1"⟩, ⟨"main", "t1"⟩, ⟨"list", "2026-01-01T00:00:00Z"⟩⟩]
  grants := [⟨"g1", .group ⟨"main", "t1"⟩, ⟨"main", "o1"⟩, "admin", .admin, .observed, .permission,
    ⟨"list", "2026-01-01T00:00:00Z"⟩⟩]
  complete := true
  limitations := []

/-- A provider that finds it. -/
def provider : Provider := ⟨.ok ⟨"", []⟩, .ok organization⟩

end Sample

/-- The frames of an organization with an entry of each kind. -/
theorem operation_frames_organization :
    ∃ snapshot, Publishable Sample.crates Sample.provider "main" snapshot ∧
      frames Sample.host Sample.provider false "main" .new =
        ((Sample.crates.core.sort snapshot).entries.map fun entry => .record entry.project) ++
          [.complete 6 true []] ∧
      6 = (Sample.crates.core.sort snapshot).entries.length ∧ true = snapshot.complete ∧
      ((frames Sample.host Sample.provider false "main" .new).filterMap
        Event.record?).map Wire.Record.decode = (Sample.crates.core.sort snapshot).entries := by
  have closed : frames Sample.host Sample.provider false "main" .new =
      Sample.organization.entries.map (fun entry => .record entry.project) ++
        [.complete 6 true []] := by rfl
  apply (operation_frames Sample.host Sample.provider false "main" .new).2
  rw [closed]
  exact List.mem_append_right _ (List.mem_singleton_self _)

/-- **The frames are those of a run**: with a silent input and a writer that takes each frame at
once, the race of the operation sends exactly them. -/
theorem operation_run (H : Host A) (provider : Provider) (check : Bool) (instanceId : String)
    (k : Winner (sig A) → Task (sig A)) (l : Link (sig A)) (idle : l.sending = none) :
    ∃ signals r l', (Machine.resume (port H)
        (.racing (operation A provider check instanceId .done) k) l).run (port H) signals =
          some (.resume (port H) (k (.job r)) l') ∧
      sent l'.trace = sent l.trace ++ frames H provider check instanceId l.output := by
  obtain ⟨signals, l', hr, ht⟩ := Machine.run_exec (p := port H) (k := k)
    (operation A provider check instanceId .done) l idle
  exact ⟨signals, _, l', hr, ht⟩

end Native

end Permesh

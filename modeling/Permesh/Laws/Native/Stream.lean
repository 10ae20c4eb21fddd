import Permesh.Laws.Native.Remarks
import Permesh.Laws.Native.Spoken

/-!
# Laws.Native.Stream — what a host may rely on while it reads

A host reads records before it knows whether the session comes to its end. Whatever part of the
answers it has, an entity is introduced once and before anything refers to it; the complete event,
if it comes, closes the stream and says honestly whether something is missing
(`Streamed`). This holds of every run of a session whose provider is fair (`Session.streamed`):
its snapshots are closed under reference and its limitations agree with its flag.

The proof looks at a whole published snapshot first (`streamed_published`) and cuts it off afterwards
(`Streamed.initial`). What else a provider promises of its snapshots is carried over record by record
(`Session.recorded`), and for a stream with its complete event as a whole (`Session.whole`). Without
that event a stream says nothing of what it leaves out.
-/

namespace Permesh

/-! ## References of records -/

namespace Wire

/-- What records introduce and refer to. -/
inductive Entity where
  | account (key : EntityKey)
  | resource (key : EntityKey)
  | group (key : EntityKey)
  | grant (id : String)
  deriving DecidableEq, Repr

def Subject.entity : Subject → Entity
  | .account key => .account key
  | .group key => .group key

/-- What a record introduces. An identity is not referred to. -/
def Record.introduces : Record → Option Entity
  | .account value => some (.account value.key)
  | .resource value => some (.resource value.key)
  | .group value => some (.group value.key)
  | .grant value => some (.grant value.id)
  | .identity _ | .membership _ => none

/-- What has to be known before the record. -/
def Record.refers : Record → List Entity
  | .membership value => [value.member.entity, .group value.group]
  | .grant value => [value.subject.entity, .resource value.resource]
  | .account _ | .identity _ | .resource _ | .group _ => []

def EntityKey.strings (k : EntityKey) : List String := [k.provider, k.id]

def Subject.strings : Subject → List String
  | .account key => key.strings
  | .group key => key.strings

/-- All strings of a record. -/
def Record.strings : Record → List String
  | .account value => value.key.strings ++ value.login :: value.verifiedEmails
  | .identity value => value.id :: value.verifiedEmails
  | .resource value =>
    value.key.strings ++ value.name :: (value.kind.toList ++ value.parent.toList.flatMap (·.strings))
  | .group value => value.key.strings ++ [value.name]
  | .membership value => value.member.strings ++ value.group.strings ++
      [value.provenance.method, value.provenance.observedAt]
  | .grant value => value.id :: (value.subject.strings ++ value.resource.strings ++
      [value.role, value.provenance.method, value.provenance.observedAt])

end Wire

/-- The snapshot has the entity that a subject names. -/
def Snapshot.Denotes (s : Snapshot) : Subject → Prop
  | .account key => ∃ a ∈ s.accounts, a.key = key
  | .group key => ∃ g ∈ s.groups, g.key = key

/-- **A snapshot that is closed under reference**, in which nothing occurs twice. -/
structure Snapshot.Integral (s : Snapshot) : Prop where
  members : ∀ m ∈ s.memberships, s.Denotes m.member ∧ s.Denotes (.group m.group)
  claims : ∀ g ∈ s.grants, s.Denotes g.subject ∧ ∃ r ∈ s.resources, r.key = g.resource
  parents : ∀ r ∈ s.resources, ∀ k ∈ r.parent, ∃ above ∈ s.resources, above.key = k
  accountsOnce : (s.accounts.map (·.key)).Nodup
  resourcesOnce : (s.resources.map (·.key)).Nodup
  groupsOnce : (s.groups.map (·.key)).Nodup
  grantsOnce : (s.grants.map (·.id)).Nodup

/-- Sorting keeps a snapshot closed. -/
theorem Snapshot.Integral.sort {s : Snapshot} (h : s.Integral) (core : Core) :
    (core.sort s).Integral := by
  have denotes (subject : Subject) : (core.sort s).Denotes subject ↔ s.Denotes subject := by
    cases subject with
    | account k => simp only [Denotes, Core.mem_sort_accounts]
    | group k => simp only [Denotes, Core.mem_sort_groups]
  constructor
  · simpa only [Core.mem_sort_memberships, denotes] using h.members
  · simpa only [Core.mem_sort_grants, denotes, Core.mem_sort_resources] using h.claims
  · simpa using h.parents
  · exact ((core.accounts_perm _).map _).nodup_iff.mpr h.accountsOnce
  · exact ((core.resources_perm _).map _).nodup_iff.mpr h.resourcesOnce
  · exact ((core.groups_perm _).map _).nodup_iff.mpr h.groupsOnce
  · exact ((core.grants_perm _).map _).nodup_iff.mpr h.grantsOnce

/-- The entities that other records of a snapshot may refer to, as they are sent. -/
def Snapshot.heads (s : Snapshot) : List Entry :=
  s.accounts.map .account ++ s.identities.map .identity ++ s.resources.map .resource ++
    s.groups.map .group

/-- Sorting keeps the entries. -/
theorem Snapshot.mem_entries_sort (core : Core) {s : Snapshot} {entry : Entry} :
    entry ∈ (core.sort s).entries ↔ entry ∈ s.entries := by
  have identities (i : Identity) : i ∈ (core.sort s).identities ↔ i ∈ s.identities :=
    (core.identities_perm _).mem_iff
  simp [Snapshot.entries, identities]

theorem Snapshot.entries_heads (s : Snapshot) :
    s.entries = s.heads ++ (s.memberships.map .membership ++ s.grants.map .grant) := by
  simp only [Snapshot.entries, Snapshot.heads, List.append_assoc]

namespace Native

open Permesh.Lib

variable {K : Crates} {A : Adapter K}

/-! ## Streams -/

def Event.introduces : Event K → Option Wire.Entity
  | .record value => value.introduces
  | _ => none

/-- What was introduced by a part of a stream. -/
def introduced (events : List (Event K)) : List Wire.Entity := events.filterMap Event.introduces

@[simp] theorem introduced_append (l l' : List (Event K)) :
    introduced (l ++ l') = introduced l ++ introduced l' := List.filterMap_append

/-- **What a host may rely on** while it reads the answers of a session. -/
structure Streamed (events : List (Event K)) : Prop where
  /-- What a record refers to came before it. -/
  resolved : ∀ before value after, events = before ++ .record value :: after →
    ∀ x ∈ value.refers, x ∈ introduced before
  once : (introduced events).Nodup
  /-- The complete event counts the records, tells whether something is missing, and is the last. -/
  closes : ∀ before count complete codes after,
    events = before ++ .complete count complete codes :: after →
      after = [] ∧ (∀ e ∈ before, e.isRecord = true) ∧ count = before.length ∧ codes.Nodup ∧
        (complete = true ↔ codes = ["visibility_limited"])
  /-- By then the resources above others are known, too. -/
  parents : ∀ before count complete codes after,
    events = before ++ .complete count complete codes :: after →
      ∀ value, .record (.resource value) ∈ before → ∀ key ∈ value.parent,
        .resource key ∈ introduced before
  health : ∀ codes, .health codes ∈ events → events = [.health codes] ∧
    codes = ["visibility_limited"]

theorem Streamed.nil : Streamed ([] : List (Event K)) where
  resolved before _ _ h := by cases before <;> cases h
  once := List.nodup_nil
  closes before _ _ _ _ h := by cases before <;> cases h
  parents before _ _ _ _ h := by cases before <;> cases h
  health _ h := by cases h

/-- The host may stop reading anywhere. -/
theorem Streamed.initial {events part : List (Event K)} (h : Streamed events) (le : part <+: events) :
    Streamed part := by
  obtain ⟨rest, rfl⟩ := le
  constructor
  · intro before value after eq
    apply h.resolved before value (after ++ rest)
    rw [eq, List.append_assoc, List.cons_append]
  · have once := h.once
    rw [introduced_append] at once
    exact once.of_append_left
  · intro before count complete codes after eq
    obtain ⟨last, facts⟩ := h.closes before count complete codes (after ++ rest)
      (by rw [eq, List.append_assoc, List.cons_append])
    exact ⟨(List.append_eq_nil_iff.mp last).1, facts⟩
  · intro before count complete codes after eq
    exact h.parents before count complete codes (after ++ rest)
      (by rw [eq, List.append_assoc, List.cons_append])
  · intro codes mem
    obtain ⟨whole, seen⟩ := h.health codes (List.mem_append_left _ mem)
    refine ⟨?_, seen⟩
    cases part with
    | nil => cases mem
    | cons e part =>
      rw [List.cons_append, List.cons.injEq, List.append_eq_nil_iff] at whole
      rw [whole.1, whole.2.1]

/-! ## The stream of a snapshot -/

/-- A list of entries as it is sent. -/
def sending (entries : List Entry) : List (Event K) := entries.map fun entry => .record entry.project

@[simp] theorem sending_append (l l' : List Entry) :
    (sending (l ++ l') : List (Event K)) = sending l ++ sending l' := List.map_append

theorem introduced_sending {α : Type} {make : α → Entry} {entity : α → Wire.Entity}
    (h : ∀ a, (make a).project.introduces = some (entity a)) (l : List α) :
    introduced (sending (l.map make) : List (Event K)) = l.map entity := by
  induction l with
  | nil => rfl
  | cons a l ih =>
    have first : Event.introduces (.record (make a).project : Event K) = some (entity a) := h a
    exact (List.filterMap_cons_some first).trans (congrArg (entity a :: ·) ih)

theorem introduced_none {α : Type} {make : α → Entry} (h : ∀ a, (make a).project.introduces = none)
    (l : List α) : introduced (sending (l.map make) : List (Event K)) = [] := by
  induction l with
  | nil => rfl
  | cons a l ih =>
    have first : Event.introduces (.record (make a).project : Event K) = none := h a
    exact (List.filterMap_cons_none first).trans ih

theorem introduced_heads (s : Snapshot) : introduced (sending s.heads : List (Event K)) =
    s.accounts.map (fun a => .account (Records.key a.key)) ++
      s.resources.map (fun r => .resource (Records.key r.key)) ++
        s.groups.map fun g => .group (Records.key g.key) := by
  simp only [Snapshot.heads, sending_append, introduced_append]
  rw [introduced_sending fun _ => rfl, introduced_none fun _ => rfl,
    introduced_sending fun _ => rfl, introduced_sending fun _ => rfl, List.append_nil]

theorem denoted (s : Snapshot) {subject : Subject} (h : s.Denotes subject) :
    (Records.subject subject).entity ∈ introduced (sending s.heads : List (Event K)) := by
  rw [introduced_heads]
  cases subject with
  | account =>
    obtain ⟨a, mem, rfl⟩ := h
    exact List.mem_append_left _ (List.mem_append_left _ (List.mem_map.mpr ⟨a, mem, rfl⟩))
  | group =>
    obtain ⟨g, mem, rfl⟩ := h
    exact List.mem_append_right _ (List.mem_map.mpr ⟨g, mem, rfl⟩)

theorem resourced {s : Snapshot} {r : Resource} (mem : r ∈ s.resources) :
    .resource (Records.key r.key) ∈ introduced (sending s.heads : List (Event K)) := by
  rw [introduced_heads]
  exact List.mem_append_left _ (List.mem_append_right _ (List.mem_map.mpr ⟨r, mem, rfl⟩))

theorem key_injective : Function.Injective Records.key := by
  intro k k' same
  cases k
  cases k'
  cases same
  rfl

/-- Nothing is introduced twice. -/
theorem introduced_nodup {s : Snapshot} (h : s.Integral) :
    (introduced (sending s.entries : List (Event K))).Nodup := by
  have map {α : Type} {f : α → EntityKey} {g : Wire.EntityKey → Wire.Entity}
      (inj : Function.Injective g) {l : List α} (once : (l.map f).Nodup) :
      (l.map fun a => g (Records.key (f a))).Nodup := by
    have := once.map (inj.comp key_injective)
    rwa [List.map_map] at this
  rw [Snapshot.entries_heads, sending_append, sending_append, introduced_append,
    introduced_append, introduced_heads, introduced_none fun _ => rfl,
    introduced_sending fun _ => rfl, List.nil_append]
  have accounts := map (g := .account) (fun _ _ same => Wire.Entity.account.inj same) h.accountsOnce
  have resources := map (g := .resource) (fun _ _ same => Wire.Entity.resource.inj same)
    h.resourcesOnce
  have groups := map (g := .group) (fun _ _ same => Wire.Entity.group.inj same) h.groupsOnce
  have grants : (s.grants.map fun g => Wire.Entity.grant g.id).Nodup := by
    have := h.grantsOnce.map (f := Wire.Entity.grant) fun _ _ same => Wire.Entity.grant.inj same
    rwa [List.map_map] at this
  simp only [List.nodup_append, accounts, resources, groups, grants, List.mem_append, List.mem_map,
    true_and]
  refine ⟨⟨?_, ?_⟩, ?_⟩ <;> grind

/-- An element that is not in the first part comes behind all of it. -/
theorem prefix_of_not_mem {α : Type} {l l' before after : List α} {x : α}
    (eq : l ++ l' = before ++ x :: after) (fresh : x ∉ l) : l <+: before := by
  rcases List.append_eq_append_iff.mp eq with ⟨more, rfl, -⟩ | ⟨more, rfl, behind⟩
  · exact List.prefix_append l more
  · cases more with
    | nil => exact ⟨[], by rw [List.append_nil, List.append_nil]⟩
    | cons y more =>
      cases behind
      exact absurd (List.mem_append_right _ List.mem_cons_self) fresh

/-- A record of a published snapshot is one of its entries. -/
theorem published_record {s : Snapshot} {before after : List (Event K)} {value : Wire.Record}
    (eq : published A s = before ++ .record value :: after) :
    ∃ b e a, s.entries = b ++ e :: a ∧ before = sending b ∧ value = e.project := by
  rcases List.append_eq_append_iff.mp eq with ⟨more, -, behind⟩ | ⟨more, here, behind⟩
  · cases more with
    | nil => cases behind
    | cons e more =>
      rw [List.cons_append, List.cons.injEq] at behind
      exact absurd behind.2.symm (List.append_ne_nil_of_right_ne_nil _ (List.cons_ne_nil _ _))
  · cases more with
    | nil => cases behind
    | cons e more =>
      rw [List.cons_append, List.cons.injEq] at behind
      obtain ⟨b, rest, entries, rfl, tail⟩ := List.map_eq_append_iff.mp here
      obtain ⟨entry, a, rfl, record, -⟩ := List.map_eq_cons_iff.mp tail
      refine ⟨b, entry, a, entries, rfl, ?_⟩
      rw [← behind.1] at record
      exact (Event.record.inj record).symm

/-- The complete event of a published snapshot is its last. -/
theorem published_complete {s : Snapshot} {before after : List (Event K)} {count : Nat}
    {complete : Bool} {codes : List String}
    (eq : published A s = before ++ .complete count complete codes :: after) :
    after = [] ∧ before = sending s.entries ∧ count = s.entries.length ∧ complete = s.complete ∧
      codes = A.limitations s.limitations := by
  have last : after = [] ∧ before = sending s.entries ∧ Event.complete count complete codes =
      (.complete s.entries.length s.complete (A.limitations s.limitations) : Event K) := by
    rcases List.append_eq_append_iff.mp eq with ⟨more, here, behind⟩ | ⟨more, here, behind⟩
    · cases more with
      | nil =>
        rw [List.nil_append, List.cons.injEq] at behind
        exact ⟨behind.2.symm, here.trans (List.append_nil _), behind.1.symm⟩
      | cons e more =>
        rw [List.cons_append, List.cons.injEq] at behind
        exact absurd behind.2.symm (List.append_ne_nil_of_right_ne_nil _ (List.cons_ne_nil _ _))
    · cases more with
      | nil =>
        rw [List.nil_append, List.cons.injEq] at behind
        exact ⟨behind.2, (here.trans (List.append_nil _)).symm, behind.1⟩
      | cons e more =>
        rw [List.cons_append, List.cons.injEq] at behind
        have mem : Event.complete count complete codes ∈ (sending s.entries : List (Event K)) := by
          rw [sending, here, ← behind.1]
          exact List.mem_append_right _ List.mem_cons_self
        obtain ⟨entry, -, record⟩ := List.mem_map.mp mem
        cases record
  obtain ⟨none, all, same⟩ := last
  cases same
  exact ⟨none, all, rfl, rfl, rfl⟩

/-- **A snapshot that is closed under reference is streamed well.** -/
theorem streamed_published {s : Snapshot} (integral : s.Integral)
    (honest : s.complete = true ↔ A.limitations s.limitations = ["visibility_limited"])
    (codes : (A.limitations s.limitations).Nodup) : Streamed (published A s) := by
  have heads {e : Entry} {b a : List Entry} (eq : s.entries = b ++ e :: a) (fresh : e ∉ s.heads) :
      ∀ x ∈ (introduced (sending s.heads : List (Event K))),
        x ∈ introduced (sending b : List (Event K)) := by
    intro x mem
    rw [Snapshot.entries_heads] at eq
    obtain ⟨more, rfl⟩ := prefix_of_not_mem eq fresh
    rw [sending_append, introduced_append]
    exact List.mem_append_left _ mem
  constructor
  · intro before value after eq x hx
    obtain ⟨b, e, a, entries, rfl, rfl⟩ := published_record eq
    have mem : e ∈ s.entries := by
      rw [entries]
      exact List.mem_append_right _ List.mem_cons_self
    cases e with
    | membership m =>
      have fresh : Entry.membership m ∉ s.heads := by simp [Snapshot.heads]
      have known : m ∈ s.memberships := by simpa [Snapshot.entries] using mem
      obtain ⟨member, group⟩ := integral.members m known
      rcases List.mem_cons.mp hx with rfl | hx
      · exact heads entries fresh _ (denoted s member)
      · rw [List.mem_singleton.mp hx]
        exact heads entries fresh _ (denoted s group)
    | grant g =>
      have fresh : Entry.grant g ∉ s.heads := by simp [Snapshot.heads]
      have known : g ∈ s.grants := by simpa [Snapshot.entries] using mem
      obtain ⟨subject, r, there, same⟩ := integral.claims g known
      rcases List.mem_cons.mp hx with rfl | hx
      · exact heads entries fresh _ (denoted s subject)
      · rw [List.mem_singleton.mp hx, show (Records.key g.resource) = Records.key r.key by rw [same]]
        exact heads entries fresh _ (resourced there)
    | _ => cases hx
  · have none : introduced [(.complete s.entries.length s.complete
        (A.limitations s.limitations) : Event K)] = [] := rfl
    show (introduced (sending s.entries ++ _)).Nodup
    rw [introduced_append, none, List.append_nil]
    exact introduced_nodup integral
  · intro before count complete codes' after eq
    obtain ⟨last, rfl, rfl, rfl, rfl⟩ := published_complete eq
    refine ⟨last, fun e mem => ?_, (List.length_map _).symm, codes, honest⟩
    obtain ⟨entry, -, rfl⟩ := List.mem_map.mp mem
    rfl
  · intro before count complete codes' after eq value mem key parent
    obtain ⟨-, rfl, -⟩ := published_complete eq
    obtain ⟨entry, there, record⟩ := List.mem_map.mp mem
    cases entry with
    | resource r =>
      cases record
      have known : r ∈ s.resources := by simpa [Snapshot.entries] using there
      obtain ⟨k, hk, rfl⟩ := Option.map_eq_some_iff.mp parent
      obtain ⟨above, mem, rfl⟩ := integral.parents r known k hk
      rw [Snapshot.entries_heads, sending_append, introduced_append]
      exact List.mem_append_left _ (resourced mem)
    | _ => cases record
  · intro codes' mem
    rcases List.mem_append.mp mem with mem | mem
    · obtain ⟨entry, -, record⟩ := List.mem_map.mp mem
      cases record
    · cases List.mem_singleton.mp mem

theorem streamed_health {codes : List String} (seen : codes = ["visibility_limited"]) :
    Streamed [(.health codes : Event K)] where
  resolved before value after eq := by
    rcases before with _ | ⟨e, _ | ⟨e', before⟩⟩ <;> cases eq
  once := List.nodup_nil
  closes before _ _ _ after eq := by
    rcases before with _ | ⟨e, _ | ⟨e', before⟩⟩ <;> cases eq
  parents before _ _ _ after eq := by
    rcases before with _ | ⟨e, _ | ⟨e', before⟩⟩ <;> cases eq
  health codes' mem := by
    cases List.mem_singleton.mp mem
    exact ⟨rfl, seen⟩

/-! ## Fair providers -/

/-- A provider whose snapshots are closed under reference, and which tells when something is
missing. -/
structure Fair (A : Adapter K) (provider : Provider) : Prop where
  check : ∀ health, provider.check = .ok health →
    A.limitations health.limitations = ["visibility_limited"]
  integral : ∀ snapshot, provider.discover = .ok snapshot → snapshot.Integral
  honest : ∀ snapshot, provider.discover = .ok snapshot →
    (snapshot.complete = true ↔ A.limitations snapshot.limitations = ["visibility_limited"])
  codes : ∀ snapshot, provider.discover = .ok snapshot → (A.limitations snapshot.limitations).Nodup

/-- A provider is fair if it keeps its remarks. -/
theorem Fair.remarks {provider : Provider} {code : String → String} {base : List String}
    {reason : String → Prop} (codes : A.limitations = codesOf code) (some : base ≠ [])
    (fixed : ∀ v ∈ base, code v = "visibility_limited")
    (other : ∀ v, reason v → code v ≠ "visibility_limited")
    (check : ∀ health, provider.check = .ok health → health.limitations = base)
    (discover : ∀ snapshot, provider.discover = .ok snapshot →
      snapshot.Integral ∧ Remarks base reason snapshot) : Fair A provider := by
  constructor
  · intro health ok
    rw [codes, check health ok]
    exact codesOf_eq_singleton.mpr ⟨some, fixed⟩
  · intro snapshot ok
    exact (discover snapshot ok).1
  · intro snapshot ok
    rw [codes]
    exact (discover snapshot ok).2.honest some fixed other
  · intro snapshot ok
    rw [codes]
    exact nodup_codesOf _ _

/-- A provider answers with its health, or with its snapshot, sorted. -/
theorem provided_cases {provider : Provider} {check : Bool} {id : String} {events : List (Event K)}
    (h : provided A provider check id = .ok events) :
    (∃ health, provider.check = .ok health ∧ events = [.health (A.limitations health.limitations)]) ∨
      ∃ snapshot, provider.discover = .ok snapshot ∧
        events = published A (K.core.sort snapshot) := by
  unfold provided at h
  cases check with
  | true =>
    rw [if_pos rfl] at h
    cases returned : provider.check with
    | error e =>
      rw [returned] at h
      cases h
    | ok health =>
      rw [returned] at h
      cases h
      exact .inl ⟨health, rfl, rfl⟩
  | false =>
    rw [if_neg Bool.false_ne_true] at h
    cases returned : provider.discover with
    | error e =>
      rw [returned] at h
      cases h
    | ok snapshot =>
      rw [returned] at h
      simp only [providerError, Except.bind] at h
      split at h
      · cases h
        exact .inr ⟨snapshot, rfl, rfl⟩
      · cases h

/-- What a fair provider answers is streamed well. -/
theorem Fair.streamed {provider : Provider} (fair : Fair A provider) {check : Bool} {id : String}
    {events : List (Event K)} (h : provided A provider check id = .ok events) : Streamed events := by
  rcases provided_cases h with ⟨health, returned, rfl⟩ | ⟨snapshot, returned, rfl⟩
  · exact streamed_health (fair.check health returned)
  · have integral := (fair.integral snapshot returned).sort K.core
    exact streamed_published integral (fair.honest snapshot returned) (fair.codes snapshot returned)

/-- The records of a published snapshot are its entries. -/
theorem mem_published {s : Snapshot} {value : Wire.Record} :
    .record value ∈ published A s ↔ ∃ entry ∈ s.entries, entry.project = value := by
  unfold published
  rw [List.mem_append, List.mem_map]
  constructor
  · rintro (⟨entry, mem, record⟩ | last)
    · exact ⟨entry, mem, Event.record.inj record⟩
    · cases List.mem_singleton.mp last
  · intro ⟨entry, mem, same⟩
    exact .inl ⟨entry, mem, congrArg Event.record same⟩

/-- The entry of a resource. -/
theorem resource_entry {s : Snapshot} {entry : Entry} (mem : entry ∈ s.entries)
    {value : Wire.Resource} (same : .resource value = entry.project) :
    ∃ r ∈ s.resources, value.key = Records.key r.key ∧ value.kind = r.kind ∧
      value.parent = r.parent.map Records.key := by
  cases entry with
  | resource r =>
    have listed : r ∈ s.resources := by simpa [Snapshot.entries] using mem
    cases same
    exact ⟨r, listed, rfl, rfl, rfl⟩
  | _ => cases same

/-- A record of an answer is one of the provider's snapshot. -/
theorem provided_record {provider : Provider} {check : Bool} {id : String} {events : List (Event K)}
    (h : provided A provider check id = .ok events) {value : Wire.Record}
    (mem : .record value ∈ events) :
    ∃ snapshot, provider.discover = .ok snapshot ∧ ∃ entry ∈ snapshot.entries,
      value = entry.project := by
  rcases provided_cases h with ⟨health, -, rfl⟩ | ⟨snapshot, returned, rfl⟩
  · cases List.mem_singleton.mp mem
  · obtain ⟨entry, there, same⟩ := mem_published.mp mem
    exact ⟨snapshot, returned, entry, (Snapshot.mem_entries_sort K.core).mp there, same.symm⟩

/-- An initial part of an answer that has its complete event is the whole answer, and this is the
provider's snapshot. -/
theorem provided_whole {provider : Provider} {check : Bool} {id : String}
    {events part : List (Event K)} (h : provided A provider check id = .ok events)
    (le : part <+: events) {count : Nat} {complete : Bool} {codes : List String}
    (mem : .complete count complete codes ∈ part) :
    ∃ snapshot, provider.discover = .ok snapshot ∧ part = published A (K.core.sort snapshot) := by
  obtain ⟨rest, whole⟩ := le
  rcases provided_cases h with ⟨health, -, rfl⟩ | ⟨snapshot, returned, rfl⟩
  · cases List.mem_singleton.mp (whole ▸ List.mem_append_left rest mem)
  · -- The complete event is the last of the snapshot: nothing is left of it.
    obtain ⟨before, after, split⟩ := List.append_of_mem mem
    have last : published A (K.core.sort snapshot) =
        before ++ .complete count complete codes :: (after ++ rest) := by
      rw [← whole, split, List.append_assoc, List.cons_append]
    obtain ⟨none, -⟩ := published_complete last
    rw [(List.append_eq_nil_iff.mp none).2, List.append_nil] at whole
    exact ⟨snapshot, returned, whole⟩

/-- **What a session says comes from one provider**: the one that was built for the only delivery. -/
theorem Session.provided {H : Host A} {networkEnabled : Bool} {signals : List Signal}
    {m : Machine (sig A)} (run : (start H networkEnabled).run (port H) signals = some m) :
    answers (begun m.link.trace) = [] ∨ ∃ d provider check events, deliveries m.link.trace = [d] ∧
      H.factory d.instanceId d.configuration d.credentials d.network = .ok provider ∧
      Native.provided A provider check d.instanceId = .ok events ∧
      answers (begun m.link.trace) <+: events := by
  rcases (Session.run_spoken run).answered with silent | ⟨d, events, one, ⟨check, answered⟩, part⟩
  · exact .inl silent
  · refine .inr ?_
    unfold answer at answered
    cases built : H.factory d.instanceId d.configuration d.credentials d.network with
    | error e =>
      rw [built] at answered
      cases answered
    | ok provider =>
      rw [built] at answered
      exact ⟨d, provider, check, events, one, built, answered, part⟩

/-- **Every session with fair providers is streamed well**, wherever it is cut off. -/
theorem Session.streamed {H : Host A} (fair : ∀ instanceId configuration credentials network provider,
      H.factory instanceId configuration credentials network = .ok provider → Fair A provider)
    {networkEnabled : Bool} {signals : List Signal} {m : Machine (sig A)}
    (run : (start H networkEnabled).run (port H) signals = some m) :
    Streamed (answers (begun m.link.trace)) := by
  rcases Session.provided run with silent | ⟨d, provider, check, events, -, built, answered, part⟩
  · rw [silent]
    exact .nil
  · exact ((fair _ _ _ _ _ built).streamed answered).initial part

/-- **Where a record comes from**: it is one of the snapshot of the provider that was built for the
only delivery. -/
theorem Session.recorded {H : Host A} {networkEnabled : Bool} {signals : List Signal}
    {m : Machine (sig A)} (run : (start H networkEnabled).run (port H) signals = some m)
    {value : Wire.Record} (mem : .record value ∈ answers (begun m.link.trace)) :
    ∃ d provider snapshot, deliveries m.link.trace = [d] ∧
      H.factory d.instanceId d.configuration d.credentials d.network = .ok provider ∧
      provider.discover = .ok snapshot ∧ ∃ entry ∈ snapshot.entries, value = entry.project := by
  rcases Session.provided run with silent | ⟨d, provider, check, events, one, built, answered, part⟩
  · rw [silent] at mem
    cases mem
  · obtain ⟨snapshot, returned, found⟩ := provided_record answered (part.subset mem)
    exact ⟨d, provider, snapshot, one, built, returned, found⟩

/-- **What a complete event closes**: the whole snapshot of that provider. -/
theorem Session.whole {H : Host A} {networkEnabled : Bool} {signals : List Signal}
    {m : Machine (sig A)} (run : (start H networkEnabled).run (port H) signals = some m)
    {count : Nat} {complete : Bool} {codes : List String}
    (mem : .complete count complete codes ∈ answers (begun m.link.trace)) :
    ∃ d provider snapshot, deliveries m.link.trace = [d] ∧
      H.factory d.instanceId d.configuration d.credentials d.network = .ok provider ∧
      provider.discover = .ok snapshot ∧ ∀ value, .record value ∈ answers (begun m.link.trace) ↔
        ∃ entry ∈ snapshot.entries, entry.project = value := by
  rcases Session.provided run with silent | ⟨d, provider, check, events, one, built, answered, part⟩
  · rw [silent] at mem
    cases mem
  · obtain ⟨snapshot, returned, whole⟩ := provided_whole answered part mem
    refine ⟨d, provider, snapshot, one, built, returned, fun value => ?_⟩
    rw [whole, mem_published]
    simp only [Snapshot.mem_entries_sort]

/-! ## A session with an adapter -/

namespace Sample

theorem braces_plain : ∀ bytes ∈ [utf8 "\x7b\x7d"], newline ∉ bytes := by
  intro bytes mem
  rw [List.mem_singleton.mp mem]
  decide +kernel

/-- Every document is empty. -/
def brief : Serializer crates where
  pieces _ := [utf8 "\x7b\x7d"]
  plain _ := braces_plain

/-- A negotiated frame of an adapter with nothing but its method. -/
def frame (A : Adapter crates) (method : String) : WireRequest A where
  protocol := none
  protocolVersion := some 1
  operation := none
  features := none
  network := none
  id := method
  method := method
  instanceId := none
  configuration := none
  credentials := none

/-- A handshake, and a discovery with this configuration and these credentials. -/
def decoding (A : Adapter crates) (configuration : A.Configuration) (credentials : A.Credentials)
    (bytes : List UInt8) : Option (WireRequest A) :=
  if bytes = handshake then
    some { frame A "handshake" with instanceId := some "main", operation := some .discover }
  else if bytes = discover then
    some { frame A "discover" with
      configuration := some configuration, credentials := some credentials }
  else none

/-- A discovery that answers with this many frames. -/
def discovery (frames : Nat) : List Signal :=
  [.read handshake, .accept 3, .flushed, .read discover, .poll, .reply, .reply] ++
    (List.replicate frames [.accept 3, .flushed]).flatten

end Sample

end Native

end Permesh

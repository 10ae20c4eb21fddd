import Permesh.Laws.Cloudflare.Rows
import Permesh.Laws.Text
import Permesh.Lib.Shuffled

/-!
# Laws.Cloudflare.Policies — which policies become records

`policies` walks four loops that check and emit at once. What it accepts is said here level by
level, without the loops: `RoleIs`, `ObjectIs`, `ResourceGroupIs` and `PolicyIs` say when a document
is an entry of its level and what it reads as. The list of policies is accepted exactly when each of
them is one, the repeated ones agree, and the records fit (`policies_iff`).

Behind a list of events the loops are in one known state (`Assignments.after`), so each level is a lemma
about lists of events. What a policy means to Cloudflare is not modelled: an accepted policy is one of a
certain form.
-/

namespace Permesh.Cloudflare

open Permesh.Json Permesh.Http Permesh.Lib

/-! ## What a document reads as -/

/-- A field that is this list, with an entry. -/
def Entries (v : Value) (name : String) (items : List Value) : Prop :=
  (v.get name).bind Value.asArray = some items ∧ items ≠ []

/-- A permission group: its identifier and its name. -/
structure RoleIs (v : Value) (role : String × String) : Prop where
  fields : onlyFields v ["id", "meta", "name"] = true
  id : Cloudflare.id v = .ok role.1
  name : string v "name" = .ok role.2

/-- What the key of an object stands for: all of the account, or a zone that was observed. -/
inductive TargetIs (client : Client) (zones : Std.ExtTreeSet String) : String → Resource → Prop
  | all : TargetIs client zones "*" {
      key := client.key s!"policy-scope:account:{client.accountId}:all"
      name := s!"All resources policy scope in Cloudflare account {client.accountId} " ++
        "(assignment evidence)"
      kind := some "cloudflare.policy_scope"
      parent := some (client.key s!"account:{client.accountId}") }
  | zone (zone : String) (native : nativeId zone = true) (observed : zone ∈ zones) :
    TargetIs client zones ("com.cloudflare.api.account.zone." ++ zone) {
      key := client.key s!"zone:{zone}"
      name := zone
      kind := some "cloudflare.zone"
      parent := some (client.key s!"account:{client.accountId}") }

/-- An object of a scope. -/
structure ObjectIs (client : Client) (zones : Std.ExtTreeSet String) (v : Value)
    (resource : Resource) : Prop where
  fields : onlyFields v ["key"] = true
  target : ∃ key, string v "key" = .ok key ∧ TargetIs client zones key resource

/-- A resource group: the resources of its objects. -/
structure ResourceGroupIs (client : Client) (zones : Std.ExtTreeSet String) (v : Value)
    (resources : List Resource) : Prop where
  fields : onlyFields v ["id", "scope", "meta", "name"] = true
  scope : ∃ scope objects, v.get "scope" = some scope ∧
    onlyFields scope ["key", "objects"] = true ∧
    (scope.get "key").bind Value.asStr = some s!"com.cloudflare.api.account.{client.accountId}" ∧
    Entries scope "objects" objects ∧ List.Forall₂ (ObjectIs client zones) objects resources

/-- What an allow policy says: its identifier, the resources of each resource group, the roles. -/
structure Policy where
  id : String
  resources : List (List Resource)
  roles : List (String × String)

/-- An allow policy. -/
structure PolicyIs (client : Client) (zones : Std.ExtTreeSet String) (v : Value) (p : Policy) :
    Prop where
  id : Cloudflare.id v = .ok p.id
  fields : onlyFields v ["id", "access", "permission_groups", "resource_groups"] = true
  access : (v.get "access").bind Value.asStr = some "allow"
  roles : ∃ items, Entries v "permission_groups" items ∧ List.Forall₂ RoleIs items p.roles
  resources : ∃ items, Entries v "resource_groups" items ∧
    List.Forall₂ (ResourceGroupIs client zones) items p.resources

/-- A role of a policy on a resource of it. -/
structure Occurrence where
  policyId : String
  resource : Resource
  role : String × String

/-- Each role on each object of each resource group. -/
def Policy.occurrences (p : Policy) : List Occurrence :=
  p.resources.flatten.flatMap fun resource => p.roles.map fun role => ⟨p.id, resource, role⟩

/-- The record of an occurrence. -/
def Occurrence.record (subject : Subject) (provenance : Provenance) (o : Occurrence) :
    Grant × Resource :=
  ({
    id := s!"{(subjectKey subject).id}:policy:{o.policyId}:role:{o.role.1}:{o.resource.key.id}"
    subject := subject
    resource := o.resource.key
    role := o.role.2
    privilege := .unknown
    certainty := .observed
    evidenceKind := .assignment
    provenance := provenance }, o.resource)

/-- The list of policies is accepted, and this is what it says: repeated policies are identical,
a role has one name throughout, and the records fit. -/
structure Allowed (client : Client) (zones : Std.ExtTreeSet String) (items : List Value)
    (ps : List Policy) : Prop where
  read : List.Forall₂ (PolicyIs client zones) items ps
  repeats : ∀ v ∈ items, ∀ w ∈ items, id v = id w → v = w
  names : OneValue (ps.flatMap Policy.roles)
  fits : (ps.flatMap Policy.occurrences).length ≤ MAX_ROWS

/-! ## The loops -/

/-- What the loops have passed so far. -/
inductive Event where
  | policy (id : String) (v : Value)
  | role (o : Occurrence)

def Event.policy? : Event → Option (String × Value)
  | .policy k v => some (k, v)
  | .role _ => none

def Event.role? : Event → Option Occurrence
  | .policy _ _ => none
  | .role o => some o

def policiesOf (log : List Event) : List (String × Value) := log.filterMap Event.policy?

def rolesOf (log : List Event) : List Occurrence := log.filterMap Event.role?

@[simp] theorem policiesOf_append (log out : List Event) :
    policiesOf (log ++ out) = policiesOf log ++ policiesOf out := List.filterMap_append

@[simp] theorem rolesOf_append (log out : List Event) :
    rolesOf (log ++ out) = rolesOf log ++ rolesOf out := List.filterMap_append

@[simp] theorem policiesOf_policy (k : String) (v : Value) : policiesOf [.policy k v] = [(k, v)] :=
  rfl

@[simp] theorem policiesOf_role (o : Occurrence) : policiesOf [.role o] = [] := rfl

@[simp] theorem rolesOf_policy (k : String) (v : Value) : rolesOf [.policy k v] = [] := rfl

@[simp] theorem rolesOf_role (o : Occurrence) : rolesOf [.role o] = [o] := rfl

/-- Nothing of the log contradicts it, and its records fit. -/
structure Valid (log : List Event) : Prop where
  policies : OneValue (policiesOf log)
  roles : OneValue ((rolesOf log).map Occurrence.role)
  fits : (rolesOf log).length ≤ MAX_ROWS

theorem Valid.nil : Valid [] where
  policies := by intro _ _ _ mem; cases mem
  roles := by intro _ _ _ mem; cases mem
  fits := Nat.zero_le _

theorem Valid.shorter (log out : List Event) (h : Valid (log ++ out)) : Valid log where
  policies := h.policies.sub (by simp)
  roles := h.roles.sub (by simp)
  fits := by
    have fits := h.fits
    rw [rolesOf_append, List.length_append] at fits
    omega

section

variable (subject : Subject) (provenance : Provenance)

/-- The state behind these events. -/
def Assignments.after (log : List Event) : Assignments where
  records := (rolesOf log).map (Occurrence.record subject provenance)
  seen := .ofList (policiesOf log)
  roleNames := .ofList ((rolesOf log).map Occurrence.role)

theorem Assignments.after_policy (log : List Event) (k : String) (v : Value) :
    after subject provenance (log ++ [.policy k v]) =
      { after subject provenance log with
        seen := (after subject provenance log).seen.insert k v } := by
  simp [after, ofList_append_singleton]

theorem Assignments.after_role (log : List Event) (o : Occurrence) :
    after subject provenance (log ++ [.role o]) =
      { after subject provenance log with
        records := (after subject provenance log).records ++ [o.record subject provenance]
        roleNames := (after subject provenance log).roleNames.insert o.role.1 o.role.2 } := by
  simp [after, ← ofList_append_singleton]

/-- A policy behind the log is valid when none with its identifier differs from it. -/
theorem Valid.policy_iff {log : List Event} (h : Valid log) {k : String} {v : Value} :
    Valid (log ++ [.policy k v]) ↔
      ((Assignments.after subject provenance log).seen[k]?.any (· != v)) = false := by
  unfold Assignments.after
  rw [← oneValue_append_singleton h.policies]
  constructor
  · intro valid
    simpa using valid.policies
  · intro one
    exact ⟨by simpa using one, by simpa using h.roles, by simpa using h.fits⟩

/-- A role behind the log is valid when it keeps its name and the record fits. -/
theorem Valid.role_iff {log : List Event} (h : Valid log) {o : Occurrence} :
    Valid (log ++ [.role o]) ↔
      ((Assignments.after subject provenance log).roleNames[o.role.1]?.any (· != o.role.2)) = false ∧
      ((Assignments.after subject provenance log).records ++
        [o.record subject provenance]).length ≤ MAX_ROWS := by
  unfold Assignments.after
  rw [← oneValue_append_singleton h.roles]
  constructor
  · intro valid
    exact ⟨by simpa using valid.roles, by simpa using valid.fits⟩
  · rintro ⟨one, fits⟩
    exact ⟨by simpa using h.policies, by simpa using one, by simpa using fits⟩

/-- One role on one resource. -/
theorem role_iff {policyId : String} {resource : Resource} {log : List Event} {v : Value}
    {a : Assignments} (valid : Valid log) :
    Client.role subject provenance policyId resource (.after subject provenance log) v = .ok a ↔
      ∃ role, RoleIs v role ∧ Valid (log ++ [.role ⟨policyId, resource, role⟩]) ∧
        a = .after subject provenance (log ++ [.role ⟨policyId, resource, role⟩]) := by
  constructor
  · intro ok
    unfold Client.role at ok
    dsimp only at ok
    split at ok
    · cases ok
    case isFalse fields =>
      obtain ⟨roleId, hid, ok⟩ := bind_ok ok
      obtain ⟨name, hname, ok⟩ := bind_ok ok
      split at ok
      · cases ok
      case isFalse same =>
        split at ok
        · cases ok
        case isFalse fits =>
          cases ok
          refine ⟨(roleId, name), ⟨by simpa using fields, hid, hname⟩, ?_, ?_⟩
          · rw [valid.role_iff subject provenance]
            exact ⟨Bool.eq_false_iff.mpr same, Nat.le_of_not_lt fits⟩
          · rw [Assignments.after_role]
            rfl
  · rintro ⟨role, is, next, rfl⟩
    rw [valid.role_iff subject provenance] at next
    obtain ⟨same, fits⟩ := next
    unfold Client.role
    rw [is.fields, is.id, is.name, Assignments.after_role]
    apply (if_neg Bool.noConfusion).trans
    apply (if_neg (Bool.eq_false_iff.mp same)).trans
    exact if_neg (Nat.not_lt.mpr fits)

theorem target_iff {client : Client} {zones : Std.ExtTreeSet String} {key : String}
    {resource : Resource} :
    client.target zones key = .ok resource ↔ TargetIs client zones key resource := by
  unfold Client.target
  constructor
  · intro ok
    split at ok
    case isTrue all =>
      cases ok
      rw [all]
      exact .all
    case isFalse =>
      split at ok
      case h_1 zone found =>
        cases ok
        obtain ⟨stripped, ok⟩ := Option.filter_eq_some_iff.mp found
        rw [Bool.and_eq_true, decide_eq_true_eq] at ok
        rw [Text.stripPrefix_iff.mp stripped]
        exact .zone zone ok.1 ok.2
      case h_2 => cases ok
  · rintro (_ | ⟨zone, native, observed⟩)
    · exact if_pos rfl
    · have other : "com.cloudflare.api.account.zone." ++ zone ≠ "*" := by
        intro same
        have chars := congrArg (List.head? ·.toList) same
        rw [String.toList_append] at chars
        cases chars
      rw [if_neg other, Text.stripPrefix_iff.mpr rfl, Option.filter_some, native, if_pos]
      simpa using observed

theorem entriesOf_iff {v : Value} {name : String} {items : List Value} :
    entriesOf v name = .ok items ↔ Entries v name items := by
  unfold entriesOf Entries
  constructor
  · intro ok
    split at ok
    case h_1 items' found =>
      cases ok
      obtain ⟨is, filled⟩ := Option.filter_eq_some_iff.mp found
      exact ⟨is, by simpa using filled⟩
    case h_2 => cases ok
  · rintro ⟨is, filled⟩
    rw [is, Option.filter_some, if_pos (by simpa using filled)]

variable {subject provenance} {client : Client} {zones : Std.ExtTreeSet String}

theorem RoleIs.unique {v : Value} {role role' : String × String} (h : RoleIs v role)
    (h' : RoleIs v role') : role = role' :=
  Prod.ext (Except.ok.inj (h.id.symm.trans h'.id)) (Except.ok.inj (h.name.symm.trans h'.name))

theorem roles_unique {vs : List Value} {roles roles' : List (String × String)}
    (h : List.Forall₂ RoleIs vs roles) (h' : List.Forall₂ RoleIs vs roles') : roles = roles' := by
  induction h generalizing roles' with
  | nil =>
    cases h'
    rfl
  | cons is _ ih =>
    obtain _ | ⟨is', rest⟩ := h'
    rw [is.unique is', ih rest]

/-- The roles on one resource, as they pass. -/
def rolesOn (policyId : String) (roles : List (String × String)) (resource : Resource) :
    List Event :=
  roles.map fun role => .role ⟨policyId, resource, role⟩

theorem roles_iff {policyId : String} {resource : Resource} {vs : List Value} {log : List Event}
    {a : Assignments} (valid : Valid log) :
    vs.foldlM (Client.role subject provenance policyId resource) (.after subject provenance log) =
      .ok a ↔ ∃ roles, List.Forall₂ RoleIs vs roles ∧
        Valid (log ++ rolesOn policyId roles resource) ∧
        a = .after subject provenance (log ++ rolesOn policyId roles resource) := by
  simp only [rolesOn, List.map_eq_flatMap]
  exact foldlM_log Valid.shorter (fun _ _ _ valid => role_iff subject provenance valid) valid

/-- One object: it says on which resource the roles are. -/
theorem object_iff {policyId : String} {vs : List Value} {log : List Event} {v : Value}
    {a : Assignments} (valid : Valid log) :
    client.object subject provenance policyId zones vs (.after subject provenance log) v = .ok a ↔
      ∃ resource, ObjectIs client zones v resource ∧ ∃ roles, List.Forall₂ RoleIs vs roles ∧
        Valid (log ++ rolesOn policyId roles resource) ∧
        a = .after subject provenance (log ++ rolesOn policyId roles resource) := by
  simp only [← roles_iff valid]
  unfold Client.object
  constructor
  · intro ok
    dsimp only at ok
    split at ok
    · cases ok
    case isFalse fields =>
      obtain ⟨key, hkey, ok⟩ := bind_ok ok
      obtain ⟨resource, target, ok⟩ := bind_ok ok
      exact ⟨resource, ⟨by simpa using fields, key, hkey, target_iff.mp target⟩, ok⟩
  · rintro ⟨resource, ⟨fields, key, hkey, target⟩, ok⟩
    rw [fields, hkey]
    refine (if_neg Bool.noConfusion).trans (bind_ok_iff.mpr ⟨key, rfl, ?_⟩)
    exact bind_ok_iff.mpr ⟨resource, target_iff.mpr target, ok⟩

/-- One resource group, with roles that can be read. -/
theorem resourceGroup_iff {policyId : String} {vs : List Value} {roles : List (String × String)}
    (read : List.Forall₂ RoleIs vs roles) {log : List Event} {v : Value} {a : Assignments}
    (valid : Valid log) :
    client.resourceGroup subject provenance policyId zones vs (.after subject provenance log) v =
      .ok a ↔ ∃ resources, ResourceGroupIs client zones v resources ∧
        Valid (log ++ resources.flatMap (rolesOn policyId roles)) ∧
        a = .after subject provenance (log ++ resources.flatMap (rolesOn policyId roles)) := by
  have loop (objects : List Value) :
      objects.foldlM (client.object subject provenance policyId zones vs)
        (.after subject provenance log) = .ok a ↔
      ∃ resources, List.Forall₂ (ObjectIs client zones) objects resources ∧
        Valid (log ++ resources.flatMap (rolesOn policyId roles)) ∧
        a = .after subject provenance (log ++ resources.flatMap (rolesOn policyId roles)) := by
    refine foldlM_log Valid.shorter (fun log v a valid => ?_) valid
    rw [object_iff valid]
    constructor
    · rintro ⟨resource, is, roles', read', next⟩
      rw [roles_unique read read']
      exact ⟨resource, is, next⟩
    · rintro ⟨resource, is, next⟩
      exact ⟨resource, is, roles, read, next⟩
  unfold Client.resourceGroup
  constructor
  · intro ok
    dsimp only at ok
    split at ok
    · cases ok
    case isFalse fields =>
      split at ok
      · cases ok
      case h_2 scope hscope =>
        split at ok
        · cases ok
        case isFalse scopeFields =>
          split at ok
          · cases ok
          case isFalse key =>
            obtain ⟨objects, entries, ok⟩ := bind_ok ok
            obtain ⟨resources, is, next⟩ := (loop objects).mp ok
            exact ⟨resources, ⟨by simpa using fields, scope, objects, hscope,
              by simpa using scopeFields, not_not.mp key, entriesOf_iff.mp entries, is⟩, next⟩
  · rintro ⟨resources, ⟨fields, scope, objects, hscope, scopeFields, key, entries, is⟩, next⟩
    rw [fields, hscope]
    apply (if_neg Bool.noConfusion).trans
    dsimp only
    rw [scopeFields, key]
    refine (if_neg Bool.noConfusion).trans ((if_neg (not_not.mpr rfl)).trans ?_)
    exact bind_ok_iff.mpr ⟨objects, entriesOf_iff.mpr entries, (loop objects).mpr ⟨resources, is, next⟩⟩

/-- A resource group that is passed has read the roles, since it has an object. -/
theorem roles_of_resourceGroup {policyId : String} {vs : List Value} {log : List Event} {v : Value}
    {a : Assignments} (valid : Valid log)
    (ok : client.resourceGroup subject provenance policyId zones vs
      (.after subject provenance log) v = .ok a) : ∃ roles, List.Forall₂ RoleIs vs roles := by
  unfold Client.resourceGroup at ok
  dsimp only at ok
  split at ok
  · cases ok
  split at ok
  · cases ok
  split at ok
  · cases ok
  split at ok
  · cases ok
  obtain ⟨objects, entries, ok⟩ := bind_ok ok
  obtain ⟨object, -, a₁, first⟩ := foldlM_first (entriesOf_iff.mp entries).2 ok
  obtain ⟨-, -, roles, read, -⟩ := (object_iff valid).mp first
  exact ⟨roles, read⟩

/-- What passes with a policy. -/
def Policy.events (p : Policy) (v : Value) : List Event :=
  .policy p.id v :: p.resources.flatMap fun resources => resources.flatMap (rolesOn p.id p.roles)

theorem Policy.append_events (log : List Event) (p : Policy) (v : Value) :
    log ++ p.events v = log ++ [.policy p.id v] ++
      p.resources.flatMap (fun resources => resources.flatMap (rolesOn p.id p.roles)) :=
  List.append_cons ..

/-- One policy. -/
theorem policy_iff {log : List Event} {v : Value} {a : Assignments} (valid : Valid log) :
    client.policy subject zones provenance (.after subject provenance log) v = .ok a ↔
      ∃ p, PolicyIs client zones v p ∧ Valid (log ++ p.events v) ∧
        a = .after subject provenance (log ++ p.events v) := by
  have loop (items vs : List Value) (policyId : String) (roles : List (String × String))
      (read : List.Forall₂ RoleIs vs roles) (valid : Valid (log ++ [.policy policyId v])) :
      items.foldlM (client.resourceGroup subject provenance policyId zones vs)
        (.after subject provenance (log ++ [.policy policyId v])) = .ok a ↔
      ∃ resources, List.Forall₂ (ResourceGroupIs client zones) items resources ∧
        Valid (log ++ (Policy.mk policyId resources roles).events v) ∧
        a = .after subject provenance (log ++ (Policy.mk policyId resources roles).events v) := by
    simp only [Policy.append_events]
    exact foldlM_log Valid.shorter (fun log v a valid => resourceGroup_iff read valid) valid
  unfold Client.policy
  constructor
  · intro ok
    obtain ⟨policyId, hid, ok⟩ := bind_ok ok
    dsimp only at ok
    split at ok
    · cases ok
    case isFalse fields =>
      split at ok
      · cases ok
      case isFalse same =>
        split at ok
        · cases ok
        case isFalse access =>
          obtain ⟨vs, roleEntries, ok⟩ := bind_ok ok
          obtain ⟨items, entries, ok⟩ := bind_ok ok
          have valid₁ := (valid.policy_iff subject provenance).mpr (Bool.eq_false_iff.mpr same)
          rw [← Assignments.after_policy] at ok
          obtain ⟨group, -, a₁, first⟩ := foldlM_first (entriesOf_iff.mp entries).2 ok
          obtain ⟨roles, read⟩ := roles_of_resourceGroup valid₁ first
          obtain ⟨resources, is, next⟩ := (loop items vs policyId roles read valid₁).mp ok
          exact ⟨⟨policyId, resources, roles⟩, ⟨hid, by simpa using fields, not_not.mp access,
            ⟨vs, entriesOf_iff.mp roleEntries, read⟩, items, entriesOf_iff.mp entries, is⟩, next⟩
  · rintro ⟨⟨policyId, resources, roles⟩, ⟨hid, fields, access, ⟨vs, roleEntries, read⟩, items,
      entries, is⟩, next⟩
    have valid₁ : Valid (log ++ [.policy policyId v]) := by
      have all := next.1
      rw [Policy.append_events] at all
      exact Valid.shorter _ _ all
    refine bind_ok_iff.mpr ⟨policyId, hid, ?_⟩
    rw [fields, access]
    apply (if_neg Bool.noConfusion).trans
    apply (if_neg (Bool.eq_false_iff.mp ((valid.policy_iff subject provenance).mp valid₁))).trans
    apply (if_neg (not_not.mpr rfl)).trans
    refine bind_ok_iff.mpr ⟨vs, entriesOf_iff.mpr roleEntries, ?_⟩
    refine bind_ok_iff.mpr ⟨items, entriesOf_iff.mpr entries, ?_⟩
    rw [← Assignments.after_policy]
    exact (loop items vs policyId roles read valid₁).mpr ⟨resources, is, next⟩

end

/-! ## What is accepted -/

theorem rolesOf_flatMap {α : Type} (l : List α) (f : α → List Event) :
    rolesOf (l.flatMap f) = l.flatMap fun a => rolesOf (f a) := List.filterMap_flatMap

theorem policiesOf_flatMap {α : Type} (l : List α) (f : α → List Event) :
    policiesOf (l.flatMap f) = l.flatMap fun a => policiesOf (f a) := List.filterMap_flatMap

theorem rolesOf_rolesOn (policyId : String) (roles : List (String × String)) (resource : Resource) :
    rolesOf (rolesOn policyId roles resource) = roles.map fun role => ⟨policyId, resource, role⟩ := by
  simp [rolesOf, rolesOn, List.filterMap_map, Function.comp_def, Event.role?]

theorem policiesOf_rolesOn (policyId : String) (roles : List (String × String))
    (resource : Resource) : policiesOf (rolesOn policyId roles resource) = [] := by
  simp [policiesOf, rolesOn, List.filterMap_map, Function.comp_def, Event.policy?]

theorem Policy.rolesOf_events (p : Policy) (v : Value) : rolesOf (p.events v) = p.occurrences :=
  calc rolesOf (p.events v) = rolesOf ([.policy p.id v] ++
        p.resources.flatMap fun resources => resources.flatMap (rolesOn p.id p.roles)) := rfl
    _ = p.resources.flatMap fun resources => resources.flatMap fun resource =>
        p.roles.map fun role => ⟨p.id, resource, role⟩ := by
      simp only [rolesOf_append, rolesOf_policy, List.nil_append, rolesOf_flatMap, rolesOf_rolesOn]
    _ = p.occurrences := by
      rw [Policy.occurrences, ← List.flatMap_id, List.flatMap_assoc]
      rfl

theorem Policy.policiesOf_events (p : Policy) (v : Value) :
    policiesOf (p.events v) = [(p.id, v)] :=
  calc policiesOf (p.events v) = policiesOf ([.policy p.id v] ++
        p.resources.flatMap fun resources => resources.flatMap (rolesOn p.id p.roles)) := rfl
    _ = [(p.id, v)] ++ p.resources.flatMap fun resources => resources.flatMap fun _ => [] := by
      simp only [policiesOf_append, policiesOf_policy, policiesOf_flatMap, policiesOf_rolesOn]
    _ = [(p.id, v)] := by simp

/-- A policy has a resource and a role. -/
theorem PolicyIs.mem_roles {client : Client} {zones : Std.ExtTreeSet String} {v : Value} {p : Policy}
    (h : PolicyIs client zones v p) (role : String × String) :
    role ∈ p.occurrences.map Occurrence.role ↔ role ∈ p.roles := by
  obtain ⟨items, ⟨-, filled⟩, groups⟩ := h.resources
  constructor
  · intro mem
    simp only [Policy.occurrences, List.map_flatMap, List.map_map, List.mem_flatMap,
      List.mem_map] at mem
    obtain ⟨resource, -, role', mem, rfl⟩ := mem
    exact mem
  · intro mem
    obtain ⟨group, rest, rfl⟩ := List.exists_cons_of_ne_nil filled
    obtain ⟨resources, others, is, -, eq⟩ := List.forall₂_cons_left_iff.mp groups
    obtain ⟨scope, objects, -, -, -, ⟨-, objectsFilled⟩, read⟩ := is.scope
    obtain ⟨object, rest', rfl⟩ := List.exists_cons_of_ne_nil objectsFilled
    obtain ⟨resource, others', -, -, rfl⟩ := List.forall₂_cons_left_iff.mp read
    simp only [Policy.occurrences, List.map_flatMap, List.map_map, List.mem_flatMap,
      List.mem_map]
    exact ⟨resource, by simp [eq], role, mem, rfl⟩

theorem rolesOf_zip {items : List Value} {ps : List Policy} (length : items.length = ps.length) :
    rolesOf ((items.zip ps).flatMap fun c => c.2.events c.1) = ps.flatMap Policy.occurrences := by
  simp only [rolesOf_flatMap, Policy.rolesOf_events]
  rw [← List.flatMap_map Prod.snd, List.map_snd_zip length.ge]

/-- The events of the policies are valid when the policies are accepted. -/
theorem valid_iff {client : Client} {zones : Std.ExtTreeSet String} {items : List Value}
    {ps : List Policy} (read : List.Forall₂ (PolicyIs client zones) items ps) :
    Valid ((items.zip ps).flatMap fun c => c.2.events c.1) ↔ Allowed client zones items ps := by
  have policies : policiesOf ((items.zip ps).flatMap fun c => c.2.events c.1) =
      (items.zip ps).map fun c => (c.2.id, c.1) := by
    simp only [policiesOf_flatMap, Policy.policiesOf_events, List.map_eq_flatMap]
  have roles := rolesOf_zip read.length_eq
  have repeats : OneValue ((items.zip ps).map fun c => (c.2.id, c.1)) ↔
      ∀ v ∈ items, ∀ w ∈ items, id v = id w → v = w := by
    constructor
    · intro one v hv w hw same
      obtain ⟨p, hp⟩ := exists_zip read hv
      obtain ⟨q, hq⟩ := exists_zip read hw
      have ids : p.id = q.id := Except.ok.inj
        ((List.forall₂_zip read hp).id.symm.trans (same.trans (List.forall₂_zip read hq).id))
      exact one p.id v w (List.mem_map.mpr ⟨(v, p), hp, rfl⟩)
        (List.mem_map.mpr ⟨(w, q), hq, by rw [ids]⟩)
    · intro all k v w hv hw
      obtain ⟨⟨v', p⟩, hp, eq⟩ := List.mem_map.mp hv
      obtain ⟨⟨w', q⟩, hq, eq'⟩ := List.mem_map.mp hw
      simp only [Prod.mk.injEq] at eq eq'
      obtain ⟨rfl, rfl⟩ := eq
      obtain ⟨ids, rfl⟩ := eq'
      apply all v' (List.of_mem_zip hp).1 w' (List.of_mem_zip hq).1
      rw [(List.forall₂_zip read hp).id, (List.forall₂_zip read hq).id, ids]
  have names (role : String × String) :
      role ∈ (ps.flatMap Policy.occurrences).map Occurrence.role ↔ role ∈ ps.flatMap Policy.roles := by
    have each : ∀ p ∈ ps, role ∈ p.occurrences.map Occurrence.role ↔ role ∈ p.roles := by
      intro p mem
      obtain ⟨v, hv⟩ := exists_zip read.flip mem
      exact (List.forall₂_zip read.flip hv).mem_roles role
    rw [List.map_flatMap, List.mem_flatMap, List.mem_flatMap]
    exact exists_congr fun p => and_congr_right fun mem => each p mem
  constructor
  · rintro ⟨one, oneName, fits⟩
    rw [policies] at one
    rw [roles] at oneName fits
    exact ⟨read, repeats.mp one, oneName.sub fun role => (names role).mpr, fits⟩
  · rintro ⟨-, all, oneName, fits⟩
    refine ⟨?_, ?_, ?_⟩
    · rw [policies]
      exact repeats.mpr all
    · rw [roles]
      exact oneName.sub fun role => (names role).mp
    · rw [roles]
      exact fits

/-- **What `policies` accepts, and what it returns.** -/
theorem policies_iff {client : Client} {zones : Std.ExtTreeSet String} {subject : Subject}
    {provenance : Provenance} {value : Value} {records : List (Grant × Resource)} :
    client.policies value subject zones provenance = .ok records ↔
      ∃ items ps, (value.get "policies").bind Value.asArray = some items ∧
        Allowed client zones items ps ∧
        records = (ps.flatMap Policy.occurrences).map (Occurrence.record subject provenance) := by
  have loop (items : List Value) (a : Assignments) :
      items.foldlM (client.policy subject zones provenance) ⟨[], ∅, ∅⟩ = .ok a ↔
      ∃ ps, Allowed client zones items ps ∧ a = .after subject provenance
        ((items.zip ps).flatMap fun c => c.2.events c.1) := by
    let reads (v : Value) (c : Value × Policy) : Prop := c.1 = v ∧ PolicyIs client zones v c.2
    let out (c : Value × Policy) : List Event := c.2.events c.1
    have each (log : List Event) (v : Value) (a : Assignments) (valid : Valid log) :
        client.policy subject zones provenance (.after subject provenance log) v = .ok a ↔
          ∃ c, reads v c ∧ Valid (log ++ out c) ∧ a = .after subject provenance (log ++ out c) := by
      rw [policy_iff valid]
      constructor
      · rintro ⟨p, is, next⟩
        exact ⟨(v, p), ⟨rfl, is⟩, next⟩
      · rintro ⟨⟨_, p⟩, ⟨rfl, is⟩, next⟩
        exact ⟨p, is, next⟩
    have rule : items.foldlM (client.policy subject zones provenance) ⟨[], ∅, ∅⟩ = .ok a ↔
        ∃ cs, List.Forall₂ reads items cs ∧ Valid ([] ++ cs.flatMap out) ∧
          a = .after subject provenance ([] ++ cs.flatMap out) :=
      foldlM_log Valid.shorter each Valid.nil
    dsimp only [reads, out] at rule
    simp only [forall₂_pairs] at rule
    refine rule.trans ⟨?_, ?_⟩
    · rintro ⟨_, ⟨ps, read, rfl⟩, valid, rfl⟩
      exact ⟨ps, (valid_iff read).mp valid, rfl⟩
    · rintro ⟨ps, allowed, rfl⟩
      exact ⟨_, ⟨ps, allowed.read, rfl⟩, (valid_iff allowed.read).mpr allowed, rfl⟩
  have returned {items : List Value} {ps : List Policy} (read : items.length = ps.length) :
      (Assignments.after subject provenance
        ((items.zip ps).flatMap fun c => c.2.events c.1)).records =
      (ps.flatMap Policy.occurrences).map (Occurrence.record subject provenance) :=
    congrArg (List.map _) (rolesOf_zip read)
  unfold Client.policies
  constructor
  · intro ok
    split at ok
    · cases ok
    case h_2 items found =>
      split at ok
      · cases ok
      case h_2 a done =>
        cases ok
        obtain ⟨ps, allowed, rfl⟩ := (loop items a).mp done
        exact ⟨items, ps, found, allowed, returned allowed.read.length_eq⟩
  · rintro ⟨items, ps, found, allowed, rfl⟩
    rw [found]
    dsimp only
    rw [(loop items _).mpr ⟨ps, allowed, rfl⟩]
    exact congrArg Except.ok (returned allowed.read.length_eq)

end Permesh.Cloudflare

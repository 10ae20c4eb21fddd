import Permesh.Laws.Cloudflare.Access
import Permesh.Laws.Cloudflare.Policies

/-!
# Laws.Cloudflare.Reordered — the order of policies and of what is in them

The policies, their resource groups, objects and roles may come in any order: the same list is
accepted, with the same records. Only repeated policies must be reordered alike, since they are
compared as documents (`policies_exact`).

A document may change level by level, each by a relation of its own that is symmetric, so that one
direction is enough. `policies_order_matters` shows that the restriction on repeated policies is
needed.
-/

namespace Permesh.Cloudflare

open Permesh.Json Permesh.Http Permesh.Lib

/-! ## Reordered documents -/

/-- Ways in which the values of fields may change. Another field stays as it is. -/
abbrev Changes := List (String × (Value → Value → Prop))

def Changes.of (changes : Changes) (name : String) : Value → Value → Prop :=
  (changes.lookup name).getD Eq

/-- An object with the same fields, where the values are changed. -/
inductive FieldsChanged (changes : Changes) : Value → Value → Prop
  | same (v : Value) : FieldsChanged changes v v
  | object {fields fields' : List (String × Value)}
      (h : List.Forall₂ (fun f f' => f.1 = f'.1 ∧ changes.of f.1 f.2 f'.2) fields fields') :
      FieldsChanged changes (.object fields) (.object fields')

/-- A list whose entries are changed as `R` says, in any order. -/
inductive EntriesReordered (R : Value → Value → Prop) : Value → Value → Prop
  | same (v : Value) : EntriesReordered R v v
  | array {items items' : List Value} (h : Shuffled R items items') :
      EntriesReordered R (.array items) (.array items')

/-- The objects of a scope in any order. -/
def ScopeReordered : Value → Value → Prop := FieldsChanged [("objects", EntriesReordered Eq)]

def GroupReordered : Value → Value → Prop := FieldsChanged [("scope", ScopeReordered)]

/-- The resource groups of a policy, their objects, and the roles in any order. -/
def PolicyReordered : Value → Value → Prop :=
  FieldsChanged [("permission_groups", EntriesReordered Eq),
    ("resource_groups", EntriesReordered GroupReordered)]

/-- The policies in any order, each of them reordered, and repeated ones alike: policies with one
identifier are identical in one list exactly when they are in the other. -/
def PoliciesReordered (items items' : List Value) : Prop :=
  ∃ pairs : List (Value × Value), (pairs.map Prod.fst).Perm items ∧
    (pairs.map Prod.snd).Perm items' ∧ (∀ x ∈ pairs, PolicyReordered x.1 x.2) ∧
    ∀ x ∈ pairs, ∀ y ∈ pairs, id x.1 = id y.1 → (x.1 = y.1 ↔ x.2 = y.2)

/-! ## Changed fields -/

section

variable {changes : Changes} {v w : Value}

/-- What holds of every change, and of none, holds of each field. -/
theorem Changes.of_induct {P : (Value → Value → Prop) → Prop} (plain : P Eq)
    (each : ∀ change ∈ changes, P change.2) (name : String) : P (changes.of name) := by
  unfold Changes.of
  cases found : changes.lookup name with
  | none => exact plain
  | some R =>
    obtain ⟨l, l', eq, -⟩ := List.lookup_eq_some_iff.mp found
    exact each (name, R) (by rw [eq]; simp)

theorem FieldsChanged.symm (symm : ∀ change ∈ changes, ∀ v w, change.2 v w → change.2 w v)
    (h : FieldsChanged changes v w) : FieldsChanged changes w v := by
  cases h with
  | same => exact .same v
  | object all =>
    refine .object (all.flip.imp fun f f' h => ⟨h.1.symm, ?_⟩)
    rw [← h.1]
    exact Changes.of_induct (P := fun R => ∀ v w, R v w → R w v) (fun _ _ => Eq.symm) symm f'.1 _ _ h.2

theorem FieldsChanged.keys (h : FieldsChanged changes v w) : w.keys = v.keys := by
  cases h with
  | same => rfl
  | object all =>
    apply congrArg some
    induction all with
    | nil => rfl
    | cons head _ ih => rw [List.map_cons, List.map_cons, head.1, ih]

/-- A field of the changed object is the changed field. -/
theorem FieldsChanged.get (refl : ∀ change ∈ changes, ∀ v, change.2 v v)
    (h : FieldsChanged changes v w) (name : String) :
    Option.Rel (changes.of name) (v.get name) (w.get name) := by
  cases h with
  | same =>
    cases v.get name with
    | none => exact .none
    | some value =>
      exact .some (Changes.of_induct (P := fun R => ∀ v, R v v) (fun _ => rfl) refl name value)
  | object all =>
    induction all with
    | nil => exact .none
    | @cons f f' fields fields' head _ ih =>
      obtain ⟨key, value⟩ := f
      obtain ⟨key', value'⟩ := f'
      obtain ⟨rfl, changed⟩ := head
      simp only [Value.get, List.lookup_cons] at ih ⊢
      cases found : name == key with
      | true =>
        cases eq_of_beq found
        exact .some changed
      | false => exact ih

theorem FieldsChanged.onlyFields (h : FieldsChanged changes v w) (names : List String) :
    onlyFields w names = onlyFields v names := by
  unfold Cloudflare.onlyFields
  rw [h.keys]

end

theorem eq_of_rel {a b : Option Value} (h : Option.Rel Eq a b) : b = a := by
  cases h with
  | none => rfl
  | some same => rw [same]

theorem EntriesReordered.symm {R : Value → Value → Prop} (symm : ∀ v w, R v w → R w v) {v w : Value}
    (h : EntriesReordered R v w) : EntriesReordered R w v := by
  cases h with
  | same => exact .same v
  | array shuffled => exact .array (shuffled.symm symm)

/-- A field that is a list with entries is one with these entries shuffled. -/
theorem Entries.reordered {R : Value → Value → Prop} (refl : ∀ v, R v v) {v w : Value}
    {name : String} {items : List Value} (h : Entries v name items)
    (changed : Option.Rel (EntriesReordered R) (v.get name) (w.get name)) :
    ∃ items', Entries w name items' ∧ Shuffled R items items' := by
  obtain ⟨is, filled⟩ := h
  unfold Entries
  generalize v.get name = a at is changed
  generalize w.get name = b at changed
  cases changed with
  | none => cases is
  | some changed =>
    cases changed with
    | same value =>
      exact ⟨items, ⟨is, filled⟩, items, List.forall₂_same.mpr fun v _ => refl v, .refl _⟩
    | @array xs ys shuffled =>
      cases is
      refine ⟨ys, ⟨rfl, ?_⟩, shuffled⟩
      rintro rfl
      obtain ⟨changed, all, perm⟩ := shuffled
      rw [List.perm_nil] at perm
      subst perm
      exact filled (List.forall₂_nil_right_iff.mp all)

theorem id_congr {v w : Value} (same : w.get "id" = v.get "id") : id w = id v := by
  unfold Cloudflare.id string
  rw [same]

/-! ## What a reordered document reads as -/

theorem ScopeReordered.refl (v : Value) : ScopeReordered v v := .same v

theorem GroupReordered.refl (v : Value) : GroupReordered v v := .same v

theorem ScopeReordered.get {v w : Value} (h : ScopeReordered v w) (name : String) :
    Option.Rel (Changes.of [("objects", EntriesReordered Eq)] name) (v.get name) (w.get name) :=
  FieldsChanged.get (by simpa using EntriesReordered.same) h name

theorem GroupReordered.get {v w : Value} (h : GroupReordered v w) (name : String) :
    Option.Rel (Changes.of [("scope", ScopeReordered)] name) (v.get name) (w.get name) :=
  FieldsChanged.get (by simpa using ScopeReordered.refl) h name

theorem PolicyReordered.get {v w : Value} (h : PolicyReordered v w) (name : String) :
    Option.Rel (Changes.of [("permission_groups", EntriesReordered Eq),
      ("resource_groups", EntriesReordered GroupReordered)] name) (v.get name) (w.get name) :=
  FieldsChanged.get (by simpa using ⟨EntriesReordered.same, EntriesReordered.same⟩) h name

theorem GroupReordered.symm {v w : Value} (h : GroupReordered v w) : GroupReordered w v := by
  have entries (v w : Value) : EntriesReordered Eq v w → EntriesReordered Eq w v :=
    EntriesReordered.symm fun _ _ => Eq.symm
  have scope (v w : Value) : ScopeReordered v w → ScopeReordered w v :=
    FieldsChanged.symm (by simpa using entries)
  exact FieldsChanged.symm (by simpa using scope) h

theorem PolicyReordered.symm {v w : Value} (h : PolicyReordered v w) : PolicyReordered w v :=
  FieldsChanged.symm (by
    simpa using ⟨fun _ _ => EntriesReordered.symm fun _ _ => Eq.symm,
      fun _ _ => EntriesReordered.symm fun _ _ => GroupReordered.symm⟩) h

section

variable {client : Client} {zones : Std.ExtTreeSet String}

theorem ResourceGroupIs.reordered {v w : Value} {resources : List Resource}
    (h : ResourceGroupIs client zones v resources) (changed : GroupReordered v w) :
    ∃ resources', ResourceGroupIs client zones w resources' ∧ resources.Perm resources' := by
  obtain ⟨scope, objects, hscope, fields, key, entries, read⟩ := h.scope
  have field := changed.get "scope"
  rw [hscope] at field
  generalize hscope' : w.get "scope" = field' at field
  obtain ⟨scope', reordered, hscope'⟩ :
      ∃ scope', ScopeReordered scope scope' ∧ w.get "scope" = some scope' := by
    cases field with
    | @some _ scope' reordered => exact ⟨scope', reordered, hscope'⟩
  have sameKey : scope'.get "key" = scope.get "key" := eq_of_rel (reordered.get "key")
  obtain ⟨objects', entries', shuffled⟩ := entries.reordered (fun _ => rfl) (reordered.get "objects")
  obtain ⟨resources', read', same⟩ :=
    shuffled.reads (S := ObjectIs client zones) (T := Eq) (by
      rintro a _ resource rfl is
      exact ⟨resource, is, rfl⟩) read
  refine ⟨resources', ⟨?_, scope', objects', hscope', ?_, ?_, entries', read'⟩, shuffled_eq.mp same⟩
  · rw [FieldsChanged.onlyFields changed]
    exact h.fields
  · rw [FieldsChanged.onlyFields reordered]
    exact fields
  · rw [sameKey]
    exact key

/-- Policies that say the same, up to the order. -/
structure Policy.Like (p q : Policy) : Prop where
  id : p.id = q.id
  resources : p.resources.flatten.Perm q.resources.flatten
  roles : p.roles.Perm q.roles

theorem Policy.Like.occurrences {p q : Policy} (h : p.Like q) :
    p.occurrences.Perm q.occurrences := by
  unfold Policy.occurrences
  rw [h.id]
  refine (h.resources.flatMap_right _).trans (List.Perm.flatMap_left _ fun resource _ => ?_)
  exact h.roles.map _

theorem PolicyReordered.id {v w : Value} (h : PolicyReordered v w) :
    Cloudflare.id w = Cloudflare.id v :=
  id_congr (eq_of_rel (h.get "id"))

theorem PolicyIs.reordered {v w : Value} {p : Policy} (h : PolicyIs client zones v p)
    (changed : PolicyReordered v w) : ∃ q, PolicyIs client zones w q ∧ p.Like q := by
  obtain ⟨vs, entries, read⟩ := h.roles
  obtain ⟨groups, groupEntries, groupsRead⟩ := h.resources
  obtain ⟨vs', entries', shuffled⟩ :=
    entries.reordered (fun _ => rfl) (changed.get "permission_groups")
  obtain ⟨groups', groupEntries', groupsShuffled⟩ :=
    groupEntries.reordered GroupReordered.refl (changed.get "resource_groups")
  obtain ⟨roles', read', sameRoles⟩ :=
    shuffled.reads (S := RoleIs) (T := Eq) (by
      rintro a _ role rfl is
      exact ⟨role, is, rfl⟩) read
  obtain ⟨resources', groupsRead', sameResources⟩ :=
    groupsShuffled.reads (S := ResourceGroupIs client zones) (T := List.Perm)
      (fun _ _ _ reordered is => is.reordered reordered) groupsRead
  have access : w.get "access" = v.get "access" := eq_of_rel (changed.get "access")
  refine ⟨⟨p.id, resources', roles'⟩, ⟨changed.id.trans h.id, ?_, ?_, ⟨vs', entries', read'⟩, groups',
    groupEntries', groupsRead'⟩, rfl, ?_, shuffled_eq.mp sameRoles⟩
  · rw [FieldsChanged.onlyFields changed]
    exact h.fields
  · rw [access]
    exact h.access
  · rw [List.flatten_eq_flatMap, List.flatten_eq_flatMap]
    exact sameResources.flatMap fun _ _ perm => perm

/-- **A reordered list is accepted, and says the same.** -/
theorem Allowed.reordered {items items' : List Value} {ps : List Policy}
    (h : Allowed client zones items ps) (reordered : PoliciesReordered items items') :
    ∃ ps', Allowed client zones items' ps' ∧
      (ps.flatMap Policy.occurrences).Perm (ps'.flatMap Policy.occurrences) := by
  obtain ⟨pairs, firsts, seconds, each, alike⟩ := reordered
  have shuffled : Shuffled PolicyReordered items items' := by
    have all : List.Forall₂ PolicyReordered (pairs.map Prod.fst) (pairs.map Prod.snd) := by
      rw [List.forall₂_map_left_iff, List.forall₂_map_right_iff]
      exact List.forall₂_same.mpr each
    obtain ⟨changed, all', perm⟩ := List.perm_comp_forall₂ firsts.symm all
    exact ⟨changed, all', perm.trans seconds⟩
  obtain ⟨ps', read, same⟩ := shuffled.reads (S := PolicyIs client zones) (T := Policy.Like)
    (fun _ _ _ reordered is => is.reordered reordered) h.read
  have occurrences := same.flatMap fun _ _ like => like.occurrences
  have roles : (ps.flatMap Policy.roles).Perm (ps'.flatMap Policy.roles) :=
    same.flatMap fun _ _ like => like.roles
  refine ⟨ps', ⟨read, ?_, ?_, ?_⟩, occurrences⟩
  · intro v hv w hw same
    obtain ⟨x, hx, rfl⟩ := List.mem_map.mp (seconds.mem_iff.mpr hv)
    obtain ⟨y, hy, rfl⟩ := List.mem_map.mp (seconds.mem_iff.mpr hw)
    have ids : id x.1 = id y.1 := by rw [← (each x hx).id, ← (each y hy).id, same]
    refine (alike x hx y hy ids).mp (h.repeats x.1 ?_ y.1 ?_ ids)
    · exact firsts.mem_iff.mp (List.mem_map_of_mem hx)
    · exact firsts.mem_iff.mp (List.mem_map_of_mem hy)
  · exact h.names.sub fun role => roles.mem_iff.mpr
  · rw [← occurrences.length_eq]
    exact h.fits

theorem PoliciesReordered.symm {items items' : List Value} (h : PoliciesReordered items items') :
    PoliciesReordered items' items := by
  obtain ⟨pairs, firsts, seconds, each, alike⟩ := h
  refine ⟨pairs.map Prod.swap, ?_, ?_, ?_, ?_⟩
  · rw [List.map_map]
    exact seconds
  · rw [List.map_map]
    exact firsts
  · intro _ mem
    obtain ⟨x, hx, rfl⟩ := List.mem_map.mp mem
    exact (each x hx).symm
  · intro _ mem _ mem' same
    obtain ⟨x, hx, rfl⟩ := List.mem_map.mp mem
    obtain ⟨y, hy, rfl⟩ := List.mem_map.mp mem'
    refine (alike x hx y hy ?_).symm
    rw [← (each x hx).id, ← (each y hy).id]
    exact same

end

/-- **What `policies` accepts.** The list is accepted exactly when every entry is an allow policy
that can be represented, repeated policies are identical, roles have one name, and the records fit;
what is returned is one record for each occurrence of a role on an object. An entry that is no such
policy rejects the whole list, wherever it stands. Lists that are reordered alike are both rejected,
or both accepted with the same records. -/
theorem policies_exact (client : Client) (subject : Subject) (zones : Std.ExtTreeSet String)
    (provenance : Provenance) (value : Value) :
    (∀ records, client.policies value subject zones provenance = .ok records ↔
      ∃ items ps, (value.get "policies").bind Value.asArray = some items ∧
        Allowed client zones items ps ∧
        records = (ps.flatMap Policy.occurrences).map (Occurrence.record subject provenance)) ∧
    (∀ items, (value.get "policies").bind Value.asArray = some items →
      (∃ v ∈ items, ∀ p, ¬PolicyIs client zones v p) →
      ∃ failure, client.policies value subject zones provenance = .error failure) ∧
    ∀ value' items items', (value.get "policies").bind Value.asArray = some items →
      (value'.get "policies").bind Value.asArray = some items' → PoliciesReordered items items' →
      (∃ records records', client.policies value subject zones provenance = .ok records ∧
        client.policies value' subject zones provenance = .ok records' ∧ records.Perm records') ∨
      ∃ failure failure', client.policies value subject zones provenance = .error failure ∧
        client.policies value' subject zones provenance = .error failure' := by
  refine ⟨fun records => policies_iff, fun items found bad => ?_,
    fun value' items items' found found' reordered => ?_⟩
  · obtain ⟨v, mem, none⟩ := bad
    cases result : client.policies value subject zones provenance with
    | error failure => exact ⟨failure, rfl⟩
    | ok records =>
      obtain ⟨items', ps, found', allowed, -⟩ := policies_iff.mp result
      cases found.symm.trans found'
      obtain ⟨p, hp⟩ := exists_zip allowed.read mem
      exact absurd (List.forall₂_zip allowed.read hp) (none p)
  · cases result : client.policies value subject zones provenance with
    | ok records =>
      obtain ⟨_, ps, found₁, allowed, rfl⟩ := policies_iff.mp result
      cases found.symm.trans found₁
      obtain ⟨ps', allowed', perm⟩ := allowed.reordered reordered
      exact .inl ⟨_, _, rfl, policies_iff.mpr ⟨items', ps', found', allowed', rfl⟩, perm.map _⟩
    | error failure =>
      cases result' : client.policies value' subject zones provenance with
      | error failure' => exact .inr ⟨failure, failure', rfl, rfl⟩
      | ok records' =>
        obtain ⟨_, ps', found₁, allowed', rfl⟩ := policies_iff.mp result'
        cases found'.symm.trans found₁
        obtain ⟨ps, allowed, -⟩ := allowed'.reordered reordered.symm
        have ok : client.policies value subject zones provenance = .ok _ :=
          policies_iff.mpr ⟨items, ps, found, allowed, rfl⟩
        rw [result] at ok
        cases ok

/-- An allow policy with these roles on all resources. -/
def rolesPolicy (roles : List Value) : Value := .object [
  ("access", .string "allow"),
  ("id", .string (sampleId 'c')),
  ("permission_groups", .array roles),
  ("resource_groups", .array [.object [("scope", .object [
    ("key", .string ("com.cloudflare.api.account." ++ sampleId 'a')),
    ("objects", .array [.object [("key", .string "*")]])])]])]

def viewer : Value := .object [("id", .string (sampleId 'd')), ("name", .string "Viewer")]

def editor : Value := .object [("id", .string (sampleId 'e')), ("name", .string "Editor")]

/-- A policy that is listed twice is accepted, and rejected when the roles change places in one of
its copies. -/
theorem policies_order_matters :
    let result (items : List Value) := (sampleClient []).policies
      (.object [("policies", .array items)]) (.account ⟨"cloudflare", "member"⟩) ∅
      ⟨"cloudflare.members.policy_assignment", "2026-01-01T00:00:00Z"⟩
    PolicyReordered (rolesPolicy [viewer, editor]) (rolesPolicy [editor, viewer]) ∧
      (result [rolesPolicy [viewer, editor], rolesPolicy [viewer, editor]]).toOption.isSome = true ∧
      (result [rolesPolicy [viewer, editor], rolesPolicy [editor, viewer]]).toOption.isSome =
        false := by
  refine ⟨.object ?_, by decide +kernel, by decide +kernel⟩
  have swapped : EntriesReordered Eq (.array [viewer, editor]) (.array [editor, viewer]) :=
    .array (shuffled_eq.mpr (.swap _ _ _))
  exact .cons ⟨rfl, rfl⟩ (.cons ⟨rfl, rfl⟩ (.cons ⟨rfl, swapped⟩ (.cons ⟨rfl, .same _⟩ .nil)))

end Permesh.Cloudflare

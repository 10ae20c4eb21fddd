import Permesh.Cloudflare.Records
import Permesh.Lib.Rows

/-!
# Laws.Cloudflare.Rows — unique rows and assignments

`unique` keeps, under each identifier, the row that all rows of this identifier agree on. The grants
that `policies` returns are grants of its subject, and their identifiers begin with the subject's.

Both facts are about one call. Rows that `unique` drops leave a warning, which is followed elsewhere.
-/

namespace Permesh.Cloudflare

open Permesh.Json Permesh.Http Permesh.Lib

/-! ## Unique rows -/

/-- There is a row with this identifier, and all rows with it are this one. -/
def Agree (rows : List Value) (k : String) (v : Value) : Prop :=
  (∃ row ∈ rows, id row = .ok k) ∧ ∀ row ∈ rows, id row = .ok k → row = v

/-- The identifier of a row, if it has one. -/
def idOf (row : Value) : Option String := (id row).toOption

theorem idOf_iff {row : Value} {k : String} : idOf row = some k ↔ id row = .ok k := by
  unfold idOf
  cases id row <;> simp [Except.toOption]

theorem only_iff {rows : List Value} {k : String} {v : Value} :
    Only idOf rows k v ↔ Agree rows k v := by
  unfold Only
  simp only [idOf_iff]
  constructor
  · rintro ⟨mem, hid, all⟩
    exact ⟨⟨v, mem, hid⟩, all⟩
  · rintro ⟨⟨row, mem, hid⟩, all⟩
    have same := all row mem hid
    subst same
    exact ⟨mem, hid, all⟩

/-- The rows that `unique` has taken in, without its warnings. -/
def Unique.rows (u : Unique) : Rows String Value := ⟨u.out, u.conflicts⟩

theorem Unique.rows_take (u : Unique) (row : Value) :
    (u.take row).rows = u.rows.take idOf row := by
  unfold Unique.take Rows.take idOf
  cases id row with
  | error e => rfl
  | ok key =>
    dsimp only [Except.toOption, Unique.rows]
    by_cases old : key ∈ u.conflicts
    · rw [if_pos old]
      exact (if_pos old).symm
    · by_cases other : u.out[key]?.any (· != row) = true
      · rw [if_neg old, if_pos other]
        exact ((if_neg old).trans (if_pos other)).symm
      · rw [if_neg old, if_neg other]
        exact ((if_neg old).trans (if_neg other)).symm

theorem Unique.rows_foldl (rows : List Value) (s : Snapshot) :
    (rows.foldl Unique.take ⟨∅, ∅, s⟩).rows = Rows.of idOf rows :=
  (List.foldl_hom Unique.rows fun u row => (u.rows_take row).symm).symm

/-- **`unique` keeps what the rows agree on.** -/
theorem getElem?_unique {rows : List Value} {s : Snapshot} {k : String} {v : Value} :
    (unique rows s).1[k]? = some v ↔ Agree rows k v := by
  rw [← only_iff, ← Rows.getElem?_iff, ← Unique.rows_foldl rows s]
  rfl

theorem mem_unique (rows : List Value) (s : Snapshot) (k : String) (v : Value) :
    (k, v) ∈ (unique rows s).1.toList ↔ Agree rows k v := by
  rw [Std.ExtTreeMap.mem_toList_iff_getElem?_eq_some, getElem?_unique]

/-- An identifier has 32 characters. -/
theorem id_length {row : Value} {k : String} (h : id row = .ok k) : k.toList.length = 32 := by
  unfold id at h
  split at h
  · cases h
  split at h
  case isTrue native =>
    cases h
    rw [nativeId, Bool.and_eq_true, beq_iff_eq] at native
    exact native.1
  case isFalse => cases h

/-! ## Assignments -/

section

variable {client : Client} {subject : Subject} {provenance : Provenance}
  {zones : Std.ExtTreeSet String}

/-- **The rule of the policies**: what each role keeps holds of the records at the end. -/
theorem policies_rule {I : Assignments → Prop} (start : I ⟨[], ∅, ∅⟩)
    (seen : ∀ a seen, I a → I { a with seen := seen })
    (step : ∀ policy policyId target resource a role a', id policy = .ok policyId →
      client.target zones target = .ok resource → I a →
      Client.role subject provenance policyId resource a role = .ok a' → I a')
    {value : Value} {grants : List (Grant × Resource)}
    (ok : client.policies value subject zones provenance = .ok grants) :
    ∃ a, I a ∧ grants = a.records := by
  -- one lemma for each loop, from the innermost one
  have object {policy policyId roles a a' object} (hid : id policy = .ok policyId) (h : I a)
      (ok : client.object subject provenance policyId zones roles a object = .ok a') : I a' := by
    unfold Client.object at ok
    dsimp only at ok
    split at ok
    · cases ok
    obtain ⟨key, -, ok⟩ := bind_ok ok
    obtain ⟨resource, target, ok⟩ := bind_ok ok
    exact foldlM_rule (fun _ a => I a) h
      (fun _ role a a' h ok => step policy policyId key resource a role a' hid target h ok) ok
  have resourceGroup {policy policyId roles a a' resource} (hid : id policy = .ok policyId) (h : I a)
      (ok : client.resourceGroup subject provenance policyId zones roles a resource = .ok a') :
      I a' := by
    unfold Client.resourceGroup at ok
    dsimp only at ok
    split at ok
    · cases ok
    split at ok
    · cases ok
    split at ok
    · cases ok
    split at ok
    · cases ok
    obtain ⟨objects, -, ok⟩ := bind_ok ok
    exact foldlM_rule (fun _ a => I a) h (fun _ _ _ _ h ok => object hid h ok) ok
  have policy {a a' policy} (h : I a)
      (ok : client.policy subject zones provenance a policy = .ok a') : I a' := by
    unfold Client.policy at ok
    obtain ⟨policyId, hid, ok⟩ := bind_ok ok
    dsimp only at ok
    split at ok
    · cases ok
    split at ok
    · cases ok
    split at ok
    · cases ok
    obtain ⟨roles, -, ok⟩ := bind_ok ok
    obtain ⟨resources, -, ok⟩ := bind_ok ok
    exact foldlM_rule (fun _ a => I a) (seen a _ h) (fun _ _ _ _ h ok => resourceGroup hid h ok) ok
  unfold Client.policies at ok
  split at ok
  · cases ok
  split at ok
  · cases ok
  case h_2 a ha =>
    cases ok
    exact ⟨a, foldlM_rule (fun _ a => I a) start (fun _ _ _ _ h ok => policy h ok) ha, rfl⟩

/-- What a role adds to the records. -/
theorem role_ok {policyId : String} {resource : Resource} {a a' : Assignments} {role : Value}
    (ok : Client.role subject provenance policyId resource a role = .ok a') :
    ∃ roleId name, id role = .ok roleId ∧ a.roleNames[roleId]?.any (· != name) = false ∧
      a'.roleNames = a.roleNames.insert roleId name ∧
      a'.records = a.records ++ [({
        id := s!"{(subjectKey subject).id}:policy:{policyId}:role:{roleId}:{resource.key.id}"
        subject := subject
        resource := resource.key
        role := name
        privilege := .unknown
        certainty := .observed
        evidenceKind := .assignment
        provenance := provenance }, resource)] := by
  unfold Client.role at ok
  dsimp only at ok
  split at ok
  · cases ok
  obtain ⟨roleId, hid, ok⟩ := bind_ok ok
  obtain ⟨name, -, ok⟩ := bind_ok ok
  split at ok
  · cases ok
  case isFalse same =>
    split at ok
    · cases ok
    cases ok
    exact ⟨roleId, name, hid, Bool.eq_false_iff.mpr same, rfl, rfl⟩

/-- A grant of this subject, as its identifier says. -/
def Names (subject : Subject) (grant : Grant) : Prop :=
  grant.subject = subject ∧ ∃ rest, grant.id = (subjectKey subject).id ++ (":policy:" ++ rest)

/-- **`policies` returns grants of its subject.** -/
theorem policies_of {value : Value} {grants : List (Grant × Resource)}
    (ok : client.policies value subject zones provenance = .ok grants) :
    ∀ x ∈ grants, Names subject x.1 := by
  obtain ⟨a, names, rfl⟩ := policies_rule (I := fun a => ∀ x ∈ a.records, Names subject x.1)
    (fun _ mem => by cases mem) (fun _ _ h => h)
    (fun _ policyId _ resource a role a' _ _ h ok => by
      obtain ⟨roleId, name, -, -, -, records⟩ := role_ok ok
      intro x mem
      rw [records] at mem
      rcases List.mem_append.mp mem with mem | mem
      · exact h x mem
      · rw [List.mem_singleton.mp mem]
        refine ⟨rfl, policyId ++ ":role:" ++ roleId ++ ":" ++ resource.key.id, ?_⟩
        simp only [← String.append_assoc]
        rfl) ok
  exact names

end

end Permesh.Cloudflare

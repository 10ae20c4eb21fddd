import Permesh.Github.Records
import Permesh.Lib.Separators

/-!
# Laws.Github.Keys — what an identifier is put together from

The identifier of a grant is its claim and its role with colons between them. The key of an account is
a number, every other key a kind and a number. So the first part of a key shows whether a second one
follows, and an identifier is read from the front: method, subject, resource, and what is left is the
role, whatever it contains (`claimId_inj`). The role is never read, and the keys of two providers are
told apart by their instance only.
-/

namespace Permesh.Github

open Permesh.Lib

/-! ## Kinds of keys -/

def AccountKey (p : String) (k : EntityKey) : Prop := ∃ id : Nat, k = ⟨p, toString id⟩

def OfKind (p kind : String) (k : EntityKey) : Prop := ∃ id : Nat, k = ⟨p, s!"{kind}:{id}"⟩

/-- A key tells its kind. -/
theorem OfKind.same {p kind kind' : String} {k : EntityKey} (h : OfKind p kind k)
    (h' : OfKind p kind' k) : kind = kind' := by
  obtain ⟨id, rfl⟩ := h
  obtain ⟨id', h'⟩ := h'
  have cut := (EntityKey.mk.inj h').2
  simp only [toString, String.append_assoc] at cut
  exact (append_colon_inj cut).1

/-- A number, or a kind and a number. -/
def NativeKey (p : String) (k : EntityKey) : Prop :=
  AccountKey p k ∨ ∃ kind ∈ ["organization", "repository", "team"], OfKind p kind k

variable {p : String} {k k' : EntityKey}

/-! ## Keys read from the front -/

theorem account_cut {p t t' : String} {k k' : EntityKey} (h : AccountKey p k)
    (h' : AccountKey p k') (same : k.id ++ (":" ++ t) = k'.id ++ (":" ++ t')) :
    k = k' ∧ t = t' := by
  obtain ⟨id, rfl⟩ := h
  obtain ⟨id', rfl⟩ := h'
  obtain ⟨digits, rest⟩ := colon_append_inj (plain_digits id) (plain_digits id') same
  exact ⟨by rw [digits], rest⟩

theorem kind_cut {p kind kind' t t' : String} {k k' : EntityKey} (plain : Plain kind)
    (plain' : Plain kind') (h : OfKind p kind k) (h' : OfKind p kind' k')
    (same : k.id ++ (":" ++ t) = k'.id ++ (":" ++ t')) : k = k' ∧ t = t' := by
  have parts (kind : String) (id : Nat) : s!"{kind}:{id}" = kind ++ (":" ++ toString id) :=
    String.append_assoc
  obtain ⟨id, rfl⟩ := h
  obtain ⟨id', rfl⟩ := h'
  dsimp only at same
  rw [parts, parts, String.append_assoc, String.append_assoc, String.append_assoc,
    String.append_assoc] at same
  obtain ⟨rfl, tail⟩ := colon_append_inj plain plain' same
  obtain ⟨digits, rest⟩ := colon_append_inj (plain_digits id) (plain_digits id') tail
  rw [parts, parts, digits]
  exact ⟨rfl, rest⟩

/-- No kind is a number, and none has a colon. -/
theorem kinds_plain : ∀ kind ∈ ["organization", "repository", "team"],
    Plain kind ∧ ∃ c ∈ kind.toList, c.isDigit = false := by
  simp only [List.forall_mem_cons]
  exact ⟨⟨by decide, 'o', by decide, rfl⟩, ⟨by decide, 'r', by decide, rfl⟩,
    ⟨by decide, 't', by decide, rfl⟩, nofun⟩

theorem account_ne_kind {kind t t' : String} (mem : kind ∈ ["organization", "repository", "team"])
    (h : AccountKey p k) (h' : OfKind p kind k') :
    k.id ++ (":" ++ t) ≠ k'.id ++ (":" ++ t') := by
  obtain ⟨id, rfl⟩ := h
  obtain ⟨number, rfl⟩ := h'
  obtain ⟨plain, c, letter, other⟩ := kinds_plain kind mem
  intro same
  have parts : s!"{kind}:{number}" = kind ++ (":" ++ toString number) := String.append_assoc
  dsimp only at same
  rw [parts, String.append_assoc, String.append_assoc] at same
  rw [← (colon_append_inj (plain_digits id) plain same).1, Nat.toString_eq_repr,
    Nat.toList_repr] at letter
  have digit : c.isDigit = true := Nat.isDigit_of_mem_toDigits (by decide) (by decide) letter
  rw [other] at digit
  cases digit

/-- A key is read from the front. -/
theorem NativeKey.cut {t t' : String} (h : NativeKey p k) (h' : NativeKey p k')
    (same : k.id ++ (":" ++ t) = k'.id ++ (":" ++ t')) : k = k' ∧ t = t' := by
  rcases h with h | ⟨kind, mem, h⟩
  · rcases h' with h' | ⟨kind', mem', h'⟩
    · exact account_cut h h' same
    · exact absurd same (account_ne_kind mem' h h')
  · rcases h' with h' | ⟨kind', mem', h'⟩
    · exact absurd same.symm (account_ne_kind mem h' h)
    · exact kind_cut (kinds_plain kind mem).1 (kinds_plain kind' mem').1 h h' same

/-! ## Claims -/

/-- The subject in the identifier of a grant: what kind it is, and its key. -/
def subjectPart : Subject → String × EntityKey
  | .account k => ("account", k)
  | .group k => ("group", k)

theorem plain_subjectPart (s : Subject) : Plain (subjectPart s).1 := by
  cases s with
  | account k => exact (by decide : Plain "account")
  | group k => exact (by decide : Plain "group")

theorem subjectPart_inj {s s' : Subject} (kind : (subjectPart s).1 = (subjectPart s').1)
    (key : (subjectPart s).2 = (subjectPart s').2) : s = s' := by
  cases s with
  | account k =>
    cases s' with
    | account k' => exact congrArg Subject.account key
    | group k' => exact absurd (show "account" = "group" from kind) (by decide)
  | group k =>
    cases s' with
    | account k' => exact absurd (show "group" = "account" from kind) (by decide)
    | group k' => exact congrArg Subject.group key

/-- The identifier of a claim and a role. -/
def claimId (k : GrantKey) (role : String) : String :=
  k.1 ++ (":" ++ ((subjectPart k.2.1).1 ++ (":" ++ ((subjectPart k.2.1).2.id ++ (":" ++
    (k.2.2.id ++ (":" ++ role)))))))

/-- **An identifier tells its claim and its role.** -/
theorem claimId_inj {k k' : GrantKey} {role role' : String} (plain : Plain k.1) (plain' : Plain k'.1)
    (subject : NativeKey p (subjectPart k.2.1).2) (subject' : NativeKey p (subjectPart k'.2.1).2)
    (resource : NativeKey p k.2.2) (resource' : NativeKey p k'.2.2)
    (same : claimId k role = claimId k' role') : k = k' ∧ role = role' := by
  obtain ⟨method, s, r⟩ := k
  obtain ⟨method', s', r'⟩ := k'
  unfold claimId at same
  obtain ⟨rfl, same⟩ := colon_append_inj plain plain' same
  obtain ⟨kind, same⟩ := colon_append_inj (plain_subjectPart s) (plain_subjectPart s') same
  obtain ⟨key, same⟩ := subject.cut subject' same
  obtain ⟨rfl, roles⟩ := resource.cut resource' same
  obtain rfl := subjectPart_inj kind key
  exact ⟨rfl, roles⟩

end Permesh.Github

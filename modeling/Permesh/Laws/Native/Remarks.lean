import Mathlib.Data.List.Induction
import Permesh.Lib.Maps
import Permesh.Laws.Text
import Permesh.Native.Adapters

/-!
# Laws.Native.Remarks — what a collection says about itself

The limitations of a collection are the fixed ones of its provider, and behind them the reasons why
something is missing. The codes of the protocol keep them apart: the fixed ones are visibility, a
reason never is (`Remarks.honest`).

The codes of a list have no repetitions (`nodup_codesOf`), and they are visibility alone exactly if no
reason was added. The texts are those of the source; only their codes are sent.
-/

namespace Permesh.Native

/-! ## Codes -/

section Codes

variable {code : String → String} {values : List String}

theorem codesOf_append (code : String → String) (values more : List String) :
    codesOf code (values ++ more) = more.foldl (fun result value =>
      if code value ∈ result then result else result ++ [code value]) (codesOf code values) :=
  List.foldl_append

theorem codesOf_snoc (code : String → String) (values : List String) (value : String) :
    codesOf code (values ++ [value]) = if code value ∈ codesOf code values then codesOf code values
      else codesOf code values ++ [code value] :=
  codesOf_append code values [value]

/-- Each code once. -/
theorem nodup_codesOf (code : String → String) (values : List String) :
    (codesOf code values).Nodup := by
  induction values using List.reverseRecOn with
  | nil => exact List.nodup_nil
  | append_singleton values value ih =>
    rw [codesOf_snoc]
    split
    · exact ih
    case isFalse fresh =>
      exact Lib.nodup_snoc ih fresh

/-- The codes of the values. -/
theorem mem_codesOf {c : String} : c ∈ codesOf code values ↔ ∃ v ∈ values, code v = c := by
  induction values using List.reverseRecOn with
  | nil => simp [codesOf]
  | append_singleton values value ih =>
    rw [codesOf_snoc]
    split
    case isTrue old =>
      rw [ih]
      constructor
      · rintro ⟨v, mem, same⟩
        exact ⟨v, List.mem_append_left _ mem, same⟩
      · rintro ⟨v, mem, same⟩
        rcases List.mem_append.mp mem with mem | mem
        · exact ⟨v, mem, same⟩
        · rw [List.mem_singleton.mp mem] at same
          exact ih.mp (same ▸ old)
    · rw [List.mem_append, ih, List.mem_singleton]
      constructor
      · rintro (⟨v, mem, same⟩ | rfl)
        · exact ⟨v, List.mem_append_left _ mem, same⟩
        · exact ⟨value, List.mem_append_right _ List.mem_cons_self, rfl⟩
      · rintro ⟨v, mem, same⟩
        rcases List.mem_append.mp mem with mem | mem
        · exact .inl ⟨v, mem, same⟩
        · exact .inr (List.mem_singleton.mp mem ▸ same).symm

/-- One code, if all values have it. -/
theorem codesOf_eq_singleton {c : String} :
    codesOf code values = [c] ↔ values ≠ [] ∧ ∀ v ∈ values, code v = c := by
  constructor
  · intro one
    refine ⟨fun none => ?_, fun v mem => ?_⟩
    · rw [none] at one
      cases one
    · have there : code v ∈ codesOf code values := mem_codesOf.mpr ⟨v, mem, rfl⟩
      rw [one] at there
      exact List.mem_singleton.mp there
  · rintro ⟨some, each⟩
    obtain ⟨v, mem⟩ := List.exists_mem_of_ne_nil values some
    have there : c ∈ codesOf code values := mem_codesOf.mpr ⟨v, mem, each v mem⟩
    have only : ∀ x ∈ codesOf code values, x = c := fun x hx => by
      obtain ⟨v, mem, same⟩ := mem_codesOf.mp hx
      exact same.symm.trans (each v mem)
    have once := nodup_codesOf code values
    generalize codesOf code values = codes at there only once
    cases codes with
    | nil => cases there
    | cons x rest =>
      cases rest with
      | nil => rw [only x List.mem_cons_self]
      | cons y rest =>
        have same := (only x List.mem_cons_self).trans
          (only y (List.mem_cons_of_mem _ List.mem_cons_self)).symm
        exact absurd (same ▸ List.mem_cons_self) (List.nodup_cons.mp once).1

end Codes

/-! ## Remarks -/

/-- A text is none of those that lack a byte of its beginning. -/
theorem text_apart {texts : List String} {b : UInt8} (plain : ∀ v ∈ texts, b ∉ Text.asBytes v)
    {pre : String} (marked : b ∈ Text.asBytes pre) (rest : String) : pre ++ rest ∉ texts := by
  intro mem
  apply plain _ mem
  rw [Text.asBytes_append]
  exact List.mem_append_left _ marked

/-- **The limitations of a snapshot**: the fixed ones, and behind them why it is incomplete. -/
structure Remarks (base : List String) (reason : String → Prop) (s : Snapshot) : Prop where
  limitations : ∃ reasons, s.limitations = base ++ reasons ∧ (∀ v ∈ reasons, reason v) ∧
    (s.complete = true ↔ reasons = [])

section Remarks

variable {base : List String} {reason : String → Prop} {s : Snapshot}

/-- A collection starts without reasons. -/
theorem Remarks.start (base : List String) (reason : String → Prop) (s : Snapshot)
    (limitations : s.limitations = base) (complete : s.complete = true) : Remarks base reason s :=
  ⟨[], by rw [limitations, List.append_nil], fun _ mem => (by cases mem), by
    rw [complete]
    exact ⟨fun _ => rfl, fun _ => rfl⟩⟩

/-- A reason makes the snapshot incomplete. It is not repeated. -/
theorem Remarks.fail {s' : Snapshot} {v : String} (h : Remarks base reason s) (hv : reason v)
    (apart : ∀ v ∈ base, ¬reason v) (complete : s'.complete = false)
    (limitations : s'.limitations = if v ∈ s.limitations then s.limitations
      else s.limitations ++ [v]) : Remarks base reason s' := by
  obtain ⟨reasons, all, each, -⟩ := h
  split at limitations
  case isTrue old =>
    have there : v ∈ reasons := by
      rw [all] at old
      exact (List.mem_append.mp old).resolve_left fun mem => apart v mem hv
    refine ⟨reasons, limitations.trans all, each, ?_⟩
    rw [complete]
    exact ⟨fun h => (by cases h), fun none => by rw [none] at there; cases there⟩
  · refine ⟨reasons ++ [v], ?_, fun x mem => ?_, ?_⟩
    · rw [limitations, all, List.append_assoc]
    · rcases List.mem_append.mp mem with mem | mem
      · exact each x mem
      · rw [List.mem_singleton.mp mem]
        exact hv
    · rw [complete]
      exact ⟨fun h => (by cases h), fun none => absurd none (by simp)⟩

/-- A reason makes the snapshot incomplete, and is added again where it was known. -/
theorem Remarks.append {s' : Snapshot} {v : String} (h : Remarks base reason s) (hv : reason v)
    (complete : s'.complete = false) (limitations : s'.limitations = s.limitations ++ [v]) :
    Remarks base reason s' := by
  obtain ⟨reasons, all, each, -⟩ := h
  refine ⟨reasons ++ [v], ?_, Lib.forall_mem_snoc each hv, ?_⟩
  · rw [limitations, all, List.append_assoc]
  · rw [complete]
    exact ⟨fun h => (by cases h), fun none => absurd none (by simp)⟩

/-- Only the flag and the limitations count. -/
theorem Remarks.congr {s' : Snapshot} (h : Remarks base reason s)
    (limitations : s'.limitations = s.limitations) (complete : s'.complete = s.complete) :
    Remarks base reason s' := by
  obtain ⟨reasons, all, each, flag⟩ := h
  exact ⟨reasons, limitations.trans all, each, complete ▸ flag⟩

/-- **The flag and the codes agree**: a snapshot is complete if nothing but visibility limits it. -/
theorem Remarks.honest {code : String → String} (h : Remarks base reason s) (some : base ≠ [])
    (fixed : ∀ v ∈ base, code v = "visibility_limited")
    (other : ∀ v, reason v → code v ≠ "visibility_limited") :
    s.complete = true ↔ codesOf code s.limitations = ["visibility_limited"] := by
  obtain ⟨reasons, all, each, flag⟩ := h
  rw [flag, codesOf_eq_singleton, all]
  constructor
  · rintro rfl
    rw [List.append_nil]
    exact ⟨some, fixed⟩
  · rintro ⟨-, every⟩
    apply List.eq_nil_iff_forall_not_mem.mpr
    intro v mem
    exact other v (each v mem) (every v (List.mem_append_right _ mem))

end Remarks

/-! ## Clients and deadlines -/

theorem httpClient_ok {K : Crates} {network : Option NetworkContext} {builds : Bool}
    {failure : ProviderError} {u : Unit} : httpClient K network builds failure = .ok u ↔
      clientBuilder K network = true ∧ builds = true := by
  unfold httpClient
  cases clientBuilder K network <;> cases builds <;> simp

theorem within_ok {α : Type} {inTime : Bool} {late : ProviderError} {r : Except ProviderError α}
    {a : α} (h : within inTime late r = .ok a) : r = .ok a := by
  cases inTime with
  | true => exact h
  | false => cases h

end Permesh.Native

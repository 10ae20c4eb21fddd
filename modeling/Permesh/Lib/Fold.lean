import Mathlib.Data.List.Induction

/-!
# Fold — loops over a list

A loop over a list carries a state, and may fail. What holds of the elements taken so far and the
state behind them holds at the end (`foldl_rule`, `foldlM_rule`), if one step keeps it. A loop whose
state is what a log of its outputs says succeeds exactly when the whole log is valid (`foldlM_log`).
-/

namespace Permesh.Lib

variable {α β ε σ : Type}

/-- A sequence that succeeds. -/
theorem bind_ok {x : Except ε α} {f : α → Except ε β} {b : β} (h : x >>= f = .ok b) :
    ∃ a, x = .ok a ∧ f a = .ok b := by
  cases x with
  | error e => cases h
  | ok a => exact ⟨a, rfl, h⟩

/-- **The rule of a loop.** -/
theorem foldl_rule {step : σ → α → σ} {s₀ : σ} (P : List α → σ → Prop) (start : P [] s₀)
    (next : ∀ before a s, P before s → P (before ++ [a]) (step s a)) (l : List α) :
    P l (l.foldl step s₀) := by
  induction l using List.reverseRecOn with
  | nil => exact start
  | append_singleton before a ih =>
    rw [List.foldl_append]
    exact next before a _ ih

/-- **The rule of a loop that may fail.** -/
theorem foldlM_rule {step : σ → α → Except ε σ} {s₀ s : σ} {l : List α} (P : List α → σ → Prop)
    (start : P [] s₀)
    (next : ∀ before a s s', P before s → step s a = .ok s' → P (before ++ [a]) s')
    (h : l.foldlM step s₀ = .ok s) : P l s := by
  induction l using List.reverseRecOn generalizing s with
  | nil =>
    cases h
    exact start
  | append_singleton before a ih =>
    rw [List.foldlM_append] at h
    obtain ⟨s₁, first, last⟩ := bind_ok h
    obtain ⟨s₂, step_eq, done⟩ := bind_ok last
    cases done
    exact next before a s₁ _ (ih first) step_eq

theorem bind_ok_iff {x : Except ε α} {f : α → Except ε β} {b : β} :
    x >>= f = .ok b ↔ ∃ a, x = .ok a ∧ f a = .ok b := by
  constructor
  · exact bind_ok
  · rintro ⟨a, rfl, h⟩
    exact h

/-- A loop that succeeds has passed its first element. -/
theorem foldlM_first {step : σ → α → Except ε σ} {l : List α} {s s' : σ} (ne : l ≠ [])
    (h : l.foldlM step s = .ok s') : ∃ a ∈ l, ∃ s₁, step s a = .ok s₁ := by
  cases l with
  | nil => exact absurd rfl ne
  | cons a l =>
    rw [List.foldlM_cons] at h
    obtain ⟨s₁, first, -⟩ := bind_ok h
    exact ⟨a, List.mem_cons_self, s₁, first⟩

/-- **The rule of a loop that keeps a log.** If one step succeeds exactly when its element can be
read and the log stays valid, the loop succeeds exactly when all elements can be read and the log at
its end is valid. -/
theorem foldlM_log {γ : Type} {step : σ → α → Except ε σ} {state : List β → σ}
    {reads : α → γ → Prop} {out : γ → List β} {valid : List β → Prop}
    (shorter : ∀ log more, valid (log ++ more) → valid log)
    (each : ∀ log a s, valid log → (step (state log) a = .ok s ↔
      ∃ c, reads a c ∧ valid (log ++ out c) ∧ s = state (log ++ out c)))
    {l : List α} {log : List β} {s : σ} (ok : valid log) :
    l.foldlM step (state log) = .ok s ↔ ∃ cs, List.Forall₂ reads l cs ∧
      valid (log ++ cs.flatMap out) ∧ s = state (log ++ cs.flatMap out) := by
  induction l generalizing log s with
  | nil =>
    rw [List.foldlM_nil]
    constructor
    · intro h
      cases h
      exact ⟨[], .nil, by simpa using ok, by simp⟩
    · rintro ⟨cs, all, -, rfl⟩
      cases all
      simp [pure, Except.pure]
  | cons a l ih =>
    rw [List.foldlM_cons, bind_ok_iff]
    constructor
    · rintro ⟨s₁, first, rest⟩
      obtain ⟨c, read, valid₁, rfl⟩ := (each log a s₁ ok).mp first
      obtain ⟨cs, all, valid₂, rfl⟩ := (ih valid₁).mp rest
      rw [List.append_assoc] at valid₂ ⊢
      exact ⟨c :: cs, .cons read all, valid₂, rfl⟩
    · rintro ⟨_, _ | @⟨_, c, _, cs, read, all⟩, valid₂, rfl⟩
      rw [List.flatMap_cons, ← List.append_assoc] at valid₂ ⊢
      have valid₁ := shorter _ _ valid₂
      exact ⟨state (log ++ out c), (each log a _ ok).mpr ⟨c, read, valid₁, rfl⟩,
        (ih valid₁).mpr ⟨cs, all, valid₂, rfl⟩⟩

end Permesh.Lib

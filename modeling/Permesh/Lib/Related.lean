import Permesh.Lib.Fold

/-!
# Related — two runs side by side

Two runs that may fail are compared: both fail, or both succeed with related results (`Both`). Loops
over the same list stay related when each turn does (`Both.foldlM`).
-/

namespace Permesh.Lib

variable {ε α β γ δ σ τ : Type}

/-- Both fail, or both succeed with related results. -/
inductive Both (R : α → β → Prop) : Except ε α → Except ε β → Prop
  | ok {a : α} {b : β} (h : R a b) : Both R (.ok a) (.ok b)
  | error (e e' : ε) : Both R (.error e) (.error e')

theorem Both.bind {R : α → β → Prop} {S : γ → δ → Prop} {x : Except ε α} {y : Except ε β}
    {f : α → Except ε γ} {g : β → Except ε δ} (h : Both R x y)
    (then_ : ∀ a b, x = .ok a → y = .ok b → R a b → Both S (f a) (g b)) :
    Both S (x >>= f) (y >>= g) := by
  cases h with
  | ok h => exact then_ _ _ rfl rfl h
  | error e e' => exact .error e e'

theorem Both.fails {R : α → β → Prop} {x : Except ε α} {y : Except ε β} (h : Both R x y) :
    x.toOption.isNone = y.toOption.isNone := by
  cases h <;> rfl

/-- **Two loops over the same list.** A turn is compared where both loops reach it. -/
theorem Both.foldlM {f : σ → α → Except ε σ} {g : τ → α → Except ε τ} {R : σ → τ → Prop}
    {l : List α} {s : σ} {t : τ}
    (step : ∀ before a after s' t', l = before ++ a :: after → before.foldlM f s = .ok s' →
      before.foldlM g t = .ok t' → R s' t' → Both R (f s' a) (g t' a))
    (start : R s t) : Both R (l.foldlM f s) (l.foldlM g t) := by
  induction l using List.reverseRecOn with
  | nil => exact .ok start
  | append_singleton init a ih =>
    rw [List.foldlM_append, List.foldlM_append]
    have first := ih fun before b after s' t' eq => step before b (after ++ [a]) s' t' (by simp [eq])
    refine first.bind fun s' t' hs ht related => ?_
    exact (step init a [] s' t' rfl hs ht related).bind fun _ _ _ _ related => .ok related

end Permesh.Lib

import Mathlib.Logic.Basic

/-!
# Loop — loops that end

A loop takes turns until one of them says that it does not go on. What each turn counts up, as long
as it stays below a bound, ends the loop within the bound (`loop_ends`).
-/

namespace Permesh.Lib

variable {σ : Type}

/-- The state behind a loop that has ended after at most so many turns. A turn says whether the loop
goes on. -/
def loop (turn : σ → σ × Bool) : (left : Nat) → σ → Option σ
  | 0, _ => none
  | left + 1, s =>
    match turn s with
    | (s, false) => some s
    | (s, true) => loop turn left s

variable {turn : σ → σ × Bool}

/-- **A loop ends** before its count reaches a bound. -/
theorem loop_ends (count : σ → Nat) (bound : Nat)
    (goes : ∀ s, (turn s).2 = true → count (turn s).1 = count s + 1 ∧ count (turn s).1 < bound)
    {left : Nat} (pos : 0 < left) {s : σ} (enough : bound ≤ count s + left) :
    (loop turn left s).isSome = true := by
  induction left generalizing s with
  | zero => exact absurd pos (Nat.lt_irrefl 0)
  | succ left ih =>
    have next := goes s
    unfold loop
    cases step : turn s with
    | mk s' more =>
      rw [step] at next
      cases more with
      | false => rfl
      | true =>
        obtain ⟨one, below⟩ := next rfl
        dsimp only at one below
        exact ih (by omega) (by omega)

/-- **The rule of a loop.** -/
theorem loop_rule {I Q : σ → Prop} (goes : ∀ s, I s → (turn s).2 = true → I (turn s).1)
    (stops : ∀ s, I s → (turn s).2 = false → Q (turn s).1) {left : Nat} {s s' : σ} (h : I s)
    (ended : loop turn left s = some s') : Q s' := by
  induction left generalizing s with
  | zero => cases ended
  | succ left ih =>
    have next := goes s h
    have last := stops s h
    unfold loop at ended
    cases step : turn s with
    | mk t more =>
      rw [step] at ended next last
      cases more with
      | false =>
        cases ended
        exact last rfl
      | true => exact ih (next rfl) ended

/-- **Two loops** whose turns go alike. -/
theorem loop_alike {turn' : σ → σ × Bool} {R : σ → σ → Prop}
    (step : ∀ s s', R s s' → (turn s).2 = (turn' s').2 ∧ R (turn s).1 (turn' s').1) {left : Nat}
    {s s' t t' : σ} (h : R s s') (ended : loop turn left s = some t)
    (ended' : loop turn' left s' = some t') : R t t' := by
  induction left generalizing s s' with
  | zero => cases ended
  | succ left ih =>
    obtain ⟨same, next⟩ := step s s' h
    unfold loop at ended ended'
    cases first : turn s with
    | mk u more =>
      cases second : turn' s' with
      | mk u' more' =>
        rw [first, second] at same next
        rw [first] at ended
        rw [second] at ended'
        obtain rfl : more = more' := same
        cases more with
        | false =>
          cases ended
          cases ended'
          exact next
        | true => exact ih next ended ended'

end Permesh.Lib

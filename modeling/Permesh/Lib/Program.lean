import Mathlib.Data.List.Forall2

/-!
# Program — programs on a state

A program is a state transformer with a result, which may be an error. `Ensures` is what holds behind
a program, and `Yields` what holds behind one that succeeds. Two runs that start from related states
may go on alike (`Alike`). A `Congruence` relates programs that are built alike from related programs:
that a program keeps a property of the state is one of them (`keeps_congruence`), and that two programs
which look into different environments do the same, as long as these agree on all they look at, is
another (`sees_congruence`).
-/

namespace Permesh.Lib

variable {σ α β ε : Type}

theorem run_bind (x : StateM σ α) (f : α → StateM σ β) (s : σ) :
    (x >>= f) s = f (x s).1 (x s).2 := rfl

/-- What each turn of a loop keeps of the result, the loop keeps. -/
theorem foldlM_keeps_mem {I : β → Prop} {f : β → α → StateM σ β} (l : List α)
    (step : ∀ b, ∀ a ∈ l, ∀ s, I b → I (f b a s).1) {b : β} (s : σ) (h : I b) :
    I (l.foldlM f b s).1 := by
  induction l generalizing b s with
  | nil => exact h
  | cons a l ih =>
    rw [List.foldlM_cons, run_bind]
    exact ih (fun b a mem => step b a (List.mem_cons_of_mem _ mem)) _
      (step b a List.mem_cons_self s h)

theorem foldlM_keeps {I : β → Prop} {f : β → α → StateM σ β}
    (step : ∀ b a s, I b → I (f b a s).1) (l : List α) {b : β} (s : σ) (h : I b) :
    I (l.foldlM f b s).1 :=
  foldlM_keeps_mem l (fun b a _ => step b a) s h

/-- Two loops that go through the same states. -/
theorem foldlM_both {γ : Type} {R : β → γ → Prop} {f : β → α → StateM σ β}
    {g : γ → α → StateM σ γ} (step : ∀ b c a s, R b c → ∃ b' c' s', R b' c' ∧
      f b a s = (b', s') ∧ g c a s = (c', s')) (l : List α) {b : β} {c : γ} (s : σ) (h : R b c) :
    ∃ b' c' s', R b' c' ∧ l.foldlM f b s = (b', s') ∧ l.foldlM g c s = (c', s') := by
  induction l generalizing b c s with
  | nil => exact ⟨b, c, s, h, rfl, rfl⟩
  | cons a l ih =>
    obtain ⟨b', c', s', h', hf, hg⟩ := step b c a s h
    rw [List.foldlM_cons, run_bind, hf, List.foldlM_cons, run_bind, hg]
    exact ih s' h'

/-- The state in front of the last turn of a loop that takes one. -/
def front (f : β → α → StateM σ β) (b : β) (l : List α) (s : σ) : Option σ :=
  l.getLast?.map fun _ => (l.dropLast.foldlM f b s).2

@[simp] theorem front_nil (f : β → α → StateM σ β) (b : β) (s : σ) : front f b [] s = none := rfl

@[simp] theorem front_concat (f : β → α → StateM σ β) (b : β) (l : List α) (a : α) (s : σ) :
    front f b (l ++ [a]) s = some (l.foldlM f b s).2 := by
  rw [front, List.getLast?_concat, List.dropLast_concat, Option.map_some]

theorem foldlM_concat (f : β → α → StateM σ β) (b : β) (l : List α) (a : α) (s : σ) :
    (l ++ [a]).foldlM f b s = f (l.foldlM f b s).1 a (l.foldlM f b s).2 := by
  rw [List.foldlM_append, run_bind, List.foldlM_cons, run_bind]
  rfl

/-! ## What holds behind a program -/

/-- From a state with `P`, the program leads to a result and a state with `Q`. -/
def Ensures (P : σ → Prop) (x : StateM σ α) (Q : α → σ → Prop) : Prop :=
  ∀ s, P s → Q (x s).1 (x s).2

theorem Ensures.bind {P : σ → Prop} {x : StateM σ α} {R : α → σ → Prop} {f : α → StateM σ β}
    {Q : β → σ → Prop} (first : Ensures P x R) (then_ : ∀ a, Ensures (R a) (f a) Q) :
    Ensures P (x >>= f) Q :=
  fun s h => then_ _ _ (first s h)

/-- What holds while a program goes on, and what holds when it has ended with an error. -/
def Until (P : σ → Prop) (Q : σ → Prop) (r : Except ε α) (s : σ) : Prop :=
  match r with
  | .ok _ => P s
  | .error _ => Q s

/-- A program that ends with its first error. -/
theorem Ensures.orElse {P Q : σ → Prop} {x : ExceptT ε (StateM σ) α}
    {f : α → ExceptT ε (StateM σ) β} (first : Ensures P x.run (Until P Q))
    (then_ : ∀ a, Ensures P (f a).run (Until P Q)) : Ensures P (x >>= f).run (Until P Q) := by
  rw [ExceptT.run_bind]
  refine Ensures.bind first fun r => ?_
  cases r with
  | ok a => exact then_ a
  | error e => exact fun s h => h

theorem Ensures.forM {P Q : σ → Prop} {f : α → ExceptT ε (StateM σ) PUnit}
    (each : ∀ a, Ensures P (f a).run (Until P Q)) (l : List α) :
    Ensures P (l.forM f).run (Until P Q) := by
  induction l with
  | nil => exact fun s h => h
  | cons a l ih =>
    rw [List.forM]
    exact (each a).orElse fun _ => ih

/-! ## Programs that may fail -/

/-- What holds behind a program that has succeeded, and behind one that has failed. -/
def Post (Q : α → σ → Prop) (E : σ → Prop) : Except ε α → σ → Prop
  | .ok a, s => Q a s
  | .error _, s => E s

variable {P : σ → Prop} {E : σ → Prop}

theorem Ensures.seq {x : ExceptT ε (StateM σ) α} {R : α → σ → Prop}
    {f : α → ExceptT ε (StateM σ) β} {Q : β → σ → Prop} (first : Ensures P x.run (Post R E))
    (then_ : ∀ a, Ensures (R a) (f a).run (Post Q E)) : Ensures P (x >>= f).run (Post Q E) := by
  rw [ExceptT.run_bind]
  refine Ensures.bind first fun r => ?_
  cases r with
  | ok a => exact then_ a
  | error e => exact fun s h => h

theorem Ensures.ret {Q : α → σ → Prop} {a : α} (h : ∀ s, P s → Q a s) :
    Ensures P (Pure.pure a : ExceptT ε (StateM σ) α).run (Post Q E) := h

theorem Ensures.lift {Q : α → σ → Prop} {x : Except ε α} (ok : ∀ a s, x = .ok a → P s → Q a s)
    (fails : ∀ s, P s → E s) :
    Ensures P (liftM x : ExceptT ε (StateM σ) α).run (Post Q E) := by
  cases x with
  | ok a => exact fun s h => ok a s rfl h
  | error e => exact fails

theorem Ensures.update {Q : σ → Prop} {f : σ → σ} (h : ∀ s, P s → Q (f s)) :
    Ensures P (modify f : ExceptT ε (StateM σ) PUnit).run (Post (fun _ => Q) E) := h

theorem Ensures.mono {P' : σ → Prop} {x : StateM σ α} {Q Q' : α → σ → Prop} (h : Ensures P x Q)
    (pre : ∀ s, P' s → P s) (post : ∀ a s, Q a s → Q' a s) : Ensures P' x Q' :=
  fun s hs => post _ _ (h s (pre s hs))

theorem Ensures.post {x : ExceptT ε (StateM σ) α} {Q Q' : α → σ → Prop}
    (h : Ensures P x.run (Post Q E)) (imp : ∀ a s, Q a s → Q' a s) :
    Ensures P x.run (Post Q' E) := by
  refine h.mono (fun _ hs => hs) fun r s => ?_
  cases r with
  | ok a => exact imp a s
  | error e => exact fun hs => hs

theorem Ensures.fails {x : ExceptT ε (StateM σ) α} {Q : α → σ → Prop} {E' : σ → Prop}
    (h : Ensures P x.run (Post Q E)) (imp : ∀ s, E s → E' s) : Ensures P x.run (Post Q E') := by
  refine h.mono (fun _ hs => hs) fun r s => ?_
  cases r with
  | ok a => exact fun hs => hs
  | error e => exact imp s

/-- **The rule of a loop**, over what is left of its list. -/
theorem Ensures.fold {I : List α → β → σ → Prop} {f : β → α → ExceptT ε (StateM σ) β} (l : List α)
    (each : ∀ a rest b, a :: rest <:+ l → Ensures (I (a :: rest) b) (f b a).run (Post (I rest) E))
    (b : β) : Ensures (I l b) (l.foldlM f b).run (Post (I []) E) := by
  induction l generalizing b with
  | nil => exact fun s h => h
  | cons a rest ih =>
    rw [List.foldlM_cons]
    refine (each a rest b (List.suffix_refl _)).seq fun b' => ih (fun a' rest' b suffix => ?_) b'
    exact each a' rest' b (suffix.trans (List.suffix_cons a rest))

/-- **The rule of a loop**, over what is left of its list and what is done. -/
theorem Ensures.foldDone {I : List α → (α → Prop) → β → σ → Prop}
    {f : β → α → ExceptT ε (StateM σ) β} (l : List α)
    (each : ∀ a rest done b, a :: rest <:+ l →
      Ensures (I (a :: rest) done b) (f b a).run (Post (I rest fun x => done x ∨ x = a) E)) (b : β) :
    Ensures (I l (fun _ => False) b) (l.foldlM f b).run (Post (I [] (· ∈ l)) E) := by
  have loop (rest : List α) (suffix : rest <:+ l) : ∀ done b, Ensures (I rest done b)
      (rest.foldlM f b).run (Post (I [] fun x => done x ∨ x ∈ rest) E) := by
    induction rest with
    | nil =>
      intro done b
      simp only [List.not_mem_nil, or_false]
      exact fun s h => h
    | cons a rest ih =>
      intro done b
      rw [List.foldlM_cons]
      refine (each a rest done b suffix).seq fun b' => ?_
      have more := ih ((List.suffix_cons a rest).trans suffix) (fun x => done x ∨ x = a) b'
      simp only [or_assoc, ← List.mem_cons] at more
      exact more
  have whole := loop l (List.suffix_refl l) (fun _ => False) b
  simp only [false_or] at whole
  exact whole

theorem bind_of_ok {x : ExceptT ε (StateM σ) α} {s s' : σ} {a : α} (h : x s = (.ok a, s'))
    (f : α → ExceptT ε (StateM σ) β) : (x >>= f) s = f a s' := by
  show (x >>= f).run s = (f a).run s'
  have first : x.run s = (.ok a, s') := h
  rw [ExceptT.run_bind, run_bind, first]

theorem bind_of_error {x : ExceptT ε (StateM σ) α} {s s' : σ} {e : ε} (h : x s = (.error e, s'))
    (f : α → ExceptT ε (StateM σ) β) : (x >>= f) s = (.error e, s') := by
  show (x >>= f).run s = (.error e, s')
  have first : x.run s = (.error e, s') := h
  rw [ExceptT.run_bind, run_bind, first]
  rfl

/-! ## What a program that succeeds leads to -/

/-- From a state with `P`, the program leads to a result and a state with `Q`, if it succeeds. -/
def Yields (P : σ → Prop) (x : ExceptT ε (StateM σ) α) (Q : α → σ → Prop) : Prop :=
  ∀ s a s', P s → x.run s = (.ok a, s') → Q a s'

theorem Yields.bind {P : σ → Prop} {x : ExceptT ε (StateM σ) α} {R : α → σ → Prop}
    {f : α → ExceptT ε (StateM σ) β} {Q : β → σ → Prop} (first : Yields P x R)
    (then_ : ∀ a, Yields (R a) (f a) Q) : Yields P (x >>= f) Q := by
  intro s b s' h run
  rw [ExceptT.run_bind, run_bind] at run
  cases step : x.run s with
  | mk result s₁ =>
    rw [step] at run
    cases result with
    | error e => cases run
    | ok a => exact then_ a s₁ b s' (first s a s₁ h step) run

theorem Yields.pure {P : σ → Prop} (a : α) :
    Yields P (Pure.pure a : ExceptT ε (StateM σ) α) fun _ => P := by
  intro s a' s' h run
  cases run
  exact h

theorem Yields.get {P : σ → Prop} :
    Yields P (MonadState.get : ExceptT ε (StateM σ) σ) fun a s => P s ∧ a = s := by
  intro s a s' h run
  cases run
  exact ⟨h, rfl⟩

theorem Yields.modify {P : σ → Prop} {Q : σ → Prop} {f : σ → σ} (h : ∀ s, P s → Q (f s)) :
    Yields P (modify f : ExceptT ε (StateM σ) PUnit) fun _ => Q := by
  intro s a s' hs run
  cases run
  exact h s hs

/-- **The rule of a loop.** -/
theorem Yields.forM {I : List α → σ → Prop} {f : α → ExceptT ε (StateM σ) PUnit} (l : List α)
    (each : ∀ before, ∀ a ∈ l, Yields (I before) (f a) fun _ => I (before ++ [a])) :
    Yields (I []) (l.forM f) fun _ => I l := by
  have loop (before rest : List α) (sub : ∀ a ∈ rest, a ∈ l) :
      Yields (I before) (rest.forM f) fun _ => I (before ++ rest) := by
    induction rest generalizing before with
    | nil =>
      rw [List.append_nil]
      exact Yields.pure _
    | cons a rest ih =>
      rw [List.forM]
      refine (each before a (sub a List.mem_cons_self)).bind fun _ => ?_
      have more := ih (before ++ [a]) fun a mem => sub a (List.mem_cons_of_mem _ mem)
      rwa [List.append_assoc] at more
  exact loop [] l fun _ mem => mem

/-! ## Two runs -/

/-- From related states, the programs have the same result and lead to related states. -/
def Alike (R : σ → σ → Prop) (x x' : StateM σ α) : Prop :=
  ∀ s s', R s s' → (x s).1 = (x' s').1 ∧ R (x s).2 (x' s').2

/-- From related states, the program has the same result and leads to related states. -/
def Stable (R : σ → σ → Prop) (x : StateM σ α) : Prop := Alike R x x

section Runs

variable {R : σ → σ → Prop}

theorem Alike.seq {x x' : ExceptT ε (StateM σ) α} {f f' : α → ExceptT ε (StateM σ) β}
    (first : Alike R x.run x'.run) (then_ : ∀ a, Alike R (f a).run (f' a).run) :
    Alike R (x >>= f).run (x' >>= f').run := by
  intro s s' related
  rw [ExceptT.run_bind, ExceptT.run_bind, run_bind, run_bind]
  obtain ⟨same, related'⟩ := first s s' related
  rw [← same]
  cases (x.run s).1 with
  | ok a => exact then_ a _ _ related'
  | error e => exact ⟨rfl, related'⟩

theorem Alike.fold {f f' : β → α → ExceptT ε (StateM σ) β} {l l' : List α}
    (each : List.Forall₂ (fun a a' => ∀ b, Alike R (f b a).run (f' b a').run) l l') (b : β) :
    Alike R (l.foldlM f b).run (l'.foldlM f' b).run := by
  induction each generalizing b with
  | nil => exact fun s s' related => ⟨rfl, related⟩
  | cons first _ ih =>
    rw [List.foldlM_cons, List.foldlM_cons]
    exact (first b).seq ih

theorem Stable.seq {x : ExceptT ε (StateM σ) α} {f : α → ExceptT ε (StateM σ) β}
    (first : Stable R x.run) (then_ : ∀ a, Stable R (f a).run) : Stable R (x >>= f).run :=
  Alike.seq first then_

theorem Stable.result (r : Except ε α) :
    Stable R (ExceptT.mk (Pure.pure r) : ExceptT ε (StateM σ) α).run :=
  fun _ _ related => ⟨rfl, related⟩

theorem Stable.update {f : σ → σ} (h : ∀ s s', R s s' → R (f s) (f s')) :
    Stable R (modify f : ExceptT ε (StateM σ) PUnit).run := fun s s' related => ⟨rfl, h s s' related⟩

theorem Stable.fold {f : β → α → ExceptT ε (StateM σ) β} (each : ∀ b a, Stable R (f b a).run)
    (l : List α) (b : β) : Stable R (l.foldlM f b).run :=
  Alike.fold (List.forall₂_same.mpr fun a _ b => each b a) b

end Runs

/-! ## Programs that are built alike -/

/-- A relation between programs that holds of programs built alike from related programs. -/
structure Congruence (R : (α : Type) → StateM σ α → StateM σ α → Prop) : Prop where
  pure {α : Type} (a : α) : R α (Pure.pure a) (Pure.pure a)
  get : R σ MonadState.get MonadState.get
  bind {α β : Type} {x x' : StateM σ α} {f f' : α → StateM σ β} (first : R α x x')
    (then_ : ∀ a, R β (f a) (f' a)) : R β (x >>= f) (x' >>= f')

variable {R : (α : Type) → StateM σ α → StateM σ α → Prop}

/-- **The rule of a loop.** -/
theorem Congruence.foldlM (congr : Congruence R) {f f' : β → α → StateM σ β}
    (step : ∀ b a, R β (f b a) (f' b a)) (l : List α) (b : β) :
    R β (l.foldlM f b) (l.foldlM f' b) := by
  induction l generalizing b with
  | nil => exact congr.pure b
  | cons a l ih =>
    rw [List.foldlM_cons, List.foldlM_cons]
    exact congr.bind (step b a) ih

theorem Congruence.orElse (congr : Congruence R) {x x' : ExceptT ε (StateM σ) α}
    {f f' : α → ExceptT ε (StateM σ) β} (first : R _ x.run x'.run)
    (then_ : ∀ a, R _ (f a).run (f' a).run) : R _ (x >>= f).run (x' >>= f').run := by
  rw [ExceptT.run_bind, ExceptT.run_bind]
  refine congr.bind first fun r => ?_
  cases r with
  | ok a => exact then_ a
  | error e => exact congr.pure (Except.error e)

theorem Congruence.lift (congr : Congruence R) (e : Except ε α) :
    R _ (liftM e : ExceptT ε (StateM σ) α).run (liftM e : ExceptT ε (StateM σ) α).run :=
  congr.pure e

theorem Congruence.forM (congr : Congruence R) {f f' : α → ExceptT ε (StateM σ) PUnit}
    (each : ∀ a, R _ (f a).run (f' a).run) (l : List α) :
    R _ (l.forM f).run (l.forM f').run := by
  induction l with
  | nil => exact congr.pure (Except.ok ())
  | cons a l ih =>
    rw [List.forM, List.forM]
    exact congr.orElse (each a) fun _ => ih

/-! ## Properties of the state -/

/-- The program keeps a property of the state. -/
def Keeps (I : σ → Prop) (x : StateM σ α) : Prop := ∀ s, I s → I (x s).2

theorem keeps_congruence (I : σ → Prop) : Congruence fun _ x (_ : StateM σ _) => Keeps I x where
  pure _ _ h := h
  get _ h := h
  bind first then_ s h := then_ _ _ (first s h)

section Keeps

variable {I : σ → Prop}

theorem Keeps.foldlM {f : β → α → StateM σ β} (each : ∀ b a, Keeps I (f b a)) (l : List α) (b : β) :
    Keeps I (l.foldlM f b) :=
  @Congruence.foldlM _ _ _ _ (keeps_congruence I) f f each l b

theorem Keeps.seq {x : ExceptT ε (StateM σ) α} {f : α → ExceptT ε (StateM σ) β}
    (first : Keeps I x.run) (then_ : ∀ a, Keeps I (f a).run) : Keeps I (x >>= f).run := by
  intro s h
  rw [ExceptT.run_bind, run_bind]
  have kept := first s h
  cases (x.run s).1 with
  | ok a => exact then_ a _ kept
  | error e => exact kept

theorem Keeps.result (r : Except ε α) :
    Keeps I (ExceptT.mk (Pure.pure r) : ExceptT ε (StateM σ) α).run := fun _ h => h

theorem Keeps.update {f : σ → σ} (h : ∀ s, I s → I (f s)) :
    Keeps I (modify f : ExceptT ε (StateM σ) PUnit).run := h

theorem Keeps.fold {f : β → α → ExceptT ε (StateM σ) β} (each : ∀ b a, Keeps I (f b a).run)
    (l : List α) (b : β) : Keeps I (l.foldlM f b).run := by
  induction l generalizing b with
  | nil => exact Keeps.result _
  | cons a l ih =>
    rw [List.foldlM_cons]
    exact (each b a).seq ih

theorem Keeps.forM {f : α → ExceptT ε (StateM σ) PUnit} (each : ∀ a, Keeps I (f a).run)
    (l : List α) : Keeps I (l.forM f).run := by
  induction l with
  | nil => exact Keeps.result _
  | cons a l ih =>
    rw [List.forM]
    exact (each a).seq fun _ => ih

end Keeps

/-! ## Programs that fail -/

/-- The program does not succeed. -/
def Fails (x : ExceptT ε (StateM σ) α) : Prop := ∀ s a, (x s).1 ≠ .ok a

/-- A program whose last part fails. -/
theorem Fails.seq {x : ExceptT ε (StateM σ) α} {f : α → ExceptT ε (StateM σ) β}
    (last : ∀ a, Fails (f a)) : Fails (x >>= f) := by
  intro s b
  show ((x >>= f).run s).1 ≠ .ok b
  rw [ExceptT.run_bind, run_bind]
  cases (x.run s).1 with
  | ok a => exact last a _ b
  | error e => exact fun h => (by cases h)

theorem Fails.throw (e : ε) : Fails (MonadExcept.throw e : ExceptT ε (StateM σ) α) :=
  fun _ _ h => (by cases h)

/-! ## What a program looks at -/

/-- The program advances the count, and another one does the same if all that is counted meanwhile is
the same for both. -/
def Sees (count : σ → Nat) (same : Nat → Prop) (x x' : StateM σ α) : Prop :=
  ∀ s, count s ≤ count (x s).2 ∧
    ((∀ i, count s < i → i ≤ count (x s).2 → same i) → x' s = x s)

theorem sees_congruence (count : σ → Nat) (same : Nat → Prop) :
    Congruence fun _ => Sees count same where
  pure _ _ := ⟨Nat.le_refl _, fun _ => rfl⟩
  get _ := ⟨Nat.le_refl _, fun _ => rfl⟩
  bind := by
    intro α β x x' f f' first then_ s
    obtain ⟨le, eq⟩ := first s
    obtain ⟨le', eq'⟩ := then_ (x s).1 (x s).2
    refine ⟨Nat.le_trans le le', fun agree => ?_⟩
    show f' (x' s).1 (x' s).2 = f (x s).1 (x s).2
    rw [eq fun i lt up => agree i lt (Nat.le_trans up le')]
    exact eq' fun i lt up => agree i (Nat.lt_of_le_of_lt le lt) up

end Permesh.Lib

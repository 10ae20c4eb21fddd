import Permesh.Lib.Async

/-!
# Schedules end

A machine cannot go on for ever. Each signal takes something away that is not given back: a part
of the input that is still allowed (`Meter.room`), a part of the output (`Meter.budget`), a byte of
the frame in progress, or one of the awaits that the task has left (`Task.Awaits`). So a schedule is
no longer than what there is to take (`Machine.run_bounded`), and a suspended machine that is not
done waits for a signal that a patient environment gives (`Machine.Fits.waits`).
-/

namespace Permesh.Lib

variable {σ : Sig}

/-- What the two ends of a port still allow. Bytes that complete no frame use up room, a frame that
is built uses up its length. -/
structure Meter (p : Port σ) where
  room : σ.In → Nat
  budget : σ.Out → Nat
  scan_le : ∀ i, room (p.scan i).1 ≤ room i
  feed_le : ∀ i chunk, room (p.feed i chunk) ≤ room i
  scan_lt : ∀ i chunk, chunk ≠ [] → (p.scan (p.feed i chunk)).2 = none →
    room (p.scan (p.feed i chunk)).1 < room i
  begin_le : ∀ {o e bytes o'}, p.begin o e = .ok (bytes, o') → budget o' + bytes.length ≤ budget o

/-! ## Awaits -/

/-- `n` bounds the outside calls along each branch of a job. -/
def Job.Calls : Job σ → Nat → Prop
  | .done _, _ => True
  | .send _ k, n => ∀ r, (k r).Calls n
  | .call _ next, n => ∃ m, m + 1 ≤ n ∧ next.Calls m

/-- `n` bounds the awaits of frames, calls and races along each branch of a task, and no assignment
gives back any of the budget. -/
def Task.Awaits (budget : σ.Out → Nat) : Task σ → Nat → Prop
  | .done _, _ => True
  | .frame k, n => ∃ m, m + 1 ≤ n ∧ ∀ r, (k r).Awaits budget m
  | .send _ k, n => ∀ r, (k r).Awaits budget n
  | .set f next, n => (∀ o, budget (f o) ≤ budget o) ∧ next.Awaits budget n
  | .select job k, n => ∃ c m, c + m + 2 ≤ n ∧ job.Calls c ∧ ∀ w, (k w).Awaits budget m
  | .racing job k, n => ∃ c m, c + m + 1 ≤ n ∧ job.Calls c ∧ ∀ w, (k w).Awaits budget m

/-- The number of awaits of an async function that runs inside a race. -/
def JobM.Calls {α : Type} (m : JobM σ α) (n : Nat) : Prop :=
  ∀ k j, (∀ r, (k r).Calls j) → (m k).Calls (n + j)

/-- The number of awaits of an async function that owns the input. -/
def TaskM.Awaits {α : Type} (budget : σ.Out → Nat) (m : TaskM σ α) (n : Nat) : Prop :=
  ∀ k j, (∀ r, (k r).Awaits budget j) → (m k).Awaits budget (n + j)

section Rules

variable {α β : Type} {budget : σ.Out → Nat} {n n' : Nat}

theorem Job.Calls.mono : ∀ {job : Job σ} {n n' : Nat}, job.Calls n → n ≤ n' → job.Calls n'
  | .done _, _, _, _, _ => trivial
  | .send _ _, _, _, h, le => fun r => (h r).mono le
  | .call _ _, _, _, ⟨m, hm, h⟩, le => ⟨m, Nat.le_trans hm le, h⟩

theorem Task.Awaits.mono : ∀ {task : Task σ} {n n' : Nat}, task.Awaits budget n → n ≤ n' →
    task.Awaits budget n'
  | .done _, _, _, _, _ => trivial
  | .frame _, _, _, ⟨m, hm, h⟩, le => ⟨m, Nat.le_trans hm le, h⟩
  | .send _ _, _, _, h, le => fun r => (h r).mono le
  | .set _ _, _, _, ⟨hf, h⟩, le => ⟨hf, h.mono le⟩
  | .select _ _, _, _, ⟨c, m, hm, h⟩, le => ⟨c, m, Nat.le_trans hm le, h⟩
  | .racing _ _, _, _, ⟨c, m, hm, h⟩, le => ⟨c, m, Nat.le_trans hm le, h⟩

theorem JobM.Calls.pure (a : α) : JobM.Calls (σ := σ) (Pure.pure a : JobM σ α) 0 :=
  fun _ j h => (h (.ok a)).mono (Nat.le_add_left j 0)

theorem JobM.Calls.fail (e : σ.Fail) : JobM.Calls (JobM.fail e : JobM σ α) 0 :=
  fun _ j h => (h (.error e)).mono (Nat.le_add_left j 0)

theorem JobM.Calls.send (e : σ.Event) : JobM.Calls (JobM.send e) 0 :=
  fun _ j h r => (h r).mono (Nat.le_add_left j 0)

theorem JobM.Calls.call (c : σ.Call) (answer : Except σ.Fail α) :
    JobM.Calls (JobM.call c answer) 1 :=
  fun _ j h => ⟨j, Nat.le_of_eq (Nat.add_comm j 1), h answer⟩

/-- A failure leaves at once, so what follows counts on the way of success only. -/
theorem JobM.Calls.bind {m : JobM σ β} {f : β → JobM σ α} (hm : JobM.Calls m n)
    (hf : ∀ b, JobM.Calls (f b) n') : JobM.Calls (m >>= f) (n + n') := by
  intro k j h
  apply Nat.add_assoc n n' j ▸ hm (JobM.follow f k) (n' + j)
  intro r
  cases r with
  | ok b => exact hf b k j h
  | error e => exact (h (.error e)).mono (Nat.le_add_left j n')

theorem JobM.Calls.ite {c : Prop} [Decidable c] {m m' : JobM σ α} (pos : JobM.Calls m n)
    (neg : JobM.Calls m' n) : JobM.Calls (if c then m else m') n := by
  split
  · exact pos
  · exact neg

theorem TaskM.Awaits.pure (a : α) : TaskM.Awaits budget (Pure.pure a : TaskM σ α) 0 :=
  fun _ j h => (h (.ok a)).mono (Nat.le_add_left j 0)

theorem TaskM.Awaits.fail (e : σ.Fail) : TaskM.Awaits budget (TaskM.fail e : TaskM σ α) 0 :=
  fun _ j h => (h (.error e)).mono (Nat.le_add_left j 0)

theorem TaskM.Awaits.frame : TaskM.Awaits budget (TaskM.frame : TaskM σ σ.Frame) 1 :=
  fun _ j h => ⟨j, Nat.le_of_eq (Nat.add_comm j 1), h⟩

theorem TaskM.Awaits.send (e : σ.Event) : TaskM.Awaits budget (TaskM.send e) 0 :=
  fun _ j h r => (h r).mono (Nat.le_add_left j 0)

theorem TaskM.Awaits.set {f : σ.Out → σ.Out} (hf : ∀ o, budget (f o) ≤ budget o) :
    TaskM.Awaits budget (TaskM.set f) 0 :=
  fun _ j h => ⟨hf, (h (.ok ())).mono (Nat.le_add_left j 0)⟩

/-- A race is polled, its job makes its calls, and one branch wins. -/
theorem TaskM.Awaits.select {job : JobM σ Unit} {outcome : Winner σ → Except σ.Fail Unit}
    (hj : JobM.Calls job n) : TaskM.Awaits budget (TaskM.select job outcome) (n + 2) :=
  fun _ j h => ⟨n + 0, j, by omega, hj .done 0 fun _ => trivial, fun w => h (outcome w)⟩

theorem TaskM.Awaits.bind {m : TaskM σ β} {f : β → TaskM σ α} {v : Nat}
    (hm : TaskM.Awaits budget m n) (hf : ∀ b, TaskM.Awaits budget (f b) v) :
    TaskM.Awaits budget (m >>= f) (n + v) := by
  intro k j h
  apply Nat.add_assoc n v j ▸ hm (TaskM.follow f k) (v + j)
  intro r
  cases r with
  | ok b => exact hf b k j h
  | error e => exact (h (.error e)).mono (Nat.le_add_left j v)

theorem TaskM.Awaits.mono {m : TaskM σ α} (h : TaskM.Awaits budget m n) (le : n ≤ n') :
    TaskM.Awaits budget m n' :=
  fun k j hk => (h k j hk).mono (Nat.add_le_add_right le j)

theorem TaskM.Awaits.ite {c : Prop} [Decidable c] {m m' : TaskM σ α}
    (pos : TaskM.Awaits budget m n) (neg : TaskM.Awaits budget m' n) :
    TaskM.Awaits budget (if c then m else m') n := by
  split
  · exact pos
  · exact neg

end Rules

/-! ## What is left -/

section Left

variable {p : Port σ} (M : Meter p)

/-- What is left of a send: its bytes, and the report of its end. -/
def Sending.left (s : Sending σ) : Nat := s.bytes.length - s.written + 1

/-- What is left of a link. A byte of the budget pays for itself and for its share of the report. -/
def Meter.left (l : Link σ) : Nat :=
  M.room l.input + 2 * M.budget l.output + l.sending.elim 0 Sending.left

variable {M}

/-- A frame is paid for when it is built. -/
theorem Meter.left_offer {l : Link σ} {e : σ.Event} {bytes : List UInt8} {out : σ.Out}
    (hb : p.begin l.output e = .ok (bytes, out)) : M.left (l.offer e bytes out) ≤ M.left l := by
  have paid := M.begin_le hb
  have pos : 0 < bytes.length := List.length_pos_iff.mpr (p.begin_ne hb)
  simp only [Meter.left, Link.offer, Option.elim_some, Sending.left]
  omega

theorem Meter.left_saw (l : Link σ) (r : Except σ.Fail σ.Frame) : M.left (l.saw r) = M.left l := by
  cases r <;> rfl

/-- What is left when the input is replaced and no send is in progress. -/
theorem Meter.left_input {l : Link σ} {i : σ.In} (h : M.room i ≤ M.room l.input) :
    M.left { l with input := i } ≤ M.left l := by
  simp only [Meter.left]
  omega

theorem Meter.left_drop (l : Link σ) : M.left { l with sending := none } ≤ M.left l := by
  simp only [Meter.left, Option.elim_none]
  omega

theorem Job.advance_left : ∀ {job : Job σ} (l : Link σ) {c : Nat}, job.Calls c →
    (job.advance p l).1.Calls c ∧ M.left (job.advance p l).2 ≤ M.left l
  | .done _, l, _, h => ⟨h, Nat.le_refl _⟩
  | .send e k, l, c, h => by
    cases hb : p.begin l.output e with
    | error f => simpa only [Job.advance, hb] using Job.advance_left l (h (.error f))
    | ok pair =>
      simp only [Job.advance, hb]
      exact ⟨h, Meter.left_offer hb⟩
  | .call _ _, _, _, h => ⟨h, Nat.le_refl _⟩

/-- Running to the next suspension takes nothing that is not paid for. -/
theorem Task.advance_left : ∀ {task : Task σ} (l : Link σ) {n : Nat}, task.Awaits M.budget n →
    ∃ n' ≤ n, (task.advance p l).1.Awaits M.budget n' ∧
      M.left (task.advance p l).2 + n' ≤ M.left l + n
  | .done _, l, n, h => ⟨n, Nat.le_refl n, h, Nat.le_refl _⟩
  | .frame k, l, n, h => by
    have scanned : M.left { l with input := (p.scan l.input).1 } ≤ M.left l :=
      Meter.left_input (M.scan_le l.input)
    cases hscan : p.scan l.input with
    | mk i r =>
      rw [hscan] at scanned
      cases r with
      | none =>
        simp only [Task.advance, hscan]
        exact ⟨n, Nat.le_refl n, h, Nat.add_le_add_right scanned n⟩
      | some r =>
        obtain ⟨m, hm, hk⟩ := h
        obtain ⟨n', hn, ha, hl⟩ := Task.advance_left ({ l with input := i }.saw r) (hk r)
        rw [Meter.left_saw] at hl
        dsimp only at scanned
        simp only [Task.advance, hscan]
        exact ⟨n', by omega, ha, by omega⟩
  | .send e k, l, n, h => by
    cases hb : p.begin l.output e with
    | error f => simpa only [Task.advance, hb] using Task.advance_left l (h (.error f))
    | ok pair =>
      simp only [Task.advance, hb]
      exact ⟨n, Nat.le_refl n, h, Nat.add_le_add_right (Meter.left_offer hb) n⟩
  | .set f next, l, n, ⟨hf, h⟩ => by
    obtain ⟨n', hn, ha, hl⟩ := Task.advance_left { l with output := f l.output } h
    have := hf l.output
    refine ⟨n', hn, ha, Nat.le_trans hl ?_⟩
    simp only [Meter.left]
    omega
  | .select job k, l, n, h => by
    have scanned : M.left { l with input := (p.scan l.input).1 } ≤ M.left l :=
      Meter.left_input (M.scan_le l.input)
    cases hscan : p.scan l.input with
    | mk i r =>
      rw [hscan] at scanned
      cases r with
      | none =>
        simp only [Task.advance, hscan]
        exact ⟨n, Nat.le_refl n, h, Nat.add_le_add_right scanned n⟩
      | some r =>
        obtain ⟨c, m, hm, -, hk⟩ := h
        obtain ⟨n', hn, ha, hl⟩ := Task.advance_left ({ l with input := i }.saw r) (hk (.input r))
        rw [Meter.left_saw] at hl
        dsimp only at scanned
        simp only [Task.advance, hscan]
        exact ⟨n', by omega, ha, by omega⟩
  | .racing job k, l, n, h => by
    obtain ⟨c, m, hm, hj, hk⟩ := h
    obtain ⟨hc, hl⟩ := Job.advance_left (M := M) l hj
    cases hadv : job.advance p l with
    | mk job' l' =>
      rw [hadv] at hc hl
      cases job' with
      | done r =>
        obtain ⟨n', hn, ha, hl'⟩ := Task.advance_left l' (hk (.job r))
        simp only [Task.advance, hadv]
        exact ⟨n', by omega, ha, by dsimp only at hl; omega⟩
      | _ =>
        simp only [Task.advance, hadv]
        exact ⟨n, Nat.le_refl n, ⟨c, m, hm, hc, hk⟩, Nat.add_le_add_right hl n⟩

/-- A task that goes on with less takes something away. -/
theorem Machine.resume_left {m : Machine σ} {t : Task σ} {l : Link σ} {n v : Nat}
    (ht : t.Awaits M.budget v) (less : M.left l + v < M.left m.link + n) :
    ∃ n'', (Machine.resume p t l).task.Awaits M.budget n'' ∧
      M.left (Machine.resume p t l).link + n'' < M.left m.link + n := by
  obtain ⟨n'', -, ha, hl⟩ := Task.advance_left (M := M) l ht
  exact ⟨n'', ha, Nat.lt_of_le_of_lt hl less⟩

/-- Whoever awaits a send awaits no more behind it. -/
theorem Task.Awaits.answer {task t : Task σ} {r : Except σ.Fail Unit} {n : Nat}
    (h : task.Awaits M.budget n) (ht : task.answer r = some t) : t.Awaits M.budget n := by
  cases task with
  | send e k =>
    cases ht
    exact h r
  | racing job k =>
    cases job with
    | send e kj =>
      cases ht
      obtain ⟨c, m, hm, hj, hk⟩ := h
      exact ⟨c, m, hm, hj r, hk⟩
    | _ => cases ht
  | _ => cases ht

/-- The end of a send takes its report away. -/
theorem Meter.left_settle {l : Link σ} {snd : Sending σ} (hs : l.sending = some snd) :
    M.left { l with sending := none } < M.left l := by
  simp only [Meter.left, hs, Option.elim_none, Option.elim_some, Sending.left]
  omega

/-- A chunk that completes no frame uses up room. -/
theorem Meter.left_pending {l : Link σ} {chunk : List UInt8} {i : σ.In} (ne : chunk ≠ [])
    (hscan : p.scan (p.feed l.input chunk) = (i, none)) :
    M.left { l with input := i } < M.left l := by
  have less := M.scan_lt l.input chunk ne
  rw [hscan] at less
  have lt : M.room i < M.room l.input := less rfl
  simp only [Meter.left]
  omega

/-- A frame that is read gives nothing back, whether or not a send is dropped for it. -/
theorem Meter.left_decided {l : Link σ} {chunk : List UInt8} {i : σ.In} {s : Option (Sending σ)}
    {r : Except σ.Fail σ.Frame} (hscan : p.scan (p.feed l.input chunk) = (i, some r))
    (hs : s = none ∨ s = l.sending) :
    M.left ({ l with input := i, sending := s }.saw r) ≤ M.left l := by
  have fed := M.feed_le l.input chunk
  have fewer := M.scan_le (p.feed l.input chunk)
  rw [hscan] at fewer
  rw [Meter.left_saw]
  rcases hs with rfl | rfl <;> simp only [Meter.left, Option.elim_none] <;> dsimp only at fewer <;>
    omega

/-- **Every step takes something away.** -/
theorem Machine.step_left {m m' : Machine σ} {s : Signal} {n : Nat}
    (h : m.task.Awaits M.budget n) (hm : m.step p s = some m') :
    ∃ n', m'.task.Awaits M.budget n' ∧ M.left m'.link + n' < M.left m.link + n := by
  cases Machine.step_moves hm with
  | @frame k l chunk ne =>
    cases hscan : p.scan (p.feed l.input chunk) with
    | mk i r =>
      cases r with
      | none =>
        simp only [Machine.resume, Task.advance, hscan]
        exact ⟨n, h, Nat.add_lt_add_right (Meter.left_pending ne hscan) n⟩
      | some r =>
        obtain ⟨j, hj, hk⟩ := h
        have le := Meter.left_decided (M := M) hscan (.inr rfl)
        simp only [Machine.resume, Task.advance, hscan]
        exact Machine.resume_left (m := ⟨.frame k, l⟩) (hk r) (by dsimp only at le ⊢; omega)
  | @select job k l chunk ne =>
    cases hscan : p.scan (p.feed l.input chunk) with
    | mk i r =>
      cases r with
      | none =>
        simp only [Machine.resume, Task.advance, hscan]
        exact ⟨n, h, Nat.add_lt_add_right (Meter.left_pending ne hscan) n⟩
      | some r =>
        obtain ⟨c, j, hj, -, hk⟩ := h
        have le := Meter.left_decided (M := M) hscan (.inr rfl)
        simp only [Machine.resume, Task.advance, hscan]
        exact Machine.resume_left (m := ⟨.select job k, l⟩) (hk (.input r))
          (by dsimp only at le ⊢; omega)
  | undecided ne hscan => exact ⟨n, h, Nat.add_lt_add_right (Meter.left_pending ne hscan) n⟩
  | decided ne hscan =>
    obtain ⟨c, j, hj, -, hk⟩ := h
    have le := Meter.left_decided (M := M) hscan (.inl rfl)
    exact Machine.resume_left (hk _) (by dsimp only; omega)
  | frameless =>
    obtain ⟨j, hj, hk⟩ := h
    exact Machine.resume_left (hk _) (by dsimp only; omega)
  | unraced =>
    obtain ⟨c, j, hj, -, hk⟩ := h
    exact Machine.resume_left (hk _) (by dsimp only; omega)
  | @lost job k l =>
    obtain ⟨c, j, hj, -, hk⟩ := h
    have drop := Meter.left_drop (M := M) l
    exact Machine.resume_left (hk _) (by dsimp only; omega)
  | poll =>
    obtain ⟨c, j, hj, hc, hk⟩ := h
    exact Machine.resume_left (v := c + j + 1) ⟨c, j, Nat.le_refl _, hc, hk⟩ (by dsimp only; omega)
  | reply =>
    obtain ⟨c, j, hj, ⟨c', hc', hn⟩, hk⟩ := h
    exact Machine.resume_left (v := c' + j + 1) ⟨c', j, Nat.le_refl _, hn, hk⟩
      (by dsimp only; omega)
  | accept sending pos fits =>
    refine ⟨n, h, ?_⟩
    simp only [Meter.left, Link.accept, sending, Option.elim_some, Sending.left]
    omega
  | flushed sending _ answer =>
    exact Machine.resume_left (Task.Awaits.answer h answer)
      (Nat.add_lt_add_right (Meter.left_settle sending) n)
  | failed _ sending answer =>
    exact Machine.resume_left (Task.Awaits.answer h answer)
      (Nat.add_lt_add_right (Meter.left_settle sending) n)

/-- **A schedule is no longer than what is left.** -/
theorem Machine.run_left : ∀ {signals : List Signal} {m m' : Machine σ} {n : Nat},
    m.task.Awaits M.budget n → m.run p signals = some m' →
      signals.length ≤ M.left m.link + n
  | [], _, _, _, _, _ => Nat.zero_le _
  | s :: rest, m, m', n, h, hr => by
    obtain ⟨mid, hm, hr⟩ := Option.bind_eq_some_iff.mp hr
    obtain ⟨n', h', less⟩ := Machine.step_left h hm
    have := Machine.run_left h' hr
    rw [List.length_cons]
    omega

theorem Machine.run_awaits : ∀ {signals : List Signal} {m m' : Machine σ} {n : Nat},
    m.task.Awaits M.budget n → m.run p signals = some m' → ∃ n', m'.task.Awaits M.budget n'
  | [], _, _, n, h, hr => by
    cases hr
    exact ⟨n, h⟩
  | _ :: _, _, _, _, h, hr => by
    obtain ⟨mid, hm, hr⟩ := Option.bind_eq_some_iff.mp hr
    obtain ⟨n', h', -⟩ := Machine.step_left h hm
    exact Machine.run_awaits h' hr

/-- **Every run of a task is bounded**, whatever the environment does. -/
theorem Task.run_bounded {task : Task σ} {input : σ.In} {output : σ.Out} {n : Nat}
    (h : task.Awaits M.budget n) {signals : List Signal} {m : Machine σ}
    (hr : (Machine.resume p task ⟨input, output, none, [], []⟩).run p signals = some m) :
    signals.length ≤ M.room input + 2 * M.budget output + n := by
  obtain ⟨n', -, ha, hl⟩ := Task.advance_left (M := M) ⟨input, output, none, [], []⟩ h
  have := Machine.run_left (M := M) ha hr
  simp only [Meter.left, Option.elim_none, Nat.add_zero] at hl
  exact Nat.le_trans this hl

end Left

/-! ## Patience -/

/-- A signal of an environment in which nothing fails and nothing is late. -/
def Signal.patient : Signal → Bool
  | .read _ | .poll | .reply | .accept _ | .flushed => true
  | .eof | .readError | .readTimeout | .writeError | .writeTimeout | .deadline => false

/-- The bytes that a signal brings. -/
def Signal.bytes : Signal → List UInt8
  | .read chunk => chunk
  | _ => []

/-- A send in progress goes on: there is a byte to take, or the flush is due. -/
theorem Machine.open_sending {p : Port σ} {m : Machine σ} {s : Sending σ}
    (hs : m.link.sending = some s) (le : s.written ≤ s.bytes.length)
    (answers : (m.task.answer (.ok ())).isSome = true) :
    ∃ signal, signal.patient = true ∧ signal.bytes = [] ∧ (m.step p signal).isSome = true := by
  rcases Nat.lt_or_eq_of_le le with lt | whole
  · refine ⟨.accept (s.bytes.length - s.written), rfl, rfl, ?_⟩
    simp only [Machine.step, hs]
    rw [if_pos ⟨by omega, by omega⟩]
    rfl
  · refine ⟨.flushed, rfl, rfl, ?_⟩
    simp only [Machine.step, hs, if_pos whole, Machine.settle, Option.isSome_map, answers]

/-- **A machine is done, reads, or waits for a patient signal** that brings no bytes. -/
theorem Machine.Fits.waits {p : Port σ} {m : Machine σ} (h : m.Fits) :
    (∃ r, m.task = .done r) ∨ (∃ k, m.task = .frame k) ∨
      ∃ signal, signal.patient = true ∧ signal.bytes = [] ∧ (m.step p signal).isSome = true := by
  obtain ⟨⟨task, l⟩, -, owes⟩ := m, h
  have written {s : Sending σ} {fails next : List (Item σ) → Prop} {t : List (Item σ)}
      (ho : s.Owes (fun _ => True) (fun _ => true) fails next t) : s.written ≤ s.bytes.length := by
    rw [Sending.Owes] at ho
    split at ho
    next whole => exact Nat.le_of_eq whole
    next => exact Nat.le_of_lt ho.1
  dsimp only at owes ⊢
  cases hs : l.sending with
  | none =>
    rw [hs] at owes
    cases task with
    | done r => exact .inl ⟨r, rfl⟩
    | frame k => exact .inr (.inl ⟨k, rfl⟩)
    | select job k => exact .inr (.inr ⟨.poll, rfl, rfl, rfl⟩)
    | racing job k =>
      cases job with
      | call c next => exact .inr (.inr ⟨.reply, rfl, rfl, rfl⟩)
      | _ => cases owes
    | _ => cases owes
  | some s =>
    rw [hs] at owes
    cases task with
    | send e k => exact .inr (.inr (Machine.open_sending hs (written owes.2) rfl))
    | racing job k =>
      cases job with
      | send e kj => exact .inr (.inr (Machine.open_sending hs (written owes.2) rfl))
      | _ => cases owes
    | _ => cases owes

/-- **A patient environment leads to the end**, from every state and in no more steps than are
left. -/
theorem Machine.run_ends {p : Port σ} {M : Meter p} : ∀ {fuel n : Nat} {m : Machine σ}, m.Fits →
    m.task.Awaits M.budget n → M.left m.link + n ≤ fuel →
      ∃ signals m' r, (∀ s ∈ signals, s.patient = true) ∧ m.run p signals = some m' ∧
        m'.task = .done r
  | fuel, n, m, hf, h, le => by
    have goes : (∃ r, m.task = .done r) ∨
        ∃ signal, signal.patient = true ∧ (m.step p signal).isSome = true := by
      rcases hf.waits (p := p) with done | ⟨k, hk⟩ | ⟨signal, patient, -, hs⟩
      · exact .inl done
      · exact .inr ⟨.read [0], rfl, by simp only [Machine.step, hk, List.cons_ne_self, if_false,
          Option.isSome_some]⟩
      · exact .inr ⟨signal, patient, hs⟩
    rcases goes with ⟨r, hr⟩ | ⟨signal, patient, hs⟩
    · exact ⟨[], m, r, fun s hs => (by cases hs), rfl, hr⟩
    obtain ⟨mid, hm⟩ := Option.isSome_iff_exists.mp hs
    obtain ⟨n', h', less⟩ := Machine.step_left h hm
    cases fuel with
    | zero => omega
    | succ fuel =>
      have room : M.left mid.link + n' ≤ fuel := by omega
      obtain ⟨signals, m', r, each, run, hr⟩ := Machine.run_ends
        (Machine.step_holds hf (m.settles_lossy p signal) hm) h' room
      refine ⟨signal :: signals, m', r, ?_, ?_, hr⟩
      · exact List.forall_mem_cons.mpr ⟨patient, each⟩
      · rw [Machine.run, hm, Option.bind_some, run]

end Permesh.Lib

import Permesh.Lib.Schedule

/-!
# Laws of schedules

`Task.Keeps` is the weakest precondition of a trace property: it follows the tree of a task and
asks for the property after every item that the task can add. `Machine.Holds` is the same
statement for a machine that is suspended somewhere in the tree. One step keeps it
(`Machine.step_holds`), so every run does (`Task.run_keeps`).

The step lemma goes over the constructors of `Machine.Moves`: each resumes a part of the tree that
`Holds` already speaks of, and `Task.advance_holds` runs it to its next suspension. Nothing here
looks at bytes; `Lib.Frames` does. That a run comes to an end is no matter of these laws either.
-/

namespace Permesh.Lib

variable {σ : Sig}

/-! ## The precondition -/

section Keeps

variable (safe : List (Item σ) → Prop) (lossy : σ.Event → Bool)

/-- What a job owes from trace `t` on. `drop` is what its owner asks for whenever the job can be
dropped, `post` what it asks for at the end. -/
def Job.Keeps (drop : List (Item σ) → Prop) (post : Except σ.Fail Unit → List (Item σ) → Prop) :
    Job σ → List (Item σ) → Prop
  | .done r, t => post r t
  | .send e k, t =>
    (∀ f, (k (.error f)).Keeps drop post t) ∧
    (safe (t ++ [.offered e]) ∧ drop (t ++ [.offered e]) ∧
      ∀ f, (k (.error f)).Keeps drop post (t ++ [.offered e])) ∧
    safe (t ++ [.offered e] ++ [.sent e]) ∧
    (lossy e → drop (t ++ [.offered e] ++ [.sent e]) ∧
      ∀ f, (k (.error f)).Keeps drop post (t ++ [.offered e] ++ [.sent e])) ∧
    (k (.ok ())).Keeps drop post (t ++ [.offered e] ++ [.sent e])
  | .call c next, t =>
    safe (t ++ [.called c]) ∧ drop (t ++ [.called c]) ∧ next.Keeps drop post (t ++ [.called c])

/-- What a race owes whenever its job can be dropped: the input completes or fails, or the time is
up. -/
def Winner.Drops (next : Winner σ → List (Item σ) → Prop) (t : List (Item σ)) : Prop :=
  (∀ f, next (.input (.error f)) t) ∧
  (∀ f, safe (t ++ [.received f]) ∧ next (.input (.ok f)) (t ++ [.received f])) ∧
  next .deadline t

/-- What a task owes from trace `t` on: the trace stays safe whatever the two ends do, and `post`
holds of the result. -/
def Task.Keeps (post : σ.Result → List (Item σ) → Prop) : Task σ → List (Item σ) → Prop
  | .done r, t => post r t
  | .frame k, t =>
    (∀ f, (k (.error f)).Keeps post t) ∧
    ∀ f, safe (t ++ [.received f]) ∧ (k (.ok f)).Keeps post (t ++ [.received f])
  | .send e k, t =>
    (∀ f, (k (.error f)).Keeps post t) ∧
    (safe (t ++ [.offered e]) ∧ ∀ f, (k (.error f)).Keeps post (t ++ [.offered e])) ∧
    safe (t ++ [.offered e] ++ [.sent e]) ∧
    (lossy e → ∀ f, (k (.error f)).Keeps post (t ++ [.offered e] ++ [.sent e])) ∧
    (k (.ok ())).Keeps post (t ++ [.offered e] ++ [.sent e])
  | .set _ next, t => next.Keeps post t
  | .select job k, t =>
    Winner.Drops safe (fun w u => (k w).Keeps post u) t ∧
    job.Keeps safe lossy (Winner.Drops safe fun w u => (k w).Keeps post u)
      (fun r u => (k (.job r)).Keeps post u) t
  | .racing job k, t =>
    job.Keeps safe lossy (Winner.Drops safe fun w u => (k w).Keeps post u)
      (fun r u => (k (.job r)).Keeps post u) t

/-- What a send in progress owes: `fails` if it can still end without success, `next` once the
writer has every byte. -/
def Sending.Owes (s : Sending σ) (fails next : List (Item σ) → Prop) (t : List (Item σ)) : Prop :=
  if s.written = s.bytes.length then (lossy s.event → fails t) ∧ next t
  else s.written < s.bytes.length ∧ fails t ∧ safe (t ++ [.sent s.event]) ∧
    (lossy s.event → fails (t ++ [.sent s.event])) ∧ next (t ++ [.sent s.event])

/-- What a suspended job owes. -/
def Job.Owes (drop : List (Item σ) → Prop) (post : Except σ.Fail Unit → List (Item σ) → Prop) :
    Job σ → Option (Sending σ) → List (Item σ) → Prop
  | .send e k, some s, t => s.event = e ∧
    s.Owes safe lossy (fun u => drop u ∧ ∀ f, (k (.error f)).Keeps safe lossy drop post u)
      (fun u => (k (.ok ())).Keeps safe lossy drop post u) t
  | .call _ next, none, t => drop t ∧ next.Keeps safe lossy drop post t
  | _, _, _ => False

/-- What a suspended task owes. -/
def Task.Owes (post : σ.Result → List (Item σ) → Prop) :
    Task σ → Option (Sending σ) → List (Item σ) → Prop
  | .done r, none, t => post r t
  | .frame k, none, t => (Task.frame k).Keeps safe lossy post t
  | .send e k, some s, t => s.event = e ∧
    s.Owes safe lossy (fun u => ∀ f, (k (.error f)).Keeps safe lossy post u)
      (fun u => (k (.ok ())).Keeps safe lossy post u) t
  | .select job k, none, t => (Task.select job k).Keeps safe lossy post t
  | .racing job k, s, t =>
    job.Owes safe lossy (Winner.Drops safe fun w u => (k w).Keeps safe lossy post u)
      (fun r u => (k (.job r)).Keeps safe lossy post u) s t
  | _, _, _ => False

/-- A suspended machine whose trace is safe and whose task owes no more than `post`. -/
structure Machine.Holds (post : σ.Result → List (Item σ) → Prop) (m : Machine σ) : Prop where
  trace : safe m.link.trace
  owes : m.task.Owes safe lossy post m.link.sending m.link.trace

end Keeps

/-! ## Running to the next suspension -/

section Advance

variable {safe : List (Item σ) → Prop} {lossy : σ.Event → Bool} (p : Port σ)

/-- A frame that was just offered owes what the send node owes. -/
theorem Sending.owes_offered {e : σ.Event} {bytes : List UInt8} (ne : bytes ≠ [])
    {fails next : List (Item σ) → Prop} {t : List (Item σ)} (hf : fails t)
    (hs : safe (t ++ [.sent e])) (hl : lossy e → fails (t ++ [.sent e]))
    (hn : next (t ++ [.sent e])) : Sending.Owes safe lossy ⟨e, bytes, 0⟩ fails next t := by
  have pos : 0 < bytes.length := List.length_pos_iff.mpr ne
  rw [Sending.Owes, if_neg (by dsimp only; omega)]
  exact ⟨pos, hf, hs, hl, hn⟩

/-- A job runs to its next suspension: it is done and `post` holds, or it owes the rest. -/
theorem Job.advance_owes {drop : List (Item σ) → Prop}
    {post : Except σ.Fail Unit → List (Item σ) → Prop} :
    ∀ (job : Job σ) (l : Link σ), l.sending = none → safe l.trace →
      job.Keeps safe lossy drop post l.trace →
      safe (job.advance p l).2.trace ∧
        match job.advance p l with
        | (.done r, l') => l'.sending = none ∧ post r l'.trace
        | (job', l') => job'.Owes safe lossy drop post l'.sending l'.trace
  | .done _, _, hl, hs, hk => ⟨hs, hl, hk⟩
  | .send e k, l, hl, hs, hk => by
    obtain ⟨hfail, ⟨hsoff, hdrop, hoff⟩, hssent, hloss, hok⟩ := hk
    cases hb : p.begin l.output e with
    | error f =>
      have := Job.advance_owes (k (.error f)) l hl hs (hfail f)
      simpa only [Job.advance, hb] using this
    | ok pair =>
      obtain ⟨bytes, out⟩ := pair
      simp only [Job.advance, hb]
      exact ⟨hsoff, rfl, Sending.owes_offered (p.begin_ne hb) ⟨hdrop, hoff⟩ hssent hloss hok⟩
  | .call c next, l, hl, hs, hk => by
    obtain ⟨hsafe, hdrop, hnext⟩ := hk
    simp only [Job.advance, hl]
    exact ⟨hsafe, hdrop, hnext⟩

/-- The input of a link is outside the trace. -/
theorem Link.saw_sending (l : Link σ) (r : Except σ.Fail σ.Frame) :
    (l.saw r).sending = l.sending := by
  cases r <;> rfl

variable {post : σ.Result → List (Item σ) → Prop}

/-- What a read owes to its two outcomes holds of the outcome it has. -/
theorem Link.saw_keeps {k : Except σ.Fail σ.Frame → Task σ} {l : Link σ}
    (r : Except σ.Fail σ.Frame) (hs : safe l.trace)
    (herr : ∀ f, (k (.error f)).Keeps safe lossy post l.trace)
    (hok : ∀ f, safe (l.trace ++ [.received f]) ∧
      (k (.ok f)).Keeps safe lossy post (l.trace ++ [.received f])) :
    safe (l.saw r).trace ∧ (k r).Keeps safe lossy post (l.saw r).trace := by
  cases r with
  | error f => exact ⟨hs, herr f⟩
  | ok f => exact hok f

/-- **A task that keeps a property runs to a suspension that owes it.** -/
theorem Task.advance_holds :
    ∀ (task : Task σ) (l : Link σ), l.sending = none → safe l.trace →
      task.Keeps safe lossy post l.trace →
      (Machine.resume p task l).Holds safe lossy post
  | .done _, _, hl, hs, hk => by
    refine ⟨hs, ?_⟩
    simp only [Machine.resume, Task.advance, hl]
    exact hk
  | .frame k, l, hl, hs, hk => by
    cases hscan : p.scan l.input with
    | mk i r =>
      cases r with
      | none =>
        refine ⟨?_, ?_⟩
        · simpa only [Machine.resume, Task.advance, hscan] using hs
        · simp only [Machine.resume, Task.advance, hscan, hl]
          exact hk
      | some r =>
        obtain ⟨hs', hk'⟩ := Link.saw_keeps (l := { l with input := i }) r hs hk.1 hk.2
        have := Task.advance_holds (k r) ({ l with input := i }.saw r)
          (by rw [Link.saw_sending]; exact hl) hs' hk'
        simpa only [Machine.resume, Task.advance, hscan] using this
  | .send e k, l, hl, hs, hk => by
    obtain ⟨hfail, ⟨hsoff, hoff⟩, hssent, hloss, hok⟩ := hk
    cases hb : p.begin l.output e with
    | error f =>
      have := Task.advance_holds (k (.error f)) l hl hs (hfail f)
      simpa only [Machine.resume, Task.advance, hb] using this
    | ok pair =>
      obtain ⟨bytes, out⟩ := pair
      refine ⟨?_, ?_⟩
      · simpa only [Machine.resume, Task.advance, hb, Link.offer] using hsoff
      · simp only [Machine.resume, Task.advance, hb]
        exact ⟨rfl, Sending.owes_offered (p.begin_ne hb) hoff hssent hloss hok⟩
  | .set f next, l, hl, hs, hk => by
    have := Task.advance_holds next { l with output := f l.output } hl hs hk
    simpa only [Machine.resume, Task.advance] using this
  | .select job k, l, hl, hs, hk => by
    cases hscan : p.scan l.input with
    | mk i r =>
      cases r with
      | none =>
        refine ⟨?_, ?_⟩
        · simpa only [Machine.resume, Task.advance, hscan] using hs
        · simp only [Machine.resume, Task.advance, hscan, hl]
          exact hk
      | some r =>
        obtain ⟨hs', hk'⟩ := Link.saw_keeps (k := fun r => k (.input r))
          (l := { l with input := i }) r hs hk.1.1 hk.1.2.1
        have := Task.advance_holds (k (.input r)) ({ l with input := i }.saw r)
          (by rw [Link.saw_sending]; exact hl) hs' hk'
        simpa only [Machine.resume, Task.advance, hscan] using this
  | .racing job k, l, hl, hs, hk => by
    have hjob := Job.advance_owes p job l hl hs hk
    cases hadv : job.advance p l with
    | mk job' l' =>
      rw [hadv] at hjob
      cases job' with
      | done r =>
        have := Task.advance_holds (k (.job r)) l' hjob.2.1 hjob.1 hjob.2.2
        simpa only [Machine.resume, Task.advance, hadv] using this
      | send e kj =>
        simp only [Machine.resume, Task.advance, hadv]
        exact ⟨hjob.1, hjob.2⟩
      | call c next =>
        simp only [Machine.resume, Task.advance, hadv]
        exact ⟨hjob.1, hjob.2⟩

end Advance

/-! ## One step and runs -/

section Step

variable {safe : List (Item σ) → Prop} {lossy : σ.Event → Bool} {p : Port σ}
  {post : σ.Result → List (Item σ) → Prop}

/-- A send in progress that is cut short leaves what its failure owes. -/
theorem Sending.Owes.fails {s : Sending σ} {fails next : List (Item σ) → Prop}
    {t : List (Item σ)} (h : s.Owes safe lossy fails next t)
    (cut : s.written = s.bytes.length → lossy s.event) : fails t := by
  unfold Sending.Owes at h
  split at h
  case isTrue hw => exact h.1 (cut hw)
  case isFalse => exact h.2.1

/-- The last byte taken, a send owes what follows its success. -/
theorem Sending.Owes.next {s : Sending σ} {fails next : List (Item σ) → Prop}
    {t : List (Item σ)} (h : s.Owes safe lossy fails next t) (hw : s.written = s.bytes.length) :
    next t := by
  rw [Sending.Owes, if_pos hw] at h
  exact h.2

/-- Bytes taken from a send leave a send that still owes the same. -/
theorem Sending.Owes.accept {s : Sending σ} {fails next : List (Item σ) → Prop} {l : Link σ}
    {n : Nat} (h : s.Owes safe lossy fails next l.trace) (hs : safe l.trace) (pos : 0 < n)
    (fits : s.written + n ≤ s.bytes.length) :
    safe (l.accept s n).trace ∧
      Sending.Owes safe lossy { s with written := s.written + n } fails next
        (l.accept s n).trace := by
  rw [Sending.Owes, if_neg (by omega)] at h
  obtain ⟨-, hf, hsafe, hl, hn⟩ := h
  by_cases last : s.written + n = s.bytes.length
  · rw [Link.accept, if_pos last, Sending.Owes, if_pos last]
    exact ⟨hsafe, hl, hn⟩
  · rw [Link.accept, if_neg last, Sending.Owes, if_neg last]
    exact ⟨hs, by dsimp only; omega, hf, hsafe, hl, hn⟩

/-- A task that waits for a frame has no send in progress. -/
theorem Task.Owes.frame {k : Except σ.Fail σ.Frame → Task σ} {s : Option (Sending σ)}
    {t : List (Item σ)} (h : (Task.frame k).Owes safe lossy post s t) :
    s = none ∧ (Task.frame k).Keeps safe lossy post t := by
  cases s with
  | none => exact ⟨rfl, h⟩
  | some => exact h.elim

/-- A race that has not been polled has no send in progress. -/
theorem Task.Owes.select {job : Job σ} {k : Winner σ → Task σ} {s : Option (Sending σ)}
    {t : List (Item σ)} (h : (Task.select job k).Owes safe lossy post s t) :
    s = none ∧ (Task.select job k).Keeps safe lossy post t := by
  cases s with
  | none => exact ⟨rfl, h⟩
  | some => exact h.elim

/-- A task that is done has no send in progress. -/
theorem Task.Owes.done {r : σ.Result} {s : Option (Sending σ)} {t : List (Item σ)}
    (h : (Task.done r).Owes safe lossy post s t) : s = none ∧ post r t := by
  cases s with
  | none => exact ⟨rfl, h⟩
  | some => exact h.elim

/-- A job that awaits an outside call has no send in progress. -/
theorem Job.Owes.call {drop : List (Item σ) → Prop}
    {fin : Except σ.Fail Unit → List (Item σ) → Prop} {c : σ.Call} {next : Job σ}
    {s : Option (Sending σ)} {t : List (Item σ)}
    (h : (Job.call c next).Owes safe lossy drop fin s t) :
    s = none ∧ drop t ∧ next.Keeps safe lossy drop fin t := by
  cases s with
  | none => exact ⟨rfl, h⟩
  | some => exact h.elim

/-- A race that is decided against its job leaves what the drop owes. -/
theorem Job.Owes.drop {drop : List (Item σ) → Prop}
    {fin : Except σ.Fail Unit → List (Item σ) → Prop} {job : Job σ} {s : Option (Sending σ)}
    {t : List (Item σ)} (h : job.Owes safe lossy drop fin s t)
    (cut : ∀ snd, s = some snd → snd.written = snd.bytes.length → lossy snd.event) : drop t := by
  cases job with
  | done => cases s <;> exact h.elim
  | send e k =>
    cases s with
    | none => exact h.elim
    | some snd => exact (h.2.fails (cut snd rfl)).1
  | call c next => exact (Job.Owes.call h).2.1

/-- The send in progress fails: what its failure owes is what the task owes. -/
theorem Task.Owes.fails {task t : Task σ} {snd : Sending σ} {f : σ.Fail} {u : List (Item σ)}
    (h : task.Owes safe lossy post (some snd) u)
    (cut : snd.written = snd.bytes.length → lossy snd.event)
    (answer : task.answer (.error f) = some t) : t.Keeps safe lossy post u := by
  cases task with
  | send e k =>
    cases answer
    exact h.2.fails cut f
  | racing job k =>
    cases job with
    | send e kj =>
      cases answer
      exact (h.2.fails cut).2 f
    | _ => cases answer
  | _ => cases answer

/-- The send in progress succeeds: what follows its success is what the task owes. -/
theorem Task.Owes.succeeds {task t : Task σ} {snd : Sending σ} {u : List (Item σ)}
    (h : task.Owes safe lossy post (some snd) u) (whole : snd.written = snd.bytes.length)
    (answer : task.answer (.ok ()) = some t) : t.Keeps safe lossy post u := by
  cases task with
  | send e k =>
    cases answer
    exact h.2.next whole
  | racing job k =>
    cases job with
    | send e kj =>
      cases answer
      exact h.2.next whole
    | _ => cases answer
  | _ => cases answer

/-- The writer takes some bytes. -/
theorem Task.Owes.accept {task : Task σ} {l : Link σ} {snd : Sending σ} {n : Nat}
    (h : task.Owes safe lossy post (some snd) l.trace) (hs : safe l.trace) (pos : 0 < n)
    (fits : snd.written + n ≤ snd.bytes.length) :
    Machine.Holds safe lossy post ⟨task, l.accept snd n⟩ := by
  cases task with
  | send e k =>
    obtain ⟨trace, owes⟩ := Sending.Owes.accept h.2 hs pos fits
    exact ⟨trace, h.1, owes⟩
  | racing job k =>
    cases job with
    | send e kj =>
      obtain ⟨trace, owes⟩ := Sending.Owes.accept h.2 hs pos fits
      exact ⟨trace, h.1, owes⟩
    | _ => exact h.elim
  | _ => exact h.elim

/-- **One step keeps the property**, unless it cuts a send whose event is not lossy after its last
byte. -/
theorem Machine.step_holds {m m' : Machine σ} {s : Signal} (h : m.Holds safe lossy post)
    (hg : m.settles lossy p s = true) (hm : m.step p s = some m') : m'.Holds safe lossy post := by
  have cut (hc : m.cuts p s = true) : ∀ snd, m.link.sending = some snd →
      snd.written = snd.bytes.length → lossy snd.event := by
    intro snd hsnd hw
    simpa only [Machine.settles, hc, Bool.not_true, Bool.false_or, hsnd, Option.all_some, hw,
      bne_self_eq_false] using hg
  obtain ⟨hs, ho⟩ := h
  cases Machine.step_moves hm with
  | frame => exact Task.advance_holds p _ _ ho.frame.1 hs ho.frame.2
  | select => exact Task.advance_holds p _ _ ho.select.1 hs ho.select.2
  | undecided => exact ⟨hs, ho⟩
  | @decided job k l chunk i r _ scan =>
    have hd := Job.Owes.drop ho (cut (by simp only [Machine.cuts, scan, Option.isSome_some]))
    obtain ⟨hs', hk⟩ := Link.saw_keeps (k := fun r => k (.input r))
      (l := { l with input := i, sending := none }) r hs hd.1 hd.2.1
    exact Task.advance_holds p _ _ (by rw [Link.saw_sending]) hs' hk
  | frameless => exact Task.advance_holds p _ _ ho.frame.1 hs (ho.frame.2.1 _)
  | unraced => exact Task.advance_holds p _ _ ho.select.1 hs (ho.select.2.1.1 _)
  | lost failure =>
    refine Task.advance_holds p _ _ rfl hs ?_
    rcases failure with ⟨rfl | rfl, rfl⟩ | ⟨rfl, rfl⟩
    · exact (Job.Owes.drop ho (cut rfl)).1 _
    · exact (Job.Owes.drop ho (cut rfl)).1 _
    · exact (Job.Owes.drop ho (cut rfl)).2.2
  | poll => exact Task.advance_holds p _ _ ho.select.1 hs ho.select.2.2
  | reply =>
    obtain ⟨idle, -, hk⟩ := Job.Owes.call ho
    exact Task.advance_holds p _ _ idle hs hk
  | accept sending pos fits =>
    dsimp only at ho
    rw [sending] at ho
    exact ho.accept hs pos fits
  | flushed sending whole answer =>
    dsimp only at ho
    rw [sending] at ho
    exact Task.advance_holds p _ _ rfl hs (ho.succeeds whole answer)
  | failed failure sending answer =>
    have cuts := cut (by rcases failure with rfl | rfl <;> rfl) _ sending
    dsimp only at ho
    rw [sending] at ho
    exact Task.advance_holds p _ _ rfl hs (ho.fails cuts answer)

/-- **What a task keeps, every run of it keeps**, from the empty trace on, as long as no step cuts
a send after its last byte whose event is not lossy. -/
theorem Task.run_keeps {task : Task σ} {input : σ.In} {output : σ.Out} {signals : List Signal}
    {m : Machine σ} (hs : safe []) (hk : task.Keeps safe lossy post [])
    (hg : (Machine.resume p task ⟨input, output, none, [], []⟩).along p
      (Machine.settles lossy p) signals = true)
    (hr : (Machine.resume p task ⟨input, output, none, [], []⟩).run p signals = some m) :
    m.Holds safe lossy post :=
  Machine.run_induct Machine.step_holds (Task.advance_holds p task _ rfl hs hk) hg hr

/-- A machine that is done meets the postcondition. -/
theorem Machine.Holds.result {r : σ.Result} {l : Link σ}
    (h : Machine.Holds safe lossy post ⟨.done r, l⟩) : post r l.trace :=
  h.owes.done.2

end Step

/-! ## Uninterrupted jobs -/

/-- **An uninterrupted execution is a run**: with the writer taking each frame at once, the race is
won by the job, with the result of `Job.exec`, and the writer has exactly its events. -/
theorem Machine.run_exec {p : Port σ} {k : Winner σ → Task σ} :
    ∀ (job : Job σ) (l : Link σ), l.sending = none →
      ∃ signals l', (Machine.resume p (.racing job k) l).run p signals =
          some (.resume p (k (.job (job.exec p l.output).2)) l') ∧
        sent l'.trace = sent l.trace ++ (job.exec p l.output).1
  | .done r, l, _ => ⟨[], l, rfl, (List.append_nil _).symm⟩
  | .send e kj, l, hl => by
    cases hb : p.begin l.output e with
    | error f =>
      obtain ⟨signals, l', hr, ht⟩ := Machine.run_exec (kj (.error f)) l hl
      refine ⟨signals, l', ?_, ?_⟩
      · rw [show Machine.resume p (.racing (.send e kj) k) l =
          Machine.resume p (.racing (kj (.error f)) k) l by
            simp only [Machine.resume, Task.advance, Job.advance, hb], hr]
        simp only [Job.exec, hb]
      · simpa only [Job.exec, hb] using ht
    | ok pair =>
      obtain ⟨bytes, out⟩ := pair
      have pos : 0 < bytes.length := List.length_pos_iff.mpr (p.begin_ne hb)
      let after : Link σ :=
        ⟨l.input, out, none, l.accepted ++ bytes, l.trace ++ [.offered e] ++ [.sent e]⟩
      obtain ⟨signals, l', hr, ht⟩ := Machine.run_exec (p := p) (k := k) (kj (.ok ())) after rfl
      have offered : Machine.resume p (.racing (.send e kj) k) l =
          ⟨.racing (.send e kj) k, l.offer e bytes out⟩ := by
        simp only [Machine.resume, Task.advance, Job.advance, hb]
      have accepts : Machine.step p ⟨.racing (.send e kj) k, l.offer e bytes out⟩
          (.accept bytes.length) = some ⟨.racing (.send e kj) k,
            (l.offer e bytes out).accept ⟨e, bytes, 0⟩ bytes.length⟩ := by
        simp only [Machine.step, Link.offer, pos, Nat.zero_add, Nat.le_refl, and_self, if_true]
      have flushes : Machine.step p ⟨.racing (.send e kj) k,
          (l.offer e bytes out).accept ⟨e, bytes, 0⟩ bytes.length⟩ .flushed =
            some (.resume p (.racing (kj (.ok ())) k) after) := by
        simp only [Machine.step, Link.accept, Link.offer, Nat.zero_add, if_true, Machine.settle,
          Task.answer, Option.map_some, List.drop_zero, List.take_length, after]
      refine ⟨.accept bytes.length :: .flushed :: signals, l', ?_, ?_⟩
      · rw [offered, Machine.run, accepts, Option.bind_some, Machine.run, flushes,
          Option.bind_some, hr]
        simp only [Job.exec, hb, after]
      · rw [ht, sent_append, sent_append, sent_offered, sent_sent, List.append_nil,
          List.append_assoc]
        simp only [after, Job.exec, hb, List.singleton_append]
  | .call c next, l, hl => by
    obtain ⟨signals, l', hr, ht⟩ := Machine.run_exec (p := p) (k := k) next
      { l with trace := l.trace ++ [.called c] } hl
    refine ⟨.reply :: signals, l', hr, ?_⟩
    rw [ht, sent_append, sent_called, List.append_nil]
    rfl

/-! ## The property that asks nothing -/

theorem Job.keeps_true : ∀ (job : Job σ) (t : List (Item σ)),
    job.Keeps (fun _ => True) (fun _ => true) (fun _ => True) (fun _ _ => True) t
  | .done _, _ => trivial
  | .send _ k, _ => ⟨fun f => (k (.error f)).keeps_true _,
      ⟨trivial, trivial, fun f => (k (.error f)).keeps_true _⟩, trivial,
      fun _ => ⟨trivial, fun f => (k (.error f)).keeps_true _⟩, (k (.ok ())).keeps_true _⟩
  | .call _ next, _ => ⟨trivial, trivial, next.keeps_true _⟩

theorem Job.Keeps.mono {safe : List (Item σ) → Prop} {lossy : σ.Event → Bool}
    {drop drop' : List (Item σ) → Prop} {fin fin' : Except σ.Fail Unit → List (Item σ) → Prop}
    (hd : ∀ t, drop t → drop' t) (hf : ∀ r t, fin r t → fin' r t) :
    ∀ (job : Job σ) (t : List (Item σ)), job.Keeps safe lossy drop fin t →
      job.Keeps safe lossy drop' fin' t
  | .done _, _, h => hf _ _ h
  | .send _ k, _, ⟨h1, ⟨h2, h3, h4⟩, h5, h6, h7⟩ =>
    ⟨fun f => mono hd hf (k (.error f)) _ (h1 f),
      ⟨h2, hd _ h3, fun f => mono hd hf (k (.error f)) _ (h4 f)⟩, h5,
      fun hl => ⟨hd _ (h6 hl).1, fun f => mono hd hf (k (.error f)) _ ((h6 hl).2 f)⟩,
      mono hd hf (k (.ok ())) _ h7⟩
  | .call _ next, _, ⟨h1, h2, h3⟩ => ⟨h1, hd _ h2, mono hd hf next _ h3⟩

/-- Every task keeps the property that asks nothing. -/
theorem Task.keeps_true : ∀ (task : Task σ) (t : List (Item σ)),
    task.Keeps (fun _ => True) (fun _ => true) (fun _ _ => True) t
  | .done _, _ => trivial
  | .frame k, _ => ⟨fun f => (k (.error f)).keeps_true _,
      fun f => ⟨trivial, (k (.ok f)).keeps_true _⟩⟩
  | .send _ k, _ => ⟨fun f => (k (.error f)).keeps_true _,
      ⟨trivial, fun f => (k (.error f)).keeps_true _⟩, trivial,
      fun _ f => (k (.error f)).keeps_true _, (k (.ok ())).keeps_true _⟩
  | .set _ next, t => next.keeps_true t
  | .select job k, t =>
    have drops : ∀ u, Winner.Drops (fun _ => True)
        (fun w u => (k w).Keeps (fun _ => True) (fun _ => true) (fun _ _ => True) u) u :=
      fun u => ⟨fun f => (k (.input (.error f))).keeps_true u,
        fun f => ⟨trivial, (k (.input (.ok f))).keeps_true _⟩, (k .deadline).keeps_true u⟩
    ⟨drops t, Job.Keeps.mono (fun u _ => drops u) (fun r u _ => (k (.job r)).keeps_true u) job t
      (job.keeps_true t)⟩
  | .racing job k, t =>
    Job.Keeps.mono (fun u _ => ⟨fun f => (k (.input (.error f))).keeps_true u,
        fun f => ⟨trivial, (k (.input (.ok f))).keeps_true _⟩, (k .deadline).keeps_true u⟩)
      (fun r u _ => (k (.job r)).keeps_true u) job t (job.keeps_true t)

/-- The invariant that asks nothing of the trace. What is left of it says which tasks have a send
in progress. -/
abbrev Machine.Fits (m : Machine σ) : Prop :=
  m.Holds (fun _ => True) (fun _ => true) (fun _ _ => True)

end Permesh.Lib

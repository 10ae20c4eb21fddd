import Permesh.Lib.Async

/-!
# Frames on the wire

The bytes that the writer has, as frames. Running to the next suspension hands over no byte and
begins at most one frame (`Task.advance_ran`), so what the writer has are whole frames and a part
of the one in progress (`Link.Tidy`), until a step cuts that one in its middle.

A task cannot see the cut, and the law does not ask it to. It asks for a last event behind which
the task offers nothing (`Ceases`, a trace property for the tree rules; `JobM.Plain` and
`TaskM.Plain` are the functions that send no such event). Cut in the middle of a last event, the
stream ends with the part, since a send that begins would be one more offer (`Link.Ran.silent`). A
cut in the middle of any other event is outside the law: what the task sends next then stands
behind the part.
-/

namespace Permesh.Lib

variable {σ : Sig} {p : Port σ}

/-! ## The last event -/

/-- No event of the kind `last` was offered. -/
def Fresh (last : σ.Event → Bool) (t : List (Item σ)) : Prop :=
  ∀ e, last e = true → .offered e ∉ t

/-- Behind an offered event of the kind `last`, nothing is offered. -/
def Ceases (last : σ.Event → Bool) (t : List (Item σ)) : Prop :=
  t.Pairwise fun x y => ∀ e, last e = true → x = .offered e → ∀ e', y ≠ .offered e'

section Last

variable {last : σ.Event → Bool} {t u : List (Item σ)} {x : Item σ}

theorem Fresh.nil : Fresh last ([] : List (Item σ)) := fun _ _ mem => (by cases mem)

theorem Ceases.nil : Ceases last ([] : List (Item σ)) := List.Pairwise.nil

theorem Fresh.snoc (h : Fresh last t) (plain : ∀ e, last e = true → x ≠ .offered e) :
    Fresh last (t ++ [x]) := by
  intro e ends mem
  rcases List.mem_append.mp mem with mem | mem
  · exact h e ends mem
  · exact plain e ends (List.mem_singleton.mp mem).symm

/-- Anything may follow as long as no last event was offered. -/
theorem Fresh.ceases (h : Fresh last t) (x : Item σ) : Ceases last (t ++ [x]) := by
  refine List.pairwise_append.mpr ⟨?_, List.pairwise_singleton _ _, ?_⟩
  · apply List.pairwise_of_forall_mem_list
    intro y mem _ _ e ends eq
    exact absurd (eq ▸ mem) (h e ends)
  · intro y mem _ _ e ends eq
    exact absurd (eq ▸ mem) (h e ends)

/-- What is not offered may follow in any case. -/
theorem Ceases.snoc (h : Ceases last t) (still : ∀ e, x ≠ .offered e) : Ceases last (t ++ [x]) := by
  refine List.pairwise_append.mpr ⟨h, List.pairwise_singleton _ _, ?_⟩
  intro _ _ y mem _ _ _
  rw [List.mem_singleton.mp mem]
  exact still

/-- A last event is the last one offered. -/
theorem Ceases.behind (h : Ceases last (t ++ u)) {e e' : σ.Event} (ends : last e = true)
    (before : .offered e ∈ t) : .offered e' ∉ u :=
  fun after => (List.pairwise_append.mp h).2.2 _ before _ after e ends rfl e' rfl

end Last

/-! ## Functions that send no last event -/

section Plain

variable {α β : Type} {last : σ.Event → Bool}

/-- A job that sends no last event, wherever it is dropped and however it ends. -/
def JobM.Plain (last : σ.Event → Bool) (m : JobM σ α) : Prop :=
  JobM.Meets (Ceases last) (fun _ => true) (Fresh last) (Fresh last) m fun _ => Fresh last

/-- A task that sends no last event, however it ends. -/
def TaskM.Plain (last : σ.Event → Bool) (m : TaskM σ α) : Prop :=
  TaskM.Meets (Ceases last) (fun _ => true) (Fresh last) m fun _ => Fresh last

/-- The trace around a send of another event. -/
theorem Fresh.send {e : σ.Event} {t : List (Item σ)} (plain : last e = false) (h : Fresh last t) :
    Fresh last (t ++ [.offered e]) ∧ Fresh last (t ++ [.offered e] ++ [.sent e]) := by
  have offered : Fresh last (t ++ [.offered e]) := by
    apply h.snoc
    intro e' ends eq
    cases eq
    exact Bool.false_ne_true (plain.symm.trans ends)
  exact ⟨offered, offered.snoc fun _ _ eq => (by cases eq)⟩

theorem JobM.Plain.pure (a : α) : JobM.Plain last (Pure.pure a : JobM σ α) :=
  JobM.Meets.pure fun _ h => h

theorem JobM.Plain.fail (e : σ.Fail) : JobM.Plain last (JobM.fail e : JobM σ α) :=
  JobM.Meets.fail fun _ h => h

theorem JobM.Plain.bind {m : JobM σ β} {f : β → JobM σ α} (hm : JobM.Plain last m)
    (hf : ∀ b, JobM.Plain last (f b)) : JobM.Plain last (m >>= f) :=
  JobM.Meets.bind hm hf fun _ _ h => h

theorem JobM.Plain.ite {c : Prop} [Decidable c] {m n : JobM σ α} (hm : JobM.Plain last m)
    (hn : JobM.Plain last n) : JobM.Plain last (if c then m else n) :=
  JobM.Meets.ite (fun _ => hm) fun _ => hn

theorem JobM.Plain.send {e : σ.Event} (plain : last e = false) :
    JobM.Plain last (JobM.send e) := by
  refine JobM.Meets.send (fun _ _ h => h) (fun t h => ?_) (fun t h => ?_) fun _ t h => ?_
  · exact ⟨h.ceases _, (h.send plain).1, fun _ => (h.send plain).1⟩
  · exact ⟨(h.send plain).1.ceases _, (h.send plain).2⟩
  · exact ⟨(h.send plain).2, fun _ => (h.send plain).2⟩

theorem JobM.Plain.call (c : σ.Call) (answer : Except σ.Fail α) :
    JobM.Plain last (JobM.call c answer) := by
  refine JobM.Meets.call fun t h => ?_
  have called : Fresh last (t ++ [.called c]) := h.snoc fun _ _ eq => (by cases eq)
  exact ⟨h.ceases _, called, called⟩

theorem TaskM.Plain.pure (a : α) : TaskM.Plain last (Pure.pure a : TaskM σ α) :=
  TaskM.Meets.pure fun _ h => h

theorem TaskM.Plain.fail (e : σ.Fail) : TaskM.Plain last (TaskM.fail e : TaskM σ α) :=
  TaskM.Meets.fail fun _ h => h

theorem TaskM.Plain.bind {m : TaskM σ β} {f : β → TaskM σ α} (hm : TaskM.Plain last m)
    (hf : ∀ b, TaskM.Plain last (f b)) : TaskM.Plain last (m >>= f) :=
  TaskM.Meets.bind hm hf fun _ _ h => h

theorem TaskM.Plain.ite {c : Prop} [Decidable c] {m n : TaskM σ α} (hm : TaskM.Plain last m)
    (hn : TaskM.Plain last n) : TaskM.Plain last (if c then m else n) :=
  TaskM.Meets.ite (fun _ => hm) fun _ => hn

theorem TaskM.Plain.set (f : σ.Out → σ.Out) : TaskM.Plain last (TaskM.set f) :=
  TaskM.Meets.set fun _ h => h

theorem Fresh.received {t : List (Item σ)} (h : Fresh last t) (f : σ.Frame) :
    Fresh last (t ++ [.received f]) :=
  h.snoc fun _ _ eq => (by cases eq)

theorem TaskM.Plain.frame : TaskM.Plain last (TaskM.frame : TaskM σ σ.Frame) :=
  TaskM.Meets.frame (fun _ _ h => h) fun f _ h => ⟨h.ceases _, h.received f⟩

theorem TaskM.Plain.send {e : σ.Event} (plain : last e = false) :
    TaskM.Plain last (TaskM.send e) := by
  refine TaskM.Meets.send (fun _ _ h => h) (fun t h => ?_) (fun t h => ?_) fun _ t h _ => ?_
  · exact ⟨h.ceases _, fun _ => (h.send plain).1⟩
  · exact ⟨(h.send plain).1.ceases _, (h.send plain).2⟩
  · exact (h.send plain).2

theorem TaskM.Plain.select {job : JobM σ Unit} (hj : JobM.Plain last job)
    (outcome : Winner σ → Except σ.Fail Unit) : TaskM.Plain last (TaskM.select job outcome) :=
  TaskM.Meets.select (Fresh last)
    (fun _ h => ⟨fun _ => h, fun f => ⟨h.ceases _, h.received f⟩, h⟩) (fun _ h => h) hj

/-- A task that sends no last event may end with one, if it then offers no more. -/
theorem TaskM.Plain.keeps {m : TaskM σ α} (h : TaskM.Plain last m)
    {post : σ.Result → List (Item σ) → Prop} {k : Except σ.Fail α → Task σ}
    (hk : ∀ r t, Fresh last t → (k r).Keeps (Ceases last) (fun _ => true) post t) :
    (m k).Keeps (Ceases last) (fun _ => true) post [] :=
  h post k [] .nil hk

end Plain

/-! ## What running on does to a link -/

/-- The bytes of one frame, as the output builds it. -/
def Port.Whole (p : Port σ) (bytes : List UInt8) : Prop :=
  ∃ o e o', p.begin o e = .ok (bytes, o')

/-- From `l` to `l'` no byte is handed over. A frame in progress on `l'` was begun on the way. -/
structure Link.Ran (p : Port σ) (l l' : Link σ) : Prop where
  accepted : l'.accepted = l.accepted
  seen : ∃ seen, l'.trace = l.trace ++ seen ∧ ∀ s, l'.sending = some s →
    p.Whole s.bytes ∧ s.written = 0 ∧ .offered s.event ∈ seen

section Ran

variable {l l' l'' : Link σ}

/-- A link on which nothing is in progress, with the same bytes and trace. -/
theorem Link.Ran.still (accepted : l'.accepted = l.accepted) (trace : l'.trace = l.trace)
    (idle : l'.sending = none) : Link.Ran p l l' where
  accepted := accepted
  seen := ⟨[], by rw [trace, List.append_nil], fun s hs => by
    rw [idle] at hs
    cases hs⟩

theorem Link.Ran.trans (h : Link.Ran p l l') (h' : Link.Ran p l' l'') : Link.Ran p l l'' := by
  obtain ⟨seen, trace, -⟩ := h.seen
  obtain ⟨seen', trace', begun⟩ := h'.seen
  refine ⟨h'.accepted.trans h.accepted, seen ++ seen', ?_, fun s hs => ?_⟩
  · rw [trace', trace, List.append_assoc]
  · obtain ⟨whole, zero, mem⟩ := begun s hs
    exact ⟨whole, zero, List.mem_append_right _ mem⟩

theorem Link.Ran.offer {e : σ.Event} {bytes : List UInt8} {out : σ.Out}
    (hb : p.begin l.output e = .ok (bytes, out)) : Link.Ran p l (l.offer e bytes out) where
  accepted := rfl
  seen := ⟨[.offered e], rfl, fun s hs => by
    cases hs
    exact ⟨⟨_, _, _, hb⟩, rfl, List.mem_singleton_self _⟩⟩

theorem Link.Ran.called (idle : l.sending = none) (c : σ.Call) :
    Link.Ran p l { l with trace := l.trace ++ [.called c] } where
  accepted := rfl
  seen := ⟨[.called c], rfl, fun s hs => by
    rw [show l.sending = some s from hs] at idle
    cases idle⟩

/-- A frame that is read begins none. -/
theorem Link.Ran.saw (idle : l.sending = none) (i : σ.In) (r : Except σ.Fail σ.Frame) :
    Link.Ran p l ({ l with input := i }.saw r) := by
  cases r with
  | error f => exact .still rfl rfl idle
  | ok f =>
    refine ⟨rfl, [.received f], rfl, fun s hs => ?_⟩
    rw [show l.sending = some s from hs] at idle
    cases idle

theorem Job.advance_ran : ∀ (job : Job σ) (l : Link σ), l.sending = none →
    Link.Ran p l (job.advance p l).2 ∧
      ∀ r, (job.advance p l).1 = .done r → (job.advance p l).2.sending = none
  | .done _, l, idle => ⟨.still rfl rfl idle, fun _ _ => idle⟩
  | .send e k, l, idle => by
    cases hb : p.begin l.output e with
    | error f => simpa only [Job.advance, hb] using Job.advance_ran (k (.error f)) l idle
    | ok pair =>
      simp only [Job.advance, hb]
      exact ⟨.offer hb, fun _ done => by cases done⟩
  | .call c next, l, idle => ⟨.called idle c, fun _ done => by cases done⟩

/-- **Running to the next suspension hands no byte to the writer.** -/
theorem Task.advance_ran : ∀ (task : Task σ) (l : Link σ), l.sending = none →
    Link.Ran p l (Machine.resume p task l).link
  | .done _, l, idle => .still rfl rfl idle
  | .frame k, l, idle => by
    cases hscan : p.scan l.input with
    | mk i r =>
      cases r with
      | none =>
        simp only [Machine.resume, Task.advance, hscan]
        exact .still rfl rfl idle
      | some r =>
        have rest := Task.advance_ran (k r) ({ l with input := i }.saw r)
          (by rw [Link.saw_sending]; exact idle)
        simpa only [Machine.resume, Task.advance, hscan] using (Link.Ran.saw idle i r).trans rest
  | .send e k, l, idle => by
    cases hb : p.begin l.output e with
    | error f =>
      have rest := Task.advance_ran (k (.error f)) l idle
      simpa only [Machine.resume, Task.advance, hb] using rest
    | ok pair =>
      simp only [Machine.resume, Task.advance, hb]
      exact .offer hb
  | .set f next, l, idle => by
    have rest := Task.advance_ran next { l with output := f l.output } idle
    have same : Link.Ran p l { l with output := f l.output } := .still rfl rfl idle
    simpa only [Machine.resume, Task.advance] using same.trans rest
  | .select job k, l, idle => by
    cases hscan : p.scan l.input with
    | mk i r =>
      cases r with
      | none =>
        simp only [Machine.resume, Task.advance, hscan]
        exact .still rfl rfl idle
      | some r =>
        have rest := Task.advance_ran (k (.input r)) ({ l with input := i }.saw r)
          (by rw [Link.saw_sending]; exact idle)
        simpa only [Machine.resume, Task.advance, hscan] using (Link.Ran.saw idle i r).trans rest
  | .racing job k, l, idle => by
    obtain ⟨ran, done⟩ := Job.advance_ran (p := p) job l idle
    cases hadv : job.advance p l with
    | mk job' l' =>
      rw [hadv] at ran done
      cases job' with
      | done r =>
        have rest := Task.advance_ran (k (.job r)) l' (done r rfl)
        simpa only [Machine.resume, Task.advance, hadv] using ran.trans rest
      | _ => simpa only [Machine.resume, Task.advance, hadv] using ran

/-- Behind a last event no frame is begun. -/
theorem Link.Ran.silent {last : σ.Event → Bool} (h : Link.Ran p l l')
    (ceases : Ceases last l'.trace) {e : σ.Event} (ends : last e = true)
    (offered : .offered e ∈ l.trace) : l'.sending = none := by
  obtain ⟨seen, trace, begun⟩ := h.seen
  rw [trace] at ceases
  cases hs : l'.sending with
  | none => rfl
  | some s => exact absurd (begun s hs).2.2 (ceases.behind ends offered)

end Ran

/-! ## Whole frames -/

/-- The writer took whole frames and then a part of the frame in progress. -/
def Link.Tidy (p : Port σ) (l : Link σ) : Prop :=
  ∃ frames : List (List UInt8), (∀ b ∈ frames, p.Whole b) ∧
    match l.sending with
    | none => l.accepted = frames.flatten
    | some s => p.Whole s.bytes ∧ s.written ≤ s.bytes.length ∧
        l.accepted = frames.flatten ++ s.bytes.take s.written

/-- Whole frames, and then a part of one. -/
def Port.Stream (p : Port σ) (bytes : List UInt8) : Prop :=
  ∃ (frames : List (List UInt8)) (part : List UInt8), bytes = frames.flatten ++ part ∧
    (∀ b ∈ frames, p.Whole b) ∧ (part = [] ∨ ∃ b, p.Whole b ∧ part <+: b)

section Tidy

variable {l l' : Link σ}

theorem Link.Tidy.stream (h : l.Tidy p) : p.Stream l.accepted := by
  obtain ⟨frames, hw, hacc⟩ := h
  cases hl : l.sending with
  | none =>
    rw [hl] at hacc
    exact ⟨frames, [], by rw [List.append_nil]; exact hacc, hw, .inl rfl⟩
  | some s =>
    rw [hl] at hacc
    obtain ⟨whole, -, hacc⟩ := hacc
    exact ⟨frames, _, hacc, hw, .inr ⟨s.bytes, whole, List.take_prefix _ _⟩⟩

theorem Link.Tidy.written_le (h : l.Tidy p) {s : Sending σ} (hl : l.sending = some s) :
    s.written ≤ s.bytes.length := by
  obtain ⟨frames, -, hacc⟩ := h
  rw [hl] at hacc
  exact hacc.2.1

/-- Only the send in progress and the bytes matter. -/
theorem Link.Tidy.congr (h : l.Tidy p) (sending : l'.sending = l.sending)
    (accepted : l'.accepted = l.accepted) : l'.Tidy p := by
  obtain ⟨frames, hw, hacc⟩ := h
  refine ⟨frames, hw, ?_⟩
  rw [sending, accepted]
  exact hacc

/-- A frame that is begun has no byte taken. -/
theorem Link.Tidy.ran (h : l.Tidy p) (idle : l.sending = none) (run : Link.Ran p l l') :
    l'.Tidy p := by
  obtain ⟨frames, hw, hacc⟩ := h
  obtain ⟨seen, -, begun⟩ := run.seen
  rw [idle] at hacc
  refine ⟨frames, hw, ?_⟩
  cases hs : l'.sending with
  | none => exact run.accepted.trans hacc
  | some s =>
    obtain ⟨whole, zero, -⟩ := begun s hs
    refine ⟨whole, by rw [zero]; exact Nat.zero_le _, ?_⟩
    rw [run.accepted, hacc, zero, List.take_zero, List.append_nil]

/-- A send that ends before its first byte or after its last one leaves whole frames. -/
theorem Link.Tidy.drop (h : l.Tidy p)
    (edge : ∀ s, l.sending = some s → s.written = 0 ∨ s.written = s.bytes.length) :
    ({ l with sending := none } : Link σ).Tidy p := by
  cases hl : l.sending with
  | none => exact h.congr hl.symm rfl
  | some s =>
    obtain ⟨frames, hw, hacc⟩ := h
    rw [hl] at hacc
    obtain ⟨whole, -, hacc⟩ := hacc
    rcases edge s hl with zero | all
    · exact ⟨frames, hw, by rw [hacc, zero, List.take_zero, List.append_nil]⟩
    · refine ⟨frames ++ [s.bytes], ?_, ?_⟩
      · intro b hb
        rcases List.mem_append.mp hb with hb | hb
        · exact hw b hb
        · exact List.mem_singleton.mp hb ▸ whole
      · rw [hacc, all, List.take_length, List.flatten_append, List.flatten_singleton]

/-- The writer takes a part of what is left of the frame. -/
theorem Link.Tidy.accept {s : Sending σ} {n : Nat} (h : l.Tidy p) (hl : l.sending = some s)
    (fits : s.written + n ≤ s.bytes.length) : (l.accept s n).Tidy p := by
  obtain ⟨frames, hw, hacc⟩ := h
  rw [hl] at hacc
  obtain ⟨whole, -, hacc⟩ := hacc
  refine ⟨frames, hw, whole, fits, ?_⟩
  simp only [Link.accept, hacc, List.append_assoc, List.append_cancel_left_eq]
  exact List.take_add.symm

end Tidy

/-! ## Steps and runs -/

section Run

variable {safe : List (Item σ) → Prop} {lossy : σ.Event → Bool}
  {post : σ.Result → List (Item σ) → Prop} {last : σ.Event → Bool} {m m' : Machine σ} {s : Signal}

/-- **What a step does to the bytes**: it leaves them and the frame in progress alone, it hands
over a part of that frame, or it goes on behind the end of that frame. -/
theorem Machine.Holds.step_link (h : m.Holds safe lossy post) (hm : m.step p s = some m') :
    (m'.link.sending = m.link.sending ∧ m'.link.accepted = m.link.accepted ∧
      m'.link.trace = m.link.trace) ∨
    (∃ snd n, m.link.sending = some snd ∧ snd.written + n ≤ snd.bytes.length ∧
      m'.link = m.link.accept snd n) ∨
    (Link.Ran p { m.link with sending := none } m'.link ∧ ∀ snd, m.link.sending = some snd →
      m.cuts p s = true ∨ snd.written = snd.bytes.length) := by
  have none_in {l : Link σ} {P : Sending σ → Prop} (idle : l.sending = none) (snd : Sending σ)
      (hs : l.sending = some snd) : P snd := by
    rw [idle] at hs
    cases hs
  have begins {l : Link σ} (task : Task σ) (i : σ.In) (idle : l.sending = none) :
      Link.Ran p { l with sending := none } (Machine.resume p task { l with input := i }).link :=
    have same : Link.Ran p { l with sending := none } { l with input := i } := .still rfl rfl idle
    same.trans (Task.advance_ran task { l with input := i } idle)
  obtain ⟨-, ho⟩ := h
  cases Machine.step_moves hm with
  | undecided => exact .inl ⟨rfl, rfl, rfl⟩
  | accept sending pos fits => exact .inr (.inl ⟨_, _, sending, fits, rfl⟩)
  | frame => exact .inr (.inr ⟨begins _ _ ho.frame.1, none_in ho.frame.1⟩)
  | select => exact .inr (.inr ⟨begins _ _ ho.select.1, none_in ho.select.1⟩)
  | frameless => exact .inr (.inr ⟨begins _ _ ho.frame.1, none_in ho.frame.1⟩)
  | unraced => exact .inr (.inr ⟨begins _ _ ho.select.1, none_in ho.select.1⟩)
  | poll => exact .inr (.inr ⟨begins _ _ ho.select.1, none_in ho.select.1⟩)
  | reply =>
    obtain ⟨idle, -⟩ := Job.Owes.call ho
    exact .inr (.inr ⟨begins _ _ idle, none_in idle⟩)
  | decided _ scan =>
    refine .inr (.inr ⟨(Link.Ran.saw rfl _ _).trans (Task.advance_ran _ _ ?_), fun _ _ => .inl ?_⟩)
    · rw [Link.saw_sending]
    · simp only [Machine.cuts, scan, Option.isSome_some]
  | lost failure =>
    refine .inr (.inr ⟨Task.advance_ran _ _ rfl, fun _ _ => .inl ?_⟩)
    rcases failure with ⟨rfl | rfl, -⟩ | ⟨rfl, -⟩ <;> rfl
  | flushed sending whole =>
    refine .inr (.inr ⟨Task.advance_ran _ _ rfl, fun snd hs => .inr ?_⟩)
    cases sending.symm.trans hs
    exact whole
  | failed failure =>
    refine .inr (.inr ⟨Task.advance_ran _ _ rfl, fun _ _ => .inl ?_⟩)
    rcases failure with rfl | rfl <;> rfl

/-- Whole frames and a part of the one in progress, which was offered. Or the last event is behind,
and nothing is in progress. -/
inductive Link.Sound (last : σ.Event → Bool) (p : Port σ) (l : Link σ) : Prop where
  | tidy (bytes : l.Tidy p) (offered : ∀ s, l.sending = some s → .offered s.event ∈ l.trace)
  | closed (bytes : p.Stream l.accepted) (idle : l.sending = none) {e : σ.Event}
      (ends : last e = true) (offered : .offered e ∈ l.trace)

/-- **One step keeps the bytes sound** unless it cuts an event in its middle that is no last one. -/
theorem Machine.Holds.step_sound (h : m.Holds (Ceases last) lossy post) (hl : m.link.Sound last p)
    (hm : m.step p s = some m') (ceases : Ceases last m'.link.trace)
    (hg : m.spares last p s = true) : m'.link.Sound last p := by
  rcases h.step_link hm with ⟨sending, accepted, trace⟩ | ⟨snd, n, hs, fits, hl'⟩ | ⟨ran, edge⟩
  · cases hl with
    | tidy bytes offered =>
      refine .tidy (bytes.congr sending accepted) ?_
      rw [sending, trace]
      exact offered
    | closed bytes idle ends offered =>
      exact .closed (accepted ▸ bytes) (sending.trans idle) ends (trace ▸ offered)
  · cases hl with
    | tidy bytes offered =>
      rw [hl']
      refine .tidy (bytes.accept hs fits) fun snd' hs' => ?_
      cases hs'
      simp only [Link.accept]
      split
      · exact List.mem_append_left _ (offered snd hs)
      · exact offered snd hs
    | closed bytes idle =>
      rw [idle] at hs
      cases hs
  · obtain ⟨seen, trace, begun⟩ := ran.seen
    dsimp only at trace
    cases hl with
    | closed bytes idle ends offered =>
      exact .closed (ran.accepted ▸ bytes) (ran.silent ceases ends offered) ends
        (trace ▸ List.mem_append_left _ offered)
    | tidy bytes offered =>
      by_cases tears : m.tears p s = true
      · -- the frame that is cut is the last one
        simp only [Machine.spares, tears, Bool.not_true, Bool.false_or] at hg
        obtain ⟨snd, hs, ends⟩ := (Option.any_eq_true _ _).mp hg
        exact .closed (ran.accepted ▸ bytes.stream) (ran.silent ceases ends (offered snd hs)) ends
          (trace ▸ List.mem_append_left _ (offered snd hs))
      · refine .tidy ((bytes.drop fun snd hs => ?_).ran rfl ran) fun snd hs => ?_
        · rcases edge snd hs with cuts | whole
          · have apart : ¬(0 < snd.written ∧ snd.written < snd.bytes.length) := by
              simpa only [Machine.tears, cuts, hs, Option.any_some, Bool.true_and,
                Bool.and_eq_true, decide_eq_true_eq] using tears
            have := bytes.written_le hs
            omega
          · exact .inr whole
        · rw [trace]
          exact List.mem_append_right _ (begun snd hs).2.2

/-- **A run that cuts no frame in its middle but a last one hands over whole frames**, and at its
very end at most a part of one. -/
theorem Machine.run_whole {task : Task σ} {input : σ.In} {output : σ.Out} {signals : List Signal}
    (keeps : task.Keeps (Ceases last) (fun _ => true) post [])
    (hg : (Machine.resume p task ⟨input, output, none, [], []⟩).along p (Machine.spares last p)
      signals = true)
    (hr : (Machine.resume p task ⟨input, output, none, [], []⟩).run p signals = some m) :
    p.Stream m.link.accepted := by
  let start : Link σ := ⟨input, output, none, [], []⟩
  have holds : (Machine.resume p task start).Holds (Ceases last) (fun _ => true) post :=
    Task.advance_holds p task start rfl .nil keeps
  have ran : Link.Ran p start (Machine.resume p task start).link := Task.advance_ran task start rfl
  have sound : (Machine.resume p task start).link.Sound last p := by
    obtain ⟨seen, trace, begun⟩ := ran.seen
    have tidy : start.Tidy p := ⟨[], fun b hb => (by cases hb), rfl⟩
    refine .tidy (tidy.ran rfl ran) fun s hs => ?_
    rw [trace]
    exact List.mem_append_right _ (begun s hs).2.2
  have step {m m' : Machine σ} {s : Signal}
      (inv : m.Holds (Ceases last) (fun _ => true) post ∧ m.link.Sound last p)
      (hg : m.spares last p s = true) (hm : m.step p s = some m') :
      m'.Holds (Ceases last) (fun _ => true) post ∧ m'.link.Sound last p :=
    have next := Machine.step_holds inv.1 (m.settles_lossy p s) hm
    ⟨next, inv.1.step_sound inv.2 hm next.trace hg⟩
  obtain ⟨-, final⟩ := Machine.run_induct step ⟨holds, sound⟩ hg hr
  cases final with
  | tidy bytes => exact bytes.stream
  | closed bytes => exact bytes

end Run

end Permesh.Lib

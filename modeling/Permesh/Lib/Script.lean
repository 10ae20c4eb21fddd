import Permesh.Lib.Bounded

/-!
# Conversations that nothing disturbs

`Task.script` is what a task says to somebody who hands it one frame after the other, returns its
calls and takes every byte: the events with their bytes, and the result. It is computed by reading
the tree, without signals. A conversation that starts a race while frames are left, or that waits
for a frame that does not come, has no script.

`Task.run_script` tells that the schedule makes no difference: however the frames are cut into
chunks, however many bytes the writer takes at a time and whenever the calls return, the run says a
prefix of the script, is never stuck before its end, and ends with its result.
-/

namespace Permesh.Lib

variable {σ : Sig}

/-- The events said, each with the bytes of its frame. -/
abbrev Said (σ : Sig) := List (σ.Event × List UInt8)

/-- The bytes of what is said. -/
def Said.bytes (said : Said σ) : List UInt8 := (said.map Prod.snd).flatten

@[simp] theorem Said.bytes_nil : Said.bytes ([] : Said σ) = [] := rfl

@[simp] theorem Said.bytes_cons (x : σ.Event × List UInt8) (said : Said σ) :
    Said.bytes (x :: said) = x.2 ++ Said.bytes said := rfl

@[simp] theorem Said.bytes_append (said said' : Said σ) :
    Said.bytes (said ++ said') = Said.bytes said ++ Said.bytes said' := by
  simp only [Said.bytes, List.map_append, List.flatten_append]

/-! ## Scripts -/

/-- What a job says, how it ends, and the output behind it. -/
def Job.script (p : Port σ) : Job σ → σ.Out → Said σ × Except σ.Fail Unit × σ.Out
  | .done r, out => ([], r, out)
  | .send e k, out =>
    match p.begin out e with
    | .error f => (k (.error f)).script p out
    | .ok (bytes, out') =>
      ((e, bytes) :: ((k (.ok ())).script p out').1, ((k (.ok ())).script p out').2)
  | .call _ next, out => next.script p out

/-- What a task says when it is given these frames, and its result. -/
def Task.script (p : Port σ) : Task σ → List σ.Frame → σ.Out → Option (Said σ × σ.Result)
  | .done r, _, _ => some ([], r)
  | .frame _, [], _ => none
  | .frame k, f :: frames, out => (k (.ok f)).script p frames out
  | .send e k, frames, out =>
    match p.begin out e with
    | .error f => (k (.error f)).script p frames out
    | .ok (bytes, out') =>
      ((k (.ok ())).script p frames out').map fun (said, r) => ((e, bytes) :: said, r)
  | .set f next, frames, out => next.script p frames (f out)
  | .select job k, [], out | .racing job k, [], out =>
    ((k (.job (job.script p out).2.1)).script p [] (job.script p out).2.2).map
      fun (said, r) => ((job.script p out).1 ++ said, r)
  | .select .., _ :: _, _ | .racing .., _ :: _, _ => none

/-- A race has a script only when no frame is left. -/
theorem Task.script_racing {p : Port σ} {job : Job σ} {k : Winner σ → Task σ}
    {frames : List σ.Frame} {out : σ.Out} {said : Said σ} {r : σ.Result}
    (h : (Task.racing job k).script p frames out = some (said, r)) :
    frames = [] ∧ ∃ rest, said = (job.script p out).1 ++ rest ∧
      (k (.job (job.script p out).2.1)).script p [] (job.script p out).2.2 = some (rest, r) := by
  cases frames with
  | cons f frames => cases h
  | nil =>
    simp only [Task.script, Option.map_eq_some_iff] at h
    obtain ⟨⟨rest, r'⟩, hs, eq⟩ := h
    cases eq
    exact ⟨rfl, rest, rfl, hs⟩

/-! ## Bytes that become frames -/

/-- `R input unread frames` tells that the unread bytes complete exactly these frames, one after the
other, and nothing more. -/
structure Feeds (p : Port σ) (R : σ.In → List UInt8 → List σ.Frame → Prop) : Prop where
  feed : ∀ {i chunk unread frames}, R i (chunk ++ unread) frames → R (p.feed i chunk) unread frames
  some : ∀ {i i' r unread frames}, R i unread frames → p.scan i = (i', some r) →
    ∃ f rest, frames = f :: rest ∧ r = .ok f ∧ R i' unread rest
  none : ∀ {i i' unread frames}, R i unread frames → p.scan i = (i', none) →
    R i' unread frames ∧ (unread = [] → frames = [])

/-! ## What a suspended machine still says -/

/-- The script behind the await at which a task is suspended. A frame that is being sent is no
longer part of it. -/
def Task.rest (p : Port σ) : Task σ → Option (Sending σ) → List σ.Frame → σ.Out →
    Option (Said σ × σ.Result)
  | .send _ k, some _, frames, out => (k (.ok ())).script p frames out
  | .racing (.send _ kj) k, some _, frames, out =>
    (Task.racing (kj (.ok ())) k).script p frames out
  | task, none, frames, out => task.script p frames out
  | _, _, _, _ => none

/-- The part of a frame in progress that the writer has not taken. -/
def Sending.unsent (s : Sending σ) : List UInt8 := s.bytes.drop s.written

/-- The event of a frame that the writer has not taken in full. -/
def Sending.unsaid (s : Sending σ) : List σ.Event :=
  if s.written = s.bytes.length then [] else [s.event]

/-- What was said, what is being said and what the task still says make up the script. -/
structure Machine.Told (p : Port σ) (R : σ.In → List UInt8 → List σ.Frame → Prop) (said : Said σ)
    (r : σ.Result) (m : Machine σ) (unread : List UInt8) (frames : List σ.Frame) (rest : Said σ) :
    Prop where
  feeds : R m.link.input unread frames
  script : m.task.rest p m.link.sending frames m.link.output = some (rest, r)
  bytes : m.link.accepted ++ m.link.sending.elim [] Sending.unsent ++ rest.bytes = said.bytes
  events : sent m.link.trace ++ m.link.sending.elim [] Sending.unsaid ++ rest.map Prod.fst =
    said.map Prod.fst
  awaits : unread = [] → ∀ k, m.task = .frame k → frames = []

/-- A machine on its way through a script. -/
structure Machine.Follows (p : Port σ) (R : σ.In → List UInt8 → List σ.Frame → Prop)
    (said : Said σ) (r : σ.Result) (m : Machine σ) (unread : List UInt8) : Prop where
  fits : m.Fits
  told : ∃ frames rest, m.Told p R said r unread frames rest

section Follows

variable {p : Port σ} {R : σ.In → List UInt8 → List σ.Frame → Prop} {said : Said σ} {r : σ.Result}
  {unread : List UInt8}

/-- Where a job is suspended, and what that makes of its script. -/
theorem Job.advance_script : ∀ (job : Job σ) (l : Link σ),
    (∃ e, job.advance p l = (.done e, l) ∧ job.script p l.output = ([], e, l.output)) ∨
    (∃ e k bytes out, job.advance p l = (.send e k, l.offer e bytes out) ∧ bytes ≠ [] ∧
      job.script p l.output = ((e, bytes) :: ((k (.ok ())).script p out).1,
        ((k (.ok ())).script p out).2)) ∨
    ∃ c next, job.advance p l = (.call c next, { l with trace := l.trace ++ [.called c] }) ∧
      job.script p l.output = next.script p l.output
  | .done e, l => .inl ⟨e, rfl, rfl⟩
  | .send e k, l => by
    cases hb : p.begin l.output e with
    | error f => simpa only [Job.advance, Job.script, hb] using Job.advance_script (k (.error f)) l
    | ok pair =>
      obtain ⟨bytes, out⟩ := pair
      exact .inr (.inl ⟨e, k, bytes, out, by simp only [Job.advance, hb], p.begin_ne hb,
        by simp only [Job.script, hb]⟩)
  | .call c next, l => .inr (.inr ⟨c, next, rfl, rfl⟩)

/-- A link on which nothing is being sent, and what is still to be said. -/
structure Link.Tells (l : Link σ) (said rest : Said σ) : Prop where
  idle : l.sending = none
  bytes : l.accepted ++ rest.bytes = said.bytes
  events : sent l.trace ++ rest.map Prod.fst = said.map Prod.fst

theorem Link.Tells.saw {l : Link σ} {rest : Said σ} (h : l.Tells said rest) (i : σ.In) (f : σ.Frame) :
    ({ l with input := i }.saw (.ok f)).Tells said rest :=
  ⟨h.idle, h.bytes, by rw [Link.saw, sent_append, sent_received, List.append_nil]; exact h.events⟩

/-- The first poll of a send moves its frame from the script to the writer. -/
theorem Link.Tells.offer {l : Link σ} {e : σ.Event} {bytes : List UInt8} {rest : Said σ}
    (h : l.Tells said ((e, bytes) :: rest)) (ne : bytes ≠ []) (out : σ.Out) :
    (l.offer e bytes out).accepted ++ (l.offer e bytes out).sending.elim [] Sending.unsent ++
        rest.bytes = said.bytes ∧
      sent (l.offer e bytes out).trace ++ (l.offer e bytes out).sending.elim [] Sending.unsaid ++
        rest.map Prod.fst = said.map Prod.fst := by
  have part : 0 ≠ bytes.length := fun eq => ne (List.length_eq_zero_iff.mp eq.symm)
  refine ⟨?_, ?_⟩
  · rw [← h.bytes]
    simp only [Link.offer, Option.elim_some, Sending.unsent, List.drop_zero, List.append_assoc,
      Said.bytes_cons]
  · rw [← h.events]
    simp only [Link.offer, Option.elim_some, Sending.unsaid, part, if_false, sent_append,
      sent_offered, List.append_nil, List.append_assoc, List.map_cons, List.singleton_append]

/-- A call says nothing. -/
theorem Link.Tells.called {l : Link σ} {rest : Said σ} (h : l.Tells said rest) (c : σ.Call) :
    Link.Tells { l with trace := l.trace ++ [.called c] } said rest :=
  ⟨h.idle, h.bytes, by rw [sent_append, sent_called, List.append_nil]; exact h.events⟩

/-- With nothing being sent, what is still to be said is the script of the task. -/
theorem Link.Tells.told {task : Task σ} {l : Link σ} {frames : List σ.Frame} {rest : Said σ}
    (tells : l.Tells said rest) (input : R l.input unread frames)
    (script : task.script p frames l.output = some (rest, r))
    (awaits : unread = [] → ∀ k, task = .frame k → frames = []) :
    Machine.Told p R said r ⟨task, l⟩ unread frames rest where
  feeds := input
  script := by
    dsimp only
    rw [tells.idle]
    cases task with
    | racing job k => cases job <;> exact script
    | _ => exact script
  bytes := by
    dsimp only
    rw [tells.idle, Option.elim_none, List.append_nil, tells.bytes]
  events := by
    dsimp only
    rw [tells.idle, Option.elim_none, List.append_nil, tells.events]
  awaits := awaits

/-- Running to the next suspension keeps to the script. -/
theorem Task.advance_told (feeds : Feeds p R) : ∀ {task : Task σ} {l : Link σ}
    {frames : List σ.Frame} {rest : Said σ}, R l.input unread frames →
      task.script p frames l.output = some (rest, r) → l.Tells said rest →
        ∃ frames' rest', (Machine.resume p task l).Told p R said r unread frames' rest'
  | .done _, _, frames, rest, hR, hs, tells => ⟨frames, rest, tells.told hR hs fun _ _ h => by cases h⟩
  | .frame k, l, frames, rest, hR, hs, tells => by
    cases hscan : p.scan l.input with
    | mk i found =>
      cases found with
      | none =>
        obtain ⟨hR', ends⟩ := feeds.none hR hscan
        refine ⟨frames, rest, ?_⟩
        simp only [Machine.resume, Task.advance, hscan]
        exact Link.Tells.told ⟨tells.idle, tells.bytes, tells.events⟩ hR' hs fun h _ _ => ends h
      | some found =>
        obtain ⟨f, frames', rfl, rfl, hR'⟩ := feeds.some hR hscan
        have next : (k (.ok f)).script p frames' ({ l with input := i }.saw (.ok f)).output =
          some (rest, r) := hs
        have := Task.advance_told feeds hR' next (tells.saw i f)
        simpa only [Machine.resume, Task.advance, hscan] using this
  | .send e k, l, frames, rest, hR, hs, tells => by
    cases hb : p.begin l.output e with
    | error f =>
      simp only [Task.script, hb] at hs
      have := Task.advance_told feeds hR hs tells
      simpa only [Machine.resume, Task.advance, hb] using this
    | ok pair =>
      obtain ⟨bytes, out⟩ := pair
      simp only [Task.script, hb, Option.map_eq_some_iff] at hs
      obtain ⟨⟨rest', e'⟩, hs, eq⟩ := hs
      cases eq
      obtain ⟨accepted, events⟩ := tells.offer (p.begin_ne hb) out
      refine ⟨frames, rest', ?_⟩
      simp only [Machine.resume, Task.advance, hb]
      exact ⟨hR, hs, accepted, events, fun _ _ h => (by cases h)⟩
  | .set f next, l, frames, rest, hR, hs, tells => by
    let l' : Link σ := { l with output := f l.output }
    have input : R l'.input unread frames := hR
    have follows : next.script p frames l'.output = some (rest, r) := hs
    have := Task.advance_told feeds input follows ⟨tells.idle, tells.bytes, tells.events⟩
    simpa only [Machine.resume, Task.advance] using this
  | .select job k, l, frames, rest, hR, hs, tells => by
    cases frames with
    | cons f frames => cases hs
    | nil =>
      cases hscan : p.scan l.input with
      | mk i found =>
        cases found with
        | some found =>
          obtain ⟨f, frames', eq, -⟩ := feeds.some hR hscan
          cases eq
        | none =>
          obtain ⟨hR', -⟩ := feeds.none hR hscan
          refine ⟨[], rest, ?_⟩
          simp only [Machine.resume, Task.advance, hscan]
          exact Link.Tells.told ⟨tells.idle, tells.bytes, tells.events⟩ hR' hs fun _ _ _ => rfl
  | .racing job k, l, frames, rest, hR, hs, tells => by
    obtain ⟨rfl, rest', rfl, behind⟩ := Task.script_racing hs
    rcases Job.advance_script (p := p) job l with
      ⟨e, hadv, hj⟩ | ⟨e, kj, bytes, out, hadv, ne, hj⟩ | ⟨c, next, hadv, hj⟩
    · rw [hj] at behind tells
      have := Task.advance_told feeds hR behind tells
      simpa only [Machine.resume, Task.advance, hadv] using this
    · rw [hj] at behind tells
      obtain ⟨accepted, events⟩ := tells.offer ne out
      refine ⟨[], ((kj (.ok ())).script p out).1 ++ rest', ?_⟩
      simp only [Machine.resume, Task.advance, hadv]
      exact ⟨hR, by simp only [Task.rest, Link.offer, Task.script, behind, Option.map_some],
        accepted, events, fun _ _ h => (by cases h)⟩
    · rw [hj] at behind tells
      refine ⟨[], (next.script p l.output).1 ++ rest', ?_⟩
      simp only [Machine.resume, Task.advance, hadv]
      refine (tells.called c).told hR ?_ fun _ _ _ => rfl
      simp only [Task.script, Job.script, behind, Option.map_some]

/-! ## Steps -/

section Step

variable {m m' : Machine σ} {frames : List σ.Frame} {rest : Said σ}

/-- With nothing being sent, the rest is the script of the task. -/
theorem Machine.Told.idle (h : m.Told p R said r unread frames rest) (idle : m.link.sending = none) :
    m.link.Tells said rest ∧ m.task.script p frames m.link.output = some (rest, r) := by
  obtain ⟨-, script, bytes, events, -⟩ := h
  rw [idle] at script bytes events
  rw [Option.elim_none, List.append_nil] at bytes events
  refine ⟨⟨idle, bytes, events⟩, ?_⟩
  cases hm : m.task with
  | racing job k =>
    rw [hm] at script
    cases job <;> exact script
  | _ =>
    rw [hm] at script
    exact script

/-- A race that has been started has no frame left. -/
theorem Machine.Told.racing {job : Job σ} {k : Winner σ → Task σ} {l : Link σ}
    (h : Machine.Told p R said r ⟨.racing job k, l⟩ unread frames rest) : frames = [] := by
  have script := h.script
  dsimp only at script
  cases hs : l.sending with
  | none =>
    rw [hs] at script
    cases job <;> exact (Task.script_racing script).1
  | some s =>
    rw [hs] at script
    cases job with
    | send e kj => exact (Task.script_racing script).1
    | _ => cases script

/-- The bytes that the writer takes are those of the frame in progress. -/
theorem Machine.Told.accept {s : Sending σ} {n : Nat}
    (h : m.Told p R said r unread frames rest) (hs : m.link.sending = some s)
    (more : s.written ≠ s.bytes.length)
    (wait : ∀ k, m.task ≠ .frame k) :
    Machine.Told p R said r ⟨m.task, m.link.accept s n⟩ unread frames rest := by
  obtain ⟨feeds, script, bytes, events, -⟩ := h
  rw [hs] at script bytes events
  refine ⟨feeds, ?_, ?_, ?_, fun _ k hk => absurd hk (wait k)⟩
  · have same (s s' : Sending σ) :
        m.task.rest p (some s) frames m.link.output =
          m.task.rest p (some s') frames m.link.output := by
      cases m.task with
      | racing job k => cases job <;> rfl
      | _ => rfl
    exact (same _ _).trans script
  · rw [← bytes]
    simp only [Link.accept, Option.elim_some, Sending.unsent, List.append_assoc]
    rw [← List.append_assoc (List.take n _), ← List.drop_drop, List.take_append_drop]
  · rw [← events]
    simp only [Link.accept, Option.elim_some, Sending.unsaid, more, if_false]
    split
    · rw [sent_append, sent_sent, List.append_nil]
    · rfl

/-- The end of a send goes on with the rest. -/
theorem Machine.Told.settle (feeds : Feeds p R) {task t : Task σ} {l : Link σ} {s : Sending σ}
    (h : Machine.Told p R said r ⟨task, l⟩ unread frames rest) (hs : l.sending = some s)
    (whole : s.written = s.bytes.length) (ht : task.answer (.ok ()) = some t) :
    ∃ frames' rest', (Machine.resume p t { l with sending := none }).Told p R said r unread
      frames' rest' := by
  obtain ⟨input, script, bytes, events, -⟩ := h
  dsimp only at input script bytes events
  rw [hs] at script bytes events
  simp only [Option.elim_some, Sending.unsent, Sending.unsaid, whole, List.drop_length,
    if_true, List.append_nil] at bytes events
  have goes : t.script p frames l.output = some (rest, r) := by
    cases task with
    | send e k =>
      cases ht
      exact script
    | racing job k =>
      cases job with
      | send e kj =>
        cases ht
        exact script
      | _ => cases ht
    | _ => cases ht
  have input' : R ({ l with sending := none } : Link σ).input unread frames := input
  exact Task.advance_told feeds input' goes ⟨rfl, bytes, events⟩

/-- **A patient step keeps to the script.** -/
theorem Machine.Follows.step (feeds : Feeds p R) {s : Signal}
    (h : m.Follows p R said r (s.bytes ++ unread)) (patient : s.patient = true)
    (hm : m.step p s = some m') : m'.Follows p R said r unread := by
  obtain ⟨fits, frames, rest, told⟩ := h
  refine ⟨Machine.step_holds fits (m.settles_lossy p s) hm, ?_⟩
  obtain ⟨-, owes⟩ := fits
  cases Machine.step_moves hm with
  | @frame k l chunk _ =>
    obtain ⟨tells, script⟩ := told.idle owes.frame.1
    have fed : R (p.feed l.input chunk) unread frames := feeds.feed told.feeds
    have after : ({ l with input := p.feed l.input chunk } : Link σ).Tells said rest :=
      ⟨tells.idle, tells.bytes, tells.events⟩
    exact Task.advance_told feeds fed script after
  | @select job k l chunk _ =>
    obtain ⟨tells, script⟩ := told.idle owes.select.1
    have fed : R (p.feed l.input chunk) unread frames := feeds.feed told.feeds
    have after : ({ l with input := p.feed l.input chunk } : Link σ).Tells said rest :=
      ⟨tells.idle, tells.bytes, tells.events⟩
    exact Task.advance_told feeds fed script after
  | undecided _ hscan =>
    cases told.racing
    obtain ⟨input, -⟩ := feeds.none (feeds.feed told.feeds) hscan
    exact ⟨[], rest, input, told.script, told.bytes, told.events, fun _ _ h => (by cases h)⟩
  | decided _ hscan =>
    -- no frame is left that could decide the race
    cases told.racing
    obtain ⟨f, frames, eq, -⟩ := feeds.some (feeds.feed told.feeds) hscan
    cases eq
  | poll =>
    obtain ⟨tells, script⟩ := told.idle owes.select.1
    cases frames with
    | cons f frames => cases script
    | nil => exact Task.advance_told feeds told.feeds script tells
  | reply =>
    obtain ⟨tells, script⟩ := told.idle (Job.Owes.call owes).1
    cases frames with
    | cons f frames => cases script
    | nil => exact Task.advance_told feeds told.feeds script tells
  | accept sending pos fits =>
    refine ⟨frames, rest, told.accept sending (by omega) fun k hk => ?_⟩
    cases hk
    cases owes.frame.1.symm.trans sending
  | flushed sending whole answer => exact told.settle feeds sending whole answer
  | frameless hs => rcases hs with ⟨rfl | rfl, -⟩ | ⟨rfl, -⟩ <;> cases patient
  | unraced hs => rcases hs with rfl | rfl <;> cases patient
  | lost hs => rcases hs with ⟨rfl | rfl, -⟩ | ⟨rfl, -⟩ <;> cases patient
  | failed hs => rcases hs with rfl | rfl <;> cases patient

end Step

/-- The bytes that a schedule brings. -/
def Signal.reads (signals : List Signal) : List UInt8 := signals.flatMap Signal.bytes

theorem Machine.Follows.run (feeds : Feeds p R) : ∀ {signals : List Signal} {m m' : Machine σ},
    m.Follows p R said r (Signal.reads signals ++ unread) → (∀ s ∈ signals, s.patient = true) →
      m.run p signals = some m' → m'.Follows p R said r unread
  | [], _, _, h, _, hr => by
    cases hr
    exact h
  | s :: rest, m, m', h, patient, hr => by
    obtain ⟨mid, hm, hr⟩ := Option.bind_eq_some_iff.mp hr
    rw [Signal.reads, List.flatMap_cons, List.append_assoc] at h
    obtain ⟨now, later⟩ := List.forall_mem_cons.mp patient
    exact Machine.Follows.run feeds (h.step feeds now hm) later hr

/-- A machine that follows a script has said a prefix of it, is done with all of it, or waits for a
signal that brings no byte beyond the unread ones. -/
theorem Machine.Follows.goes {m : Machine σ} (h : m.Follows p R said r unread) :
    sent m.link.trace <+: said.map Prod.fst ∧ m.link.accepted <+: said.bytes ∧
    (∀ r', m.task = .done r' → r' = r ∧ sent m.link.trace = said.map Prod.fst ∧
      m.link.accepted = said.bytes) ∧
    ((∃ r', m.task = .done r') ∨ ∃ s, s.patient = true ∧ s.bytes <+: unread ∧
      (m.step p s).isSome = true) := by
  obtain ⟨fits, frames, rest, told⟩ := h
  refine ⟨?_, ?_, fun r' done => ?_, ?_⟩
  · exact ⟨_, by rw [← told.events, List.append_assoc]⟩
  · exact ⟨_, by rw [← told.bytes, List.append_assoc]⟩
  · have idle : m.link.sending = none := by
      have owes := fits.owes
      rw [done] at owes
      exact owes.done.1
    obtain ⟨tells, script⟩ := told.idle idle
    rw [done] at script
    cases script
    refine ⟨rfl, ?_, ?_⟩
    · simpa only [List.map_nil, List.append_nil] using tells.events
    · simpa only [Said.bytes_nil, List.append_nil] using tells.bytes
  · rcases fits.waits (p := p) with done | ⟨k, hk⟩ | ⟨s, patient, silent, hs⟩
    · exact .inl done
    · -- a task that waits for a frame has bytes to read, or its script would end here
      have more : unread ≠ [] := by
        rintro rfl
        have idle : m.link.sending = none := by
          have owes := fits.owes
          rw [hk] at owes
          exact owes.frame.1
        obtain ⟨-, script⟩ := told.idle idle
        rw [hk, told.awaits rfl k hk] at script
        cases script
      refine .inr ⟨.read unread, rfl, List.prefix_rfl, ?_⟩
      simp only [Machine.step, if_neg more, hk, Option.isSome_some]
    · exact .inr ⟨s, patient, silent ▸ List.nil_prefix, hs⟩

/-- **The schedule makes no difference.** -/
theorem Task.run_script (feeds : Feeds p R) {task : Task σ} {input : σ.In} {output : σ.Out}
    {frames : List σ.Frame} {signals : List Signal} {m : Machine σ}
    (brings : R input (Signal.reads signals ++ unread) frames)
    (script : task.script p frames output = some (said, r))
    (patient : ∀ s ∈ signals, s.patient = true)
    (run : (Machine.resume p task ⟨input, output, none, [], []⟩).run p signals = some m) :
    m.Follows p R said r unread := by
  refine Machine.Follows.run feeds ⟨?_, ?_⟩ patient run
  · exact Task.advance_holds p task _ rfl trivial (task.keeps_true [])
  · have start : (⟨input, output, none, [], []⟩ : Link σ).Tells said said :=
      ⟨rfl, List.nil_append _, List.nil_append _⟩
    exact Task.advance_told feeds brings script start

end Follows

end Permesh.Lib

import Permesh.Lib.Schedule

/-!
# What a task has read

A `Reader` says how the input end of a port turns bytes into frames: nothing is lost, and nothing
is read twice. `Machine.run_reads` carries that over every run: the bytes the environment
delivered are the frames in the trace, one after the other, and then what is still buffered.
-/

namespace Permesh.Lib

variable {σ : Sig}

/-- The bytes of a schedule's reads. -/
def delivered (signals : List Signal) : List UInt8 :=
  (signals.map fun s => match s with
    | .read chunk => chunk
    | _ => []).flatten

/-- The frames of a trace that were read. -/
def received (t : List (Item σ)) : List σ.Frame :=
  t.filterMap fun x => match x with
    | .received f => some f
    | _ => none

@[simp] theorem received_append (t u : List (Item σ)) :
    received (t ++ u) = received t ++ received u :=
  List.filterMap_append

@[simp] theorem received_received (f : σ.Frame) : received (σ := σ) [.received f] = [f] := rfl
@[simp] theorem received_offered (e : σ.Event) : received (σ := σ) [.offered e] = [] := rfl
@[simp] theorem received_sent (e : σ.Event) : received (σ := σ) [.sent e] = [] := rfl
@[simp] theorem received_called (c : σ.Call) : received (σ := σ) [.called c] = [] := rfl

/-- How the input end buffers bytes and splits them into frames. -/
structure Reader (p : Port σ) where
  /-- The bytes that are buffered. -/
  content : σ.In → List UInt8
  text : σ.Frame → List UInt8
  /-- What is true of the buffer between two scans. -/
  sound : σ.In → Prop
  /-- What is true of every frame. -/
  whole : σ.Frame → Prop
  scan_none : ∀ {i i'}, sound i → p.scan i = (i', none) → sound i' ∧ content i' = content i
  scan_ok : ∀ {i i' f}, sound i → p.scan i = (i', some (.ok f)) →
    sound i' ∧ content i = text f ++ content i' ∧ whole f
  scan_error : ∀ {i i' e}, sound i → p.scan i = (i', some (.error e)) →
    sound i' ∧ content i' = content i
  feed : ∀ {i} (chunk : List UInt8), sound i →
    sound (p.feed i chunk) ∧ content (p.feed i chunk) = content i ++ chunk

/-- **The account of the input**: the bytes delivered so far are the frames that were read, and
then what is buffered. -/
structure Link.Reads {p : Port σ} (R : Reader p) (bytes : List UInt8) (l : Link σ) : Prop where
  content : bytes = ((received l.trace).map R.text).flatten ++ R.content l.input
  sound : R.sound l.input
  whole : ∀ f ∈ received l.trace, R.whole f

variable {p : Port σ} {R : Reader p} {bytes : List UInt8}

/-- Items that are no frames, and changes of the output, do not matter. -/
theorem Link.Reads.congr {l l' : Link σ} (h : l.Reads R bytes) (hi : l'.input = l.input)
    (ht : received l'.trace = received l.trace) : l'.Reads R bytes :=
  ⟨by rw [hi, ht]; exact h.content, by rw [hi]; exact h.sound, by rw [ht]; exact h.whole⟩

/-- A scan that completes no frame. -/
theorem Link.Reads.pending {l : Link σ} {i : σ.In} (h : l.Reads R bytes)
    (hscan : p.scan l.input = (i, none)) : Link.Reads R bytes { l with input := i } := by
  obtain ⟨sound, content⟩ := R.scan_none h.sound hscan
  exact ⟨by rw [content]; exact h.content, sound, h.whole⟩

/-- A scan that completes a frame, or fails. -/
theorem Link.Reads.saw {l : Link σ} {i : σ.In} {r : Except σ.Fail σ.Frame}
    (h : l.Reads R bytes) (hscan : p.scan l.input = (i, some r)) :
    ({ l with input := i }.saw r).Reads R bytes := by
  cases r with
  | error e =>
    obtain ⟨sound, content⟩ := R.scan_error h.sound hscan
    exact ⟨by simp only [Link.saw, content]; exact h.content, sound, h.whole⟩
  | ok f =>
    obtain ⟨sound, content, whole⟩ := R.scan_ok h.sound hscan
    refine ⟨?_, sound, ?_⟩
    · simp only [Link.saw, received_append, received_received, List.map_append, List.map_cons,
        List.map_nil, List.flatten_append, List.flatten_singleton, List.append_assoc, ← content]
      exact h.content
    · intro g hg
      simp only [Link.saw, received_append, received_received, List.mem_append,
        List.mem_singleton] at hg
      rcases hg with hg | rfl
      · exact h.whole g hg
      · exact whole

/-- A job reads nothing. -/
theorem Job.advance_reads : ∀ (job : Job σ) (l : Link σ), l.Reads R bytes →
    (job.advance p l).2.Reads R bytes
  | .done _, _, h => h
  | .send e k, l, h => by
    cases hb : p.begin l.output e with
    | error f => simpa only [Job.advance, hb] using Job.advance_reads (k (.error f)) l h
    | ok pair =>
      simp only [Job.advance, hb]
      exact h.congr rfl (by simp only [Link.offer, received_append, received_offered,
        List.append_nil])
  | .call c next, l, h => h.congr rfl (by
      simp only [Job.advance, received_append, received_called, List.append_nil])

/-- Running to the next suspension keeps the account of the input. -/
theorem Task.advance_reads : ∀ (task : Task σ) (l : Link σ), l.Reads R bytes →
    (Machine.resume p task l).link.Reads R bytes
  | .done _, _, h => h
  | .frame k, l, h => by
    cases hscan : p.scan l.input with
    | mk i r =>
      cases r with
      | none =>
        simp only [Machine.resume, Task.advance, hscan]
        exact h.pending hscan
      | some r =>
        have := Task.advance_reads (k r) _ (h.saw hscan)
        simpa only [Machine.resume, Task.advance, hscan] using this
  | .send e k, l, h => by
    cases hb : p.begin l.output e with
    | error f =>
      have := Task.advance_reads (k (.error f)) l h
      simpa only [Machine.resume, Task.advance, hb] using this
    | ok pair =>
      simp only [Machine.resume, Task.advance, hb]
      exact h.congr rfl (by simp only [Link.offer, received_append, received_offered,
        List.append_nil])
  | .set f next, l, h => Task.advance_reads next { l with output := f l.output } (h.congr rfl rfl)
  | .select job k, l, h => by
    cases hscan : p.scan l.input with
    | mk i r =>
      cases r with
      | none =>
        simp only [Machine.resume, Task.advance, hscan]
        exact h.pending hscan
      | some r =>
        have := Task.advance_reads (k (.input r)) _ (h.saw hscan)
        simpa only [Machine.resume, Task.advance, hscan] using this
  | .racing job k, l, h => by
    have hjob := Job.advance_reads job l h
    cases hadv : job.advance p l with
    | mk job' l' =>
      rw [hadv] at hjob
      cases job' with
      | done r =>
        have := Task.advance_reads (k (.job r)) l' hjob
        simpa only [Machine.resume, Task.advance, hadv] using this
      | _ => simpa only [Machine.resume, Task.advance, hadv] using hjob

/-- A chunk that arrives is delivered and buffered. -/
theorem Link.Reads.feed {l : Link σ} (h : l.Reads R bytes) (chunk : List UInt8) :
    Link.Reads R (bytes ++ delivered [.read chunk]) { l with input := p.feed l.input chunk } := by
  rw [show delivered [.read chunk] = chunk from List.append_nil chunk]
  obtain ⟨sound, content⟩ := R.feed chunk h.sound
  refine ⟨?_, sound, h.whole⟩
  rw [content, ← List.append_assoc]
  exact congrArg (· ++ chunk) h.content

/-- A signal that brings no chunk leaves the account as it is. -/
theorem Link.Reads.silent {l : Link σ} {s : Signal} (h : l.Reads R bytes)
    (hs : delivered [s] = []) : l.Reads R (bytes ++ delivered [s]) := by
  rw [hs, List.append_nil]
  exact h

/-- **One step keeps the account of the input**, with the bytes that it delivers. -/
theorem Machine.step_reads {m m' : Machine σ} {s : Signal} (h : m.link.Reads R bytes)
    (hm : m.step p s = some m') : m'.link.Reads R (bytes ++ delivered [s]) := by
  cases Machine.step_moves hm with
  | @frame k l chunk _ => exact Task.advance_reads _ _ (Link.Reads.feed h chunk)
  | @select job k l chunk _ => exact Task.advance_reads _ _ (Link.Reads.feed h chunk)
  | @undecided job k l chunk _ _ hscan => exact (Link.Reads.feed h chunk).pending hscan
  | @decided job k l chunk i r _ hscan =>
    have idle : Link.Reads R (bytes ++ delivered [.read chunk])
        { l with input := p.feed l.input chunk, sending := none } :=
      (Link.Reads.feed h chunk).congr rfl rfl
    exact Task.advance_reads _ _ (idle.saw hscan)
  | frameless hs =>
    refine Task.advance_reads _ _ (Link.Reads.silent h ?_)
    rcases hs with ⟨rfl | rfl, -⟩ | ⟨rfl, -⟩ <;> rfl
  | unraced hs =>
    refine Task.advance_reads _ _ (Link.Reads.silent h ?_)
    rcases hs with rfl | rfl <;> rfl
  | lost hs =>
    refine Task.advance_reads _ _ ((Link.Reads.silent h ?_).congr rfl rfl)
    rcases hs with ⟨rfl | rfl, -⟩ | ⟨rfl, -⟩ <;> rfl
  | poll => exact Task.advance_reads _ _ (Link.Reads.silent h rfl)
  | reply => exact Task.advance_reads _ _ (Link.Reads.silent h rfl)
  | accept =>
    refine (Link.Reads.silent h rfl).congr rfl ?_
    simp only [Link.accept]
    split
    · rw [received_append, received_sent, List.append_nil]
    · rfl
  | flushed => exact Task.advance_reads _ _ ((Link.Reads.silent h rfl).congr rfl rfl)
  | failed hs =>
    refine Task.advance_reads _ _ ((Link.Reads.silent h ?_).congr rfl rfl)
    rcases hs with rfl | rfl <;> rfl

/-- The account of the input over a schedule. -/
theorem Machine.run_reads_from : ∀ {signals : List Signal} {m m' : Machine σ} {bytes : List UInt8},
    m.link.Reads R bytes → m.run p signals = some m' →
      m'.link.Reads R (bytes ++ delivered signals)
  | [], _, _, _, h, hr => by
    cases hr
    rw [show delivered [] = [] from rfl, List.append_nil]
    exact h
  | s :: rest, m, m', bytes, h, hr => by
    obtain ⟨mid, hm, hr⟩ := Option.bind_eq_some_iff.mp hr
    have := Machine.run_reads_from (Machine.step_reads h hm) hr
    rwa [List.append_assoc, ← show delivered (s :: rest) = delivered [s] ++ delivered rest by
      simp only [delivered, List.map_cons, List.map_nil, List.flatten_cons, List.flatten_nil,
        List.append_nil]] at this

/-- **Every run accounts for its input**: the bytes delivered are the frames read and then what is
buffered. -/
theorem Machine.run_reads {task : Task σ} {input : σ.In} {output : σ.Out} {signals : List Signal}
    {m : Machine σ} (R : Reader p) (sound : R.sound input) (empty : R.content input = [])
    (hr : (Machine.resume p task ⟨input, output, none, [], []⟩).run p signals = some m) :
    m.link.Reads R (delivered signals) := by
  have start : Link.Reads R [] (⟨input, output, none, [], []⟩ : Link σ) :=
    ⟨by rw [empty]; rfl, sound, fun f hf => by cases hf⟩
  exact Machine.run_reads_from (Task.advance_reads task _ start) hr

end Permesh.Lib

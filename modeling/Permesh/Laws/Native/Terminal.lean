import Permesh.Native.Session

/-!
# Laws.Native.Terminal — one terminal event, and nothing after it

The order of the frames in every run of a session. Up to its last byte a frame may be lost in any
way: the input wins the race, a timer fires, the writer fails. Once the writer has the last byte
of a successful terminal event, everything rests on the flush: a signal that cuts the send then
makes the runtime write a second terminal event. `Session.orderly` excludes exactly that signal,
and `Session.orderly_needs_settled` is a run with it.
-/

namespace Permesh.Native

open Permesh.Lib

variable {K : Crates} {A : Adapter K}

/-- What is seen of a session. -/
abbrev Trace (A : Adapter K) := List (Item (sig A))

/-- The events that end a session. -/
def Event.terminal : Event K → Bool
  | .setup _ | .auth _ | .health _ | .complete .. | .cancelled | .error _ => true
  | .handshake .. | .record _ => false

/-- The terminal events after which `serve` returns `Ok`. -/
def Event.succeeds : Event K → Bool
  | .setup _ | .auth _ | .health _ | .complete .. | .cancelled => true
  | .handshake .. | .record _ | .error _ => false

def Event.isHandshake : Event K → Bool
  | .handshake .. => true
  | _ => false

def Event.isRecord : Event K → Bool
  | .record _ => true
  | _ => false

theorem Event.succeeds_terminal {e : Event K} (h : e.succeeds = true) : e.terminal = true := by
  cases e <;> first | rfl | cases h

/-- The event of a frame that reaches the writer, in part or in full. -/
def shown : Item (sig A) → Option (Event K)
  | .offered e | .sent e => some e
  | .received _ | .called _ => none

/-- The frame of a terminal event is written in full. -/
def closes : Item (sig A) → Prop
  | .sent e => Event.terminal e = true
  | _ => False

/-! ## The order of frames -/

/-- **The frames of a trace are in order**: at most one terminal event, nothing behind it, and the
records between the handshake and the terminal event. -/
structure Orderly (t : Trace A) : Prop where
  once : (sent t).countP Event.terminal ≤ 1
  last : t.Pairwise fun x y => closes x → shown y = none
  greeted : ∀ {before x after}, t = before ++ x :: after →
    (shown x).any Event.isRecord = true → (sent before).any Event.isHandshake = true

/-- Orderly, and no terminal event so far. -/
structure Open (t : Trace A) : Prop where
  orderly : Orderly t
  none : (sent t).any Event.terminal = false

/-- Open, and the handshake is out. -/
structure Serving (t : Trace A) : Prop where
  isOpen : Open t
  greeted : (sent t).any Event.isHandshake = true

/-- A terminal event is out, after which `serve` returns `Ok`. -/
structure Succeeded (t : Trace A) : Prop where
  orderly : Orderly t
  sent : (sent t).any Event.succeeds = true

theorem Open.nil : Open ([] : Trace A) where
  orderly := ⟨Nat.zero_le 1, .nil, fun h => by simp at h⟩
  none := rfl

/-- A trace with no terminal event closes nowhere. -/
theorem Open.not_closes {t : Trace A} (h : Open t) : ∀ x ∈ t, ¬ closes x := by
  intro x hx hc
  cases x with
  | sent e =>
    have : e ∈ Lib.sent t := List.mem_filterMap.mpr ⟨_, hx, rfl⟩
    exact Bool.false_ne_true (h.none ▸ List.any_eq_true.mpr ⟨e, this, hc⟩)
  | _ => exact hc

/-- An open trace may grow by any item, except that a record needs the handshake. -/
theorem Open.snoc {t : Trace A} (h : Open t) {x : Item (sig A)}
    (hx : (shown x).any Event.isRecord = true → (Lib.sent t).any Event.isHandshake = true) :
    Orderly (t ++ [x]) where
  once := by
    have zero : (Lib.sent t).countP Event.terminal = 0 := by
      rw [List.countP_eq_zero]
      intro e he ht
      exact Bool.false_ne_true (h.none ▸ List.any_eq_true.mpr ⟨e, he, ht⟩)
    have one : (Lib.sent [x]).length ≤ 1 := by cases x <;> simp
    rw [sent_append, List.countP_append, zero, Nat.zero_add]
    exact Nat.le_trans List.countP_le_length one
  last := by
    rw [List.pairwise_append]
    refine ⟨h.orderly.last, List.pairwise_singleton _ _, ?_⟩
    intro y hy _ _ hc
    exact absurd hc (h.not_closes y hy)
  greeted := by
    intro before y after split hr
    rcases List.eq_nil_or_concat' after with rfl | ⟨after, z, rfl⟩
    · obtain ⟨rfl, hy⟩ := List.append_inj' split rfl
      cases hy
      exact hx hr
    · rw [← List.cons_append, ← List.append_assoc] at split
      exact h.orderly.greeted (List.append_inj' split rfl).1 hr

/-- An item that shows no terminal event in full keeps a trace open. -/
theorem Open.grow {t : Trace A} (h : Open t) {x : Item (sig A)}
    (hx : (shown x).any Event.isRecord = true → (Lib.sent t).any Event.isHandshake = true)
    (hc : ¬ closes x) : Open (t ++ [x]) where
  orderly := h.snoc hx
  none := by
    have : (Lib.sent [x]).any Event.terminal = false := by
      cases x <;> simp_all [closes]
    rw [sent_append, List.any_append, h.none, this, Bool.false_or]

theorem Open.received {t : Trace A} (h : Open t) (f : List UInt8) : Open (t ++ [.received f]) :=
  h.grow (fun hr => by cases hr) id

theorem Open.called {t : Trace A} (h : Open t) (c : Call A) : Open (t ++ [.called c]) :=
  h.grow (fun hr => by cases hr) id

theorem Serving.received {t : Trace A} (h : Serving t) (f : List UInt8) :
    Serving (t ++ [.received f]) :=
  ⟨h.isOpen.received f, by rw [sent_append, List.any_append, h.greeted, Bool.true_or]⟩

theorem Serving.called {t : Trace A} (h : Serving t) (c : Call A) : Serving (t ++ [.called c]) :=
  ⟨h.isOpen.called c, by rw [sent_append, List.any_append, h.greeted, Bool.true_or]⟩

/-- Any event but a record may be offered to an open trace. -/
theorem Open.offered {t : Trace A} (h : Open t) {e : Event K} (he : e.isRecord = false) :
    Open (t ++ [.offered e]) :=
  h.grow (fun hr => by simp [shown, he] at hr) id

theorem Serving.offered {t : Trace A} (h : Serving t) (e : Event K) :
    Serving (t ++ [.offered e]) :=
  ⟨h.isOpen.grow (fun _ => h.greeted) id,
    by rw [sent_append, List.any_append, h.greeted, Bool.true_or]⟩

/-- A successful terminal event that is written in full closes the trace. -/
theorem Open.succeed {t : Trace A} (h : Open t) {e : Event K} (he : e.succeeds = true) :
    Succeeded (t ++ [.sent e]) where
  orderly := h.snoc fun hr => by cases e <;> simp_all [shown, Event.isRecord, Event.succeeds]
  sent := by simp [he]

/-! ## The session keeps the order -/

/-- The events that may be lost after their last byte. -/
def lossy (e : Event K) : Bool := !e.succeeds

/-- What the session owes: success has written its terminal event, failure has not. -/
def Ends : Except Failure Unit → Trace A → Prop
  | .ok (), t => Succeeded t
  | .error _, t => Open t

/-- What a step on the way owes: success leaves `mid`, failure no terminal event. -/
def Goes {α : Type} (mid : Trace A → Prop) : Except Failure α → Trace A → Prop
  | .ok _, t => mid t
  | .error _, t => Open t

/-- **A record** goes out between the handshake and the terminal event. -/
theorem record_meets (record : Wire.Record) :
    JobM.Meets (Orderly (A := A)) lossy Open Serving (JobM.send (.record record))
      (Goes Serving) := by
  have out : ∀ t : Trace A, Serving t →
      Serving (t ++ [.offered (.record record)] ++ [.sent (.record record)]) := fun t h =>
    have ho := h.offered (.record record)
    ⟨ho.isOpen.grow (fun _ => ho.greeted) Bool.false_ne_true,
      by rw [sent_append, List.any_append, ho.greeted, Bool.true_or]⟩
  refine .send (fun f t h => h.isOpen) (fun t h => ?_) (fun t h => ?_) fun _ t h => ?_
  · have ho := (h.offered (.record record)).isOpen
    exact ⟨ho.orderly, ho, fun _ => ho⟩
  · exact ⟨(out t h).isOpen.orderly, out t h⟩
  · exact ⟨(out t h).isOpen, fun _ => (out t h).isOpen⟩

/-- **A successful terminal event** is written once the trace is open. -/
theorem terminal_meets {e : Event K} (he : e.succeeds = true) :
    JobM.Meets (Orderly (A := A)) lossy Open Open (JobM.send e) Ends := by
  have plain : e.isRecord = false := by cases e <;> first | rfl | cases he
  refine .send (fun f t h => h) (fun t h => ?_) (fun t h => ?_) fun hl => ?_
  · exact ⟨(h.offered plain).orderly, h.offered plain, fun _ => h.offered plain⟩
  · exact ⟨((h.offered plain).succeed he).orderly, (h.offered plain).succeed he⟩
  · simp only [lossy, he, Bool.not_true, Bool.false_eq_true] at hl

theorem records_meets {α : Type} (convert : α → Wire.Record) :
    ∀ values : List α, JobM.Meets (Orderly (A := A)) lossy Open Serving
      (records convert values) (Goes Serving)
  | [] => .pure fun _ h => h
  | data :: values =>
    (record_meets (convert data)).bind (fun _ => records_meets convert values) fun _ _ h => h

/-- An outside call of the operation leaves the trace as it is, but for itself. -/
theorem call_meets {α : Type} (c : Call A) (answer : Except Failure α) :
    JobM.Meets (Orderly (A := A)) lossy Open Serving (JobM.call c answer) (Goes Serving) := by
  refine .call fun t h => ⟨(h.isOpen.called c).orderly, h.isOpen.called c, ?_⟩
  cases answer with
  | ok a => exact h.called c
  | error e => exact h.isOpen.called c

theorem operation_meets (provider : Provider) (check : Bool) (instanceId : String) :
    JobM.Meets Orderly lossy Open Serving (operation A provider check instanceId) Ends := by
  have step {m : JobM (sig A) Unit} {n : JobM (sig A) Unit}
      (hm : JobM.Meets Orderly lossy Open Serving m (Goes Serving))
      (hn : JobM.Meets Orderly lossy Open Serving n Ends) :
      JobM.Meets Orderly lossy Open Serving (m >>= fun _ => n) Ends :=
    hm.bind (fun _ => hn) fun _ _ h => h
  have fail (f : Failure) : JobM.Meets (Orderly (A := A)) lossy Open Serving (JobM.fail f) Ends :=
    .fail fun _ h => h.isOpen
  unfold operation
  cases check with
  | true =>
    refine (call_meets _ _).bind (fun health => ?_) fun _ _ h => h
    exact (terminal_meets rfl).imp (fun _ h => h.isOpen) fun _ _ h => h
  | false =>
    refine (call_meets _ _).bind (fun snapshot => ?_) fun _ _ h => h
    refine .ite (fun _ => fail _) fun _ => .ite (fun _ => fail _) fun _ =>
      .ite (fun _ => fail _) fun _ => ?_
    refine step (records_meets _ _) (step (records_meets _ _) (step (records_meets _ _)
      (step (records_meets _ _) (step (records_meets _ _) (step (records_meets _ _) ?_)))))
    exact (terminal_meets rfl).imp (fun _ h => h.isOpen) fun _ _ h => h

theorem operate_meets (H : Host A) (check : Bool) (instanceId : String)
    (configuration : A.Configuration) (credentials : A.Credentials)
    (network : Option NetworkContext) :
    JobM.Meets Orderly lossy Open Serving
      (operate H check instanceId configuration credentials network) Ends :=
  (call_meets _ _).bind (fun provider => operation_meets provider check instanceId) fun _ _ h => h

/-- A race that the input or the deadline wins fails. -/
theorem raced_error (H : Host A) (contract : RequestContract) :
    (∀ r, ∃ f, raced H contract (.input r) = .error f) ∧
      ∃ f, raced H contract .deadline = .error f := by
  refine ⟨fun r => ?_, _, rfl⟩
  cases r with
  | error e => exact ⟨e, rfl⟩
  | ok frame =>
    dsimp only [raced]
    split
    · exact ⟨_, rfl⟩
    split
    · split <;> exact ⟨_, rfl⟩
    · exact ⟨_, rfl⟩

theorem select_meets (H : Host A) (contract : RequestContract) {job : JobM (sig A) Unit}
    (hj : JobM.Meets Orderly lossy Open Serving job Ends) :
    TaskM.Meets Orderly lossy Serving (select H contract job) Ends := by
  obtain ⟨input, f, late⟩ := raced_error H contract
  refine .select Open (fun t h => ⟨fun e => ?_, fun b => ⟨?_, ?_⟩, ?_⟩)
    (fun _ h => h.isOpen) hj
  · obtain ⟨f, hf⟩ := input (.error e)
    rw [hf]
    exact h
  · exact (h.received b).orderly
  · obtain ⟨f, hf⟩ := input (.ok b)
    rw [hf]
    exact h.received b
  · rw [late]
    exact h

/-- One more request leaves the trace open. -/
theorem next_meets (H : Host A) (mid : Trace A → Prop) (isOpen : ∀ t, mid t → Open t)
    (stays : ∀ t f, mid t → mid (t ++ [.received f])) :
    TaskM.Meets Orderly lossy mid (next H) (Goes mid) := by
  have frame : TaskM.Meets Orderly lossy mid TaskM.frame (Goes mid) :=
    .frame (fun _ t h => isOpen t h) fun f t h => ⟨(isOpen _ (stays t f h)).orderly, stays t f h⟩
  refine frame.bind (fun frame => ?_) fun _ _ h => h
  split
  · exact .fail fun t h => isOpen t h
  · exact .pure fun _ h => h

/-- A terminal event outside the race. -/
theorem closing_meets {e : Event K} (he : e.succeeds = true) :
    TaskM.Meets (Orderly (A := A)) lossy Open (TaskM.send e) Ends := by
  have plain : e.isRecord = false := by cases e <;> first | rfl | cases he
  refine .send (fun f t h => h) (fun t h => ?_) (fun t h => ?_) fun hl => ?_
  · exact ⟨(h.offered plain).orderly, fun _ => h.offered plain⟩
  · exact ⟨((h.offered plain).succeed he).orderly, (h.offered plain).succeed he⟩
  · simp only [lossy, he, Bool.not_true, Bool.false_eq_true] at hl

/-- The handshake opens the way for records. -/
theorem greeting_meets (contract : RequestContract) (networkRequested : Bool) :
    TaskM.Meets (Orderly (A := A)) lossy Open (TaskM.send (greeting A contract networkRequested))
      (Goes Serving) := by
  have greets : ∃ p c o f, greeting A contract networkRequested = .handshake p c o f := by
    unfold greeting
    dsimp only
    split <;> exact ⟨_, _, _, _, rfl⟩
  obtain ⟨p, c, o, f, he⟩ := greets
  rw [he]
  have out : ∀ t : Trace A, Open t →
      Serving (t ++ [.offered (.handshake p c o f)] ++ [.sent (.handshake p c o f)]) := fun t h =>
    ⟨(h.offered rfl).grow (fun hr => by cases hr) Bool.false_ne_true,
      by simp only [sent_append, sent_offered, sent_sent, List.any_append, List.any_cons,
          Event.isHandshake, Bool.true_or, Bool.or_true]⟩
  refine .send (fun f t h => h) (fun t h => ?_) (fun t h => ?_) fun _ t h => ?_
  · exact ⟨(h.offered rfl).orderly, fun _ => h.offered rfl⟩
  · exact ⟨(out t h).isOpen.orderly, out t h⟩
  · exact fun _ => (out t h).isOpen

theorem session_meets (H : Host A) (networkEnabled : Bool) :
    TaskM.Meets Orderly lossy Open (session H networkEnabled) Ends := by
  have fail {pre : Trace A → Prop} (isOpen : ∀ t, pre t → Open t) (f : Failure) :
      TaskM.Meets Orderly lossy pre (TaskM.fail f) Ends := .fail isOpen
  have fails (f : Failure) := fail (fun _ (h : Serving (A := A) _) => h.isOpen) f
  have set {mid : Trace A → Prop} (f : Output → Output) :
      TaskM.Meets Orderly lossy mid (TaskM.set f) (Goes mid) := .set fun _ h => h
  refine (next_meets H Open (fun _ h => h) fun t f h => h.received f).bind
    (fun request => ?_) fun _ _ h => h
  refine (set _).bind (fun _ => ?_) fun _ _ h => h
  split
  case h_2 => exact fail (fun _ h => h) _
  case h_1 instanceId operation networkRequested =>
  refine .ite (fun _ => fail (fun _ h => h) _) fun _ => ?_
  refine (greeting_meets _ _).bind (fun _ => ?_) fun _ _ h => h
  refine (next_meets H Serving (fun _ h => h.isOpen) fun t f h => h.received f).bind
    (fun second => ?_) fun _ _ h => h
  refine .ite (fun _ => fails _) fun _ => ?_
  split
  · -- describe
    refine (set _).bind (fun _ => .ite (fun _ => fails _) fun _ => ?_) fun _ _ h => h
    exact (closing_meets rfl).imp (fun _ h => h.isOpen) fun _ _ h => h
  · -- describe_auth
    refine (set _).bind (fun _ => ?_) fun _ _ h => h
    split
    · exact fails _
    refine .ite (fun _ => fails _) fun _ => ?_
    exact (closing_meets rfl).imp (fun _ h => h.isOpen) fun _ _ h => h
  · -- cancel
    exact fails _
  · -- check and discover
    refine .ite (fun _ => fails _) fun _ => (set _).bind (fun _ => ?_) fun _ _ h => h
    refine .ite (fun _ => fails _) fun _ => .ite (fun _ => fails _) fun _ => ?_
    exact select_meets H _ (operate_meets H _ _ _ _ _)
  · exact fails _

/-- What `serve` returns: `Ok` exactly when a successful terminal event is written. -/
def Serves (r : Except ProtocolFailure Unit) (t : Trace A) : Prop :=
  r = .ok () ↔ (sent t).any Event.succeeds = true

/-- A trace with no terminal event has none that succeeds. -/
theorem Open.succeeds {t : Trace A} (h : Open t) : (Lib.sent t).any Event.succeeds = false := by
  apply List.any_eq_false.mpr
  intro e he hs
  exact List.any_eq_false.mp h.none e he (Event.succeeds_terminal hs)

theorem Serves.error {t : Trace A} (h : (sent t).any Event.succeeds = false) :
    Serves (.error .mk) t :=
  ⟨fun hr => (by cases hr), fun hs => absurd (h ▸ hs) Bool.false_ne_true⟩

/-- **The tree of a session keeps the order**, and its result tells which event it ended with. -/
theorem serve_keeps (H : Host A) (networkEnabled : Bool) :
    (serveInternal H networkEnabled).Keeps Orderly lossy Serves [] := by
  apply session_meets H networkEnabled Serves _ [] .nil
  intro r t h
  cases r with
  | ok => exact ⟨fun _ => h.sent, fun _ => rfl⟩
  | error f =>
    have ends (e : Event K) (plain : e.isRecord = false) :
        Serves (.error .mk) t ∧ Orderly (t ++ [.offered e]) ∧
          Serves (.error .mk) (t ++ [.offered e]) ∧ Orderly (t ++ [.offered e] ++ [.sent e]) :=
      have ho := Open.offered h plain
      ⟨.error (Open.succeeds h), ho.orderly, .error ho.succeeds,
        ho.snoc fun hr => by simp only [shown, Option.any_some, plain, Bool.false_eq_true] at hr⟩
    cases f with
    | cancelled =>
      obtain ⟨h0, h1, h2, h3⟩ := ends .cancelled rfl
      refine ⟨fun _ => h0, ⟨h1, fun _ => h2⟩, h3, fun hl => (by cases hl), ?_⟩
      exact ⟨fun _ => ((Open.offered h rfl).succeed rfl).sent, fun _ => rfl⟩
    | _ =>
      obtain ⟨h0, h1, h2, h3⟩ := ends (.error _) rfl
      have h4 (code : String) := Serves.error (t := t ++ [.offered (.error code)] ++
        [.sent (.error code)]) (by
        simp only [sent_append, sent_offered, sent_sent, List.append_nil, List.any_append,
          List.any_cons, List.any_nil, Event.succeeds, Bool.or_false]
        exact Open.succeeds h)
      exact ⟨fun _ => h0, ⟨h1, fun _ => h2⟩, h3, fun _ _ => h4 _, h4 _⟩

/-- **Every run whose steps settle is in order.** A step settles unless it cuts the send of a
successful terminal event after its last byte. -/
theorem Session.orderly {H : Host A} {networkEnabled : Bool} {signals : List Signal}
    {m : Machine (sig A)}
    (settled : (start H networkEnabled).along (port H) (Machine.settles lossy (port H)) signals =
      true)
    (run : (start H networkEnabled).run (port H) signals = some m) :
    Orderly m.link.trace ∧ ∀ r, m.task = .done r →
      (r = .ok () ↔ (sent m.link.trace).any Event.succeeds = true) := by
  have keeps : m.Holds Orderly lossy Serves :=
    Task.run_keeps Open.nil.orderly (serve_keeps H networkEnabled) settled run
  refine ⟨keeps.trace, fun r hr => ?_⟩
  obtain ⟨task, link⟩ := m
  cases hr
  exact keeps.result

/-! ## A host and its frames -/

namespace Sample

def crates : Crates where
  core := .plain
  SetupSpec := Unit
  setupValid _ := true
  BrowserAuthSpec := Unit
  browserAuthValid _ := true
  networkValid _ := true
  proxyHttps _ := true
  Certificate := Unit
  fromPemBundle _ := none
  buildsOnly _ := true

def adapter : Adapter crates where
  Configuration := Unit
  Credentials := Unit
  metadata := ⟨"github", []⟩
  supportsNetwork := false
  setup := ()
  browserAuth := none
  validate _ _ := true
  errorCode _ := "internal"
  limitations _ := []

/-- The bytes of a text. -/
def utf8 (text : String) : List UInt8 := text.toByteArray.data.toList

def handshake : List UInt8 := utf8 ("\x7b\"protocol_version\":1,\"id\":\"handshake\"," ++
  "\"method\":\"handshake\",\"instance\":\"main\",\"operation\":\"discover\"\x7d\n")

def discover : List UInt8 := utf8 ("\x7b\"protocol_version\":1,\"id\":\"discover\"," ++
  "\"method\":\"discover\",\"configuration\":\x7b\x7d,\"credentials\":\x7b\x7d\x7d\n")

def cancel : List UInt8 := utf8
  "\x7b\"protocol_version\":1,\"id\":\"cancel\",\"method\":\"cancel\"\x7d\n"

/-- A negotiated frame with nothing but its method. -/
def bare (method : String) : WireRequest adapter where
  protocol := none
  protocolVersion := some 1
  operation := none
  features := none
  network := none
  id := method
  method := method
  instanceId := none
  configuration := none
  credentials := none

def fromSlice (bytes : List UInt8) : Option (WireRequest adapter) :=
  if bytes = handshake then
    some { bare "handshake" with instanceId := some "main", operation := some .discover }
  else if bytes = discover then
    some { bare "discover" with configuration := some (), credentials := some () }
  else if bytes = cancel then some (bare "cancel")
  else none

/-- The documents of the events that a run on an empty organization shows. -/
def document : Event crates → List UInt8
  | .handshake .. => utf8 ("\x7b\"protocol_version\":1,\"id\":\"handshake\"," ++
      "\"capabilities\":[],\"draft\":true,\"event\":\"handshake\"," ++
      "\"operations\":[\"discover\",\"check\"],\"provider\":\"github\"\x7d")
  | .complete .. => utf8 ("\x7b\"protocol_version\":1,\"id\":\"discover\"," ++
      "\"complete\":true,\"count\":0,\"event\":\"complete\",\"limitations\":[]\x7d")
  | .cancelled =>
    utf8 "\x7b\"protocol_version\":1,\"id\":\"cancel\",\"event\":\"cancelled\"\x7d"
  | _ => utf8 "\x7b\x7d"

/-- A document written in one piece. -/
def serializer : Serializer crates where
  pieces envelope := [document envelope.event]
  plain envelope bytes h := by
    rw [List.mem_singleton] at h
    subst h
    cases envelope.event <;> simp only [document] <;> decide +kernel

/-- A provider that finds an empty organization. -/
def host : Host adapter where
  fromSlice := fromSlice
  serializer := serializer
  factory _ _ _ _ := .ok ⟨.ok ⟨"", []⟩, .ok (.new "main")⟩

/-- Up to the first poll of the writer with the complete frame of 101 bytes. -/
def opening : List Signal :=
  [.read handshake, .accept 145, .flushed, .read discover, .poll, .reply, .reply]

end Sample

/-- **The condition is needed.** The writer has the whole complete frame and its flush is pending
when a cancel frame arrives: the cancelled frame follows the complete frame. -/
theorem Session.orderly_needs_settled :
    ¬ ∀ (K : Crates) (A : Adapter K) (H : Host A) (networkEnabled : Bool) (signals : List Signal)
      (m : Machine (sig A)), (start H networkEnabled).run (port H) signals = some m →
      Orderly m.link.trace ∧ ∀ r, m.task = .done r →
        (r = .ok () ↔ (sent m.link.trace).any Event.succeeds = true) := by
  intro claim
  have twice : ((start Sample.host false).run (port Sample.host)
      (Sample.opening ++ [.accept 101, .read Sample.cancel, .accept 57, .flushed])).any
      (fun m => (sent m.link.trace).countP Event.terminal == 2) = true := by decide +kernel
  obtain ⟨m, run, two⟩ := (Option.any_eq_true _ _).mp twice
  have once := (claim _ _ _ _ _ m run).1.once
  rw [beq_iff_eq] at two
  omega

/-- An undisturbed discovery. -/
theorem Session.orderly_discovery :
    ∃ m, (start Sample.host false).run (port Sample.host)
      (Sample.opening ++ [.accept 60, .accept 41, .flushed]) = some m ∧
      Orderly m.link.trace ∧ ∀ r, m.task = .done r →
        (r = .ok () ↔ (sent m.link.trace).any Event.succeeds = true) := by
  obtain ⟨m, run⟩ := Option.isSome_iff_exists.mp
    (show ((start Sample.host false).run (port Sample.host)
      (Sample.opening ++ [.accept 60, .accept 41, .flushed])).isSome = true by decide +kernel)
  exact ⟨m, run, Session.orderly (by decide +kernel) run⟩

end Permesh.Native

import Permesh.Lib.Script
import Permesh.Laws.Native.Discovery
import Permesh.Laws.Native.Input
import Permesh.Laws.Native.Output
import Permesh.Lib.Separators

/-!
# Laws.Native.Delivery — an undisturbed session delivers its answer

What a host gets that sends a handshake and an operation, waits for the answer and takes it. The
answer is a function of the two requests and of what the provider returns (`answer`); how the
bytes of the requests are cut into chunks, how many bytes of the answer are taken at a time and
how the calls of the provider are scheduled makes no difference (`Session.delivers`).
-/

namespace Permesh.Native

open Permesh.Lib

variable {K : Crates} {A : Adapter K}

/-! ## Lines that are read -/

/-- A line is bytes without a newline, and one behind them. -/
def Line (bytes : List UInt8) : Prop := ∃ text, newline ∉ text ∧ bytes = text ++ [newline]

/-- The unread bytes complete exactly these lines, all of them within the limits. -/
structure Input.Yields (i : Input) (unread : List UInt8) (lines : List (List UInt8)) : Prop where
  begun : newline ∉ i.frame
  bytes : i.frame ++ i.buffer ++ unread = lines.flatten
  lines : ∀ l ∈ lines, Line l ∧ l.length ≤ MAX_FRAME
  total : i.total + i.buffer.length + unread.length ≤ MAX_TOTAL

/-- The first line of bytes that are lines. -/
theorem first_line {text rest : List UInt8} {lines : List (List UInt8)} (plain : newline ∉ text)
    (each : ∀ l ∈ lines, Line l) (eq : text ++ newline :: rest = lines.flatten) :
    ∃ lines', lines = (text ++ [newline]) :: lines' ∧ rest = lines'.flatten := by
  cases lines with
  | nil => simp at eq
  | cons l lines' =>
    obtain ⟨text', plain', rfl⟩ := each l List.mem_cons_self
    rw [List.flatten_cons, List.append_assoc, List.singleton_append] at eq
    obtain ⟨rfl, rfl⟩ := sep_append_inj plain plain' eq
    exact ⟨lines', rfl, rfl⟩

/-- Bytes without a newline that begin some lines are no longer than the first of them. -/
theorem Input.Yields.begins {i : Input} {unread text : List UInt8} {lines : List (List UInt8)}
    (h : i.Yields unread lines) (plain : newline ∉ text) (begins : text <+: lines.flatten) :
    text.length ≤ MAX_FRAME := by
  obtain ⟨rest, eq⟩ := begins
  cases lines with
  | nil =>
    obtain ⟨rfl, -⟩ := List.append_eq_nil_iff.mp eq
    exact Nat.zero_le _
  | cons l lines =>
    obtain ⟨⟨line, -, rfl⟩, fits⟩ := h.lines l List.mem_cons_self
    rw [List.flatten_cons, List.append_assoc] at eq
    rcases List.append_eq_append_iff.mp eq with ⟨more, rfl, -⟩ | ⟨more, rfl, tail⟩
    · simp only [List.length_append] at fits
      omega
    · cases more with
      | nil =>
        simp only [List.append_nil, List.length_append] at fits ⊢
        omega
      | cons b more =>
        obtain ⟨rfl, -⟩ := List.cons.inj tail
        exact absurd (List.mem_append_right line List.mem_cons_self) plain

/-- **The lines are read one after the other**, in whatever chunks their bytes come. -/
theorem input_feeds (H : Host A) :
    Feeds (port H) fun (i : Input) unread lines => i.Within ∧ i.Yields unread lines where
  feed {i chunk unread lines} := by
    rintro ⟨within, begun, bytes, each, total⟩
    refine ⟨⟨within.frame, within.total⟩, begun, ?_, each, ?_⟩
    · simpa only [port, Input.feed, List.append_assoc] using bytes
    · simp only [port, Input.feed, List.length_append] at total ⊢
      omega
  some {i i' r unread lines} := by
    rintro ⟨within, h⟩ scan
    have scanned := Input.scanned within
    rw [show i.scan = (i', some r) from scan] at scanned
    cases scanned with
    | @frame line rest plain eq takes =>
      have bytes := h.bytes
      rw [eq, List.append_assoc, List.append_assoc, List.cons_append, ← List.append_assoc] at bytes
      have text : newline ∉ Input.frame i ++ line :=
        List.not_mem_append h.begun (not_newline plain)
      obtain ⟨lines', rfl, tail⟩ := first_line text (fun l hl => (h.lines l hl).1) bytes
      refine ⟨_, lines', rfl, by rw [List.append_assoc], ⟨Nat.zero_le _, takes.2⟩, ?_, ?_, ?_, ?_⟩
      · exact List.not_mem_nil
      · exact tail
      · exact fun l hl => h.lines l (List.mem_cons_of_mem _ hl)
      · have total := h.total
        rw [eq] at total
        simp only [List.length_append, List.length_cons] at total ⊢
        omega
    | @beyond n exceeds here =>
      -- what is beyond a limit begins with no line, or has the first line in it
      refine absurd ⟨?_, ?_⟩ exceeds
      · rcases here with ⟨plain, rfl⟩ | ⟨line, rest, plain, eq, rfl⟩
        · rw [← List.length_append]
          exact h.begins (List.not_mem_append h.begun (not_newline plain)) ⟨unread, h.bytes⟩
        · have bytes := h.bytes
          rw [eq, List.append_assoc, List.append_assoc, List.cons_append,
            ← List.append_assoc] at bytes
          have text : newline ∉ Input.frame i ++ line :=
            List.not_mem_append h.begun (not_newline plain)
          obtain ⟨lines', rfl, -⟩ := first_line text (fun l hl => (h.lines l hl).1) bytes
          have := (h.lines _ List.mem_cons_self).2
          simp only [List.length_append, List.length_singleton] at this
          omega
      · have total := h.total
        rcases here with ⟨-, rfl⟩ | ⟨line, rest, -, eq, rfl⟩
        · omega
        · rw [eq] at total
          simp only [List.length_append, List.length_cons] at total
          omega
  none {i i' unread lines} := by
    rintro ⟨within, h⟩ scan
    have scanned := Input.scanned within
    rw [show i.scan = (i', none) from scan] at scanned
    cases scanned with
    | more plain takes =>
      have text : newline ∉ Input.frame i ++ Input.buffer i :=
        List.not_mem_append h.begun (not_newline plain)
      refine ⟨⟨⟨by simpa using takes.1, takes.2⟩, text, ?_, h.lines, ?_⟩, ?_⟩
      · simpa only [List.append_nil] using h.bytes
      · simpa only [List.length_nil, Nat.add_zero] using h.total
      · rintro rfl
        have bytes := h.bytes
        rw [List.append_nil] at bytes
        cases lines with
        | nil => rfl
        | cons l lines =>
          obtain ⟨⟨line, -, rfl⟩, -⟩ := h.lines l List.mem_cons_self
          exact absurd (by rw [bytes]; simp) text

/-! ## Lines that are written -/

/-- The line of an event under a contract and an identifier. -/
def spelled (H : Host A) (contract : RequestContract) (id : String) (event : Event K) :
    List UInt8 :=
  (H.serializer.pieces ((⟨0, contract, id⟩ : Output).envelope event)).flatten ++ [newline]

/-- Events with their lines. -/
def spell (H : Host A) (contract : RequestContract) (id : String) (events : List (Event K)) :
    Said (sig A) :=
  events.map fun event => (event, spelled H contract id event)

theorem spell_append (H : Host A) (contract : RequestContract) (id : String)
    (events after : List (Event K)) :
    spell H contract id (events ++ after) =
      spell H contract id events ++ spell H contract id after :=
  List.map_append

/-- What is said keeps to both limits of the output, which has charged `spent` bytes before. -/
structure Fitting (spent : Nat) (said : Said (sig A)) : Prop where
  frames : ∀ x ∈ said, x.2.length ≤ MAX_FRAME
  total : spent + said.bytes.length ≤ MAX_TOTAL

theorem Fitting.head {spent : Nat} {x : Event K × List UInt8} {said : Said (sig A)}
    (h : Fitting spent (x :: said)) :
    x.2.length ≤ MAX_FRAME ∧ spent + x.2.length ≤ MAX_TOTAL := by
  have total := h.total
  rw [Said.bytes_cons, List.length_append] at total
  exact ⟨h.frames x List.mem_cons_self, by omega⟩

theorem Fitting.tail {spent : Nat} {x : Event K × List UInt8} {said : Said (sig A)}
    (h : Fitting spent (x :: said)) : Fitting (spent + x.2.length) said := by
  have total := h.total
  rw [Said.bytes_cons, List.length_append] at total
  exact ⟨fun y hy => h.frames y (List.mem_cons_of_mem x hy), by omega⟩

theorem Fitting.append {spent : Nat} {said after : Said (sig A)} (h : Fitting spent (said ++ after)) :
    Fitting spent said ∧ Fitting (spent + said.bytes.length) after := by
  obtain ⟨frames, total⟩ := h
  rw [Said.bytes_append, List.length_append] at total
  exact ⟨⟨fun x hx => frames x (List.mem_append_left _ hx), by omega⟩,
    ⟨fun x hx => frames x (List.mem_append_right _ hx), by omega⟩⟩

/-- Pieces that fit are buffered. -/
theorem limited_fits : ∀ {pieces : List (List UInt8)} {frame : List UInt8},
    frame.length + pieces.flatten.length ≤ MAX_FRAME - 1 →
      limited pieces frame = some (frame ++ pieces.flatten)
  | [], frame, _ => by rw [limited, List.flatten_nil, List.append_nil]
  | bytes :: rest, frame, fits => by
    rw [List.flatten_cons, List.length_append] at fits
    have more : (frame ++ bytes).length + rest.flatten.length ≤ MAX_FRAME - 1 := by
      rw [List.length_append]
      omega
    rw [limited, if_neg (by omega), limited_fits more, List.flatten_cons, List.append_assoc]

/-- **A line that fits is sent**, and its length is charged. -/
theorem Output.begin_fits (H : Host A) {spent : Nat} {contract : RequestContract} {id : String}
    {event : Event K} (frame : (spelled H contract id event).length ≤ MAX_FRAME)
    (total : spent + (spelled H contract id event).length ≤ MAX_TOTAL) :
    (port H).begin (⟨spent, contract, id⟩ : Output) event = .ok (spelled H contract id event,
      (⟨spent + (spelled H contract id event).length, contract, id⟩ : Output)) := by
  let out : Output := ⟨spent, contract, id⟩
  have text : spelled H contract id event =
      (H.serializer.pieces (out.envelope event)).flatten ++ [newline] := rfl
  have small : ([] : List UInt8).length +
      (H.serializer.pieces (out.envelope event)).flatten.length ≤ MAX_FRAME - 1 := by
    rw [text, List.length_append, List.length_singleton] at frame
    simp only [List.length_nil]
    omega
  show out.begin H.serializer event = _
  rw [Output.begin, limited_fits small]
  simp only [List.nil_append, ← text]
  exact if_neg (by show ¬MAX_TOTAL - spent < _; omega)

/-- A send inside a job. -/
theorem Job.script_fits (H : Host A) {spent : Nat} {contract : RequestContract} {id : String}
    {event : Event K} {said : Said (sig A)} (k : Except Failure Unit → Job (sig A))
    (fits : Fitting spent ((event, spelled H contract id event) :: said)) :
    (Job.send event k : Job (sig A)).script (port H) (⟨spent, contract, id⟩ : Output) =
      ((event, spelled H contract id event) ::
        ((k (.ok ())).script (port H)
          (⟨spent + (spelled H contract id event).length, contract, id⟩ : Output)).1,
        ((k (.ok ())).script (port H)
          (⟨spent + (spelled H contract id event).length, contract, id⟩ : Output)).2) := by
  rw [Job.script, Output.begin_fits H fits.head.1 fits.head.2]

/-- Records that fit are sent one after the other. -/
theorem records_script (H : Host A) (contract : RequestContract) (id : String)
    (k : Except Failure Unit → Job (sig A)) :
    ∀ (values : List Wire.Record) {spent : Nat} {after : List (Event K)},
      Fitting spent (spell H contract id (values.map .record ++ after)) →
      ∃ total, Fitting total (spell H contract id after) ∧
        (records (fun x => x) values k).script (port H) (⟨spent, contract, id⟩ : Output) =
          (spell H contract id (values.map .record) ++
            ((k (.ok ())).script (port H) (⟨total, contract, id⟩ : Output)).1,
            ((k (.ok ())).script (port H) (⟨total, contract, id⟩ : Output)).2)
  | [], spent, _, fits => ⟨spent, fits, rfl⟩
  | data :: values, spent, after, fits => by
    obtain ⟨total, left, rest⟩ := records_script H contract id k values fits.tail
    refine ⟨total, left, ?_⟩
    show (Job.send (Event.record data) _ : Job (sig A)).script (port H) _ = _
    rw [Job.script_fits H _ fits]
    exact congrArg (fun script : Said (sig A) × Except Failure Unit × Output =>
      (((Event.record data, spelled H contract id (.record data)) :: script.1 : Said (sig A)),
        script.2)) rest

/-! ## The answer -/

/-- The events of a snapshot: its entries in order, and the complete event behind them. -/
def published (A : Adapter K) (snapshot : Snapshot) : List (Event K) :=
  (snapshot.entries.map fun entry => .record entry.project) ++
    [.complete snapshot.entries.length snapshot.complete (A.limitations snapshot.limitations)]

/-- What a provider answers: the events of a health report or of a sorted snapshot that passed
the checks of the runtime, or the failure. -/
def provided (A : Adapter K) (provider : Provider) (check : Bool) (instanceId : String) :
    Except Failure (List (Event K)) :=
  if check then
    (providerError A provider.check).bind fun health =>
      .ok [.health (A.limitations health.limitations)]
  else
    (providerError A provider.discover).bind fun snapshot =>
      if snapshot.provider = instanceId ∧ K.core.validate snapshot = true ∧
          snapshot.entries.length ≤ 100000 then
        .ok (published A (K.core.sort snapshot))
      else .error .internal

/-- The answer to an operation: what the provider that the factory builds answers. -/
def answer (H : Host A) (check : Bool) (instanceId : String) (configuration : A.Configuration)
    (credentials : A.Credentials) (network : Option NetworkContext) :
    Except Failure (List (Event K)) :=
  (providerError A (H.factory instanceId configuration credentials network)).bind fun provider =>
    provided A provider check instanceId

/-- What the host sees of an answer behind the handshake, and what `serve` returns. -/
def answered : Except Failure (List (Event K)) → List (Event K) × Except ProtocolFailure Unit
  | .ok events => (events, .ok ())
  | .error f => ([.error f.code], .error .mk)

/-- A provider fails with a code of its own. -/
theorem providerError_bind {α β : Type} {r : Except ProviderError α} {f : α → Except Failure β}
    (h : ∀ a, f a ≠ .error .cancelled) : (providerError A r).bind f ≠ .error .cancelled := by
  cases r with
  | ok a => exact h a
  | error e => exact fun eq => by cases eq

/-- No provider cancels its operation. -/
theorem answer_ne_cancelled (H : Host A) (check : Bool) (instanceId : String)
    (configuration : A.Configuration) (credentials : A.Credentials)
    (network : Option NetworkContext) :
    answer H check instanceId configuration credentials network ≠ .error .cancelled := by
  refine providerError_bind fun provider => ?_
  cases check with
  | true => exact providerError_bind fun health => nofun
  | false =>
    refine providerError_bind fun snapshot => ?_
    split <;> exact nofun

section Answer

variable (H : Host A) (contract : RequestContract) (id : String) (spent : Nat)

/-- The script of a job answers: it says the events of the answer, or it fails and says nothing. -/
structure Answers (job : Job (sig A)) (r : Except Failure (List (Event K))) : Prop where
  ok : ∀ events, r = .ok events → Fitting spent (spell H contract id events) →
    ∃ total, job.script (port H) (⟨spent, contract, id⟩ : Output) =
      (spell H contract id events, .ok (), (⟨total, contract, id⟩ : Output))
  error : ∀ f, r = .error f → job.script (port H) (⟨spent, contract, id⟩ : Output) =
    ([], .error f, (⟨spent, contract, id⟩ : Output))

variable {H contract id spent}

theorem Answers.fail (f : Failure) :
    Answers H contract id spent ((JobM.fail f : JobM (sig A) Unit) (Job.done (σ := sig A)))
      (.error f) := by
  refine ⟨fun _ h => (by cases h), fun f' h => ?_⟩
  cases h
  rfl

theorem Answers.last (event : Event K) :
    Answers H contract id spent ((JobM.send event : JobM (sig A) Unit) (Job.done (σ := sig A)))
      (.ok [event]) := by
  refine ⟨fun events h fits => ?_, fun _ h => (by cases h)⟩
  cases h
  exact ⟨_, Job.script_fits H (Job.done (σ := sig A)) fits⟩

/-- A call that fails is the answer, one that returns leads to it. -/
theorem Answers.call {α : Type} {c : Call A} {r : Except Failure α} {f : α → JobM (sig A) Unit}
    {answer : α → Except Failure (List (Event K))}
    (h : ∀ a, Answers H contract id spent (f a (Job.done (σ := sig A))) (answer a)) :
    Answers H contract id spent ((JobM.call c r >>= f) (Job.done (σ := sig A)))
      (r.bind answer) := by
  cases r with
  | ok a => exact ⟨(h a).ok, (h a).error⟩
  | error e =>
    have fails : Answers H contract id spent _ (.error e) := .fail e
    exact ⟨fails.ok, fails.error⟩

/-- The records and the complete event. -/
theorem Answers.published (snapshot : Snapshot) :
    Answers H contract id spent ((do
      records Records.account snapshot.accounts
      records Records.identity snapshot.identities
      records Records.resource snapshot.resources
      records Records.group snapshot.groups
      records Records.membership snapshot.memberships
      records Records.grant snapshot.grants
      JobM.send (.complete snapshot.entries.length snapshot.complete
        (A.limitations snapshot.limitations)) : JobM (sig A) Unit) (Job.done (σ := sig A)))
      (.ok (published A snapshot)) := by
  refine ⟨fun events h fits => ?_, fun _ h => (by cases h)⟩
  cases h
  have entries : (snapshot.entries.map fun entry => (Event.record entry.project : Event K)) =
      (snapshot.entries.map Entry.project).map .record := by
    rw [List.map_map]
    rfl
  rw [Native.published, entries] at fits ⊢
  rw [records_entries]
  obtain ⟨total, left, script⟩ := records_script H contract id
    (JobM.follow (fun _ => JobM.send (Event.complete snapshot.entries.length snapshot.complete
      (A.limitations snapshot.limitations) : Event K)) (Job.done (σ := sig A))) _ fits
  obtain ⟨total', last⟩ := (Answers.last (.complete snapshot.entries.length snapshot.complete
    (A.limitations snapshot.limitations))).ok _ rfl left
  refine ⟨total', ?_⟩
  apply script.trans
  rw [spell_append]
  exact congrArg (fun script : Said (sig A) × Except Failure Unit × Output =>
    ((spell H contract id ((snapshot.entries.map Entry.project).map .record) ++ script.1 :
      Said (sig A)), script.2)) last

/-- **The script of an operation is its answer.** -/
theorem operation_answers (provider : Provider) (check : Bool) (instanceId : String) :
    Answers H contract id spent (operation A provider check instanceId (Job.done (σ := sig A)))
      (provided A provider check instanceId) := by
  unfold operation provided
  cases check with
  | true =>
    rw [if_pos rfl, if_pos rfl]
    exact .call fun health => .last _
  | false =>
    rw [if_neg Bool.false_ne_true, if_neg Bool.false_ne_true]
    refine .call fun snapshot => ?_
    have count : snapshot.entries.length = Snapshot.count (K.core.sort snapshot) := by
      rw [Snapshot.count_sort, Snapshot.count_entries]
    by_cases same : snapshot.provider = instanceId
    case neg =>
      rw [if_pos same, if_neg fun passed => same passed.1]
      exact .fail _
    by_cases valid : K.core.validate snapshot = false
    case pos =>
      rw [if_neg (not_not.mpr same), if_pos valid,
        if_neg fun passed => Bool.noConfusion (valid.symm.trans passed.2.1)]
      exact .fail _
    by_cases many : 100000 < Snapshot.count (K.core.sort snapshot)
    case pos =>
      rw [if_neg (not_not.mpr same), if_neg valid, if_pos many, if_neg fun passed => by omega]
      exact .fail _
    rw [if_neg (not_not.mpr same), if_neg valid, if_neg many,
      if_pos ⟨same, Bool.not_eq_false _ ▸ valid, by omega⟩]
    rw [Snapshot.count_entries]
    exact .published _

theorem operate_answers (check : Bool) (instanceId : String) (configuration : A.Configuration)
    (credentials : A.Credentials) (network : Option NetworkContext) :
    Answers H contract id spent
      (operate H check instanceId configuration credentials network (Job.done (σ := sig A)))
      (answer H check instanceId configuration credentials network) :=
  .call fun provider => operation_answers provider check instanceId

end Answer

/-! ## The session -/

/-- The handshake and the request of an operation that the session accepts: the operation is the
one announced, and a network context comes exactly when it was negotiated, and can be used. -/
structure Asks (H : Host A) (networkEnabled : Bool) (first second : List UInt8) (check : Bool)
    (instanceId : String) (configuration : A.Configuration) (credentials : A.Credentials)
    (network : Option NetworkContext) : Prop where
  announces : parse A H.fromSlice first = some ⟨.negotiatedV1,
    .handshake instanceId (some (if check then .check else .discover)) network.isSome⟩
  requests : parse A H.fromSlice second = some ⟨.negotiatedV1,
    .operation check configuration credentials network⟩
  supported : network.isSome = true → networkEnabled = true ∧ A.supportsNetwork = true
  usable : ∀ context, network = some context → networkValidate K context = true

/-- The method of an operation, which is the identifier of its events. -/
def method (check : Bool) : String := if check then "check" else "discover"

/-- What an undisturbed session says: the greeting, and the answer. -/
def conversation (H : Host A) (check : Bool) (instanceId : String)
    (configuration : A.Configuration) (credentials : A.Credentials)
    (network : Option NetworkContext) : Said (sig A) :=
  spell H .negotiatedV1 "handshake" [greeting A .negotiatedV1 network.isSome] ++
    spell H .negotiatedV1 (method check)
      (answered (answer H check instanceId configuration credentials network)).1

section Session

variable {H : Host A} {networkEnabled : Bool} {first second : List UInt8} {check : Bool}
  {instanceId : String} {configuration : A.Configuration} {credentials : A.Credentials}
  {network : Option NetworkContext}

theorem TaskM.script_next {α : Type} (f : Request A → TaskM (sig A) α)
    (k : Except Failure α → Task (sig A)) {frame : List UInt8} {request : Request A}
    (h : parse A H.fromSlice frame = some request) (frames : List (List UInt8)) (out : Output) :
    ((next H >>= f) k).script (port H) (frame :: frames) out =
      (f request k).script (port H) frames out := by
  unfold next
  simp only [bind, TaskM.frame, Task.script]
  rw [TaskM.follow, h]
  rfl

theorem TaskM.script_set {α : Type} (g : Output → Output) (f : Unit → TaskM (sig A) α)
    (k : Except Failure α → Task (sig A)) (frames : List (List UInt8)) (out : Output) :
    (((TaskM.set g : TaskM (sig A) Unit) >>= f) k).script (port H) frames out =
      (f () k).script (port H) frames (g out) := rfl

theorem TaskM.script_send {α : Type} {event : Event K} {spent : Nat} {contract : RequestContract}
    {id : String} (f : Unit → TaskM (sig A) α) (k : Except Failure α → Task (sig A))
    (frames : List (List UInt8)) {said : Said (sig A)} {r : Except ProtocolFailure Unit}
    (fits : Fitting spent (spell H contract id [event]))
    (rest : (f () k).script (port H) frames
      (⟨spent + (spelled H contract id event).length, contract, id⟩ : Output) = some (said, r)) :
    (((TaskM.send event : TaskM (sig A) Unit) >>= f) k).script (port H) frames
      (⟨spent, contract, id⟩ : Output) = some (spell H contract id [event] ++ said, r) := by
  show Task.script (port H) (.send event (TaskM.follow f k)) frames _ = _
  rw [Task.script, Output.begin_fits H fits.head.1 fits.head.2]
  exact congrArg (Option.map fun said : Said (sig A) × Except ProtocolFailure Unit =>
    (((event, spelled H contract id event) :: said.1 : Said (sig A)), said.2)) rest

/-- The race of an operation has the answer for a script. -/
theorem race_script (k : Except Failure Unit → Task (sig A)) {spent : Nat} {id : String}
    {answer : Except Failure (List (Event K))} {job : JobM (sig A) Unit}
    (h : Answers H .negotiatedV1 id spent (job (Job.done (σ := sig A))) answer)
    (ends : k (.ok ()) = .done (.ok ()))
    (fails : ∀ f, answer = .error f → k (.error f) = .send (.error f.code) fun _ => .done (.error .mk))
    (fits : Fitting spent (spell H .negotiatedV1 id (answered answer).1)) :
    ((select H .negotiatedV1 job) k).script (port H) [] (⟨spent, .negotiatedV1, id⟩ : Output) =
      some (spell H .negotiatedV1 id (answered answer).1, (answered answer).2) := by
  show Task.script (port H) (.select (job (Job.done (σ := sig A)))
    fun w => k (raced H .negotiatedV1 w)) [] _ = _
  rw [Task.script]
  cases answer with
  | ok events =>
    obtain ⟨total, script⟩ := h.ok events rfl fits
    rw [script]
    show ((k (.ok ())).script (port H) [] _).map _ = _
    rw [ends, Task.script, Option.map_some]
    exact congrArg (fun said : Said (sig A) => some (said, (Except.ok () :
      Except ProtocolFailure Unit))) (List.append_nil _)
  | error f =>
    rw [h.error f rfl]
    show ((k (.error f)).script (port H) [] _).map _ = _
    rw [fails f rfl, Task.script, Output.begin_fits H fits.head.1 fits.head.2]
    rfl

/-- **The script of a session.** -/
theorem session_script
    (asks : Asks H networkEnabled first second check instanceId configuration credentials network)
    (fits : Fitting 0 (conversation H check instanceId configuration credentials network)) :
    (serveInternal H networkEnabled).script (port H) [first, second] Output.new =
      some (conversation H check instanceId configuration credentials network,
        (answered (answer H check instanceId configuration credentials network)).2) := by
  have greets : ¬(network.isSome = true ∧ (networkEnabled = false ∨ A.supportsNetwork = false)) := by
    rintro ⟨asked, unsupported⟩
    obtain ⟨enabled, supports⟩ := asks.supported asked
    rcases unsupported with off | off
    · exact Bool.noConfusion (enabled.symm.trans off)
    · exact Bool.noConfusion (supports.symm.trans off)
  have context : ¬(network.isSome ≠ network.isSome ∨
      network.isSome = true ∧ networkEnabled = false) := by
    rintro (differ | ⟨asked, off⟩)
    · exact differ rfl
    · exact greets ⟨asked, .inl off⟩
  have usable : ¬network.any (fun context => !networkValidate K context) = true := by
    cases network with
    | none => exact Bool.false_ne_true
    | some settings =>
      rw [Option.any_some, asks.usable settings rfl]
      exact Bool.false_ne_true
  -- what `serve_internal` makes of the result of the session
  obtain ⟨k, serves, ends, fails⟩ : ∃ k, serveInternal H networkEnabled = session H networkEnabled k ∧
      k (.ok ()) = .done (.ok ()) ∧
      ∀ f, f ≠ .cancelled → k (.error f) = .send (.error f.code) fun _ => .done (.error .mk) :=
    ⟨_, rfl, rfl, fun f hf => by cases f <;> first | rfl | exact absurd rfl hf⟩
  rw [serves, session, TaskM.script_next _ _ asks.announces, setContract, TaskM.script_set]
  dsimp only
  rw [if_neg greets]
  obtain ⟨first, rest⟩ := Fitting.append fits
  rw [spell, List.map_singleton, Said.bytes_cons, Said.bytes_nil, List.append_nil] at rest
  apply TaskM.script_send _ _ _ first
  rw [TaskM.script_next _ _ asks.requests]
  dsimp only
  rw [if_neg (not_not.mpr rfl), if_neg context, setId, TaskM.script_set, if_neg (not_not.mpr rfl),
    if_neg usable]
  refine race_script k (operate_answers check instanceId configuration credentials network) ends
    (fun f hf => fails f ?_) ?_
  · rintro rfl
    exact answer_ne_cancelled H check instanceId configuration credentials network hf
  · exact rest

/-- A request that is parsed is within the frame limit. -/
theorem parse_length {frame : List UInt8} {request : Request A}
    (h : parse A H.fromSlice frame = some request) : frame.length ≤ MAX_FRAME := by
  unfold parse at h
  split at h
  · cases h
  next within => exact Nat.le_of_not_lt within

/-- **An undisturbed session delivers its answer.** A host sends the handshake and the operation,
line by line or in any chunks, and then waits; the provider returns and the writer takes what it is
offered, in whatever portions and order. Then everything written is a prefix of one conversation,
the greeting and the answer to the operation, byte for byte; the session is never stuck before its
end; and at its end the whole conversation has been written, with the result that goes with it. -/
theorem Session.delivers {signals : List Signal} {m : Machine (sig A)} {unread : List UInt8}
    (lines : Line first ∧ Line second)
    (asks : Asks H networkEnabled first second check instanceId configuration credentials network)
    (fits : Fitting 0 (conversation H check instanceId configuration credentials network))
    (patient : ∀ s ∈ signals, s.patient = true)
    (bytes : Signal.reads signals ++ unread = first ++ second)
    (run : (start H networkEnabled).run (port H) signals = some m) :
    sent m.link.trace <+:
        (conversation H check instanceId configuration credentials network).map Prod.fst ∧
      m.link.accepted <+:
        (conversation H check instanceId configuration credentials network).bytes ∧
      (∀ r, m.task = .done r →
        r = (answered (answer H check instanceId configuration credentials network)).2 ∧
        sent m.link.trace =
          (conversation H check instanceId configuration credentials network).map Prod.fst ∧
        m.link.accepted =
          (conversation H check instanceId configuration credentials network).bytes) ∧
      ((∃ r, m.task = .done r) ∨ ∃ s, s.patient = true ∧ s.bytes <+: unread ∧
        (m.step (port H) s).isSome = true) := by
  have one := parse_length asks.announces
  have two := parse_length asks.requests
  have yields : Input.Yields .new (Signal.reads signals ++ unread) [first, second] := by
    refine ⟨List.not_mem_nil, ?_, ?_, ?_⟩
    · rw [bytes]
      simp [Input.new]
    · exact List.forall_mem_cons.mpr ⟨⟨lines.1, one⟩, List.forall_mem_singleton.mpr ⟨lines.2, two⟩⟩
    · rw [bytes, List.length_append]
      simp only [Input.new, List.length_nil, MAX_TOTAL, MAX_FRAME] at one two ⊢
      omega
  exact (Task.run_script (input_feeds H) ⟨⟨Nat.zero_le _, Nat.zero_le _⟩, yields⟩
    (session_script asks fits) patient run).goes

end Session

/-- The discovery of an empty organization, one byte into the complete frame. -/
theorem Session.delivers_discovery :
    ∃ m, (start Sample.host false).run (port Sample.host) (Sample.opening ++ [.accept 1]) = some m ∧
      sent m.link.trace <+: (conversation Sample.host false "main" () () none).map Prod.fst ∧
      m.link.accepted <+: (conversation Sample.host false "main" () () none).bytes ∧
      (∀ r, m.task = .done r →
        r = (answered (answer Sample.host false "main" () () none)).2 ∧
        sent m.link.trace = (conversation Sample.host false "main" () () none).map Prod.fst ∧
        m.link.accepted = (conversation Sample.host false "main" () () none).bytes) ∧
      ((∃ r, m.task = .done r) ∨ ∃ s, s.patient = true ∧ s.bytes <+: [] ∧
        (m.step (port Sample.host) s).isSome = true) := by
  obtain ⟨m, run⟩ := Option.isSome_iff_exists.mp
    (show ((start Sample.host false).run (port Sample.host)
      (Sample.opening ++ [.accept 1])).isSome = true by decide +kernel)
  have line : Line Sample.handshake ∧ Line Sample.discover :=
    ⟨⟨Sample.handshake.dropLast, by decide +kernel, by decide +kernel⟩,
      ⟨Sample.discover.dropLast, by decide +kernel, by decide +kernel⟩⟩
  have asks : Asks Sample.host false Sample.handshake Sample.discover false "main" () () none :=
    ⟨by rfl, by rfl, nofun, nofun⟩
  exact ⟨m, run, Session.delivers line asks ⟨by decide +kernel, by decide +kernel⟩
    (by decide +kernel) (by decide +kernel) run⟩

end Permesh.Native

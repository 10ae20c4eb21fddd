import Permesh.Laws.Native.Input
import Permesh.Laws.Native.Terminal
import Permesh.Lib.Reader

/-!
# Laws.Native.Gate — what has to happen before credentials are delivered

The factory is the only outside call that is given credentials. `Session.gate` says of every run
under every schedule that it is called at most once, and what the first two lines of the input
were when it was.

The trace of a run is related to the task that is left: before the second frame nothing was delivered,
and behind the delivery nothing more is. What the factory does with credentials is not modelled.
-/

namespace Permesh.Native

open Permesh.Lib

variable {K : Crates} {A : Adapter K}

/-! ## What `parse` accepts -/

theorem parse_wire {fromSlice : List UInt8 → Option (WireRequest A)} {frame : List UInt8}
    {request : Request A} (h : parse A fromSlice frame = some request) :
    ∃ value, fromSlice frame = some value ∧ parseWire A value = some request := by
  rw [parse, Option.ite_none_left_eq_some] at h
  exact Option.bind_eq_some_iff.mp h.2

/-- The checks that every accepted frame has passed. -/
structure Accepted (value : WireRequest A) (request : Request A) : Prop where
  contract : requestContract value.protocol value.protocolVersion = some request.contract
  id : value.id = value.method
  features : ∀ features, value.features = some features →
    features = ["network_v1"] ∧ A.supportsNetwork = true ∧ request.contract = .negotiatedV1 ∧
      value.method = "handshake"
  network : ∀ context, value.network = some context →
    A.supportsNetwork = true ∧ K.networkValid context = true ∧ request.contract = .negotiatedV1
  command : requestCommand A request.contract value = some request.command

theorem parseWire_accepted {value : WireRequest A} {request : Request A}
    (h : parseWire A value = some request) : Accepted value request := by
  unfold parseWire at h
  split at h
  case h_1 => cases h
  case h_2 contract hc =>
  simp only [Option.ite_none_left_eq_some, Option.map_eq_some_iff] at h
  obtain ⟨hid, hfeat, hlegacy, hnet, hop, hhand, command, hcmd, rfl⟩ := h
  rw [bne_iff_ne, ne_eq, not_not] at hid
  refine ⟨hc, hid, fun features hf => ?_, fun context hn => ?_, hcmd⟩
  · rw [hf, Option.any_some, Bool.or_eq_true, not_or, bne_iff_ne, not_not, Bool.not_eq_true',
      Bool.not_eq_false] at hfeat
    refine ⟨hfeat.1, hfeat.2, ?_, ?_⟩
    · simpa [hf] using hlegacy
    · simpa [hf] using hhand
  · rw [hn, Option.any_some, Bool.or_eq_true, not_or, Bool.not_eq_true', Bool.not_eq_false,
      Bool.not_eq_true', Bool.not_eq_false] at hnet
    refine ⟨hnet.1, hnet.2, ?_⟩
    simpa [hn] using hlegacy

/-- What each arm on the method asks of a frame. -/
inductive Arm (contract : RequestContract) (value : WireRequest A) : Command A → Prop where
  | handshake (instanceId : String) : value.method = "handshake" →
    value.configuration = none → value.credentials = none → value.instanceId = some instanceId →
    validInstance instanceId = true → (contract = .negotiatedV1 ↔ value.operation ≠ none) →
    Arm contract value (.handshake instanceId value.operation value.features.isSome)
  | describe : value.method = "describe" → contract = .legacySetup → value.instanceId = none →
    value.configuration = none → value.credentials = none → Arm contract value .describe
  | describeAuth : value.method = "describe_auth" → contract = .legacyAuth →
    value.instanceId = none → value.configuration = none → value.credentials = none →
    Arm contract value .describeAuth
  | cancel : value.method = "cancel" → value.instanceId = none → value.configuration = none →
    value.credentials = none → Arm contract value .cancel
  | operation (check : Bool) (configuration : A.Configuration) (credentials : A.Credentials) :
    value.method = (if check then "check" else "discover") → contract = .negotiatedV1 →
    value.instanceId = none → value.configuration = some configuration →
    value.credentials = some credentials → A.validate configuration credentials = true →
    Arm contract value (.operation check configuration credentials value.network)

theorem requestCommand_arm {contract : RequestContract} {value : WireRequest A} {command : Command A}
    (h : requestCommand A contract value = some command) : Arm contract value command := by
  unfold requestCommand at h
  dsimp only at h
  split at h
  case h_1 method =>
    rw [Option.ite_none_left_eq_some] at h
    obtain ⟨bare, h⟩ := h
    split at h
    · cases h
    case h_2 instanceId named =>
      simp only [Option.ite_none_left_eq_some, Bool.not_eq_true', Bool.not_eq_false] at h
      obtain ⟨valid, together, same⟩ := h
      cases same
      obtain ⟨configuration, credentials⟩ : value.configuration = none ∧ value.credentials = none := by
        simpa using bare
      refine .handshake instanceId method configuration credentials named valid ?_
      rw [bne_iff_ne, not_not] at together
      rw [← Option.isSome_iff_ne_none, ← together, beq_iff_eq]
  case h_2 method | h_3 method =>
    simp only [Option.ite_none_right_eq_some, Bool.and_eq_true, beq_iff_eq,
      Option.isNone_iff_eq_none] at h
    obtain ⟨⟨⟨legacy, unnamed⟩, configuration, credentials⟩, same⟩ := h
    cases same
    first
      | exact .describe method legacy unnamed configuration credentials
      | exact .describeAuth method legacy unnamed configuration credentials
  case h_4 method =>
    simp only [Option.ite_none_right_eq_some, Bool.and_eq_true, Option.isNone_iff_eq_none] at h
    obtain ⟨⟨unnamed, configuration, credentials⟩, same⟩ := h
    cases same
    exact .cancel method unnamed configuration credentials
  case h_5 method | h_6 method =>
    rw [Option.ite_none_left_eq_some, Bool.not_eq_true', Bool.not_eq_false, Bool.and_eq_true,
      beq_iff_eq, Option.isNone_iff_eq_none] at h
    obtain ⟨⟨negotiated, unnamed⟩, h⟩ := h
    split at h
    case h_2 => cases h
    case h_1 conf cred hconf hcred =>
      rw [Option.ite_none_left_eq_some, Bool.not_eq_true', Bool.not_eq_false] at h
      obtain ⟨valid, h⟩ := h
      cases h
      exact .operation _ conf cred (by rw [method]; rfl) negotiated unnamed hconf hcred valid
  case h_7 => cases h

/-- An accepted handshake frame names a valid instance. -/
theorem requestCommand_handshake {contract : RequestContract} {value : WireRequest A}
    {instanceId : String} {operation : Option Operation} {requested : Bool}
    (h : requestCommand A contract value = some (.handshake instanceId operation requested)) :
    value.method = "handshake" ∧ value.instanceId = some instanceId ∧
      validInstance instanceId = true ∧ value.operation = operation ∧
      requested = value.features.isSome := by
  cases requestCommand_arm h with
  | handshake _ method _ _ named valid => exact ⟨method, named, valid, rfl, rfl⟩

/-- An accepted check or discover frame carries what the adapter validates. -/
theorem requestCommand_operation {contract : RequestContract} {value : WireRequest A}
    {check : Bool} {configuration : A.Configuration} {credentials : A.Credentials}
    {network : Option NetworkContext}
    (h : requestCommand A contract value = some (.operation check configuration credentials
      network)) :
    contract = .negotiatedV1 ∧ value.method = (if check then "check" else "discover") ∧
      value.configuration = some configuration ∧ value.credentials = some credentials ∧
      A.validate configuration credentials = true ∧ value.network = network := by
  cases requestCommand_arm h with
  | operation _ _ _ method negotiated _ configured credited valid =>
    exact ⟨negotiated, method, configured, credited, valid, rfl⟩

/-! ## The gate -/

/-- What the factory is given. -/
structure Delivery (A : Adapter K) where
  instanceId : String
  configuration : A.Configuration
  credentials : A.Credentials
  network : Option NetworkContext

/-- The deliveries of a trace, in order. -/
def deliveries (t : Trace A) : List (Delivery A) :=
  t.filterMap fun x => match x with
    | .called (.factory instanceId configuration credentials network) =>
      some ⟨instanceId, configuration, credentials, network⟩
    | _ => none

@[simp] theorem deliveries_append (t u : Trace A) :
    deliveries (t ++ u) = deliveries t ++ deliveries u :=
  List.filterMap_append

/-- **What allows a delivery**: the first frame is a negotiated handshake for the instance and one
operation, the second one invokes this operation with what is delivered, and the network context
is there exactly if the handshake asked for it, in a session that may have one. -/
structure Allowed (H : Host A) (networkEnabled : Bool) (first second : List UInt8)
    (d : Delivery A) : Prop where
  instanceId : validInstance d.instanceId = true
  handshake : ∃ value operation, H.fromSlice first = some value ∧
    parse A H.fromSlice first =
      some ⟨.negotiatedV1, .handshake d.instanceId (some operation) d.network.isSome⟩ ∧
    parse A H.fromSlice second =
      some ⟨.negotiatedV1, .operation (decide (operation = .check)) d.configuration d.credentials
        d.network⟩ ∧
    (d.network.isSome = true ↔ value.features = some ["network_v1"])
  validated : A.validate d.configuration d.credentials = true
  network : ∀ context, d.network = some context →
    networkEnabled = true ∧ A.supportsNetwork = true ∧ networkValidate K context = true

/-- Every delivery is allowed by the two frames that were read before it, and there is at most
one. -/
structure Gated (H : Host A) (networkEnabled : Bool) (t : Trace A) : Prop where
  once : (deliveries t).length ≤ 1
  allowed : ∀ {before x after d}, t = before ++ x :: after → deliveries [x] = [d] →
    ∃ first second, received before = [first, second] ∧
      Allowed H networkEnabled first second d

/-- The frames read so far, and nothing delivered. -/
structure Waiting (H : Host A) (networkEnabled : Bool) (frames : List (List UInt8))
    (t : Trace A) : Prop where
  gated : Gated H networkEnabled t
  none : deliveries t = []
  frames : received t = frames

section Trace

variable {H : Host A} {networkEnabled : Bool} {frames : List (List UInt8)} {t : Trace A}

theorem Gated.nil : Gated H networkEnabled [] where
  once := Nat.zero_le 1
  allowed h := by simp at h

/-- A trace stays gated if a new delivery is the first one and allowed. -/
theorem Gated.snoc (h : Gated H networkEnabled t) {x : Item (sig A)}
    (hx : ∀ d, deliveries [x] = [d] → deliveries t = [] ∧
      ∃ first second, received t = [first, second] ∧ Allowed H networkEnabled first second d) :
    Gated H networkEnabled (t ++ [x]) where
  once := by
    rw [deliveries_append, List.length_append]
    rcases hd : deliveries [x] with _ | ⟨d, rest⟩
    · exact h.once
    · have rest : rest = [] := by
        have len : (deliveries [x]).length ≤ 1 := List.length_filterMap_le _ _
        rw [hd, List.length_cons] at len
        exact List.length_eq_zero_iff.mp (by omega)
      subst rest
      rw [(hx d hd).1]
      exact Nat.le_refl 1
  allowed := by
    intro before y after d split hd
    rcases List.eq_nil_or_concat' after with rfl | ⟨after, z, rfl⟩
    · obtain ⟨rfl, hy⟩ := List.append_inj' split rfl
      cases hy
      exact (hx d hd).2
    · rw [← List.cons_append, ← List.append_assoc] at split
      exact h.allowed (List.append_inj' split rfl).1 hd

/-- An item that delivers nothing. -/
theorem Gated.grow (h : Gated H networkEnabled t) {x : Item (sig A)} (hx : deliveries [x] = []) :
    Gated H networkEnabled (t ++ [x]) :=
  h.snoc fun d hd => by rw [hx] at hd; cases hd

/-- An item that is no frame and delivers nothing. -/
theorem Waiting.grow (h : Waiting H networkEnabled frames t) {x : Item (sig A)}
    (hx : deliveries [x] = []) (hr : received [x] = []) :
    Waiting H networkEnabled frames (t ++ [x]) where
  gated := h.gated.grow hx
  none := by rw [deliveries_append, h.none, hx, List.append_nil]
  frames := by rw [received_append, h.frames, hr, List.append_nil]

theorem Waiting.received (h : Waiting H networkEnabled frames t) (frame : List UInt8) :
    Waiting H networkEnabled (frames ++ [frame]) (t ++ [.received frame]) where
  gated := h.gated.grow rfl
  none := by rw [deliveries_append, h.none]; rfl
  frames := by rw [received_append, h.frames]; rfl

end Trace

/-! ## The session keeps the gate -/

section Session

variable {H : Host A} {networkEnabled : Bool}

/-- A job that keeps the gate from here on, whatever becomes of it. -/
abbrev JobGated (H : Host A) (networkEnabled : Bool) {α : Type} (m : JobM (sig A) α) : Prop :=
  JobM.Meets (Gated H networkEnabled) (fun _ => true) (Gated H networkEnabled)
    (Gated H networkEnabled) m fun _ => Gated H networkEnabled

theorem send_gated (e : Event K) : JobGated H networkEnabled (JobM.send e) := by
  have off : ∀ t, Gated H networkEnabled t → Gated H networkEnabled (t ++ [.offered e]) :=
    fun _ h => h.grow rfl
  have out : ∀ t, Gated H networkEnabled t →
      Gated H networkEnabled (t ++ [.offered e] ++ [.sent e]) := fun t h => (off t h).grow rfl
  exact .send (fun _ _ h => h) (fun t h => ⟨off t h, off t h, fun _ => off t h⟩)
    (fun t h => ⟨out t h, out t h⟩) fun _ t h => ⟨out t h, fun _ => out t h⟩

theorem call_gated {α : Type} {c : Call A} {answer : Except Failure α}
    (hc : deliveries [.called c] = []) : JobGated H networkEnabled (JobM.call c answer) :=
  .call fun _ h => ⟨h.grow hc, h.grow hc, h.grow hc⟩

theorem records_gated {α : Type} (convert : α → Wire.Record) :
    ∀ values : List α, JobGated H networkEnabled (records convert values)
  | [] => .pure fun _ h => h
  | data :: values =>
    (send_gated (.record (convert data))).bind (fun _ => records_gated convert values)
      fun _ _ h => h

/-- The operation calls the provider and never the factory. -/
theorem operation_gated (provider : Provider) (check : Bool) (instanceId : String) :
    JobGated H networkEnabled (operation A provider check instanceId) := by
  have fail (f : Failure) : JobGated H networkEnabled (JobM.fail f : JobM (sig A) Unit) :=
    .fail fun _ h => h
  unfold operation
  cases check with
  | true => exact (call_gated rfl).bind (fun health => send_gated _) fun _ _ h => h
  | false =>
    refine (call_gated rfl).bind (fun snapshot => ?_) fun _ _ h => h
    refine .ite (fun _ => fail _) fun _ => .ite (fun _ => fail _) fun _ =>
      .ite (fun _ => fail _) fun _ => ?_
    have step {α : Type} (convert : α → Wire.Record) (values : List α) {n : JobM (sig A) Unit}
        (hn : JobGated H networkEnabled n) :
        JobGated H networkEnabled (records convert values >>= fun _ => n) :=
      (records_gated convert values).bind (fun _ => hn) fun _ _ h => h
    exact step _ _ (step _ _ (step _ _ (step _ _ (step _ _ (step _ _ (send_gated _))))))

/-- **The factory is called** once the two frames allow it. -/
theorem operate_gated {first second : List UInt8} {check : Bool} {d : Delivery A}
    (allowed : Allowed H networkEnabled first second d) :
    JobM.Meets (Gated H networkEnabled) (fun _ => true) (Gated H networkEnabled)
      (Waiting H networkEnabled [first, second])
      (operate H check d.instanceId d.configuration d.credentials d.network)
      fun _ => Gated H networkEnabled := by
  have factory : JobM.Meets (Gated H networkEnabled) (fun _ => true) (Gated H networkEnabled)
      (Waiting H networkEnabled [first, second])
      (JobM.call (.factory d.instanceId d.configuration d.credentials d.network)
        (providerError A (H.factory d.instanceId d.configuration d.credentials d.network)))
      fun _ => Gated H networkEnabled := by
    refine .call fun t h => ?_
    have := h.gated.snoc (x := .called (.factory d.instanceId d.configuration d.credentials
      d.network)) fun d' hd => by
        cases hd
        exact ⟨h.none, first, second, h.frames, allowed⟩
    exact ⟨this, this, this⟩
  exact factory.bind (fun provider => operation_gated provider check d.instanceId) fun _ _ h => h

/-- What a step outside the race owes: success leaves `mid`, failure keeps the gate. -/
def Passes {α : Type} (H : Host A) (networkEnabled : Bool) (mid : α → Trace A → Prop) :
    Except Failure α → Trace A → Prop
  | .ok a, t => mid a t
  | .error _, t => Gated H networkEnabled t

/-- One more request, parsed from one more frame. -/
theorem next_gated (frames : List (List UInt8)) :
    TaskM.Meets (Gated H networkEnabled) (fun _ => true) (Waiting H networkEnabled frames) (next H)
      (Passes H networkEnabled fun request t => ∃ frame,
        parse A H.fromSlice frame = some request ∧
          Waiting H networkEnabled (frames ++ [frame]) t) := by
  have read : TaskM.Meets (Gated H networkEnabled) (fun _ => true)
      (Waiting H networkEnabled frames) TaskM.frame
      (Passes H networkEnabled fun frame t => Waiting H networkEnabled (frames ++ [frame]) t) :=
    .frame (fun _ _ h => h.gated) fun f t h => ⟨h.gated.grow rfl, h.received f⟩
  refine read.bind (fun frame => ?_) fun _ _ h => h
  split
  · exact .fail fun _ h => h.gated
  case h_2 request parsed => exact .pure fun _ h => ⟨frame, parsed, h⟩

/-- A send outside the race keeps what is waiting. -/
theorem sending_gated (e : Event K) (frames : List (List UInt8)) :
    TaskM.Meets (Gated H networkEnabled) (fun _ => true) (Waiting H networkEnabled frames)
      (TaskM.send e) (Passes H networkEnabled fun _ => Waiting H networkEnabled frames) := by
  have off : ∀ t, Waiting H networkEnabled frames t →
      Waiting H networkEnabled frames (t ++ [.offered e]) := fun _ h =>
    h.grow rfl rfl
  have out : ∀ t, Waiting H networkEnabled frames t →
      Waiting H networkEnabled frames (t ++ [.offered e] ++ [.sent e]) := fun t h =>
    (off t h).grow rfl rfl
  exact .send (fun _ _ h => h.gated) (fun t h => ⟨(off t h).gated, fun _ => (off t h).gated⟩)
    (fun t h => ⟨(out t h).gated, out t h⟩) fun _ t h _ => (out t h).gated

/-- A send that ends the session. -/
theorem last_gated (e : Event K) (frames : List (List UInt8)) :
    TaskM.Meets (Gated H networkEnabled) (fun _ => true) (Waiting H networkEnabled frames)
      (TaskM.send e) fun _ => Gated H networkEnabled :=
  (sending_gated e frames).imp (fun _ h => h) fun r t h => by
    cases r with
    | ok => exact h.gated
    | error => exact h

/-- The two parsed frames and the checks of the session are what allows the delivery. -/
theorem allowed_of_parsed {first second : List UInt8} {request invoked : Request A}
    {instanceId : String} {operation : Option Operation} {requested check : Bool}
    {configuration : A.Configuration} {credentials : A.Credentials}
    {network : Option NetworkContext}
    (parsed : parse A H.fromSlice first = some request)
    (parsed' : parse A H.fromSlice second = some invoked)
    (greets : request.command = .handshake instanceId operation requested)
    (invokes : invoked.command = .operation check configuration credentials network)
    (same : invoked.contract = request.contract)
    (enabled : ¬(requested = true ∧ (networkEnabled = false ∨ A.supportsNetwork = false)))
    (context : network.isSome = requested)
    (chosen : operation = some (if check then .check else .discover))
    (valid : ¬network.any (fun context => !networkValidate K context) = true) :
    Allowed H networkEnabled first second ⟨instanceId, configuration, credentials, network⟩ := by
  obtain ⟨value, decoded, accepts⟩ := parse_wire parsed
  obtain ⟨value', decoded', accepts'⟩ := parse_wire parsed'
  have accepted := parseWire_accepted accepts
  have accepted' := parseWire_accepted accepts'
  obtain ⟨method, names, validId, -, asks⟩ :=
    requestCommand_handshake (greets ▸ accepted.command)
  obtain ⟨negotiated, -, -, -, validated, -⟩ :=
    requestCommand_operation (invokes ▸ accepted'.command)
  obtain ⟨contract, command⟩ := request
  obtain ⟨contract', command'⟩ := invoked
  dsimp only at greets invokes same negotiated
  subst greets invokes same negotiated chosen context
  refine ⟨validId, ⟨value, _, decoded, parsed, ?_, ?_⟩, validated, fun context hn => ?_⟩
  · rw [parsed']
    cases check <;> rfl
  · constructor
    · intro some_network
      obtain ⟨features, hf⟩ := Option.isSome_iff_exists.mp (asks ▸ some_network)
      rw [hf, (accepted.features features hf).1]
    · intro hf
      rw [asks, hf]
      rfl
  · have hn : network = some context := hn
    rw [hn, Option.any_some, Bool.not_eq_true', Bool.not_eq_false] at valid
    simp only [hn, Option.isSome_some, true_and, not_or, Bool.not_eq_false] at enabled
    exact ⟨enabled.1, enabled.2, valid⟩

/-- **The session keeps the gate.** -/
theorem session_gated :
    TaskM.Meets (Gated H networkEnabled) (fun _ => true) (Waiting H networkEnabled [])
      (session H networkEnabled) fun _ => Gated H networkEnabled := by
  have fail {pre : Trace A → Prop} (gated : ∀ t, pre t → Gated H networkEnabled t) (f : Failure) :
      TaskM.Meets (Gated H networkEnabled) (fun _ => true) pre (TaskM.fail f : TaskM (sig A) Unit)
        fun _ => Gated H networkEnabled := .fail gated
  have set {pre : Trace A → Prop} (f : Output → Output) :
      TaskM.Meets (Gated H networkEnabled) (fun _ => true) pre (TaskM.set f)
        (Passes H networkEnabled fun _ => pre) := .set fun _ h => h
  refine (next_gated []).bind (fun request => ?_) fun _ _ h => h
  refine .assume fun first parsed => ?_
  refine (set _).bind (fun _ => ?_) fun _ _ h => h
  split
  case h_2 => exact fail (fun _ h => h.gated) _
  case h_1 instanceId operation requested greets =>
  refine .ite (fun _ => fail (fun _ h => h.gated) _) fun enabled => ?_
  refine (sending_gated _ _).bind (fun _ => ?_) fun _ _ h => h
  refine (next_gated _).bind (fun invoked => .assume fun second parsed' => ?_) fun _ _ h => h
  refine .ite (fun _ => fail (fun _ h => h.gated) _) fun same => ?_
  split
  · -- describe
    refine (set _).bind (fun _ => .ite (fun _ => fail (fun _ h => h.gated) _) fun _ => ?_)
      fun _ _ h => h
    exact last_gated _ _
  · -- describe_auth
    refine (set _).bind (fun _ => ?_) fun _ _ h => h
    split
    · exact fail (fun _ h => h.gated) _
    · exact .ite (fun _ => fail (fun _ h => h.gated) _) fun _ => last_gated _ _
  · -- cancel
    exact fail (fun _ h => h.gated) _
  · -- check and discover
    case h_4 check configuration credentials network invokes =>
    refine .ite (fun _ => fail (fun _ h => h.gated) _) fun context => ?_
    refine (set _).bind (fun _ => ?_) fun _ _ h => h
    refine .ite (fun _ => fail (fun _ h => h.gated) _) fun chosen => ?_
    refine .ite (fun _ => fail (fun _ h => h.gated) _) fun valid => ?_
    have allowed : Allowed H networkEnabled first second
        ⟨instanceId, configuration, credentials, network⟩ :=
      allowed_of_parsed parsed parsed' greets invokes (not_not.mp same) enabled
        (not_not.mp (not_or.mp context).1) (not_not.mp chosen) valid
    exact .select (Gated H networkEnabled)
      (fun t h => ⟨fun _ => h, fun f => ⟨h.grow rfl, h.grow rfl⟩, h⟩) (fun _ h => h.gated)
      (operate_gated allowed)
  · exact fail (fun _ h => h.gated) _

/-- The frames after the session deliver nothing. -/
theorem serve_gated (H : Host A) (networkEnabled : Bool) :
    (serveInternal H networkEnabled).Keeps (Gated H networkEnabled) (fun _ => true)
      (fun _ _ => True) [] := by
  apply session_gated _ _ [] ⟨.nil, rfl, rfl⟩
  intro r t h
  have off (e : Event K) : Gated H networkEnabled (t ++ [.offered e]) := h.grow rfl
  have out (e : Event K) : Gated H networkEnabled (t ++ [.offered e] ++ [.sent e]) :=
    (off e).grow rfl
  cases r with
  | ok => trivial
  | error f =>
    cases f <;>
      exact ⟨fun _ => trivial, ⟨off _, fun _ => trivial⟩, out _, fun _ _ => trivial, trivial⟩

end Session

/-! ## Frames of the input -/

/-- How the input of a session is read: a frame is a line with its newline. -/
def reader (H : Host A) : Reader (port H) where
  content := fun (i : Input) => i.frame ++ i.buffer
  text := fun (frame : List UInt8) => frame
  sound := fun (i : Input) => newline ∉ i.frame
  whole := fun frame => ∃ line, newline ∉ line ∧ frame = line ++ [newline]
  scan_none := by
    intro (i : Input) (i' : Input) sound (hscan : i.scan = (i', none))
    unfold Input.scan at hscan
    split at hscan
    · cases hscan
      exact ⟨sound, rfl⟩
    · split at hscan
      · cases hscan
      dsimp only at hscan
      split at hscan
      · cases hscan
      case isFalse hlast =>
        cases hscan
        rcases i.take_count with ⟨hn, all⟩ | ⟨line, -, eq⟩
        · rw [all, List.take_length, List.drop_length, List.append_nil]
          exact ⟨by simp [sound, hn], rfl⟩
        · rw [eq, ← List.append_assoc, List.getLast?_concat] at hlast
          exact absurd rfl hlast
  scan_ok := by
    intro (i : Input) (i' : Input) (frame : List UInt8) sound
      (hscan : i.scan = (i', some (.ok frame)))
    unfold Input.scan at hscan
    split at hscan
    · cases hscan
    · split at hscan
      · cases hscan
      dsimp only at hscan
      split at hscan
      case isFalse => cases hscan
      case isTrue hlast =>
        cases hscan
        refine ⟨List.not_mem_nil, ?_, ?_⟩
        · rw [List.nil_append, List.append_assoc, List.take_append_drop]
        · rcases i.take_count with ⟨hn, all⟩ | ⟨line, plain, eq⟩
          · rw [all, List.take_length] at hlast
            have := List.mem_of_getLast? hlast
            simp [sound, hn] at this
          · exact ⟨i.frame ++ line, by simp [sound, plain], by rw [eq, List.append_assoc]⟩
  scan_error := by
    intro (i : Input) (i' : Input) e sound (hscan : i.scan = (i', some (.error e)))
    unfold Input.scan at hscan
    split at hscan
    · cases hscan
    · split at hscan
      · cases hscan
        exact ⟨sound, rfl⟩
      · dsimp only at hscan
        split at hscan <;> cases hscan
  feed := fun chunk sound => ⟨sound, (List.append_assoc ..).symm⟩

/-- The first frame of a stream of lines: a line and its newline. -/
def IsFrame (frame : List UInt8) : Prop := ∃ line, newline ∉ line ∧ frame = line ++ [newline]

/-- **Credentials are delivered at most once, and only through the gate**: the first two lines of
the input are a negotiated handshake and the operation it announced, and they allow the
delivery. -/
theorem Session.gate {H : Host A} {networkEnabled : Bool} {signals : List Signal}
    {m : Machine (sig A)}
    (run : (start H networkEnabled).run (port H) signals = some m) :
    (deliveries m.link.trace).length ≤ 1 ∧
      ∀ d ∈ deliveries m.link.trace, ∃ first second rest,
        delivered signals = first ++ second ++ rest ∧ IsFrame first ∧ IsFrame second ∧
          Allowed H networkEnabled first second d := by
  have gated : Gated H networkEnabled m.link.trace :=
    (Task.run_keeps Gated.nil (serve_gated H networkEnabled)
      (Machine.along_all (fun m s => m.settles_lossy _ s) signals _) run).trace
  have reads : m.link.Reads (reader H) (delivered signals) :=
    Machine.run_reads (reader H) (show newline ∉ Input.new.frame from List.not_mem_nil) rfl run
  refine ⟨gated.once, fun d hd => ?_⟩
  obtain ⟨x, hx, called⟩ := List.mem_filterMap.mp hd
  obtain ⟨before, after, parts⟩ := List.append_of_mem hx
  have one : deliveries [x] = [d] := by
    simp only [deliveries, List.filterMap_cons, called, List.filterMap_nil]
  obtain ⟨first, second, frames, allowed⟩ := gated.allowed parts one
  have two : received m.link.trace = first :: second :: received (x :: after) := by
    rw [parts, received_append, frames]
    rfl
  have content := reads.content
  rw [two, List.map_cons, List.map_cons, List.flatten_cons, List.flatten_cons,
    List.append_assoc, List.append_assoc, ← List.append_assoc] at content
  exact ⟨first, second, _, content, reads.whole first (by rw [two]; simp),
    reads.whole second (by rw [two]; simp), allowed⟩

/-- An undisturbed discovery delivers once. -/
theorem Session.gate_discovery :
    ∃ m, (start Sample.host false).run (port Sample.host) Sample.opening = some m ∧
      (deliveries m.link.trace).length = 1 ∧
      ∀ d ∈ deliveries m.link.trace, ∃ first second rest,
        delivered Sample.opening = first ++ second ++ rest ∧ IsFrame first ∧ IsFrame second ∧
          Allowed Sample.host false first second d := by
  have once : ((start Sample.host false).run (port Sample.host) Sample.opening).any
      (fun m => (deliveries m.link.trace).length == 1) = true := by decide +kernel
  obtain ⟨m, run, one⟩ := (Option.any_eq_true _ _).mp once
  exact ⟨m, run, beq_iff_eq.mp one, (Session.gate run).2⟩

end Permesh.Native

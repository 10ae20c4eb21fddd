import Permesh.Laws.Native.Framing
import Permesh.Lib.Fold
import Permesh.Lib.Maps

/-!
# Laws.Native.Output — the transcript of an output

Any calls of `Output::send`, with any events, contracts and identifiers. Each frame that is offered to
the writer is one envelope and a newline, within the frame limit, the frames add up to the total, and
the total stays within its limit (`transcript_within`). A call that a limit stops offers nothing and
charges nothing. How the serializer cuts what it writes makes no difference.

A single call either offers one frame or changes nothing, and the calls are put together by induction.
That the bytes of an envelope are those of its document is up to the serializer.
-/

namespace Permesh.Native

open Permesh.Lib

variable {K : Crates} {ser : Serializer K}

/-- The pieces taken so far leave room for the newline. -/
theorem limited_length : ∀ {pieces : List (List UInt8)} {frame out : List UInt8},
    frame.length ≤ MAX_FRAME - 1 → limited pieces frame = some out → out.length ≤ MAX_FRAME - 1
  | [], frame, out, within, h => by
    cases h
    exact within
  | bytes :: rest, frame, out, within, h => by
    rw [limited, Option.ite_none_left_eq_some] at h
    refine limited_length ?_ h.2
    rw [List.length_append]
    omega

/-- An envelope has the version fields of its contract. -/
structure Versioned (contract : RequestContract) (envelope : Envelope K) : Prop where
  negotiated : contract = .negotiatedV1 →
    envelope.protocolVersion = some 1 ∧ envelope.protocol = none
  setup : contract = .legacySetup → envelope.protocolVersion = none ∧ envelope.protocol = some 3
  auth : contract = .legacyAuth → envelope.protocolVersion = none ∧ envelope.protocol = some 4

theorem versioned (out : Output) (event : Event K) :
    Versioned out.contract (out.envelope event) := by
  constructor <;> intro h <;> simp [Output.envelope, h]

/-- One envelope and a newline, which is the only one, within the frame limit. -/
structure Framed (ser : Serializer K) (call : SendCall K) (frame : List UInt8) : Prop where
  line : ∃ envelope : Envelope K, frame = (ser.pieces envelope).flatten ++ [newline] ∧
    newline ∉ (ser.pieces envelope).flatten ∧ envelope.event = call.event ∧
    envelope.id = call.id ∧ Versioned call.contract envelope
  length : frame.length ≤ MAX_FRAME

/-- What a call does: it offers one frame and charges it, or a limit stops it. -/
structure Sent (ser : Serializer K) (out : Output) (call : SendCall K)
    (result : Output × Option (List UInt8) × Except Failure Unit) : Prop where
  frame : ∀ frame, result.2.1 = some frame → Framed ser call frame
  charged : ∀ frame, result.2.1 = some frame → result.1.total = out.total + frame.length
  stopped : result.2.2 = .error .internal ↔ result.2.1 = none
  unchanged : result.2.1 = none → result.1.total = out.total
  within : result.1.total ≤ MAX_TOTAL

/-- A frame that is begun. -/
theorem Output.begin_ok {out out' : Output} {event : Event K} {frame : List UInt8}
    (h : out.begin ser event = .ok (frame, out')) : frame.length ≤ MAX_FRAME ∧
      out'.total = out.total + frame.length ∧ frame.length ≤ MAX_TOTAL - out.total := by
  unfold Output.begin at h
  split at h
  case h_1 => cases h
  case h_2 json hj =>
    dsimp only at h
    split at h
    · cases h
    case isFalse fits =>
      cases h
      have room : json.length ≤ MAX_FRAME - 1 := limited_length (Nat.zero_le _) hj
      refine ⟨?_, rfl, Nat.le_of_not_lt fits⟩
      rw [List.length_append, List.length_singleton]
      have : 0 < MAX_FRAME := by decide
      omega

/-- A frame that a limit stops. -/
theorem Output.begin_error {out : Output} {event : Event K} {e : Failure}
    (h : out.begin ser event = .error e) : e = .internal := by
  unfold Output.begin at h
  split at h
  · cases h
    rfl
  · dsimp only at h
    split at h
    · cases h
      rfl
    · cases h

/-- **What one call does.** -/
theorem Output.sent {out : Output} (within : out.total ≤ MAX_TOTAL) (call : SendCall K) :
    Sent ser out call ((out.set call).send ser call.event call.taken) := by
  unfold Output.send
  cases begun : (out.set call).begin ser call.event with
  | error e =>
    cases Output.begin_error begun
    exact ⟨nofun, nofun, ⟨fun _ => rfl, fun _ => rfl⟩, fun _ => rfl, within⟩
  | ok pair =>
    obtain ⟨frame, out'⟩ := pair
    obtain ⟨length, total, room⟩ := Output.begin_ok begun
    change out'.total = out.total + frame.length at total
    change frame.length ≤ MAX_TOTAL - out.total at room
    refine ⟨fun _ same => ?_, fun _ same => ?_, ⟨fun failed => ?_, nofun⟩, nofun, ?_⟩
    · cases same
      exact ⟨⟨_, Output.begin_line begun, ser.flatten_plain _, rfl, rfl,
        versioned (out.set call) call.event⟩, length⟩
    · cases same
      exact total
    · dsimp only at failed
      split at failed <;> cases failed
    · show out'.total ≤ MAX_TOTAL
      omega

/-! ## Transcripts -/

/-- The frames offered so far, against the total. -/
structure Transcript (ser : Serializer K) (calls : List (SendCall K))
    (state : Output × List (List UInt8)) : Prop where
  total : state.1.total = state.2.flatten.length
  within : state.1.total ≤ MAX_TOTAL
  framed : ∀ frame ∈ state.2, ∃ call ∈ calls, Framed ser call frame

theorem transcript (ser : Serializer K) (calls : List (SendCall K)) :
    Transcript ser calls (Output.new.sends ser calls) := by
  refine foldl_rule (Transcript ser)
    ⟨rfl, Nat.zero_le _, fun _ mem => by cases mem⟩ ?_ calls
  rintro before call ⟨out, offered⟩ h
  have sent : Sent ser out call _ := Output.sent h.within call
  dsimp only
  revert sent
  generalize (out.set call).send ser call.event call.taken = result
  obtain ⟨out', frame, r⟩ := result
  intro sent
  have old (frame : List UInt8) (mem : frame ∈ offered) :
      ∃ c ∈ before ++ [call], Framed ser c frame := by
    obtain ⟨c, there, framed⟩ := h.framed frame mem
    exact ⟨c, List.mem_append_left _ there, framed⟩
  cases frame with
  | none =>
    rw [Option.toList_none, List.append_nil]
    exact ⟨(sent.unchanged rfl).trans h.total, sent.within, old⟩
  | some frame =>
    refine ⟨?_, sent.within, forall_mem_snoc old ⟨call, by simp, sent.frame frame rfl⟩⟩
    · rw [sent.charged frame rfl, h.total]
      simp

/-- **The transcript of an output** behind any calls, and what the next call does. The frames offered
add up to the total, which is within its limit; the buffer of a frame always leaves room for the
newline, after any number of the serializer's writes. -/
theorem transcript_within (ser : Serializer K) (calls : List (SendCall K)) :
    (Output.new.sends ser calls).1.total = (Output.new.sends ser calls).2.flatten.length ∧
    (Output.new.sends ser calls).1.total ≤ MAX_TOTAL ∧
    (∀ frame ∈ (Output.new.sends ser calls).2, ∃ call ∈ calls, Framed ser call frame) ∧
    (∀ call, Sent ser (Output.new.sends ser calls).1 call
      (((Output.new.sends ser calls).1.set call).send ser call.event call.taken)) ∧
    ∀ writes buffer, limited writes [] = some buffer → buffer.length ≤ MAX_FRAME - 1 := by
  have h := transcript ser calls
  exact ⟨h.total, h.within, h.framed, fun call => Output.sent h.within call,
    fun writes buffer ok => limited_length (Nat.zero_le _) ok⟩

end Permesh.Native

import Permesh.Lib.Frames
import Permesh.Laws.Native.Terminal

/-!
# Laws.Native.Framing — the output is a sequence of lines

What the writer holds at any time of a run, as bytes. A line is the document of one envelope and
one newline. A send that is cut after its first byte and before its last one leaves a part of a
line behind, and `serve_internal` answers the cut with one more frame, the cancelled or the error
one. It is the last one: the session never sends such a frame, and `serve_internal` returns behind
it whatever the writer does (`serveInternal_ceases`). So the output is whole lines and at most one
part of a line at the very end as long as no other frame is cut in its middle
(`Session.whole_lines`).

A frame of the session that is cut in its middle is where the runtime goes wrong: nothing records
the part, and `Session.lines_need_spares` is a run where the cancelled frame stands behind it.
-/

namespace Permesh.Native

open Permesh.Lib

variable {K : Crates} {A : Adapter K}

/-- The document of one envelope and a newline. -/
def IsLine (H : Host A) (bytes : List UInt8) : Prop :=
  ∃ envelope : Envelope K, bytes = (H.serializer.pieces envelope).flatten ++ [newline]

/-- **Whole lines**, and then at most one part of a line. -/
def WholeLines (H : Host A) (bytes : List UInt8) : Prop :=
  ∃ (lines : List (List UInt8)) (part : List UInt8), bytes = lines.flatten ++ part ∧
    (∀ line ∈ lines, IsLine H line) ∧ (part = [] ∨ ∃ line, IsLine H line ∧ part <+: line)

/-! ## Documents hold no newline -/

theorem Serializer.flatten_plain (ser : Serializer K) (envelope : Envelope K) :
    newline ∉ (ser.pieces envelope).flatten := by
  intro h
  obtain ⟨bytes, hb, hn⟩ := List.mem_flatten.mp h
  exact ser.plain envelope bytes hb hn

/-- The limited buffer holds the pieces one after the other. -/
theorem limited_eq : ∀ {pieces : List (List UInt8)} {frame out : List UInt8},
    limited pieces frame = some out → out = frame ++ pieces.flatten
  | [], frame, out, h => by
    cases h
    rw [List.flatten_nil, List.append_nil]
  | bytes :: rest, frame, out, h => by
    rw [limited, Option.ite_none_left_eq_some] at h
    rw [limited_eq h.2, List.flatten_cons, List.append_assoc]

/-- A frame that `send` hands to the writer is a line. -/
theorem Output.begin_line {ser : Serializer K} {out out' : Output} {event : Event K}
    {frame : List UInt8} (h : out.begin ser event = .ok (frame, out')) :
    frame = (ser.pieces (out.envelope event)).flatten ++ [newline] := by
  unfold Output.begin at h
  split at h
  case h_1 => cases h
  case h_2 json hj =>
    dsimp only at h
    split at h
    · cases h
    · cases h
      rw [limited_eq hj, List.nil_append]

theorem Whole.isLine {H : Host A} {bytes : List UInt8} (h : (port H).Whole bytes) :
    IsLine H bytes := by
  obtain ⟨out, event, out', hb⟩ := h
  exact ⟨_, Output.begin_line hb⟩

/-! ## Reading the lines back -/

/-- Up to the first newline, the output is the document of one envelope, and the rest is again a
sequence of lines. -/
theorem WholeLines.uncons {H : Host A} {bytes : List UInt8} (h : WholeLines H bytes)
    (some_newline : newline ∈ bytes) :
    ∃ envelope, bytes.takeWhile (· != newline) = (H.serializer.pieces envelope).flatten ∧
      WholeLines H ((bytes.dropWhile (· != newline)).drop 1) := by
  have split {envelope : Envelope K} (rest : List UInt8) :
      ((H.serializer.pieces envelope).flatten ++ newline :: rest).takeWhile (· != newline) =
        (H.serializer.pieces envelope).flatten ∧
      ((H.serializer.pieces envelope).flatten ++ newline :: rest).dropWhile (· != newline) =
        newline :: rest := by
    have all : ∀ b ∈ (H.serializer.pieces envelope).flatten, (b != newline) = true := by
      intro b hb
      rw [bne_iff_ne]
      rintro rfl
      exact H.serializer.flatten_plain envelope hb
    constructor
    · rw [List.takeWhile_append_of_pos all, List.takeWhile_cons_of_neg (by decide),
        List.append_nil]
    · rw [List.dropWhile_append_of_pos all, List.dropWhile_cons_of_neg (by decide)]
  obtain ⟨lines, part, rfl, hl, hp⟩ := h
  cases lines with
  | cons line lines =>
    obtain ⟨envelope, rfl⟩ := hl line List.mem_cons_self
    rw [List.flatten_cons, List.append_assoc, List.append_assoc, List.singleton_append]
    obtain ⟨take, drop⟩ := split (lines.flatten ++ part)
    exact ⟨envelope, take, by
      rw [drop]
      exact ⟨lines, part, rfl, fun line h => hl line (List.mem_cons_of_mem _ h), hp⟩⟩
  | nil =>
    -- a part of a line with its newline is the whole line
    rw [List.flatten_nil, List.nil_append] at some_newline ⊢
    rcases hp with rfl | ⟨_, ⟨envelope, rfl⟩, prefixed⟩
    · cases some_newline
    · rcases List.prefix_concat_iff.mp prefixed with rfl | short
      · obtain ⟨take, drop⟩ := split []
        exact ⟨envelope, take, by
          rw [drop]
          exact ⟨[], [], rfl, fun line h => (by cases h), .inl rfl⟩⟩
      · exact absurd (short.subset some_newline) (H.serializer.flatten_plain envelope)

/-! ## The last frame -/

/-- The events that `serve_internal` itself sends. -/
def Event.closing : Event K → Bool
  | .cancelled | .error _ => true
  | .handshake .. | .setup _ | .auth _ | .health _ | .record _ | .complete .. => false

theorem records_plain {α : Type} (convert : α → Wire.Record) : ∀ values : List α,
    JobM.Plain Event.closing (records (A := A) convert values)
  | [] => .pure ()
  | _ :: values => (JobM.Plain.send rfl).bind fun _ => records_plain convert values

theorem operation_plain (provider : Provider) (check : Bool) (instanceId : String) :
    JobM.Plain Event.closing (operation A provider check instanceId) := by
  unfold operation
  cases check with
  | true => exact (JobM.Plain.call _ _).bind fun health => .send rfl
  | false =>
    refine (JobM.Plain.call _ _).bind fun snapshot => ?_
    refine .ite (.fail _) (.ite (.fail _) (.ite (.fail _) ?_))
    apply (records_plain _ _).bind
    intro _
    apply (records_plain _ _).bind
    intro _
    apply (records_plain _ _).bind
    intro _
    apply (records_plain _ _).bind
    intro _
    apply (records_plain _ _).bind
    intro _
    exact (records_plain _ _).bind fun _ => .send rfl

theorem operate_plain (H : Host A) (check : Bool) (instanceId : String)
    (configuration : A.Configuration) (credentials : A.Credentials)
    (network : Option NetworkContext) : JobM.Plain Event.closing
      (operate H check instanceId configuration credentials network) :=
  (JobM.Plain.call _ _).bind fun provider => operation_plain provider check instanceId

theorem next_plain (H : Host A) : TaskM.Plain Event.closing (next H) := by
  refine TaskM.Plain.frame.bind fun frame => ?_
  split
  · exact .fail _
  · exact .pure _

theorem greeting_open (contract : RequestContract) (networkRequested : Bool) :
    (greeting A contract networkRequested).closing = false := by
  unfold greeting
  dsimp only
  split <;> rfl

/-- **The session sends neither frame.** -/
theorem session_plain (H : Host A) (networkEnabled : Bool) :
    TaskM.Plain Event.closing (session H networkEnabled) := by
  refine (next_plain H).bind fun request => (TaskM.Plain.set _).bind fun _ => ?_
  split
  case h_2 => exact .fail _
  refine .ite (.fail _) ((TaskM.Plain.send (greeting_open _ _)).bind fun _ => ?_)
  refine (next_plain H).bind fun second => .ite (.fail _) ?_
  split
  · -- describe
    exact (TaskM.Plain.set _).bind fun _ => .ite (.fail _) (.send rfl)
  · -- describe_auth
    refine (TaskM.Plain.set _).bind fun _ => ?_
    split
    · exact .fail _
    · exact .ite (.fail _) (.send rfl)
  · -- cancel
    exact .fail _
  · -- check and discover
    refine .ite (.fail _) ((TaskM.Plain.set _).bind fun _ => .ite (.fail _) (.ite (.fail _) ?_))
    exact TaskM.Plain.select (operate_plain H _ _ _ _ _) _
  · exact .fail _

/-- **Behind the cancelled or the error frame, `serve_internal` offers nothing**, whether the
writer takes that frame or not. -/
theorem serveInternal_ceases (H : Host A) (networkEnabled : Bool) :
    (serveInternal H networkEnabled).Keeps (Ceases Event.closing) (fun _ => true)
      (fun _ _ => True) [] := by
  apply (session_plain H networkEnabled).keeps
  intro r t fresh
  cases r with
  | ok => trivial
  | error f =>
    have ends (e : Event K) : Ceases Event.closing (t ++ [.offered e]) ∧
        Ceases Event.closing (t ++ [.offered e] ++ [.sent e]) :=
      ⟨fresh.ceases _, (fresh.ceases _).snoc fun _ eq => by cases eq⟩
    cases f with
    | cancelled =>
      exact ⟨fun _ => trivial, ⟨(ends _).1, fun _ => trivial⟩, (ends _).2, fun _ _ => trivial,
        trivial⟩
    | _ =>
      exact ⟨fun _ => trivial, ⟨(ends _).1, fun _ => trivial⟩, (ends _).2, fun _ _ => trivial,
        trivial⟩

/-! ## Every run -/

/-- **The output of a run is whole lines** and at most one part of a line at its very end, as long
as no step cuts a frame in its middle other than the one that `serve_internal` sends last. -/
theorem Session.whole_lines {H : Host A} {networkEnabled : Bool} {signals : List Signal}
    {m : Machine (sig A)}
    (spared : (start H networkEnabled).along (port H) (Machine.spares Event.closing (port H))
      signals = true)
    (run : (start H networkEnabled).run (port H) signals = some m) :
    WholeLines H m.link.accepted := by
  obtain ⟨frames, part, bytes, hw, hp⟩ :=
    Machine.run_whole (serveInternal_ceases H networkEnabled) spared run
  refine ⟨frames, part, bytes, fun b hb => Whole.isLine (hw b hb), ?_⟩
  rcases hp with rfl | ⟨b, hb, prefixed⟩
  · exact .inl rfl
  · exact .inr ⟨b, Whole.isLine hb, prefixed⟩

/-- **The condition is needed.** The writer has 60 bytes of the complete frame when a cancel frame
arrives, and then takes the cancelled frame. -/
theorem Session.lines_need_spares :
    ¬ ∀ (K : Crates) (A : Adapter K) (H : Host A) (networkEnabled : Bool) (signals : List Signal)
      (m : Machine (sig A)), (start H networkEnabled).run (port H) signals = some m →
      WholeLines H m.link.accepted := by
  intro claim
  have torn : ((start Sample.host false).run (port Sample.host)
      (Sample.opening ++ [.accept 60, .read Sample.cancel, .accept 57, .flushed])).any
      (fun m => m.link.accepted ==
        (Sample.document (.handshake "" [] none none) ++ [newline]) ++
          ((Sample.document (.complete 0 true [])).take 60 ++ Sample.document .cancelled ++
            [newline])) = true := by
    decide +kernel
  obtain ⟨m, run, bytes⟩ := (Option.any_eq_true _ _).mp torn
  have whole := claim _ _ _ _ _ m run
  rw [beq_iff_eq] at bytes
  rw [bytes] at whole
  obtain ⟨-, -, rest⟩ := whole.uncons (by decide +kernel)
  obtain ⟨envelope, line, -⟩ := rest.uncons (by decide +kernel)
  -- the second line has 116 bytes, and no document has
  have long : [Sample.document envelope.event].flatten.length = 116 :=
    (congrArg List.length line).symm.trans (by decide +kernel)
  revert long
  rw [List.flatten_singleton]
  cases envelope.event <;> simp only [Sample.document] <;> decide +kernel

/-- A discovery that is cancelled before its first byte, by a writer that stalls in the middle of
the cancelled frame: the output ends there. -/
theorem Session.stalled_cancel :
    ∃ m, (start Sample.host false).run (port Sample.host)
      (Sample.opening ++ [.read Sample.cancel, .accept 20, .writeTimeout]) = some m ∧
      WholeLines Sample.host m.link.accepted := by
  obtain ⟨m, run⟩ := Option.isSome_iff_exists.mp
    (show ((start Sample.host false).run (port Sample.host)
      (Sample.opening ++ [.read Sample.cancel, .accept 20, .writeTimeout])).isSome = true by
        decide +kernel)
  exact ⟨m, run, Session.whole_lines (by decide +kernel) run⟩

end Permesh.Native

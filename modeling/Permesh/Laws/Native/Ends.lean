import Permesh.Lib.Bounded
import Permesh.Laws.Native.Output
import Permesh.Laws.Native.Terminal

/-!
# Laws.Native.Ends — no session goes on for ever

The limits of the runtime bound the whole session, whatever the host, the provider and the clock
do. Every byte read is charged to the 64 MiB of the input or ends the operation, every byte written
to the 64 MiB of the output, and the session awaits two frames, one race and the two calls of an
operation: six awaits. Nothing is said here about how long a step takes.
-/

namespace Permesh.Native

open Permesh.Lib

variable {K : Crates} {A : Adapter K}

/-- A scan that finds no frame has taken the whole buffer. -/
theorem Input.scan_none {i : Input} (ne : i.buffer ≠ []) (none : i.scan.2 = none) :
    i.scan.1.total = i.total + i.count ∧ i.count ≤ MAX_TOTAL - i.total := by
  rw [Input.scan, if_neg ne] at none ⊢
  split at none
  next => cases none
  next within =>
    rw [if_neg within]
    rw [not_or, Nat.not_lt, Nat.not_lt] at within
    refine ⟨?_, within.2⟩
    dsimp only
    split <;> rfl

theorem Input.count_pos {i : Input} (ne : i.buffer ≠ []) : 0 < i.count := by
  unfold Input.count
  split
  · exact Nat.succ_pos _
  · exact List.length_pos_iff.mpr ne

theorem Input.total_scan (i : Input) : i.total ≤ i.scan.1.total := by
  unfold Input.scan
  split
  · exact Nat.le_refl _
  split
  · exact Nat.le_refl _
  · dsimp only
    split <;> exact Nat.le_add_right _ _

/-- A chunk in which no frame ends uses up some of what the input may still bring. -/
theorem Input.room_scan {i : Input} {chunk : List UInt8} (ne : chunk ≠ [])
    (none : (Input.feed i chunk).scan.2 = none) :
    MAX_TOTAL - (Input.feed i chunk).scan.1.total < MAX_TOTAL - i.total := by
  have full : (Input.feed i chunk).buffer ≠ [] := by
    simp only [Input.feed, ne_eq, List.append_eq_nil_iff, ne, and_false, not_false_eq_true]
  obtain ⟨total, fits⟩ := Input.scan_none full none
  have pos := Input.count_pos full
  have same : (Input.feed i chunk).total = i.total := rfl
  omega

/-- A frame uses up its bytes of what the output may still bring. -/
theorem Output.room_begin {H : Host A} {out out' : Output} {event : Event K} {bytes : List UInt8}
    (h : (port H).begin out event = .ok (bytes, out')) :
    MAX_TOTAL - out'.total + bytes.length ≤ MAX_TOTAL - out.total := by
  obtain ⟨-, total, fits⟩ := Output.begin_ok h
  omega

/-- The limits on both streams. -/
def meter (H : Host A) : Meter (port H) where
  room (i : Input) := MAX_TOTAL - i.total
  budget (out : Output) := MAX_TOTAL - out.total
  scan_le i := Nat.sub_le_sub_left (Input.total_scan i) MAX_TOTAL
  feed_le _ _ := Nat.le_refl _
  scan_lt _ _ := Input.room_scan
  begin_le := Output.room_begin

/-! ## The awaits of a session -/

/-- What the output may still write. -/
abbrev budget (A : Adapter K) : (sig A).Out → Nat := fun out => MAX_TOTAL - Output.total out

theorem records_calls {α : Type} (convert : α → Wire.Record) :
    ∀ values : List α, (records convert values : JobM (sig A) Unit).Calls 0
  | [] => .pure ()
  | _ :: values => .bind (.send _) fun _ => records_calls convert values

/-- `response::operation` makes one call. -/
theorem operation_calls (provider : Provider) (check : Bool) (instanceId : String) :
    (operation A provider check instanceId).Calls 1 := by
  unfold operation
  cases check with
  | true => exact .bind (.call _ _) fun _ => .send _
  | false =>
    refine .bind (.call _ _) fun _ => .ite (.fail _) (.ite (.fail _) (.ite (.fail _) ?_))
    exact .bind (records_calls _ _) fun _ => .bind (records_calls _ _) fun _ =>
      .bind (records_calls _ _) fun _ => .bind (records_calls _ _) fun _ =>
      .bind (records_calls _ _) fun _ => .bind (records_calls _ _) fun _ => .send _

theorem operate_calls (H : Host A) (check : Bool) (instanceId : String)
    (configuration : A.Configuration) (credentials : A.Credentials)
    (network : Option NetworkContext) :
    (operate H check instanceId configuration credentials network).Calls 2 :=
  .bind (.call _ _) fun provider => operation_calls provider check instanceId

theorem next_awaits (H : Host A) : (next H).Awaits (budget A) 1 := by
  refine TaskM.Awaits.bind (v := 0) .frame fun frame => ?_
  split
  · exact .fail _
  · exact .pure _

/-- Two frames, one race and the two calls of the operation. -/
theorem session_awaits (H : Host A) (networkEnabled : Bool) :
    (session H networkEnabled).Awaits (budget A) 6 := by
  have none {m : TaskM (sig A) Unit} (h : m.Awaits (budget A) 0) : m.Awaits (budget A) 4 :=
    h.mono (Nat.zero_le 4)
  have fails (f : (sig A).Fail) : (TaskM.fail f : TaskM (sig A) Unit).Awaits (budget A) 4 :=
    none (.fail f)
  have set (f : Output → Output) (same : ∀ out, (f out).total = out.total) :
      (TaskM.set f : TaskM (sig A) Unit).Awaits (budget A) 0 :=
    .set fun out => Nat.le_of_eq (congrArg (MAX_TOTAL - ·) (same out))
  refine .bind (next_awaits H) (v := 5) fun request => ?_
  refine .bind (set _ fun _ => rfl) (v := 5) fun _ => ?_
  split
  case h_2 => exact (TaskM.Awaits.fail _).mono (Nat.zero_le 5)
  refine .ite ((TaskM.Awaits.fail _).mono (Nat.zero_le 5)) ?_
  refine .bind (.send _) (v := 5) fun _ => .bind (next_awaits H) (v := 4) fun second => ?_
  refine .ite (fails _) ?_
  split
  · -- describe
    exact none (.bind (set _ fun _ => rfl) fun _ => .ite (.fail _) (.send _))
  · -- describe_auth
    refine .bind (set _ fun _ => rfl) (v := 4) fun _ => ?_
    split
    · exact fails _
    · exact none (.ite (.fail _) (.send _))
  · -- cancel
    exact fails _
  · -- check and discover
    refine .ite (fails _) (.bind (set _ fun _ => rfl) (v := 4) fun _ => ?_)
    exact .ite (fails _) (.ite (fails _) (.select (operate_calls H _ _ _ _ _)))
  · exact fails _

/-- The last event of a failed session is sent without an await that counts. -/
theorem serve_awaits (H : Host A) (networkEnabled : Bool) :
    (serveInternal H networkEnabled).Awaits (budget A) 6 := by
  apply session_awaits H networkEnabled _ 0
  intro r
  cases r with
  | ok => trivial
  | error f =>
    cases f with
    | cancelled =>
      refine ⟨fun _ => Nat.le_refl _, fun r => ?_⟩
      cases r <;> trivial
    | _ => exact fun _ => trivial

/-! ## Every session ends -/

/-- **Every session ends.** Whatever the host writes, the provider returns and the clock does, a
session takes at most three times 64 MiB and six steps. In no state is it stuck: an environment in
which nothing fails and nothing is late leads every session to its result. -/
theorem Session.terminates {H : Host A} {networkEnabled : Bool} {signals : List Signal}
    {m : Machine (sig A)} (run : (start H networkEnabled).run (port H) signals = some m) :
    signals.length ≤ 3 * MAX_TOTAL + 6 ∧
      ∃ rest m' r, (∀ s ∈ rest, s.patient = true) ∧ m.run (port H) rest = some m' ∧
        m'.task = .done r := by
  have awaits := serve_awaits H networkEnabled
  refine ⟨?_, ?_⟩
  · have := Task.run_bounded (M := meter H) awaits run
    have room : (meter H).room Input.new = MAX_TOTAL := rfl
    have unspent : (meter H).budget Output.new = MAX_TOTAL := rfl
    omega
  · have fits : m.Fits := Task.run_keeps trivial (Task.keeps_true _ [])
      (Machine.along_all (fun m s => m.settles_lossy (port H) s) signals _) run
    obtain ⟨n, -, first, -⟩ := Task.advance_left (M := meter H) (p := port H)
      ⟨Input.new, Output.new, none, [], []⟩ awaits
    obtain ⟨n', h'⟩ := Machine.run_awaits (M := meter H) first run
    exact Machine.run_ends fits h' (Nat.le_refl _)

/-- A discovery whose complete frame is waiting for the writer. -/
theorem Session.terminates_discovery :
    ∃ m, (start Sample.host false).run (port Sample.host) Sample.opening = some m ∧
      Sample.opening.length ≤ 3 * MAX_TOTAL + 6 ∧
      ∃ rest m' r, (∀ s ∈ rest, s.patient = true) ∧ m.run (port Sample.host) rest = some m' ∧
        m'.task = .done r := by
  obtain ⟨m, run⟩ := Option.isSome_iff_exists.mp
    (show ((start Sample.host false).run (port Sample.host) Sample.opening).isSome = true by
      decide +kernel)
  exact ⟨m, run, Session.terminates run⟩

end Permesh.Native

import Mathlib.Data.Nat.Find
import Permesh.Lib.Segments
import Permesh.Native.Io

/-!
# Laws.Native.Input — the frames of a stream

The calls of `Input::frame` return the segments of the stream one after the other, however the reader
cuts it into chunks, up to the first segment that has no newline or goes beyond a limit
(`frames_of_stream`). The limits are never exceeded on the way, so what is left of them can be
computed by a subtraction.

A stream is cut at its newlines, and the state of the input is compared with the part of the stream that
was read. Chunks may have any length, also beyond a frame. Time plays no part: a reader that is slow is
one whose chunks come later.
-/

namespace Permesh.Native

open Permesh.Lib

/-! ## What one look at the buffer does -/

theorem not_newline {l : List UInt8} (h : ∀ b ∈ l, (b == newline) = false) : newline ∉ l :=
  fun mem => absurd (h newline mem) (by decide)

theorem Input.count_open {i : Input} (h : ∀ b ∈ i.buffer, (b == newline) = false) :
    i.count = i.buffer.length := by
  unfold Input.count
  rw [List.findIdx?_eq_none_iff.mpr h]

theorem Input.count_closed {i : Input} {line rest : List UInt8}
    (h : ∀ b ∈ line, (b == newline) = false) (eq : i.buffer = line ++ newline :: rest) :
    i.count = line.length + 1 := by
  have found : i.buffer.findIdx? (· == newline) = some line.length := by
    rw [eq, List.findIdx?_append, List.findIdx?_eq_none_iff.mpr h, List.findIdx?_cons]
    simp
  unfold Input.count
  rw [found]

/-- What `scan` takes from the buffer. -/
theorem Input.take_count (i : Input) :
    (newline ∉ i.buffer ∧ i.count = i.buffer.length) ∨
      ∃ line, newline ∉ line ∧ i.buffer.take i.count = line ++ [newline] := by
  rcases open_or_closed (· == newline) i.buffer with plain | ⟨line, b, rest, plain, sep, eq⟩
  · exact .inl ⟨not_newline plain, i.count_open plain⟩
  · cases eq_of_beq sep
    refine .inr ⟨line, not_newline plain, ?_⟩
    rw [i.count_closed plain eq, eq, List.append_cons, List.take_left']
    simp

/-- The bytes taken so far are within the limits. -/
structure Input.Within (i : Input) : Prop where
  frame : i.frame.length ≤ MAX_FRAME
  total : i.total ≤ MAX_TOTAL

/-- `n` more bytes are within the limits. -/
def Input.Takes (i : Input) (n : Nat) : Prop := i.frame.length + n ≤ MAX_FRAME ∧ i.total + n ≤ MAX_TOTAL

instance (i : Input) (n : Nat) : Decidable (i.Takes n) := inferInstanceAs (Decidable (_ ∧ _))

/-- What a look at the buffer can find. -/
inductive Input.Scanned (i : Input) : Input × Option (Except Failure (List UInt8)) → Prop
  | more (plain : ∀ b ∈ i.buffer, (b == newline) = false) (takes : i.Takes i.buffer.length) :
    i.Scanned (⟨[], i.total + i.buffer.length, i.frame ++ i.buffer⟩, none)
  | frame {line rest : List UInt8} (plain : ∀ b ∈ line, (b == newline) = false)
    (eq : i.buffer = line ++ newline :: rest) (takes : i.Takes (line.length + 1)) :
    i.Scanned (⟨rest, i.total + (line.length + 1), []⟩, some (.ok (i.frame ++ (line ++ [newline]))))
  | beyond {n : Nat} (exceeds : ¬i.Takes n)
    (here : (∀ b ∈ i.buffer, (b == newline) = false) ∧ n = i.buffer.length ∨
      ∃ line rest, (∀ b ∈ line, (b == newline) = false) ∧ i.buffer = line ++ newline :: rest ∧
        n = line.length + 1) : i.Scanned (i, some (.error .protocol))

theorem Input.scanned {i : Input} (within : i.Within) : i.Scanned i.scan := by
  obtain ⟨frame, total⟩ := within
  by_cases empty : i.buffer = []
  · obtain ⟨buffer, sum, bytes⟩ := i
    cases empty
    have more : Input.Scanned ⟨[], sum, bytes⟩ (⟨[], sum + 0, bytes ++ []⟩, none) :=
      .more (fun _ mem => by cases mem) ⟨frame, total⟩
    rwa [List.append_nil] at more
  unfold Input.scan
  rw [if_neg empty]
  rcases open_or_closed (· == newline) i.buffer with plain | ⟨line, b, rest, plain, sep, eq⟩
  · rw [i.count_open plain]
    split
    case isTrue beyond =>
      exact .beyond (fun takes => by unfold Input.Takes at takes; omega) (.inl ⟨plain, rfl⟩)
    case isFalse fits =>
      have last : (i.frame ++ i.buffer).getLast? ≠ some newline := by
        rw [List.getLast?_append_of_ne_nil _ empty]
        exact fun last => not_newline plain (List.mem_of_getLast? last)
      dsimp only
      rw [List.take_length, List.drop_length, if_neg last]
      exact .more plain ⟨by omega, by omega⟩
  · cases eq_of_beq sep
    have cut : i.buffer = (line ++ [newline]) ++ rest := by rw [eq, List.append_cons]
    have length : (line ++ [newline]).length = line.length + 1 := by simp
    rw [i.count_closed plain eq]
    split
    case isTrue beyond =>
      exact .beyond (fun takes => by unfold Input.Takes at takes; omega)
        (.inr ⟨line, rest, plain, eq, rfl⟩)
    case isFalse fits =>
      dsimp only
      rw [cut, List.take_left' length, List.drop_left' length, ← List.append_assoc,
        if_pos List.getLast?_concat, List.append_assoc]
      exact .frame plain eq ⟨by omega, by omega⟩

/-- A look at the buffer keeps to the limits. -/
theorem Input.Within.scan {i : Input} (within : i.Within) : i.scan.1.Within := by
  have scanned := Input.scanned within
  revert scanned
  generalize i.scan = result
  intro scanned
  cases scanned with
  | more _ takes => exact ⟨by simpa using takes.1, takes.2⟩
  | frame _ _ takes => exact ⟨Nat.zero_le _, takes.2⟩
  | beyond => exact within

theorem Input.Reached.within {i : Input} (h : i.Reached) : i.Within := by
  induction h with
  | new => exact ⟨Nat.zero_le _, Nat.zero_le _⟩
  | feed _ _ _ ih => exact ⟨ih.frame, ih.total⟩
  | scan _ ih => exact ih.scan
  | drop _ ih => exact ⟨Nat.zero_le _, ih.total⟩

/-! ## One call -/

/-- Without a newline a call fails. -/
theorem Input.nextFrame_open {chunks : List (List UInt8)} (filled : ∀ c ∈ chunks, c ≠ []) {i : Input}
    (within : i.Within) (plain : ∀ b ∈ i.buffer ++ chunks.flatten, (b == newline) = false) :
    (i.nextFrame chunks).2.2 = .error .protocol := by
  induction chunks generalizing i with
  | nil =>
    have scanned := Input.scanned within
    unfold Input.nextFrame
    revert scanned
    generalize i.scan = result
    intro scanned
    cases scanned with
    | more => rfl
    | frame _ eq => exact absurd (plain newline (by simp [eq])) (by decide)
    | beyond => rfl
  | cons chunk chunks ih =>
    have scanned := Input.scanned within
    have kept := within.scan
    unfold Input.nextFrame
    revert scanned kept
    generalize i.scan = result
    intro scanned kept
    cases scanned with
    | more =>
      dsimp only
      rw [if_neg (filled chunk (List.mem_cons_self ..))]
      refine ih (fun c mem => filled c (List.mem_cons_of_mem _ mem)) ⟨kept.frame, kept.total⟩ ?_
      exact fun b mem => plain b (List.mem_append_right _ mem)
    | frame _ eq => exact absurd (plain newline (by simp [eq])) (by decide)
    | beyond => rfl

/-- The first newline behind a buffer that has none. -/
theorem first_behind {buffer bytes line rest : List UInt8}
    (h : ∀ b ∈ buffer, (b == newline) = false) (plain : ∀ b ∈ line, (b == newline) = false)
    (eq : buffer ++ bytes = line ++ newline :: rest) : ∃ more, line = buffer ++ more ∧
      (∀ b ∈ more, (b == newline) = false) ∧ bytes = more ++ newline :: rest := by
  rcases open_or_closed (· == newline) bytes with none | ⟨more, b, rest', plain', sep, rfl⟩
  · have mem : newline ∈ buffer ++ bytes := by simp [eq]
    exact absurd mem (not_newline (List.forall_mem_append.mpr ⟨h, none⟩))
  · rw [← List.append_assoc] at eq
    obtain ⟨same, rfl, rfl⟩ := first_unique
      (List.forall_mem_append.mpr ⟨h, plain'⟩) plain sep (beq_self_eq_true newline) eq
    exact ⟨more, same.symm, plain', rfl⟩

/-- What is within the limits stays so with fewer bytes. -/
theorem Input.Takes.mono {i : Input} {m n : Nat} (h : i.Takes n) (le : m ≤ n) : i.Takes m :=
  ⟨Nat.le_trans (Nat.add_le_add_left le _) h.1, Nat.le_trans (Nat.add_le_add_left le _) h.2⟩

/-- A look at the buffer that fails does so because of the bytes up to the next newline. -/
theorem not_takes {i : Input} {n : Nat} {bytes line rest : List UInt8} (exceeds : ¬i.Takes n)
    (here : (∀ b ∈ i.buffer, (b == newline) = false) ∧ n = i.buffer.length ∨
      ∃ line rest, (∀ b ∈ line, (b == newline) = false) ∧ i.buffer = line ++ newline :: rest ∧
        n = line.length + 1)
    (plain : ∀ b ∈ line, (b == newline) = false)
    (eq : i.buffer ++ bytes = line ++ newline :: rest) : ¬i.Takes (line.length + 1) := by
  intro takes
  rcases here with ⟨open', rfl⟩ | ⟨line', rest', plain', buffer, rfl⟩
  · obtain ⟨more, rfl, -⟩ := first_behind open' plain eq
    refine exceeds (takes.mono ?_)
    rw [List.length_append]
    omega
  · rw [buffer, List.append_assoc, List.cons_append] at eq
    have sep := beq_self_eq_true newline
    obtain ⟨rfl, -⟩ := first_unique plain' plain sep sep eq
    exact exceeds takes

/-- **What a call makes of the bytes up to the next newline.** -/
theorem Input.nextFrame_closed {chunks : List (List UInt8)} (filled : ∀ c ∈ chunks, c ≠ [])
    {i : Input} (within : i.Within) {line rest : List UInt8}
    (plain : ∀ b ∈ line, (b == newline) = false)
    (eq : i.buffer ++ chunks.flatten = line ++ newline :: rest) :
    if i.Takes (line.length + 1) then ∃ i' chunks',
      i.nextFrame chunks = (i', chunks', .ok (i.frame ++ (line ++ [newline]))) ∧
        i'.buffer ++ chunks'.flatten = rest ∧ i'.total = i.total + (line.length + 1) ∧
        i'.frame = [] ∧ ∀ c ∈ chunks', c ≠ []
    else (i.nextFrame chunks).2.2 = .error .protocol := by
  have sep := beq_self_eq_true newline
  induction chunks generalizing i line with
  | nil =>
    have scanned := Input.scanned within
    unfold Input.nextFrame
    revert scanned
    generalize i.scan = result
    intro scanned
    cases scanned with
    | more open' =>
      obtain ⟨more, -, -, none⟩ := first_behind open' plain eq
      cases more <;> cases none
    | frame plain' buffer takes =>
      rw [buffer, List.flatten_nil, List.append_nil] at eq
      obtain ⟨rfl, -, rfl⟩ := first_unique plain' plain sep sep eq
      rw [if_pos takes]
      exact ⟨_, _, rfl, List.append_nil _, rfl, rfl, filled⟩
    | beyond exceeds here => rw [if_neg (not_takes exceeds here plain eq)]
  | cons chunk chunks ih =>
    have scanned := Input.scanned within
    have kept := within.scan
    unfold Input.nextFrame
    revert scanned kept
    generalize i.scan = result
    intro scanned kept
    cases scanned with
    | more open' takes =>
      dsimp only
      rw [if_neg (filled chunk (List.mem_cons_self ..))]
      obtain ⟨more, rfl, plain', eq⟩ := first_behind open' plain eq
      have next := ih (fun c mem => filled c (List.mem_cons_of_mem _ mem))
        (i := Input.feed ⟨[], i.total + i.buffer.length, i.frame ++ i.buffer⟩ chunk)
        ⟨kept.frame, kept.total⟩ plain' eq
      have same : Input.Takes (Input.feed ⟨[], i.total + i.buffer.length, i.frame ++ i.buffer⟩ chunk)
          (more.length + 1) ↔ i.Takes ((i.buffer ++ more).length + 1) := by
        simp only [Input.Takes, Input.feed, List.length_append]
        omega
      split at next
      case isTrue more' =>
        rw [if_pos (same.mp more')]
        obtain ⟨i', chunks', ok, left, total, rest⟩ := next
        refine ⟨i', chunks', ?_, left, ?_, rest⟩
        · rw [ok]
          simp [Input.feed]
        · rw [total]
          simp only [Input.feed, List.length_append]
          omega
      case isFalse less =>
        rw [if_neg (mt same.mpr less)]
        exact next
    | frame plain' buffer takes =>
      rw [buffer, List.append_assoc, List.cons_append] at eq
      obtain ⟨rfl, -, rfl⟩ := first_unique plain' plain sep sep eq
      rw [if_pos takes]
      exact ⟨_, _, rfl, rfl, rfl, rfl, filled⟩
    | beyond exceeds here => rw [if_neg (not_takes exceeds here plain eq)]

/-! ## Successive calls -/

/-- The `k`-th segment ends with a newline, and it and the bytes up to its end are within the
limits. -/
structure Fits (total : Nat) (segments : List (List UInt8)) (k : Nat) (segment : List UInt8) :
    Prop where
  here : segments[k]? = some segment
  ended : segment.getLast? = some newline
  frame : segment.length ≤ MAX_FRAME
  total : total + (segments.take (k + 1)).flatten.length ≤ MAX_TOTAL

theorem fits_succ {total k : Nat} {first segment : List UInt8} {segments : List (List UInt8)} :
    Fits total (first :: segments) (k + 1) segment ↔
      Fits (total + first.length) segments k segment := by
  have sum : total + ((first :: segments).take (k + 1 + 1)).flatten.length =
      total + first.length + (segments.take (k + 1)).flatten.length := by
    rw [List.take_succ_cons, List.flatten_cons, List.length_append, Nat.add_assoc]
  constructor
  · exact fun h => ⟨h.here, h.ended, h.frame, sum ▸ h.total⟩
  · exact fun h => ⟨h.here, h.ended, h.frame, sum.symm ▸ h.total⟩

theorem fits_zero {total : Nat} {line : List UInt8} {segments : List (List UInt8)} :
    (∃ segment, Fits total ((line ++ [newline]) :: segments) 0 segment) ↔
      line.length + 1 ≤ MAX_FRAME ∧ total + (line.length + 1) ≤ MAX_TOTAL := by
  constructor
  · rintro ⟨segment, h⟩
    cases h.here
    exact ⟨by simpa using h.frame, by simpa using h.total⟩
  · rintro ⟨frame, within⟩
    exact ⟨_, rfl, List.getLast?_concat, by simpa using frame, by simpa using within⟩

/-- `k` segments, and then an error. -/
def resultsUpTo (k : Nat) (segments : List (List UInt8)) : List (Except Failure (List UInt8)) :=
  (segments.take k).map Except.ok ++ [Except.error Failure.protocol]

theorem Input.frames_of_error {i : Input} {chunks : List (List UInt8)}
    (failed : (i.nextFrame chunks).2.2 = .error .protocol) (n : Nat) :
    i.frames chunks n = (resultsUpTo 0 []).take n := by
  cases n with
  | zero => rfl
  | succ n =>
    cases next : i.nextFrame chunks with
    | mk i' rest =>
      obtain ⟨chunks', r⟩ := rest
      rw [next] at failed
      cases failed
      rw [Input.frames, next]
      simp [resultsUpTo]

/-- Calls return the segments up to the first one that does not fit. -/
theorem Input.frames_eq {k : Nat} {chunks : List (List UInt8)} (filled : ∀ c ∈ chunks, c ≠ [])
    {i : Input} (within : i.Within) (fresh : i.frame = []) {stream : List UInt8}
    (eq : i.buffer ++ chunks.flatten = stream)
    (fits : ∀ j < k, ∃ s, Fits i.total (segments (· == newline) stream) j s)
    (stop : ¬∃ s, Fits i.total (segments (· == newline) stream) k s) (n : Nat) :
    i.frames chunks n = (resultsUpTo k (segments (· == newline) stream)).take n := by
  induction k generalizing i chunks stream n with
  | zero =>
    refine Input.frames_of_error ?_ n
    rcases open_or_closed (· == newline) stream with plain | ⟨line, b, rest, plain, sep, rfl⟩
    · exact Input.nextFrame_open filled within (eq ▸ plain)
    · cases eq_of_beq sep
      have call := Input.nextFrame_closed filled within plain eq
      rw [segments_closed plain sep, fits_zero] at stop
      rwa [if_neg (by simpa [Input.Takes, fresh] using stop)] at call
  | succ k ih =>
    rcases open_or_closed (· == newline) stream with plain | ⟨line, b, rest, plain, sep, rfl⟩
    · obtain ⟨s, h⟩ := fits 0 (Nat.zero_lt_succ _)
      rw [segments_open plain] at h
      cases h.here
      exact absurd (List.mem_of_getLast? h.ended) (not_newline plain)
    cases eq_of_beq sep
    have call := Input.nextFrame_closed filled within plain eq
    rw [segments_closed plain sep] at fits stop ⊢
    have first := fits_zero.mp (fits 0 (Nat.zero_lt_succ _))
    rw [if_pos (by simpa [Input.Takes, fresh] using first)] at call
    obtain ⟨i', chunks', ok, left, total, fresh', filled'⟩ := call
    have length : (line ++ [newline]).length = line.length + 1 := by simp
    have next (j : Nat) (s : List UInt8) :
        Fits i.total ((line ++ [newline]) :: segments (· == newline) rest) (j + 1) s ↔
          Fits i'.total (segments (· == newline) rest) j s := by
      rw [fits_succ, length, total]
    cases n with
    | zero => rfl
    | succ n =>
      have within' : i'.Within := ⟨by simp [fresh'], by omega⟩
      have later := ih filled' within' fresh' left (fun j lt => ?_) ?_ n
      · rw [Input.frames, ok, fresh, List.nil_append]
        exact congrArg _ later
      · obtain ⟨s, h⟩ := fits (j + 1) (Nat.succ_lt_succ lt)
        exact ⟨s, (next j s).mp h⟩
      · rintro ⟨s, h⟩
        exact stop ⟨s, (next k s).mpr h⟩

/-- The last segment does not fit. -/
theorem exists_stop (total : Nat) (stream : List UInt8) :
    ∃ k, ¬∃ s, Fits total (segments (· == newline) stream) k s := by
  obtain ⟨init, last, eq, -, plain⟩ := segments_shape (· == newline) stream
  refine ⟨init.length, ?_⟩
  rintro ⟨s, h⟩
  have here := h.here
  rw [eq, List.getElem?_append_right (Nat.le_refl _), Nat.sub_self] at here
  cases here
  exact not_newline plain (List.mem_of_getLast? h.ended)

/-- **The frames of a stream.** However the reader cuts the stream into chunks, the calls return its
segments one after the other, up to the first one that lacks its newline or goes beyond a limit, and
that one is an error. Nothing of the stream is lost, repeated or moved, and in every state of every
run what is left of the limits is not negative. -/
theorem frames_of_stream (stream : List UInt8) :
    (∃ k, (∀ j < k, ∃ s, Fits 0 (segments (· == newline) stream) j s) ∧
      (¬∃ s, Fits 0 (segments (· == newline) stream) k s) ∧
      ∀ chunks : List (List UInt8), chunks.flatten = stream → (∀ c ∈ chunks, c ≠ []) →
        ∀ n, Input.new.frames chunks n =
          (resultsUpTo k (segments (· == newline) stream)).take n) ∧
    (segments (· == newline) stream).flatten = stream ∧
    (∃ init last, segments (· == newline) stream = init ++ [last] ∧ newline ∉ last ∧
      ∀ s ∈ init, ∃ line, newline ∉ line ∧ s = line ++ [newline]) ∧
    ∀ i : Input, i.Reached → i.frame.length ≤ MAX_FRAME ∧ i.total ≤ MAX_TOTAL := by
  refine ⟨?_, flatten_segments _ _, ?_, fun i reached => ⟨reached.within.frame, reached.within.total⟩⟩
  · classical
    have stops := exists_stop 0 stream
    refine ⟨Nat.find stops, fun j lt => not_not.mp (Nat.find_min stops lt), Nat.find_spec stops,
      fun chunks split filled n => ?_⟩
    exact Input.frames_eq (i := .new) filled ⟨Nat.zero_le _, Nat.zero_le _⟩ rfl split
      (fun j lt => not_not.mp (Nat.find_min stops lt)) (Nat.find_spec stops) n
  · obtain ⟨init, last, eq, ended, plain⟩ := segments_shape (· == newline) stream
    refine ⟨init, last, eq, not_newline plain, fun s mem => ?_⟩
    obtain ⟨line, b, plain', sep, rfl⟩ := ended s mem
    cases eq_of_beq sep
    exact ⟨line, not_newline plain', rfl⟩

end Permesh.Native

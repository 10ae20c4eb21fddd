import Permesh.Laws.Native.Delivery
import Permesh.Laws.Native.Gate

/-!
# Laws.Native.Spoken — the runtime adds nothing to an answer

Every run, also one that is cut off anywhere: the health reports, records and complete events whose
frames the writer is offered are an initial part, in order, of what the provider answers to the one
delivery of the session (`Session.spoken`). Nothing is added, left out in between, repeated or moved.
What holds of every initial part of the answers of a provider therefore holds of everything that its
sessions write.
-/

namespace Permesh.Native

open Permesh.Lib

variable {K : Crates} {A : Adapter K}

/-- The events that carry what a provider answered. -/
def Event.isAnswer : Event K → Bool
  | .health _ | .record _ | .complete .. => true
  | _ => false

/-- The events whose frames the writer was offered, in order. -/
def begun (t : Trace A) : List (Event K) :=
  t.filterMap fun x => match x with
    | .offered e => some e
    | _ => none

@[simp] theorem begun_append (t u : Trace A) : begun (t ++ u) = begun t ++ begun u :=
  List.filterMap_append

@[simp] theorem begun_received (f : List UInt8) : begun (A := A) [.received f] = [] := rfl
@[simp] theorem begun_called (c : Call A) : begun [.called c] = [] := rfl
@[simp] theorem begun_offered (e : Event K) : begun (A := A) [.offered e] = [e] := rfl
@[simp] theorem begun_sent (e : Event K) : begun (A := A) [.sent e] = [] := rfl

@[simp] theorem deliveries_received (f : List UInt8) : deliveries (A := A) [.received f] = [] := rfl
@[simp] theorem deliveries_offered (e : Event K) : deliveries (A := A) [.offered e] = [] := rfl
@[simp] theorem deliveries_sent (e : Event K) : deliveries (A := A) [.sent e] = [] := rfl

/-- The answers among events. -/
def answers (events : List (Event K)) : List (Event K) := events.filter Event.isAnswer

@[simp] theorem answers_nil : answers ([] : List (Event K)) = [] := rfl

@[simp] theorem answers_append (l l' : List (Event K)) : answers (l ++ l') = answers l ++ answers l' :=
  List.filter_append ..

theorem answers_plain {e : Event K} (h : e.isAnswer = false) : answers [e] = [] :=
  List.filter_cons_of_neg (Bool.eq_false_iff.mp h)

theorem answers_answer {e : Event K} (h : e.isAnswer = true) : answers [e] = [e] :=
  List.filter_cons_of_pos h

/-- The events that the provider of a delivery answers with. -/
def Answered (H : Host A) (d : Delivery A) (events : List (Event K)) : Prop :=
  ∃ check, answer H check d.instanceId d.configuration d.credentials d.network = .ok events

/-- **What a trace says is the answer to its delivery**, as far as it goes. -/
structure Spoken (H : Host A) (t : Trace A) : Prop where
  order : answers (sent t) <+: answers (begun t)
  answered : answers (begun t) = [] ∨
    ∃ d events, deliveries t = [d] ∧ Answered H d events ∧ answers (begun t) <+: events

/-! ## How a trace grows -/

/-- What was delivered, begun and sent so far. -/
structure Stand (ds : List (Delivery A)) (begins sends : List (Event K)) (t : Trace A) : Prop where
  delivered : deliveries t = ds
  begun : answers (begun t) = begins
  sent : answers (sent t) = sends

section Stand

variable {H : Host A} {t : Trace A} {ds : List (Delivery A)} {begins sends : List (Event K)}

theorem Stand.received (h : Stand ds begins sends t) (f : List UInt8) :
    Stand ds begins sends (t ++ [.received f]) := by
  constructor <;> simp [h.delivered, h.begun, h.sent]

theorem Stand.called (h : Stand ds begins sends t) {c : Call A} (quiet : deliveries [.called c] = []) :
    Stand ds begins sends (t ++ [.called c]) := by
  constructor <;> simp [h.delivered, h.begun, h.sent, quiet]

theorem Stand.deliver (h : Stand [] begins sends t) (d : Delivery A) :
    Stand [d] begins sends
      (t ++ [.called (.factory d.instanceId d.configuration d.credentials d.network)]) := by
  constructor
  · rw [deliveries_append, h.delivered]
    rfl
  · simp [h.begun]
  · simp [h.sent]

theorem Stand.offered (h : Stand ds begins sends t) (e : Event K) :
    Stand ds (begins ++ answers [e]) sends (t ++ [.offered e]) := by
  constructor <;> simp [h.delivered, h.begun, h.sent]

theorem Stand.done (h : Stand ds begins sends t) (e : Event K) :
    Stand ds begins (sends ++ answers [e]) (t ++ [.sent e]) := by
  constructor <;> simp [h.delivered, h.begun, h.sent]

/-- A send of an event that answers nothing. -/
theorem Stand.plain (h : Stand ds begins sends t) {e : Event K} (plain : e.isAnswer = false) :
    Stand ds begins sends (t ++ [.offered e]) ∧
      Stand ds begins sends (t ++ [.offered e] ++ [.sent e]) := by
  have off := h.offered e
  have out := off.done e
  rw [answers_plain plain, List.append_nil] at off out
  rw [List.append_nil] at out
  exact ⟨off, out⟩

/-- A send of an answer. -/
theorem Stand.answer (h : Stand ds begins sends t) {e : Event K} (answer : e.isAnswer = true) :
    Stand ds (begins ++ [e]) sends (t ++ [.offered e]) ∧
      Stand ds (begins ++ [e]) (sends ++ [e]) (t ++ [.offered e] ++ [.sent e]) := by
  have off := h.offered e
  have out := off.done e
  rw [answers_answer answer] at off out
  exact ⟨off, out⟩

/-- Nothing is delivered and nothing answered. -/
abbrev Silent (t : Trace A) : Prop := Stand ([] : List (Delivery A)) [] [] t

/-- The provider is at work, and its answer is told so far. -/
abbrev At (d : Delivery A) (told : List (Event K)) (t : Trace A) : Prop := Stand [d] told told t

theorem Stand.spoken_nil (h : Stand ds [] [] t) : Spoken H t where
  order := by simp [h.begun, h.sent]
  answered := .inl h.begun

/-- An initial part of the answer is spoken, also when its last frame is not sent. -/
theorem Stand.spoken_part {d : Delivery A} {events : List (Event K)} (h : Stand [d] begins sends t)
    (order : sends <+: begins) (answered : Answered H d events) (part : begins <+: events) :
    Spoken H t where
  order := by rw [h.begun, h.sent]; exact order
  answered := .inr ⟨d, events, h.delivered, answered, by rw [h.begun]; exact part⟩

/-- What is spoken depends on the stand of the trace only. -/
theorem Spoken.transfer {u : Trace A} (h : Spoken H t) (old : Stand ds begins sends t)
    (new : Stand ds begins sends u) : Spoken H u where
  order := by rw [new.begun, new.sent, ← old.begun, ← old.sent]; exact h.order
  answered := by rw [new.begun, new.delivered, ← old.begun, ← old.delivered]; exact h.answered

theorem Spoken.received (h : Spoken H t) (f : List UInt8) : Spoken H (t ++ [.received f]) :=
  h.transfer ⟨rfl, rfl, rfl⟩ (Stand.received ⟨rfl, rfl, rfl⟩ f)

theorem Spoken.plain (h : Spoken H t) {e : Event K} (plain : e.isAnswer = false) :
    Spoken H (t ++ [.offered e]) ∧ Spoken H (t ++ [.offered e] ++ [.sent e]) :=
  have grown := Stand.plain ⟨rfl, rfl, rfl⟩ plain
  ⟨h.transfer ⟨rfl, rfl, rfl⟩ grown.1, h.transfer ⟨rfl, rfl, rfl⟩ grown.2⟩

end Stand

/-! ## Inside an operation -/

section Operation

variable {H : Host A} {d : Delivery A} {events told : List (Event K)}

/-- What is owed behind a part of an answer: more of it, or a failure behind what is spoken. -/
def Told (H : Host A) (d : Delivery A) (told : List (Event K)) {α : Type} :
    Except Failure α → Trace A → Prop
  | .ok _, t => At d told t
  | .error _, t => Spoken H t

/-- A job that goes on from one part of the answer to another. -/
abbrev JobTells (H : Host A) (d : Delivery A) (told told' : List (Event K)) {α : Type}
    (m : JobM (sig A) α) : Prop :=
  JobM.Meets (Spoken H) (fun _ => true) (Spoken H) (At d told) m (Told H d told')

theorem send_tells {e : Event K} (answer : e.isAnswer = true) (answered : Answered H d events)
    (part : told ++ [e] <+: events) : JobTells H d told (told ++ [e]) (JobM.send e) := by
  have before : told <+: events := (List.prefix_append told [e]).trans part
  have off (t : Trace A) (h : At d told t) : Spoken H (t ++ [.offered e]) :=
    (h.answer answer).1.spoken_part (List.prefix_append told [e]) answered part
  have out (t : Trace A) (h : At d told t) : Spoken H (t ++ [.offered e] ++ [.sent e]) :=
    (h.answer answer).2.spoken_part (List.prefix_refl _) answered part
  exact .send (fun _ t h => h.spoken_part (List.prefix_refl _) answered before)
    (fun t h => ⟨off t h, off t h, fun _ => off t h⟩)
    (fun t h => ⟨out t h, (h.answer answer).2⟩) fun _ t h => ⟨out t h, fun _ => out t h⟩

/-- Records are told one after the other. -/
theorem records_tell (answered : Answered H d events) : ∀ {values : List Wire.Record}
    {told : List (Event K)}, told ++ values.map .record <+: events →
      JobTells H d told (told ++ values.map .record)
        (records (fun x => x) values : JobM (sig A) Unit)
  | [], told, _ => .pure fun t h => by
    show At d _ t
    rwa [List.map_nil, List.append_nil]
  | value :: values, told, part => by
    rw [List.map_cons, List.append_cons] at part ⊢
    have first := (List.prefix_append (told ++ [.record value]) _).trans part
    exact (send_tells rfl answered first).bind (fun _ => records_tell answered part) fun _ _ h => h

/-- A fact about what a call returned moves out of the precondition. -/
theorem meets_given {c : Prop} {safe drop pre : Trace A → Prop} {α : Type}
    {m : JobM (sig A) α} {post : Except Failure α → Trace A → Prop}
    (h : c → JobM.Meets safe (fun _ => true) drop pre m post) :
    JobM.Meets safe (fun _ => true) drop (fun t => c ∧ pre t) m post :=
  fun fin k t ⟨hc, hp⟩ hk => h hc fin k t hp hk

/-- What follows the call of an operation knows what it returned. -/
theorem call_tells {α : Type} {c : Call A} {returned : Except Failure α}
    {f : α → JobM (sig A) Unit} (quiet : deliveries [.called c] = [])
    (h : ∀ a, returned = .ok a → JobM.Meets (Spoken H) (fun _ => true) (Spoken H) (At d []) (f a)
      fun _ => Spoken H) :
    JobM.Meets (Spoken H) (fun _ => true) (Spoken H) (At d []) (JobM.call c returned >>= f)
      fun _ => Spoken H := by
  have called : JobM.Meets (Spoken H) (fun _ => true) (Spoken H) (At d [])
      (JobM.call c returned) fun r t => returned = r ∧ At d [] t :=
    .call fun t h => ⟨(h.called quiet).spoken_nil, (h.called quiet).spoken_nil, rfl,
      h.called quiet⟩
  exact called.bind (fun a => meets_given (h a)) fun _ _ h => h.2.spoken_nil

/-- **The operation tells the answer of its provider.** -/
theorem operation_tells {provider : Provider} {check : Bool}
    (built : H.factory d.instanceId d.configuration d.credentials d.network = .ok provider) :
    JobM.Meets (Spoken H) (fun _ => true) (Spoken H) (At d [])
      (operation A provider check d.instanceId) fun _ => Spoken H := by
  have same : answer H check d.instanceId d.configuration d.credentials d.network =
      provided A provider check d.instanceId := by rw [answer, built]; rfl
  have all {told : List (Event K)} {m : JobM (sig A) Unit} (h : JobTells H d [] told m)
      (answered : Answered H d told) : JobM.Meets (Spoken H) (fun _ => true) (Spoken H) (At d []) m
        fun _ => Spoken H :=
    h.imp (fun _ h => h) fun r t told => by
      cases r with
      | ok => exact told.spoken_part (List.prefix_refl _) answered (List.prefix_refl _)
      | error => exact told
  have fails (f : Failure) : JobM.Meets (Spoken H) (fun _ => true) (Spoken H) (At d [])
      (JobM.fail f : JobM (sig A) Unit) fun _ => Spoken H := .fail fun _ h => h.spoken_nil
  unfold operation
  cases check with
  | true =>
    rw [if_pos rfl]
    apply call_tells rfl
    intro health returned
    have answered : Answered H d [.health (A.limitations health.limitations)] :=
      ⟨true, by rw [same, provided, if_pos rfl, returned]; rfl⟩
    exact all (send_tells rfl answered (List.prefix_refl _)) answered
  | false =>
    rw [if_neg Bool.false_ne_true]
    apply call_tells rfl
    intro snapshot returned
    refine .ite (fun _ => fails _) fun own => .ite (fun _ => fails _) fun valid =>
      .ite (fun _ => fails _) fun few => ?_
    let sorted := K.core.sort snapshot
    have answered : Answered H d (published A sorted) := ⟨false, by
      rw [same, provided, if_neg Bool.false_ne_true, returned]
      exact if_pos ⟨not_not.mp own, Bool.not_eq_false _ ▸ valid, by
        rw [← Snapshot.count_entries, ← Snapshot.count_sort K.core]
        exact Nat.le_of_not_lt few⟩⟩
    have parts : published A sorted =
        [] ++ (sorted.entries.map Entry.project).map .record ++
          [.complete (Snapshot.count sorted) sorted.complete (A.limitations sorted.limitations)] := by
      rw [published, List.map_map, Snapshot.count_entries, List.nil_append]
      rfl
    have recorded : JobTells H d [] ([] ++ (sorted.entries.map Entry.project).map .record)
        (records (fun x => x) (sorted.entries.map Entry.project) : JobM (sig A) Unit) := by
      apply records_tell answered
      rw [parts]
      exact List.prefix_append _ _
    have completed : JobTells H d ([] ++ (sorted.entries.map Entry.project).map .record)
        (published A sorted) (JobM.send (.complete (Snapshot.count sorted) sorted.complete
          (A.limitations sorted.limitations))) := by
      rw [parts] at answered ⊢
      exact send_tells rfl answered (List.prefix_refl _)
    rw [records_entries]
    exact all (recorded.bind (fun _ => completed) fun _ _ h => h) answered

/-- The factory delivers, and its provider answers. -/
theorem operate_tells (check : Bool) (d : Delivery A) :
    JobM.Meets (Spoken H) (fun _ => true) (Spoken H) (Silent (A := A))
      (operate H check d.instanceId d.configuration d.credentials d.network)
      fun _ => Spoken H := by
  have factory : JobM.Meets (Spoken H) (fun _ => true) (Spoken H) (Silent (A := A))
      (JobM.call (.factory d.instanceId d.configuration d.credentials d.network)
        (providerError A (H.factory d.instanceId d.configuration d.credentials d.network)))
      fun r t => providerError A
        (H.factory d.instanceId d.configuration d.credentials d.network) = r ∧ At d [] t :=
    .call fun t h => ⟨(h.deliver d).spoken_nil, (h.deliver d).spoken_nil, rfl, h.deliver d⟩
  refine factory.bind (fun provider => meets_given fun returned => ?_)
    fun _ _ h => h.2.spoken_nil
  apply operation_tells
  cases hf : H.factory d.instanceId d.configuration d.credentials d.network with
  | ok p =>
    rw [hf] at returned
    cases returned
    rfl
  | error e =>
    rw [hf] at returned
    cases returned

end Operation

/-! ## The session -/

section Session

variable {H : Host A}

/-- What is owed in front of the operation: silence, or a failure behind what is spoken. -/
def Quiet (H : Host A) {α : Type} : Except Failure α → Trace A → Prop
  | .ok _, t => Silent t
  | .error _, t => Spoken H t

/-- A task in front of the operation. -/
abbrev TaskQuiet (H : Host A) {α : Type} (m : TaskM (sig A) α) : Prop :=
  TaskM.Meets (Spoken H) (fun _ => true) Silent m (Quiet H)

/-- A send that answers nothing. -/
theorem send_quiet {e : Event K} (plain : e.isAnswer = false) :
    TaskQuiet H (TaskM.send e) := by
  have off (t : Trace A) (h : Silent t) : Spoken H (t ++ [.offered e]) :=
    (h.plain plain).1.spoken_nil
  have out (t : Trace A) (h : Silent t) : Spoken H (t ++ [.offered e] ++ [.sent e]) :=
    (h.plain plain).2.spoken_nil
  exact .send (fun _ t h => h.spoken_nil) (fun t h => ⟨off t h, fun _ => off t h⟩)
    (fun t h => ⟨out t h, (h.plain plain).2⟩) fun _ t h _ => out t h

theorem set_quiet (f : Output → Output) : TaskQuiet H (TaskM.set f) := .set fun _ h => h

theorem greeting_plain (contract : RequestContract) (networkRequested : Bool) :
    (greeting A contract networkRequested).isAnswer = false := by
  unfold greeting
  dsimp only
  split <;> rfl

theorem next_quiet : TaskQuiet H (next H) := by
  have read : TaskQuiet H TaskM.frame :=
    .frame (fun _ _ h => h.spoken_nil) fun f t h => ⟨(h.received f).spoken_nil, h.received f⟩
  refine read.bind (fun frame => ?_) fun _ _ h => h
  split
  · exact .fail fun _ h => h.spoken_nil
  · exact .pure fun _ h => h

theorem session_speaks (networkEnabled : Bool) :
    TaskM.Meets (Spoken H) (fun _ => true) (Silent (A := A)) (session H networkEnabled)
      fun _ => Spoken H := by
  have ends {m : TaskM (sig A) Unit} (h : TaskQuiet H m) :
      TaskM.Meets (Spoken H) (fun _ => true) Silent m fun _ => Spoken H :=
    h.imp (fun _ h => h) fun r t quiet => by
      cases r with
      | ok => exact quiet.spoken_nil
      | error => exact quiet
  have fails (f : Failure) : TaskQuiet H (TaskM.fail f : TaskM (sig A) Unit) :=
    .fail fun _ h => h.spoken_nil
  refine next_quiet.bind (fun request => ?_) fun _ _ h => h
  refine (set_quiet _).bind (fun _ => ?_) fun _ _ h => h
  split
  case h_2 => exact ends (fails _)
  refine .ite (fun _ => ends (fails _)) fun _ => ?_
  refine (send_quiet (greeting_plain _ _)).bind (fun _ => ?_) fun _ _ h => h
  refine next_quiet.bind (fun second => .ite (fun _ => ends (fails _)) fun _ => ?_) fun _ _ h => h
  split
  · -- describe
    exact ends ((set_quiet _).bind (fun _ => .ite (fun _ => fails _) fun _ => send_quiet rfl)
      fun _ _ h => h)
  · -- describe_auth
    refine (set_quiet _).bind (fun _ => ?_) fun _ _ h => h
    split
    · exact ends (fails _)
    · exact ends (.ite (fun _ => fails _) fun _ => send_quiet rfl)
  · -- cancel
    exact ends (fails _)
  · -- check and discover
    case h_4 check configuration credentials network _ =>
    refine .ite (fun _ => ends (fails _)) fun _ => (set_quiet _).bind (fun _ => ?_) fun _ _ h => h
    refine .ite (fun _ => ends (fails _)) fun _ => .ite (fun _ => ends (fails _)) fun _ => ?_
    exact .select (Spoken H) (fun t h => ⟨fun _ => h, fun f => ⟨h.received f, h.received f⟩, h⟩)
      (fun _ h => h.spoken_nil) (operate_tells check ⟨_, configuration, credentials, network⟩)
  · exact ends (fails _)

/-- The event that ends a failed session answers nothing. -/
theorem serve_speaks (H : Host A) (networkEnabled : Bool) :
    (serveInternal H networkEnabled).Keeps (Spoken H) (fun _ => true) (fun _ _ => True) [] := by
  apply session_speaks networkEnabled _ _ [] ⟨rfl, rfl, rfl⟩
  intro r t h
  cases r with
  | ok => trivial
  | error f =>
    cases f <;>
      exact ⟨fun _ => trivial, ⟨(h.plain rfl).1, fun _ => trivial⟩, (h.plain rfl).2,
        fun _ _ => trivial, trivial⟩

/-- Every run says only what is answered to its delivery. -/
theorem Session.run_spoken {networkEnabled : Bool} {signals : List Signal} {m : Machine (sig A)}
    (run : (start H networkEnabled).run (port H) signals = some m) : Spoken H m.link.trace :=
  (Task.run_keeps (Stand.spoken_nil ⟨rfl, rfl, rfl⟩) (serve_speaks H networkEnabled)
    (Machine.along_all (fun m s => m.settles_lossy _ s) signals _) run).trace

/-- **The answers of a session are an initial part of the answer of its provider.** In every run,
whose answers are sent in the order in which they are begun, either no answer is begun, or there is
exactly one delivery and what is begun is an initial part of the answer to it. -/
theorem Session.spoken {networkEnabled : Bool} {signals : List Signal} {m : Machine (sig A)}
    (run : (start H networkEnabled).run (port H) signals = some m) :
    answers (sent m.link.trace) <+: answers (begun m.link.trace) ∧
      (answers (begun m.link.trace) = [] ∨ ∃ d check events, deliveries m.link.trace = [d] ∧
        answer H check d.instanceId d.configuration d.credentials d.network = .ok events ∧
          answers (begun m.link.trace) <+: events) := by
  obtain ⟨order, silent | ⟨d, events, one, ⟨check, answered⟩, part⟩⟩ := Session.run_spoken run
  · exact ⟨order, .inl silent⟩
  · exact ⟨order, .inr ⟨d, check, events, one, answered, part⟩⟩

end Session

/-- The complete frame of an empty organization. -/
theorem Session.spoken_discovery :
    ∃ m, (start Sample.host false).run (port Sample.host) Sample.opening = some m ∧
      answers (begun m.link.trace) ≠ [] ∧
      answers (sent m.link.trace) <+: answers (begun m.link.trace) ∧
      (answers (begun m.link.trace) = [] ∨ ∃ d check events, deliveries m.link.trace = [d] ∧
        answer Sample.host check d.instanceId d.configuration d.credentials d.network =
            .ok events ∧ answers (begun m.link.trace) <+: events) := by
  have told : ((start Sample.host false).run (port Sample.host) Sample.opening).any
      (fun m => (begun m.link.trace).any Event.isAnswer) = true := by decide +kernel
  obtain ⟨m, run, some⟩ := (Option.any_eq_true _ _).mp told
  obtain ⟨e, seen, answer⟩ := List.any_eq_true.mp some
  exact ⟨m, run, List.ne_nil_of_mem (List.mem_filter.mpr ⟨seen, answer⟩), Session.spoken run⟩

end Permesh.Native

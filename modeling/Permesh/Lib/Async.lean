import Permesh.Lib.ScheduleLaws

/-!
# Async functions as tasks

An async function in continuation-passing style: given what follows, it builds the tree of
suspensions of the whole. `?` of the source is the bind, so a body reads as it does there.

`JobM.Meets` and `TaskM.Meets` are the pre- and postconditions of such functions over traces, with
one rule for each way to build one. `TaskM.Meets.keeps` hands the result to the run law.
-/

namespace Permesh.Lib

variable {σ : Sig} {α β : Type}

/-! ## Jobs -/

/-- An async function that runs inside a race. -/
def JobM (σ : Sig) (α : Type) : Type := (Except σ.Fail α → Job σ) → Job σ

/-- What follows an outcome: `f`, or a way out with the failure. -/
def JobM.follow (f : β → JobM σ α) (k : Except σ.Fail α → Job σ) : Except σ.Fail β → Job σ
  | .ok b => f b k
  | .error e => k (.error e)

instance : Monad (JobM σ) where
  pure a := fun k => k (.ok a)
  bind m f := fun k => m (JobM.follow f k)

theorem JobM.ext_outcome {m : JobM σ β} {k k' : Except σ.Fail β → Job σ}
    (ok : ∀ b, k (.ok b) = k' (.ok b)) (error : ∀ e, k (.error e) = k' (.error e)) :
    m k = m k' :=
  congrArg m (funext fun r => match r with
    | .ok b => ok b
    | .error e => error e)

instance : LawfulMonad (JobM σ) := LawfulMonad.mk' (JobM σ)
  (fun m => funext fun _ => JobM.ext_outcome (m := m) (fun _ => rfl) fun _ => rfl)
  (fun _ _ => rfl)
  (fun m _ _ => funext fun _ => JobM.ext_outcome (m := m) (fun _ => rfl) fun _ => rfl)

def JobM.fail (e : σ.Fail) : JobM σ α := fun k => k (.error e)

/-- Sends one event and awaits the flush. -/
def JobM.send (e : σ.Event) : JobM σ Unit := fun k => .send e k

/-- Awaits an outside call, which returns `answer`. -/
def JobM.call (c : σ.Call) (answer : Except σ.Fail α) : JobM σ α := fun k => .call c (k answer)

/-- An uninterrupted send that is awaited: it fails before the writer sees it, or goes out. -/
theorem JobM.exec_send {p : Port σ} {e : σ.Event} {f : Unit → JobM σ α}
    {k : Except σ.Fail α → Job σ} {out : σ.Out} :
    ((JobM.send e >>= f) k).exec p out =
      match p.begin out e with
      | .error err => (k (.error err)).exec p out
      | .ok (_, out') => (e :: ((f () k).exec p out').1, ((f () k).exec p out').2) := by
  show (Job.send e _).exec p out = _
  rw [Job.exec]
  cases p.begin out e <;> rfl

theorem JobM.exec_call {p : Port σ} {c : σ.Call} {answer : Except σ.Fail β} {f : β → JobM σ α}
    {k : Except σ.Fail α → Job σ} {out : σ.Out} :
    ((JobM.call c answer >>= f) k).exec p out =
      match answer with
      | .ok b => (f b k).exec p out
      | .error e => (k (.error e)).exec p out := by
  cases answer <;> rfl

/-- The last send of an uninterrupted job goes out or not at all. -/
theorem JobM.exec_last {p : Port σ} {e : σ.Event} {out : σ.Out} :
    (Job.exec p (JobM.send e .done) out).1 = [] ∨
      (Job.exec p (JobM.send e .done) out).1 = [e] := by
  show (Job.exec p (.send e .done) out).1 = [] ∨ (Job.exec p (.send e .done) out).1 = [e]
  rw [Job.exec]
  cases p.begin out e with
  | error => exact .inl rfl
  | ok => exact .inr rfl

/-! ## Tasks -/

/-- An async function that owns the input. -/
def TaskM (σ : Sig) (α : Type) : Type := (Except σ.Fail α → Task σ) → Task σ

def TaskM.follow (f : β → TaskM σ α) (k : Except σ.Fail α → Task σ) : Except σ.Fail β → Task σ
  | .ok b => f b k
  | .error e => k (.error e)

instance : Monad (TaskM σ) where
  pure a := fun k => k (.ok a)
  bind m f := fun k => m (TaskM.follow f k)

def TaskM.fail (e : σ.Fail) : TaskM σ α := fun k => k (.error e)

/-- Awaits one frame, for a limited time. -/
def TaskM.frame : TaskM σ σ.Frame := fun k => .frame k

def TaskM.send (e : σ.Event) : TaskM σ Unit := fun k => .send e k

/-- Assigns to the output. -/
def TaskM.set (f : σ.Out → σ.Out) : TaskM σ Unit := fun k => .set f (k (.ok ()))

/-- Races a job, under a deadline, against the input. -/
def TaskM.select (job : JobM σ Unit) (outcome : Winner σ → Except σ.Fail Unit) : TaskM σ Unit :=
  fun k => .select (job .done) fun w => k (outcome w)

/-! ## Pre- and postconditions -/

section Meets

variable (safe : List (Item σ) → Prop) (lossy : σ.Event → Bool)

/-- From a trace that meets `pre` on, the job keeps the trace safe and may be dropped at any await,
and `post` holds of its outcome. -/
def JobM.Meets (drop pre : List (Item σ) → Prop) (m : JobM σ α)
    (post : Except σ.Fail α → List (Item σ) → Prop) : Prop :=
  ∀ fin k t, pre t → (∀ r u, post r u → (k r).Keeps safe lossy drop fin u) →
    (m k).Keeps safe lossy drop fin t

/-- From a trace that meets `pre` on, the task keeps the trace safe, and `post` holds of its
outcome. -/
def TaskM.Meets (pre : List (Item σ) → Prop) (m : TaskM σ α)
    (post : Except σ.Fail α → List (Item σ) → Prop) : Prop :=
  ∀ fin k t, pre t → (∀ r u, post r u → (k r).Keeps safe lossy fin u) →
    (m k).Keeps safe lossy fin t

end Meets

section Rules

variable {safe drop pre : List (Item σ) → Prop} {lossy : σ.Event → Bool}
  {post : Except σ.Fail α → List (Item σ) → Prop}

theorem JobM.Meets.pure {a : α} (h : ∀ t, pre t → post (.ok a) t) :
    JobM.Meets safe lossy drop pre (pure a) post :=
  fun _ _ t hp hk => hk _ t (h t hp)

theorem JobM.Meets.fail {e : σ.Fail} (h : ∀ t, pre t → post (.error e) t) :
    JobM.Meets safe lossy drop pre (JobM.fail e) post :=
  fun _ _ t hp hk => hk _ t (h t hp)

theorem JobM.Meets.bind {m : JobM σ β} {f : β → JobM σ α}
    {mid : Except σ.Fail β → List (Item σ) → Prop} (hm : JobM.Meets safe lossy drop pre m mid)
    (hf : ∀ b, JobM.Meets safe lossy drop (mid (.ok b)) (f b) post)
    (he : ∀ e t, mid (.error e) t → post (.error e) t) :
    JobM.Meets safe lossy drop pre (m >>= f) post := by
  intro fin k t hp hk
  apply hm fin _ t hp
  intro r u hu
  cases r with
  | ok b => exact hf b fin k u hu hk
  | error e => exact hk _ u (he e u hu)

/-- A send owes its failure before the last byte, after it if the event is lossy, and its
success. -/
theorem JobM.Meets.send {e : σ.Event} {post : Except σ.Fail Unit → List (Item σ) → Prop}
    (hf : ∀ f t, pre t → post (.error f) t)
    (ho : ∀ t, pre t → safe (t ++ [.offered e]) ∧ drop (t ++ [.offered e]) ∧
      ∀ f, post (.error f) (t ++ [.offered e]))
    (hs : ∀ t, pre t → safe (t ++ [.offered e] ++ [.sent e]) ∧
      post (.ok ()) (t ++ [.offered e] ++ [.sent e]))
    (hl : lossy e → ∀ t, pre t → drop (t ++ [.offered e] ++ [.sent e]) ∧
      ∀ f, post (.error f) (t ++ [.offered e] ++ [.sent e])) :
    JobM.Meets safe lossy drop pre (JobM.send e) post :=
  fun _ _ t hp hk =>
    ⟨fun f => hk _ _ (hf f t hp),
      ⟨(ho t hp).1, (ho t hp).2.1, fun f => hk _ _ ((ho t hp).2.2 f)⟩, (hs t hp).1,
      fun loses => ⟨(hl loses t hp).1, fun f => hk _ _ ((hl loses t hp).2 f)⟩,
      hk _ _ (hs t hp).2⟩

theorem JobM.Meets.call {c : σ.Call} {answer : Except σ.Fail α}
    (h : ∀ t, pre t → safe (t ++ [.called c]) ∧ drop (t ++ [.called c]) ∧
      post answer (t ++ [.called c])) :
    JobM.Meets safe lossy drop pre (JobM.call c answer) post :=
  fun _ _ t hp hk => ⟨(h t hp).1, (h t hp).2.1, hk _ _ (h t hp).2.2⟩

theorem JobM.Meets.ite {c : Prop} [Decidable c] {m n : JobM σ α}
    (hm : c → JobM.Meets safe lossy drop pre m post)
    (hn : ¬c → JobM.Meets safe lossy drop pre n post) :
    JobM.Meets safe lossy drop pre (if c then m else n) post := by
  split
  case isTrue h => exact hm h
  case isFalse h => exact hn h

/-- A weaker precondition and a stronger postcondition. -/
theorem JobM.Meets.imp {m : JobM σ α} {pre' : List (Item σ) → Prop}
    {post' : Except σ.Fail α → List (Item σ) → Prop} (h : JobM.Meets safe lossy drop pre m post)
    (hpre : ∀ t, pre' t → pre t) (hpost : ∀ r t, post r t → post' r t) :
    JobM.Meets safe lossy drop pre' m post' :=
  fun fin k t hp hk => h fin k t (hpre t hp) fun r u hu => hk r u (hpost r u hu)

theorem TaskM.Meets.pure {a : α} (h : ∀ t, pre t → post (.ok a) t) :
    TaskM.Meets safe lossy pre (pure a) post :=
  fun _ _ t hp hk => hk _ t (h t hp)

theorem TaskM.Meets.fail {e : σ.Fail} (h : ∀ t, pre t → post (.error e) t) :
    TaskM.Meets safe lossy pre (TaskM.fail e) post :=
  fun _ _ t hp hk => hk _ t (h t hp)

theorem TaskM.Meets.bind {m : TaskM σ β} {f : β → TaskM σ α}
    {mid : Except σ.Fail β → List (Item σ) → Prop} (hm : TaskM.Meets safe lossy pre m mid)
    (hf : ∀ b, TaskM.Meets safe lossy (mid (.ok b)) (f b) post)
    (he : ∀ e t, mid (.error e) t → post (.error e) t) :
    TaskM.Meets safe lossy pre (m >>= f) post := by
  intro fin k t hp hk
  apply hm fin _ t hp
  intro r u hu
  cases r with
  | ok b => exact hf b fin k u hu hk
  | error e => exact hk _ u (he e u hu)

theorem TaskM.Meets.frame {post : Except σ.Fail σ.Frame → List (Item σ) → Prop}
    (he : ∀ f t, pre t → post (.error f) t)
    (hr : ∀ f t, pre t → safe (t ++ [.received f]) ∧ post (.ok f) (t ++ [.received f])) :
    TaskM.Meets safe lossy pre TaskM.frame post :=
  fun _ _ t hp hk => ⟨fun f => hk _ _ (he f t hp),
    fun f => ⟨(hr f t hp).1, hk _ _ (hr f t hp).2⟩⟩

theorem TaskM.Meets.send {e : σ.Event} {post : Except σ.Fail Unit → List (Item σ) → Prop}
    (hf : ∀ f t, pre t → post (.error f) t)
    (ho : ∀ t, pre t → safe (t ++ [.offered e]) ∧ ∀ f, post (.error f) (t ++ [.offered e]))
    (hs : ∀ t, pre t → safe (t ++ [.offered e] ++ [.sent e]) ∧
      post (.ok ()) (t ++ [.offered e] ++ [.sent e]))
    (hl : lossy e → ∀ t, pre t → ∀ f, post (.error f) (t ++ [.offered e] ++ [.sent e])) :
    TaskM.Meets safe lossy pre (TaskM.send e) post :=
  fun _ _ t hp hk =>
    ⟨fun f => hk _ _ (hf f t hp), ⟨(ho t hp).1, fun f => hk _ _ ((ho t hp).2 f)⟩, (hs t hp).1,
      fun loses f => hk _ _ (hl loses t hp f), hk _ _ (hs t hp).2⟩

theorem TaskM.Meets.set {f : σ.Out → σ.Out} {post : Except σ.Fail Unit → List (Item σ) → Prop}
    (h : ∀ t, pre t → post (.ok ()) t) : TaskM.Meets safe lossy pre (TaskM.set f) post :=
  fun _ _ t hp hk => hk _ t (h t hp)

/-- A race owes the postcondition for every winner. What holds whenever the job can be dropped
(`drop`) has to be enough for the input and the deadline. -/
theorem TaskM.Meets.select {job : JobM σ Unit} {outcome : Winner σ → Except σ.Fail Unit}
    {post : Except σ.Fail Unit → List (Item σ) → Prop} (drop : List (Item σ) → Prop)
    (hd : ∀ t, drop t → (∀ f, post (outcome (.input (.error f))) t) ∧
      (∀ f, safe (t ++ [.received f]) ∧ post (outcome (.input (.ok f))) (t ++ [.received f])) ∧
      post (outcome .deadline) t)
    (hp : ∀ t, pre t → drop t)
    (hj : JobM.Meets safe lossy drop pre job fun r t => post (outcome (.job r)) t) :
    TaskM.Meets safe lossy pre (TaskM.select job outcome) post := by
  intro fin k t ht hk
  have drops : ∀ u, drop u →
      Winner.Drops safe (fun w v => (k (outcome w)).Keeps safe lossy fin v) u := fun u hu =>
    ⟨fun f => hk _ _ ((hd u hu).1 f), fun f => ⟨((hd u hu).2.1 f).1, hk _ _ ((hd u hu).2.1 f).2⟩,
      hk _ _ (hd u hu).2.2⟩
  refine ⟨drops t (hp t ht), ?_⟩
  exact Job.Keeps.mono drops (fun r u (hu : post (outcome (.job r)) u) => hk _ u hu) _ t
    (hj (fun r u => post (outcome (.job r)) u) .done t ht fun _ _ h => h)

theorem TaskM.Meets.ite {c : Prop} [Decidable c] {m n : TaskM σ α}
    (hm : c → TaskM.Meets safe lossy pre m post) (hn : ¬c → TaskM.Meets safe lossy pre n post) :
    TaskM.Meets safe lossy pre (if c then m else n) post := by
  split
  case isTrue h => exact hm h
  case isFalse h => exact hn h

/-- A fact about what was returned so far moves out of the precondition. -/
theorem TaskM.Meets.assume {ι : Type} {c : ι → Prop} {pre : ι → List (Item σ) → Prop}
    {m : TaskM σ α} (h : ∀ i, c i → TaskM.Meets safe lossy (pre i) m post) :
    TaskM.Meets safe lossy (fun t => ∃ i, c i ∧ pre i t) m post :=
  fun fin k t ⟨i, hc, hp⟩ hk => h i hc fin k t hp hk

theorem TaskM.Meets.imp {m : TaskM σ α} {pre' : List (Item σ) → Prop}
    {post' : Except σ.Fail α → List (Item σ) → Prop} (h : TaskM.Meets safe lossy pre m post)
    (hpre : ∀ t, pre' t → pre t) (hpost : ∀ r t, post r t → post' r t) :
    TaskM.Meets safe lossy pre' m post' :=
  fun fin k t hp hk => h fin k t (hpre t hp) fun r u hu => hk r u (hpost r u hu)

end Rules

end Permesh.Lib

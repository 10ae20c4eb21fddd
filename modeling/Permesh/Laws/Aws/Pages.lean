import Permesh.Aws.Client
import Permesh.Laws.Aws.Order

/-!
# Laws.Aws.Pages — how the page loop ends

Each page but the last one is truncated, and its marker, which did not occur before, is sent with the
next request (`Chain`). The loop ends in one of few ways (`pages_ends`): behind a page that is not
truncated, with a request that fails, with a marker that cannot be followed, or at a limit.

The chain of pages is the invariant of the loop; conversely the loop goes along any chain it is given
(`pages_chain`). What the rows of a page are worth is said elsewhere.
-/

namespace Permesh.Aws

open Permesh.Lib

/-! ## Requests and markers -/

/-- A marker that may be sent. -/
structure GoodMarker (m : String) : Prop where
  filled : m ≠ ""
  short : Text.len m ≤ 4096
  clean : m.toList.any Text.isControl = false

/-- The marker behind some pages. -/
def behind (marker : Option String) : List Output → Option String
  | [] => marker
  | o :: outputs => behind o.marker outputs

/-- The requests for some pages with their answers: each but the first one sends the marker of the
page before. -/
def exchanges (marker : Option String) : List Output → List Exchange
  | [] => []
  | o :: outputs => (request marker 100, .ok o) :: exchanges o.marker outputs

theorem answers_exchanges (marker : Option String) (outputs : List Output) :
    (exchanges marker outputs).map (fun e => e.2.toOption) = outputs.map some := by
  induction outputs generalizing marker with
  | nil => rfl
  | cons o outputs ih => exact congrArg (some o :: ·) (ih o.marker)

/-- The markers of some pages. -/
def seen (outputs : List Output) : Std.ExtTreeSet String :=
  outputs.foldl (fun s o => o.marker.elim s s.insert) ∅

theorem behind_append (marker : Option String) (outputs : List Output) (o : Output) :
    behind marker (outputs ++ [o]) = o.marker := by
  induction outputs generalizing marker with
  | nil => rfl
  | cons o' outputs ih => exact ih o'.marker

theorem exchanges_append (marker : Option String) (outputs : List Output) (o : Output) :
    exchanges marker (outputs ++ [o]) =
      exchanges marker outputs ++ [(request (behind marker outputs) 100, .ok o)] := by
  induction outputs generalizing marker with
  | nil => rfl
  | cons o' outputs ih =>
    rw [List.cons_append, exchanges, ih, exchanges, behind, List.cons_append]

theorem length_exchanges (marker : Option String) (outputs : List Output) :
    (exchanges marker outputs).length = outputs.length := by
  induction outputs generalizing marker with
  | nil => rfl
  | cons o outputs ih => rw [exchanges, List.length_cons, List.length_cons, ih]

theorem seen_append (outputs : List Output) (o : Output) {m : String} (h : o.marker = some m) :
    seen (outputs ++ [o]) = (seen outputs).insert m := by
  rw [seen, List.foldl_append, List.foldl_cons, List.foldl_nil, h]
  rfl

theorem mem_seen {outputs : List Output} {m : String} :
    m ∈ seen outputs ↔ some m ∈ outputs.map (·.marker) := by
  refine foldl_rule (fun before (s : Std.ExtTreeSet String) =>
    m ∈ s ↔ some m ∈ before.map (·.marker)) ?_ (fun before o s h => ?_) outputs
  · simp
  rw [List.map_append, List.mem_append, List.map_singleton, List.mem_singleton]
  cases o.marker with
  | none => simpa using h
  | some m' =>
    rw [Option.elim_some, mem_insert_key, h, Option.some.injEq, or_comm, eq_comm]

/-! ## The loop -/

/-- The answers to the requests of a log. -/
def Answered (services : Services) (log : List Exchange) : Prop :=
  ∀ i e, log[i]? = some e → services.iam i e.1 = e.2

theorem Answered.append {services : Services} {log : List Exchange} (h : Answered services log)
    {e : Exchange} (answer : services.iam log.length e.1 = e.2) : Answered services (log ++ [e]) := by
  intro i e' there
  rcases Nat.lt_or_ge i log.length with lt | ge
  · rw [List.getElem?_append_left lt] at there
    exact h i e' there
  · rw [List.getElem?_append_right ge, List.getElem?_singleton] at there
    split at there
    case isTrue last =>
      cases there
      rwa [show i = log.length by omega]
    case isFalse => cases there

theorem Answered.of_append {services : Services} {log log' : List Exchange}
    (h : Answered services (log ++ log')) : Answered services log := by
  intro i e there
  apply h i e
  rw [List.getElem?_append_left (List.getElem?_eq_some_iff.mp there).1, there]

/-- Pages that were read, each of which asks for one more. -/
structure Chain (services : Services) (outputs : List Output) : Prop where
  answered : Answered services (exchanges none outputs)
  truncated : ∀ o ∈ outputs, o.isTruncated = true
  markers : ∀ o ∈ outputs, ∃ m, o.marker = some m ∧ GoodMarker m
  once : (outputs.map (·.marker)).Nodup
  small : (rowsOf outputs).total ≤ MAX_ROWS

theorem chain_nil (services : Services) : Chain services [] :=
  ⟨fun _ _ h => (by cases h), nofun, nofun, List.nodup_nil, Nat.zero_le _⟩

/-- The run behind some pages. -/
def after (outputs : List Output) : Run :=
  ⟨rowsOf outputs, behind none outputs, seen outputs, exchanges none outputs⟩

/-- The run behind some pages with one more request. -/
def asked (outputs : List Output) (answer : Answer Output) : Run :=
  { after outputs with
    log := exchanges none outputs ++ [(request (behind none outputs) 100, answer)] }

/-- The marker of a page is followed if it may be sent and was not seen before. -/
theorem follow_iff {outputs : List Output} {marker : Option String} {m : String} :
    (after outputs).follow marker = some m ↔
      marker = some m ∧ GoodMarker m ∧ some m ∉ outputs.map (·.marker) := by
  rw [Run.follow, Option.filter_eq_some_iff]
  simp only [Bool.and_eq_true, bne_iff_ne, decide_eq_true_eq, Bool.not_eq_true']
  rw [← mem_seen]
  constructor
  · rintro ⟨rfl, ⟨⟨filled, short⟩, clean⟩, fresh⟩
    exact ⟨rfl, ⟨filled, short, clean⟩, fresh⟩
  · rintro ⟨rfl, ⟨filled, short, clean⟩, fresh⟩
    exact ⟨rfl, ⟨⟨filled, short⟩, clean⟩, fresh⟩

/-- The run behind some pages: at the last page that is read, with a warning. -/
def reached (outputs : List Output) : Run :=
  if outputs.length = MAX_PAGES then
    { after outputs with collected := (rowsOf outputs).warn "limit" }
  else after outputs

/-- One page more. -/
theorem Chain.next {services : Services} {outputs : List Output} {o : Output} {m : String}
    (chain : Chain services outputs)
    (answer : services.iam outputs.length (request (behind none outputs) 100) = .ok o)
    (truncated : o.isTruncated = true) (small : (rowsOf (outputs ++ [o])).total ≤ MAX_ROWS)
    (follow : (after outputs).follow o.marker = some m) : Chain services (outputs ++ [o]) := by
  obtain ⟨marker, good, fresh⟩ := follow_iff.mp follow
  refine ⟨?_, forall_mem_snoc chain.truncated truncated,
    forall_mem_snoc chain.markers ⟨m, marker, good⟩, ?_, small⟩
  · rw [exchanges_append]
    apply chain.answered.append
    rwa [length_exchanges]
  · rw [List.map_append]
    exact nodup_snoc chain.once fun mem => fresh (marker ▸ mem)

theorem Chain.init {services : Services} {outputs : List Output} {o : Output}
    (chain : Chain services (outputs ++ [o])) : Chain services outputs ∧
      services.iam outputs.length (request (behind none outputs) 100) = .ok o ∧
      ∃ m, (after outputs).follow o.marker = some m := by
  have answered := chain.answered
  rw [exchanges_append] at answered
  have sum := total_rowsOf outputs [o]
  have small := chain.small
  have once := chain.once
  rw [List.map_append, List.nodup_append] at once
  refine ⟨⟨answered.of_append, fun o' mem => chain.truncated o' (List.mem_append_left _ mem),
    fun o' mem => chain.markers o' (List.mem_append_left _ mem), once.1, by omega⟩, ?_, ?_⟩
  · have last := answered outputs.length (request (behind none outputs) 100, .ok o) (by
      rw [List.getElem?_append_right (by rw [length_exchanges]), length_exchanges, Nat.sub_self]
      rfl)
    exact last
  · obtain ⟨m, marker, good⟩ := chain.markers o (by simp)
    refine ⟨m, follow_iff.mpr ⟨marker, good, fun mem => ?_⟩⟩
    exact once.2.2 _ mem _ (by simp [marker]) rfl

/-- Whether a marker is followed depends on the markers before it only. -/
theorem follow_same (r : Run) (collected : Collected) (marker : Option String) (log : List Exchange)
    (next : Option String) : Run.follow ⟨collected, marker, r.markers, log⟩ next = r.follow next := rfl

/-- **What one request does.** -/
theorem pages_step (services : Services) (left : Nat) (outputs : List Output) :
    AwsProvider.pages services (left + 1) outputs.length (after outputs) =
      match services.iam outputs.length (request (behind none outputs) 100) with
      | .error code =>
        if outputs.length = 0 then .error (error (serviceCode code))
        else .ok { asked outputs (.error code) with
          collected := (rowsOf outputs).warn (serviceCode code) }
      | .ok o =>
        if (rowsOf (outputs ++ [o])).total > MAX_ROWS then .error (error "limit")
        else if o.isTruncated = false then
          .ok { asked outputs (.ok o) with
            collected := if o.marker.any (· != "") then (rowsOf (outputs ++ [o])).warn "pagination"
              else rowsOf (outputs ++ [o]) }
        else if (after outputs).follow o.marker = none then
          .ok { asked outputs (.ok o) with
            collected := (rowsOf (outputs ++ [o])).warn "pagination" }
        else AwsProvider.pages services left (outputs ++ [o]).length (reached (outputs ++ [o])) := by
  conv => lhs; unfold AwsProvider.pages
  rw [show (after outputs).marker = behind none outputs from rfl]
  dsimp only
  cases services.iam outputs.length (request (behind none outputs) 100) with
  | error code => rfl
  | ok o =>
    dsimp only
    rw [show (after outputs).collected = rowsOf outputs from rfl, add_rowsOf]
    by_cases exceeds : (rowsOf (outputs ++ [o])).total > MAX_ROWS
    · rw [if_pos exceeds, if_pos exceeds]
    · rw [if_neg exceeds, if_neg exceeds]
      dsimp only
      by_cases last : o.isTruncated = false
      · rw [if_pos last, if_pos last]
        split <;> rfl
      · rw [if_neg last, if_neg last]
        cases follow : (after outputs).follow o.marker with
        | none =>
          rw [if_pos rfl]
          rw [follow_same (after outputs), follow]
          rfl
        | some m =>
          rw [if_neg (by simp)]
          rw [follow_same (after outputs), follow]
          have marker := (follow_iff.mp follow).1
          have grown : after (outputs ++ [o]) = { after outputs with
              collected := rowsOf (outputs ++ [o])
              log := exchanges none outputs ++ [(request (behind none outputs) 100, .ok o)]
              marker := some m
              markers := (seen outputs).insert m } := by
            rw [after, behind_append, seen_append outputs o marker, exchanges_append, marker]
          have length : (outputs ++ [o]).length = outputs.length + 1 := by
            rw [List.length_append, List.length_singleton]
          rw [reached, length, grown]
          rfl

/-- The loop goes through the pages of a chain. -/
theorem pages_chain {services : Services} {outputs : List Output} (chain : Chain services outputs)
    (room : outputs.length ≤ MAX_PAGES) :
    AwsProvider.pages services MAX_PAGES 0 (after []) =
      AwsProvider.pages services (MAX_PAGES - outputs.length) outputs.length (reached outputs) := by
  induction outputs using List.reverseRecOn with
  | nil => rfl
  | append_singleton outputs o ih =>
    obtain ⟨before, answer, m, follow⟩ := chain.init
    rw [List.length_append, List.length_singleton] at room ⊢
    have early : outputs.length ≠ MAX_PAGES := by omega
    rw [ih before (by omega), reached, if_neg early,
      show MAX_PAGES - outputs.length = MAX_PAGES - (outputs.length + 1) + 1 by omega, pages_step,
      answer]
    have small := chain.small
    dsimp only
    rw [if_neg (by omega), if_neg (by rw [chain.truncated o (by simp)]; simp),
      if_neg (by rw [follow]; simp), List.length_append, List.length_singleton]

/-- How the loop ends without an error, behind which pages. -/
inductive Ends (services : Services) : List Output → Run → Prop where
  /-- A page that is not truncated. -/
  | last {outputs : List Output} {o : Output} (chain : Chain services outputs)
      (answer : services.iam outputs.length (request (behind none outputs) 100) = .ok o)
      (room : outputs.length < MAX_PAGES) (small : (rowsOf (outputs ++ [o])).total ≤ MAX_ROWS)
      (whole : o.isTruncated = false) :
      Ends services (outputs ++ [o]) { asked outputs (.ok o) with
        collected := if o.marker.any (· != "") then (rowsOf (outputs ++ [o])).warn "pagination"
          else rowsOf (outputs ++ [o]) }
  /-- A request that fails. -/
  | failed {outputs : List Output} {code : Option String} (chain : Chain services outputs)
      (answer : services.iam outputs.length (request (behind none outputs) 100) = .error code)
      (later : outputs ≠ []) :
      Ends services outputs { asked outputs (.error code) with
        collected := (rowsOf outputs).warn (serviceCode code) }
  /-- A marker that cannot be followed. -/
  | stuck {outputs : List Output} {o : Output} (chain : Chain services outputs)
      (answer : services.iam outputs.length (request (behind none outputs) 100) = .ok o)
      (truncated : o.isTruncated = true) (stop : (after outputs).follow o.marker = none) :
      Ends services (outputs ++ [o]) { asked outputs (.ok o) with
        collected := (rowsOf (outputs ++ [o])).warn "pagination" }
  /-- The limit of pages. -/
  | full {outputs : List Output} (chain : Chain services outputs)
      (length : outputs.length = MAX_PAGES) : Ends services outputs (reached outputs)

/-- **How the loop ends.** -/
theorem pages_ends {services : Services} (left : Nat) {outputs : List Output} {r : Run}
    (chain : Chain services outputs) (room : outputs.length + left = MAX_PAGES)
    (ok : AwsProvider.pages services left outputs.length (reached outputs) = .ok r) :
    ∃ all, Ends services all r := by
  induction left generalizing outputs with
  | zero =>
    cases ok
    exact ⟨outputs, .full chain room⟩
  | succ left ih =>
    rw [reached, if_neg (by omega), pages_step] at ok
    split at ok
    case h_1 code answer =>
      split at ok
      · cases ok
      case isFalse later =>
        cases ok
        exact ⟨outputs, .failed chain answer fun none => later (by rw [none]; rfl)⟩
    case h_2 o answer =>
      split at ok
      · cases ok
      case isFalse small =>
        split at ok
        case isTrue whole =>
          cases ok
          exact ⟨_, .last chain answer (by omega) (Nat.le_of_not_lt small) whole⟩
        case isFalse truncated =>
          rw [Bool.not_eq_false] at truncated
          split at ok
          case isTrue stop =>
            cases ok
            exact ⟨_, .stuck chain answer truncated stop⟩
          case isFalse goes =>
            obtain ⟨m, follow⟩ := Option.ne_none_iff_exists'.mp goes
            refine ih (chain.next answer truncated (Nat.le_of_not_lt small) follow) ?_ ok
            rw [List.length_append, List.length_singleton]
            omega

end Permesh.Aws

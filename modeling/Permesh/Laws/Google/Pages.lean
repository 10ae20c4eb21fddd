import Permesh.Laws.Google.Records

/-!
# Laws.Google.Pages — the page loop

Every page but the last one is taken in as a whole, and goes on with a token that is new. What the
loop ends with is complete exactly when its pages are `Whole`: every page was listed within its
limits, the last one names no other page, and the rows are fine. An error ends the operation on the
first page, and only the collection behind it. No string of an account or an identity contains the
access token (`collect_hides_token`).

A listed page is taken in first (`Read`), and its limits and its token are looked at afterwards, one
lemma for each way to go on. The rows are those of the responses; that Google returns all users is not
claimed.
-/

namespace Permesh.Google

open Permesh.Json Permesh.Lib

variable {provider : GoogleProvider}

/-! ## Pages -/

/-- The rows of a page, or why there are none. -/
def listed (outcome : Except ProviderError Value) : Except ProviderError (List Value) :=
  outcome >>= users

def rowsOf (outcome : Except ProviderError Value) : List Value :=
  (listed outcome).toOption.getD []

/-- The rows that are processed, behind `before` rows: no page gives more than `PAGE_SIZE`, and all
of them no more than `MAX_ROWS`. -/
def taken : Nat → List (Except ProviderError Value) → List Value
  | _, [] => []
  | before, outcome :: outcomes =>
    (rowsOf outcome).take (min PAGE_SIZE (MAX_ROWS - before)) ++
      taken (before + (rowsOf outcome).length) outcomes

theorem taken_append (before : Nat) (outcomes : List (Except ProviderError Value))
    (outcome : Except ProviderError Value) :
    taken before (outcomes ++ [outcome]) = taken before outcomes ++ (rowsOf outcome).take
      (min PAGE_SIZE (MAX_ROWS - (before + (outcomes.flatMap rowsOf).length))) := by
  induction outcomes generalizing before with
  | nil => simp [taken]
  | cons o outcomes ih =>
    rw [List.cons_append, taken, taken, ih, List.flatMap_cons, List.length_append, List.append_assoc,
      Nat.add_assoc]

/-- What a page has under `nextPageToken`. -/
def nextToken (outcome : Except ProviderError Value) : Option Value :=
  outcome.toOption.bind (·.get "nextPageToken")

/-- A page within its limit. -/
def Sized (outcome : Except ProviderError Value) : Prop :=
  ∃ rows, listed outcome = .ok rows ∧ rows.length ≤ PAGE_SIZE

/-- The pages of a listing that missed nothing. -/
structure Whole (provider : GoogleProvider) (outcomes : List (Except ProviderError Value)) :
    Prop where
  sized : ∀ outcome ∈ outcomes, Sized outcome
  total : (outcomes.flatMap rowsOf).length ≤ MAX_ROWS
  /-- Every page but the last one has a token, and the last one does not have the field. -/
  tokens : ∃ tokens : List String,
    outcomes.map nextToken = tokens.map (fun token => some (.string token)) ++ [none] ∧
      tokens.Nodup ∧ ∀ token ∈ tokens, GoogleProvider.goodToken token = true
  fine : provider.Fine (outcomes.flatMap rowsOf)

/-! ## Between two pages -/

/-- The collection when the loop goes on. -/
structure Going (provider : GoogleProvider) (p : Progress) (tokens : List String) : Prop where
  sized : ∀ outcome ∈ p.outcomes, Sized outcome
  next : p.outcomes.map nextToken = tokens.map fun token => some (.string token)
  known : ∀ token, token ∈ p.tokens ↔ token ∈ tokens
  once : tokens.Nodup
  good : ∀ token ∈ tokens, GoogleProvider.goodToken token = true
  rows : p.rows = (p.outcomes.flatMap rowsOf).length
  below : p.rows < MAX_ROWS
  uncut : taken 0 p.outcomes = p.outcomes.flatMap rowsOf
  behind : Behind provider (p.outcomes.flatMap rowsOf) p
  judged : Judged provider (p.outcomes.flatMap rowsOf) p
  asked : p.wire.queries.length = p.outcomes.length

/-- The collection when the loop has ended. Only the last page may have been cut. -/
structure Collected (provider : GoogleProvider) (p : Progress) : Prop where
  behind : Behind provider (taken 0 p.outcomes) p
  complete : p.snapshot.complete = true ↔ Whole provider p.outcomes
  uncut : ∃ before last, p.outcomes = before ++ [last] ∧ taken 0 before = before.flatMap rowsOf
  asked : p.wire.queries.length = p.outcomes.length

theorem going_start : Going provider provider.start [] where
  sized _ mem := by cases mem
  next := rfl
  known token := by simp [GoogleProvider.start]
  once := List.nodup_nil
  good _ mem := by cases mem
  rows := rfl
  below := (by decide : 0 < MAX_ROWS)
  uncut := rfl
  behind := ⟨rfl, rfl, rfl⟩
  judged := by simp [Judged, GoogleProvider.start, Snapshot.new, GoogleProvider.Fine.mk]
  asked := rfl

/-- A page that is not listed misses something. -/
theorem not_whole {outcomes : List (Except ProviderError Value)}
    {outcome : Except ProviderError Value} {failure : ProviderError}
    (h : listed outcome = .error failure) : ¬ Whole provider (outcomes ++ [outcome]) := by
  intro whole
  obtain ⟨rows, ok, -⟩ := whole.sized outcome (by simp)
  rw [h] at ok
  cases ok

/-- When one more page makes a listing whole. -/
theorem Going.whole_iff {p : Progress} {tokens : List String} (h : Going provider p tokens)
    {values : Value} {rows : List Value} (ok : users values = .ok rows) :
    Whole provider (p.outcomes ++ [.ok values]) ↔
      rows.length ≤ PAGE_SIZE ∧ p.rows + rows.length ≤ MAX_ROWS ∧
        values.get "nextPageToken" = none ∧ provider.Fine (p.outcomes.flatMap rowsOf ++ rows) := by
  have list : listed (.ok values) = .ok rows := ok
  have all : (p.outcomes ++ [Except.ok values]).flatMap rowsOf = p.outcomes.flatMap rowsOf ++ rows := by
    rw [List.flatMap_append, List.flatMap_singleton, rowsOf, list]
    rfl
  constructor
  · intro whole
    have total := whole.total
    have fine := whole.fine
    rw [all] at total fine
    obtain ⟨rows', ok', le⟩ := whole.sized (.ok values) (by simp)
    cases list.symm.trans ok'
    obtain ⟨tokens', next, -⟩ := whole.tokens
    rw [List.map_append] at next
    have last := (List.append_inj' next rfl).2
    refine ⟨le, ?_, (List.cons.inj last).1, fine⟩
    rw [h.rows, ← List.length_append]
    exact total
  · rintro ⟨le, total, last, fine⟩
    constructor
    · exact forall_mem_snoc h.sized ⟨rows, list, le⟩
    · rw [all, List.length_append, ← h.rows]
      exact total
    · refine ⟨tokens, ?_, h.once, h.good⟩
      rw [List.map_append, h.next, List.map_singleton, nextToken]
      exact congrArg _ (congrArg (fun o => [o]) last)
    · rw [all]
      exact fine

/-! ## One turn -/

/-- What a page has brought, before its rows are taken. -/
def GoogleProvider.asked (provider : GoogleProvider) (p : Progress) : Progress :=
  { p with
    wire := (provider.page p.token PAGE_SIZE p.wire).2
    outcomes := p.outcomes ++ [(provider.page p.token PAGE_SIZE p.wire).1] }

theorem turn_error {page : Nat} {p : Progress} {failure : ProviderError}
    (h : listed (provider.page p.token PAGE_SIZE p.wire).1 = .error failure) :
    provider.turn page p =
      if page = 0 then (provider.asked p, .fails failure)
      else ({ provider.asked p with snapshot := fail p.snapshot failure }, .stops) := by
  unfold GoogleProvider.turn GoogleProvider.asked
  generalize provider.page p.token PAGE_SIZE p.wire = result at *
  obtain ⟨_ | values, wire⟩ := result
  · cases h
    rfl
  · change users values = _ at h
    simp only [bind, Except.bind, h]

theorem turn_ok {page : Nat} {p : Progress} {values : Value} {rows : List Value}
    (h : (provider.page p.token PAGE_SIZE p.wire).1 = .ok values) (ok : users values = .ok rows) :
    provider.turn page p = provider.receive page (provider.asked p) values rows := by
  unfold GoogleProvider.turn GoogleProvider.asked
  generalize provider.page p.token PAGE_SIZE p.wire = result at *
  obtain ⟨outcome, wire⟩ := result
  cases h
  simp only [bind, Except.bind, ok, pure, Except.pure]

/-- How a turn ends that the loop was going on to. -/
inductive Ends (provider : GoogleProvider) (page : Nat) (p : Progress) : Progress × Turn → Prop where
  | fails {p' : Progress} {failure : ProviderError} (first : page = 0)
      (error : listed (provider.page p.token PAGE_SIZE p.wire).1 = .error failure) :
      Ends provider page p (p', .fails failure)
  | stops {p' : Progress} (collected : Collected provider p')
      (pages : p'.outcomes.length = p.outcomes.length + 1) : Ends provider page p (p', .stops)
  | continues {p' : Progress} {tokens : List String} (going : Going provider p' tokens)
      (pages : p'.outcomes.length = p.outcomes.length + 1) (more : page + 1 ≠ MAX_PAGES) :
      Ends provider page p (p', .continues)

/-- The collection behind the rows of a page, before its limits and its token are looked at. -/
structure Taken (provider : GoogleProvider) (p : Progress) : Prop where
  behind : Behind provider (taken 0 p.outcomes) p
  judged : Judged provider (taken 0 p.outcomes) p
  uncut : ∃ before last, p.outcomes = before ++ [last] ∧ taken 0 before = before.flatMap rowsOf
  asked : p.wire.queries.length = p.outcomes.length

/-- The loop ends without a failure. -/
theorem Taken.ends {p : Progress} (h : Taken provider p)
    (whole : Whole provider p.outcomes ↔ provider.Fine (taken 0 p.outcomes)) :
    Collected provider p :=
  ⟨h.behind, h.judged.trans whole.symm, h.uncut, h.asked⟩

/-- The loop ends with a failure, behind pages that miss something. -/
theorem Taken.misses {p : Progress} (h : Taken provider p) (missed : ¬ Whole provider p.outcomes)
    (failure : ProviderError) : Collected provider { p with snapshot := fail p.snapshot failure } :=
  ⟨⟨h.behind.single, h.behind.bare⟩,
    ⟨fun complete => Bool.noConfusion complete, fun whole => absurd whole missed⟩, h.uncut, h.asked⟩

theorem outcomes_asked {p : Progress} {outcome : Except ProviderError Value}
    (answered : (provider.page p.token PAGE_SIZE p.wire).1 = outcome) :
    (provider.asked p).outcomes = p.outcomes ++ [outcome] := by
  rw [GoogleProvider.asked, answered]

/-- The first `n` rows of a page are taken. -/
theorem Going.taken {p : Progress} {tokens : List String} (h : Going provider p tokens)
    {outcome : Except ProviderError Value}
    (answered : (provider.page p.token PAGE_SIZE p.wire).1 = outcome) (rows : Nat) :
    Taken provider { ((rowsOf outcome).take (min PAGE_SIZE (MAX_ROWS - p.rows))).foldl
      provider.takeRow (provider.asked p) with rows := rows } := by
  have behind : Behind provider (p.outcomes.flatMap rowsOf) (provider.asked p) :=
    ⟨h.behind.single, h.behind.bare⟩
  obtain ⟨after, judged⟩ := behind.takeRows h.judged
    ((rowsOf outcome).take (min PAGE_SIZE (MAX_ROWS - p.rows)))
  have outcomes := outcomes_asked answered
  have processed : Google.taken 0 (provider.asked p).outcomes = p.outcomes.flatMap rowsOf ++
      (rowsOf outcome).take (min PAGE_SIZE (MAX_ROWS - p.rows)) := by
    rw [outcomes, taken_append, h.uncut, Nat.zero_add, ← h.rows]
  have asked : (provider.asked p).wire.queries.length = (provider.asked p).outcomes.length := by
    have queried : (provider.asked p).wire.queries =
        p.wire.queries ++ [provider.query p.token PAGE_SIZE] := rfl
    rw [outcomes, queried, List.length_append, List.length_append, h.asked]
    rfl
  rw [← processed] at after judged
  obtain ⟨complete, limitations, records, ids, frame⟩ := takeRows_frame provider
    (provider.asked p) ((rowsOf outcome).take (min PAGE_SIZE (MAX_ROWS - p.rows)))
  rw [frame] at after judged ⊢
  exact ⟨⟨after.single, after.bare⟩, judged, ⟨p.outcomes, outcome, outcomes, h.uncut⟩, asked⟩

/-- The loop goes on behind a page within its limits that names another one. -/
theorem Going.more {p q : Progress} {tokens : List String} (h : Going provider p tokens)
    (read : Taken provider q) {values : Value} {rows : List Value} {token : String}
    (outcomes : q.outcomes = p.outcomes ++ [.ok values]) (count : q.rows = p.rows + rows.length)
    (ok : users values = .ok rows) (sized : rows.length ≤ PAGE_SIZE) (below : q.rows < MAX_ROWS)
    (uncut : Google.taken 0 q.outcomes = p.outcomes.flatMap rowsOf ++ rows)
    (there : values.get "nextPageToken" = some (.string token))
    (good : GoogleProvider.goodToken token = true) (fresh : token ∉ tokens)
    (known : ∀ t, t ∈ q.tokens ↔ t ∈ tokens ++ [token]) : Going provider q (tokens ++ [token]) := by
  have list : listed (.ok values) = .ok rows := ok
  have all : q.outcomes.flatMap rowsOf = p.outcomes.flatMap rowsOf ++ rows := by
    rw [outcomes, List.flatMap_append, List.flatMap_singleton, rowsOf, list]
    rfl
  rw [← all] at uncut
  constructor
  · rw [outcomes]
    exact forall_mem_snoc h.sized ⟨rows, list, sized⟩
  · rw [outcomes, List.map_append, List.map_append, h.next]
    exact congrArg _ (congrArg (fun o => [o]) there)
  · exact known
  · exact nodup_snoc h.once fresh
  · exact forall_mem_snoc h.good good
  · rw [all, List.length_append, count, h.rows]
  · exact below
  · exact uncut
  · rw [← uncut]
    exact read.behind
  · rw [← uncut]
    exact read.judged
  · exact read.asked

/-- A page that was listed, with its rows taken. -/
structure Read (provider : GoogleProvider) (p : Progress) (values : Value) (rows : List Value)
    (q : Progress) : Prop where
  listed : users values = .ok rows
  taken : Taken provider q
  outcomes : q.outcomes = p.outcomes ++ [.ok values]
  rows : q.rows = p.rows + rows.length
  tokens : q.tokens = p.tokens

section Read

variable {p q : Progress} {tokens : List String} {values : Value} {rows : List Value}

theorem Read.pages (r : Read provider p values rows q) :
    q.outcomes.length = p.outcomes.length + 1 := by
  rw [r.outcomes, List.length_append]
  rfl

theorem Read.whole_iff (r : Read provider p values rows q) (h : Going provider p tokens) :
    Whole provider q.outcomes ↔ rows.length ≤ PAGE_SIZE ∧ p.rows + rows.length ≤ MAX_ROWS ∧
      values.get "nextPageToken" = none ∧ provider.Fine (p.outcomes.flatMap rowsOf ++ rows) := by
  rw [r.outcomes]
  exact h.whole_iff r.listed

/-- Within the limits no row is left out. -/
theorem Read.uncut (r : Read provider p values rows q) (h : Going provider p tokens)
    (sized : rows.length ≤ PAGE_SIZE) (total : p.rows + rows.length ≤ MAX_ROWS) :
    Google.taken 0 q.outcomes = p.outcomes.flatMap rowsOf ++ rows := by
  have rows_eq : rowsOf (.ok values) = rows := by
    have list : Google.listed (.ok values) = .ok rows := r.listed
    rw [rowsOf, list]
    rfl
  rw [r.outcomes, taken_append, h.uncut, rows_eq, Nat.zero_add, ← h.rows, List.take_of_length_le]
  omega

/-- A page that names no other one is the last. -/
theorem Read.last (r : Read provider p values rows q) (h : Going provider p tokens)
    (sized : rows.length ≤ PAGE_SIZE) (total : p.rows + rows.length ≤ MAX_ROWS)
    (last : values.get "nextPageToken" = none) : Collected provider q := by
  apply r.taken.ends
  rw [r.whole_iff h, r.uncut h sized total]
  exact ⟨fun all => all.2.2.2, fun fine => ⟨sized, total, last, fine⟩⟩

/-- A page that names another one misses something, unless the other one is read. -/
theorem Read.partly (r : Read provider p values rows q) (h : Going provider p tokens) {next : Value}
    (there : values.get "nextPageToken" = some next) : ¬ Whole provider q.outcomes := by
  intro whole
  have none := ((r.whole_iff h).mp whole).2.2.1
  rw [there] at none
  cases none

/-- A page that names another one is followed by it, up to the limits of the loop. -/
theorem Read.follow {page : Nat} (r : Read provider p values rows q) (h : Going provider p tokens)
    (sized : rows.length ≤ PAGE_SIZE) (total : p.rows + rows.length ≤ MAX_ROWS) {token : String}
    (there : values.get "nextPageToken" = some (.string token))
    (good : GoogleProvider.goodToken token = true) (fresh : token ∉ q.tokens) :
    Ends provider page p
      (if page + 1 = MAX_PAGES ∨ q.rows ≥ MAX_ROWS then
        ({ q with
          tokens := q.tokens.insert token
          token := some token
          snapshot := fail q.snapshot (error "limit") }, .stops)
      else ({ q with tokens := q.tokens.insert token, token := some token }, .continues)) := by
  have read := r.taken
  have read : Taken provider { q with tokens := q.tokens.insert token, token := some token } :=
    ⟨⟨read.behind.single, read.behind.bare⟩, read.judged, read.uncut, read.asked⟩
  split
  · exact .stops (read.misses (r.partly h there) _) r.pages
  case isFalse more =>
    have below : q.rows < MAX_ROWS := by omega
    have fresh : token ∉ tokens := by rwa [← h.known, ← r.tokens]
    have known (t : String) : t ∈ q.tokens.insert token ↔ t ∈ tokens ++ [token] := by
      rw [mem_insert_key, r.tokens, h.known, List.mem_append, List.mem_singleton, or_comm, eq_comm]
    exact .continues (h.more read r.outcomes r.rows r.listed sized below (r.uncut h sized total)
      there good fresh known) r.pages (by omega)

end Read

/-- The rows of a page that was listed are taken. -/
theorem Going.read {p : Progress} {tokens : List String} (h : Going provider p tokens)
    {values : Value} {rows : List Value} (ok : users values = .ok rows)
    (answered : (provider.page p.token PAGE_SIZE p.wire).1 = .ok values) {q : Progress}
    (same : q = (rows.take (min PAGE_SIZE (MAX_ROWS - p.rows))).foldl provider.takeRow
      (provider.asked p)) : Read provider p values rows { q with rows := q.rows + rows.length } := by
  have read := h.taken answered (p.rows + rows.length)
  have rows_eq : rowsOf (.ok values) = rows := by
    have list : listed (.ok values) = .ok rows := ok
    rw [rowsOf, list]
    rfl
  rw [rows_eq, ← same] at read
  obtain ⟨complete, limitations, records, ids, frame⟩ := takeRows_frame provider
    (provider.asked p) (rows.take (min PAGE_SIZE (MAX_ROWS - p.rows)))
  rw [← same] at frame
  have counted : q.rows = p.rows := by rw [frame]; rfl
  rw [counted]
  refine ⟨ok, read, ?_, rfl, ?_⟩
  · rw [← outcomes_asked answered, frame]
  · rw [frame]
    rfl

/-- **What is done with a listed page.** -/
theorem Going.receive {page : Nat} {p : Progress} {tokens : List String}
    (h : Going provider p tokens) {values : Value} {rows : List Value}
    (ok : users values = .ok rows)
    (answered : (provider.page p.token PAGE_SIZE p.wire).1 = .ok values) :
    Ends provider page p (provider.receive page (provider.asked p) values rows) := by
  unfold GoogleProvider.receive
  extract_lets fold q
  have read : Read provider p values rows q := h.read ok answered rfl
  clear_value q
  have count := read.rows
  split
  case isTrue beyond =>
    refine .stops (read.taken.misses (fun all => ?_) _) read.pages
    obtain ⟨sized, total, -⟩ := (read.whole_iff h).mp all
    omega
  case isFalse within =>
    have sized : rows.length ≤ PAGE_SIZE := by omega
    have total : p.rows + rows.length ≤ MAX_ROWS := by omega
    split
    case h_1 last => exact .stops (read.last h sized total last) read.pages
    case h_2 next there =>
      split
      case h_1 => exact .stops (read.taken.misses (read.partly h there) _) read.pages
      case h_2 token accepted =>
        obtain ⟨named, good⟩ := Option.filter_eq_some_iff.mp accepted
        rw [Bool.and_eq_true, decide_eq_true_eq] at good
        have named : next = .string token := by
          cases next <;> cases named
          rfl
        exact read.follow h sized total (named ▸ there) good.1 good.2

/-- **One turn.** -/
theorem Going.turn {p : Progress} {tokens : List String} (h : Going provider p tokens)
    (page : Nat) : Ends provider page p (provider.turn page p) := by
  cases list : listed (provider.page p.token PAGE_SIZE p.wire).1 with
  | error failure =>
    rw [turn_error list]
    split
    case isTrue first => exact .fails first list
    case isFalse =>
      have read := h.taken rfl p.rows
      have none : rowsOf (provider.page p.token PAGE_SIZE p.wire).1 = [] := by
        rw [rowsOf, list]
        rfl
      rw [none, List.take_nil] at read
      have read : Taken provider (provider.asked p) := read
      exact .stops (read.misses (not_whole list) failure) List.length_append
  | ok rows =>
    cases answered : (provider.page p.token PAGE_SIZE p.wire).1 with
    | error failure =>
      rw [answered] at list
      cases list
    | ok values =>
      rw [answered] at list
      rw [turn_ok answered list]
      exact h.receive list answered

/-- **The page loop.** It fails on the first page only, and ends within the pages that are left. -/
theorem Going.pages {left page : Nat} {p : Progress} {tokens : List String}
    (h : Going provider p tokens) (count : p.outcomes.length = page)
    (budget : page + left = MAX_PAGES) (some : 0 < left) :
    (∃ failure, page = 0 ∧ provider.pages left page p = .error failure ∧
        listed (provider.page p.token PAGE_SIZE p.wire).1 = .error failure) ∨
      ∃ p', provider.pages left page p = .ok p' ∧ Collected provider p' ∧
        p'.outcomes.length ≤ MAX_PAGES := by
  induction left generalizing page p tokens with
  | zero => exact absurd some (Nat.lt_irrefl 0)
  | succ left ih =>
    have ends := h.turn page
    unfold GoogleProvider.pages
    generalize provider.turn page p = result at ends
    cases ends with
    | fails first error => exact .inl ⟨_, first, rfl, error⟩
    | stops collected pages => exact .inr ⟨_, rfl, collected, by omega⟩
    | @continues p' _ going pages more =>
      have count : p'.outcomes.length = page + 1 := by omega
      rcases ih going count (by omega) (by omega) with ⟨_, first, -⟩ | found
      · cases first
      · exact .inr found

/-! ## The operation -/

/-- The rows of the first page, or why there are none. -/
def GoogleProvider.firstPage (provider : GoogleProvider) : Except ProviderError (List Value) :=
  listed (provider.page none PAGE_SIZE ⟨0, []⟩).1

/-- A snapshot of these pages. -/
structure Shows (provider : GoogleProvider) (outcomes : List (Except ProviderError Value))
    (s : Snapshot) : Prop where
  accounts : ∀ rows, rows.Perm (taken 0 outcomes) →
    s.accounts.Perm ((provider.kept rows).map Prod.fst)
  identities : ∀ rows, rows.Perm (taken 0 outcomes) →
    s.identities.Perm ((provider.kept rows).map Prod.snd)
  same : ∀ a i, (a, i) ∈ provider.kept (taken 0 outcomes) →
    i.status = a.status ∧ i.verifiedEmails = a.verifiedEmails ∧ a.verifiedEmails = [a.login]
  complete : s.complete = true ↔ Whole provider outcomes

theorem kept_perm {rows rows' : List Value} (perm : rows.Perm rows') :
    (provider.kept rows).Perm (provider.kept rows') :=
  (once_perm perm).filterMap _

theorem Collected.shows {p : Progress} (h : Collected provider p) (core : Core) :
    Shows provider p.outcomes (core.sort p.graph) := by
  obtain ⟨noAccounts, noIdentities⟩ := h.behind.bare
  constructor
  · intro rows perm
    have graph : p.graph.accounts = (values p.records).map Prod.fst := by
      rw [Progress.graph, noAccounts, List.nil_append]
    apply (core.accounts_perm _).trans
    rw [graph]
    exact ((h.behind.values.trans (kept_perm perm.symm)).map _)
  · intro rows perm
    have graph : p.graph.identities = (values p.records).map Prod.snd := by
      rw [Progress.graph, noIdentities, List.nil_append]
    apply (core.identities_perm _).trans
    rw [graph]
    exact ((h.behind.values.trans (kept_perm perm.symm)).map _)
  · intro a i mem
    obtain ⟨row, -, record⟩ := recordIs_of_kept mem
    exact ⟨record.same.1, record.same.2, record.emails⟩
  · exact h.complete

/-- An error on the first page ends the operation. -/
theorem gather_first {failure : ProviderError} (first : provider.firstPage = .error failure) :
    provider.gather = .error failure := by
  change provider.pages (199 + 1) 0 provider.start = _
  have list : listed (provider.page provider.start.token PAGE_SIZE provider.start.wire).1 =
      .error failure := first
  rw [GoogleProvider.pages, turn_error list, if_pos rfl]

/-- Otherwise the loop ends. -/
theorem gather_rest {rows : List Value} (first : provider.firstPage = .ok rows) :
    ∃ p, provider.gather = .ok p ∧ Collected provider p ∧ p.outcomes.length ≤ MAX_PAGES := by
  have start : Going provider provider.start [] := going_start
  rcases start.pages rfl (Nat.zero_add MAX_PAGES) (by decide) with
    ⟨failure, -, -, error⟩ | found
  · cases first.symm.trans error
  · exact found

variable (provider) in
/-- **The collection of users.** An error on the first page is one of the operation. Otherwise the
loop ends within `MAX_PAGES` pages, of which all but the last one are taken in as a whole, and the
snapshot has one account and one identity for each row that is accepted and whose identifier no
other row has, in whatever order the rows came. It is complete exactly when the pages are whole. -/
theorem collect_exact (core : Core) :
    (∀ failure, provider.firstPage = .error failure → provider.collect core = .error failure) ∧
    ∀ rows, provider.firstPage = .ok rows → ∃ p, provider.gather = .ok p ∧
      p.wire.queries.length = p.outcomes.length ∧ p.outcomes.length ≤ MAX_PAGES ∧
      (∃ before last, p.outcomes = before ++ [last] ∧ taken 0 before = before.flatMap rowsOf) ∧
      Shows provider p.outcomes (core.sort p.graph) ∧
      provider.collect core = if core.validateSnapshot (core.sort p.graph) = false then
        .error (error "malformed") else .ok (core.sort p.graph) := by
  constructor
  · intro failure first
    rw [GoogleProvider.collect, gather_first first]
  · intro rows first
    obtain ⟨p, gathered, collected, count⟩ := gather_rest first
    refine ⟨p, gathered, collected.asked, count, collected.uncut, collected.shows core, ?_⟩
    rw [GoogleProvider.collect, gathered]

/-! ## Reflected tokens -/

/-- The strings of an account and of an identity. -/
def accountStrings (a : Account) : List String :=
  a.key.provider :: a.key.id :: a.login :: a.verifiedEmails

def identityStrings (i : Identity) : List String := i.id :: i.verifiedEmails

/-- Nothing that `record` puts together contains the token. -/
theorem RecordIs.hides {row : Value} {a : Account} {i : Identity} (h : RecordIs provider row a i) :
    ∀ t ∈ accountStrings a ++ identityStrings i, Text.contains provider.token t = false := by
  have named : Text.contains provider.token provider.id = false := by
    have configured := provider.configured
    rw [Google.configured, Bool.not_eq_true'] at configured
    simp only [Bool.or_eq_false_iff] at configured
    exact configured.1.2
  intro t mem
  rw [accountStrings, identityStrings, h.same.2, h.emails, h.providerId] at mem
  simp only [List.cons_append, List.nil_append, List.mem_cons, List.not_mem_nil, or_false] at mem
  rcases mem with rfl | rfl | rfl | rfl | rfl | rfl
  · exact named
  · exact h.id
  · exact h.email
  · exact h.email
  · exact h.identityId
  · exact h.email

/-- The accounts and the identities of a collection are those of records. -/
theorem recordIs_of_collect {core : Core} {s : Snapshot} (ok : provider.collect core = .ok s) :
    (∀ a ∈ s.accounts, ∃ row i, RecordIs provider row a i) ∧
      ∀ i ∈ s.identities, ∃ row a, RecordIs provider row a i := by
  cases first : provider.firstPage with
  | error failure =>
    rw [GoogleProvider.collect, gather_first first] at ok
    cases ok
  | ok rows =>
    obtain ⟨p, gathered, collected, -⟩ := gather_rest first
    have shows := collected.shows core
    rw [GoogleProvider.collect, gathered] at ok
    dsimp only at ok
    split at ok
    · cases ok
    · cases ok
      constructor
      · intro a mem
        obtain ⟨⟨a, i⟩, kept, rfl⟩ :=
          List.mem_map.mp ((shows.accounts _ (.refl _)).mem_iff.mp mem)
        obtain ⟨row, -, record⟩ := recordIs_of_kept kept
        exact ⟨row, i, record⟩
      · intro i mem
        obtain ⟨⟨a, i⟩, kept, rfl⟩ :=
          List.mem_map.mp ((shows.identities _ (.refl _)).mem_iff.mp mem)
        obtain ⟨row, -, record⟩ := recordIs_of_kept kept
        exact ⟨row, a, record⟩

/-- **The access token is not reflected.** -/
theorem collect_hides_token {id customerId token : String} {net : Http.Net}
    {remaining : Nat → String → Option Int} {provider : GoogleProvider} {core : Core} {s : Snapshot}
    (made : GoogleProvider.new id customerId token net remaining = .ok provider)
    (ok : provider.collect core = .ok s) :
    (∀ a ∈ s.accounts, ∀ t ∈ accountStrings a, ¬ token.toList <:+: t.toList) ∧
      ∀ i ∈ s.identities, ∀ t ∈ identityStrings i, ¬ token.toList <:+: t.toList := by
  have same : provider.token = token := by
    unfold GoogleProvider.new at made
    split at made
    · cases made
      rfl
    · cases made
  obtain ⟨accounts, identities⟩ := recordIs_of_collect ok
  constructor
  · intro a mem t there
    obtain ⟨row, i, record⟩ := accounts a mem
    have hidden := record.hides t (List.mem_append_left _ there)
    rwa [same, ← Bool.not_eq_true, Text.contains_iff] at hidden
  · intro i mem t there
    obtain ⟨row, a, record⟩ := identities i mem
    have hidden := record.hides t (List.mem_append_right _ there)
    rwa [same, ← Bool.not_eq_true, Text.contains_iff] at hidden

/-- A user of the customer. -/
def sampleUser (id email : String) : Value :=
  .object [("id", .string id), ("customerId", .string "C01"), ("primaryEmail", .string email),
    ("suspended", .bool false), ("archived", .bool false)]

/-- A server with one page of two users. The second one has the token in its address. -/
def sampleNet : Http.Net where
  server _ := .answered ⟨200, [], none, [], false⟩
  decode _ := some (.object [("users", .array [sampleUser "7" "ann@example.com",
    sampleUser "8" "ya29@example.com"])])

def sampleProvider : GoogleProvider where
  id := "google"
  customerId := "C01"
  token := "ya29"
  configured := by decide
  net := sampleNet
  remaining _ _ := none

theorem sample_hides_token : ∃ s, sampleProvider.collect Core.plain = .ok s ∧
    s.accounts.map Account.login = ["ann@example.com"] ∧
    (∀ a ∈ s.accounts, ∀ t ∈ accountStrings a, ¬ "ya29".toList <:+: t.toList) ∧
    ∀ i ∈ s.identities, ∀ t ∈ identityStrings i, ¬ "ya29".toList <:+: t.toList := by
  have made : GoogleProvider.new "google" "C01" "ya29" sampleNet (fun _ _ => none) =
      .ok sampleProvider := dif_pos (by decide)
  have logins : ((sampleProvider.collect Core.plain).toOption.map fun s =>
      s.accounts.map Account.login) = some ["ann@example.com"] := by decide +kernel
  cases ok : sampleProvider.collect Core.plain with
  | error failure =>
    rw [ok] at logins
    cases logins
  | ok s =>
    rw [ok] at logins
    exact ⟨s, rfl, Option.some.inj logins, collect_hides_token made ok⟩

end Permesh.Google

import Permesh.Cloudflare.Client
import Permesh.Lib.Fold
import Permesh.Lib.Maps

/-!
# Laws.Cloudflare.Listing — when a list is complete

The totals that the pages of a list report are carried from page to page: a page may omit them, and may
not contradict them. So a list that ends without a failure has read all rows that any of its pages
promised (`listing_whole`), and a list that fails returns the rows of the pages before the failure.

The totals known so far are the invariant (`Known`). It is carried through the page loop together with
the rows, and at the end the last page closes it. Whether a server reports true totals is not asked.
-/

namespace Permesh.Cloudflare

open Permesh.Json Permesh.Http Permesh.Lib

/-! ## Pages -/

/-- The rows of a page. -/
def results (response : Value) : List Value :=
  ((response.get "result").bind Value.asArray).getD []

/-- What a page reports under a key of its `result_info`. -/
def reported (response : Value) (key : String) : Option Value :=
  (response.get "result_info").bind (·.get key)

/-- A total behind a page: the one that the page reports, and it is the one before, if there was
one. -/
structure Carries (response : Value) (key : String) (before behind : Option Nat) : Prop where
  reported : ∀ v, reported response key = some v → ∃ n, v.asU64 = some n ∧ behind = some n
  kept : ∀ n, before = some n → behind = some n
  omitted : Cloudflare.reported response key = none → behind = before

/-- The numbers that a page reports of itself. -/
structure Describes (response : Value) (page : Nat) : Prop where
  page : ∀ v, reported response "page" = some v → v.asU64 = some page
  perPage : ∀ v, reported response "per_page" = some v → v.asU64 = some 50
  count : ∀ v, reported response "count" = some v → v.asU64 = some (results response).length

theorem total_carries {response info : Value} {key : String} {before behind : Option Nat}
    (hi : response.get "result_info" = some info) (h : total info key before = .ok behind) :
    Carries response key before behind := by
  have reports : reported response key = info.get key := by rw [reported, hi]; rfl
  unfold total at h
  cases hk : info.get key with
  | none =>
    rw [hk] at h reports
    cases h
    exact ⟨fun v hv => (by rw [reports] at hv; cases hv), fun _ h => h, fun _ => rfl⟩
  | some v =>
    rw [hk] at h reports
    dsimp only at h
    cases hv : v.asU64 with
    | none =>
      rw [hv] at h
      cases h
    | some n =>
      rw [hv] at h
      dsimp only at h
      split at h
      · cases h
      case isFalse same =>
        cases h
        refine ⟨fun v' hv' => ?_, fun m hm => ?_, fun none => ?_⟩
        · rw [reports] at hv'
          cases hv'
          exact ⟨n, hv, rfl⟩
        · rw [hm] at same
          simp at same
          rw [same]
        · rw [reports] at none
          cases none

/-- What the totals behind a page are. -/
theorem totals_ok {p : Progress} {response : Value} {page : Nat} {t tp : Option Nat}
    (h : totals p response page (results response).length = .ok (t, tp)) :
    Describes response page ∧ Carries response "total_count" p.knownTotal t ∧
      Carries response "total_pages" p.knownPages tp := by
  unfold totals at h
  cases hi : response.get "result_info" with
  | none =>
    have none (key : String) : reported response key = none := by rw [reported, hi]; rfl
    rw [hi] at h
    cases h
    have absent {key : String} {P : Value → Prop} (v : Value)
        (hv : reported response key = some v) : P v := by
      rw [none] at hv
      cases hv
    exact ⟨⟨absent, absent, absent⟩, ⟨absent, fun _ h => h, fun _ => rfl⟩,
      ⟨absent, fun _ h => h, fun _ => rfl⟩⟩
  | some info =>
    rw [hi] at h
    dsimp only at h
    split at h
    · cases h
    case isFalse fits =>
      obtain ⟨t', ht, h⟩ := bind_ok h
      obtain ⟨tp', htp, h⟩ := bind_ok h
      cases h
      refine ⟨?_, total_carries hi ht, total_carries hi htp⟩
      rw [Bool.not_eq_false, checkInfo, Bool.and_eq_true, List.all_eq_true] at fits
      have number {key : String} {expected : Nat}
          (mem : (key, expected) ∈ [("page", page), ("per_page", 50),
            ("count", (results response).length)]) (v : Value)
          (hv : reported response key = some v) : v.asU64 = some expected := by
        have := fits.2 _ mem
        rw [reported, hi, Option.bind_some] at hv
        simpa [hv] using this
      exact ⟨number (by simp), number (by simp), number (by simp)⟩

/-- The last page: the totals are reached, and without a total it is a short one. -/
structure Closes (page received count : Nat) (t tp : Option Nat) : Prop where
  total : ∀ n, t = some n → n = received
  pages : ∀ n, tp = some n → n = page ∨ n = 0 ∧ page = 1 ∧ received = 0
  short : t = none → tp = none → count ≠ 50

theorem byCount_ok {received : Nat} {t : Option Nat} {counted : Option Bool}
    (h : byCount received t = .ok counted) :
    (t = none → counted = none) ∧ ∀ n, t = some n → counted ≠ none ∧
      (counted = some false → n = received) := by
  unfold byCount at h
  split at h
  case h_1 =>
    cases h
    exact ⟨fun _ => rfl, fun n hn => by cases hn⟩
  case h_2 total =>
    split at h
    · cases h
    case isFalse le =>
      cases h
      refine ⟨nofun, fun n hn => ⟨by simp, fun last => ?_⟩⟩
      cases hn
      have stop := of_decide_eq_false (Option.some.inj last)
      omega

theorem byPages_ok {page received : Nat} {tp : Option Nat} {paged : Option Bool}
    (h : byPages page received tp = .ok paged) :
    (tp = none → paged = none) ∧ ∀ n, tp = some n → paged ≠ none ∧
      (paged = some false → n = page ∨ n = 0 ∧ page = 1 ∧ received = 0) := by
  unfold byPages at h
  split at h
  case h_1 =>
    cases h
    exact ⟨fun _ => rfl, fun n hn => by cases hn⟩
  case h_2 =>
    split at h
    · cases h
    case isFalse empty =>
      cases h
      refine ⟨nofun, fun n hn => ⟨by simp, fun _ => .inr ?_⟩⟩
      cases hn
      omega
  case h_3 total _ =>
    split at h
    · cases h
    case isFalse le =>
      cases h
      refine ⟨nofun, fun n hn => ⟨by simp, fun last => .inl ?_⟩⟩
      cases hn
      have stop := of_decide_eq_false (Option.some.inj last)
      omega

theorem more_ok {page received count : Nat} {t tp : Option Nat}
    (h : more page received count t tp = .ok false) : Closes page received count t tp := by
  unfold more at h
  obtain ⟨counted, hc, h⟩ := bind_ok h
  obtain ⟨paged, hp, h⟩ := bind_ok h
  -- neither signal says that there are more pages, and without a signal the page is short
  have never {b : Bool} (h : (if b = true ∧ count = 0 then Except.error (error "pagination")
      else Except.ok b) = Except.ok false) : b = false := by
    split at h
    · cases h
    · exact Except.ok.inj h
  have quiet : (counted = none ∨ counted = some false) ∧ (paged = none ∨ paged = some false) ∧
      (counted = none → paged = none → count ≠ 50) := by
    cases counted with
    | none =>
      cases paged with
      | none =>
        exact ⟨.inl rfl, .inl rfl, fun _ _ => by simpa using never h⟩
      | some b => exact ⟨.inl rfl, .inr (congrArg some (never h)), nofun⟩
    | some a =>
      cases paged with
      | none => exact ⟨.inr (congrArg some (never h)), .inl rfl, nofun⟩
      | some b =>
        dsimp only at h
        split at h
        · cases h
        case isFalse same =>
          have last := never h
          have both := Decidable.not_not.mp same
          exact ⟨.inr (congrArg some last), .inr (congrArg some (both ▸ last)), nofun⟩
  obtain ⟨noCount, someCount⟩ := byCount_ok hc
  obtain ⟨noPages, somePages⟩ := byPages_ok hp
  obtain ⟨quietCount, quietPages, short⟩ := quiet
  constructor
  · intro n hn
    obtain ⟨some, last⟩ := someCount n hn
    exact last (quietCount.resolve_left some)
  · intro n hn
    obtain ⟨some, last⟩ := somePages n hn
    exact last (quietPages.resolve_left some)
  · exact fun ht htp => short (noCount ht) (noPages htp)

/-! ## Runs -/

section

variable (client : Client)

/-- The rows of a page as texts. -/
def texts (response : Value) : List String := (results response).map client.render

/-- What is known behind some pages: their rows, the totals that any of them reports, and that each
of them is a page of its own. -/
structure Known (done : List Value) (p : Progress) : Prop where
  rows : p.rows = done.flatMap results
  lists : ∀ response ∈ done, ((response.get "result").bind Value.asArray).isSome = true
  short : ∀ response ∈ done, (results response).length ≤ 50
  pages : p.pages = (done.map (texts client)).filter (· ≠ [])
  distinct : p.pages.Nodup
  describes : ∀ i response, done[i]? = some response → Describes response (i + 1)
  total : ∀ response ∈ done, ∀ v, reported response "total_count" = some v →
    ∃ n, v.asU64 = some n ∧ p.knownTotal = some n
  totalPages : ∀ response ∈ done, ∀ v, reported response "total_pages" = some v →
    ∃ n, v.asU64 = some n ∧ p.knownPages = some n
  unknown : (∀ response ∈ done, reported response "total_count" = none ∧
    reported response "total_pages" = none) → p.knownTotal = none ∧ p.knownPages = none

theorem known_start (budget : Budget) : Known client [] ⟨[], [], none, none, budget⟩ where
  rows := rfl
  lists _ h := by cases h
  short _ h := by cases h
  pages := rfl
  distinct := List.nodup_nil
  describes _ _ h := by cases h
  total _ h := by cases h
  totalPages _ h := by cases h
  unknown _ := ⟨rfl, rfl⟩

variable {client}

/-- One page more, with rows of its own and totals that fit. -/
theorem Known.next {done : List Value} {p : Progress} {budget : Budget} {response : Value}
    {values : List Value} {t tp : Option Nat} (known : Known client done p)
    (list : (response.get "result").bind Value.asArray = some values) (small : values.length ≤ 50)
    (fresh : ¬(values ≠ [] ∧ values.map client.render ∈ p.pages))
    (describes : Describes response (done.length + 1))
    (total : Carries response "total_count" p.knownTotal t)
    (totalPages : Carries response "total_pages" p.knownPages tp) :
    Known client (done ++ [response]) {
      rows := p.rows ++ values
      pages := if values.isEmpty then p.pages else p.pages ++ [values.map client.render]
      knownTotal := t
      knownPages := tp
      budget := budget } := by
  have rows : results response = values := by rw [results, list]; rfl
  constructor
  · rw [List.flatMap_append, ← known.rows, List.flatMap_singleton, rows]
  · exact forall_mem_snoc known.lists (by rw [list]; rfl)
  · exact forall_mem_snoc known.short (by rw [rows]; exact small)
  · rw [List.map_append, List.filter_append, ← known.pages, List.map_singleton, texts, rows]
    cases values with
    | nil => simp
    | cons _ _ => simp
  · dsimp only
    split
    · exact known.distinct
    case isFalse filled =>
      rw [List.isEmpty_iff] at filled
      exact nodup_snoc known.distinct fun mem => fresh ⟨filled, mem⟩
  · intro i r hr
    rcases Nat.lt_or_ge i done.length with lt | ge
    · rw [List.getElem?_append_left lt] at hr
      exact known.describes i r hr
    · rw [List.getElem?_append_right ge] at hr
      obtain ⟨here, same⟩ := List.getElem?_eq_some_iff.mp hr
      have at_end : i = done.length := by
        rw [List.length_singleton] at here
        omega
      subst at_end
      simp only [Nat.sub_self, List.getElem_cons_zero] at same
      exact same ▸ describes
  · refine forall_mem_snoc (fun r hr v hv => ?_) total.reported
    obtain ⟨n, number, same⟩ := known.total r hr v hv
    exact ⟨n, number, total.kept n same⟩
  · refine forall_mem_snoc (fun r hr v hv => ?_) totalPages.reported
    obtain ⟨n, number, same⟩ := known.totalPages r hr v hv
    exact ⟨n, number, totalPages.kept n same⟩
  · intro none
    have here := none response (List.mem_append_right _ (List.mem_singleton_self _))
    have before := known.unknown fun r hr => none r (List.mem_append_left _ hr)
    exact ⟨(total.omitted here.1).trans before.1, (totalPages.omitted here.2).trans before.2⟩

/-- **What an accepted page adds.** -/
theorem Known.receive {done : List Value} {p q : Progress} {budget : Budget} {response : Value}
    {more : Bool} (known : Known client done p)
    (h : client.receive (done.length + 1) { p with budget := budget } response = (q, .ok more)) :
    Known client (done ++ [response]) q ∧ (more = false → Closes (done.length + 1) q.rows.length
      (results response).length q.knownTotal q.knownPages) := by
  unfold Client.receive at h
  cases hv : (response.get "result").bind Value.asArray with
  | none =>
    rw [hv] at h
    cases h
  | some values =>
    have rows : results response = values := by rw [results, hv]; rfl
    rw [hv] at h
    dsimp only at h
    split at h
    · cases h
    case isFalse small =>
      split at h
      · cases h
      case isFalse fresh =>
        split at h
        · cases h
        · split at h
          · cases h
          case h_2 t tp ht =>
            split at h
            · cases h
            case h_2 more' hm =>
              cases h
              rw [← rows] at ht hm
              obtain ⟨describes, carries, carriesPages⟩ := totals_ok ht
              have received : (p.rows ++ values).length = p.rows.length + (results response).length := by
                rw [List.length_append, rows]
              refine ⟨?_, fun last => ?_⟩
              · exact known.next hv (Nat.le_of_not_lt small) fresh describes carries carriesPages
              · subst last
                rw [received]
                exact more_ok hm

/-- A page that is rejected leaves the rows as they are. -/
theorem receive_error_rows {p q : Progress} {page : Nat} {response : Value} {e : ProviderError}
    (h : client.receive page p response = (q, .error e)) : q.rows = p.rows := by
  unfold Client.receive at h
  split at h
  · cases h
    rfl
  · split at h
    · cases h
      rfl
    · split at h
      · cases h
        rfl
      · dsimp only at h
        split at h
        · cases h
          rfl
        · split at h
          · cases h
            rfl
          · split at h
            · cases h
              rfl
            · cases h

variable (client) (path : String) (filters : List (String × String))

/-- The request for a page. -/
def Client.fetch (page : Nat) (budget : Budget) : Except ProviderError Value × Budget :=
  client.request path (filters ++ [("per_page", "50"), ("page", toString page)]) budget

/-- The responses to the requests for the pages from `page` on, each of which is accepted, and whether
there are more pages behind them. -/
inductive Reads : Nat → Progress → List Value → Bool → Progress → Prop where
  | start {page : Nat} {p : Progress} : Reads page p [] true p
  | next {page : Nat} {p q r : Progress} {budget : Budget} {response : Value}
      {responses : List Value} {more : Bool}
      (fetch : client.fetch path filters page p.budget = (.ok response, budget))
      (receive : client.receive page { p with budget := budget } response = (q, .ok true))
      (rest : Reads (page + 1) q responses more r) : Reads page p (response :: responses) more r
  | last {page : Nat} {p q : Progress} {budget : Budget} {response : Value}
      (fetch : client.fetch path filters page p.budget = (.ok response, budget))
      (receive : client.receive page { p with budget := budget } response = (q, .ok false)) :
      Reads page p [response] false q

/-- The request for a page fails, or the page is rejected. -/
def Fails (page : Nat) (p : Progress) : Prop :=
  (∃ e budget, client.fetch path filters page p.budget = (.error e, budget)) ∨
    ∃ response budget q e, client.fetch path filters page p.budget = (.ok response, budget) ∧
      client.receive page { p with budget := budget } response = (q, .error e)

/-- The page loop reads pages until one of them fails or is the last one. -/
theorem pages_reads (left page : Nat) (p : Progress) : ∃ responses more q,
    Reads client path filters page p responses more q ∧
    (client.pages path filters left page p).1.rows = q.rows ∧
    ((client.pages path filters left page p).2 = none ↔ more = false) ∧
    (more = true →
      responses.length = left ∨ Fails client path filters (page + responses.length) q) := by
  induction left generalizing page p with
  | zero => exact ⟨[], true, p, .start, rfl, by simp [Client.pages], fun _ => .inl rfl⟩
  | succ left ih =>
    unfold Client.pages
    split
    case h_1 e budget hr =>
      exact ⟨[], true, p, .start, rfl, by simp, fun _ => .inr (.inl ⟨e, budget, hr⟩)⟩
    case h_2 response budget hr =>
      split
      case h_1 q e hq =>
        have same := receive_error_rows hq
        exact ⟨[], true, p, .start, same, by simp,
          fun _ => .inr (.inr ⟨response, budget, q, e, hr, hq⟩)⟩
      case h_2 q hq => exact ⟨[response], false, q, .last hr hq, rfl, by simp, nofun⟩
      case h_3 q hq =>
        obtain ⟨responses, more, r, reads, rows, ends, stops⟩ := ih (page + 1) q
        refine ⟨response :: responses, more, r, .next hr hq reads, rows, ends, fun h => ?_⟩
        rw [List.length_cons, show page + (responses.length + 1) = page + 1 + responses.length by omega]
        exact (stops h).imp (congrArg (· + 1)) fun h => h

variable {client path filters}

/-- What is known behind the pages that were read. -/
theorem Reads.known {page : Nat} {p q : Progress} {done responses : List Value} {more : Bool}
    (reads : Reads client path filters page p responses more q) (known : Known client done p)
    (at_page : page = done.length + 1) : Known client (done ++ responses) q ∧
      (more = false → ∃ init response, done ++ responses = init ++ [response] ∧
        Closes (init.length + 1) q.rows.length (results response).length q.knownTotal
          q.knownPages) := by
  induction reads generalizing done with
  | start => exact ⟨by rwa [List.append_nil], nofun⟩
  | next fetch receive rest ih =>
    subst at_page
    have step := (known.receive receive).1
    have := ih step (by rw [List.length_append, List.length_singleton])
    rwa [List.append_assoc, List.singleton_append] at this
  | last fetch receive =>
    subst at_page
    obtain ⟨step, closes⟩ := known.receive receive
    exact ⟨step, fun _ => ⟨done, _, rfl, closes rfl⟩⟩

end

/-! ## Whole lists -/

/-- The pages of a list that is complete: what they report of themselves is true, no two of them have
the same rows, and their totals are the rows and the pages that were read. -/
structure Whole (client : Client) (responses rows : List Value) : Prop where
  lists : ∀ response ∈ responses, ((response.get "result").bind Value.asArray).isSome = true
  concat : rows = responses.flatMap results
  short : ∀ response ∈ responses, (results response).length ≤ 50
  distinct : ((responses.map (texts client)).filter (· ≠ [])).Nodup
  describes : ∀ i response, responses[i]? = some response → Describes response (i + 1)
  total : ∀ response ∈ responses, ∀ v, reported response "total_count" = some v →
    v.asU64 = some rows.length
  totalPages : ∀ response ∈ responses, ∀ v, reported response "total_pages" = some v →
    v.asU64 = some responses.length ∨
      v.asU64 = some 0 ∧ responses.length = 1 ∧ rows = []
  ends : ∃ init last, responses = init ++ [last] ∧
    ((∀ response ∈ responses, reported response "total_count" = none ∧
      reported response "total_pages" = none) → (results last).length < 50)

theorem Known.whole {client : Client} {responses : List Value} {q : Progress}
    (known : Known client responses q) {init : List Value} {last : Value}
    (eq : responses = init ++ [last]) (closes : Closes (init.length + 1) q.rows.length
      (results last).length q.knownTotal q.knownPages) : Whole client responses q.rows := by
  have count : responses.length = init.length + 1 := by
    rw [eq, List.length_append, List.length_singleton]
  refine ⟨known.lists, known.rows, known.short, known.pages ▸ known.distinct, known.describes, ?_, ?_,
    init, last, eq, fun none => ?_⟩
  · intro response mem v hv
    obtain ⟨n, number, same⟩ := known.total response mem v hv
    rw [number, closes.total n same]
  · intro response mem v hv
    obtain ⟨n, number, same⟩ := known.totalPages response mem v hv
    rw [number, count]
    rcases closes.pages n same with rfl | ⟨rfl, page, none⟩
    · exact .inl rfl
    · exact .inr ⟨rfl, page, List.length_eq_zero_iff.mp none⟩
  · obtain ⟨noTotal, noPages⟩ := known.unknown none
    have short := known.short last (by rw [eq]; simp)
    have ne := closes.short noTotal noPages
    omega

/-- **A list is complete unless it fails**, and then it has the rows of the pages before the
failure. -/
theorem listing_whole (client : Client) (path : String) (filters : List (String × String))
    (budget : Budget) : ∃ responses more q,
    Reads client path filters 1 ⟨[], [], none, none, budget⟩ responses more q ∧
    (client.listing path filters budget).1.rows = responses.flatMap results ∧
    ((client.listing path filters budget).1.failure = none →
      more = false ∧ Whole client responses (client.listing path filters budget).1.rows) ∧
    ((client.listing path filters budget).1.failure ≠ none → more = true ∧
      (responses.length = MAX_PAGES ∨ Fails client path filters (responses.length + 1) q)) := by
  obtain ⟨responses, more, q, reads, rows, ends, stops⟩ :=
    pages_reads client path filters MAX_PAGES 1 ⟨[], [], none, none, budget⟩
  obtain ⟨known, closes⟩ := reads.known (known_start client budget) rfl
  rw [List.nil_append] at known closes
  have listed : (client.listing path filters budget).1.rows = q.rows := rows
  have fails : (client.listing path filters budget).1.failure = none ↔ more = false := by
    rw [← ends]
    exact Option.map_eq_none_iff
  refine ⟨responses, more, q, reads, listed.trans known.rows, fun none => ?_, fun some => ?_⟩
  · have ended := fails.mp none
    obtain ⟨init, last, eq, closed⟩ := closes ended
    exact ⟨ended, listed ▸ known.whole eq closed⟩
  · have goes : more = true := Bool.not_eq_false _ ▸ mt fails.mpr some
    refine ⟨goes, ?_⟩
    rw [Nat.add_comm responses.length 1]
    exact stops goes

end Permesh.Cloudflare

import Permesh.Github.Client

/-!
# Laws.Github.Retries — what a repeated request waits for

A request is repeated behind a server error or a documented rate limit (`Retried`), and behind one pause
that is as long as each delay the response demands (`Demand`). A response that demands more than a
minute, or that leaves open what it demands (`Refusal`), ends the request. Delays are read exactly
here, as integers; the code computes them in 64 bits. What is said of the clock holds from 1970 on: an
earlier clock counts as 1970.

The attempts are followed one by one (`Honours`), each with the response before it. A pause that was
started is waited for even if the budget leaves no request behind it. How long the request itself takes
is not bounded here.
-/

namespace Permesh.Github

open Permesh.Json Permesh.Http

/-! ## What a response says -/

/-- A response that documents a rate limit. -/
inductive RateLimit (decode : List UInt8 → Option Value) (response : Response) : Prop where
  | tooMany : response.status = 429 → RateLimit decode response
  | retryAfter : response.status = 403 → response.headers.get "retry-after" ≠ none →
      RateLimit decode response
  | exhausted : response.status = 403 →
      header response.headers "x-ratelimit-remaining" = some "0" → RateLimit decode response
  | documented {bytes : List UInt8} {value : Value} : response.status = 403 →
      response.body MAX_BODY = .ok bytes → decode bytes = some value →
      secondaryLimit value = true → RateLimit decode response

/-- A response behind which a request may be repeated. The body of a 403 has been read. -/
structure Retried (decode : List UInt8 → Option Value) (response : Response) : Prop where
  again : isServerError response.status = true ∨ RateLimit decode response
  read : response.status = 403 → ∃ bytes, response.body MAX_BODY = .ok bytes

section

variable (clock : Int) (rfc2822 : String → Option Int64) (decode : List UInt8 → Option Value)

/-- The delays that a response demands, in nanoseconds from the clock on. -/
inductive Demand (response : Response) : Int → Prop where
  | seconds {value : String} {seconds : Nat} :
      header response.headers "retry-after" = some value → Text.parseU64 value = some seconds →
      Demand response (seconds * NANOS)
  | date {value : String} {date : Int64} :
      header response.headers "retry-after" = some value → Text.parseU64 value = none →
      rfc2822 value = some date → Demand response (date.toInt * NANOS - clock)
  | reset {value : String} {reset : Nat} :
      header response.headers "x-ratelimit-remaining" = some "0" →
      header response.headers "x-ratelimit-reset" = some value →
      Text.parseU64 value = some reset → Demand response (reset * NANOS - clock)
  | pause : RateLimit decode response → response.headers.get "retry-after" = none →
      Demand response (60 * NANOS)

/-- What forbids to repeat a request. -/
inductive Refusal (response : Response) : Prop where
  | long {delay : Int} : Demand clock rfc2822 decode response delay → 60 * NANOS < delay →
      Refusal response
  | unread {value : String} : header response.headers "retry-after" = some value →
      Text.parseU64 value = none → rfc2822 value = none → Refusal response
  | unknown : header response.headers "x-ratelimit-remaining" = some "0" →
      (header response.headers "x-ratelimit-reset").bind Text.parseU64 = none → Refusal response

end

/-! ## The delay -/

section

variable (now : Nat) (rfc2822 : String → Option Int64) (headers : HeaderMap) (attempt : Nat)
  (limited : Bool)

/-- The seconds of the first header, or of the attempt. -/
def askedSeconds : Option Nat :=
  match header headers "retry-after" with
  | none => some (if limited then 60 else 1 <<< attempt % UInt64.size)
  | some value => (Text.parseU64 value).or ((rfc2822 value).map fun date =>
      (max date 0).toUInt64.toNat - now / NANOS)

/-- The seconds until the limit is lifted. -/
def resetSeconds : Option Nat :=
  if header headers "x-ratelimit-remaining" = some "0" then
    ((header headers "x-ratelimit-reset").bind Text.parseU64).map fun reset => reset - now / NANOS
  else some 0

end

section

variable {clock : Int} {rfc2822 : String → Option Int64} {headers : HeaderMap} {attempt : Nat}
  {limited : Bool}

theorem retryDelay_eq : retryDelay clock rfc2822 headers attempt limited =
    match askedSeconds (sinceEpoch clock) rfc2822 headers attempt limited,
      resetSeconds (sinceEpoch clock) headers with
    | some asked, some reset =>
      if max asked reset > 60 then .error (error "rate_limit")
      else .ok (max asked reset * NANOS + sinceEpoch clock % NANOS % 251 * 1000000)
    | _, _ => .error (error "rate_limit") := by
  unfold retryDelay askedSeconds resetSeconds
  cases header headers "retry-after" with
  | none =>
    by_cases spent : header headers "x-ratelimit-remaining" = some "0"
    · cases (header headers "x-ratelimit-reset").bind Text.parseU64 <;>
        simp [spent, bind, Except.bind, pure, Except.pure]
    · simp [spent, bind, Except.bind, pure, Except.pure]
  | some value =>
    cases asked : (Text.parseU64 value).or ((rfc2822 value).map fun date =>
        (max date 0).toUInt64.toNat - sinceEpoch clock / NANOS) with
    | none => simp [asked, bind, Except.bind]
    | some seconds =>
      by_cases spent : header headers "x-ratelimit-remaining" = some "0"
      · cases (header headers "x-ratelimit-reset").bind Text.parseU64 <;>
          simp [asked, spent, bind, Except.bind, pure, Except.pure]
      · simp [asked, spent, bind, Except.bind, pure, Except.pure]

/-- What a delay that is computed comes from. -/
theorem retryDelay_ok_iff {delay : Nat} :
    retryDelay clock rfc2822 headers attempt limited = .ok delay ↔ ∃ asked reset,
      askedSeconds (sinceEpoch clock) rfc2822 headers attempt limited = some asked ∧
      resetSeconds (sinceEpoch clock) headers = some reset ∧ max asked reset ≤ 60 ∧
      delay = max asked reset * NANOS + sinceEpoch clock % NANOS % 251 * 1000000 := by
  rw [retryDelay_eq]
  constructor
  · intro ok
    split at ok
    case h_1 asked reset some_asked some_reset =>
      split at ok
      case isTrue => cases ok
      case isFalse short =>
        cases ok
        exact ⟨asked, reset, some_asked, some_reset, Nat.le_of_not_lt short, rfl⟩
    case h_2 => cases ok
  · rintro ⟨asked, reset, some_asked, some_reset, short, rfl⟩
    rw [some_asked, some_reset]
    exact if_neg (Nat.not_lt.mpr short)

/-- No other error is given. -/
theorem retryDelay_error {failure : ProviderError}
    (failed : retryDelay clock rfc2822 headers attempt limited = .error failure) :
    failure = error "rate_limit" := by
  rw [retryDelay_eq] at failed
  split at failed
  · split at failed
    · cases failed
      rfl
    · cases failed
  · cases failed
    rfl

/-- A clock before 1970 counts as 1970. -/
theorem sinceEpoch_eq : (sinceEpoch clock : Int) = max clock 0 := Int.toNat_eq_max clock

/-- A date counts from 1970 on, without loss. -/
theorem date_exact (date : Int64) : ((max date 0).toUInt64.toNat : Int) = max date.toInt 0 := by
  show ((if date ≤ 0 then 0 else date).toUInt64.toNat : Int) = _
  split
  case isTrue before =>
    rw [Int64.le_iff_toInt_le] at before
    exact (Int.max_eq_right (show date.toInt ≤ 0 from before)).symm
  case isFalse since =>
    have pos : 0 ≤ date := Int64.le_of_lt (Int64.not_le.mp since)
    rw [Int64.toNat_toUInt64_of_le pos, Int64.toNatClampNeg, Int.toNat_eq_max]

/-- Whole seconds are enough for what is left. -/
theorem left_le (n now : Nat) :
    (n : Int) * NANOS - now ≤ ((n - now / NANOS : Nat) : Int) * NANOS := by
  unfold NANOS
  omega

theorem lt_left {n now bound : Nat} (long : bound < n - now / NANOS) :
    (bound : Int) * NANOS < n * NANOS - now := by
  unfold NANOS at *
  omega

/-! ## What is asked for -/

variable {decode : List UInt8 → Option Value} {response : Response}

theorem asked_none_iff {now : Nat} :
    askedSeconds now rfc2822 headers attempt limited = none ↔
      ∃ value, header headers "retry-after" = some value ∧ Text.parseU64 value = none ∧
        rfc2822 value = none := by
  unfold askedSeconds
  cases header headers "retry-after" <;> simp

theorem reset_none_iff {now : Nat} :
    resetSeconds now headers = none ↔ header headers "x-ratelimit-remaining" = some "0" ∧
      (header headers "x-ratelimit-reset").bind Text.parseU64 = none := by
  unfold resetSeconds
  split <;> simp_all

/-- What is demanded is asked for. -/
theorem Demand.le_asked {asked reset : Nat} {delay : Int}
    (h : Demand (max clock 0) rfc2822 decode response delay)
    (limits : RateLimit decode response → limited = true)
    (some_asked : askedSeconds (sinceEpoch clock) rfc2822 response.headers attempt limited =
      some asked)
    (some_reset : resetSeconds (sinceEpoch clock) response.headers = some reset) :
    delay ≤ (max asked reset : Nat) * NANOS := by
  have asked_le : (asked : Int) * NANOS ≤ (max asked reset : Nat) * NANOS := by
    unfold NANOS
    omega
  have reset_le : (reset : Int) * NANOS ≤ (max asked reset : Nat) * NANOS := by
    unfold NANOS
    omega
  cases h with
  | seconds written parsed =>
    simp only [askedSeconds, written, parsed, Option.some_or, Option.some.injEq] at some_asked
    rw [some_asked]
    exact asked_le
  | @date value date written unparsed parsed =>
    simp only [askedSeconds, written, unparsed, parsed, Option.none_or, Option.map_some,
      Option.some.injEq] at some_asked
    have left := left_le (max date 0).toUInt64.toNat (sinceEpoch clock)
    rw [some_asked, date_exact, sinceEpoch_eq] at left
    have late : date.toInt * NANOS ≤ max date.toInt 0 * NANOS :=
      Int.mul_le_mul_of_nonneg_right (Int.le_max_left _ _) (by decide)
    omega
  | @reset value seconds spent written parsed =>
    simp only [resetSeconds, spent, written, parsed, if_true, Option.bind_some, Option.map_some,
      Option.some.injEq] at some_reset
    have left := left_le seconds (sinceEpoch clock)
    rw [some_reset, sinceEpoch_eq] at left
    omega
  | pause limit unsaid =>
    simp only [askedSeconds, header, unsaid, Option.bind_none, limits limit, if_true,
      Option.some.injEq] at some_asked
    rw [← some_asked] at asked_le ⊢
    exact asked_le

/-- What is asked for beyond a minute is demanded. -/
theorem Refusal.of_asked {asked reset : Nat} (early : attempt < 2)
    (some_asked : askedSeconds (sinceEpoch clock) rfc2822 response.headers attempt limited =
      some asked)
    (some_reset : resetSeconds (sinceEpoch clock) response.headers = some reset)
    (long : 60 < max asked reset) : Refusal (max clock 0) rfc2822 decode response := by
  have long : 60 < asked ∨ 60 < reset := by omega
  rcases long with long | long
  · unfold askedSeconds at some_asked
    split at some_asked
    case h_1 =>
      cases some_asked
      have short : attempt = 0 ∨ attempt = 1 := by omega
      rcases short with rfl | rfl <;> cases limited <;> simp [UInt64.size] at long
    case h_2 value written =>
      cases parsed : Text.parseU64 value with
      | some seconds =>
        simp only [parsed, Option.some_or, Option.some.injEq] at some_asked
        refine .long (.seconds written parsed) ?_
        unfold NANOS
        omega
      | none =>
        simp only [parsed, Option.none_or, Option.map_eq_some_iff] at some_asked
        obtain ⟨date, read, rfl⟩ := some_asked
        refine .long (.date written parsed read) ?_
        have left := lt_left long
        rw [date_exact, sinceEpoch_eq] at left
        have since : max date.toInt 0 = date.toInt := by
          have exact := date_exact date
          have pos : 0 < (max date 0).toUInt64.toNat :=
            Nat.lt_of_lt_of_le (Nat.zero_lt_of_lt long) (Nat.sub_le _ _)
          omega
        rwa [since] at left
  · unfold resetSeconds at some_reset
    split at some_reset
    case isTrue spent =>
      simp only [Option.map_eq_some_iff, Option.bind_eq_some_iff] at some_reset
      obtain ⟨until_, ⟨value, written, parsed⟩, rfl⟩ := some_reset
      refine .long (.reset spent written parsed) ?_
      have left := lt_left long
      rwa [sinceEpoch_eq] at left
    case isFalse =>
      cases some_reset
      omega

theorem jitter_le (now : Nat) : now % NANOS % 251 * 1000000 ≤ 250000000 := by
  have jitter : now % NANOS % 251 < 251 := Nat.mod_lt _ (by decide)
  omega

/-- A delay that is computed is as long as each demand, and bounded. -/
theorem retryDelay_ok {delay : Nat} (limits : RateLimit decode response → limited = true)
    (ok : retryDelay clock rfc2822 response.headers attempt limited = .ok delay) :
    (∀ demand, Demand (max clock 0) rfc2822 decode response demand → demand ≤ delay) ∧
      delay ≤ 60250000000 := by
  obtain ⟨asked, reset, some_asked, some_reset, short, rfl⟩ := retryDelay_ok_iff.mp ok
  refine ⟨fun demand h => ?_, ?_⟩
  · have le := h.le_asked limits some_asked some_reset
    omega
  · have jitter := jitter_le (sinceEpoch clock)
    have seconds : max asked reset * NANOS ≤ 60 * NANOS := Nat.mul_le_mul_right NANOS short
    have minute : 60 * NANOS = 60000000000 := rfl
    omega

/-- What is refused is not computed. -/
theorem Refusal.no_delay {delay : Nat} (h : Refusal (max clock 0) rfc2822 decode response)
    (limits : RateLimit decode response → limited = true) :
    retryDelay clock rfc2822 response.headers attempt limited ≠ .ok delay := by
  intro ok
  obtain ⟨asked, reset, some_asked, some_reset, short, rfl⟩ := retryDelay_ok_iff.mp ok
  cases h with
  | long demand exceeds =>
    have le := demand.le_asked limits some_asked some_reset
    have seconds : max asked reset * NANOS ≤ 60 * NANOS := Nat.mul_le_mul_right NANOS short
    omega
  | unread written unparsed unread =>
    rw [asked_none_iff.mpr ⟨_, written, unparsed, unread⟩] at some_asked
    cases some_asked
  | unknown spent unparsed =>
    rw [reset_none_iff.mpr ⟨spent, unparsed⟩] at some_reset
    cases some_reset

/-- Refusals are what no delay is computed for. -/
theorem retryDelay_error_iff {failure : ProviderError} (early : attempt < 2)
    (limits : RateLimit decode response → limited = true) :
    retryDelay clock rfc2822 response.headers attempt limited = .error failure ↔
      failure = error "rate_limit" ∧ Refusal (max clock 0) rfc2822 decode response := by
  constructor
  · intro failed
    refine ⟨retryDelay_error failed, ?_⟩
    cases some_asked : askedSeconds (sinceEpoch clock) rfc2822 response.headers attempt limited with
    | none =>
      obtain ⟨value, written, unparsed, unread⟩ := asked_none_iff.mp some_asked
      exact .unread written unparsed unread
    | some asked =>
      cases some_reset : resetSeconds (sinceEpoch clock) response.headers with
      | none =>
        obtain ⟨spent, unparsed⟩ := reset_none_iff.mp some_reset
        exact .unknown spent unparsed
      | some reset =>
        by_cases long : 60 < max asked reset
        · exact .of_asked early some_asked some_reset long
        · have ok := retryDelay_ok_iff.mpr
            ⟨asked, reset, some_asked, some_reset, Nat.le_of_not_lt long, rfl⟩
          cases failed.symm.trans ok
  · rintro ⟨rfl, refusal⟩
    cases delay : retryDelay clock rfc2822 response.headers attempt limited with
    | error failure => rw [retryDelay_error delay]
    | ok delay' => exact absurd delay (refusal.no_delay limits)

/-! ## Arithmetic -/

/-- Each operation on the delays and timestamps of a retry gives what it gives on integers. -/
structure InRange (clock : Int) (rfc2822 : String → Option Int64) (headers : HeaderMap)
    (attempt : Nat) (limited : Bool) : Prop where
  shift : 1 <<< attempt < UInt64.size
  parsed : ∀ name seconds, (header headers name).bind Text.parseU64 = some seconds →
    seconds < UInt64.size
  cast : ∀ value date, rfc2822 value = some date →
    ((max date 0).toUInt64.toNat : Int) = max date.toInt 0
  jitter : sinceEpoch clock % NANOS % 251 * 1000000 < NANOS
  sum : ∀ delay, retryDelay clock rfc2822 headers attempt limited = .ok delay →
    delay < UInt64.size * NANOS

theorem retryDelay_inRange (early : attempt < 2) :
    InRange clock rfc2822 headers attempt limited where
  shift := by
    have short : attempt = 0 ∨ attempt = 1 := by omega
    rcases short with rfl | rfl <;> decide
  parsed := by
    intro name seconds parsed
    obtain ⟨value, -, parsed⟩ := Option.bind_eq_some_iff.mp parsed
    unfold Text.parseU64 Text.parseUnsigned at parsed
    simpa using (Option.filter_eq_some_iff.mp parsed).2
  cast := fun _ date _ => date_exact date
  jitter := Nat.lt_of_le_of_lt (jitter_le _) (by decide)
  sum := by
    intro delay ok
    obtain ⟨asked, reset, -, -, short, rfl⟩ := retryDelay_ok_iff.mp ok
    have jitter := jitter_le (sinceEpoch clock)
    have seconds : max asked reset * NANOS ≤ 60 * NANOS := Nat.mul_le_mul_right NANOS short
    have room : 60 * NANOS + 250000000 < UInt64.size * NANOS := by decide
    omega

end

/-! ## One attempt -/

section

variable {decode : List UInt8 → Option Value} {exchange : Exchange} {response : Response}

theorem isLimited_iff {status : Nat} {headers : HeaderMap} {secondary : Bool} :
    isLimited status headers secondary = true ↔ secondary = true ∨ status = 429 ∨ status = 403 ∧
      (headers.get "retry-after" ≠ none ∨ header headers "x-ratelimit-remaining" = some "0") := by
  have present : headers.get "retry-after" ≠ none ↔ (headers.getAll "retry-after").isEmpty = false := by
    rw [HeaderMap.get, ne_eq, List.head?_eq_none_iff]
    cases headers.getAll "retry-after" <;> simp
  rw [present]
  simp [isLimited, or_assoc]

/-- What an attempt without a document comes from. -/
theorem operation_none {status : Nat} {headers : HeaderMap} {secondary : Bool}
    (h : operation decode exchange = .ok (status, headers, none, secondary)) :
    ∃ response, exchange = .answered response ∧ response.status = status ∧
      response.headers = headers ∧
      (status = 403 → ∃ bytes, response.body MAX_BODY = .ok bytes) ∧
      (isLimited status headers secondary = true ↔ RateLimit decode response) := by
  cases exchange with
  | failed => cases h
  | elapsed => cases h
  | answered response =>
    unfold operation at h
    dsimp only at h
    split at h
    case isTrue other =>
      cases h
      refine ⟨response, rfl, rfl, rfl, fun refused => absurd refused other.2, ?_⟩
      rw [isLimited_iff]
      constructor
      · rintro (h | h | ⟨h, -⟩)
        · cases h
        · exact .tooMany h
        · exact absurd h other.2
      · rintro (h | ⟨h, -⟩ | ⟨h, -⟩ | ⟨h, -⟩)
        · exact .inr (.inl h)
        all_goals exact absurd h other.2
    case isFalse =>
      split at h
      case h_1 => cases h
      case h_2 bytes read =>
        split at h
        case isFalse => split at h <;> cases h
        case isTrue refused =>
          cases h
          refine ⟨response, rfl, rfl, rfl, fun _ => ⟨bytes, read⟩, ?_⟩
          rw [isLimited_iff]
          constructor
          · rintro (h | h | ⟨-, h | h⟩)
            · obtain ⟨value, read', documents⟩ := (Option.any_eq_true _ _).mp h
              exact .documented refused read read' documents
            · exact .tooMany h
            · exact .retryAfter refused h
            · exact .exhausted refused h
          · rintro (h | ⟨-, h⟩ | ⟨-, h⟩ | ⟨-, read', h, documents⟩)
            · exact .inr (.inl h)
            · exact .inr (.inr ⟨refused, .inl h⟩)
            · exact .inr (.inr ⟨refused, .inr h⟩)
            · cases read.symm.trans read'
              exact .inl ((Option.any_eq_true _ _).mpr ⟨_, h, documents⟩)

/-- A response behind which a request may be repeated is an attempt without a document. -/
theorem Retried.operation (h : Retried decode response) :
    ∃ secondary, Github.operation decode (.answered response) =
      .ok (response.status, response.headers, none, secondary) := by
  unfold Github.operation
  dsimp only
  by_cases refused : response.status = 403
  · obtain ⟨bytes, read⟩ := h.read refused
    rw [if_neg (by simp [refused]), read]
    exact ⟨_, if_pos refused⟩
  · have other : response.status ≠ 200 := by
      intro success
      rcases h.again with again | again
      · rw [success] at again
        cases again
      · rcases again with h | ⟨h, -⟩ | ⟨h, -⟩ | ⟨h, -⟩ <;> omega
    exact ⟨false, if_pos ⟨other, refused⟩⟩

end

/-! ## A whole request -/

/-- What a request that is repeated owes to the server. Attempts are counted from `first` on. -/
structure Honours (client : Client) (url : Url) (accept : String) (first : Nat) (w : Wire)
    (times : Nat) (pauses : List Pause) (result : Except ProviderError (HeaderMap × Value))
    (after : Wire) : Prop where
  charged : after.budget = { w.budget with requests := w.budget.requests + times }
  sent : after.sent = w.sent ++ List.replicate times (url, accept)
  paused : after.paused = w.paused ++ pauses
  within : ∀ i < times, w.budget.requests + i < MAX_REQUESTS
  /-- There is one pause behind each of the first requests, and the last of all is followed by one only
  if no further request is left. -/
  each : pauses.map (·.after) = (List.range pauses.length).map (w.budget.requests + · + 1)
  last : times = pauses.length + 1 ∨ times = pauses.length ∧ MAX_REQUESTS ≤ after.budget.requests
  bounded : ∀ pause ∈ pauses, pause.nanoseconds ≤ 60250000000
  again : ∀ i, i + 1 < times → ∃ response,
    client.net.server (w.budget.requests + i + 1) = .answered response ∧
    Retried client.net.decode response ∧
    ∃ pause ∈ pauses, pause.after = w.budget.requests + i + 1 ∧
      ∀ delay, Demand (max (client.clock (w.budget.requests + i + 1)) 0) client.rfc2822
        client.net.decode response delay → delay ≤ pause.nanoseconds
  refused : ∀ i < times, first + i < 2 → ∀ response,
    client.net.server (w.budget.requests + i + 1) = .answered response →
    Retried client.net.decode response →
    Refusal (max (client.clock (w.budget.requests + i + 1)) 0) client.rfc2822 client.net.decode
      response → times = i + 1 ∧ result = .error (error "rate_limit")

section

variable {client : Client} {url : Url} {accept : String} {first : Nat} {w : Wire}
  {result : Except ProviderError (HeaderMap × Value)}

theorem Honours.none (spent : MAX_REQUESTS ≤ w.budget.requests) :
    Honours client url accept first w 0 [] result w where
  charged := rfl
  sent := (List.append_nil _).symm
  paused := (List.append_nil _).symm
  within := nofun
  each := rfl
  last := .inr ⟨rfl, spent⟩
  bounded := nofun
  again := nofun
  refused := nofun

/-- A request that ends with its first attempt. -/
theorem Honours.once (below : w.budget.requests < MAX_REQUESTS)
    (refused : first < 2 → ∀ response,
      client.net.server (w.budget.requests + 1) = .answered response →
      Retried client.net.decode response →
      Refusal (max (client.clock (w.budget.requests + 1)) 0) client.rfc2822 client.net.decode
        response → result = .error (error "rate_limit")) :
    Honours client url accept first w 1 [] result (w.send url accept) where
  charged := rfl
  sent := rfl
  paused := (List.append_nil _).symm
  within := fun i single => by
    obtain rfl := Nat.lt_one_iff.mp single
    exact below
  each := rfl
  last := .inl rfl
  bounded := nofun
  again := fun i more => absurd more (by omega)
  refused := fun i single early response answered retried refusal => by
    obtain rfl := Nat.lt_one_iff.mp single
    exact ⟨rfl, refused early response answered retried refusal⟩

/-- The requests of the attempts behind the first one. -/
theorem next_request (delay i : Nat) :
    ((w.send url accept).sleep delay).budget.requests + i = w.budget.requests + (i + 1) := by
  show w.budget.requests + 1 + i = _
  omega

/-- An attempt behind which the request is repeated. -/
theorem Honours.repeat {response : Response} {delay times : Nat} {pauses : List Pause} {after : Wire}
    (below : w.budget.requests < MAX_REQUESTS)
    (answered : client.net.server (w.budget.requests + 1) = .answered response)
    (retried : Retried client.net.decode response)
    (long : ∀ demand, Demand (max (client.clock (w.budget.requests + 1)) 0) client.rfc2822
      client.net.decode response demand → demand ≤ delay)
    (short : delay ≤ 60250000000)
    (allowed : ¬Refusal (max (client.clock (w.budget.requests + 1)) 0) client.rfc2822
      client.net.decode response)
    (h : Honours client url accept (first + 1) ((w.send url accept).sleep delay) times pauses result
      after) :
    Honours client url accept first w (times + 1) (⟨w.budget.requests + 1, delay⟩ :: pauses) result
      after where
  charged := by
    rw [h.charged, next_request]
    rfl
  sent := by
    rw [h.sent]
    show w.sent ++ [(url, accept)] ++ _ = _
    rw [List.append_assoc, List.singleton_append, List.replicate_succ]
  paused := by
    rw [h.paused]
    show w.paused ++ [⟨w.budget.requests + 1, delay⟩] ++ pauses = _
    rw [List.append_assoc, List.singleton_append]
  within := fun i lt => by
    cases i with
    | zero => exact below
    | succ i =>
      have within := h.within i (by omega)
      rwa [next_request] at within
  each := by
    rw [List.map_cons, h.each, List.length_cons, List.range_succ_eq_map, List.map_cons, List.map_map]
    apply congrArg (_ :: ·)
    exact List.map_congr_left fun i _ => congrArg (· + 1) (next_request delay i)
  last := h.last.imp (congrArg (· + 1)) (And.imp_left (congrArg (· + 1)))
  bounded := List.forall_mem_cons.mpr ⟨short, h.bounded⟩
  again := fun i lt => by
    cases i with
    | zero => exact ⟨response, answered, retried, _, List.mem_cons_self, rfl, long⟩
    | succ i =>
      have later := h.again i (by omega)
      rw [next_request] at later
      obtain ⟨response, answered, retried, pause, mem, rest⟩ := later
      exact ⟨response, answered, retried, pause, List.mem_cons_of_mem _ mem, rest⟩
  refused := fun i lt early response' answered' retried' refusal => by
    cases i with
    | zero =>
      cases answered.symm.trans answered'
      exact absurd refusal allowed
    | succ i =>
      have later := h.refused i (by omega) (by omega)
      rw [next_request] at later
      obtain ⟨rfl, failed⟩ := later response' answered' retried' refusal
      exact ⟨rfl, failed⟩

/-- Each attempt of a request honours what the server said before. The third one is not repeated, so
that one is always left. -/
theorem attempts_honours (client : Client) (url : Url) (accept : String) (left first : Nat)
    (w : Wire) (room : 3 ≤ first + left) (some : 0 < left) :
    ∃ times ≤ left, ∃ pauses, Honours client url accept first w times pauses
      (client.attempts url accept left first w).1 (client.attempts url accept left first w).2 := by
  induction left generalizing first w with
  | zero => exact absurd some (Nat.lt_irrefl 0)
  | succ left ih =>
    unfold Client.attempts
    split
    case isTrue spent => exact ⟨0, Nat.zero_le _, [], .none spent⟩
    case isFalse within =>
      have below := Nat.lt_of_not_le within
      dsimp only
      split
      case h_1 failure failed =>
        refine ⟨1, by omega, [], .once below fun _ response answered retried _ => ?_⟩
        obtain ⟨secondary, ok⟩ := retried.operation
        rw [← answered] at ok
        cases failed.symm.trans ok
      case h_2 headers value ok =>
        refine ⟨1, by omega, [], .once below fun _ response answered retried _ => ?_⟩
        obtain ⟨secondary, ok'⟩ := retried.operation
        rw [← answered] at ok'
        cases ok.symm.trans ok'
      case h_3 status headers secondary attempted =>
        obtain ⟨response, answered, rfl, rfl, read, limits⟩ := operation_none attempted
        split
        case isTrue retry =>
          have retried : Retried client.net.decode response :=
            ⟨retry.2.symm.imp_right limits.mp, read⟩
          have refuse : ∀ failure, retryDelay (client.clock (w.budget.requests + 1)) client.rfc2822
              response.headers first (isLimited response.status response.headers secondary) =
                .error failure ↔ failure = error "rate_limit" ∧
                  Refusal (max (client.clock (w.budget.requests + 1)) 0) client.rfc2822
                    client.net.decode response :=
            fun _ => retryDelay_error_iff retry.1 limits.mpr
          split
          case h_1 failure failed =>
            obtain ⟨rfl, -⟩ := (refuse failure).mp failed
            exact ⟨1, by omega, [], .once below fun _ _ _ _ _ => rfl⟩
          case h_2 delay ok =>
            obtain ⟨long, short⟩ := retryDelay_ok limits.mpr ok
            have early := retry.1
            obtain ⟨times, le, pauses, honours⟩ := ih (first + 1) ((w.send url accept).sleep delay)
              (by omega) (by omega)
            refine ⟨times + 1, by omega, _,
              .repeat below answered retried long short (fun refusal => ?_) honours⟩
            cases ok.symm.trans ((refuse _).mpr ⟨rfl, refusal⟩)
        case isFalse settled =>
          refine ⟨1, by omega, [], .once below fun early response' answered' retried _ => ?_⟩
          cases answered.symm.trans answered'
          exact absurd ⟨early, retried.again.symm.imp_left limits.mpr⟩ settled

end

/-- **What a request owes**: at most three attempts, each charged once and within the budget, and a
further one behind a server error or a rate limit only, after what the response demands. No operation
on a delay or a timestamp leaves its type. -/
theorem getMedia_honours (client : Client) (url : Url) (accept : String) (w : Wire) :
    (∃ times ≤ 3, ∃ pauses, Honours client url accept 0 w times pauses
      (client.getMedia url accept w).1 (client.getMedia url accept w).2) ∧
    ∀ clock headers attempt limited, attempt < 2 →
      InRange clock client.rfc2822 headers attempt limited :=
  ⟨attempts_honours client url accept 3 0 w (by decide) (by decide),
    fun _ _ _ _ early => retryDelay_inRange early⟩

/-! ## Three servers -/

/-- A server that first answers with this, and then with an empty document. -/
def retryClient (clock : Int) (first : Response) : Client where
  id := "github"
  organizations := ["acme"]
  origin := ⟨"https://api.github.com/", some ("https", "api.github.com", 443), "", none, "/", [],
    none⟩
  crate := {
    parse := fun _ => none
    join := fun _ _ => none
    withSegments := fun base _ => some base
    extendPairs := fun url _ => url }
  net := {
    server := fun request =>
      .answered (if request = 1 then first else ⟨200, [], none, [HeaderValue.ofString "[]"], false⟩)
    decode := fun bytes => if bytes = HeaderValue.ofString "[]" then some (.array []) else none }
  clock := fun _ => clock
  rfc2822 := fun _ => none

/-- The first request of this client. -/
def firstRequest (clock : Int) (first : Response) :
    Except ProviderError (HeaderMap × Value) × Wire :=
  (retryClient clock first).get (retryClient clock first).origin ⟨⟨0, 0⟩, [], []⟩

/-- A response without a body, with these headers. -/
def refusal (status : Nat) (headers : List (String × String)) : Response :=
  ⟨status, headers.map fun (name, value) => (name, .ofString value), none, [], false⟩

/-- A rate limit is waited for. -/
theorem getMedia_honours_busy :
    (firstRequest 1000000250 (refusal 429 [("retry-after", "2")])).2.paused =
      [⟨1, 2 * NANOS + 250 * 1000000⟩] ∧
    (∃ times ≤ 3, ∃ pauses, Honours (retryClient 1000000250 (refusal 429 [("retry-after", "2")]))
      (retryClient 1000000250 (refusal 429 [("retry-after", "2")])).origin
      "application/vnd.github+json" 0 ⟨⟨0, 0⟩, [], []⟩ times pauses
      (firstRequest 1000000250 (refusal 429 [("retry-after", "2")])).1
      (firstRequest 1000000250 (refusal 429 [("retry-after", "2")])).2) ∧
    InRange 1000000250 (fun _ => none) (refusal 429 [("retry-after", "2")]).headers 0 true :=
  have honours := getMedia_honours (retryClient 1000000250 (refusal 429 [("retry-after", "2")]))
    (retryClient 1000000250 (refusal 429 [("retry-after", "2")])).origin
    "application/vnd.github+json" ⟨⟨0, 0⟩, [], []⟩
  ⟨by decide +kernel, honours.1, honours.2 _ _ 0 true (by decide)⟩

/-- A limit that is lifted ten seconds after 1970. -/
def earlyReset : Response :=
  refusal 503 [("x-ratelimit-remaining", "0"), ("x-ratelimit-reset", "10")]

/-- A documented rate limit with a body that is too large. -/
def largeLimit : Response :=
  { refusal 403 [("retry-after", "120")] with contentLength := some (MAX_BODY + 1) }

/-- A rate limit with two demands. -/
def twoDemands : Response := refusal 429 [("retry-after", "1"), ("retry-after", "30")]

/-- A clock before 1970 is further from the reset than the pause is long, a large body hides what a rate
limit demands, and so does the first of two demands. -/
theorem demand_missed :
    ((firstRequest (-100 * NANOS) earlyReset).2.sent.length = 2 ∧
      (firstRequest (-100 * NANOS) earlyReset).2.paused = [⟨1, 10 * NANOS⟩] ∧
      Demand (-100 * NANOS) (retryClient (-100 * NANOS) earlyReset).rfc2822
        (retryClient (-100 * NANOS) earlyReset).net.decode earlyReset (110 * NANOS)) ∧
    ((firstRequest 0 largeLimit).1 = .error (error "limit") ∧
      RateLimit (retryClient 0 largeLimit).net.decode largeLimit ∧
      Demand 0 (retryClient 0 largeLimit).rfc2822 (retryClient 0 largeLimit).net.decode largeLimit
        (120 * NANOS)) ∧
    ((firstRequest 0 twoDemands).2.sent.length = 2 ∧
      (firstRequest 0 twoDemands).2.paused = [⟨1, 1 * NANOS⟩]) := by
  have late : (110 * NANOS : Int) = (10 : Nat) * NANOS - -100 * NANOS := by decide
  refine ⟨⟨by decide +kernel, by decide +kernel, ?_⟩, ⟨rfl, ?_, ?_⟩, by decide +kernel,
    by decide +kernel⟩
  · rw [late]
    exact @Demand.reset _ _ _ _ "10" 10 (by decide +kernel) (by decide +kernel) (by decide +kernel)
  · exact .retryAfter rfl (by decide +kernel)
  · exact @Demand.seconds _ _ _ _ "120" 120 (by decide +kernel) (by decide +kernel)

end Permesh.Github

import Permesh.Google.Protocol
import Permesh.Laws.Google.Pages
import Permesh.Laws.Native.Stream

/-!
# Laws.Google.Session — what a session of the Google provider streams

Every failure of the provider is one of `error`, whose texts are shorter than those on visibility. A
collection has nothing but records of users (`Kept`), each under its identifier. So every session of
the provider is streamed well (`google_streams`), and no record of it has the access token in it,
whether that was given or issued for the session (`google_hides_token`).

The token is looked for in records only. Health reports, errors and the complete event are made of
fixed codes and numbers and are not considered, and neither is what the provider sends to Google. The
runtime takes at most 100,000 entries: a collection passes up to half as many accounts
(`google_published`), whatever its bytes.
-/

namespace Permesh.Google

open Permesh.Json Permesh.Lib Permesh.Native

variable {provider : GoogleProvider}

/-! ## Failures -/

/-- A failure of the provider. -/
def Known (failure : ProviderError) : Prop := ∃ code, failure = error code

theorem known_error (code : String) : Known (error code) := ⟨code, rfl⟩

theorem retryDelay_known {remaining : String → Option Int} {headers : Http.HeaderMap} {attempt : Nat}
    {failure : ProviderError} (h : retryDelay remaining headers attempt = .error failure) :
    Known failure := by
  unfold retryDelay at h
  dsimp only at h
  split at h
  · cases h
  split at h
  · cases h
    exact known_error _
  split at h
  · cases h
    exact known_error _
  split at h
  · cases h
    exact known_error _
  · cases h

theorem attempts_known {left attempt requests : Nat} {failure : ProviderError}
    (h : (provider.attempts left attempt requests).1 = .error failure) : Known failure := by
  induction left generalizing attempt requests with
  | zero =>
    cases h
    exact known_error _
  | succ left ih =>
    unfold GoogleProvider.attempts at h
    dsimp only at h
    split at h
    · cases h
      exact known_error _
    · cases h
      exact known_error _
    · split at h
      · cases h
        exact known_error _
      · split at h
        · split at h
          · cases h
          · cases h
            exact known_error _
        · split at h
          · split at h
            case h_1 delayed =>
              cases h
              exact retryDelay_known delayed
            · exact ih h
          · cases h
            exact known_error _

theorem users_known {value : Value} {failure : ProviderError} (h : users value = .error failure) :
    Known failure := by
  unfold users at h
  split at h
  · cases h
    exact known_error _
  split at h
  · cases h
  · cases h
  · cases h
    exact known_error _

/-- A page that is not listed. -/
theorem listed_known {token : Option String} {size : Nat} {w : Wire} {failure : ProviderError}
    (h : listed (provider.page token size w).1 = .error failure) : Known failure := by
  cases answered : (provider.page token size w).1 with
  | error e =>
    rw [answered] at h
    cases h
    unfold GoogleProvider.page at answered
    exact attempts_known answered
  | ok value =>
    rw [answered] at h
    exact users_known h

theorem record_known {row : Value} {failure : ProviderError}
    (h : provider.record row = .error failure) : Known failure := by
  unfold GoogleProvider.record at h
  split at h
  · cases h
    exact known_error _
  split at h
  · cases h
    exact known_error _
  split at h
  · cases h
    exact known_error _
  dsimp only at h
  split at h
  · cases h
    exact known_error _
  · cases h

/-! ## Remarks -/

/-- The remarks of a snapshot. -/
abbrev Remarked (s : Snapshot) : Prop := Remarks VISIBILITY (· ∉ VISIBILITY) s

theorem message_short (code : String) : Text.len (error code).message ≤ 140 := by
  unfold error
  dsimp only
  split <;> decide +kernel

theorem visibility_long : ∀ v ∈ VISIBILITY, 140 < Text.len v := by decide +kernel

/-- No failure is a text on visibility. -/
theorem message_apart {failure : ProviderError} (h : Known failure) : failure.message ∉ VISIBILITY := by
  obtain ⟨code, rfl⟩ := h
  intro mem
  exact absurd (message_short code) (Nat.not_le.mpr (visibility_long _ mem))

theorem Remarked.fail {s : Snapshot} (h : Remarked s) {failure : ProviderError}
    (known : Known failure) : Remarked (fail s failure) :=
  Remarks.fail h (message_apart known) (fun _ mem apart => apart mem) rfl rfl

/-! ## Collections -/

/-- **The collection at any time**: its remarks, and records of users under their identifiers. -/
structure Kept (provider : GoogleProvider) (p : Progress) : Prop where
  remarked : Remarked p.snapshot
  bare : p.snapshot = { Snapshot.new provider.id with
    complete := p.snapshot.complete, limitations := p.snapshot.limitations }
  records : ∀ k a i, p.records[k]? = some (a, i) → a.key.id = k ∧ ∃ row, RecordIs provider row a i

theorem Kept.fail {p : Progress} (h : Kept provider p) {failure : ProviderError}
    (known : Known failure) : Kept provider { p with snapshot := fail p.snapshot failure } :=
  ⟨h.remarked.fail known, congrArg (Google.fail · failure) h.bare, h.records⟩

theorem Kept.takeRow {p : Progress} (h : Kept provider p) (row : Value) :
    Kept provider (provider.takeRow p row) := by
  have entered (ids : Std.ExtTreeSet String) : Kept provider { p with ids := ids } :=
    ⟨h.remarked, h.bare, h.records⟩
  unfold GoogleProvider.takeRow
  extract_lets seen q
  have named : Kept provider q := by
    unfold q
    split
    · exact entered _
    · exact h
  clear_value q seen
  cases seen with
  | some id =>
    -- The row takes back what was entered under its identifier.
    have erased : Kept provider { q with records := q.records.erase id } := by
      refine ⟨named.remarked, named.bare, fun k a i there => ?_⟩
      dsimp only at there
      rw [getElem?_erase_key] at there
      split at there
      · cases there
      · exact named.records k a i there
    exact erased.fail (known_error _)
  | none =>
    dsimp only
    split
    case h_1 rejected => exact named.fail (record_known rejected)
    case h_2 account identity malformed accepted =>
      have added : Kept provider { q with
          records := q.records.insert account.key.id (account, identity) } := by
        refine ⟨named.remarked, named.bare, fun k a i there => ?_⟩
        dsimp only at there
        rw [getElem?_insert_key] at there
        split at there
        case isTrue same =>
          cases there
          exact ⟨same, row, record_ok accepted⟩
        · exact named.records k a i there
      split
      · exact added.fail (known_error _)
      · exact added

theorem Kept.receive {page : Nat} {p : Progress} (h : Kept provider p) (values : Value)
    (users : List Value) : Kept provider (provider.receive page p values users).1 := by
  have taken : Kept provider ((users.take (min PAGE_SIZE (MAX_ROWS - p.rows))).foldl
      provider.takeRow p) :=
    List.foldlRecOn (motive := Kept provider) _ _ h fun _ h row _ => h.takeRow row
  unfold GoogleProvider.receive
  extract_lets fold q
  replace taken : Kept provider q := ⟨taken.remarked, taken.bare, taken.records⟩
  split
  · exact taken.fail (known_error _)
  split
  · exact taken
  split
  · exact taken.fail (known_error _)
  · extract_lets r
    replace taken : Kept provider r := ⟨taken.remarked, taken.bare, taken.records⟩
    split
    · exact taken.fail (known_error _)
    · exact taken

theorem Kept.turn {page : Nat} {p : Progress} (h : Kept provider p) :
    Kept provider (provider.turn page p).1 := by
  have asked : Kept provider (provider.asked p) := ⟨h.remarked, h.bare, h.records⟩
  cases list : listed (provider.page p.token PAGE_SIZE p.wire).1 with
  | error failure =>
    rw [turn_error list]
    split
    · exact asked
    · exact asked.fail (listed_known list)
  | ok rows =>
    cases answered : (provider.page p.token PAGE_SIZE p.wire).1 with
    | error failure =>
      rw [answered] at list
      cases list
    | ok values =>
      rw [answered] at list
      rw [turn_ok answered list]
      exact asked.receive values rows

/-- **The page loop keeps the collection.** -/
theorem Kept.pages {left page : Nat} {p p' : Progress} (h : Kept provider p)
    (ok : provider.pages left page p = .ok p') : Kept provider p' := by
  induction left generalizing page p with
  | zero =>
    cases ok
    exact h
  | succ left ih =>
    have turned : Kept provider (provider.turn page p).1 := h.turn
    unfold GoogleProvider.pages at ok
    split at ok
    · cases ok
    case h_2 stopped =>
      cases ok
      rwa [stopped] at turned
    case h_3 continued =>
      rw [continued] at turned
      exact ih turned ok

theorem kept_start : Kept provider provider.start where
  remarked := .start _ _ _ rfl rfl
  bare := rfl
  records k a i there := by
    change (∅ : Std.ExtTreeMap String (Account × Identity))[k]? = _ at there
    rw [Std.ExtTreeMap.getElem?_empty] at there
    cases there

/-- What a collection returns is the sorted graph of what it has gathered. -/
theorem collect_gather {core : Core} {snapshot : Snapshot}
    (ok : provider.collect core = .ok snapshot) :
    ∃ p, provider.gather = .ok p ∧ snapshot = core.sort p.graph := by
  unfold GoogleProvider.collect at ok
  split at ok
  · cases ok
  case h_2 p gathered =>
    dsimp only at ok
    split at ok
    · cases ok
    · cases ok
      exact ⟨p, gathered, rfl⟩

/-- **What is collected is closed under reference.** -/
theorem Kept.integral {p : Progress} (h : Kept provider p) : p.graph.Integral := by
  have keyed : KeyedBy (fun pair : Account × Identity => pair.1.key.id) p.records :=
    fun k pair there => (h.records k pair.1 pair.2 there).1
  unfold Progress.graph
  rw [h.bare]
  constructor
  · exact fun _ mem => by cases mem
  · exact fun _ mem => by cases mem
  · exact fun _ mem => by cases mem
  · have once := keyed.nodup
    dsimp only [Snapshot.new]
    rw [List.nil_append, List.map_map]
    apply List.Nodup.of_map (·.id)
    rwa [List.map_map]
  · exact List.nodup_nil
  · exact List.nodup_nil
  · exact List.nodup_nil

/-! ## The provider -/

theorem visibility_code : ∀ v ∈ VISIBILITY, limitationCode v = "visibility_limited" :=
  fun _ mem => if_pos mem

theorem reason_code {v : String} (apart : v ∉ VISIBILITY) :
    limitationCode v ≠ "visibility_limited" := by
  unfold limitationCode
  rw [if_neg apart]
  split
  · decide
  split
  · decide
  split <;> decide

theorem check_limitations {health : Health} (ok : provider.check = .ok health) :
    health.limitations = VISIBILITY := by
  unfold GoogleProvider.check at ok
  obtain ⟨value, -, ok⟩ := bind_ok ok
  obtain ⟨users, -, ok⟩ := bind_ok ok
  dsimp only at ok
  split at ok
  · cases ok
  · obtain ⟨-, -, ok⟩ := bind_ok ok
    cases ok
    rfl

variable {K : Crates} {setup : K.SetupSpec} {browserAuth : K.BrowserAuthSpec} {world : World}

/-- The provider is fair. -/
theorem fair_provider (provider : GoogleProvider) :
    Fair (adapter K setup browserAuth) (provider.provider K.core) := by
  refine .remarks rfl (List.cons_ne_nil _ _) visibility_code (fun _ => reason_code)
    (fun health ok => check_limitations ok) fun snapshot ok => ?_
  obtain ⟨p, gathered, rfl⟩ := collect_gather ok
  have kept := kept_start.pages gathered
  exact ⟨kept.integral.sort K.core, kept.remarked.congr rfl rfl⟩

/-- **What a host reads from the Google provider**, in every run of a session and wherever it is cut
off. -/
theorem google_streams
    {fromSlice : List UInt8 → Option (WireRequest (adapter K setup browserAuth))}
    {serializer : Serializer K} {networkEnabled : Bool} {signals : List Lib.Signal}
    {m : Lib.Machine (sig (adapter K setup browserAuth))}
    (run : (Native.start (host K setup browserAuth world fromSlice serializer) networkEnabled).run
      (port (host K setup browserAuth world fromSlice serializer)) signals = some m) :
    Streamed (answers (begun m.link.trace)) := by
  refine Session.streamed (fun instanceId configuration credentials network provider built => ?_) run
  obtain ⟨token, -, built⟩ := bind_ok built
  obtain ⟨p, -, returned⟩ := bind_ok built
  cases returned
  exact fair_provider p

/-- A server with one user and one whose address has the access token in it, which is issued for a
refresh token. -/
def sampleWorld : World where
  net := sampleNet
  remaining _ _ := none
  builds := true
  issuer := {
    post := fun _ _ => .answered ⟨200, [], none, [], false⟩
    decode := fun _ => some ⟨"ya29", "bearer", 3600⟩
    builds := true }

/-- A session with one customer. -/
def sampleHost : Host (adapter Sample.crates () ()) :=
  host Sample.crates () () sampleWorld
    (Sample.decoding (adapter Sample.crates () ())
      (⟨"C01", .refreshToken, some "client"⟩ : Configuration)
      (⟨none, some "refresh", some "secret"⟩ : Credentials))
    Sample.brief

/-- The whole answer of a discovery: an account, its identity, and the complete event. -/
theorem google_streams_discovery :
    ∃ m, (Native.start sampleHost true).run (port sampleHost) (Sample.discovery 3) = some m ∧
      (answers (begun m.link.trace)).length = 3 ∧ Streamed (answers (begun m.link.trace)) := by
  have three : ((Native.start sampleHost true).run (port sampleHost) (Sample.discovery 3)).any
      (fun m => (answers (begun m.link.trace)).length == 3) = true := by decide +kernel
  obtain ⟨m, run, all⟩ := (Option.any_eq_true _ _).mp three
  exact ⟨m, run, beq_iff_eq.mp all, google_streams run⟩

/-! ## Reflected tokens -/

/-- No string of a record has the token in it. -/
theorem Kept.hides {p : Progress} (h : Kept provider p) {entry : Entry}
    (mem : entry ∈ p.graph.entries) :
    ∀ t ∈ entry.project.strings, Text.contains provider.token t = false := by
  have hidden {pair : Account × Identity} (there : pair ∈ values p.records) : ∀ t ∈
      accountStrings pair.1 ++ identityStrings pair.2, Text.contains provider.token t = false := by
    obtain ⟨k, there⟩ := mem_values.mp there
    obtain ⟨-, row, record⟩ := h.records k pair.1 pair.2 there
    exact record.hides
  unfold Progress.graph at mem
  rw [h.bare] at mem
  simp only [Snapshot.entries, Snapshot.new, List.nil_append, List.map_nil, List.append_nil,
    List.map_map, List.mem_append, List.mem_map] at mem
  rcases mem with ⟨pair, there, rfl⟩ | ⟨pair, there, rfl⟩
  · exact fun t mem => hidden there t (List.mem_append_left _ mem)
  · exact fun t mem => hidden there t (List.mem_append_right _ mem)

/-- The provider of a session has the access token of the session. -/
theorem token_of_host {id : String} {config : Configuration} {credentials : Credentials}
    {network : Option NetworkContext} {token : String}
    {fromSlice : List UInt8 → Option (WireRequest (adapter K setup browserAuth))}
    {serializer : Serializer K} {built : Native.Provider}
    (issued : accessToken K world config credentials network = .ok token)
    (ok : (host K setup browserAuth world fromSlice serializer).factory id config credentials network =
      .ok built) : ∃ p : GoogleProvider, p.token = token ∧ built = p.provider K.core := by
  obtain ⟨_, same, ok⟩ := bind_ok ok
  rw [issued] at same
  cases same
  obtain ⟨p, made, ok⟩ := bind_ok ok
  cases ok
  obtain ⟨q, made, rest⟩ := bind_ok made
  obtain ⟨-, -, returned⟩ := bind_ok rest
  cases returned
  refine ⟨p, ?_, rfl⟩
  unfold GoogleProvider.new at made
  split at made
  · cases made
    rfl
  · cases made

/-- **The access token stays inside**, also one that was issued for the session: in every run of a
session and wherever it is cut off, no string of a record has it in it. -/
theorem google_hides_token
    {fromSlice : List UInt8 → Option (WireRequest (adapter K setup browserAuth))}
    {serializer : Serializer K} {networkEnabled : Bool} {signals : List Lib.Signal}
    {m : Lib.Machine (sig (adapter K setup browserAuth))}
    (run : (Native.start (host K setup browserAuth world fromSlice serializer) networkEnabled).run
      (port (host K setup browserAuth world fromSlice serializer)) signals = some m)
    {d : Delivery (adapter K setup browserAuth)} (delivered : d ∈ deliveries m.link.trace)
    {token : String} (issued : accessToken K world d.configuration d.credentials d.network = .ok token)
    {value : Wire.Record} (mem : .record value ∈ answers (begun m.link.trace)) :
    ∀ t ∈ value.strings, ¬ token.toList <:+: t.toList := by
  obtain ⟨d', built, snapshot, one, made, returned, entry, there, rfl⟩ := Session.recorded run mem
  rw [one] at delivered
  cases List.mem_singleton.mp delivered
  obtain ⟨p, rfl, rfl⟩ := token_of_host issued made
  obtain ⟨q, gathered, rfl⟩ := collect_gather returned
  intro t string
  have hidden := (kept_start.pages gathered).hides ((Snapshot.mem_entries_sort _).mp there) t string
  rwa [← Bool.not_eq_true, Text.contains_iff] at hidden

/-- The records of the other user, in a session whose token was issued for it. -/
theorem google_hides_token_discovery :
    ∃ m d value, (Native.start sampleHost true).run (port sampleHost) (Sample.discovery 3) = some m ∧
      deliveries m.link.trace = [d] ∧
      accessToken Sample.crates sampleWorld d.configuration d.credentials d.network = .ok "ya29" ∧
      .record value ∈ answers (begun m.link.trace) ∧
      ∀ t ∈ value.strings, ¬ "ya29".toList <:+: t.toList := by
  let given (d : Delivery (adapter Sample.crates () ())) : Bool :=
    (accessToken Sample.crates sampleWorld d.configuration d.credentials d.network).toOption ==
      some "ya29"
  have told : ((Native.start sampleHost true).run (port sampleHost) (Sample.discovery 3)).any
      (fun m => (answers (begun m.link.trace)).any Event.isRecord &&
        (deliveries m.link.trace).all given) = true := by decide +kernel
  obtain ⟨m, run, told⟩ := (Option.any_eq_true _ _).mp told
  obtain ⟨some, all⟩ := Bool.and_eq_true_iff.mp told
  obtain ⟨e, mem, record⟩ := List.any_eq_true.mp some
  cases e with
  | record value =>
    obtain ⟨d, _, _, one, made, -⟩ := Session.recorded run mem
    have there : d ∈ deliveries m.link.trace := one ▸ List.mem_cons_self
    have issued := beq_iff_eq.mp (List.all_eq_true.mp all d there)
    cases token : accessToken Sample.crates sampleWorld d.configuration d.credentials d.network with
    | error e =>
      rw [token] at issued
      cases issued
    | ok t =>
      rw [token] at issued
      cases issued
      exact ⟨m, d, value, run, one, token, mem, google_hides_token run there token mem⟩
  | _ => cases record

/-! ## The stream of the runtime -/

/-- No more rows are processed than `MAX_ROWS` allows. -/
theorem taken_length (before : Nat) (outcomes : List (Except ProviderError Value)) :
    (taken before outcomes).length ≤ MAX_ROWS - before := by
  induction outcomes generalizing before with
  | nil => exact Nat.zero_le _
  | cons outcome outcomes ih =>
    have rest := ih (before + (rowsOf outcome).length)
    rw [taken, List.length_append, List.length_take]
    omega

/-- What a collection has gathered. -/
theorem collected_of_gather {p : Progress} (gathered : provider.gather = .ok p) :
    Collected provider p := by
  cases first : provider.firstPage with
  | error failure =>
    rw [gather_first first] at gathered
    cases gathered
  | ok rows =>
    obtain ⟨p', same, collected, -⟩ := gather_rest first
    rw [gathered] at same
    cases same
    exact collected

/-- What a collection returns: as many identities as accounts, each of them from a row. -/
theorem collect_length {core : Core} {snapshot : Snapshot}
    (ok : provider.collect core = .ok snapshot) : snapshot.provider = provider.id ∧
      snapshot.accounts.length ≤ MAX_ROWS ∧
      snapshot.entries.length = 2 * snapshot.accounts.length := by
  obtain ⟨p, gathered, rfl⟩ := collect_gather ok
  have kept := kept_start.pages gathered
  have collected := collected_of_gather gathered
  have accounts : p.graph.accounts = (values p.records).map Prod.fst := by
    rw [Progress.graph, collected.behind.bare.1, List.nil_append]
  have identities : p.graph.identities = (values p.records).map Prod.snd := by
    rw [Progress.graph, collected.behind.bare.2, List.nil_append]
  have others : p.graph.resources = [] ∧ p.graph.groups = [] ∧ p.graph.memberships = [] ∧
      p.graph.grants = [] := by
    unfold Progress.graph
    rw [kept.bare]
    exact ⟨rfl, rfl, rfl, rfl⟩
  obtain ⟨resources, groups, memberships, grants⟩ := others
  have rows : (values p.records).length ≤ MAX_ROWS := by
    rw [collected.behind.values.length_eq]
    apply Nat.le_trans (List.length_filterMap_le _ _)
    exact Nat.le_trans (List.length_filter_le _ _) (taken_length 0 p.outcomes)
  have sorted : (core.sort p.graph).accounts.length = (values p.records).length := by
    rw [← List.length_map (f := Prod.fst), ← accounts]
    exact (core.accounts_perm _).length_eq
  refine ⟨?_, ?_, ?_⟩
  · show p.graph.provider = provider.id
    unfold Progress.graph
    rw [kept.bare]
    rfl
  · rw [sorted]
    exact rows
  · rw [sorted, ← Snapshot.count_entries, Snapshot.count_sort, Snapshot.count, accounts, identities,
      resources, groups, memberships, grants, List.length_map, List.length_map]
    simp only [List.length_nil]
    omega

/-- **Each account has one identity**, of the same user, and no two accounts have the same key. -/
def Paired (provider : GoogleProvider) (s : Snapshot) : Prop :=
  (s.accounts.map (·.key)).Nodup ∧ ∃ pairs : List (Account × Identity),
    s.accounts.Perm (pairs.map Prod.fst) ∧ s.identities.Perm (pairs.map Prod.snd) ∧
      ∀ pair ∈ pairs, pair.2.id = s!"google:{provider.customerId}:{pair.1.key.id}" ∧
        pair.2.status = pair.1.status ∧ pair.2.verifiedEmails = pair.1.verifiedEmails

theorem collect_paired {core : Core} {snapshot : Snapshot}
    (ok : provider.collect core = .ok snapshot) : Paired provider snapshot := by
  obtain ⟨p, gathered, rfl⟩ := collect_gather ok
  have shows := (collected_of_gather gathered).shows core
  refine ⟨((kept_start.pages gathered).integral.sort core).accountsOnce, ?_⟩
  refine ⟨_, shows.accounts _ (.refl _), shows.identities _ (.refl _), ?_⟩
  intro pair mem
  obtain ⟨row, -, record⟩ := recordIs_of_kept mem
  exact ⟨record.identity, record.same⟩

/-- **Which discoveries pass.** A collection may have up to `MAX_ROWS` accounts, each of them with an
identity. The runtime takes half as many: a collection with more accounts is refused as a whole. What
passes may still exceed the bytes that the output takes. -/
theorem google_published (p : GoogleProvider) (snapshot : Snapshot)
    (ok : p.collect K.core = .ok snapshot) :
    snapshot.accounts.length ≤ MAX_ROWS ∧ Paired p snapshot ∧
      provided (adapter K setup browserAuth) (p.provider K.core) false p.id =
        if snapshot.accounts.length ≤ 50000 ∧ K.core.validate snapshot = true then
          .ok (published (adapter K setup browserAuth) (K.core.sort snapshot))
        else .error .internal := by
  obtain ⟨provider, rows, records⟩ := collect_length ok
  refine ⟨rows, collect_paired ok, ?_⟩
  have discovered : (p.provider K.core).discover = .ok snapshot := ok
  unfold provided
  rw [if_neg Bool.false_ne_true, discovered]
  refine if_congr ?_ rfl rfl
  rw [records]
  constructor
  · rintro ⟨-, valid, few⟩
    exact ⟨by omega, valid⟩
  · rintro ⟨few, valid⟩
    exact ⟨provider, valid, by omega⟩

/-- The collection of one user. -/
theorem google_published_user : ∃ snapshot, sampleProvider.collect Core.plain = .ok snapshot ∧
    provided (adapter Sample.crates () ()) (sampleProvider.provider Core.plain) false "google" =
      .ok (published (adapter Sample.crates () ()) snapshot) := by
  have few : (sampleProvider.collect Core.plain).toOption.any
      (fun snapshot => snapshot.accounts.length == 1) = true := by decide +kernel
  cases ok : sampleProvider.collect Core.plain with
  | error failure =>
    rw [ok] at few
    cases few
  | ok snapshot =>
    rw [ok] at few
    have one : snapshot.accounts.length = 1 := beq_iff_eq.mp few
    refine ⟨snapshot, rfl, ?_⟩
    exact (google_published sampleProvider snapshot ok).2.2.trans (if_pos ⟨by omega, rfl⟩)

end Permesh.Google

import Permesh.Google.Records
import Permesh.Laws.Text
import Permesh.Lib.Once

/-!
# Laws.Google.Records — users and reflected tokens

What `record` makes of a row, and that nothing of it contains the access token. The rows taken in
are those whose identifier occurs once; the snapshot stays complete as long as every row was accepted
and none had the identifier of another (`Behind.takeRow`).

The rows are taken one by one, and the invariant compares the records with the rows so far. A second row
with an identifier removes the first one, so the invariant speaks of the rows that occur once.
-/

namespace Permesh.Google

open Permesh.Json Permesh.Lib

variable {provider : GoogleProvider}

/-! ## One row -/

/-- What `record` accepts, and what it makes of it. -/
structure RecordIs (provider : GoogleProvider) (row : Value) (a : Account) (i : Identity) :
    Prop where
  rawId : rawId row = some a.key.id
  providerId : a.key.provider = provider.id
  emails : a.verifiedEmails = [a.login]
  same : i.status = a.status ∧ i.verifiedEmails = a.verifiedEmails
  identity : i.id = s!"google:{provider.customerId}:{a.key.id}"
  id : Text.contains provider.token a.key.id = false
  email : Text.contains provider.token a.login = false
  identityId : Text.contains provider.token i.id = false

theorem record_ok {row : Value} {a : Account} {i : Identity} {malformed : Bool}
    (ok : provider.record row = .ok (a, i, malformed)) : RecordIs provider row a i := by
  unfold GoogleProvider.record at ok
  split at ok
  · cases ok
  case h_2 id hid =>
    split at ok
    · cases ok
    split at ok
    · cases ok
    case h_2 email hemail =>
      dsimp only at ok
      split at ok
      · cases ok
      case isFalse fresh =>
        simp only [Bool.or_eq_true, not_or, Bool.not_eq_true] at fresh
        cases ok
        obtain ⟨⟨fresh_id, fresh_email⟩, fresh_identity⟩ := fresh
        exact ⟨(Option.filter_eq_some_iff.mp hid).1, rfl, rfl, ⟨rfl, rfl⟩, rfl, fresh_id,
          fresh_email, fresh_identity⟩

/-- The account and the identity of a row that is accepted. -/
def GoogleProvider.accepted (provider : GoogleProvider) (row : Value) :
    Option (Account × Identity) :=
  (provider.record row).toOption.map fun r => (r.1, r.2.1)

theorem accepted_iff {row : Value} {a : Account} {i : Identity} :
    provider.accepted row = some (a, i) ↔
      ∃ malformed, provider.record row = .ok (a, i, malformed) := by
  unfold GoogleProvider.accepted
  cases provider.record row with
  | error e => simp [Except.toOption]
  | ok r =>
    obtain ⟨a', i', malformed⟩ := r
    simp [Except.toOption]

/-- The accounts and identities of the rows that are accepted and whose identifier no other row
has. -/
def GoogleProvider.kept (provider : GoogleProvider) (rows : List Value) :
    List (Account × Identity) :=
  (once rawId rows).filterMap provider.accepted

theorem recordIs_of_kept {rows : List Value} {a : Account} {i : Identity}
    (mem : (a, i) ∈ provider.kept rows) : ∃ row ∈ rows, RecordIs provider row a i := by
  obtain ⟨row, there, acc⟩ := List.mem_filterMap.mp mem
  obtain ⟨malformed, ok⟩ := accepted_iff.mp acc
  exact ⟨row, (List.mem_filter.mp there).1, record_ok ok⟩

/-! ## The rows of a run -/

/-- The records, with the identifiers that occurred. -/
def Progress.single (p : Progress) : Single String (Account × Identity) := ⟨p.records, p.ids⟩

/-- A row is entered under its identifier, or takes back what was entered. -/
theorem single_takeRow (p : Progress) (row : Value) :
    (provider.takeRow p row).single = p.single.take rawId provider.accepted row := by
  unfold GoogleProvider.takeRow Single.take
  cases hid : rawId row with
  | none =>
    dsimp only [Option.filter_none]
    split
    · rfl
    case h_2 ok =>
      rw [(record_ok ok).rawId] at hid
      cases hid
  | some k =>
    dsimp only
    by_cases old : k ∈ p.ids
    · have there : k ∈ p.single.seen := old
      have same : p.ids.insert k = p.ids := by
        ext a
        rw [mem_insert_key, or_iff_right_of_imp]
        rintro rfl
        exact old
      rw [Option.filter_some, if_pos (by simpa using old), if_pos there, same]
      rfl
    · have there : k ∉ p.single.seen := old
      rw [Option.filter_some, if_neg (by simpa using old), if_neg there]
      dsimp only
      cases found : provider.record row with
      | error e =>
        have rejected : provider.accepted row = none := by
          simp [GoogleProvider.accepted, found, Except.toOption]
        rw [rejected]
        rfl
      | ok r =>
        obtain ⟨a, i, malformed⟩ := r
        have key := (record_ok found).rawId
        rw [hid, Option.some.injEq] at key
        rw [accepted_iff.mpr ⟨malformed, found⟩, key]
        rfl

variable (provider) in
/-- A row changes the records, the identifiers and what the snapshot says of itself. -/
theorem takeRow_frame (p : Progress) (row : Value) : ∃ complete limitations records ids,
    provider.takeRow p row = { p with
      snapshot := { p.snapshot with complete := complete, limitations := limitations }
      records := records
      ids := ids } := by
  unfold GoogleProvider.takeRow
  cases rawId row with
  | none =>
    dsimp only [Option.filter_none]
    split
    · exact ⟨_, _, _, _, rfl⟩
    · split
      · exact ⟨_, _, _, _, rfl⟩
      · exact ⟨_, _, _, _, rfl⟩
  | some k =>
    dsimp only
    split
    · exact ⟨_, _, _, _, rfl⟩
    split
    · exact ⟨_, _, _, _, rfl⟩
    · split
      · exact ⟨_, _, _, _, rfl⟩
      · exact ⟨_, _, _, _, rfl⟩

/-- A row without a flaw. -/
def GoogleProvider.Flawless (provider : GoogleProvider) (row : Value) : Prop :=
  ∃ a i, provider.record row = .ok (a, i, false)

/-- The snapshot stays complete behind a row without a flaw whose identifier is new. -/
theorem takeRow_complete (p : Progress) (row : Value) :
    (provider.takeRow p row).snapshot.complete = true ↔
      p.snapshot.complete = true ∧ provider.Flawless row ∧ ∀ k, rawId row = some k → k ∉ p.ids := by
  have flaw {failure : ProviderError} (h : provider.record row = .error failure) :
      ¬ provider.Flawless row := by
    rintro ⟨a, i, ok⟩
    rw [h] at ok
    cases ok
  have judged {a : Account} {i : Identity} {malformed : Bool}
      (h : provider.record row = .ok (a, i, malformed)) :
      provider.Flawless row ↔ malformed = false := by
    constructor
    · rintro ⟨a', i', ok⟩
      rw [h] at ok
      cases ok
      rfl
    · rintro rfl
      exact ⟨a, i, h⟩
  unfold GoogleProvider.takeRow
  cases hid : rawId row with
  | none =>
    dsimp only [Option.filter_none]
    split
    case h_1 failure h => simp [fail, flaw h]
    case h_2 a i malformed h =>
      rw [(record_ok h).rawId] at hid
      cases hid
  | some k =>
    dsimp only
    by_cases old : k ∈ p.ids
    · rw [Option.filter_some, if_pos (by simpa using old)]
      simp [fail, old]
    · rw [Option.filter_some, if_neg (by simpa using old)]
      dsimp only
      split
      case h_1 failure h => simp [fail, flaw h]
      case h_2 a i malformed h =>
        rw [judged h]
        cases malformed
        · simp [old]
        · simp [fail]

/-- Rows without a flaw and without a repeated identifier. -/
structure GoogleProvider.Fine (provider : GoogleProvider) (rows : List Value) : Prop where
  accepted : ∀ row ∈ rows, provider.Flawless row
  once : (rows.map rawId).Nodup

/-- The collection behind these rows. -/
structure Behind (provider : GoogleProvider) (rows : List Value) (p : Progress) : Prop where
  single : p.single = .of rawId provider.accepted rows
  bare : p.snapshot.accounts = [] ∧ p.snapshot.identities = []

theorem Behind.mem_ids {rows : List Value} {p : Progress} (h : Behind provider rows p)
    {k : String} : k ∈ p.ids ↔ some k ∈ rows.map rawId := by
  have seen : k ∈ (Single.of rawId provider.accepted rows).seen ↔ withKey rawId k rows ≠ [] :=
    (Single.knows_of k rows).seen
  rw [← h.single] at seen
  refine seen.trans ⟨fun ne => ?_, fun mem => ?_⟩
  · obtain ⟨row, there⟩ := List.exists_mem_of_ne_nil _ ne
    obtain ⟨mem, hkey⟩ := mem_withKey.mp there
    exact List.mem_map.mpr ⟨row, mem, hkey⟩
  · obtain ⟨row, there, hkey⟩ := List.mem_map.mp mem
    exact List.ne_nil_of_mem (mem_withKey.mpr ⟨there, hkey⟩)

/-- **One row.** -/
theorem Behind.takeRow {rows : List Value} {p : Progress} (h : Behind provider rows p)
    (row : Value) : Behind provider (rows ++ [row]) (provider.takeRow p row) := by
  constructor
  · rw [single_takeRow, h.single, Single.of, Single.of, List.foldl_append]
    rfl
  · obtain ⟨_, _, _, _, eq⟩ := takeRow_frame provider p row
    rw [eq]
    exact h.bare

theorem fine_append_singleton {rows : List Value} {row : Value} :
    provider.Fine (rows ++ [row]) ↔
      provider.Fine rows ∧ provider.Flawless row ∧ rawId row ∉ rows.map rawId := by
  constructor
  · rintro ⟨accepted, once⟩
    rw [List.map_append, List.map_singleton, List.nodup_append] at once
    refine ⟨⟨fun r mem => accepted r (List.mem_append_left _ mem), once.1⟩,
      accepted row (by simp), fun mem => ?_⟩
    exact once.2.2 _ mem _ (List.mem_singleton_self _) rfl
  · rintro ⟨⟨accepted, once⟩, flawless, fresh⟩
    constructor
    · exact forall_mem_snoc accepted flawless
    · rw [List.map_append]
      exact nodup_snoc once fresh

/-- The snapshot is complete if the rows are fine. -/
def Judged (provider : GoogleProvider) (rows : List Value) (p : Progress) : Prop :=
  p.snapshot.complete = true ↔ provider.Fine rows

theorem Behind.judge {rows : List Value} {p : Progress} (h : Behind provider rows p)
    (judged : Judged provider rows p) (row : Value) :
    Judged provider (rows ++ [row]) (provider.takeRow p row) := by
  unfold Judged at *
  rw [takeRow_complete, judged, fine_append_singleton]
  refine and_congr_right fun _ => and_congr_right fun flawless => ?_
  obtain ⟨a, i, ok⟩ := flawless
  rw [(record_ok ok).rawId]
  simp only [Option.some.injEq, forall_eq', h.mem_ids]

variable (provider) in
/-- What a run of rows leaves alone. -/
theorem takeRows_frame (p : Progress) (rows : List Value) :
    ∃ complete limitations records ids, rows.foldl provider.takeRow p = { p with
      snapshot := { p.snapshot with complete := complete, limitations := limitations }
      records := records
      ids := ids } := by
  induction rows generalizing p with
  | nil => exact ⟨_, _, _, _, rfl⟩
  | cons row rows ih =>
    obtain ⟨_, _, _, _, eq⟩ := ih (provider.takeRow p row)
    obtain ⟨_, _, _, _, first⟩ := takeRow_frame provider p row
    rw [first] at eq
    rw [List.foldl_cons, first]
    exact ⟨_, _, _, _, eq⟩

/-- **The rows of a page.** -/
theorem Behind.takeRows {rows : List Value} {p : Progress} (h : Behind provider rows p)
    (judged : Judged provider rows p) (more : List Value) :
    Behind provider (rows ++ more) (more.foldl provider.takeRow p) ∧
      Judged provider (rows ++ more) (more.foldl provider.takeRow p) := by
  refine foldl_rule (fun taken p => Behind provider (rows ++ taken) p ∧
    Judged provider (rows ++ taken) p) ?_ ?_ more
  · rw [List.append_nil]
    exact ⟨h, judged⟩
  · intro before row p' ⟨behind, judged⟩
    rw [← List.append_assoc]
    exact ⟨behind.takeRow row, behind.judge judged row⟩

/-- The records are those of the rows that are kept. -/
theorem Behind.values {rows : List Value} {p : Progress} (h : Behind provider rows p) :
    (values p.records).Perm (provider.kept rows) := by
  have perm : (Lib.values (Single.of rawId provider.accepted rows).map).Perm
    (provider.kept rows) := Single.values_perm rows
  rwa [← h.single] at perm

end Permesh.Google

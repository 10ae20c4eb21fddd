import Permesh.Laws.Github.Observations
import Permesh.Lib.Kept

/-!
# Laws.Github.Verdicts — the collection knows the verdicts

One statement for each part of the collection: what it holds under a key is what the observations
made so far say of this key. Each function of the source keeps it for the observation it takes in.

A key is either that of the row or another one; in the first case the verdict and the entry move
together, in the second nothing happens to either. Claims are treated in `Laws.Github.Claims`.
-/

namespace Permesh.Github

open Permesh.Json Permesh.Lib

variable {p : String} {observations : List Observation} {c : Collection}

/-! ## Accounts -/

/-- The collection at one account key, against the verdicts on its logins and its types. -/
structure AccountAt (L T : Agreement String) (k : EntityKey) (c : Collection) : Prop where
  blocked : k ∈ c.blockedAccounts ↔ L = .conflict ∨ T = .conflict
  account : c.accounts[k]? = if L = .conflict ∨ T = .conflict then none
    else L.value.map fun login => accountOf k login T.value
  type : ¬(L = .conflict ∨ T = .conflict) → c.accountTypes[k]? = T.value

/-- The accounts are what the observations agree on. -/
def Accounts (p : String) (observations : List Observation) (c : Collection) : Prop :=
  ∀ k, AccountAt (accountLogin p observations k) (accountType p observations k) k c

theorem AccountAt.congr {L T : Agreement String} {k : EntityKey} {c' : Collection}
    (h : AccountAt L T k c) (hc : c'.accountPart = c.accountPart) : AccountAt L T k c' := by
  simp only [Collection.accountPart, Prod.mk.injEq] at hc
  obtain ⟨ha, ht, hb⟩ := hc
  exact ⟨by rw [hb]; exact h.blocked, by rw [ha]; exact h.account, by rw [ht]; exact h.type⟩

theorem AccountAt.block {L T : Agreement String} {k : EntityKey} (hc : L = .conflict ∨ T = .conflict)
    (endpoint : String) (err : ProviderError) :
    AccountAt L T k ((c.blockAccount k).fail endpoint err) where
  blocked := by
    show k ∈ c.blockedAccounts.insert k ↔ _
    rw [mem_insert_key]
    exact ⟨fun _ => hc, fun _ => .inl rfl⟩
  account := by
    show (c.accounts.erase k)[k]? = _
    rw [getElem?_erase_key, if_pos rfl, if_pos hc]
  type h := absurd hc h

/-- Blocking another key changes nothing here. -/
theorem AccountAt.block_other {L T : Agreement String} {k key : EntityKey} (h : AccountAt L T k c)
    (ne : key ≠ k) (endpoint : String) (err : ProviderError) :
    AccountAt L T k ((c.blockAccount key).fail endpoint err) where
  blocked := by
    show k ∈ c.blockedAccounts.insert key ↔ _
    rw [mem_insert_key, or_iff_right ne]
    exact h.blocked
  account := by
    show (c.accounts.erase key)[k]? = _
    rw [getElem?_erase_key, if_neg ne]
    exact h.account
  type := h.type

/-- The verdict on the types after one more row. -/
def typeAfter (T : Agreement String) (row : Value) : Agreement String :=
  match field row "type" with
  | some t => T.observe (some t)
  | none => T

theorem accountLogin_snoc (row : Value) (ms : List RowMembership) (gs : List RowGrant)
    (k : EntityKey) :
    accountLogin p (observations ++ [.account row ms gs]) k =
      if accountKey p row = some k then (accountLogin p observations k).observe (rowLogin row)
      else accountLogin p observations k := by
  simp only [accountLogin, List.flatMap_append, List.flatMap_cons, List.flatMap_nil,
    List.append_nil, logins]
  split
  · rw [Agreement.of_append_singleton]
  · rw [List.append_nil]

theorem accountType_snoc (row : Value) (ms : List RowMembership) (gs : List RowGrant)
    (k : EntityKey) :
    accountType p (observations ++ [.account row ms gs]) k =
      if accountKey p row = some k then typeAfter (accountType p observations k) row
      else accountType p observations k := by
  simp only [typeAfter, accountType, List.flatMap_append, List.flatMap_cons, List.flatMap_nil,
    List.append_nil, types]
  split
  · cases field row "type" with
    | none => rw [Option.map_none, Option.toList_none, List.append_nil]
    | some t => rw [Option.map_some, Option.toList_some, Agreement.of_append_singleton]
  · rw [List.append_nil]

/-- A key with no row has no type either. -/
theorem accountType_unseen {k : EntityKey} (h : accountLogin p observations k = .unseen) :
    accountType p observations k = .unseen := by
  rw [accountLogin, Agreement.of_eq_unseen, List.flatMap_eq_nil_iff] at h
  rw [accountType, Agreement.of_eq_unseen, List.flatMap_eq_nil_iff]
  intro o ho
  have none := h o ho
  cases o with
  | account row ms gs =>
    simp only [logins, types] at none ⊢
    split
    case isTrue hk =>
      rw [if_pos hk] at none
      cases none
    case isFalse => rfl
  | _ => rfl

theorem typeAfter_none {T : Agreement String} {row : Value} (h : field row "type" = none) :
    typeAfter T row = T := by
  rw [typeAfter, h]

theorem typeAfter_some {T : Agreement String} {row : Value} {t : String}
    (h : field row "type" = some t) : typeAfter T row = T.observe (some t) := by
  rw [typeAfter, h]

theorem rowLogin_eq_some {row : Value} {login : String} (named : field row "login" = some login)
    (formed : ¬((row.get "type").isSome = true ∧ field row "type" = none)) :
    rowLogin row = some login := by
  rw [rowLogin, named, Option.filter_some, if_pos]
  rw [← Option.isNone_iff_eq_none] at formed
  simpa only [Bool.not_eq_true', Bool.and_eq_false_iff, not_and_or, Bool.not_eq_true] using formed

/-- A well-formed row is taken for a conflict exactly when the verdicts conflict. -/
theorem AccountAt.conflicts {L T : Agreement String} {k : EntityKey} (row : Value) (login : String)
    (account : c.accounts[k]? = L.value.map fun login => accountOf k login T.value)
    (type : c.accountTypes[k]? = T.value) (hL : L ≠ .conflict) (hT : T ≠ .conflict) :
    ((c.accounts[k]?.any fun old => old.login != login) = true ∨
      ((field row "type").any fun new => c.accountTypes[k]?.any fun old => old != new) = true) ↔
      L.observe (some login) = .conflict ∨ typeAfter T row = .conflict := by
  rw [Agreement.observe_some_eq_conflict hL, account]
  apply or_congr
  · cases L <;> simp [Agreement.value, accountOf]
  · cases typed : field row "type" with
    | none => simp [typeAfter_none typed, hT]
    | some t => simp [typeAfter_some typed, Agreement.observe_some_eq_conflict hT, type]

/-- Taking in one more row: the verdicts and the collection move together at the row's key. -/
theorem AccountAt.observe {L T : Agreement String} {row : Value} {id : Nat}
    (hid : nativeId row = some id) (hp : c.snapshot.provider = p)
    (h : AccountAt L T ⟨p, toString id⟩ c) (unseen : L = .unseen → T = .unseen) :
    AccountAt (L.observe (rowLogin row)) (typeAfter T row) ⟨p, toString id⟩ (c.account row).2 ∧
    ((c.account row).1 =
      if L.observe (rowLogin row) = .conflict ∨ typeAfter T row = .conflict then none
      else some ⟨p, toString id⟩) := by
  subst hp
  have bad (hc : L.observe (rowLogin row) = .conflict ∨ typeAfter T row = .conflict)
      (endpoint : String) (err : ProviderError) :=
    AccountAt.block (c := c) (k := ⟨c.snapshot.provider, toString id⟩) hc endpoint err
  unfold Collection.account
  rw [hid]
  dsimp only
  by_cases hb : (⟨c.snapshot.provider, toString id⟩ : EntityKey) ∈ c.blockedAccounts
  · -- a conflict stays
    rw [if_pos hb]
    have hc : L.observe (rowLogin row) = .conflict ∨ typeAfter T row = .conflict := by
      rcases h.blocked.mp hb with rfl | rfl
      · exact .inl (Agreement.conflict_observe _)
      · right
        unfold typeAfter
        split
        · exact Agreement.conflict_observe _
        · rfl
    refine ⟨⟨⟨fun _ => hc, fun _ => hb⟩, ?_, fun hn => absurd hc hn⟩, by rw [if_pos hc]⟩
    rw [if_pos hc, h.account, if_pos (h.blocked.mp hb)]
  rw [if_neg hb]
  have clean := mt h.blocked.mpr hb
  have account := h.account
  rw [if_neg clean] at account
  have type := h.type clean
  rw [not_or] at clean
  cases named : field row "login" with
  | none =>
    have hc : L.observe (rowLogin row) = .conflict := by simp [rowLogin, named]
    exact ⟨bad (.inl hc) _ _, by rw [if_pos (.inl hc)]⟩
  | some login =>
    dsimp only
    by_cases malformed : (row.get "type").isSome = true ∧ field row "type" = none
    · have hc : L.observe (rowLogin row) = .conflict := by simp [rowLogin, malformed]
      rw [if_pos malformed]
      exact ⟨bad (.inl hc) _ _, by rw [if_pos (.inl hc)]⟩
    rw [if_neg malformed]
    have conflicts := AccountAt.conflicts row login account type clean.1 clean.2
    rw [rowLogin_eq_some named malformed] at bad ⊢
    by_cases hc : L.observe (some login) = .conflict ∨ typeAfter T row = .conflict
    · rw [if_pos (conflicts.mpr hc), if_pos hc]
      exact ⟨bad hc _ _, rfl⟩
    rw [if_neg (mt conflicts.mp hc), if_neg hc]
    obtain ⟨agreed, seen⟩ := Agreement.observe_some_agreed (not_or.mp hc).1
    cases typed : field row "type" with
    | none =>
      rw [typeAfter_none typed] at hc ⊢
      refine ⟨⟨⟨fun hb' => absurd hb' hb, fun h => absurd h hc⟩, ?_, fun _ => type⟩, rfl⟩
      show (c.accounts.insert _ _)[_]? = _
      rw [getElem?_insert_key, if_pos rfl, if_neg hc, agreed, account]
      rcases seen with rfl | rfl
      · rw [unseen rfl]
        rfl
      · rfl
    | some t =>
      rw [typeAfter_some typed] at hc ⊢
      obtain ⟨fresh, -⟩ := Agreement.observe_some_agreed (not_or.mp hc).2
      refine ⟨⟨⟨fun hb' => absurd hb' hb, fun h => absurd h hc⟩, ?_, fun _ => ?_⟩, rfl⟩
      · show (c.accounts.insert _ _)[_]? = _
        rw [getElem?_insert_key, if_pos rfl, if_neg hc, agreed, fresh, account]
        rcases seen with rfl | rfl <;> rfl
      · show (c.accountTypes.insert _ _)[_]? = _
        rw [getElem?_insert_key, if_pos rfl, fresh]
        rfl

/-- A row says nothing of another key. -/
theorem AccountAt.other {L T : Agreement String} {row : Value} {k : EntityKey}
    (h : AccountAt L T k c) (ne : accountKey c.snapshot.provider row ≠ some k) :
    AccountAt L T k (c.account row).2 := by
  unfold Collection.account
  cases hid : nativeId row with
  | none => exact h.congr rfl
  | some id =>
    have ne : (⟨c.snapshot.provider, toString id⟩ : EntityKey) ≠ k := by
      rintro rfl
      exact ne (by rw [accountKey, hid]; rfl)
    dsimp only
    split
    · exact h
    split
    · exact h.block_other ne _ _
    split
    · exact h.block_other ne _ _
    split
    · exact h.block_other ne _ _
    split
    · exact ⟨h.blocked, by rw [getElem?_insert_key, if_neg ne]; exact h.account, h.type⟩
    · refine ⟨h.blocked, ?_, fun hc => ?_⟩
      · rw [getElem?_insert_key, if_neg ne]
        exact h.account
      · rw [getElem?_insert_key, if_neg ne]
        exact h.type hc

/-- **`account` keeps the verdicts.** -/
theorem Accounts.account (h : Accounts p observations c) (hp : c.snapshot.provider = p)
    (row : Value) (ms : List RowMembership) (gs : List RowGrant) :
    Accounts p (observations ++ [.account row ms gs]) (c.account row).2 := by
  intro k
  rw [accountLogin_snoc, accountType_snoc]
  by_cases hk : accountKey p row = some k
  · rw [if_pos hk, if_pos hk]
    obtain ⟨id, hid, rfl⟩ := Option.map_eq_some_iff.mp hk
    exact (AccountAt.observe hid hp (h _) accountType_unseen).1
  · rw [if_neg hk, if_neg hk]
    exact (h k).other (by rwa [hp])

/-- `account` returns the key unless the account is excluded. -/
theorem Accounts.account_key (h : Accounts p observations c) (hp : c.snapshot.provider = p)
    {row : Value} {k : EntityKey} (hk : accountKey p row = some k) (ms : List RowMembership)
    (gs : List RowGrant) :
    (c.account row).1 =
      if ExcludedAccount p (observations ++ [.account row ms gs]) k then none else some k := by
  obtain ⟨id, hid, rfl⟩ := Option.map_eq_some_iff.mp hk
  rw [(AccountAt.observe hid hp (h _) accountType_unseen).2]
  simp only [ExcludedAccount, accountLogin_snoc, accountType_snoc, if_pos hk]

/-! ## Repositories -/

/-- The repositories are what the observations agree on. -/
def Repositories (p : String) (observations : List Observation) (c : Collection) : Prop :=
  ∀ k, Kept (repositoryName p observations k) (repositoryOf k) k c.resources c.blockedResources

theorem repositoryName_snoc (row : Value) (k : EntityKey) :
    repositoryName p (observations ++ [.repository row]) k =
      if repositoryKey p row = some k then
        (repositoryName p observations k).observe ((fullName row).map Prod.fst)
      else repositoryName p observations k := by
  simp only [repositoryName, List.flatMap_append, List.flatMap_cons, List.flatMap_nil,
    List.append_nil, names]
  split
  · rw [Agreement.of_append_singleton]
  · rw [List.append_nil]

/-- **`repository` keeps the verdicts.** -/
theorem Repositories.repository (h : Repositories p observations c)
    (hp : c.snapshot.provider = p) (row : Value) :
    Repositories p (observations ++ [.repository row]) (c.repository row).2 := by
  intro k
  rw [repositoryName_snoc]
  subst hp
  unfold Collection.repository
  cases hid : nativeId row with
  | none =>
    rw [if_neg (by simp [repositoryKey, hid])]
    exact h k
  | some id =>
    have hkey : repositoryKey c.snapshot.provider row = some (c.key "repository" id) := by
      rw [repositoryKey, hid]
      rfl
    rw [hkey]
    dsimp only
    by_cases hk : c.key "repository" id = k
    · subst hk
      rw [if_pos rfl]
      by_cases hb : c.key "repository" id ∈ c.blockedResources
      · rw [if_pos hb]
        exact (h _).stay hb _
      rw [if_neg hb]
      cases parsed : fullName row with
      | none => exact Kept.block (Agreement.observe_none _)
      | some parts =>
        obtain ⟨name, owner, short⟩ := parts
        have conflicts := (h _).any_ne hb name (fun old => old.name != name) fun _ => rfl
        dsimp only [Option.map_some]
        split
        case isTrue differs => exact Kept.block (conflicts.mp differs)
        case isFalse same =>
          obtain ⟨agreed, seen⟩ := Agreement.observe_some_agreed (mt conflicts.mpr same)
          dsimp only
          rw [(h (c.key "repository" id)).entry]
          rcases seen with hs | hs <;> rw [hs] at agreed ⊢ <;> exact Kept.enter agreed hb
    · rw [if_neg fun same => hk (Option.some.inj same)]
      split
      · exact h k
      split
      · exact (h k).block_other hk
      split
      · exact (h k).block_other hk
      · exact (h k).enter_other hk

/-! ## Teams -/

/-- The teams are what the observations agree on; what was first seen of a team is remembered. -/
structure Teams (p : String) (observations : List Observation) (c : Collection) : Prop where
  kept : ∀ k, Kept (teamMetadata p observations k) (teamOf k) k c.groups c.blockedGroups
  remembered : ∀ k, k ∉ c.blockedGroups → c.teams[k]? = (teamMetadata p observations k).value

theorem teamMetadata_snoc (row : Value) (org : String) (k : EntityKey) :
    teamMetadata p (observations ++ [.team row org]) k =
      if teamKey p row = some k then (teamMetadata p observations k).observe (rowTeam row org)
      else teamMetadata p observations k := by
  simp only [teamMetadata, List.flatMap_append, List.flatMap_cons, List.flatMap_nil,
    List.append_nil, teamRows]
  split
  · rw [Agreement.of_append_singleton]
  · rw [List.append_nil]

/-- The metadata of a row with both parts. -/
theorem rowTeam_eq {row : Value} {org slug name : String}
    (hs : (field row "slug").filter safeSegment = some slug) (hn : field row "name" = some name) :
    rowTeam row org = some (org, slug, name) := by
  rw [rowTeam, hs, hn]

/-- What is kept and remembered of one team. -/
structure TeamAt (verdict : Agreement (String × String × String)) (k : EntityKey) (c : Collection) :
    Prop where
  kept : Kept verdict (teamOf k) k c.groups c.blockedGroups
  remembered : k ∉ c.blockedGroups → c.teams[k]? = verdict.value

variable {verdict : Agreement (String × String × String)} {k : EntityKey}

/-- A team that is blocked from now on. -/
theorem TeamAt.block (conflict : verdict = .conflict) (failure : ProviderError) :
    TeamAt verdict k ((c.blockGroup k).fail "teams" failure) :=
  ⟨Kept.block conflict, fun free => absurd (mem_insert_key.mpr (.inl rfl)) free⟩

/-- Another team is blocked. -/
theorem TeamAt.block_other (h : TeamAt verdict k c) {key : EntityKey} (ne : key ≠ k)
    (failure : ProviderError) : TeamAt verdict k ((c.blockGroup key).fail "teams" failure) :=
  ⟨h.kept.block_other ne, fun free =>
    h.remembered fun blocked => free (mem_insert_key.mpr (.inr blocked))⟩

/-- A row that has both parts: the first one is entered, and every other one is compared to it. -/
theorem TeamAt.named {row : Value} {id : Nat} (hid : nativeId row = some id)
    (h : TeamAt verdict (c.key "team" id) c) (free : c.key "team" id ∉ c.blockedGroups)
    {org slug name : String} (hs : (field row "slug").filter safeSegment = some slug)
    (hn : field row "name" = some name) :
    TeamAt (verdict.observe (rowTeam row org)) (c.key "team" id) (c.team row org).2 := by
  have remembered := h.remembered free
  rw [rowTeam_eq hs hn]
  unfold Collection.team
  rw [hid]
  dsimp only
  rw [if_neg free, hs, hn]
  dsimp only
  cases known : c.teams[c.key "team" id]? with
  | none =>
    rw [known] at remembered
    have fresh : verdict = .unseen :=
      (Agreement.value_eq_none.mp remembered.symm).resolve_right (mt h.kept.blocked.mpr free)
    rw [fresh]
    refine ⟨Kept.enter (a := (org, slug, name)) rfl free, fun _ => ?_⟩
    rw [getElem?_insert_key, if_pos rfl]
    rfl
  | some old =>
    rw [known] at remembered
    have agreed : verdict = .agreed old := Agreement.value_eq_some.mp remembered.symm
    subst agreed
    dsimp only
    by_cases same : old = (org, slug, name)
    · rw [if_neg (not_not_intro same), Agreement.observe, if_pos same]
      exact ⟨h.kept, fun _ => known⟩
    · rw [if_pos same, Agreement.observe, if_neg same]
      exact .block rfl _

/-- The team of the row. -/
theorem TeamAt.observe {row : Value} {id : Nat} (hid : nativeId row = some id)
    (h : TeamAt verdict (c.key "team" id) c) (org : String) :
    TeamAt (verdict.observe (rowTeam row org)) (c.key "team" id) (c.team row org).2 := by
  by_cases blocked : c.key "team" id ∈ c.blockedGroups
  · unfold Collection.team
    rw [hid]
    dsimp only
    rw [if_pos blocked]
    exact ⟨h.kept.stay blocked _, fun free => absurd blocked free⟩
  cases hs : (field row "slug").filter safeSegment with
  | none =>
    have malformed : rowTeam row org = none := by rw [rowTeam, hs]
    rw [malformed, Agreement.observe_none]
    unfold Collection.team
    rw [hid]
    dsimp only
    rw [if_neg blocked, hs]
    exact .block rfl _
  | some slug =>
    cases hn : field row "name" with
    | none =>
      have malformed : rowTeam row org = none := by rw [rowTeam, hs, hn]
      rw [malformed, Agreement.observe_none]
      unfold Collection.team
      rw [hid]
      dsimp only
      rw [if_neg blocked, hs, hn]
      exact .block rfl _
    | some name => exact .named hid h blocked hs hn

/-- A row says nothing of another team. -/
theorem TeamAt.other {row : Value} (h : TeamAt verdict k c) (org : String)
    (ne : teamKey c.snapshot.provider row ≠ some k) : TeamAt verdict k (c.team row org).2 := by
  unfold Collection.team
  cases hid : nativeId row with
  | none => exact ⟨h.kept, h.remembered⟩
  | some id =>
    have ne : c.key "team" id ≠ k := by
      rintro rfl
      exact ne (by rw [teamKey, hid]; rfl)
    dsimp only
    split
    · exact h
    split
    · split
      · split
        · exact h.block_other ne _
        · exact h
      · refine ⟨h.kept.enter_other ne, fun free => ?_⟩
        rw [getElem?_insert_key, if_neg ne]
        exact h.remembered free
    · exact h.block_other ne _

/-- **`team` keeps the verdicts.** -/
theorem Teams.team (h : Teams p observations c) (hp : c.snapshot.provider = p) (row : Value)
    (org : String) : Teams p (observations ++ [.team row org]) (c.team row org).2 := by
  subst hp
  have each (k : EntityKey) : TeamAt
      (teamMetadata c.snapshot.provider (observations ++ [.team row org]) k) k (c.team row org).2 := by
    have before : TeamAt (teamMetadata c.snapshot.provider observations k) k c :=
      ⟨h.kept k, h.remembered k⟩
    rw [teamMetadata_snoc]
    by_cases own : teamKey c.snapshot.provider row = some k
    · rw [if_pos own]
      obtain ⟨id, hid, rfl⟩ := Option.map_eq_some_iff.mp own
      exact .observe hid before org
    · rw [if_neg own]
      exact before.other org own
  exact ⟨fun k => (each k).kept, fun k => (each k).remembered⟩

end Permesh.Github

import Permesh.Laws.Github.Claims

/-!
# Laws.Github.Finish — the finished graph

The whole collection against the observations made so far (`Tracks`): every observation keeps it
(`Tracks.observe`), so it holds after every sequence (`tracks`). What `finish` returns is then
read off the verdicts, and the verdicts do not depend on the order of the observations.

There is one lemma for each kind of observation, and an account row has three fates: no identifier,
an excluded account, an accepted row. Which lists the observations come from is not part of it.
-/

namespace Permesh.Github

open Permesh.Json Permesh.Lib

variable {p t : String} {observations : List Observation} {c : Collection}

/-! ## The collection after a sequence of observations -/

/-- A subject whose claims need not have been issued. -/
def Silenced (p : String) (observations : List Observation) : Subject → Prop
  | .account k => ExcludedAccount p observations k
  | .group _ => False

/-- Exclusion is for good. -/
theorem ExcludedAccount.append {k : EntityKey} (h : ExcludedAccount p observations k)
    (later : List Observation) : ExcludedAccount p (observations ++ later) k := by
  unfold ExcludedAccount accountLogin accountType at *
  rw [List.flatMap_append, List.flatMap_append]
  exact h.imp (Agreement.of_append_conflict · _) (Agreement.of_append_conflict · _)

theorem Silenced.append {subject : Subject} (h : Silenced p observations subject)
    (later : List Observation) : Silenced p (observations ++ later) subject := by
  cases subject with
  | account k => exact ExcludedAccount.append h later
  | group k => exact h

/-- The claims taken in are those observed, up to silenced subjects. -/
structure Ledger (p t : String) (observations : List Observation) (c : Collection)
    (issued : List (GrantKey × String × Privilege)) (joined : List (MembershipKey × String)) :
    Prop where
  taken : Issued t issued joined c
  grants : ∀ k : GrantKey, ¬Silenced p observations k.2.1 →
    said k issued = said k (observations.flatMap (claims p))
  memberships : ∀ k : MembershipKey, ¬Silenced p observations k.1 →
    said k joined = said k (observations.flatMap (joins p))

/-- What holds of a collection fed with the observations. -/
structure Tracks (p t : String) (observations : List Observation) (c : Collection) : Prop where
  provider : c.snapshot.provider = p
  success : c.success = true
  accounts : Accounts p observations c
  repositories : Repositories p observations c
  teams : Teams p observations c
  ledger : ∃ issued joined, Ledger p t observations c issued joined
  complete : c.snapshot.complete = true ↔
    Clean c ∧ ∀ o ∈ observations, anonymous o = false

/-- An observation of something else says nothing of accounts. -/
theorem Accounts.skip {c' : Collection} {o : Observation} (h : Accounts p observations c)
    (hc : c'.accountPart = c.accountPart) (hl : ∀ k, logins p k o = [])
    (ht : ∀ k, types p k o = []) : Accounts p (observations ++ [o]) c' := by
  intro k
  have hlogin : accountLogin p (observations ++ [o]) k = accountLogin p observations k := by
    simp [accountLogin, hl]
  have htype : accountType p (observations ++ [o]) k = accountType p observations k := by
    simp [accountType, ht]
  rw [hlogin, htype]
  exact (h k).congr hc

theorem Repositories.skip {c' : Collection} {o : Observation} (h : Repositories p observations c)
    (hc : c'.repositoryPart = c.repositoryPart) (hn : ∀ k, names p k o = []) :
    Repositories p (observations ++ [o]) c' := by
  intro k
  simp only [Collection.repositoryPart, Prod.mk.injEq] at hc
  have hname : repositoryName p (observations ++ [o]) k = repositoryName p observations k := by
    simp [repositoryName, hn]
  rw [hname, hc.1, hc.2]
  exact h k

theorem Teams.skip {c' : Collection} {o : Observation} (h : Teams p observations c)
    (hc : c'.teamPart = c.teamPart) (hr : ∀ k, teamRows p k o = []) :
    Teams p (observations ++ [o]) c' := by
  simp only [Collection.teamPart, Prod.mk.injEq] at hc
  have same (k : EntityKey) :
      teamMetadata p (observations ++ [o]) k = teamMetadata p observations k := by
    simp [teamMetadata, hr]
  constructor
  · intro k
    rw [same, hc.1, hc.2.2]
    exact h.kept k
  · intro k free
    rw [hc.2.2] at free
    rw [same, hc.2.1]
    exact h.remembered k free

/-- An observation without claims leaves the ledger as it is. -/
theorem Ledger.skip {issued : List (GrantKey × String × Privilege)}
    {joined : List (MembershipKey × String)} {c' : Collection} {o : Observation}
    (h : Ledger p t observations c issued joined) (hi : Issued t issued joined c')
    (hg : ∀ k : GrantKey, ¬Silenced p (observations ++ [o]) k.2.1 → said k (claims p o) = [])
    (hj : ∀ k : MembershipKey, ¬Silenced p (observations ++ [o]) k.1 → said k (joins p o) = []) :
    Ledger p t (observations ++ [o]) c' issued joined := by
  refine ⟨hi, fun k hk => ?_, fun k hk => ?_⟩
  · rw [List.flatMap_append, said_append, List.flatMap_singleton, hg k hk, List.append_nil]
    exact h.grants k fun silenced => hk (silenced.append _)
  · rw [List.flatMap_append, said_append, List.flatMap_singleton, hj k hk, List.append_nil]
    exact h.memberships k fun silenced => hk (silenced.append _)

/-- Claims that are issued when they are observed. -/
theorem Ledger.issue {issued : List (GrantKey × String × Privilege)}
    {joined : List (MembershipKey × String)} {c' : Collection} {o : Observation}
    (h : Ledger p t observations c issued joined)
    (hi : Issued t (issued ++ claims p o) (joined ++ joins p o) c') :
    Ledger p t (observations ++ [o]) c' (issued ++ claims p o) (joined ++ joins p o) := by
  refine ⟨hi, fun k hk => ?_, fun k hk => ?_⟩
  · rw [List.flatMap_append, said_append, said_append, List.flatMap_singleton,
      h.grants k fun silenced => hk (silenced.append _)]
  · rw [List.flatMap_append, said_append, said_append, List.flatMap_singleton,
      h.memberships k fun silenced => hk (silenced.append _)]

/-- A row without an identifier makes the snapshot incomplete. -/
theorem complete_anonymous {c' : Collection} {o : Observation} (ho : anonymous o = true)
    (hc : c'.snapshot.complete = false) :
    c'.snapshot.complete = true ↔ Clean c' ∧ ∀ o' ∈ observations ++ [o], anonymous o' = false := by
  rw [hc]
  refine ⟨fun h => (by cases h), fun h => ?_⟩
  rw [h.2 o (by simp)] at ho
  cases ho

theorem complete_named {c' : Collection} {o : Observation} (ho : anonymous o = false)
    (noted : Noted c c') (hc : c.snapshot.complete = true ↔
      Clean c ∧ ∀ o' ∈ observations, anonymous o' = false) :
    c'.snapshot.complete = true ↔ Clean c' ∧ ∀ o' ∈ observations ++ [o], anonymous o' = false := by
  rw [noted.complete hc]
  simp [or_imp, forall_and, ho]

theorem observe_rejected {row : Value} (result : (c.account row).1 = none)
    (ms : List RowMembership) (gs : List RowGrant) :
    c.observe (.account row ms gs) = (c.account row).2 := by
  rw [Collection.observe]
  split
  case h_1 h => rw [h]
  case h_2 h =>
    rw [h] at result
    cases result

theorem observe_accepted {row : Value} {key : EntityKey} (result : (c.account row).1 = some key)
    (ms : List RowMembership) (gs : List RowGrant) :
    c.observe (.account row ms gs) = (c.account row).2.carry key ms gs := by
  rw [Collection.observe]
  split
  case h_1 h =>
    rw [h] at result
    cases result
  case h_2 h =>
    rw [h] at result ⊢
    cases result
    rfl

/-- A row of an account that is not accepted: it issues nothing. -/
theorem Tracks.rejected (h : Tracks p t observations c) {row : Value} {ms : List RowMembership}
    {gs : List RowGrant} (result : (c.account row).1 = none)
    (unclaimed : ∀ k : GrantKey, ¬Silenced p (observations ++ [.account row ms gs]) k.2.1 →
      said k (claims p (.account row ms gs)) = [])
    (unjoined : ∀ k : MembershipKey, ¬Silenced p (observations ++ [.account row ms gs]) k.1 →
      said k (joins p (.account row ms gs)) = [])
    (complete : (c.account row).2.snapshot.complete = true ↔ Clean (c.account row).2 ∧
      ∀ o ∈ observations ++ [.account row ms gs], anonymous o = false) :
    Tracks p t (observations ++ [.account row ms gs]) (c.observe (.account row ms gs)) := by
  obtain ⟨issued, joined, ledger⟩ := h.ledger
  obtain ⟨hr, ht, hg, hm, hf⟩ := c.account_parts row
  have accounts := h.accounts.account h.provider row ms gs
  have taken := ledger.taken.congr hg hm hf
  simp only [Collection.fixedPart, Prod.mk.injEq] at hf
  rw [observe_rejected result]
  exact ⟨hf.1.trans h.provider, hf.2.2.trans h.success, accounts,
    h.repositories.skip hr fun _ => rfl, h.teams.skip ht fun _ => rfl,
    ⟨issued, joined, ledger.skip taken unclaimed unjoined⟩, complete⟩

/-- A row of an account without an identifier. -/
theorem Tracks.anonymous (h : Tracks p t observations c) {row : Value} (none : nativeId row = none)
    (ms : List RowMembership) (gs : List RowGrant) :
    Tracks p t (observations ++ [.account row ms gs]) (c.observe (.account row ms gs)) := by
  have hk : accountKey p row = .none := Option.map_eq_none_iff.mpr none
  have result : c.account row = (.none, c.fail "account record" (error "malformed")) := by
    unfold Collection.account
    rw [none]
  apply h.rejected
  · rw [result]
  · exact fun k _ => by simp [claims, hk]
  · exact fun k _ => by simp [joins, hk]
  · exact complete_anonymous (by simp [Github.anonymous, none]) (by rw [result]; rfl)

/-- A row of an account that is excluded by now: its claims are those of a silenced subject. -/
theorem Tracks.excluded (h : Tracks p t observations c) {row : Value} {key : EntityKey}
    (hk : accountKey p row = some key) {ms : List RowMembership} {gs : List RowGrant}
    (excluded : ExcludedAccount p (observations ++ [.account row ms gs]) key) :
    Tracks p t (observations ++ [.account row ms gs]) (c.observe (.account row ms gs)) := by
  obtain ⟨id, hid, -⟩ := Option.map_eq_some_iff.mp hk
  have result := h.accounts.account_key h.provider hk ms gs
  rw [if_pos excluded] at result
  apply h.rejected result
  · intro k loud
    apply said_eq_nil
    simp only [claims, hk, List.mem_map]
    rintro _ ⟨g, -, rfl⟩ rfl
    exact loud excluded
  · intro k loud
    apply said_eq_nil
    simp only [joins, hk, List.mem_map]
    rintro _ ⟨m, -, rfl⟩ rfl
    exact loud excluded
  · exact complete_named (by simp [Github.anonymous, hid]) (noted_account hid c) h.complete

/-- A row of an account that is accepted: it issues what it says. -/
theorem Tracks.accepted (h : Tracks p t observations c) {row : Value} {key : EntityKey}
    (hk : accountKey p row = some key) {ms : List RowMembership} {gs : List RowGrant}
    (accepted : ¬ExcludedAccount p (observations ++ [.account row ms gs]) key) :
    Tracks p t (observations ++ [.account row ms gs]) (c.observe (.account row ms gs)) := by
  obtain ⟨issued, joined, ledger⟩ := h.ledger
  obtain ⟨id, hid, -⟩ := Option.map_eq_some_iff.mp hk
  obtain ⟨hr, ht, hg, hm, hf⟩ := c.account_parts row
  have accounts := h.accounts.account h.provider row ms gs
  have result := h.accounts.account_key h.provider hk ms gs
  rw [if_neg accepted] at result
  have issue := (ledger.taken.congr hg hm hf).carry key ms gs
  simp only [Collection.fixedPart, Prod.mk.injEq] at hf
  rw [observe_accepted result]
  obtain ⟨ha', hr', ht', hf'⟩ := carry_parts (c.account row).2 key ms gs
  simp only [Collection.fixedPart, Prod.mk.injEq] at hf'
  refine ⟨hf'.1.trans (hf.1.trans h.provider), hf'.2.2.trans (hf.2.2.trans h.success),
    fun k => (accounts k).congr ha', h.repositories.skip (hr'.trans hr) fun _ => rfl,
    h.teams.skip (ht'.trans ht) fun _ => rfl,
    ⟨_, _, ledger.issue (o := .account row ms gs) ?_⟩,
    complete_named (by simp [Github.anonymous, hid]) ((noted_account hid c).trans (noted_carry ..))
      h.complete⟩
  simpa only [claims, joins, hk] using issue

theorem Tracks.repository (h : Tracks p t observations c) (row : Value) :
    Tracks p t (observations ++ [.repository row]) (c.observe (.repository row)) := by
  obtain ⟨issued, joined, ledger⟩ := h.ledger
  obtain ⟨ha, ht, hg, hm, hf⟩ := c.repository_parts row
  have taken := ledger.taken.congr hg hm hf
  simp only [Collection.fixedPart, Prod.mk.injEq] at hf
  refine ⟨hf.1.trans h.provider, hf.2.2.trans h.success,
    h.accounts.skip ha (fun _ => rfl) fun _ => rfl, h.repositories.repository h.provider row,
    h.teams.skip ht fun _ => rfl,
    ⟨issued, joined, ledger.skip taken (fun _ _ => rfl) fun _ _ => rfl⟩, ?_⟩
  cases hid : nativeId row with
  | none =>
    apply complete_anonymous (by simp [Github.anonymous, hid])
    simp only [Collection.observe, Collection.repository, hid]
    rfl
  | some id =>
    exact complete_named (by simp [Github.anonymous, hid]) (noted_repository hid c) h.complete

theorem Tracks.team (h : Tracks p t observations c) (row : Value) (org : String) :
    Tracks p t (observations ++ [.team row org]) (c.observe (.team row org)) := by
  obtain ⟨issued, joined, ledger⟩ := h.ledger
  obtain ⟨ha, hr, hg, hm, hf⟩ := c.team_parts row org
  have taken := ledger.taken.congr hg hm hf
  simp only [Collection.fixedPart, Prod.mk.injEq] at hf
  refine ⟨hf.1.trans h.provider, hf.2.2.trans h.success,
    h.accounts.skip ha (fun _ => rfl) fun _ => rfl, h.repositories.skip hr fun _ => rfl,
    h.teams.team h.provider row org,
    ⟨issued, joined, ledger.skip taken (fun _ _ => rfl) fun _ _ => rfl⟩, ?_⟩
  cases hid : nativeId row with
  | none =>
    apply complete_anonymous (by simp [Github.anonymous, hid])
    simp only [Collection.observe, Collection.team, hid]
    rfl
  | some id =>
    exact complete_named (by simp [Github.anonymous, hid]) (noted_team hid c org) h.complete

theorem Tracks.groupGrant (h : Tracks p t observations c) (group resource : EntityKey)
    (role : String) (privilege : Privilege) (method : String) :
    Tracks p t (observations ++ [.groupGrant group resource role privilege method])
      (c.observe (.groupGrant group resource role privilege method)) := by
  obtain ⟨issued, joined, ledger⟩ := h.ledger
  obtain ⟨ha, hr, ht, -, hf⟩ := c.grant_parts (.group group) resource role privilege method
  simp only [Collection.fixedPart, Prod.mk.injEq] at hf
  have taken := ledger.taken.grant (.group group) resource role privilege method
  refine ⟨hf.1.trans h.provider, hf.2.2.trans h.success,
    h.accounts.skip ha (fun _ => rfl) fun _ => rfl, h.repositories.skip hr fun _ => rfl,
    h.teams.skip ht fun _ => rfl,
    ⟨_, _, ledger.issue (o := .groupGrant group resource role privilege method) ?_⟩,
    complete_named rfl (noted_grant c ..) h.complete⟩
  simpa only [claims, joins, List.append_nil, Collection.observe] using taken

/-- **One more observation.** -/
theorem Tracks.observe (h : Tracks p t observations c) (o : Observation) :
    Tracks p t (observations ++ [o]) (c.observe o) := by
  cases o with
  | account row ms gs =>
    cases hid : nativeId row with
    | none => exact h.anonymous hid ms gs
    | some id =>
      have hk : accountKey p row = some ⟨p, toString id⟩ := Option.map_eq_some_iff.mpr ⟨id, hid, rfl⟩
      by_cases excluded : ExcludedAccount p (observations ++ [.account row ms gs]) ⟨p, toString id⟩
      · exact h.excluded hk excluded
      · exact h.accepted hk excluded
  | repository row => exact h.repository row
  | team row org => exact h.team row org
  | groupGrant group resource role privilege method =>
    exact h.groupGrant group resource role privilege method

theorem tracks_start (p t : String) : Tracks p t [] (Collection.start p t) where
  provider := rfl
  success := rfl
  accounts k := ⟨by simp [Collection.start, Collection.new, accountLogin, accountType],
    by simp [Collection.start, Collection.new, accountLogin, accountType, Agreement.value],
    fun _ => by simp [Collection.start, Collection.new, accountType, Agreement.value]⟩
  repositories _ := Kept.empty
  teams := ⟨fun _ => Kept.empty,
    fun _ _ => by simp [Collection.start, Collection.new, teamMetadata, Agreement.value]⟩
  ledger := ⟨[], [], ⟨fun _ => Kept.empty, fun _ => by simp [Collection.start, Collection.new], rfl⟩,
    fun _ _ => rfl, fun _ _ => rfl⟩
  complete := ⟨fun _ => ⟨by constructor <;> simp [Collection.start, Collection.new],
    fun o ho => (by cases ho)⟩, fun _ => rfl⟩

/-- **The collection after any sequence of observations.** -/
theorem tracks (p t : String) (observations : List Observation) :
    Tracks p t observations ((Collection.start p t).observeAll observations) := by
  induction observations using List.reverseRecOn with
  | nil => exact tracks_start p t
  | append_singleton observations o ih =>
    rw [Collection.observeAll, List.foldl_append]
    exact ih.observe o

end Permesh.Github

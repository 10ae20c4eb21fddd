import Permesh.Laws.Github.Verdicts

/-!
# Laws.Github.Claims — grants, memberships and the complete flag

An account row that is not accepted issues none of its claims, so the collection sees fewer claims
than the observations carry. What it has seen (`Issued`) differs from them only in claims of
accounts that are excluded, and these are dropped at the end.

The claims seen are kept as a list beside the collection, and each function says what it appends.
Claims that are repeated stay in the list; what the collection holds of them is their verdict.
-/

namespace Permesh.Github

open Permesh.Json Permesh.Lib

variable {p t : String} {observations : List Observation} {c : Collection}

section Said

variable {κ α : Type} [DecidableEq κ]

@[simp] theorem said_nil (k : κ) : said k ([] : List (κ × α)) = [] := rfl

@[simp] theorem said_append (k : κ) (l l' : List (κ × α)) :
    said k (l ++ l') = said k l ++ said k l' := by
  simp only [said, List.filter_append, List.map_append]

theorem said_singleton (k key : κ) (a : α) :
    said k [(key, a)] = if key = k then [a] else [] := by
  by_cases h : key = k <;> simp [said, h]

/-- Nothing is said of a key that does not occur. -/
theorem said_eq_nil {k : κ} {l : List (κ × α)} (h : ∀ x ∈ l, x.1 ≠ k) : said k l = [] := by
  rw [said, List.filter_eq_nil_iff.mpr fun x hx => by simpa using h x hx, List.map_nil]

theorem mem_said {k : κ} {l : List (κ × α)} {a : α} : a ∈ said k l ↔ (k, a) ∈ l := by
  simp only [said, List.mem_map, List.mem_filter, decide_eq_true_eq, Prod.exists]
  constructor
  · rintro ⟨_, _, ⟨h, rfl⟩, rfl⟩
    exact h
  · intro h
    exact ⟨k, a, ⟨h, rfl⟩, rfl⟩

end Said

/-! ## Grants -/

/-- The grant that a claim stands for. -/
def claimGrant (t : String) (k : GrantKey) (report : String × Privilege) : Grant :=
  (Collection.new "" t).grantOf k.2.1 k.2.2 report.1 report.2 k.1

/-- The grants are what the issued claims agree on. -/
def Grants (t : String) (issued : List (GrantKey × String × Privilege)) (c : Collection) : Prop :=
  ∀ k, Kept (.of ((said k issued).map some)) (claimGrant t k) k c.grants c.blockedGrants

/-- **`grant` keeps the verdicts.** -/
theorem Grants.grant {issued : List (GrantKey × String × Privilege)} (h : Grants t issued c)
    (ht : c.observedAt = t) (subject : Subject) (resource : EntityKey) (role : String)
    (privilege : Privilege) (method : String) :
    Grants t (issued ++ [((method, subject, resource), role, privilege)])
      (c.grant subject resource role privilege method) := by
  subst ht
  intro k
  rw [said_append, said_singleton]
  unfold Collection.grant
  dsimp only
  by_cases hk : ((method, subject, resource) : GrantKey) = k
  · rw [if_pos hk, List.map_append, List.map_singleton, Agreement.of_append_singleton]
    subst hk
    have kept := h (method, subject, resource)
    by_cases hb : ((method, subject, resource) : GrantKey) ∈ c.blockedGrants
    · rw [if_pos hb]
      exact kept.stay hb _
    rw [if_neg hb]
    have entry := kept.entry
    cases known : c.grants[((method, subject, resource) : GrantKey)]? with
    | none =>
      rw [known] at entry
      cases hv : Agreement.of ((said ((method, subject, resource) : GrantKey) issued).map some) with
      | unseen => exact Kept.enter rfl hb
      | agreed _ =>
        rw [hv] at entry
        cases entry
      | conflict => exact absurd (kept.blocked.mpr hv) hb
    | some old =>
      rw [known] at entry
      cases hv : Agreement.of ((said ((method, subject, resource) : GrantKey) issued).map some) with
      | unseen =>
        rw [hv] at entry
        cases entry
      | agreed report =>
        rw [hv] at entry kept
        cases Option.some.inj entry
        dsimp only
        by_cases same : report = (role, privilege)
        · rw [if_neg, Agreement.observe, if_pos same]
          · exact kept
          · rintro (differs | differs) <;> exact differs (by rw [same]; rfl)
        · rw [if_pos, Agreement.observe, if_neg same]
          · exact Kept.block rfl
          · rw [← not_and_or]
            exact fun both => same (Prod.ext both.1 both.2)
      | conflict => exact absurd (kept.blocked.mpr hv) hb
  · rw [if_neg hk, List.append_nil]
    split
    · exact h k
    split
    · split
      · exact (h k).block_other hk
      · exact h k
    · exact (h k).enter_other hk

/-! ## Memberships -/

/-- A membership is kept as it was first issued. -/
def Memberships (t : String) (joined : List (MembershipKey × String)) (c : Collection) : Prop :=
  ∀ k, c.memberships[k]? = (said k joined).head?.map fun method => ⟨k.1, k.2, ⟨method, t⟩⟩

theorem Memberships.membership {joined : List (MembershipKey × String)}
    (h : Memberships t joined c) (ht : c.observedAt = t) (member : Subject) (group : EntityKey)
    (method : String) :
    Memberships t (joined ++ [((member, group), method)]) (c.membership member group method) := by
  subst ht
  intro k
  rw [said_append, said_singleton]
  have known := h k
  unfold Collection.membership
  by_cases hk : ((member, group) : MembershipKey) = k
  · subst hk
    rw [if_pos rfl]
    cases hs : said ((member, group) : MembershipKey) joined with
    | nil =>
      rw [hs] at known
      rw [known]
      show (c.memberships.insert _ _)[_]? = _
      rw [getElem?_insert_key, if_pos rfl]
      rfl
    | cons first rest =>
      rw [hs] at known
      rw [known]
      exact known
  · rw [if_neg hk, List.append_nil]
    split
    · exact known
    · show (c.memberships.insert _ _)[_]? = _
      rw [getElem?_insert_key, if_neg hk]
      exact known

/-! ## The claims of an account row -/

/-- The claims that the collection has taken in. -/
structure Issued (t : String) (issued : List (GrantKey × String × Privilege))
    (joined : List (MembershipKey × String)) (c : Collection) : Prop where
  grants : Grants t issued c
  memberships : Memberships t joined c
  observedAt : c.observedAt = t

variable {issued : List (GrantKey × String × Privilege)} {joined : List (MembershipKey × String)}

theorem Issued.congr {c' : Collection} (h : Issued t issued joined c)
    (hg : c'.grantPart = c.grantPart) (hm : c'.memberships = c.memberships)
    (hf : c'.fixedPart = c.fixedPart) : Issued t issued joined c' := by
  simp only [Collection.grantPart, Collection.fixedPart, Prod.mk.injEq] at hg hf
  refine ⟨fun k => ?_, fun k => ?_, hf.2.1.trans h.observedAt⟩
  · rw [hg.1, hg.2]
    exact h.grants k
  · rw [hm]
    exact h.memberships k

theorem Issued.grant (h : Issued t issued joined c) (subject : Subject) (resource : EntityKey)
    (role : String) (privilege : Privilege) (method : String) :
    Issued t (issued ++ [((method, subject, resource), role, privilege)]) joined
      (c.grant subject resource role privilege method) := by
  obtain ⟨-, -, -, hm, hf⟩ := c.grant_parts subject resource role privilege method
  simp only [Collection.fixedPart, Prod.mk.injEq] at hf
  exact ⟨h.grants.grant h.observedAt subject resource role privilege method,
    fun k => by rw [hm]; exact h.memberships k, hf.2.1.trans h.observedAt⟩

theorem Issued.membership (h : Issued t issued joined c) (member : Subject) (group : EntityKey)
    (method : String) :
    Issued t issued (joined ++ [((member, group), method)])
      (c.membership member group method) := by
  obtain ⟨-, -, -, hg, hf⟩ := c.membership_parts member group method
  simp only [Collection.grantPart, Collection.fixedPart, Prod.mk.injEq] at hg hf
  exact ⟨fun k => by rw [hg.1, hg.2]; exact h.grants k,
    h.memberships.membership h.observedAt member group method,
    hf.2.1.trans h.observedAt⟩

/-- An accepted row issues all its claims, in order. -/
theorem Issued.carry (h : Issued t issued joined c) (key : EntityKey) (ms : List RowMembership)
    (gs : List RowGrant) :
    Issued t (issued ++ gs.map fun g => ((g.method, .account key, g.resource), g.role, g.privilege))
      (joined ++ ms.map fun m => ((.account key, m.group), m.method)) (c.carry key ms gs) := by
  induction ms generalizing c joined with
  | cons m ms ih =>
    have := ih (h.membership (.account key) m.group m.method)
    rwa [List.append_assoc, List.singleton_append] at this
  | nil =>
    rw [List.map_nil, List.append_nil]
    unfold Collection.carry
    rw [List.foldl_nil]
    induction gs generalizing c issued with
    | nil => rwa [List.map_nil, List.append_nil]
    | cons g gs ih =>
      have := ih (h.grant (.account key) g.resource g.role g.privilege g.method)
      rwa [List.append_assoc, List.singleton_append] at this

/-- Carrying claims leaves the entities alone. -/
theorem carry_parts (c : Collection) (key : EntityKey) (ms : List RowMembership)
    (gs : List RowGrant) :
    (c.carry key ms gs).accountPart = c.accountPart ∧
      (c.carry key ms gs).repositoryPart = c.repositoryPart ∧
      (c.carry key ms gs).teamPart = c.teamPart ∧ (c.carry key ms gs).fixedPart = c.fixedPart := by
  induction ms generalizing c with
  | cons m ms ih =>
    obtain ⟨ha, hr, ht, -, hf⟩ := c.membership_parts (.account key) m.group m.method
    obtain ⟨ha', hr', ht', hf'⟩ := ih (c.membership (.account key) m.group m.method)
    exact ⟨ha'.trans ha, hr'.trans hr, ht'.trans ht, hf'.trans hf⟩
  | nil =>
    induction gs generalizing c with
    | nil => exact ⟨rfl, rfl, rfl, rfl⟩
    | cons g gs ih =>
      obtain ⟨ha, hr, ht, -, hf⟩ :=
        c.grant_parts (.account key) g.resource g.role g.privilege g.method
      obtain ⟨ha', hr', ht', hf'⟩ :=
        ih (c.grant (.account key) g.resource g.role g.privilege g.method)
      exact ⟨ha'.trans ha, hr'.trans hr, ht'.trans ht, hf'.trans hf⟩

/-! ## The complete flag -/

/-- Nothing is blocked. -/
structure Clean (c : Collection) : Prop where
  accounts : ∀ k, k ∉ c.blockedAccounts
  resources : ∀ k, k ∉ c.blockedResources
  groups : ∀ k, k ∉ c.blockedGroups
  grants : ∀ k, k ∉ c.blockedGrants

/-- What taking in a row with an identifier does to completeness: something is blocked and the
snapshot is incomplete, or nothing changes. -/
inductive Noted (c c' : Collection) : Prop where
  | same (complete : c'.snapshot.complete = c.snapshot.complete) (clean : Clean c' ↔ Clean c)
  | blocked (incomplete : c'.snapshot.complete = false) (unclean : ¬Clean c')

/-- The blocked sets of a collection. -/
def blockedPart (c : Collection) :=
  (c.blockedAccounts, c.blockedResources, c.blockedGroups, c.blockedGrants)

theorem Noted.of_eq {c c' : Collection} (hc : c'.snapshot.complete = c.snapshot.complete)
    (hb : blockedPart c' = blockedPart c) : Noted c c' := by
  simp only [blockedPart, Prod.mk.injEq] at hb
  obtain ⟨ha, hr, hg, hx⟩ := hb
  refine .same hc ⟨fun h => ⟨?_, ?_, ?_, ?_⟩, fun h => ⟨?_, ?_, ?_, ?_⟩⟩
  · rw [← ha]; exact h.accounts
  · rw [← hr]; exact h.resources
  · rw [← hg]; exact h.groups
  · rw [← hx]; exact h.grants
  · rw [ha]; exact h.accounts
  · rw [hr]; exact h.resources
  · rw [hg]; exact h.groups
  · rw [hx]; exact h.grants

theorem Noted.refl (c : Collection) : Noted c c := .same rfl .rfl

theorem Noted.trans {c c' c'' : Collection} (h : Noted c c') (h' : Noted c' c'') : Noted c c'' := by
  cases h' with
  | blocked incomplete unclean => exact .blocked incomplete unclean
  | same complete' clean' =>
    cases h with
    | same complete clean => exact .same (complete'.trans complete) (clean'.trans clean)
    | blocked incomplete unclean =>
      exact .blocked (complete'.trans incomplete) (mt clean'.mp unclean)

/-- Completeness stays what it means. -/
theorem Noted.complete {c c' : Collection} {named : Prop} (h : Noted c c')
    (hc : c.snapshot.complete = true ↔ Clean c ∧ named) :
    c'.snapshot.complete = true ↔ Clean c' ∧ named := by
  cases h with
  | same complete clean => rw [complete, clean, hc]
  | blocked incomplete unclean =>
    rw [incomplete]
    exact ⟨fun h => (by cases h), fun h => absurd h.1 unclean⟩

theorem noted_blockAccount (c : Collection) (key : EntityKey) (endpoint : String)
    (err : ProviderError) : Noted c ((c.blockAccount key).fail endpoint err) :=
  .blocked rfl fun clean => clean.accounts key (mem_insert_key.mpr (.inl rfl))

theorem noted_blockResource (c : Collection) (key : EntityKey) (endpoint : String)
    (err : ProviderError) : Noted c ((c.blockResource key).fail endpoint err) :=
  .blocked rfl fun clean => clean.resources key (mem_insert_key.mpr (.inl rfl))

theorem noted_blockGroup (c : Collection) (key : EntityKey) (endpoint : String)
    (err : ProviderError) : Noted c ((c.blockGroup key).fail endpoint err) :=
  .blocked rfl fun clean => clean.groups key (mem_insert_key.mpr (.inl rfl))

theorem noted_account {row : Value} {id : Nat} (hid : nativeId row = some id) (c : Collection) :
    Noted c (c.account row).2 := by
  unfold Collection.account
  rw [hid]
  dsimp only
  split
  · exact .refl c
  split
  · exact noted_blockAccount ..
  split
  · exact noted_blockAccount ..
  split
  · exact noted_blockAccount ..
  split <;> exact .of_eq rfl rfl

theorem noted_repository {row : Value} {id : Nat} (hid : nativeId row = some id) (c : Collection) :
    Noted c (c.repository row).2 := by
  unfold Collection.repository
  rw [hid]
  dsimp only
  split
  · exact .refl c
  split
  · exact noted_blockResource ..
  split
  · exact noted_blockResource ..
  · exact .of_eq rfl rfl

theorem noted_team {row : Value} {id : Nat} (hid : nativeId row = some id) (c : Collection)
    (org : String) : Noted c (c.team row org).2 := by
  unfold Collection.team
  rw [hid]
  dsimp only
  split
  · exact .refl c
  split
  · split
    · split
      · exact noted_blockGroup ..
      · exact .refl c
    · exact .of_eq rfl rfl
  · exact noted_blockGroup ..

theorem noted_grant (c : Collection) (subject : Subject) (resource : EntityKey) (role : String)
    (privilege : Privilege) (method : String) :
    Noted c (c.grant subject resource role privilege method) := by
  unfold Collection.grant
  dsimp only
  split
  · exact .refl c
  split
  · split
    · exact .blocked rfl fun clean =>
        clean.grants (method, subject, resource) (mem_insert_key.mpr (.inl rfl))
    · exact .refl c
  · exact .of_eq rfl rfl

theorem noted_membership (c : Collection) (member : Subject) (group : EntityKey)
    (method : String) : Noted c (c.membership member group method) := by
  unfold Collection.membership
  split
  · exact .refl c
  · exact .of_eq rfl rfl

theorem noted_carry (c : Collection) (key : EntityKey) (ms : List RowMembership)
    (gs : List RowGrant) : Noted c (c.carry key ms gs) := by
  induction ms generalizing c with
  | cons m ms ih => exact (noted_membership c ..).trans (ih _)
  | nil =>
    induction gs generalizing c with
    | nil => exact .refl c
    | cons g gs ih => exact (noted_grant c ..).trans (ih _)

end Permesh.Github

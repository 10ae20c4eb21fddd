import Permesh.Laws.Github.Closed

/-!
# Laws.Github.GrantIds — grants with one identifier

Every key that a row yields is a number, or a kind and a number (`KeySource`), and every grant that a
collection keeps is stored under its claim (`Named`). So identifiers tell claims and roles, in one
collection and across the collections of an instance (`grant_ids`). The induction is on how a collection
was reached; only the step that adds a grant says something. Times are no part of an identifier.
-/

namespace Permesh.Github

open Permesh.Json Permesh.Http Permesh.Lib

/-! ## Keys -/

/-- Where the keys of subjects and resources come from. -/
inductive KeySource (p : String) : EntityKey → Prop where
  | account {c : Collection} {row : Value} {k : EntityKey} : c.snapshot.provider = p →
      (c.account row).1 = some k → KeySource p k
  | repository {c : Collection} {row : Value} {k : EntityKey} {owner name : String} :
      c.snapshot.provider = p → (c.repository row).1 = some (k, owner, name) → KeySource p k
  | team {c : Collection} {row : Value} {org slug : String} {k : EntityKey} :
      c.snapshot.provider = p → (c.team row org).1 = some (k, slug) → KeySource p k
  | organization {c : Collection} (id : Nat) : c.snapshot.provider = p →
      KeySource p (c.key "organization" id)

variable {p : String} {k : EntityKey}

theorem KeySource.native (h : KeySource p k) : NativeKey p k := by
  cases h with
  | @account c row _ provider given =>
    subst provider
    have step := account_step c row
    generalize c.account row = result at step given
    cases step with
    | taken id => exact .inl ⟨id, (Option.some.inj given).symm⟩
    | skipped | unread | blocked => cases given
  | @repository c row _ owner name provider given =>
    subst provider
    have step := repository_step c row
    generalize c.repository row = result at step given
    cases step with
    | taken id =>
      cases given
      exact .inr ⟨"repository", by decide, id, rfl⟩
    | skipped | unread | blocked => cases given
  | @team c row org slug _ provider given =>
    subst provider
    have step := team_step c row org
    generalize c.team row org = result at step given
    cases step with
    | taken id =>
      cases given
      exact .inr ⟨"team", by decide, id, rfl⟩
    | skipped | unread | blocked => cases given
  | organization id provider =>
    subst provider
    exact .inr ⟨"organization", by decide, id, rfl⟩

/-! ## Collections -/

/-- The methods of the grants of a discovery. -/
def grantMethods : List String :=
  ["github.organization_role", "github.team_repository_effective",
    "github.repository_collaborator_effective"]

/-- The collections that rows and grants lead to, in any order. -/
inductive Reached : Collection → Prop where
  | new (id observedAt : String) : Reached (.new id observedAt)
  | fail {c : Collection} (endpoint : String) (failure : ProviderError) :
      Reached c → Reached (c.fail endpoint failure)
  | accept {c : Collection} (endpoint : String) (list : Listing) :
      Reached c → Reached (c.accept endpoint list).2
  | account {c : Collection} (row : Value) : Reached c → Reached (c.account row).2
  | repository {c : Collection} (row : Value) : Reached c → Reached (c.repository row).2
  | team {c : Collection} (row : Value) (org : String) : Reached c → Reached (c.team row org).2
  | organization {c : Collection} (key : EntityKey) (org : String) :
      Reached c → Reached (c.organization key org)
  | adopt {c : Collection} (org : String) (organization resource : EntityKey) (owner : String) :
      Reached c → Reached (c.adopt org organization resource owner)
  | membership {c : Collection} (member : Subject) (group : EntityKey) (method : String) :
      Reached c → Reached (c.membership member group method)
  | grant {c : Collection} {subject : Subject} {resource : EntityKey} {method : String}
      (role : String) (privilege : Privilege) :
      KeySource c.snapshot.provider (subjectPart subject).2 →
      KeySource c.snapshot.provider resource → method ∈ grantMethods →
      Reached c → Reached (c.grant subject resource role privilege method)

/-- The claim and the identifier of a grant that is kept. -/
structure Named (p : String) (k : GrantKey) (g : Grant) : Prop where
  method : k.1 ∈ grantMethods
  subject : NativeKey p (subjectPart k.2.1).2
  resource : NativeKey p k.2.2
  claim : k = (g.provenance.method, g.subject, g.resource)
  id : g.id = claimId k g.role

/-- Nothing but a grant changes the grants. -/
def grantPart (c : Collection) := (c.snapshot.provider, c.grants)

theorem grantPart_account (c : Collection) (row : Value) :
    grantPart (c.account row).2 = grantPart c := by
  have step := account_step c row
  generalize c.account row = result at step ⊢
  cases step <;> rfl

theorem grantPart_repository (c : Collection) (row : Value) :
    grantPart (c.repository row).2 = grantPart c := by
  have step := repository_step c row
  generalize c.repository row = result at step ⊢
  cases step <;> rfl

theorem grantPart_team (c : Collection) (row : Value) (org : String) :
    grantPart (c.team row org).2 = grantPart c := by
  have step := team_step c row org
  generalize c.team row org = result at step ⊢
  cases step <;> rfl

theorem grantPart_accept (c : Collection) (endpoint : String) (list : Listing) :
    grantPart (c.accept endpoint list).2 = grantPart c := by
  unfold Collection.accept
  dsimp only
  split <;> rfl

theorem grantPart_adopt (c : Collection) (org : String) (organization resource : EntityKey)
    (owner : String) : grantPart (c.adopt org organization resource owner) = grantPart c := by
  have step := adopt_step c org organization resource owner
  generalize c.adopt org organization resource owner = result at step ⊢
  cases step <;> rfl

theorem grantPart_membership (c : Collection) (member : Subject) (group : EntityKey)
    (method : String) : grantPart (c.membership member group method) = grantPart c := by
  have step := membership_step c member group method
  generalize c.membership member group method = result at step ⊢
  cases step <;> rfl

theorem provider_grant (c : Collection) (subject : Subject) (resource : EntityKey) (role : String)
    (privilege : Privilege) (method : String) :
    (c.grant subject resource role privilege method).snapshot.provider = c.snapshot.provider := by
  have step := grant_step c subject resource role privilege method
  generalize c.grant subject resource role privilege method = result at step ⊢
  cases step <;> rfl

/-- The grants behind a grant: it is the new one, or was there before. -/
theorem grants_grant {c : Collection} {subject : Subject} {resource : EntityKey} {role : String}
    {privilege : Privilege} {method : String} {k : GrantKey} {g : Grant}
    (known : (c.grant subject resource role privilege method).grants[k]? = some g) :
    c.grants[k]? = some g ∨ k = (method, subject, resource) ∧
      g = c.grantOf subject resource role privilege method := by
  have step := grant_step c subject resource role privilege method
  generalize c.grant subject resource role privilege method = result at step known
  cases step with
  | known => exact .inl known
  | blocked failure =>
    change (c.grants.erase _)[k]? = some g at known
    rw [Std.ExtTreeMap.getElem?_erase] at known
    split at known
    · cases known
    · exact .inl known
  | taken =>
    change (c.grants.insert _ _)[k]? = some g at known
    rw [getElem?_insert_key] at known
    split at known
    case isTrue same => exact .inr ⟨same.symm, (Option.some.inj known).symm⟩
    case isFalse => exact .inl known

theorem Reached.named {c : Collection} (h : Reached c) : ∀ (k : GrantKey) (g : Grant),
    c.grants[k]? = some g → Named c.snapshot.provider k g := by
  have keeps {c c' : Collection} (same : grantPart c' = grantPart c)
      (h : ∀ (k : GrantKey) (g : Grant), c.grants[k]? = some g → Named c.snapshot.provider k g) :
      ∀ (k : GrantKey) (g : Grant), c'.grants[k]? = some g → Named c'.snapshot.provider k g := by
    obtain ⟨provider, grants⟩ := Prod.mk.inj same
    rw [provider, grants]
    exact h
  induction h with
  | new id observedAt =>
    intro k g known
    change (∅ : Std.ExtTreeMap GrantKey Grant)[k]? = some g at known
    rw [Std.ExtTreeMap.getElem?_empty] at known
    cases known
  | fail endpoint failure _ ih => exact keeps rfl ih
  | accept endpoint list _ ih => exact keeps (grantPart_accept ..) ih
  | account row _ ih => exact keeps (grantPart_account ..) ih
  | repository row _ ih => exact keeps (grantPart_repository ..) ih
  | team row org _ ih => exact keeps (grantPart_team ..) ih
  | organization key org _ ih => exact keeps rfl ih
  | adopt org organization resource owner _ ih => exact keeps (grantPart_adopt ..) ih
  | membership member group method _ ih => exact keeps (grantPart_membership ..) ih
  | @grant c subject resource method role privilege source source' known _ ih =>
    intro k g there
    rw [provider_grant]
    rcases grants_grant there with before | ⟨rfl, rfl⟩
    · exact ih k g before
    · refine ⟨known, source.native, source'.native, ?_, grantId_eq ..⟩
      cases subject <;> rfl

/-- One identifier, one claim and one role. -/
theorem Named.same {k k' : GrantKey} {g g' : Grant} (h : Named p k g) (h' : Named p k' g')
    (same : g.id = g'.id) : k = k' ∧ g.role = g'.role := by
  have plain : ∀ method ∈ grantMethods, Plain method := by decide
  rw [h.id, h'.id] at same
  exact claimId_inj (plain _ h.method) (plain _ h'.method) h.subject h'.subject h.resource h'.resource
    same

/-! ## Traversals -/

/-- A step between collections that are reached. -/
structure Reaches (c c' : Collection) : Prop where
  provider : c'.snapshot.provider = c.snapshot.provider
  reached : Reached c → Reached c'

theorem Reaches.refl (c : Collection) : Reaches c c := ⟨rfl, id⟩

theorem Reaches.trans {c c' c'' : Collection} (h : Reaches c c') (h' : Reaches c' c'') :
    Reaches c c'' :=
  ⟨h'.provider.trans h.provider, h'.reached ∘ h.reached⟩

theorem Reaches.of_part {c c' : Collection} (same : grantPart c' = grantPart c)
    (reached : Reached c → Reached c') : Reaches c c' :=
  ⟨(Prod.mk.inj same).1, reached⟩

theorem reaches_fail (c : Collection) (endpoint : String) (failure : ProviderError) :
    Reaches c (c.fail endpoint failure) := .of_part rfl (.fail endpoint failure)

theorem reaches_membership (c : Collection) (member : Subject) (group : EntityKey)
    (method : String) : Reaches c (c.membership member group method) :=
  .of_part (grantPart_membership ..) (.membership member group method)

theorem reaches_grant {c : Collection} {subject : Subject} {resource : EntityKey} {method : String}
    (role : String) (privilege : Privilege)
    (source : KeySource c.snapshot.provider (subjectPart subject).2)
    (source' : KeySource c.snapshot.provider resource) (known : method ∈ grantMethods) :
    Reaches c (c.grant subject resource role privilege method) :=
  ⟨provider_grant .., .grant role privilege source source' known⟩

theorem reaches_forAccount {c : Collection} {user : Value}
    {claims : EntityKey → Collection → Collection}
    (reaches : ∀ k c', c'.snapshot.provider = c.snapshot.provider →
      KeySource c'.snapshot.provider k → Reaches c' (claims k c')) :
    Reaches c (c.forAccount user claims) := by
  have first : Reaches c (c.account user).2 := .of_part (grantPart_account ..) (.account user)
  unfold Collection.forAccount
  cases account : c.account user with
  | mk result c' =>
    rw [account] at first
    cases result with
    | none => exact first
    | some k =>
      exact first.trans (reaches k c' first.provider
        (.account first.provider.symm (by rw [account])))

theorem reaches_permissions (client : Client) (org slug owner name : String) (repo : Value)
    (t : Traversal) : Reaches t.state (client.permissions org slug owner name repo t).2.state := by
  unfold Client.permissions
  split
  · exact reaches_fail ..
  · split
    · dsimp only
      split
      · exact .refl _
      · exact reaches_fail ..
    · exact reaches_fail ..

theorem reaches_walk (client : Client) : Walk client (fun _ t t' => Reaches t.state t'.state)
    (fun t => KeySource t.state.snapshot.provider) (fun t => KeySource t.state.snapshot.provider)
    (fun t => KeySource t.state.snapshot.provider) where
  refl t := .refl _
  trans h h' := h.trans h'
  le _ h := h
  organizationStays h source := h.provider.symm ▸ source
  teamStays h source := h.provider.symm ▸ source
  repositoryStays h source := h.provider.symm ▸ source
  fail t endpoint failure := reaches_fail ..
  object t org := .refl _
  permissions t org slug owner name repo := reaches_permissions client org slug owner name repo t
  issue _ h := (Reaches.of_part (grantPart_accept ..) (.accept _ _)).trans h
  enter t id org := ⟨.of_part rfl (.organization _ org), .organization id rfl⟩
  memberRow {t organization} role user entered := by
    apply reaches_forAccount
    intro k c' provider source
    have joined := reaches_membership c' (.account k) organization "github.organization_members"
    refine joined.trans (reaches_grant role _ ?_ ?_ (by decide))
    · exact joined.provider.symm ▸ source
    · rw [joined.provider, provider]
      exact entered
  repositoryRow t repo := by
    have part := grantPart_repository t.state repo
    refine ⟨.of_part part (.repository repo), fun found given => ?_⟩
    rw [(Prod.mk.inj part).1]
    exact .repository rfl given
  adopt org resource owner _ := .of_part (grantPart_adopt ..) (.adopt org _ resource owner)
  teamRow t row org := by
    have part := grantPart_team t.state row org
    refine ⟨.of_part part (.team row org), fun found given => ?_⟩
    rw [(Prod.mk.inj part).1]
    exact .team rfl given
  teamMemberRow user _ := reaches_forAccount fun k c' _ _ => reaches_membership ..
  teamRepositoryRow role team there := reaches_grant role _ team there (by decide)
  collaboratorRow user there := reaches_forAccount fun k c' provider source =>
    reaches_grant _ _ source (provider.symm ▸ there) (by decide)

/-- **One identifier, one claim and one role**: this holds of the grants that collections keep, over
whatever rows and roles they were reached, and the traversals of a discovery are among them. -/
theorem grant_ids :
    (∀ (client : Client) (observedAt : String), Reached (client.traversal observedAt).state) ∧
    ∀ (c c' : Collection), Reached c → Reached c' → c.snapshot.provider = c'.snapshot.provider →
      ∀ (k k' : GrantKey) (g g' : Grant), c.grants[k]? = some g → c'.grants[k']? = some g' →
        g.id = g'.id → k = k' ∧ k = (g.provenance.method, g.subject, g.resource) ∧
          k' = (g'.provenance.method, g'.subject, g'.resource) ∧ g.role = g'.role := by
  constructor
  · intro client observedAt
    exact ((reaches_walk client).traverse _ _).reached (.new client.id observedAt)
  · intro c c' reached reached' provider k k' g g' kept kept' same
    have named := reached.named k g kept
    have named' := reached'.named k' g' kept'
    rw [← provider] at named'
    obtain ⟨claim, role⟩ := named.same named' same
    exact ⟨claim, named.claim, named'.claim, role⟩

/-- A row of an account. -/
def aliceRow : Value := .object [("id", .number (.posInt 7)), ("login", .string "alice")]

/-- A collection with one grant, whose role imitates the parts of another identifier. -/
def colonCollection (observedAt : String) : Collection :=
  (((Collection.new "github" observedAt).account aliceRow).2.organization
    ⟨"github", "organization:1"⟩ "acme").grant (.account ⟨"github", "7"⟩)
      ⟨"github", "organization:1"⟩ "1:organization:1:admin" .unknown "github.organization_role"

/-- The claim of its grant. -/
def colonClaim : GrantKey :=
  ("github.organization_role", .account ⟨"github", "7"⟩, ⟨"github", "organization:1"⟩)

theorem reached_colonCollection (observedAt : String) : Reached (colonCollection observedAt) := by
  have account : KeySource "github" ⟨"github", "7"⟩ :=
    @KeySource.account "github" (.new "github" "2026-01-01T00:00:00Z") aliceRow ⟨"github", "7"⟩ rfl
      (by decide +kernel)
  have organization : KeySource "github" ⟨"github", "organization:1"⟩ :=
    @KeySource.organization "github" (.new "github" "2026-01-01T00:00:00Z") 1 rfl
  exact .grant _ _ account organization (by decide)
    (.organization _ _ (.account _ (.new _ observedAt)))

/-- Two discoveries observe the same claim and the same role, under one identifier. -/
theorem grant_ids_colon : ∃ g g',
    (colonCollection "2026-01-01T00:00:00Z").grants[colonClaim]? = some g ∧
    (colonCollection "2026-01-02T00:00:00Z").grants[colonClaim]? = some g' ∧ g.id = g'.id ∧
    colonClaim = (g.provenance.method, g.subject, g.resource) ∧ g.role = g'.role := by
  have once : ((colonCollection "2026-01-01T00:00:00Z").grants[colonClaim]?.bind fun g =>
      (colonCollection "2026-01-02T00:00:00Z").grants[colonClaim]?.map fun g' =>
        decide (g.id = g'.id)) = some true := by
    decide +kernel
  obtain ⟨g, kept, rest⟩ := Option.bind_eq_some_iff.mp once
  obtain ⟨g', kept', same⟩ := Option.map_eq_some_iff.mp rest
  obtain ⟨-, claim, -, role⟩ := grant_ids.2 _ _ (reached_colonCollection "2026-01-01T00:00:00Z")
    (reached_colonCollection "2026-01-02T00:00:00Z") rfl _ _ g g' kept kept' (of_decide_eq_true same)
  exact ⟨g, g', kept, kept', of_decide_eq_true same, claim, role⟩

end Permesh.Github

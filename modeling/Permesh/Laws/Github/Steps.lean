import Permesh.Github.Discovery
import Permesh.Lib.Maps

/-!
# Laws.Github.Steps — what a row does to the collection

Each function of the collection has a few outcomes: nothing is done, something is recorded as a
failure, an entity is blocked, or an entry is put into a map. They are listed once, and the laws of
whole traversals go through them.

The outcomes are stated with all that changes, so that a law about traversals never unfolds a function
of the source. Nothing is said about which outcome is the right one.
-/

namespace Permesh.Github

open Permesh.Json Permesh.Lib

/-! ## Entities -/

inductive AccountStep (c : Collection) : Option EntityKey × Collection → Prop where
  | skipped : AccountStep c (none, c)
  | unread (failure : ProviderError) : AccountStep c (none, c.fail "account record" failure)
  | blocked (id : Nat) (failure : ProviderError) : AccountStep c
      (none, (c.blockAccount ⟨c.snapshot.provider, toString id⟩).fail "account record" failure)
  | taken (id : Nat) (account : Account) (types : Std.ExtTreeMap EntityKey String)
      (free : (⟨c.snapshot.provider, toString id⟩ : EntityKey) ∉ c.blockedAccounts) :
      AccountStep c (some ⟨c.snapshot.provider, toString id⟩, { c with
        accounts := c.accounts.insert ⟨c.snapshot.provider, toString id⟩ account
        accountTypes := types })

theorem account_step (c : Collection) (row : Value) : AccountStep c (c.account row) := by
  unfold Collection.account
  cases nativeId row with
  | none => exact .unread _
  | some id =>
    dsimp only
    split
    · exact .skipped
    case isFalse free =>
      split
      · exact .blocked id _
      · split
        · exact .blocked id _
        · split
          · exact .blocked id _
          · split
            · exact .taken id _ c.accountTypes free
            · exact .taken id _ _ free

inductive RepositoryStep (c : Collection) :
    Option (EntityKey × String × String) × Collection → Prop where
  | skipped : RepositoryStep c (none, c)
  | unread (failure : ProviderError) : RepositoryStep c (none, c.fail "repository record" failure)
  | blocked (id : Nat) (failure : ProviderError) : RepositoryStep c
      (none, (c.blockResource (c.key "repository" id)).fail "repository record" failure)
  | taken (id : Nat) (owner name : String) (resource : Resource)
      (free : c.key "repository" id ∉ c.blockedResources)
      (parent : ∀ o ∈ resource.parent, ∃ old, c.resources[c.key "repository" id]? = some old ∧
        old.parent = some o) :
      RepositoryStep c (some (c.key "repository" id, owner, name), { c with
        resources := c.resources.insert (c.key "repository" id) resource })

theorem repository_step (c : Collection) (row : Value) : RepositoryStep c (c.repository row) := by
  unfold Collection.repository
  cases nativeId row with
  | none => exact .unread _
  | some id =>
    dsimp only
    split
    · exact .skipped
    case isFalse free =>
      split
      · exact .blocked id _
      · split
        · exact .blocked id _
        · refine .taken id _ _ _ free fun o ho => ?_
          cases known : c.resources[c.key "repository" id]? with
          | none =>
            rw [known] at ho
            cases ho
          | some old =>
            rw [known] at ho
            exact ⟨old, rfl, ho⟩

inductive TeamStep (c : Collection) : Option (EntityKey × String) × Collection → Prop where
  | skipped : TeamStep c (none, c)
  | unread (failure : ProviderError) : TeamStep c (none, c.fail "teams" failure)
  | blocked (id : Nat) (failure : ProviderError) : TeamStep c
      (none, (c.blockGroup (c.key "team" id)).fail "teams" failure)
  | taken (id : Nat) (slug name : String) (teams : Std.ExtTreeMap EntityKey (String × String × String))
      (free : c.key "team" id ∉ c.blockedGroups) :
      TeamStep c (some (c.key "team" id, slug), { c with
        teams := teams
        groups := c.groups.insert (c.key "team" id) { key := c.key "team" id, name := name } })

theorem team_step (c : Collection) (row : Value) (org : String) : TeamStep c (c.team row org) := by
  unfold Collection.team
  cases nativeId row with
  | none => exact .unread _
  | some id =>
    dsimp only
    split
    · exact .skipped
    case isFalse free =>
      split
      · split
        · split
          · exact .blocked id _
          · exact .skipped
        · exact .taken id _ _ _ free
      · exact .blocked id _

/-! ## Claims -/

inductive MembershipStep (c : Collection) (member : Subject) (group : EntityKey) (method : String) :
    Collection → Prop where
  | known : MembershipStep c member group method c
  | taken : MembershipStep c member group method { c with
      memberships := c.memberships.insert (member, group) ⟨member, group, c.provenance method⟩ }

theorem membership_step (c : Collection) (member : Subject) (group : EntityKey) (method : String) :
    MembershipStep c member group method (c.membership member group method) := by
  unfold Collection.membership
  split
  · exact .known
  · exact .taken

inductive GrantStep (c : Collection) (subject : Subject) (resource : EntityKey) (role : String)
    (privilege : Privilege) (method : String) : Collection → Prop where
  | known : GrantStep c subject resource role privilege method c
  | blocked (failure : ProviderError) : GrantStep c subject resource role privilege method
      ({ c with
        grants := c.grants.erase (method, subject, resource)
        blockedGrants := c.blockedGrants.insert (method, subject, resource) }.fail
          "grant record" failure)
  | taken : GrantStep c subject resource role privilege method { c with
      grants := c.grants.insert (method, subject, resource)
        (c.grantOf subject resource role privilege method) }

theorem grant_step (c : Collection) (subject : Subject) (resource : EntityKey) (role : String)
    (privilege : Privilege) (method : String) :
    GrantStep c subject resource role privilege method
      (c.grant subject resource role privilege method) := by
  unfold Collection.grant
  dsimp only
  split
  · exact .known
  · split
    · split
      · exact .blocked _
      · exact .known
    · exact .taken

inductive AdoptStep (c : Collection) (organization resource : EntityKey) : Collection → Prop where
  | foreign : AdoptStep c organization resource c
  | adopted (old : Resource) (known : c.resources[resource]? = some old) :
      AdoptStep c organization resource { c with
        resources := c.resources.insert resource { old with parent := some organization } }

theorem adopt_step (c : Collection) (org : String) (organization resource : EntityKey)
    (owner : String) : AdoptStep c organization resource (c.adopt org organization resource owner) := by
  unfold Collection.adopt
  split
  · split
    case h_1 old known => exact .adopted old known
    · exact .foreign
  · exact .foreign

end Permesh.Github

import Permesh.IdentityCenter.Discovery
import Permesh.Lib.Maps
import Permesh.Lib.Program

/-!
# Laws.IdentityCenter.Names — what the organization adds

Two collections are compared whose services answer alike, but for what the rows of `ListAccounts` say.
They make the same requests until one of them fails, and two snapshots differ in the names of
resources only (`collect_alike`).

Two runs are related step by step (`Like`). They are the same until the accounts are listed, and differ
in names behind it. What the names are, and whether they are right, is not looked at.
-/

namespace Permesh.IdentityCenter

open Permesh.Aws (Answer serviceCode)
open Permesh.Lib

/-! ## Requests -/

inductive Request where
  | caller
  | page (q : Query) (request : PageRequest)
  | describe (instanceArn permissionSetArn : String)
  deriving DecidableEq, Repr

def Step.requests : Step → List Request
  | .caller _ => [.caller]
  | .list q exchanges => exchanges.map fun e => .page q e.1
  | .describe inst arn _ => [.describe inst arn]

/-- The requests of a collection, in order. -/
def requests (log : List Step) : List Request := log.flatMap Step.requests

theorem requests_append (log : List Step) (step : Step) :
    requests (log ++ [step]) = requests log ++ step.requests := by
  rw [requests, List.flatMap_append, List.flatMap_singleton]
  rfl

/-- Two answers that differ in what their rows say at most. -/
def SameShape (answer answer' : Answer (Page OrganizationAccount)) : Prop :=
  match answer, answer' with
  | .error code, .error code' => code = code'
  | .ok page, .ok page' => page.rows.length = page'.rows.length ∧ page.nextToken = page'.nextToken
  | _, _ => False

/-- Services that answer alike, but for what the rows of `ListAccounts` say. -/
structure SameButAccounts (services services' : Services) : Prop where
  caller : services'.getCallerIdentity = services.getCallerIdentity
  list : ∀ n q request, q ≠ .accounts → services'.list n q request = services.list n q request
  accounts : ∀ n request,
    SameShape (services.list n .accounts request) (services'.list n .accounts request)
  describe : services'.describePermissionSet = services.describePermissionSet

variable {p : IdentityCenterProvider} {services services' : Services}

/-! ## Lists that are the same -/

theorem turn_congr (same : SameButAccounts services services') {q : Query} (other : q ≠ .accounts) :
    turn services' (q := q) = turn services := by
  funext t
  unfold turn
  dsimp only
  rw [same.list _ _ _ other]

theorem fetch_congr (same : SameButAccounts services services') {q : Query}
    (other : q ≠ .accounts) : fetch services' q = fetch services q := by
  funext r
  simp only [fetch, fetched, turn_congr same other]

theorem prove_congr (same : SameButAccounts services services') :
    p.prove services' = p.prove services := by
  have search : p.search services' = p.search services := by
    funext t
    unfold IdentityCenterProvider.search
    dsimp only
    rw [same.list _ _ _ (by decide)]
  have searched : p.searched services' = p.searched services := by
    funext n
    simp only [IdentityCenterProvider.searched, search]
  funext r
  unfold IdentityCenterProvider.prove
  rw [searched, same.caller]

theorem users_congr (same : SameButAccounts services services') :
    p.users services' = p.users services := by
  unfold IdentityCenterProvider.users
  rw [fetch_congr same (by simp)]

theorem groups_congr (same : SameButAccounts services services') :
    p.groups services' = p.groups services := by
  funext userKeys
  unfold IdentityCenterProvider.groups
  rw [fetch_congr same (by simp)]

theorem members_congr (same : SameButAccounts services services') :
    p.members services' = p.members services := by
  have group : p.groupMembers services' = p.groupMembers services := by
    funext userKeys observedAt t entry
    unfold IdentityCenterProvider.groupMembers
    rw [fetch_congr same (by simp)]
  funext userKeys groupKeys observedAt
  unfold IdentityCenterProvider.members
  rw [group]

theorem takeAccount_congr (same : SameButAccounts services services') :
    p.takeAccount services' = p.takeAccount services := by
  have describe : p.describe services' = p.describe services := by
    funext arn r
    unfold IdentityCenterProvider.describe
    dsimp only
    rw [same.describe]
  have permission : p.takePermission services' = p.takePermission services := by
    funext userKeys groupKeys observedAt account t arn
    unfold IdentityCenterProvider.takePermission
    rw [describe, fetch_congr same (by simp)]
  funext userKeys groupKeys observedAt grants entry
  unfold IdentityCenterProvider.takeAccount
  rw [permission, fetch_congr same (by simp)]

/-! ## Runs that are alike -/

/-- The collections have made the same requests, behind some that were made before, and have the same
records but for the names of resources. -/
structure Like (base : List Request) (r r' : Run) : Prop where
  rows : r'.rows = r.rows
  count : r'.requests = r.requests
  log : requests r'.log = requests r.log
  grown : base <+: requests r.log
  accounts : r'.snapshot.accounts = r.snapshot.accounts
  groups : r'.snapshot.groups = r.snapshot.groups
  memberships : r'.snapshot.memberships = r.snapshot.memberships
  grants : r'.snapshot.grants = r.snapshot.grants
  resources : r'.snapshot.resources.map (·.key) = r.snapshot.resources.map (·.key)

theorem Like.refl (r : Run) : Like (requests r.log) r r :=
  ⟨rfl, rfl, rfl, List.prefix_refl _, rfl, rfl, rfl, rfl, rfl⟩

variable {base : List Request}

theorem Like.missed {r r' : Run} (h : Like base r r') (code code' : String) :
    Like base (r.missed code) (r'.missed code') :=
  ⟨h.rows, h.count, h.log, h.grown, h.accounts, h.groups, h.memberships, h.grants, h.resources⟩

/-- One more step, with the same requests. -/
theorem Like.step {r r' : Run} (h : Like base r r') {step step' : Step}
    (same : step'.requests = step.requests) :
    Like base { r with log := r.log ++ [step] } { r' with log := r'.log ++ [step'] } where
  rows := h.rows
  count := h.count
  log := by rw [requests_append, requests_append, h.log, same]
  grown := by
    rw [requests_append]
    exact h.grown.trans (List.prefix_append _ _)
  accounts := h.accounts
  groups := h.groups
  memberships := h.memberships
  grants := h.grants
  resources := h.resources

/-! ## Lists that are alike -/

/-- Two answers of the same shape, whose rows go on related lists. -/
def Shaped {α : Type} (W : List α → List α → Prop) (answer answer' : Answer (Page α)) : Prop :=
  match answer, answer' with
  | .error code, .error code' => code = code'
  | .ok page, .ok page' => page.rows.length = page'.rows.length ∧
    page.nextToken = page'.nextToken ∧
    ∀ out out', W out out' → W (out ++ page.rows) (out' ++ page'.rows)
  | _, _ => False

theorem shaped_self {α : Type} (answer : Answer (Page α)) : Shaped (· = ·) answer answer := by
  cases answer with
  | error code => rfl
  | ok page => exact ⟨rfl, rfl, fun out out' same => by rw [same]⟩

theorem SameShape.shaped {answer answer' : Answer (Page OrganizationAccount)}
    (h : SameShape answer answer') : Shaped (fun _ _ => True) answer answer' := by
  cases answer <;> cases answer'
  · exact h
  · exact h.elim
  · exact h.elim
  · exact ⟨h.1, h.2, fun _ _ _ => trivial⟩

structure TurnLike {q : Query} (base : List Request) (W : List q.Row → List q.Row → Prop)
    (t t' : Turn q) : Prop where
  pager : t'.pager = t.pager
  out : W t.out t'.out
  sent : t'.exchanges.map Prod.fst = t.exchanges.map Prod.fst
  run : Like base t.run t'.run

theorem TurnLike.turn {q : Query} {W : List q.Row → List q.Row → Prop}
    (shaped : ∀ n request, Shaped W (services.list n q request) (services'.list n q request))
    {t t' : Turn q} (h : TurnLike base W t t') : (turn services t).2 = (turn services' t').2 ∧
      TurnLike base W (turn services t).1 (turn services' t').1 := by
  obtain ⟨pager, out, sent, run⟩ := h
  have answers := shaped t.run.requests ⟨t.pager.token, q.maxResults⟩
  unfold IdentityCenter.turn
  dsimp only
  rw [pager, run.count]
  generalize services.list t.run.requests q ⟨t.pager.token, q.maxResults⟩ = answer at answers
  generalize services'.list t.run.requests q ⟨t.pager.token, q.maxResults⟩ = answer' at answers
  have sent' : (t'.exchanges ++ [((⟨t.pager.token, q.maxResults⟩ : PageRequest), answer')]).map
      Prod.fst =
      (t.exchanges ++ [((⟨t.pager.token, q.maxResults⟩ : PageRequest), answer)]).map Prod.fst := by
    rw [List.map_append, List.map_append, sent]
    rfl
  have next : Like base { t.run with requests := t.run.requests + 1 }
      { t'.run with requests := t.run.requests + 1 } :=
    ⟨run.rows, rfl, run.log, run.grown, run.accounts, run.groups, run.memberships, run.grants,
      run.resources⟩
  cases answer with
  | error code =>
    cases answer' with
    | ok page' => exact answers.elim
    | error code' => exact ⟨rfl, rfl, out, sent', next.missed _ _⟩
  | ok page =>
    cases answer' with
    | error code' => exact answers.elim
    | ok page' =>
      obtain ⟨length, token, rows⟩ := answers
      dsimp only
      rw [run.rows, ← length, ← token]
      have counted : Like base
          { t.run with rows := t.run.rows + page.rows.length, requests := t.run.requests + 1 }
          { t'.run with rows := t.run.rows + page.rows.length, requests := t.run.requests + 1 } :=
        ⟨rfl, rfl, next.log, next.grown, next.accounts, next.groups, next.memberships, next.grants,
          next.resources⟩
      split
      · exact ⟨rfl, rfl, out, sent', counted.missed _ _⟩
      · generalize t.pager.advance page.nextToken = outcome
        obtain ⟨pager', e | more⟩ := outcome
        · exact ⟨rfl, rfl, rows _ _ out, sent', counted.missed _ _⟩
        · exact ⟨rfl, rfl, rows _ _ out, sent', counted⟩

/-- **Two lists** of the same shape. -/
theorem fetched_alike {q : Query} {W : List q.Row → List q.Row → Prop} (nil : W [] [])
    (shaped : ∀ n request, Shaped W (services.list n q request) (services'.list n q request))
    {r r' : Run} (h : Like base r r') :
    TurnLike base W (fetched services q r) (fetched services' q r') :=
  loop_alike (fun _ _ h => h.turn shaped) (⟨rfl, nil, rfl, h⟩ :
    TurnLike base W (Turn.start q r) (Turn.start q r'))
    (Option.some_get (fetch_ends services q r)).symm
    (Option.some_get (fetch_ends services' q r')).symm

theorem fetch_alike {q : Query} {W : List q.Row → List q.Row → Prop} (nil : W [] [])
    (shaped : ∀ n request, Shaped W (services.list n q request) (services'.list n q request))
    {r r' : Run} (h : Like base r r') :
    Like base (fetch services q r).2 (fetch services' q r').2 := by
  have alike := fetched_alike nil shaped h
  apply alike.run.step
  have sent := congrArg (List.map (Request.page q)) alike.sent
  rw [List.map_map, List.map_map] at sent
  exact sent

theorem fetch_stable (q : Query) : Stable (Like base) (fetch services q).run := by
  intro r r' h
  have shaped : ∀ n request, Shaped (· = ·) (services.list n q request) (services.list n q request) :=
    fun n request => shaped_self _
  exact ⟨congrArg Except.ok (fetched_alike rfl shaped h).out, fetch_alike rfl shaped h⟩

/-! ## Assignments -/

theorem malformed_stable {α : Type} : Stable (Like base) (malformed : Op α).run := Stable.result _

theorem note_stable (code : String) : Stable (Like base) (note code).run :=
  Stable.update fun _ _ h => h.missed _ _

theorem takeAssignment_stable (userKeys groupKeys : Keys) (observedAt : String) (target : Target)
    (grants : Std.ExtTreeSet String) (assignment : AccountAssignment) : Stable (Like base)
      (p.takeAssignment userKeys groupKeys observedAt target grants assignment).run := by
  unfold IdentityCenterProvider.takeAssignment
  split
  · exact malformed_stable
  split
  case h_2 => exact malformed_stable
  case h_1 id _ =>
    split
    case h_1 => exact (note_stable _).seq fun _ => Stable.result _
    case h_2 subject _ =>
      dsimp only
      split
      · exact malformed_stable
      · refine Stable.seq (Stable.update fun r r' h => ?_) fun _ => Stable.result _
        exact ⟨h.rows, h.count, h.log, h.grown, h.accounts, h.groups, h.memberships,
          congrArg (· ++ _) h.grants, h.resources⟩

theorem resource_stable (x x' : Resource) (same : x'.key = x.key) :
    Alike (Like base)
      (modify fun r => { r with snapshot := { r.snapshot with
        resources := r.snapshot.resources ++ [x] } } : Op Unit).run
      (modify fun r => { r with snapshot := { r.snapshot with
        resources := r.snapshot.resources ++ [x'] } } : Op Unit).run := by
  intro r r' h
  refine ⟨rfl, h.rows, h.count, h.log, h.grown, h.accounts, h.groups, h.memberships, h.grants, ?_⟩
  show (r'.snapshot.resources ++ [x']).map (·.key) = (r.snapshot.resources ++ [x]).map (·.key)
  rw [List.map_append, List.map_append, h.resources, List.map_singleton, List.map_singleton, same]

theorem describe_stable (arn : String) : Stable (Like base) (p.describe services arn).run := by
  intro r r' h
  have counted : Like base { r with requests := r.requests + 1 }
      { r' with requests := r'.requests + 1 } :=
    ⟨h.rows, congrArg (· + 1) h.count, h.log, h.grown, h.accounts, h.groups, h.memberships, h.grants,
      h.resources⟩
  refine ⟨?_, counted.step rfl⟩
  show Except.ok (services.describePermissionSet r.requests p.config.instanceArn arn) =
    Except.ok (services.describePermissionSet r'.requests p.config.instanceArn arn)
  rw [h.count]

theorem takePermission_stable (userKeys groupKeys : Keys) (observedAt account : String)
    (t : Permissions) (arn : String) : Stable (Like base)
      (p.takePermission services userKeys groupKeys observedAt account t arn).run := by
  unfold IdentityCenterProvider.takePermission
  split
  · exact malformed_stable
  refine (describe_stable arn).seq fun answer => ?_
  split
  case h_1 => exact (note_stable _).seq fun _ => Stable.result _
  case h_2 => exact malformed_stable
  case h_3 permission =>
    split
    case h_2 => exact malformed_stable
    case h_1 name _ =>
      split
      · exact malformed_stable
      refine Stable.seq (resource_stable _ _ rfl) fun _ => ?_
      refine Stable.seq (fetch_stable _) fun rows => ?_
      refine Stable.seq (Stable.fold (fun grants row => ?_) rows _) fun _ => Stable.result _
      exact takeAssignment_stable userKeys groupKeys observedAt _ grants row

/-- The name of an account is the name of its resource, and nothing else. -/
theorem takeAccount_alike (userKeys groupKeys : Keys) (observedAt account name name' : String)
    (grants : Std.ExtTreeSet String) : Alike (Like base)
      (p.takeAccount services userKeys groupKeys observedAt grants (account, name)).run
      (p.takeAccount services userKeys groupKeys observedAt grants (account, name')).run := by
  unfold IdentityCenterProvider.takeAccount
  refine Alike.seq (resource_stable _ _ rfl) fun _ => ?_
  refine Stable.seq (fetch_stable _) fun rows => ?_
  refine Stable.seq (Stable.fold (fun t arn => ?_) rows _) fun _ => Stable.result _
  exact takePermission_stable userKeys groupKeys observedAt account t arn

/-! ## The names of the accounts -/

/-- The names of the allowlisted accounts. -/
def Named (p : IdentityCenterProvider) (names : Std.ExtTreeMap String String) : Prop :=
  ∀ account, account ∈ names ↔ account ∈ p.config.accounts

theorem takeName_ensures (r : Run) (t : Names) (account : OrganizationAccount) :
    Ensures (fun s => Named p t.accountNames ∧ s = r) (p.takeName t account).run
      (Post (fun t s => Named p t.accountNames ∧ s = r) (· = r)) := by
  have fails : Ensures (fun s => Named p t.accountNames ∧ s = r) (malformed : Op Names).run
      (Post (fun t s => Named p t.accountNames ∧ s = r) (· = r)) := fun _ h => h.2
  unfold IdentityCenterProvider.takeName
  split
  case h_2 => exact fails
  case h_1 id _ =>
    split
    · exact fails
    dsimp only
    split
    case isFalse => exact Ensures.ret fun _ h => h
    case isTrue listed =>
      split
      case h_2 => exact fails
      case h_1 name _ =>
        refine Ensures.ret fun s h => ⟨fun account => ?_, h.2⟩
        rw [Std.ExtTreeMap.mem_insert, ← h.1]
        simp only [Std.LawfulEqCmp.compare_eq_iff_eq]
        constructor
        · rintro (rfl | mem)
          · exact listed
          · exact mem
        · exact .inr

/-- A collection to which nothing has happened but that it may have become incomplete. -/
def Noted (r r' : Run) : Prop := ∃ complete limitations,
  (complete = true → r.snapshot.complete = true) ∧ r' = { r with snapshot := { r.snapshot with
    complete := complete
    limitations := limitations } }

theorem Noted.refl (r : Run) : Noted r r := ⟨_, _, fun complete => complete, rfl⟩

theorem Noted.missed {r r' : Run} (h : Noted r r') (code : String) : Noted r (r'.missed code) := by
  obtain ⟨complete, limitations, -, rfl⟩ := h
  exact ⟨false, _, fun complete => Bool.noConfusion complete, rfl⟩

theorem named_start : Named p (Std.ExtTreeMap.ofList
    (p.config.accounts.map fun account => (account, account))) := by
  intro account
  rw [Std.ExtTreeMap.mem_ofList]
  simp

/-- The rows of the organization leave the collection as it is, but for its completeness. -/
theorem takeNames_ensures (r : Run) (rows : List OrganizationAccount) : Ensures (· = r)
    (do
      let t ← rows.foldlM p.takeName
        ⟨Std.ExtTreeMap.ofList (p.config.accounts.map fun account => (account, account)), ∅⟩
      p.config.accounts.forM fun id => if id ∈ t.seen then pure () else note "malformed"
      pure t.accountNames : Op (Std.ExtTreeMap String String)).run
    (Post (fun names s => Named p names ∧ Noted r s) (Noted r)) := by
  refine Ensures.seq (R := fun t s => Named p t.accountNames ∧ s = r) ?_ fun t => ?_
  · refine Ensures.fails (E := (· = r)) ?_ fun s eq => eq ▸ Noted.refl r
    exact (Ensures.fold (I := fun _ t s => Named p t.accountNames ∧ s = r) rows
      (fun account rest t _ => takeName_ensures r t account) _).mono
      (fun s eq => ⟨named_start, eq⟩) fun _ _ h => h
  · refine Ensures.seq (R := fun _ s => Named p t.accountNames ∧ Noted r s) ?_
      fun _ => Ensures.ret fun s h => h
    refine (Ensures.forM (P := fun s => Named p t.accountNames ∧ Noted r s) (Q := Noted r)
      (fun account => ?_) _).mono (fun s h => ⟨h.1, h.2 ▸ Noted.refl r⟩) fun result s h => by
        cases result <;> exact h
    split
    · exact fun s h => h
    · exact fun s h => ⟨h.1, h.2.missed _⟩

theorem Like.noted {r r' s s' : Run} (h : Like base r r') (noted : Noted r s)
    (noted' : Noted r' s') : Like base s s' := by
  obtain ⟨complete, limitations, -, rfl⟩ := noted
  obtain ⟨complete', limitations', -, rfl⟩ := noted'
  exact ⟨h.rows, h.count, h.log, h.grown, h.accounts, h.groups, h.memberships, h.grants, h.resources⟩

/-- The collection behind the list of the organization, if there is one. -/
def organized (p : IdentityCenterProvider) (services : Services) (r : Run) : Run :=
  if p.config.includeOrganizations then (fetch services .accounts r).2 else r

/-- **The names of the accounts**: those that are allowlisted. -/
theorem accountNames_ensures (r : Run) : Ensures (· = r) (p.accountNames services).run
    (Post (fun names s => Named p names ∧ Noted (organized p services r) s)
      (Noted (organized p services r))) := by
  unfold IdentityCenterProvider.accountNames organized
  dsimp only
  split
  case isFalse => exact Ensures.ret fun s eq => ⟨named_start, eq ▸ Noted.refl r⟩
  case isTrue =>
    refine Ensures.seq (R := fun _ s => s = (fetch services .accounts r).2) ?_ fun rows =>
      takeNames_ensures _ rows
    rintro _ rfl
    rfl

theorem organized_alike (same : SameButAccounts services services') {r r' : Run}
    (h : Like base r r') : Like base (organized p services r) (organized p services' r') := by
  unfold organized
  split
  · exact fetch_alike (q := .accounts) trivial (fun n request => (same.accounts n request).shaped) h
  · exact h

/-- The names that two organizations give, and the collections behind them. -/
theorem accountNames_alike (same : SameButAccounts services services') {r r' : Run}
    (h : Like base r r') :
    Like base (p.accountNames services r).2 (p.accountNames services' r').2 ∧
      ∀ names names', (p.accountNames services r).1 = .ok names →
        (p.accountNames services' r').1 = .ok names' → names.keys = names'.keys := by
  have alike := organized_alike (p := p) same h
  have first : Post _ _ (p.accountNames services r).1 (p.accountNames services r).2 :=
    accountNames_ensures r r rfl
  have second : Post _ _ (p.accountNames services' r').1 (p.accountNames services' r').2 :=
    accountNames_ensures r' r' rfl
  have noted {services : Services} {r : Run} {result : Except ProviderError _} {s : Run}
      (post : Post (fun names s => Named p names ∧ Noted (organized p services r) s)
        (Noted (organized p services r)) result s) : Noted (organized p services r) s := by
    cases result with
    | ok names => exact post.2
    | error e => exact post
  refine ⟨alike.noted (noted first) (noted second), fun names names' ok ok' => ?_⟩
  rw [ok] at first
  rw [ok'] at second
  exact keys_eq_of_mem fun account => (first.1 account).trans (second.1 account).symm

/-! ## Two collections -/

variable (p services) in
/-- The allowlisted accounts, whatever their names are. -/
theorem assigned_alike {names names' : Std.ExtTreeMap String String} (keys : names.keys = names'.keys)
    (userKeys groupKeys : Keys) (observedAt : String) : Alike (Like base)
      (do let _ ← names.toList.foldlM (p.takeAccount services userKeys groupKeys observedAt) ∅ :
        Op Unit).run
      (do let _ ← names'.toList.foldlM (p.takeAccount services userKeys groupKeys observedAt) ∅ :
        Op Unit).run := by
  rw [← Std.ExtTreeMap.map_fst_toList_eq_keys, ← Std.ExtTreeMap.map_fst_toList_eq_keys] at keys
  have pairs : List.Forall₂ (· = ·) (names.toList.map Prod.fst) (names'.toList.map Prod.fst) := by
    rw [keys]
    exact List.forall₂_same.mpr fun _ _ => rfl
  rw [List.forall₂_map_left_iff, List.forall₂_map_right_iff] at pairs
  refine Alike.seq (Alike.fold (pairs.imp ?_) ∅) fun _ => Stable.result _
  rintro ⟨account, name⟩ ⟨_, name'⟩ rfl grants
  exact takeAccount_alike userKeys groupKeys observedAt account name name' grants

/-- The collection of the accounts makes more requests. -/
theorem assigned_grows (names : Std.ExtTreeMap String String) (userKeys groupKeys : Keys)
    (observedAt : String) (r : Run) : requests r.log <+: requests ((do
      let _ ← names.toList.foldlM (p.takeAccount services userKeys groupKeys observedAt) ∅ :
        Op Unit) r).2.log :=
  (assigned_alike p services (rfl : names.keys = names.keys) userKeys groupKeys observedAt
    r r (Like.refl r)).2.grown

/-- Two collections from here: one of them may stop before the other, and if both succeed, they have
collected alike. -/
structure Parted (x x' : Op Unit) (r : Run) : Prop where
  sent : requests (x r).2.log <+: requests (x' r).2.log ∨
    requests (x' r).2.log <+: requests (x r).2.log
  alike : (x r).1 = .ok () → (x' r).1 = .ok () → Like [] (x r).2 (x' r).2

theorem Parted.after {α : Type} (x : Op α) {f f' : α → Op Unit} (h : ∀ a r, Parted (f a) (f' a) r)
    (r : Run) : Parted (x >>= f) (x >>= f') r := by
  cases first : x r with
  | mk result s =>
    cases result with
    | error e =>
      constructor
      · rw [bind_of_error first, bind_of_error first]
        exact .inl (List.prefix_refl _)
      · rw [bind_of_error first]
        exact fun ok => by cases ok
    | ok a =>
      obtain ⟨sent, alike⟩ := h a s
      constructor
      · rw [bind_of_ok first, bind_of_ok first]
        exact sent
      · rw [bind_of_ok first, bind_of_ok first]
        exact alike

theorem Like.forget {r r' : Run} (h : Like base r r') : Like [] r r' :=
  ⟨h.rows, h.count, h.log, List.nil_prefix, h.accounts, h.groups, h.memberships, h.grants, h.resources⟩

theorem accounts_parted (same : SameButAccounts services services') (userKeys groupKeys : Keys)
    (observedAt : String) (r : Run) :
    Parted
      (do
        let names ← p.accountNames services
        let _ ← names.toList.foldlM (p.takeAccount services userKeys groupKeys observedAt) ∅)
      (do
        let names ← p.accountNames services'
        let _ ← names.toList.foldlM (p.takeAccount services userKeys groupKeys observedAt) ∅) r := by
  obtain ⟨like, keys⟩ := accountNames_alike (p := p) same (Like.refl r)
  generalize ran : p.accountNames services r = outcome at like keys
  generalize ran' : p.accountNames services' r = outcome' at like keys
  -- a collection whose names are refused stops where the other one goes on
  obtain ⟨e | names, s⟩ := outcome <;> obtain ⟨e' | names', s'⟩ := outcome'
  · refine ⟨.inl ?_, ?_⟩
    · rw [bind_of_error ran, bind_of_error ran']
      exact like.log ▸ List.prefix_rfl
    · rw [bind_of_error ran]
      exact fun ok => by cases ok
  · refine ⟨.inl ?_, ?_⟩
    · rw [bind_of_error ran, bind_of_ok ran', ← like.log]
      exact assigned_grows names' userKeys groupKeys observedAt s'
    · rw [bind_of_error ran]
      exact fun ok => by cases ok
  · refine ⟨.inr ?_, ?_⟩
    · rw [bind_of_ok ran, bind_of_error ran', like.log]
      exact assigned_grows names userKeys groupKeys observedAt s
    · rw [bind_of_error ran']
      exact fun _ ok => by cases ok
  · have together := (assigned_alike p services (keys names names' rfl rfl) userKeys groupKeys
       observedAt s s' like).2
    refine ⟨.inl ?_, ?_⟩
    · rw [bind_of_ok ran, bind_of_ok ran']
      exact together.log ▸ List.prefix_rfl
    · rw [bind_of_ok ran, bind_of_ok ran']
      exact fun _ _ => together.forget

theorem gather_parted (same : SameButAccounts services services') (observedAt : String) (r : Run) :
    Parted (p.gather services observedAt) (p.gather services' observedAt) r := by
  unfold IdentityCenterProvider.gather
  rw [prove_congr same, users_congr same, groups_congr same, members_congr same,
    takeAccount_congr same]
  refine Parted.after _ (fun _ => Parted.after _ fun userKeys => Parted.after _ fun groupKeys =>
    Parted.after _ fun _ => ?_) r
  exact accounts_parted same userKeys groupKeys observedAt

/-- Two collections of which one may have stopped before the other. Two snapshots have the same records
but for the names of resources. -/
structure Undisturbed (outcome outcome' : Except ProviderError Snapshot × List Step) : Prop where
  sent : requests outcome.2 <+: requests outcome'.2 ∨ requests outcome'.2 <+: requests outcome.2
  same : ∀ s s', outcome.1 = .ok s → outcome'.1 = .ok s' →
    requests outcome'.2 = requests outcome.2 ∧ s'.accounts = s.accounts ∧ s'.groups = s.groups ∧
      s'.memberships = s.memberships ∧ s'.grants = s.grants ∧
      (s'.resources.map (·.key)).Perm (s.resources.map (·.key))

/-- **What the organization says** adds no request and no record. -/
theorem collect_alike (core : Core) (observedAt : String)
    (same : SameButAccounts services services') :
    Undisturbed (p.collect services core observedAt) (p.collect services' core observedAt) := by
  obtain ⟨sent, alike⟩ := gather_parted (p := p) same observedAt p.start
  constructor
  · rw [p.collect_log, p.collect_log]
    exact sent
  · intro s s' ok ok'
    obtain ⟨gathered, rfl⟩ := IdentityCenterProvider.collect_ok ok
    obtain ⟨gathered', rfl⟩ := IdentityCenterProvider.collect_ok ok'
    have like := alike gathered gathered'
    rw [p.collect_log, p.collect_log]
    refine ⟨like.log, congrArg core.sortAccounts like.accounts, congrArg core.sortGroups like.groups,
      congrArg core.sortMemberships like.memberships, congrArg core.sortGrants like.grants, ?_⟩
    have perm := (core.resources_perm
      (p.gather services' observedAt p.start).2.snapshot.resources).map (·.key)
    rw [like.resources] at perm
    exact perm.trans ((core.resources_perm _).map _).symm

end Permesh.IdentityCenter

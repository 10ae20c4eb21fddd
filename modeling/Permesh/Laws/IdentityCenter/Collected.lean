import Permesh.Laws.IdentityCenter.Ledger
import Permesh.Laws.IdentityCenter.Names

/-!
# Laws.IdentityCenter.Collected — the collection, part by part

Each part of the collection takes the rows of its lists, and keeps what holds between two steps. A part
that fails leaves a log whose requests were all within the scope.

Every part has one statement about what it ensures, also where it fails, and the statements are composed
by the rule for sequences. The parts are in the order of the source, and so are the statements.
-/

namespace Permesh.IdentityCenter

open Permesh.Aws (Answer serviceCode validAccount)
open Permesh.Lib

variable {p : IdentityCenterProvider} {services : Services} {T : Known} {todo : List AnyRow}

/-- A collection that has failed. -/
def Halted (p : IdentityCenterProvider) (r : Run) : Prop := Scoped p r.log

theorem malformed_ensures {α : Type} {P : Run → Prop} {Q : α → Run → Prop}
    (h : ∀ r, P r → Scoped p r.log) : Ensures P (malformed : Op α).run (Post Q (Halted p)) := h

/-- **A list.** -/
theorem fetch_ensures {q : Query} (within : ∀ r, Inv p T todo r → Within p r.log q) :
    Ensures (Inv p T todo) (fetch services q).run
      (Post (fun rows => Inv p (T.ask q) (rows.map (Sigma.mk q) ++ todo)) (Halted p)) :=
  fun r h => h.fetched (within r h) (fetched_spec services q r)

/-- **The rows of a list** are taken one after another. -/
theorem fold_ensures {q : Query} {β : Type} {K : β → Known} {f : β → q.Row → Op β}
    (each : ∀ todo b row, Ensures (Inv p ((K b).ask q) (⟨q, row⟩ :: todo)) (f b row).run
      (Post (fun b => Inv p ((K b).ask q) todo) (Halted p))) (rows : List q.Row) (b : β) :
    Ensures (Inv p ((K b).ask q) (rows.map (Sigma.mk q) ++ todo)) (rows.foldlM f b).run
      (Post (fun b => Inv p ((K b).ask q) todo) (Halted p)) :=
  Ensures.fold (I := fun rest b => Inv p ((K b).ask q) (rest.map (Sigma.mk q) ++ todo)) rows
    (fun row rest b _ => each (rest.map (Sigma.mk q) ++ todo) b row) b

variable (services) in
/-- **A list whose rows are taken.** -/
theorem rows_ensures {q : Query} {β : Type} {K : β → Known} {f : β → q.Row → Op β} {b : β}
    (within : ∀ r, Inv p (K b) todo r → Within p r.log q)
    (each : ∀ todo b row, Ensures (Inv p ((K b).ask q) (⟨q, row⟩ :: todo)) (f b row).run
      (Post (fun b => Inv p ((K b).ask q) todo) (Halted p))) :
    Ensures (Inv p (K b) todo) (fetch services q >>= fun rows => rows.foldlM f b).run
      (Post (fun b => Inv p ((K b).ask q) todo) (Halted p)) :=
  (fetch_ensures within).seq fun rows => fold_ensures each rows b

/-! ## Users and groups -/

theorem takeUser_ensures (T : Known) (todo : List AnyRow) (keys : Keys) (user : StoreUser) :
    Ensures (Inv p { T with users := keys } (⟨.users p.config.identityStoreId, user⟩ :: todo))
      (p.takeUser keys user).run
      (Post (fun keys => Inv p { T with users := keys } todo) (Halted p)) := by
  unfold IdentityCenterProvider.takeUser
  refine Ensures.seq (R := fun account r => p.user user = .ok account ∧
    Inv p { T with users := keys } (⟨.users p.config.identityStoreId, user⟩ :: todo) r)
    (Ensures.lift (fun _ _ ok h => ⟨ok, h⟩) fun _ h => h.scope) fun account => ?_
  split
  · exact malformed_ensures fun _ h => h.2.scope
  case isFalse fresh =>
    exact Ensures.seq (R := fun _ => Inv p { T with users := keys.insert user.userId account.key } todo)
      (Ensures.update fun _ h => h.2.account rfl h.1 fresh) fun _ => Ensures.ret fun _ h => h

theorem users_ensures : Ensures (Inv p { T with users := ∅ } todo) (p.users services).run
    (Post (fun keys => Inv p (({ T with users := keys } : Known).ask
      (.users p.config.identityStoreId)) todo) (Halted p)) :=
  rows_ensures services (K := fun keys => { T with users := keys }) (fun _ _ => rfl)
    fun todo keys user => takeUser_ensures (T.ask (.users p.config.identityStoreId)) todo keys user

theorem takeGroup_ensures (T : Known) (todo : List AnyRow) (keys : Keys) (group : StoreGroup) :
    Ensures (Inv p { T with groups := keys } (⟨.groups p.config.identityStoreId, group⟩ :: todo))
      (p.takeGroup T.users keys group).run
      (Post (fun keys => Inv p { T with groups := keys } todo) (Halted p)) := by
  unfold IdentityCenterProvider.takeGroup
  refine Ensures.seq (R := fun record r => p.group group = .ok record ∧
    Inv p { T with groups := keys } (⟨.groups p.config.identityStoreId, group⟩ :: todo) r)
    (Ensures.lift (fun _ _ ok h => ⟨ok, h⟩) fun _ h => h.scope) fun record => ?_
  split
  · exact malformed_ensures fun _ h => h.2.scope
  case isFalse fresh =>
    rw [not_or] at fresh
    exact Ensures.seq
      (R := fun _ => Inv p { T with groups := keys.insert group.groupId record.key } todo)
      (Ensures.update fun _ h => h.2.group rfl h.1 fresh.2) fun _ => Ensures.ret fun _ h => h

theorem groups_ensures :
    Ensures (Inv p { T with groups := ∅ } todo) (p.groups services T.users).run
    (Post (fun keys => Inv p (({ T with groups := keys } : Known).ask
      (.groups p.config.identityStoreId)) todo) (Halted p)) :=
  rows_ensures services (K := fun keys => { T with groups := keys }) (fun _ _ => rfl)
    fun todo keys group => takeGroup_ensures (T.ask (.groups p.config.identityStoreId)) todo keys group

/-! ## Memberships -/

theorem takeMember_ensures (T : Known) (todo : List AnyRow) (observedAt : String)
    {entry : String × EntityKey} (known : T.groups[entry.1]? = some entry.2) (t : Members)
    (member : GroupMembership) :
    Ensures (Inv p { T with memberships := t.memberships }
        (⟨.groupMemberships p.config.identityStoreId entry.1, member⟩ :: todo))
      (p.takeMember T.users observedAt entry t member).run
      (Post (fun t => Inv p { T with memberships := t.memberships } todo) (Halted p)) := by
  unfold IdentityCenterProvider.takeMember
  split
  case h_2 => exact malformed_ensures fun _ h => h.scope
  case h_1 id _ =>
    split
    · exact malformed_ensures fun _ h => h.scope
    dsimp only
    split
    case h_1 user named =>
      split
      case h_1 =>
        exact Ensures.seq (R := fun _ => Inv p { T with memberships := t.memberships } todo)
          (Ensures.update fun _ h => h.note _ (List.subset_cons_self _ _))
          fun _ => Ensures.ret fun _ h => h
      case h_2 userKey found =>
        split
        · exact malformed_ensures fun _ h => h.scope
        case isFalse fresh =>
          exact Ensures.seq (R := fun _ => Inv p
            { T with memberships := t.memberships.insert (.account userKey, entry.2) } todo)
            (Ensures.update fun _ h => h.membership rfl named found known fresh)
            fun _ => Ensures.ret fun _ h => h
    case h_2 =>
      exact Ensures.seq (R := fun _ => Inv p { T with memberships := t.memberships } todo)
        (Ensures.update fun _ h => h.note _ (List.subset_cons_self _ _))
        fun _ => Ensures.ret fun _ h => h

/-- A known group comes from a row. -/
theorem Inv.group_listed {r : Run} (h : Inv p T todo r) {id : String} {key : EntityKey}
    (known : T.groups[id]? = some key) :
    ∃ row, Listed r.log (.groups p.config.identityStoreId) row ∧ row.groupId = id := by
  obtain ⟨eq, g, mem, same⟩ := h.tracked.groupKeys id key known
  obtain ⟨row, listed, ok⟩ := h.sound.groups g mem
  refine ⟨row, listed, ?_⟩
  rw [← same, group_key ok] at eq
  exact (key_inj (by decide) (by decide) eq).2

theorem groupMembers_ensures (T : Known) (todo : List AnyRow) (observedAt : String)
    {entry : String × EntityKey} (known : T.groups[entry.1]? = some entry.2) (t : Members) :
    Ensures (Inv p { T with memberships := t.memberships } todo)
      (p.groupMembers services T.users observedAt t entry).run
      (Post (fun t => Inv p (({ T with memberships := t.memberships } : Known).ask
        (.groupMemberships p.config.identityStoreId entry.1)) todo) (Halted p)) :=
  rows_ensures services (K := fun t : Members => { T with memberships := t.memberships })
    (fun _ h => ⟨rfl, h.group_listed known⟩) fun todo t member => takeMember_ensures
      (T.ask (.groupMemberships p.config.identityStoreId entry.1)) todo observedAt known t member

theorem members_ensures (T : Known) (todo : List AnyRow) (observedAt : String) :
    Ensures (Inv p { T with memberships := ∅ } todo)
      (p.members services T.users T.groups observedAt).run
      (Post (fun t => Inv p { T with
        memberships := t.memberships
        lists := fun q => T.lists q ∨ ∃ entry ∈ T.groups.toList,
          q = .groupMemberships p.config.identityStoreId entry.1 } todo) (Halted p)) := by
  have loop := Ensures.foldDone (I := fun _ done (t : Members) => Inv p { T with
      memberships := t.memberships
      lists := fun q => T.lists q ∨ ∃ entry, done entry ∧
        q = .groupMemberships p.config.identityStoreId entry.1 } todo) (E := Halted p)
    (f := p.groupMembers services T.users observedAt) T.groups.toList
    (fun entry rest done t suffix => by
      have known : T.groups[entry.1]? = some entry.2 :=
        Std.ExtTreeMap.mem_toList_iff_getElem?_eq_some.mp (suffix.subset List.mem_cons_self)
      refine (groupMembers_ensures { T with
        lists := fun q => T.lists q ∨ ∃ entry, done entry ∧
          q = .groupMemberships p.config.identityStoreId entry.1 } todo observedAt known t).post
        fun t' r h => h.forget (fun _ h => h) (fun _ h => h) (fun q asked => ?_) fun _ h => h
      rcases asked with before | ⟨entry', passed | rfl, rfl⟩
      · exact .inl (.inl before)
      · exact .inl (.inr ⟨entry', passed, rfl⟩)
      · exact .inr rfl) ⟨∅, ∅⟩
  refine loop.mono (fun r h => ?_) fun _ _ h => h
  refine h.forget (fun _ h => h) (fun _ h => h) (fun q asked => ?_) fun _ h => h
  rcases asked with before | ⟨entry, never, -⟩
  · exact before
  · exact never.elim

/-! ## Accounts -/

/-- The rows of the organization stand for nothing. -/
theorem Inv.takeAll {rows : List OrganizationAccount} {r : Run}
    (h : Inv p T (rows.map (Sigma.mk Query.accounts) ++ todo) r) : Inv p T todo r := by
  induction rows with
  | nil => exact h
  | cons row rest ih => exact ih (Inv.take (x := ⟨.accounts, row⟩) h trivial)

theorem Inv.noted {r r' : Run} (h : Inv p T todo r) (noted : Noted r r') : Inv p T todo r' := by
  obtain ⟨complete, limitations, kept, rfl⟩ := noted
  refine ⟨h.scope, h.sound.noted _ _, h.tracked.noted _ _, ⟨h.told.rows, fun complete => ?_⟩,
    h.listed, h.lists, h.described⟩
  obtain ⟨below, finished, covered⟩ := h.told.fine (kept complete)
  refine ⟨below, finished, fun q row listed => (covered q row listed).imp_left fun covered => ?_⟩
  exact covered.mono (List.Subset.refl _)
    ⟨fun _ mem => mem, fun _ mem => mem, fun _ mem => mem, fun _ mem => mem, fun _ mem => mem⟩

theorem organized_inv {r : Run} (h : Inv p T todo r) : Inv p T todo (organized p services r) := by
  unfold organized
  split
  case isFalse => exact h
  case isTrue included =>
    have fetched := h.fetched (q := .accounts) included (fetched_spec services .accounts r)
    exact fetched.takeAll.forget (fun _ h => h) (fun _ h => h) (fun _ => .inl) fun _ h => h

theorem allowlisted_ensures (T : Known) (todo : List AnyRow) : Ensures (Inv p T todo)
    (p.accountNames services).run
    (Post (fun names r => Named p names ∧ Inv p T todo r) (Halted p)) := by
  intro r h
  refine ((accountNames_ensures r).post fun names s named => ?_).fails (fun s noted => ?_) r rfl
  · exact ⟨named.1, (organized_inv h).noted named.2⟩
  · exact ((organized_inv h).noted noted).scope

/-! ## Assignments -/

/-- The principal of an assignment is shown. -/
theorem Tracked.subject {s : Snapshot} (h : Tracked p T s) {row : AccountAssignment} {id : String}
    {subject : Subject} (eq : subjectOf T.users T.groups row.principalType id = some subject) :
    IsPrincipal p row id subject ∧ Emitted s subject := by
  unfold subjectOf at eq
  split at eq
  case h_1 type =>
    obtain ⟨key, found, rfl⟩ := Option.map_eq_some_iff.mp eq
    obtain ⟨named, emitted⟩ := h.users id key found
    exact ⟨⟨type, named⟩, emitted⟩
  case h_2 type =>
    obtain ⟨key, found, rfl⟩ := Option.map_eq_some_iff.mp eq
    obtain ⟨named, emitted⟩ := h.groupKeys id key found
    exact ⟨⟨type, named⟩, emitted⟩
  case h_3 => cases eq

theorem takeAssignment_ensures (T : Known) (todo : List AnyRow) (observedAt : String)
    {target : Target} (allowed : target.account ∈ p.config.accounts)
    (shown : T.targets (p.assignmentKey target.account target.arn))
    (grants : Std.ExtTreeSet String) (assignment : AccountAssignment) :
    Ensures (Inv p { T with grants := grants }
        (⟨.accountAssignments p.config.instanceArn target.account target.arn, assignment⟩ :: todo))
      (p.takeAssignment T.users T.groups observedAt target grants assignment).run
      (Post (fun grants => Inv p { T with grants := grants } todo) (Halted p)) := by
  unfold IdentityCenterProvider.takeAssignment
  split
  · exact malformed_ensures fun _ h => h.scope
  case isFalse fits =>
    rw [not_or, not_not, not_not] at fits
    split
    case h_2 => exact malformed_ensures fun _ h => h.scope
    case h_1 id filtered =>
      split
      case h_1 =>
        exact Ensures.seq (R := fun _ => Inv p { T with grants := grants } todo)
          (Ensures.update fun _ h => h.note _ (List.subset_cons_self _ _))
          fun _ => Ensures.ret fun _ h => h
      case h_2 subject found =>
        dsimp only
        split
        · exact malformed_ensures fun _ h => h.scope
        case isFalse fresh =>
          generalize named : grantId target.account target.arn assignment.principalType id = grant
            at fresh
          refine Ensures.seq (R := fun _ => Inv p { T with grants := grants.insert grant } todo)
            (Ensures.update fun r h => ?_) fun _ => Ensures.ret fun _ h => h
          obtain ⟨principal, emitted⟩ := h.tracked.subject found
          refine Inv.grant h rfl allowed shown ?_ emitted rfl fresh
          exact ⟨fits.1, fits.2, rfl, id, (Option.filter_eq_some_iff.mp filtered).1, named.symm,
            principal⟩

/-! ## Permission sets -/

/-- The accounts have no resource with this key. -/
def Spare (p : IdentityCenterProvider) (accounts : List String) (key : EntityKey) : Prop :=
  ∀ account ∈ accounts, key ≠ p.key "aws-account" account ∧ ∀ arn, key ≠ p.assignmentKey account arn

/-- The account has no permission set with this key but those that are seen. -/
def Unseen (p : IdentityCenterProvider) (account : String) (seen : Std.ExtTreeSet String)
    (key : EntityKey) : Prop := ∀ arn, arn ∉ seen → key ≠ p.assignmentKey account arn

theorem plain_account {account : String} (allowed : account ∈ p.config.accounts) :
    Plain account := by
  have valid := p.valid
  simp only [Configuration.valid, Bool.and_eq_true, List.all_eq_true] at valid
  obtain ⟨⟨⟨-, accounts⟩, -⟩, -⟩ := valid
  have digits := accounts account allowed
  simp only [validAccount, Bool.and_eq_true, List.all_eq_true] at digits
  exact fun mem => absurd (digits.2 ':' mem) (by decide)

theorem assignmentKey_inj {account other arn name : String}
    (allowed : account ∈ p.config.accounts) (allowed' : other ∈ p.config.accounts)
    (h : p.assignmentKey account arn = p.assignmentKey other name) :
    account = other ∧ arn = name := by
  have texts : s!"{account}:{arn}" = s!"{other}:{name}" := (key_inj (by decide) (by decide) h).2
  have cut (account arn : String) : s!"{account}:{arn}" = account ++ (":" ++ arn) := by
    simp [String.append_assoc, toString]
  rw [cut, cut] at texts
  exact colon_append_inj (plain_account allowed) (plain_account allowed') texts

theorem assignmentKey_ne {account account' arn : String} :
    p.assignmentKey account arn ≠ p.key "aws-account" account' :=
  fun h => absurd (key_inj (by decide) (by decide) h).1 (by decide)

theorem describe_ensures {arn : String}
    (allowed : ∀ r answer, Inv p T todo r →
      Allowed p r.log (.describe p.config.instanceArn arn answer)) :
    Ensures (Inv p T todo) (p.describe services arn).run
      (Post (fun answer r' => ∃ r, Inv p T todo r ∧
        Allowed p r.log (.describe p.config.instanceArn arn answer) ∧ r' = { r with
          requests := r.requests + 1
          log := r.log ++ [.describe p.config.instanceArn arn answer] }) (Halted p)) :=
  fun r h => ⟨r, h, allowed r _ h, rfl⟩

/-- Seen is seen. -/
theorem Unseen.insert {account arn : String} {seen : Std.ExtTreeSet String} {key : EntityKey}
    (h : Unseen p account seen key) : Unseen p account (seen.insert arn) key :=
  fun arn' left => h arn' fun mem => left (mem_insert_key.mpr (.inr mem))

/-- **A permission set** of an account becomes a resource. -/
theorem Inv.target {account arn name : String} {rest : List String} {seen : Std.ExtTreeSet String}
    {r : Run} (h : Inv p { T with
      resource := fun key => Spare p rest key ∧ Unseen p account seen key }
      (⟨.permissionSets p.config.instanceArn account, arn⟩ :: todo) r)
    (allowed : account ∈ p.config.accounts) (others : rest ⊆ p.config.accounts)
    (apart : account ∉ rest) (valid : p.permission arn = true) (new : arn ∉ seen) :
    Inv p { T with
      resource := fun key => Spare p rest key ∧ Unseen p account (seen.insert arn) key
      targets := fun key => T.targets key ∨ key = p.assignmentKey account arn }
      (⟨.permissionSets p.config.instanceArn account, arn⟩ :: todo)
      { r with snapshot := { r.snapshot with resources := r.snapshot.resources ++
        [⟨p.assignmentKey account arn, name, some "aws.identity_center.permission_set",
          some (p.key "aws-account" account)⟩] } } := by
  have owned : Owned p r.log ⟨p.assignmentKey account arn, name,
      some "aws.identity_center.permission_set", some (p.key "aws-account" account)⟩ :=
    ⟨account, allowed, .inr ⟨arn, valid, h.listed _ List.mem_cons_self, rfl, rfl⟩⟩
  refine (h.resource owned fun ⟨_, unseen⟩ => unseen arn new rfl).forget ?_ (fun _ h => h)
    (fun _ h => h) fun _ h => h
  rintro key (⟨spare, unseen⟩ | rfl)
  · exact ⟨spare, unseen.insert⟩
  · refine ⟨fun other mem => ⟨assignmentKey_ne, fun arn' same => apart ?_⟩, fun arn' left same =>
      left (mem_insert_key.mpr (.inl (assignmentKey_inj allowed allowed same).2))⟩
    rw [(assignmentKey_inj allowed (others mem) same).1]
    exact mem

variable (services) in
/-- The assignments of a permission set that is shown. -/
theorem assignments_ensures (T : Known) (todo : List AnyRow) (observedAt : String) (target : Target)
    (allowed : target.account ∈ p.config.accounts) (valid : p.permission target.arn = true)
    (shown : T.targets (p.assignmentKey target.account target.arn))
    (described : T.described target.arn) (grants : Std.ExtTreeSet String) :
    Ensures (Inv p { T with grants := grants }
        (⟨.permissionSets p.config.instanceArn target.account, target.arn⟩ :: todo))
      (fetch services (.accountAssignments p.config.instanceArn target.account target.arn) >>=
        fun rows => rows.foldlM (p.takeAssignment T.users T.groups observedAt target) grants).run
      (Post (fun grants => Inv p { T with grants := grants } todo) (Halted p)) := by
  refine (rows_ensures services (K := fun grants => { T with grants := grants }) ?_
    fun todo grants row => ?_).post fun grants r h => ?_
  · exact fun r h => ⟨rfl, allowed, valid, h.listed _ List.mem_cons_self⟩
  · exact takeAssignment_ensures
      (T.ask (.accountAssignments p.config.instanceArn target.account target.arn)) todo observedAt
      allowed shown grants row
  · exact (h.take ⟨h.described _ described, h.lists _ (.inr rfl)⟩).forget (fun _ h => h)
      (fun _ h => h) (fun _ => .inl) fun _ h => h

theorem takePermission_ensures (T : Known) (todo : List AnyRow) (observedAt : String)
    {account : String} {rest : List String} (allowed : account ∈ p.config.accounts)
    (others : rest ⊆ p.config.accounts) (apart : account ∉ rest) (t : Permissions) (arn : String) :
    Ensures (Inv p { T with
        grants := t.grants
        resource := fun key => Spare p rest key ∧ Unseen p account t.seen key }
        (⟨.permissionSets p.config.instanceArn account, arn⟩ :: todo))
      (p.takePermission services T.users T.groups observedAt account t arn).run
      (Post (fun t => Inv p { T with
        grants := t.grants
        resource := fun key => Spare p rest key ∧ Unseen p account t.seen key } todo)
        (Halted p)) := by
  unfold IdentityCenterProvider.takePermission
  split
  · exact malformed_ensures fun _ h => h.scope
  case isFalse fresh =>
    rw [not_or, Bool.not_eq_false] at fresh
    obtain ⟨valid, new⟩ := fresh
    refine Ensures.seq (describe_ensures fun r answer h =>
      ⟨rfl, valid, account, allowed, h.listed _ List.mem_cons_self⟩) fun answer => ?_
    split
    case h_1 code =>
      refine Ensures.seq (R := fun _ => Inv p { T with
        grants := t.grants
        resource := fun key => Spare p rest key ∧ Unseen p account (t.seen.insert arn) key } todo)
        (Ensures.update ?_) fun _ => Ensures.ret fun _ h => h
      rintro _ ⟨r, h, within, rfl⟩
      exact (h.undescribed within _ (List.subset_cons_self _ _)).forget
        (fun key ⟨spare, unseen⟩ => ⟨spare, unseen.insert⟩) (fun _ h => h) (fun _ h => h) fun _ h => h
    case h_2 =>
      apply malformed_ensures
      rintro _ ⟨r, h, within, rfl⟩
      exact h.scope.append within
    case h_3 permission =>
      refine Ensures.mono (P := Inv p { T with
        grants := t.grants
        resource := fun key => Spare p rest key ∧ Unseen p account t.seen key
        described := fun arn' => T.described arn' ∨ arn' = arn }
        (⟨.permissionSets p.config.instanceArn account, arn⟩ :: todo)) ?_ ?_ fun _ _ h => h
      · split
        case h_2 => exact malformed_ensures fun _ h => h.scope
        case h_1 name _ =>
          split
          · exact malformed_ensures fun _ h => h.scope
          refine Ensures.seq (R := fun _ => Inv p { T with
            grants := t.grants
            resource := fun key => Spare p rest key ∧ Unseen p account (t.seen.insert arn) key
            targets := fun key => T.targets key ∨ key = p.assignmentKey account arn
            described := fun arn' => T.described arn' ∨ arn' = arn }
            (⟨.permissionSets p.config.instanceArn account, arn⟩ :: todo))
            (Ensures.update fun r h => ?_) fun _ => ?_
          · exact Inv.target (T := { T with
              grants := t.grants
              described := fun arn' => T.described arn' ∨ arn' = arn })
              h allowed others apart valid new
          · rw [← bind_assoc]
            have taken := assignments_ensures services (p := p) { T with
              resource := fun key => Spare p rest key ∧ Unseen p account (t.seen.insert arn) key
              targets := fun key => T.targets key ∨ key = p.assignmentKey account arn
              described := fun arn' => T.described arn' ∨ arn' = arn } todo observedAt
              ⟨account, arn, name⟩ allowed valid (.inr rfl) (.inr rfl) t.grants
            refine taken.seq fun grants => Ensures.ret fun r h => ?_
            exact h.forget (fun _ h => h) (fun _ => .inl) (fun _ h => h) fun _ => .inl
      · rintro _ ⟨r, h, within, rfl⟩
        exact h.describe within

/-! ## Allowlisted accounts -/

theorem takeAccount_ensures (T : Known) (todo : List AnyRow) (observedAt : String)
    {account : String} {rest : List String} (allowed : account ∈ p.config.accounts)
    (others : rest ⊆ p.config.accounts) (apart : account ∉ rest) (name : String)
    (grants : Std.ExtTreeSet String) :
    Ensures (Inv p { T with grants := grants, resource := Spare p (account :: rest) } todo)
      (p.takeAccount services T.users T.groups observedAt grants (account, name)).run
      (Post (fun grants => Inv p { T with
        grants := grants
        resource := Spare p rest
        targets := fun key => T.targets key ∨ key = p.key "aws-account" account
        lists := fun q => T.lists q ∨ q = .permissionSets p.config.instanceArn account } todo)
        (Halted p)) := by
  unfold IdentityCenterProvider.takeAccount
  let T' : Known := { T with
    resource := fun key => Spare p rest key ∧ Unseen p account ∅ key
    targets := fun key => T.targets key ∨ key = p.key "aws-account" account }
  refine Ensures.seq (R := fun _ => Inv p { T' with grants := grants } todo)
    (Ensures.update fun r h => ?_) fun _ => ?_
  · have owned : Owned p r.log (p.accountResource account name) :=
      ⟨account, allowed, .inl ⟨name, rfl⟩⟩
    refine (Inv.resource h owned fun spare => (spare account List.mem_cons_self).1 rfl).forget ?_
      (fun _ h => h) (fun _ h => h) fun _ h => h
    rintro key (spare | rfl)
    · exact ⟨fun other mem => spare other (List.mem_cons_of_mem _ mem),
        fun arn _ => (spare account List.mem_cons_self).2 arn⟩
    · refine ⟨fun other mem => ⟨fun same => apart ?_, fun arn same => assignmentKey_ne same.symm⟩,
        fun arn _ same => assignmentKey_ne same.symm⟩
      rw [(key_inj (by decide) (by decide) same).2]
      exact mem
  · rw [← bind_assoc]
    have taken := rows_ensures services (p := p)
      (q := .permissionSets p.config.instanceArn account) (b := (⟨∅, grants⟩ : Permissions))
      (f := p.takePermission services T.users T.groups observedAt account)
      (K := fun t => { T' with
        grants := t.grants
        resource := fun key => Spare p rest key ∧ Unseen p account t.seen key })
      (fun r (h : Inv p _ todo r) => ⟨rfl, allowed⟩)
      fun todo t arn => takePermission_ensures
        (T'.ask (.permissionSets p.config.instanceArn account)) todo observedAt allowed others apart t arn
    refine taken.seq fun t => Ensures.ret fun r h => ?_
    exact h.forget (fun _ h => h.1) (fun _ h => h) (fun _ h => h) fun _ h => h

theorem assigned_ensures (T : Known) (todo : List AnyRow) (observedAt : String)
    {names : Std.ExtTreeMap String String} (named : Named p names) :
    Ensures (Inv p { T with grants := ∅, resource := fun _ => False } todo)
      (names.toList.foldlM (p.takeAccount services T.users T.groups observedAt) ∅).run
      (Post (fun grants => Inv p { T with
        grants := grants
        resource := fun _ => True
        targets := fun key => T.targets key ∨
          ∃ account ∈ p.config.accounts, key = p.key "aws-account" account
        lists := fun q => T.lists q ∨
          ∃ account ∈ p.config.accounts, q = .permissionSets p.config.instanceArn account } todo)
        (Halted p)) := by
  let K (rest : List (String × String)) (done : String × String → Prop)
      (grants : Std.ExtTreeSet String) : Known := { T with
    grants := grants
    resource := Spare p (rest.map Prod.fst)
    targets := fun key => T.targets key ∨ ∃ entry, done entry ∧ key = p.key "aws-account" entry.1
    lists := fun q => T.lists q ∨
      ∃ entry, done entry ∧ q = .permissionSets p.config.instanceArn entry.1 }
  have once : (names.toList.map Prod.fst).Nodup := by
    rw [Std.ExtTreeMap.map_fst_toList_eq_keys]
    exact Std.ExtTreeMap.nodup_keys
  have mem : ∀ account, account ∈ names.toList.map Prod.fst ↔ account ∈ p.config.accounts := by
    intro account
    rw [Std.ExtTreeMap.map_fst_toList_eq_keys, Std.ExtTreeMap.mem_keys]
    exact named account
  have loop := Ensures.foldDone (I := fun rest done grants => Inv p (K rest done grants) todo)
    (E := Halted p) (f := p.takeAccount services T.users T.groups observedAt) names.toList
    (fun entry rest done grants suffix => by
      have fst := suffix.map Prod.fst
      have apart := List.nodup_cons.mp (fst.sublist.nodup once)
      refine (takeAccount_ensures (K (entry :: rest) done grants) todo observedAt
        ((mem entry.1).mp (fst.subset List.mem_cons_self))
        (fun other there => (mem other).mp (fst.subset (List.mem_cons_of_mem _ there))) apart.1
        entry.2 grants).post fun grants' r h => ?_
      refine h.forget (fun _ h => h) (fun key there => ?_) (fun q there => ?_) fun _ h => h
      · rcases there with before | ⟨entry', passed | rfl, rfl⟩
        · exact .inl (.inl before)
        · exact .inl (.inr ⟨entry', passed, rfl⟩)
        · exact .inr rfl
      · rcases there with before | ⟨entry', passed | rfl, rfl⟩
        · exact .inl (.inl before)
        · exact .inl (.inr ⟨entry', passed, rfl⟩)
        · exact .inr rfl) ∅
  -- each allowlisted account has an entry
  have entries : ∀ account ∈ p.config.accounts, ∃ entry ∈ names.toList, entry.1 = account :=
    fun account allowed => List.mem_map.mp ((mem account).mpr allowed)
  refine (loop.mono (fun r h => ?_) fun _ _ h => h).post fun grants r h => ?_
  · refine h.forget (fun _ never => never.elim) (fun key there => ?_) (fun q there => ?_) fun _ h => h
    · exact there.resolve_right fun ⟨_, never, _⟩ => never
    · exact there.resolve_right fun ⟨_, never, _⟩ => never
  · refine h.forget (fun _ _ => trivial) (fun key there => ?_) (fun q there => ?_) fun _ h => h
    · refine there.imp_right fun ⟨account, allowed, eq⟩ => ?_
      obtain ⟨entry, listed, rfl⟩ := entries account allowed
      exact ⟨entry, listed, eq⟩
    · refine there.imp_right fun ⟨account, allowed, eq⟩ => ?_
      obtain ⟨entry, listed, rfl⟩ := entries account allowed
      exact ⟨entry, listed, eq⟩

/-! ## The scope -/

/-- The requests of a collection: the scope was proved before any other request, and all other
requests are within it. -/
def Guarded (p : IdentityCenterProvider) (log : List Step) : Prop :=
  ∃ proof rest, log = proof ++ rest ∧ (∀ step ∈ proof, step.Proves) ∧
    (rest ≠ [] → Proved p proof) ∧ ∀ step ∈ rest, Allowed p log step

theorem Proved.proves {log : List Step} (h : Proved p log) : ∀ step ∈ log, step.Proves := by
  obtain ⟨output, exchanges, rfl, -⟩ := h
  intro step mem
  rcases List.mem_cons.mp mem with rfl | mem
  · trivial
  · rw [List.mem_singleton.mp mem]
    trivial

theorem Scoped.guarded {log : List Step} (h : Scoped p log) : Guarded p log := by
  obtain ⟨proof, rest, eq, proved, allowed⟩ := h
  exact ⟨proof, rest, eq, proved.proves, fun _ => proved, allowed⟩

theorem guarded_of_proves {log : List Step} (h : ∀ step ∈ log, step.Proves) : Guarded p log :=
  ⟨log, [], (List.append_nil log).symm, h, fun ne => absurd rfl ne,
    fun _ mem => (by cases mem)⟩

/-- Nothing is remembered. -/
def Known.none : Known :=
  ⟨∅, ∅, ∅, ∅, fun _ => False, fun _ => False, fun _ => False, fun _ => False⟩

theorem called_iff {output : Aws.CallerIdentity} : p.called output = true ↔
    output.account = some p.config.accountId ∧ ∃ arn, output.arn = some arn ∧
      Aws.callerMatches arn p.config.accountId p.config.callerRole = true := by
  rw [IdentityCenterProvider.called, Bool.and_eq_true, beq_iff_eq, Option.any_eq_true]

/-- The collection behind the proof. -/
theorem proved_inv {log : List Step} (proved : Proved p log) (requests : Nat) :
    Inv p .none [] ⟨0, p.start.snapshot, requests, log⟩ where
  scope := ⟨log, [], (List.append_nil log).symm, proved, fun _ mem => (by cases mem)⟩
  sound := ⟨fun _ mem => (by cases mem), fun _ mem => (by cases mem), fun _ mem => (by cases mem),
    fun _ mem => (by cases mem), fun _ mem => (by cases mem)⟩
  tracked := by
    refine ⟨fun id key found => ?_, fun _ mem => (by cases mem), fun id key found => ?_,
      fun _ mem => (by cases mem), fun _ mem => (by cases mem), fun _ mem => (by cases mem),
      fun _ mem => (by cases mem), fun _ never => never.elim,
      ⟨List.nodup_nil, List.nodup_nil, List.nodup_nil, List.nodup_nil, List.nodup_nil⟩⟩
    · simp [Known.none] at found
    · simp [Known.none] at found
  told := by
    obtain ⟨output, exchanges, rfl, -, finished, -⟩ := proved
    refine ⟨rfl, fun _ => ⟨Nat.zero_le _, fun step mem => ?_, fun q row listed => .inl ?_⟩⟩
    · rcases List.mem_cons.mp mem with rfl | mem
      · exact ⟨output, rfl⟩
      · rw [List.mem_singleton.mp mem]
        exact finished
    · obtain ⟨exchanges', mem, -⟩ := listed
      rcases List.mem_cons.mp mem with eq | mem
      · cases eq
      · cases List.mem_singleton.mp mem
        trivial
  listed _ mem := by cases mem
  lists _ none := none.elim
  described _ none := none.elim

/-- **The scope is proved**, or the collection fails. -/
theorem prove_ensures : Ensures (· = p.start) (p.prove services).run
    (Post (fun _ => Inv p .none []) fun r => ∀ step ∈ r.log, step.Proves) := by
  rintro _ rfl
  have searched := searched_spec p services (p.start.requests + 1)
  have one (answer : Answer Aws.CallerIdentity) :
      ∀ step ∈ p.start.log ++ [Step.caller answer], step.Proves := by
    intro step mem
    rw [List.mem_singleton.mp mem]
    trivial
  have two (answer : Answer Aws.CallerIdentity) (exchanges : List (Exchange InstanceMetadata)) :
      ∀ step ∈ p.start.log ++ [Step.caller answer] ++ [Step.list .instances exchanges],
        step.Proves := by
    intro step mem
    rcases List.mem_append.mp mem with mem | mem
    · exact one answer step mem
    · rw [List.mem_singleton.mp mem]
      trivial
  show Post _ _ (p.prove services p.start).1 (p.prove services p.start).2
  unfold IdentityCenterProvider.prove
  dsimp only
  cases services.getCallerIdentity with
  | error code => exact one _
  | ok output =>
    dsimp only
    split
    · exact one _
    case isFalse caller =>
      cases result : (p.searched services (p.start.requests + 1)).result with
      | error e => exact two _ _
      | ok =>
        dsimp only
        split
        · exact two _ _
        case isFalse found =>
          rw [Bool.not_eq_false] at caller found
          obtain ⟨finished, occurs⟩ := searched result
          rw [found] at occurs
          exact proved_inv ⟨output, _, rfl, called_iff.mp caller, finished, occurs⟩ _

/-! ## The whole collection -/

/-- What has been listed when all principals and accounts are collected. -/
structure Surveyed (p : IdentityCenterProvider) (r : Run) : Prop where
  users : Lists r.log (.users p.config.identityStoreId)
  groups : Lists r.log (.groups p.config.identityStoreId)
  memberships : ∀ g ∈ r.snapshot.groups, ∃ id, g.key = p.key "group" id ∧
    Lists r.log (.groupMemberships p.config.identityStoreId id)
  accounts : ∀ account ∈ p.config.accounts,
    Lists r.log (.permissionSets p.config.instanceArn account) ∧
      ∃ x ∈ r.snapshot.resources, x.key = p.key "aws-account" account

/-- A collection that has succeeded. -/
structure Gathered (p : IdentityCenterProvider) (r : Run) : Prop where
  scope : Scoped p r.log
  sound : Sound p r.log r.snapshot
  unique : Unique r.snapshot
  told : Told p [] r
  surveyed : Surveyed p r

theorem gather_ensures (observedAt : String) : Ensures (· = p.start)
    (p.gather services observedAt).run
    (Post (fun _ => Gathered p) fun r => Guarded p r.log) := by
  have halted : ∀ r, Halted p r → Guarded p r.log := fun r h => Scoped.guarded h
  unfold IdentityCenterProvider.gather
  refine Ensures.seq (prove_ensures.fails fun r => guarded_of_proves) fun _ => ?_
  refine Ensures.seq ((users_ensures (T := .none)).fails halted) fun userKeys => ?_
  refine Ensures.seq ((groups_ensures (T := ({ Known.none with users := userKeys } : Known).ask
    (.users p.config.identityStoreId))).fails halted) fun groupKeys => ?_
  let T : Known := (({ Known.none with
    users := userKeys
    groups := groupKeys } : Known).ask (.users p.config.identityStoreId)).ask
      (.groups p.config.identityStoreId)
  refine Ensures.seq ((members_ensures T [] observedAt).fails halted) fun t => ?_
  let T' : Known := { T with
    memberships := t.memberships
    lists := fun q => T.lists q ∨ ∃ entry ∈ T.groups.toList,
      q = .groupMemberships p.config.identityStoreId entry.1 }
  refine Ensures.seq ((allowlisted_ensures T' []).fails halted) fun names => ?_
  refine Ensures.seq (fun r h => (assigned_ensures T' [] observedAt h.1).fails halted r h.2)
    fun grants => Ensures.ret fun r h => ⟨h.scope, h.sound, h.tracked.unique, h.told, ?_⟩
  constructor
  · exact h.lists _ (.inl (.inl (.inl (.inr rfl))))
  · exact h.lists _ (.inl (.inl (.inr rfl)))
  · intro g mem
    obtain ⟨id, known, key⟩ := h.tracked.groups g mem
    obtain ⟨groupKey, found⟩ := Option.isSome_iff_exists.mp
      (Std.ExtTreeMap.mem_iff_isSome_getElem?.mp known)
    exact ⟨id, key, h.lists _ (.inl (.inr ⟨(id, groupKey),
      Std.ExtTreeMap.mem_toList_iff_getElem?_eq_some.mpr found, rfl⟩))⟩
  · intro account allowed
    exact ⟨h.lists _ (.inr ⟨account, allowed, rfl⟩), h.tracked.targets _ (.inr ⟨account, allowed, rfl⟩)⟩

end Permesh.IdentityCenter

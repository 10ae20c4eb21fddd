import Permesh.Gitlab.Client
import Permesh.Native.Session

/-!
# Gitlab.Discovery — groups, projects and their members

`discovery.rs`, and `check` of the provider. An operation is a program on its budget; an error of one
group, project or list is recorded, and the operation goes on with the next one. Every row that the
lists of an operation return is kept beside the budget.
-/

namespace Permesh.Gitlab

open Permesh.Json Permesh.Http

/-- The budget of an operation, with the rows that its lists have returned. -/
structure Meter where
  budget : Budget
  listed : List Value

/-- `Budget::default`. -/
def Meter.new : Meter := ⟨⟨0, 0, 0⟩, []⟩

/-- An operation, up to its result. -/
abbrev Op := StateM Meter

/-- `GitlabProvider`, with the dates of the calendar behind a request. -/
structure Provider where
  id : String
  scope : String
  groupIds : List Nat
  projectIds : List Nat
  client : Client
  calendar : Nat → Calendar

/-- The groups that were loaded: their keys, and the groups above them. -/
structure Scopes where
  collection : Collection
  groups : Std.ExtTreeMap Nat EntityKey
  parents : Std.ExtTreeMap EntityKey (Option Nat)

/-- `collection.fail` where there is a failure. -/
def Collection.note (c : Collection) : Option ProviderError → Collection
  | some failure => c.fail failure
  | none => c

/-- A project that a group lists as its own. -/
def owned (group : Nat) (value : Value) : Except ProviderError Nat := do
  let project ← nativeId value
  if (← parent value "project") ≠ some group then .error (error "scope")
  return project

/-- One row of the projects of a group. -/
def listProject (group : Nat) (found : Collection × Std.ExtTreeSet Nat) (value : Value) :
    Collection × Std.ExtTreeSet Nat :=
  match owned group value with
  | .ok project => (found.1, found.2.insert project)
  | .error failure => (found.1.fail failure, found.2)

/-- The parent of one group, if it was loaded. -/
def adopt (groups : Std.ExtTreeMap Nat EntityKey) (c : Collection)
    (entry : EntityKey × Option Nat) : Collection :=
  match entry.2.bind fun id => groups[id]? with
  | none => c
  | some parent =>
    if parent = entry.1 then c.fail (error "malformed")
    else
      match c.resources[entry.1]? with
      | some resource =>
        { c with resources := c.resources.insert entry.1 { resource with parent := some parent } }
      | none => c

namespace Provider

variable (p : Provider)

/-! ## Requests -/

def request (path : String) : ExceptT ProviderError Op Value := fun m =>
  let (result, budget) := p.client.request path [] m.budget
  (result.map Prod.fst, { m with budget := budget })

def listing (path : String) (filters : List (String × String)) : Op Listing := fun m =>
  let (listing, budget) := p.client.listing path filters m.budget
  (listing, ⟨budget, m.listed ++ listing.rows⟩)

/-- The resource of a group or a project, and the group above it. -/
def load (kind : String) (id : Nat) : ExceptT ProviderError Op (Resource × Option Nat) := do
  let value ← p.request s!"{kind}s/{id}"
  let resource ← resource p.id p.scope kind id value
  let parent ← parent value kind
  return (resource, parent)

/-! ## Scopes -/

def loadGroup (s : Scopes) (id : Nat) : Op Scopes := do
  match ← (p.load "group" id).run with
  | .ok (resource, parent) =>
    return {
      collection := { s.collection with
        groups := s.collection.groups.insert resource.key ⟨resource.key, resource.name⟩
        resources := s.collection.resources.insert resource.key resource }
      groups := s.groups.insert id resource.key
      parents := s.parents.insert resource.key parent }
  | .error failure => return { s with collection := s.collection.fail failure }

/-- The groups of the configuration. -/
def loadGroups (time : String) : Op Scopes :=
  p.groupIds.foldlM p.loadGroup ⟨.new p.id p.scope time, ∅, ∅⟩

/-- The projects of one group. -/
def listProjects (found : Collection × Std.ExtTreeSet Nat) (group : Nat) :
    Op (Collection × Std.ExtTreeSet Nat) := do
  let listing ← p.listing s!"groups/{group}/projects"
    [("with_shared", "false"), ("include_subgroups", "false")]
  return listing.rows.foldl (listProject group) (found.1.note listing.failure, found.2)

/-- A project counts if it was asked for or still belongs to a group that was loaded. -/
def loadProject (groups : Std.ExtTreeMap Nat EntityKey)
    (found : Collection × Std.ExtTreeMap Nat EntityKey) (id : Nat) :
    Op (Collection × Std.ExtTreeMap Nat EntityKey) := do
  match ← (p.load "project" id).run with
  | .ok (resource, parent) =>
    if id ∉ p.projectIds ∧ ¬parent.any (· ∈ groups) then
      return (found.1.fail (error "scope"), found.2)
    else
      let resource := { resource with parent := parent.bind fun id => groups[id]? }
      return ({ found.1 with resources := found.1.resources.insert resource.key resource },
        found.2.insert id resource.key)
  | .error failure => return (found.1.fail failure, found.2)

/-! ## Members -/

/-- One member list of a group or a project. -/
def memberList (kind : String) (scope : Nat × EntityKey) (c : Collection) (effective : Bool) :
    Op Collection := do
  let all := if effective then "/all" else ""
  let listing ← p.listing s!"{kind}/{scope.1}/members{all}" []
  let calendar := p.calendar (← get).budget.requests
  return listing.rows.foldl
    (fun c value => match c.member calendar scope.2 (kind == "groups") effective value with
      | (.error failure, c) => c.fail failure
      | (.ok (), c) => c)
    (c.note listing.failure)

/-- The direct and the effective members of a group or a project. -/
def members (kind : String) (c : Collection) (scope : Nat × EntityKey) : Op Collection :=
  [false, true].foldlM (p.memberList kind scope) c

/-! ## Operations -/

/-- `collect` up to `finish`. -/
def gather (time : String) : Op (Except ProviderError Collection) := do
  let s ← p.loadGroups time
  let (c, found) ← s.groups.keys.foldlM p.listProjects (s.collection, ∅)
  let wanted := p.projectIds.foldl (·.insert ·) found
  if wanted.size > MAX_ROWS then return .error (error "limit")
  let (c, projects) ← wanted.toList.foldlM (p.loadProject s.groups) (c, ∅)
  let c := s.parents.toList.foldl (adopt s.groups) c
  if c.resources.isEmpty then return .error (error "forbidden")
  let c ← s.groups.toList.foldlM (p.members "groups") c
  let c ← projects.toList.foldlM (p.members "projects") c
  return .ok c

def collect (core : Core) (time : String) : Op (Except ProviderError Snapshot) := do
  match ← p.gather time with
  | .ok c => return c.finish core
  | .error failure => return .error failure

theorem collect_fst (core : Core) (time : String) (m : Meter) :
    (p.collect core time m).1 = (p.gather time m).1 >>= fun c => c.finish core := by
  have run : p.collect core time m = (match (p.gather time m).1 with
      | .ok c => (pure (c.finish core) : Op _)
      | .error e => pure (.error e)) (p.gather time m).2 := rfl
  rw [run]
  cases (p.gather time m).1 <;> rfl

/-- A group or a project can be read. -/
def probe (kind : String) (id : Nat) : ExceptT ProviderError Op Unit := do
  let value ← p.request s!"{kind}s/{id}"
  let _ ← resource p.id p.scope kind id value
  return ()

def check : ExceptT ProviderError Op Native.Health := do
  let user ← p.request "user"
  let _ ← account p.id p.scope user
  p.groupIds.forM (p.probe "group")
  p.projectIds.forM (p.probe "project")
  return ⟨"GitLab identity and explicit scope probes succeeded; full discovery visibility is not " ++
    "established.", VISIBILITY⟩

end Provider

end Permesh.Gitlab

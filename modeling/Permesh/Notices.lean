import Permesh.Lib.Firsts
import Permesh.Lib.Worklist

/-!
# Notices — the packages whose notices a release carries

`scripts/provider_notices.py` walks the dependency graph that Cargo resolved for a provider. What it
reads of the metadata is modelled; the files of the packages are not.
-/

namespace Permesh.Notices

structure Package where
  id : String
  name : String
  version : String
  deriving DecidableEq, Repr

/-- `dep_kinds` holds one kind for each way the package is needed, none for an ordinary one. -/
structure Dependency where
  pkg : String
  depKinds : List (Option String)
  deriving DecidableEq, Repr

structure Node where
  id : String
  deps : List Dependency
  deriving DecidableEq, Repr

structure Metadata where
  packages : List Package
  resolve : Option (List Node)
  deriving DecidableEq, Repr

def providerPackage (provider : String) : String :=
  "permesh-provider-" ++ if provider = "aws-identity-center" then "aws" else provider

/-- The packages under their identifiers; of several under one, the last. -/
def Metadata.byId (metadata : Metadata) : Std.ExtTreeMap String Package :=
  .ofList (metadata.packages.map fun package => (package.id, package))

/-- The nodes under their identifiers; of several under one, the last. -/
def nodesById (nodes : List Node) : Std.ExtTreeMap String Node :=
  .ofList (nodes.map fun node => (node.id, node))

/-- A dependency that ends up in a build; one that only tests need does not. -/
def Dependency.followed (dependency : Dependency) : Bool :=
  dependency.depKinds.any fun kind => kind = none || kind = some "build"

/-- What a package leads to, if it and its node are known. -/
def Metadata.next (metadata : Metadata) (nodes : List Node) (packageId : String) :
    Option (List String) := do
  let _ ← metadata.byId[packageId]?
  let node ← (nodesById nodes)[packageId]?
  some ((node.deps.filter Dependency.followed).map (·.pkg))

/-- The order of the listing. -/
def Package.key (package : Package) : List String := [package.name, package.version, package.id]

/-- The packages that are built for a provider. -/
def reachable (metadata : Metadata) (provider : String) : Except String (List Package) :=
  let roots := (metadata.packages.filter (·.name = providerPackage provider)).map (·.id)
  match metadata.resolve with
  | none => .error "provider dependency graph is missing or ambiguous"
  | some nodes =>
    if roots.length ≠ 1 then .error "provider dependency graph is missing or ambiguous"
    else
      match Lib.search (metadata.next nodes) 4096 roots ∅ with
      | none => .error "provider dependency graph is invalid or oversized"
      | some seen =>
        .ok ((seen.toList.filterMap (metadata.byId[·]?)).mergeSort (Lib.keyLe Package.key))

end Permesh.Notices

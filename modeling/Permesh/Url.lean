import Permesh.Text

/-!
# Url — what the url crate gives

A parsed address is what the accessors of `reqwest::Url` return of it, with the query decoded into
pairs. Parsing and building addresses is code of the `url` crate: it is a parameter.
-/

namespace Permesh

structure Url where
  /-- `to_string`. -/
  href : String
  /-- `origin`: scheme, host and port, or none for an opaque origin, which equals no other. -/
  origin : Option (String × String × Nat)
  username : String
  password : Option String
  path : String
  /-- `query_pairs`. -/
  pairs : List (String × String)
  fragment : Option String
  deriving DecidableEq, Repr

/-- `a.origin() == b.origin()`. -/
def Url.sameOrigin (a b : Url) : Bool :=
  match a.origin, b.origin with
  | some x, some y => x == y
  | _, _ => false

/-- The functions of the `url` crate. -/
structure UrlCrate where
  /-- `Url::parse`. -/
  parse : String → Option Url
  /-- `Url::join`. -/
  join : Url → String → Option Url
  /-- `path_segments_mut` with `clear` and `extend`. -/
  withSegments : Url → List String → Option Url
  /-- `query_pairs_mut` with `extend_pairs` or `append_pair`. -/
  extendPairs : Url → List (String × String) → Url

/-- The value of a key, where the last of several counts: a map of the pairs. -/
def lookupLast (pairs : List (String × String)) (name : String) : Option String :=
  (pairs.reverse.find? (·.1 == name)).map Prod.snd

end Permesh

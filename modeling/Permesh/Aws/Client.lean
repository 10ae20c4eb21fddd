import Permesh.Aws.Records

/-!
# Aws.Client — the caller and the pages

`lib.rs` of the AWS provider. The identity of the caller is checked first. Then the authorization
details are read page by page: each page but the last one is truncated, and its marker asks for the
next one. The requests are kept with their answers, for the statements about runs.
-/

namespace Permesh.Aws

/-- `service_code`: what the error code of a service is called. -/
def serviceCode : Option String → String
  | some "AccessDenied" | some "AccessDeniedException" => "forbidden"
  | some "InvalidClientTokenId" | some "ExpiredToken" | some "SignatureDoesNotMatch"
  | some "InvalidSignatureException" => "unauthorized"
  | some "Throttling" | some "ThrottlingException" | some "RequestLimitExceeded" => "rate_limit"
  | _ => "transport"

/-- The session of an assumed role. -/
def session (account role arn : String) : Option String :=
  Text.stripPrefix s!"arn:aws:sts::{account}:assumed-role/{role}/" arn

def callerMatches (arn account : String) (role : Option String) : Bool :=
  if Text.len arn > 2048 ∨ arn.toList.any Text.isControl ∨ startsWith "arn:aws:" arn = false ∨
      (Text.split ':' arn)[4]? ≠ some account then false
  else
    role.all fun role => (session account role arn).any fun session =>
      session != "" && Text.len session ≤ 64 && !session.toList.contains '/'

/-- `EntityType`: what the pages are asked for. -/
inductive EntityType where
  | user | role | group | localManagedPolicy | awsManagedPolicy
  deriving DecidableEq, Repr

/-- A request for a page. -/
structure Request where
  marker : Option String
  maxItems : Nat
  filter : List EntityType
  deriving DecidableEq, Repr

/-- `GetCallerIdentityOutput`. -/
structure CallerIdentity where
  account : Option String
  arn : Option String

/-- An answer: an output, or the error code of the service, if it has one. -/
abbrev Answer (α : Type) := Except (Option String) α

/-- What the services answer: the caller identity, and the n-th page that is asked for. -/
structure Services where
  sts : Answer CallerIdentity
  iam : Nat → Request → Answer Output

/-- A request with its answer. -/
abbrev Exchange := Request × Answer Output

/-- The page loop so far. -/
structure Run where
  collected : Collected
  marker : Option String
  markers : Std.ExtTreeSet String
  log : List Exchange

/-- The marker of a page that asks for the next one. -/
def Run.follow (r : Run) (marker : Option String) : Option String :=
  marker.filter fun value =>
    value != "" && Text.len value ≤ 4096 && !value.toList.any Text.isControl && value ∉ r.markers

/-- The request of a page. -/
def request (marker : Option String) (size : Nat) : Request :=
  ⟨marker, size, [.user, .role, .group, .localManagedPolicy, .awsManagedPolicy]⟩

namespace AwsProvider

variable (p : AwsProvider) (services : Services)

def caller : Except ProviderError Unit :=
  match services.sts with
  | .error code => .error (error (serviceCode code))
  | .ok output =>
    if output.account ≠ some p.account ∨
        output.arn.all (fun arn => !callerMatches arn p.account p.callerRole) then
      .error (error "account_mismatch")
    else .ok ()

/-- The page loop from `page` on. -/
def pages : (left page : Nat) → Run → Except ProviderError Run
  | 0, _, r => .ok r
  | left + 1, page, r =>
    let answer := services.iam page (request r.marker 100)
    let r := { r with log := r.log ++ [(request r.marker 100, answer)] }
    match answer with
    | .error code =>
      let e := error (serviceCode code)
      if page = 0 then .error e else .ok { r with collected := r.collected.warn e.code }
    | .ok output =>
      match r.collected.add output with
      | .error e => .error e
      | .ok collected =>
        let r := { r with collected := collected }
        if output.isTruncated = false then
          if output.marker.any (· != "") then
            .ok { r with collected := r.collected.warn "pagination" }
          else .ok r
        else
          match r.follow output.marker with
          | none => .ok { r with collected := r.collected.warn "pagination" }
          | some value =>
            let r := { r with marker := some value, markers := r.markers.insert value }
            let r := if page + 1 = MAX_PAGES then { r with collected := r.collected.warn "limit" }
              else r
            pages left (page + 1) r

/-- The run of all pages. -/
def gather : Except ProviderError Run := do
  p.caller services
  pages services MAX_PAGES 0 ⟨.empty, none, ∅, []⟩

def collect (core : Core) (rejection : ProviderError) (observedAt : String) :
    Except ProviderError Snapshot :=
  match p.gather services with
  | .error failure => .error failure
  | .ok r => p.finish core rejection observedAt r.collected

end AwsProvider

end Permesh.Aws

import Permesh.Core

/-!
# Native.Records — the outbound projection

`records.rs` projects the domain entities onto the DTOs of the negotiated protocol, which are
types of their own (`permesh_provider_protocol::negotiated::records`). Every enumeration is
translated variant by variant.
-/

namespace Permesh

/-- `sdk::Capability`. -/
inductive Capability where
  | accounts | identities | resources | groups | memberships | grants
  deriving DecidableEq, Repr

namespace Wire

inductive Capability where
  | accounts | identities | resources | groups | memberships | grants
  deriving DecidableEq, Repr

inductive IdentityKind where
  | human | service | bot | unknown
  deriving DecidableEq, Repr

inductive IdentityStatus where
  | active | inactive | suspended | unknown
  deriving DecidableEq, Repr

inductive Affiliation where
  | internal | external | unknown
  deriving DecidableEq, Repr

inductive EvidenceKind where
  | permission | assignment | policyAttachment | unknown
  deriving DecidableEq, Repr

inductive Privilege where
  | standard | elevated | admin | owner | unknown
  deriving DecidableEq, Repr

inductive Certainty where
  | observed | derived | inferred | unknown
  deriving DecidableEq, Repr

structure EntityKey where
  provider : String
  id : String
  deriving DecidableEq, Repr

inductive Subject where
  | account (key : EntityKey)
  | group (key : EntityKey)
  deriving DecidableEq, Repr

structure Provenance where
  method : String
  observedAt : String
  deriving DecidableEq, Repr

structure Account where
  key : EntityKey
  login : String
  status : IdentityStatus
  kind : IdentityKind
  affiliation : Affiliation
  verifiedEmails : List String
  deriving DecidableEq, Repr

structure Identity where
  id : String
  kind : IdentityKind
  affiliation : Affiliation
  status : IdentityStatus
  verifiedEmails : List String
  deriving DecidableEq, Repr

structure Resource where
  key : EntityKey
  name : String
  kind : Option String
  parent : Option EntityKey
  deriving DecidableEq, Repr

structure Group where
  key : EntityKey
  name : String
  deriving DecidableEq, Repr

structure Membership where
  member : Subject
  group : EntityKey
  provenance : Provenance
  deriving DecidableEq, Repr

structure Grant where
  id : String
  subject : Subject
  resource : EntityKey
  role : String
  privilege : Privilege
  certainty : Certainty
  evidenceKind : EvidenceKind
  provenance : Provenance
  deriving DecidableEq, Repr

inductive Record where
  | account (value : Account)
  | identity (value : Identity)
  | resource (value : Resource)
  | group (value : Group)
  | membership (value : Membership)
  | grant (value : Grant)
  deriving DecidableEq, Repr

end Wire

namespace Records

def capability : Capability → Wire.Capability
  | .accounts => .accounts
  | .identities => .identities
  | .resources => .resources
  | .groups => .groups
  | .memberships => .memberships
  | .grants => .grants

def identityKind : IdentityKind → Wire.IdentityKind
  | .human => .human
  | .service => .service
  | .bot => .bot
  | .unknown => .unknown

def identityStatus : IdentityStatus → Wire.IdentityStatus
  | .active => .active
  | .inactive => .inactive
  | .suspended => .suspended
  | .unknown => .unknown

def affiliation : Affiliation → Wire.Affiliation
  | .internal => .internal
  | .external => .external
  | .unknown => .unknown

def evidenceKind : EvidenceKind → Wire.EvidenceKind
  | .permission => .permission
  | .assignment => .assignment
  | .policyAttachment => .policyAttachment
  | .unknown => .unknown

def privilege : Privilege → Wire.Privilege
  | .standard => .standard
  | .elevated => .elevated
  | .admin => .admin
  | .owner => .owner
  | .unknown => .unknown

def certainty : Certainty → Wire.Certainty
  | .observed => .observed
  | .derived => .derived
  | .inferred => .inferred
  | .unknown => .unknown

def key (value : EntityKey) : Wire.EntityKey :=
  { provider := value.provider, id := value.id }

def subject : Subject → Wire.Subject
  | .account value => .account (key value)
  | .group value => .group (key value)

def provenance (value : Provenance) : Wire.Provenance :=
  { method := value.method, observedAt := value.observedAt }

def account (value : Account) : Wire.Record :=
  .account {
    key := key value.key
    login := value.login
    status := identityStatus value.status
    kind := identityKind value.kind
    affiliation := affiliation value.affiliation
    verifiedEmails := value.verifiedEmails }

def identity (value : Identity) : Wire.Record :=
  .identity {
    id := value.id
    kind := identityKind value.kind
    affiliation := affiliation value.affiliation
    status := identityStatus value.status
    verifiedEmails := value.verifiedEmails }

def resource (value : Resource) : Wire.Record :=
  .resource {
    key := key value.key
    name := value.name
    kind := value.kind
    parent := value.parent.map key }

def group (value : Group) : Wire.Record :=
  .group { key := key value.key, name := value.name }

def membership (value : Membership) : Wire.Record :=
  .membership {
    member := subject value.member
    group := key value.group
    provenance := provenance value.provenance }

def grant (value : Grant) : Wire.Record :=
  .grant {
    id := value.id
    subject := subject value.subject
    resource := key value.resource
    role := value.role
    privilege := privilege value.privilege
    certainty := certainty value.certainty
    evidenceKind := evidenceKind value.evidenceKind
    provenance := provenance value.provenance }

end Records

end Permesh

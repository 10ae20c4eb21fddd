import Permesh.Lib.Async
import Permesh.Native.Io

/-!
# Native.Session — one operation from handshake to terminal event

`lib.rs` and `response.rs` as tasks of the scheduler. The bodies read as the source does; `?` is
the bind.
-/

namespace Permesh.Native

open Permesh.Lib

variable {K : Crates}

/-- `sdk::Health`. -/
structure Health where
  message : String
  limitations : List String
  deriving DecidableEq, Repr

/-- A provider, as what its two operations return. -/
structure Provider where
  check : Except ProviderError Health
  discover : Except ProviderError Snapshot

/-- Everything outside a session: how frames are decoded and encoded, and what the factory
returns. -/
structure Host (A : Adapter K) where
  fromSlice : List UInt8 → Option (WireRequest A)
  serializer : Serializer K
  factory : String → A.Configuration → A.Credentials → Option NetworkContext →
    Except ProviderError Provider

/-- The outside calls of a session. Only the factory is given credentials. -/
inductive Call (A : Adapter K) where
  | factory (instanceId : String) (configuration : A.Configuration) (credentials : A.Credentials)
      (network : Option NetworkContext)
  | check
  | discover

/-- `ProtocolFailure`. -/
inductive ProtocolFailure where
  | mk
  deriving DecidableEq, Repr

/-- The types of a session. -/
abbrev sig (A : Adapter K) : Sig where
  Fail := Failure
  Event := Event K
  Call := Call A
  Frame := List UInt8
  In := Input
  Out := Output
  Result := Except ProtocolFailure Unit

/-- Standard input and output of a session. -/
def port {A : Adapter K} (H : Host A) : Port (sig A) where
  scan := Input.scan
  feed := Input.feed
  begin := Output.begin H.serializer
  begin_ne := by
    intro o e b o' h hb
    subst hb
    unfold Output.begin at h
    split at h
    · cases h
    · dsimp only at h
      split at h
      · cases h
      · simp only [Except.ok.injEq, Prod.mk.injEq, List.append_eq_nil_iff, List.cons_ne_self,
          and_false, false_and] at h
  closed := .protocol
  late := .unavailable
  stalled := .unavailable

/-! ## The operation -/

variable {A : Adapter K}

/-- `response::records`. -/
def records {α : Type} (convert : α → Wire.Record) : List α → JobM (sig A) Unit
  | [] => pure ()
  | data :: values => do
    JobM.send (.record (convert data))
    records convert values

/-- The number of entries of a snapshot. -/
def Snapshot.count (snapshot : Snapshot) : Nat :=
  snapshot.identities.length + snapshot.accounts.length + snapshot.resources.length +
    snapshot.groups.length + snapshot.memberships.length + snapshot.grants.length

/-- `map_err(|e| Failure::Provider(A::error_code(&e.code)))`. -/
def providerError {α : Type} (A : Adapter K) : Except ProviderError α → Except Failure α
  | .ok a => .ok a
  | .error e => .error (.provider (A.errorCode e.code))

/-- `response::operation`. -/
def operation (A : Adapter K) (provider : Provider) (check : Bool) (instanceId : String) :
    JobM (sig A) Unit :=
  if check then do
    let health ← JobM.call .check (providerError A provider.check)
    JobM.send (.health (A.limitations health.limitations))
  else do
    let snapshot ← JobM.call .discover (providerError A provider.discover)
    if snapshot.provider ≠ instanceId then JobM.fail .internal
    else if K.core.validate snapshot = false then JobM.fail .internal
    else do
      let snapshot := K.core.sort snapshot
      let count := Snapshot.count snapshot
      if 100000 < count then JobM.fail .internal
      else do
        records Records.account snapshot.accounts
        records Records.identity snapshot.identities
        records Records.resource snapshot.resources
        records Records.group snapshot.groups
        records Records.membership snapshot.memberships
        records Records.grant snapshot.grants
        JobM.send (.complete count snapshot.complete (A.limitations snapshot.limitations))

/-- The async block that is raced against the input. -/
def operate (H : Host A) (check : Bool) (instanceId : String) (configuration : A.Configuration)
    (credentials : A.Credentials) (network : Option NetworkContext) : JobM (sig A) Unit := do
  let provider ← JobM.call (.factory instanceId configuration credentials network)
    (providerError A (H.factory instanceId configuration credentials network))
  operation A provider check instanceId

/-! ## The session -/

/-- `output.contract = ..`. -/
def setContract (contract : RequestContract) : TaskM (sig A) Unit :=
  TaskM.set fun (out : Output) => { out with contract := contract }

/-- `output.id = ..`. -/
def setId (id : String) : TaskM (sig A) Unit := TaskM.set fun (out : Output) => { out with id := id }

/-- `next`: one frame, parsed. -/
def next (H : Host A) : TaskM (sig A) (Request A) := do
  let frame ← TaskM.frame
  match parse A H.fromSlice frame with
  | none => TaskM.fail .protocol
  | some request => pure request

/-- What the race makes of its winner: a frame can only cancel, and only under the contract of the
session. -/
def raced (H : Host A) (contract : RequestContract) : Winner (sig A) → Except Failure Unit
  | .input (.error e) => .error e
  | .input (.ok frame) =>
    match parse A H.fromSlice frame with
    | none => .error .protocol
    | some request =>
      match request.command with
      | .cancel => if request.contract = contract then .error .cancelled else .error .protocol
      | _ => .error .protocol
  | .deadline => .error .unavailable
  | .job r => r

/-- `tokio::select! { biased; .. }` over the input and the operation with its 55 seconds. -/
def select (H : Host A) (contract : RequestContract) (job : JobM (sig A) Unit) :
    TaskM (sig A) Unit :=
  TaskM.select job (raced H contract)

/-- The handshake event of the contract. -/
def greeting (A : Adapter K) (contract : RequestContract) (networkRequested : Bool) : Event K :=
  let capabilities := A.metadata.capabilities.map Records.capability
  if contract = .negotiatedV1 then
    .handshake A.metadata.kind capabilities (some ["discover", "check"])
      (if networkRequested then some ["network_v1"] else none)
  else .handshake A.metadata.kind capabilities none none

/-- `session`. -/
def session (H : Host A) (networkEnabled : Bool) : TaskM (sig A) Unit := do
  let request ← next H
  setContract request.contract
  let contract := request.contract
  match request.command with
  | .handshake instanceId operation networkRequested =>
    if networkRequested ∧ (networkEnabled = false ∨ A.supportsNetwork = false) then
      TaskM.fail .protocol
    else do
      TaskM.send (greeting A contract networkRequested)
      let request ← next H
      if request.contract ≠ contract then TaskM.fail .protocol
      else match request.command with
        | .describe => do
          setId "describe"
          if K.setupValid A.setup = false then TaskM.fail .internal
          else TaskM.send (.setup A.setup)
        | .describeAuth => do
          setId "describe_auth"
          match A.browserAuth with
          | none => TaskM.fail (.provider "unsupported_method")
          | some spec =>
            if K.browserAuthValid spec = false then TaskM.fail .internal
            else TaskM.send (.auth spec)
        | .cancel => TaskM.fail .cancelled
        | .operation check configuration credentials network =>
          if network.isSome ≠ networkRequested ∨ (network.isSome ∧ networkEnabled = false) then
            TaskM.fail .protocol
          else do
            setId (if check then "check" else "discover")
            if operation ≠ some (if check then .check else .discover) then
              TaskM.fail .protocol
            else if network.any (fun context => !networkValidate K context) then
              TaskM.fail .protocol
            else
              select H contract (operate H check instanceId configuration credentials network)
        | .handshake .. => TaskM.fail .protocol
  | _ => TaskM.fail .protocol

/-- `serve_internal`. -/
def serveInternal (H : Host A) (networkEnabled : Bool) : Task (sig A) :=
  session H networkEnabled fun result => match result with
    | .ok () => .done (.ok ())
    | .error .cancelled =>
      .set (fun out => { out with id := "cancel" }) (.send .cancelled fun r => match r with
        | .ok () => .done (.ok ())
        | .error _ => .done (.error .mk))
    | .error failure => .send (.error failure.code) fun _ => .done (.error .mk)

/-- `serve`. -/
def serve (H : Host A) : Task (sig A) := serveInternal H false

/-- `serve_with_network`. -/
def serveWithNetwork (H : Host A) : Task (sig A) := serveInternal H true

/-- A session that has been polled once, with an empty input and nothing written. -/
def start (H : Host A) (networkEnabled : Bool) : Machine (sig A) :=
  .resume (port H) (serveInternal H networkEnabled) ⟨.new, .new, none, [], []⟩

end Permesh.Native

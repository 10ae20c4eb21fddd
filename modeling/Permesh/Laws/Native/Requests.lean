import Permesh.Laws.Native.Gate
import Permesh.Lib.Maps
import Permesh.Native.Wire

/-!
# Laws.Native.Requests — the requests that are accepted

`Describes` lists the frames that make a request, field by field, with the command each of them
stands for. `parse_exact` says that `parse` accepts these and no others: what is not given is not
there, and a frame that was written as an array is never one of them.

Each field of a frame is described by what is given for it (`Given`), and each arm of the parser by the
frames that reach it. How the bytes of a line become a document is left to the JSON parser.
-/

namespace Permesh.Native

open Serde Permesh.Lib

variable {K : Crates} {A : Adapter K}

/-! ## The fields of a frame -/

/-- A field that may be left out: it is not there, or it is there, and it is not null. -/
def Given {α : Type} (fields : List (String × Document)) (decode : Document → Option α)
    (name : String) : Option α → Prop
  | none => name ∉ fields.map Prod.fst
  | some value => ∃ d, (name, d) ∈ fields ∧ d ≠ .null ∧ decode d = some value

/-- The fields of an object are those of the frame: all of them are known, none is repeated. -/
structure Decodes (decoders : Decoders A) (fields : List (String × Document))
    (value : WireRequest A) : Prop where
  known : ∀ name ∈ fields.map Prod.fst, name ∈ WireRequest.names
  once : (fields.map Prod.fst).Nodup
  protocol : Given fields decodeU32 "protocol" value.protocol
  protocolVersion : Given fields decodeU32 "protocol_version" value.protocolVersion
  operation : Given fields decodeOperation "operation" value.operation
  features : Given fields decodeStrings "features" value.features
  network : Given fields decoders.network "network" value.network
  id : ("id", .string value.id) ∈ fields
  method : ("method", .string value.method) ∈ fields
  instanceId : Given fields decodeString "instance" value.instanceId
  configuration : Given fields decoders.configuration "configuration" value.configuration
  credentials : Given fields decoders.credentials "credentials" value.credentials

theorem present_iff {α : Type} {decode : Document → Option α} {d : Document} {value : Option α} :
    present decode d = some value ↔ ∃ v, value = some v ∧ d ≠ .null ∧ decode d = some v := by
  unfold present
  split
  · simp
  case h_2 other =>
    rw [Option.map_eq_some_iff]
    constructor
    · rintro ⟨v, read, rfl⟩
      exact ⟨v, rfl, other, read⟩
    · rintro ⟨v, rfl, -, read⟩
      exact ⟨v, read, rfl⟩

variable {fields : List (String × Document)} {name : String}

theorem optional_iff {α : Type} {decode : Document → Option α} {value : Option α}
    (once : (fields.map Prod.fst).Nodup) :
    WireRequest.optional decode (fields.lookup name) = some value ↔
      Given fields decode name value := by
  cases found : fields.lookup name with
  | none =>
    have gone : name ∉ fields.map Prod.fst := by
      rintro there
      obtain ⟨⟨_, d⟩, mem, rfl⟩ := List.mem_map.mp there
      rw [(lookup_eq_some once).mpr mem] at found
      cases found
    cases value with
    | none => exact iff_of_true rfl gone
    | some v =>
      refine iff_of_false nofun ?_
      rintro ⟨d, mem, -⟩
      exact gone (List.mem_map.mpr ⟨_, mem, rfl⟩)
  | some d =>
    have there := (lookup_eq_some once).mp found
    change present decode d = some value ↔ _
    rw [present_iff]
    cases value with
    | none =>
      refine iff_of_false nofun fun gone => gone (List.mem_map.mpr ⟨_, there, rfl⟩)
    | some v =>
      constructor
      · rintro ⟨_, same, other, read⟩
        cases same
        exact ⟨d, there, other, read⟩
      · rintro ⟨d', mem, other, read⟩
        cases found.symm.trans ((lookup_eq_some once).mpr mem)
        exact ⟨v, rfl, other, read⟩

theorem required_iff {s : String} (once : (fields.map Prod.fst).Nodup) :
    (fields.lookup name).bind decodeString = some s ↔ (name, .string s) ∈ fields := by
  rw [← lookup_eq_some once, Option.bind_eq_some_iff]
  constructor
  · rintro ⟨d, found, read⟩
    cases d with
    | string t => cases read; exact found
    | _ => cases read
  · intro found
    exact ⟨_, found, rfl⟩

/-- **What the derived visitor reads of an object.** -/
theorem visitMap_iff {decoders : Decoders A} {value : WireRequest A} :
    WireRequest.visitMap decoders fields = some value ↔ Decodes decoders fields value := by
  have strange : (fields.any fun field => !WireRequest.names.contains field.1) = true ↔
      ¬∀ name ∈ fields.map Prod.fst, name ∈ WireRequest.names := by
    simp
  rw [WireRequest.visitMap, Option.ite_none_left_eq_some, Option.ite_none_left_eq_some, strange,
    not_not, not_not, WireRequest.build]
  simp only [Option.bind_eq_bind, Option.bind_eq_some_iff, Option.pure_def, Option.some.injEq]
  constructor
  · rintro ⟨known, once, protocol, h₁, version, h₂, operation, h₃, features, h₄, network, h₅, id, h₆,
      method, h₇, instanceId, h₈, configuration, h₉, credentials, h₁₀, rfl⟩
    have optional {α : Type} {decode : Document → Option α} {name : String} {value : Option α}
        (h : WireRequest.optional decode (fields.lookup name) = some value) :
        Given fields decode name value :=
      (optional_iff once).mp h
    rw [← Option.bind_eq_some_iff] at h₆ h₇
    exact ⟨known, once, optional h₁, optional h₂, optional h₃, optional h₄, optional h₅,
      (required_iff once).mp h₆, (required_iff once).mp h₇, optional h₈, optional h₉, optional h₁₀⟩
  · intro h
    have optional {α : Type} {decode : Document → Option α} {name : String} {value : Option α}
        (given : Given fields decode name value) :
        WireRequest.optional decode (fields.lookup name) = some value :=
      (optional_iff h.once).mpr given
    refine ⟨h.known, h.once, _, optional h.protocol, _, optional h.protocolVersion, _,
      optional h.operation, _, optional h.features, _, optional h.network, _, ?_, _, ?_, _,
      optional h.instanceId, _, optional h.configuration, _, optional h.credentials, rfl⟩
    · exact Option.bind_eq_some_iff.mp ((required_iff h.once).mpr h.id)
    · exact Option.bind_eq_some_iff.mp ((required_iff h.once).mpr h.method)

/-! ## The requests -/

/-- How a contract is named. -/
def versions : RequestContract → Option Nat × Option Nat
  | .negotiatedV1 => (none, some 1)
  | .legacySetup => (some 3, none)
  | .legacyAuth => (some 4, none)

/-- A frame with nothing but its contract and its method. -/
def bareFrame (A : Adapter K) (contract : RequestContract) (method : String) : WireRequest A where
  protocol := (versions contract).1
  protocolVersion := (versions contract).2
  operation := none
  features := none
  network := none
  id := method
  method := method
  instanceId := none
  configuration := none
  credentials := none

/-- The frames that make a request, and the request. -/
inductive Describes : WireRequest A → Request A → Prop where
  | handshake (instanceId : String) (operation : Operation) (features : Option (List String)) :
    validInstance instanceId = true →
    (∀ names, features = some names → names = ["network_v1"] ∧ A.supportsNetwork = true) →
    Describes { bareFrame A .negotiatedV1 "handshake" with
      instanceId := some instanceId, operation := some operation, features := features }
      ⟨.negotiatedV1, .handshake instanceId (some operation) features.isSome⟩
  | legacyHandshake (contract : RequestContract) (instanceId : String) :
    contract ≠ .negotiatedV1 → validInstance instanceId = true →
    Describes { bareFrame A contract "handshake" with instanceId := some instanceId }
      ⟨contract, .handshake instanceId none false⟩
  | describe : Describes (bareFrame A .legacySetup "describe") ⟨.legacySetup, .describe⟩
  | describeAuth : Describes (bareFrame A .legacyAuth "describe_auth") ⟨.legacyAuth, .describeAuth⟩
  | cancel (contract : RequestContract) : Describes (bareFrame A contract "cancel") ⟨contract, .cancel⟩
  | operation (check : Bool) (configuration : A.Configuration) (credentials : A.Credentials)
    (network : Option NetworkContext) :
    A.validate configuration credentials = true →
    (∀ context, network = some context →
      A.supportsNetwork = true ∧ K.networkValid context = true) →
    Describes { bareFrame A .negotiatedV1 (if check then "check" else "discover") with
      configuration := some configuration, credentials := some credentials, network := network }
      ⟨.negotiatedV1, .operation check configuration credentials network⟩

theorem requestContract_iff {protocol version : Option Nat} {contract : RequestContract} :
    requestContract protocol version = some contract ↔ (protocol, version) = versions contract := by
  constructor
  · intro h
    unfold requestContract at h
    split at h <;> cases h <;> rfl
  · intro h
    cases contract <;> cases h <;> rfl

/-- A frame that names both versions names no contract. -/
theorem requestContract_both (protocol version : Nat) :
    requestContract (some protocol) (some version) = none := by
  cases named : requestContract (some protocol) (some version) with
  | none => rfl
  | some contract =>
    have same := requestContract_iff.mp named
    cases contract <;> cases same

/-- An array that has the identifier also has both versions. -/
theorem requestContract_visitSeq {decoders : Decoders A} {items : List Document}
    {value : WireRequest A} (h : WireRequest.visitSeq decoders items = some value) :
    requestContract value.protocol value.protocolVersion = none := by
  rw [WireRequest.visitSeq, Option.ite_none_left_eq_some, WireRequest.build] at h
  simp only [Option.bind_eq_bind, Option.bind_eq_some_iff, Option.pure_def, Option.some.injEq] at h
  obtain ⟨-, protocol, first, version, second, -, -, -, -, -, -, id, ⟨d, there, -⟩, -, -, -, -, -, -,
    -, -, rfl⟩ := h
  match items with
  | [] => cases there
  | [_] => cases there
  | a :: b :: _ =>
    obtain ⟨_, rfl, -⟩ := present_iff.mp (show present decodeU32 a = some protocol from first)
    obtain ⟨_, rfl, -⟩ := present_iff.mp (show present decodeU32 b = some version from second)
    exact requestContract_both _ _

theorem parseWire_describes {value : WireRequest A} {request : Request A} (h : Describes value request) :
    parseWire A value = some request := by
  cases h with
  | handshake instanceId operation features valid allowed =>
    cases features with
    | none => simp [parseWire, bareFrame, versions, requestContract, requestCommand, valid]
    | some names =>
      obtain ⟨rfl, supported⟩ := allowed names rfl
      simp [parseWire, bareFrame, versions, requestContract, requestCommand, valid, supported]
  | legacyHandshake contract instanceId legacy valid =>
    cases contract with
    | negotiatedV1 => exact absurd rfl legacy
    | legacySetup | legacyAuth =>
      simp [parseWire, bareFrame, versions, requestContract, requestCommand, valid]
  | describe => rfl
  | describeAuth => rfl
  | cancel contract => cases contract <;> rfl
  | operation check configuration credentials network valid allowed =>
    cases network with
    | none =>
      cases check <;> simp [parseWire, bareFrame, versions, requestContract, requestCommand, valid]
    | some context =>
      obtain ⟨supported, known⟩ := allowed context rfl
      cases check <;>
        simp [parseWire, bareFrame, versions, requestContract, requestCommand, valid, supported, known]

/-- Which methods take a network, and which one an operation. -/
theorem parseWire_methods {value : WireRequest A} {request : Request A}
    (h : parseWire A value = some request) :
    (value.network ≠ none → value.method = "check" ∨ value.method = "discover") ∧
      (value.operation ≠ none → value.method = "handshake") := by
  unfold parseWire at h
  split at h
  case h_1 => cases h
  case h_2 =>
    simp only [Option.ite_none_left_eq_some] at h
    obtain ⟨-, -, -, -, networked, operated, -⟩ := h
    constructor
    · intro given
      have given := Option.isSome_iff_ne_none.mpr given
      simpa [given, or_iff_not_imp_left] using networked
    · intro given
      have given := Option.isSome_iff_ne_none.mpr given
      simpa [given] using operated

theorem describes_of_parseWire {value : WireRequest A} {request : Request A}
    (h : parseWire A value = some request) : Describes value request := by
  obtain ⟨networked, operated⟩ := parseWire_methods h
  obtain ⟨named, same, featured, known, commanded⟩ := parseWire_accepted h
  have arm := requestCommand_arm commanded
  obtain ⟨contract, command⟩ := request
  obtain ⟨protocol, version, operation, features, network, id, method, instanceId, configuration,
    credentials⟩ := value
  dsimp only at *
  obtain ⟨rfl, rfl⟩ := Prod.ext_iff.mp (requestContract_iff.mp named)
  subst same
  have silent (other : id ≠ "handshake") : operation = none ∧ features = none := by
    refine ⟨not_not.mp fun given => other (operated given), ?_⟩
    cases features with
    | none => rfl
    | some names => exact absurd (featured names rfl).2.2.2 other
  have closed (check : id ≠ "check") (discover : id ≠ "discover") : network = none :=
    not_not.mp fun given => (networked given).elim check discover
  cases arm with
  | handshake instanceId method configured credited named valid together =>
    subst method configured credited named
    cases closed (by decide) (by decide)
    by_cases legacy : contract = .negotiatedV1
    · obtain ⟨operation, rfl⟩ := Option.ne_none_iff_exists'.mp (together.mp legacy)
      subst legacy
      exact .handshake instanceId operation features valid fun names given =>
        ⟨(featured names given).1, (featured names given).2.1⟩
    · cases not_not.mp (mt together.mpr legacy)
      cases features with
      | none => exact .legacyHandshake contract instanceId legacy valid
      | some names => exact absurd (featured names rfl).2.2.1 legacy
  | describe method legacy unnamed configured credited =>
    subst method legacy unnamed configured credited
    obtain ⟨rfl, rfl⟩ := silent (by decide)
    cases closed (by decide) (by decide)
    exact .describe
  | describeAuth method legacy unnamed configured credited =>
    subst method legacy unnamed configured credited
    obtain ⟨rfl, rfl⟩ := silent (by decide)
    cases closed (by decide) (by decide)
    exact .describeAuth
  | cancel method unnamed configured credited =>
    subst method unnamed configured credited
    obtain ⟨rfl, rfl⟩ := silent (by decide)
    cases closed (by decide) (by decide)
    exact .cancel contract
  | operation check conf cred method negotiated unnamed configured credited valid =>
    subst method negotiated unnamed configured credited
    obtain ⟨rfl, rfl⟩ := silent (by cases check <;> decide)
    exact .operation check conf cred network valid fun context given =>
      ⟨(known context given).1, (known context given).2.1⟩

/-- **The requests that are accepted.** -/
theorem parse_exact (decoders : Decoders A) (read : List UInt8 → Option Document)
    (bytes : List UInt8) (request : Request A) :
    parse A (WireRequest.fromSlice decoders read) bytes = some request ↔
      bytes.length ≤ MAX_FRAME ∧ ∃ fields value, read bytes = some (.object fields) ∧
        Decodes decoders fields value ∧ Describes value request := by
  rw [parse, Option.ite_none_left_eq_some, Nat.not_lt]
  refine and_congr_right fun _ => ?_
  simp only [WireRequest.fromSlice, Option.bind_eq_some_iff]
  constructor
  · rintro ⟨value, ⟨d, found, decoded⟩, accepted⟩
    unfold WireRequest.deserialize at decoded
    split at decoded
    case h_1 fields =>
      exact ⟨fields, value, found, visitMap_iff.mp decoded, describes_of_parseWire accepted⟩
    case h_2 items =>
      unfold parseWire at accepted
      rw [requestContract_visitSeq decoded] at accepted
      cases accepted
    case h_3 => cases decoded
  · rintro ⟨fields, value, found, decodes, describes⟩
    exact ⟨value, ⟨_, found, visitMap_iff.mpr decodes⟩, parseWire_describes describes⟩

end Permesh.Native

import Permesh.IdentityCenter.Transport
import Permesh.Laws.Aws.Transport
import Permesh.Laws.Serde
import Permesh.Laws.Text

/-!
# Laws.IdentityCenter.Transport — what the SDK may see

A response to an operation is passed on exactly when its body is a document that repeats no field,
contains the list that was asked for, does not reflect a credential, and has a usable `NextToken`, if
any (`Proper`). A request that names none of the operations is not sent.

Each check of the transport is turned into a statement about documents, and the checks are then combined
in the order of the source. What the SDK makes of a response is not modelled.
-/

namespace Permesh.IdentityCenter

open Permesh.Json Permesh.Serde Permesh.Aws Permesh.Http

/-! ## Unique documents -/

theorem uniqueItems_iff {items : List Document} (ih : ∀ d ∈ items, ∀ v,
    unique d = some v ↔ Distinct d ∧ v = d.value) {vs : List Value} :
    uniqueItems items = some vs ↔ (∀ d ∈ items, Distinct d) ∧ vs = Document.values items := by
  induction items generalizing vs with
  | nil => simp [uniqueItems, Document.values, eq_comm]
  | cons d items rest =>
    obtain ⟨first, others⟩ := List.forall_mem_cons.mp ih
    rw [uniqueItems, Option.bind_eq_some_iff, List.forall_mem_cons]
    constructor
    · rintro ⟨v, hv, h⟩
      obtain ⟨vs', hvs, rfl⟩ := Option.map_eq_some_iff.mp h
      obtain ⟨distinct, rfl⟩ := (first v).mp hv
      obtain ⟨all, rfl⟩ := (rest others).mp hvs
      exact ⟨⟨distinct, all⟩, rfl⟩
    · rintro ⟨⟨distinct, all⟩, rfl⟩
      exact ⟨_, (first _).mpr ⟨distinct, rfl⟩,
        Option.map_eq_some_iff.mpr ⟨_, (rest others).mpr ⟨all, rfl⟩, rfl⟩⟩

theorem uniqueFields_iff {fields : List (String × Document)} (ih : ∀ field ∈ fields, ∀ v,
    unique field.2 = some v ↔ Distinct field.2 ∧ v = field.2.value)
    {out vs : List (String × Value)} :
    uniqueFields out fields = some vs ↔ ((fields.map Prod.fst).Nodup ∧
      (∀ name ∈ fields.map Prod.fst, name ∉ out.map Prod.fst) ∧ ∀ field ∈ fields, Distinct field.2) ∧
      vs = Document.fieldValues out fields := by
  induction fields generalizing out with
  | nil => simp [uniqueFields, Document.fieldValues, eq_comm]
  | cons field fields rest =>
    obtain ⟨name, d⟩ := field
    obtain ⟨first, others⟩ := List.forall_mem_cons.mp ih
    have known : (out.lookup name).isSome = true ↔ name ∈ out.map Prod.fst := by
      rw [List.lookup_isSome_iff, List.mem_map]
      exact exists_congr fun p => and_congr_right fun _ => beq_iff_eq.trans eq_comm
    rw [uniqueFields, Option.bind_eq_some_iff, List.map_cons, List.nodup_cons, List.forall_mem_cons,
      List.forall_mem_cons]
    constructor
    · rintro ⟨v, hv, h⟩
      split at h
      case isTrue => cases h
      case isFalse absent =>
        have fresh := mt known.mpr absent
        obtain ⟨distinct, rfl⟩ := (first v).mp hv
        obtain ⟨⟨once, apart, all⟩, rfl⟩ := (rest others).mp h
        have apart' := fun other mem => not_or.mp (mt (mem_keys_insertField fresh).mpr (apart other mem))
        exact ⟨⟨⟨fun mem => (apart' name mem).1 rfl, once⟩,
          ⟨fresh, fun other mem => (apart' other mem).2⟩, distinct, all⟩, rfl⟩
    · rintro ⟨⟨⟨single, once⟩, ⟨fresh, apart⟩, distinct, all⟩, rfl⟩
      refine ⟨d.value, (first _).mpr ⟨distinct, rfl⟩, ?_⟩
      rw [if_neg (mt known.mp fresh)]
      refine (rest others).mpr ⟨⟨once, fun other mem there => ?_, all⟩, rfl⟩
      rcases (mem_keys_insertField fresh).mp there with rfl | there
      · exact single mem
      · exact apart other mem there

/-- What holds nothing else has one reading. -/
theorem unique_plain {d : Document} (no_array : ∀ items, d ≠ .array items)
    (no_object : ∀ fields, d ≠ .object fields) (read : unique d = some d.value) (v : Value) :
    unique d = some v ↔ Distinct d ∧ v = d.value := by
  rw [read, Option.some.injEq, eq_comm]
  exact (and_iff_right (distinct_plain no_array no_object)).symm

/-- **Unique documents**: where no object repeats a field, and only there, the value is the one of
`serde_json::Value`. -/
theorem unique_iff (d : Document) : ∀ v, unique d = some v ↔ Distinct d ∧ v = d.value := by
  induction d using Document.induct with
  | null => exact unique_plain nofun nofun rfl
  | bool b => exact unique_plain nofun nofun rfl
  | number n => exact unique_plain nofun nofun rfl
  | string s => exact unique_plain nofun nofun rfl
  | array items ih =>
    intro v
    rw [unique, Option.map_eq_some_iff, distinct_array, Document.value]
    constructor
    · rintro ⟨vs, h, rfl⟩
      obtain ⟨all, rfl⟩ := (uniqueItems_iff ih).mp h
      exact ⟨all, rfl⟩
    · rintro ⟨all, rfl⟩
      exact ⟨_, (uniqueItems_iff ih).mpr ⟨all, rfl⟩, rfl⟩
  | object fields ih =>
    intro v
    rw [unique, Option.map_eq_some_iff, distinct_object, Document.value]
    constructor
    · rintro ⟨vs, h, rfl⟩
      obtain ⟨⟨once, -, all⟩, rfl⟩ := (uniqueFields_iff ih).mp h
      exact ⟨⟨once, all⟩, rfl⟩
    · rintro ⟨⟨once, all⟩, rfl⟩
      exact ⟨_, (uniqueFields_iff ih).mpr ⟨⟨once, fun _ _ => List.not_mem_nil, all⟩, rfl⟩, rfl⟩

/-! ## Reflections -/

/-- A credential occurs in a text. -/
def Reflected (credentials : Credentials) (s : String) : Prop :=
  ∃ secret, (secret = credentials.accessKeyId ∨ secret = credentials.secretAccessKey ∨
    credentials.sessionToken = some secret) ∧ secret.toList <:+: s.toList

variable {credentials : Credentials}

theorem reflects_iff {s : String} : reflects credentials s = true ↔ Reflected credentials s := by
  unfold reflects Reflected
  rw [Bool.or_eq_true, Bool.or_eq_true, Option.any_eq_true, Text.contains_iff, Text.contains_iff]
  constructor
  · rintro ((h | h) | ⟨token, held, h⟩)
    · exact ⟨_, .inl rfl, h⟩
    · exact ⟨_, .inr (.inl rfl), h⟩
    · exact ⟨token, .inr (.inr held), Text.contains_iff.mp h⟩
  · rintro ⟨secret, rfl | rfl | held, h⟩
    · exact .inl (.inl h)
    · exact .inl (.inr h)
    · exact .inr ⟨secret, held, Text.contains_iff.mpr h⟩

theorem reflectsItems_iff {values : List Value} : reflectsItems credentials values = true ↔
    ∃ v ∈ values, reflectsValue credentials v = true := by
  induction values with
  | nil => simp [reflectsItems]
  | cons v values ih => rw [reflectsItems, Bool.or_eq_true, ih, List.exists_mem_cons_iff]

theorem reflectsFields_iff {fields : List (String × Value)} :
    reflectsFields credentials fields = true ↔ ∃ field ∈ fields,
      reflects credentials field.1 = true ∨ reflectsValue credentials field.2 = true := by
  induction fields with
  | nil => simp [reflectsFields]
  | cons field fields ih =>
    obtain ⟨name, v⟩ := field
    rw [reflectsFields, Bool.or_eq_true, Bool.or_eq_true, ih, List.exists_mem_cons_iff]

/-- Null, a truth value and a number have no text. -/
theorem reflectsValue_plain {d : Document} (no_array : ∀ items, d ≠ .array items)
    (no_object : ∀ fields, d ≠ .object fields) (no_string : ∀ s, d ≠ .string s)
    (silent : reflectsValue credentials d.value = false) :
    reflectsValue credentials d.value = true ↔ ∃ s, Texts d s ∧ Reflected credentials s := by
  rw [silent]
  apply iff_of_false Bool.false_ne_true
  rintro ⟨s, text, -⟩
  exact no_string s ((texts_plain no_array no_object).mp text)

/-- A value reflects a credential where a text of the document does. -/
theorem reflectsValue_iff (d : Document) : Distinct d →
    (reflectsValue credentials d.value = true ↔ ∃ s, Texts d s ∧ Reflected credentials s) := by
  induction d using Document.induct with
  | null => exact fun _ => reflectsValue_plain nofun nofun nofun rfl
  | bool b => exact fun _ => reflectsValue_plain nofun nofun nofun rfl
  | number n => exact fun _ => reflectsValue_plain nofun nofun nofun rfl
  | string s =>
    intro _
    have own (t : String) : Texts (.string s) t ↔ Document.string s = .string t :=
      texts_plain (d := .string s) nofun nofun
    rw [Document.value, reflectsValue, reflects_iff]
    constructor
    · exact fun h => ⟨s, (own s).mpr rfl, h⟩
    · rintro ⟨t, text, h⟩
      cases (own t).mp text
      exact h
  | array items ih =>
    intro distinct
    rw [distinct_array] at distinct
    rw [Document.value, reflectsValue, values_eq, reflectsItems_iff]
    constructor
    · rintro ⟨_, read, h⟩
      obtain ⟨d, mem, rfl⟩ := List.mem_map.mp read
      obtain ⟨s, text, h⟩ := (ih d mem (distinct d mem)).mp h
      exact ⟨s, texts_array.mpr ⟨d, mem, text⟩, h⟩
    · rintro ⟨s, text, h⟩
      obtain ⟨d, mem, text⟩ := texts_array.mp text
      exact ⟨d.value, List.mem_map_of_mem mem, (ih d mem (distinct d mem)).mpr ⟨s, text, h⟩⟩
  | object fields ih =>
    intro distinct
    obtain ⟨once, distinct⟩ := distinct_object.mp distinct
    rw [Document.value, reflectsValue, reflectsFields_iff]
    constructor
    · rintro ⟨_, read, h⟩
      obtain ⟨field, mem, rfl⟩ := List.mem_map.mp ((objectValue_perm once).mem_iff.mp read)
      rcases h with name | h
      · exact ⟨field.1, texts_object.mpr ⟨field, mem, .inl rfl⟩, reflects_iff.mp name⟩
      · obtain ⟨s, text, h⟩ := (ih field mem (distinct field mem)).mp h
        exact ⟨s, texts_object.mpr ⟨field, mem, .inr text⟩, h⟩
    · rintro ⟨s, text, h⟩
      obtain ⟨field, mem, text⟩ := texts_object.mp text
      refine ⟨_, (objectValue_perm once).mem_iff.mpr (List.mem_map_of_mem mem), ?_⟩
      rcases text with rfl | text
      · exact .inl (reflects_iff.mpr h)
      · exact .inr ((ih field mem (distinct field mem)).mpr ⟨s, text, h⟩)

/-! ## Responses -/

/-- What the response to an operation has to be. -/
structure Proper (credentials : Credentials) (name : String) (d : Document) : Prop where
  distinct : Distinct d
  list : ∀ field, listField name = some (some field) → ∃ fields items, d = .object fields ∧
    (field, .array items) ∈ fields
  described : name = "DescribePermissionSet" → ∃ fields inner, d = .object fields ∧
    ("PermissionSet", .object inner) ∈ fields
  silent : ∀ s, Texts d s → ¬Reflected credentials s
  token : ∀ fields token, d = .object fields → ("NextToken", token) ∈ fields → token = .null ∨
    ∃ s, token = .string s ∧ s ≠ "" ∧ Text.len s ≤ 4096 ∧ ∀ c ∈ s.toList, Text.isControl c = false

theorem usable_iff (d : Document) : unusableToken d.value = false ↔ d = .null ∨
    ∃ s, d = .string s ∧ s ≠ "" ∧ Text.len s ≤ 4096 ∧ ∀ c ∈ s.toList, Text.isControl c = false := by
  cases d with
  | null => simp [unusableToken, Document.value, Value.isNull]
  | string s =>
    simp [unusableToken, Document.value, Value.isNull, Value.asStr, and_assoc]
  | bool | number | array | object =>
    simp [unusableToken, Document.value, Value.isNull, Value.asStr]

/-- What stands at a name of a value, in terms of the document. -/
theorem any_get_iff {d : Document} (distinct : Distinct d) {name : String} {p : Value → Bool} :
    (d.value.get name).any p = true ↔
      ∃ fields e, d = .object fields ∧ (name, e) ∈ fields ∧ p e.value = true := by
  rw [Option.any_eq_true]
  cases d with
  | object fields =>
    have once := (distinct_object.mp distinct).1
    constructor
    · rintro ⟨v, got, h⟩
      obtain ⟨e, mem, rfl⟩ := (get_value once).mp got
      exact ⟨fields, e, rfl, mem, h⟩
    · rintro ⟨_, e, same, mem, h⟩
      cases same
      exact ⟨_, (get_value once).mpr ⟨e, mem, rfl⟩, h⟩
  | null | bool | number | string | array =>
    simp [Document.value, Value.get]

theorem array_iff {d : Document} : d.value.asArray.isSome = true ↔ ∃ items, d = .array items := by
  cases d <;> simp [Document.value, Value.asArray]

theorem object_iff {d : Document} : d.value.isObject = true ↔ ∃ fields, d = .object fields := by
  cases d <;> simp [Document.value, Value.isObject, Value.keys]

variable {reader : List UInt8 → Option Document} {bytes : List UInt8}

theorem readUnique_iff {v : Value} : readUnique reader bytes = some v ↔
    ∃ d, reader bytes = some d ∧ Distinct d ∧ v = d.value := by
  rw [readUnique, Option.bind_eq_some_iff]
  exact exists_congr fun d => and_congr_right fun _ => unique_iff d v

/-- The field is there, as an array. -/
theorem explicitArray_iff {d : Document} (read : readUnique reader bytes = some d.value)
    (distinct : Distinct d) {field : String} : explicitArray reader bytes field = true ↔
      ∃ fields items, d = .object fields ∧ (field, .array items) ∈ fields := by
  rw [explicitArray, read, Option.any_some, any_get_iff distinct]
  constructor
  · rintro ⟨fields, e, same, mem, h⟩
    obtain ⟨items, rfl⟩ := array_iff.mp h
    exact ⟨fields, items, same, mem⟩
  · rintro ⟨fields, items, same, mem⟩
    exact ⟨fields, _, same, mem, array_iff.mpr ⟨items, rfl⟩⟩

theorem described_iff {d : Document} (distinct : Distinct d) :
    (d.value.get "PermissionSet").any Value.isObject = true ↔
      ∃ fields inner, d = .object fields ∧ ("PermissionSet", .object inner) ∈ fields := by
  rw [any_get_iff distinct]
  constructor
  · rintro ⟨fields, e, same, mem, h⟩
    obtain ⟨inner, rfl⟩ := object_iff.mp h
    exact ⟨fields, inner, same, mem⟩
  · rintro ⟨fields, inner, same, mem⟩
    exact ⟨fields, _, same, mem, object_iff.mpr ⟨inner, rfl⟩⟩

theorem token_iff {d : Document} (distinct : Distinct d) :
    (d.value.get "NextToken").any unusableToken = false ↔
      ∀ fields token, d = .object fields → ("NextToken", token) ∈ fields → token = .null ∨
        ∃ s, token = .string s ∧ s ≠ "" ∧ Text.len s ≤ 4096 ∧
          ∀ c ∈ s.toList, Text.isControl c = false := by
  rw [← Bool.not_eq_true, any_get_iff distinct]
  constructor
  · intro usable fields token same mem
    refine (usable_iff token).mp (Bool.not_eq_true _ ▸ fun bad => ?_)
    exact usable ⟨fields, token, same, mem, bad⟩
  · rintro usable ⟨fields, token, same, mem, bad⟩
    rw [(usable_iff token).mpr (usable fields token same mem)] at bad
    cases bad

theorem silent_iff {d : Document} (distinct : Distinct d) :
    reflectsValue credentials d.value = false ↔ ∀ s, Texts d s → ¬Reflected credentials s := by
  rw [← Bool.not_eq_true, reflectsValue_iff d distinct]
  exact ⟨fun none s text reflected => none ⟨s, text, reflected⟩,
    fun none ⟨s, text, reflected⟩ => none s text reflected⟩

/-- **What is passed on** of the responses to an operation. -/
theorem passes_iff {allowed : List String} {name : String} {field : Option String}
    (known : listField name = some field) :
    (transport allowed credentials reader).passes (some name, field) 200 bytes = true ↔
      ∃ d, reader bytes = some d ∧ Proper credentials name d := by
  have passes : (transport allowed credentials reader).passes (some name, field) 200 bytes =
      (readUnique reader bytes).any fun value => !(reflectsValue credentials value ||
        (field.any fun field => !explicitArray reader bytes field) ||
        (some name == some "DescribePermissionSet" &&
          !((value.get "PermissionSet").any Value.isObject)) ||
        ((value.get "NextToken").any unusableToken)) := by
    dsimp only [transport]
    cases readUnique reader bytes <;> rfl
  rw [passes]
  cases read : readUnique reader bytes with
  | none =>
    apply iff_of_false Bool.false_ne_true
    rintro ⟨d, eq, proper⟩
    rw [readUnique_iff.mpr ⟨d, eq, proper.distinct, rfl⟩] at read
    cases read
  | some v =>
    obtain ⟨d, eq, distinct, rfl⟩ := readUnique_iff.mp read
    have list : (field.any fun field => !explicitArray reader bytes field) = false ↔
        ∀ asked, listField name = some (some asked) → ∃ fields items, d = .object fields ∧
          (asked, .array items) ∈ fields := by
      rw [known]
      cases field with
      | none => simp
      | some field =>
        simp only [Option.any_some, Bool.not_eq_false', Option.some.injEq, forall_eq']
        exact explicitArray_iff read distinct
    have described : (some name == some "DescribePermissionSet" &&
        !((d.value.get "PermissionSet").any Value.isObject)) = false ↔
        (name = "DescribePermissionSet" → ∃ fields inner, d = .object fields ∧
          ("PermissionSet", .object inner) ∈ fields) := by
      rw [← described_iff distinct]
      simp
    rw [Option.any_some, Bool.not_eq_true', Bool.or_eq_false_iff, Bool.or_eq_false_iff,
      Bool.or_eq_false_iff, silent_iff distinct, list, described, token_iff distinct, eq]
    constructor
    · rintro ⟨⟨⟨silent, list⟩, described⟩, token⟩
      exact ⟨d, rfl, distinct, list, described, silent, token⟩
    · rintro ⟨_, same, proper⟩
      cases same
      exact ⟨⟨⟨proper.silent, proper.list⟩, proper.described⟩, proper.token⟩

/-! ## Calls -/

section

variable {allowed : List String} {traffic : Traffic} {request : HttpRequest} {body : List UInt8}
  {response : Response} {name : String} {field : Option String}

theorem call_known (taken : TakenUp (transport allowed credentials reader) traffic request body)
    (named : operation request = some name) (known : listField name = some field)
    (within : WithinLimits traffic response) :
    ((transport allowed credentials reader).call traffic request (.answered response)).1 =
      if (transport allowed credentials reader).passes (some name, field) response.status
        response.chunks.flatten then respond response response.chunks.flatten else none := by
  refine call_within taken ?_ within
  show target request body = _
  rw [target, named]
  dsimp only
  rw [known]
  rfl

/-- A response with status 200 to an operation. -/
theorem call_operation
    (taken : TakenUp (transport allowed credentials reader) traffic request body)
    (named : operation request = some name) (known : listField name = some field)
    (within : WithinLimits traffic response) (ok : response.status = 200) :
    (∃ passed, ((transport allowed credentials reader).call traffic request
      (.answered response)).1 = some passed) ↔
      ∃ d, reader response.chunks.flatten = some d ∧ Proper credentials name d := by
  have handed : ∃ headers, respond response response.chunks.flatten =
      some ⟨response.status, headers, response.chunks.flatten⟩ :=
    respond_some within.status within.headers
  obtain ⟨headers, handed⟩ := handed
  have passes : (transport allowed credentials reader).passes (some name, field) response.status
      response.chunks.flatten = true ↔ _ := ok ▸ passes_iff known
  rw [call_known taken named known within, handed, ← passes]
  split
  case isTrue pass => exact iff_of_true ⟨_, rfl⟩ pass
  case isFalse refused => exact iff_of_false nofun refused

/-- What is passed on is the response as it came. -/
theorem call_unchanged
    (taken : TakenUp (transport allowed credentials reader) traffic request body)
    (named : operation request = some name) (known : listField name = some field)
    (within : WithinLimits traffic response) {passed : HttpResponse}
    (h : ((transport allowed credentials reader).call traffic request (.answered response)).1 =
      some passed) : passed.status = response.status ∧ passed.body = response.chunks.flatten := by
  rw [call_known taken named known within] at h
  split at h
  · exact respond_eq h
  · cases h

/-- A request that names no operation, and does not ask for the caller, asks for nothing known. -/
theorem target_unknown (unnamed : ∀ name, operation request = some name → listField name = none)
    (other : operation request = none → ∀ body ∈ request.body,
      containsBytes (Text.asBytes "Action=GetCallerIdentity") body = false) :
    ∀ body ∈ request.body, target request body = none := by
  intro body mem
  unfold target
  cases named : operation request with
  | none => exact if_neg (by rw [other named body mem]; exact Bool.false_ne_true)
  | some name =>
    dsimp only
    rw [unnamed name named]
    rfl

end

/-- **What the SDK may see**: of the responses to an operation those that are proper, unchanged, and the
documents are read as `serde_json::Value` reads them. What is no known request is not sent. -/
theorem call_exact (allowed : List String) (credentials : Credentials)
    (reader : List UInt8 → Option Document) :
    (∀ traffic request body name field response,
      TakenUp (transport allowed credentials reader) traffic request body →
      operation request = some name → listField name = some field →
      WithinLimits traffic response → response.status = 200 →
      ((∃ passed, ((transport allowed credentials reader).call traffic request
        (.answered response)).1 = some passed) ↔
          ∃ d, reader response.chunks.flatten = some d ∧ Proper credentials name d) ∧
      ∀ passed, ((transport allowed credentials reader).call traffic request
        (.answered response)).1 = some passed →
          passed.status = response.status ∧ passed.body = response.chunks.flatten) ∧
    (∀ d v, unique d = some v ↔ Distinct d ∧ v = d.value) ∧
    ∀ traffic request exchange,
      (∀ name, operation request = some name → listField name = none) →
      (operation request = none → ∀ body ∈ request.body,
        containsBytes (Text.asBytes "Action=GetCallerIdentity") body = false) →
      ((transport allowed credentials reader).call traffic request exchange).1 = none ∧
        ((transport allowed credentials reader).call traffic request exchange).2.sent =
          traffic.sent := by
  refine ⟨fun traffic request body name field response taken named known within ok => ⟨?_, ?_⟩,
    unique_iff, fun traffic request exchange unnamed other => ?_⟩
  · exact call_operation taken named known within ok
  · exact fun passed => call_unchanged taken named known within
  · exact call_unknown (target_unknown unnamed other) exchange

/-! ## A list of users -/

def usersRequest (name : String) : HttpRequest where
  method := "POST"
  uri := "https://identitystore.eu-west-1.amazonaws.com/"
  headers := [("x-amz-target", "AWSIdentityStore." ++ name)]
  body := some (Text.asBytes "\x7b\x7d")

def usersResponse : Response where
  status := 200
  headers := [("content-type", HeaderValue.ofString "application/x-amz-json-1.1")]
  contentLength := some 12
  chunks := [Text.asBytes "\x7b\"Users\":[]\x7d"]
  broken := false

/-- A reader that knows this body. -/
def usersReader (bytes : List UInt8) : Option Document :=
  if bytes = Text.asBytes "\x7b\"Users\":[]\x7d" then some (.object [("Users", .array [])]) else none

def sampleCredentials : Credentials := ⟨"AKIAEXAMPLE", "secret", some "token"⟩

/-- An empty list that is there is passed on, and a request for something else is not sent. -/
theorem call_exact_users :
    (∃ passed, ((transport ["https://identitystore.eu-west-1.amazonaws.com"] sampleCredentials
      usersReader).call ⟨0, 0, []⟩ (usersRequest "ListUsers") (.answered usersResponse)).1 =
        some passed) ∧
    (∃ d, usersReader usersResponse.chunks.flatten = some d ∧
      Proper sampleCredentials "ListUsers" d) ∧
    ((transport ["https://identitystore.eu-west-1.amazonaws.com"] sampleCredentials
      usersReader).call ⟨0, 0, []⟩ (usersRequest "DeleteUser") (.answered usersResponse)).2.sent =
        [] := by
  have exact := call_exact ["https://identitystore.eu-west-1.amazonaws.com"] sampleCredentials
    usersReader
  have taken : TakenUp (transport ["https://identitystore.eu-west-1.amazonaws.com"]
      sampleCredentials usersReader) ⟨0, 0, []⟩ (usersRequest "ListUsers")
      (Text.asBytes "\x7b\x7d") :=
    ⟨rfl, ⟨_, List.mem_singleton.mpr rfl, by decide⟩, by decide, rfl, by decide +kernel⟩
  have within : WithinLimits ⟨0, 0, []⟩ usersResponse :=
    ⟨by decide +kernel, rfl, by decide +kernel, by decide +kernel, by decide, by decide +kernel⟩
  have users := exact.1 ⟨0, 0, []⟩ (usersRequest "ListUsers") (Text.asBytes "\x7b\x7d") "ListUsers"
    (some "Users") usersResponse taken (by decide +kernel) rfl within rfl
  have passed : ((transport ["https://identitystore.eu-west-1.amazonaws.com"] sampleCredentials
      usersReader).call ⟨0, 0, []⟩ (usersRequest "ListUsers") (.answered usersResponse)).1.isSome =
        true := by
    decide +kernel
  have some_passed := Option.isSome_iff_exists.mp passed
  refine ⟨some_passed, users.1.mp some_passed, ?_⟩
  exact (exact.2.2 ⟨0, 0, []⟩ (usersRequest "DeleteUser") (.answered usersResponse)
    (fun name named => by
      have other : operation (usersRequest "DeleteUser") = some "DeleteUser" := by decide +kernel
      cases other.symm.trans named
      rfl) (fun none => by
      have other : operation (usersRequest "DeleteUser") = some "DeleteUser" := by decide +kernel
      cases other.symm.trans none)).2

end Permesh.IdentityCenter

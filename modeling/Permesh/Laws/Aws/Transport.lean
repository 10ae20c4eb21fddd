import Permesh.Aws.Transport
import Permesh.Laws.Aws.Pagination

/-!
# Laws.Aws.Transport — requests that go out and responses that come in

A request that a transport takes up and that asks for something known is sent, and what it gets back
within the limits is passed on where the transport says so (`call_within`). What asks for nothing known
is not sent (`call_unknown`).

The proof follows the transport from the request to the answer, once for what is sent and once for what
comes back. Signatures, connections and retries of the SDK are behind the parameters.
-/

namespace Permesh.Aws

open Permesh.Http

variable {T : Type} {t : Transport T} {traffic : Traffic} {request : HttpRequest}
  {body : List UInt8} {response : Response}

/-- A request that the transport takes up. -/
structure TakenUp (t : Transport T) (traffic : Traffic) (request : HttpRequest)
    (body : List UInt8) : Prop where
  method : request.method = "POST"
  address : ∃ url ∈ t.allowed, request.uri = url ∨ request.uri = url ++ "/"
  budget : traffic.attempts < t.attempts
  bytes : request.body = some body
  short : body.length ≤ 64 * 1024

/-- A response within the limits of size, whose headers are text. -/
structure WithinLimits (traffic : Traffic) (response : Response) : Prop where
  announced : ∀ length ∈ response.contentLength, length ≤ MAX_BODY
  whole : response.broken = false
  size : response.chunks.flatten.length ≤ MAX_BODY
  total : traffic.bytes + response.chunks.flatten.length ≤ MAX_TOTAL_BODY
  status : 100 ≤ response.status ∧ response.status < 1000
  headers : ∀ header ∈ response.headers, HeaderValue.toStr header.2 ≠ none

theorem receive_eq {total : Nat} {before : List UInt8} {chunks : List (List UInt8)}
    (size : before.length + chunks.flatten.length ≤ MAX_BODY)
    (all : total + chunks.flatten.length ≤ MAX_TOTAL_BODY) :
    receive false total before chunks =
      (some (before ++ chunks.flatten), total + chunks.flatten.length) := by
  induction chunks generalizing total before with
  | nil => simp [receive]
  | cons chunk chunks ih =>
    rw [List.flatten_cons, List.length_append] at size all
    rw [receive, if_neg (by omega), if_neg (by omega), ih]
    · rw [List.flatten_cons, List.append_assoc, List.length_append, Nat.add_assoc]
    · rw [List.length_append]
      omega
    · omega

theorem respond_some {bytes : List UInt8} (status : 100 ≤ response.status ∧ response.status < 1000)
    (text : ∀ header ∈ response.headers, HeaderValue.toStr header.2 ≠ none) :
    ∃ headers, respond response bytes = some ⟨response.status, headers, bytes⟩ := by
  have taken (headers : List (String × HeaderValue)) (out : List (String × String))
      (text : ∀ header ∈ headers, HeaderValue.toStr header.2 ≠ none) :
      ∃ all, headers.foldlM (fun headers (name, value) =>
        (HeaderValue.toStr value).map fun value => insertHeader name value headers) out = some all := by
    induction headers generalizing out with
    | nil => exact ⟨out, rfl⟩
    | cons header headers ih =>
      obtain ⟨name, value⟩ := header
      obtain ⟨first, rest⟩ := List.forall_mem_cons.mp text
      obtain ⟨written, eq⟩ := Option.ne_none_iff_exists'.mp first
      obtain ⟨all, done⟩ := ih (insertHeader name written out) rest
      change HeaderValue.toStr value = some written at eq
      refine ⟨all, ?_⟩
      rw [List.foldlM_cons]
      dsimp only
      rw [eq]
      exact done
  obtain ⟨all, eq⟩ := taken response.headers [] text
  refine ⟨all, ?_⟩
  rw [respond, if_pos status, eq]
  rfl

theorem respond_eq {bytes : List UInt8} {passed : HttpResponse}
    (h : respond response bytes = some passed) :
    passed.status = response.status ∧ passed.body = bytes := by
  unfold respond at h
  split at h
  · obtain ⟨headers, -, rfl⟩ := Option.map_eq_some_iff.mp h
    exact ⟨rfl, rfl⟩
  · cases h

theorem TakenUp.allowed (taken : TakenUp t traffic request body) :
    ¬(request.method ≠ "POST" ∨
      (t.allowed.any fun url => request.uri == url || request.uri == url ++ "/") = false) := by
  obtain ⟨url, mem, same⟩ := taken.address
  rintro (other | none)
  · exact other taken.method
  · rw [List.any_eq_false] at none
    exact none url mem (by simpa using same)

/-- **A response within the limits** is passed on if the transport says so. -/
theorem call_within {asked : T} (taken : TakenUp t traffic request body)
    (known : t.target request body = some asked) (within : WithinLimits traffic response) :
    (t.call traffic request (.answered response)).1 =
      if t.passes asked response.status response.chunks.flatten then
        respond response response.chunks.flatten
      else none := by
  have short : ¬(response.contentLength.any (· > MAX_BODY)) = true := by
    rw [Option.any_eq_true]
    rintro ⟨length, announced, long⟩
    exact absurd (within.announced length announced) (Nat.not_le.mpr (of_decide_eq_true long))
  have read : receive response.broken traffic.bytes [] response.chunks =
      (some response.chunks.flatten, traffic.bytes + response.chunks.flatten.length) := by
    rw [within.whole]
    exact receive_eq ((Nat.zero_add _).trans_le within.size) within.total
  unfold Transport.call
  rw [if_neg taken.allowed]
  dsimp only
  rw [if_neg (Nat.not_le.mpr taken.budget), taken.bytes, Option.filter_some,
    if_pos (decide_eq_true taken.short)]
  dsimp only
  rw [known]
  dsimp only
  rw [if_neg short, read]
  dsimp only
  split <;> rfl

/-- **A request that asks for nothing known** is not sent. -/
theorem call_unknown (unknown : ∀ body ∈ request.body, t.target request body = none)
    (exchange : Http.Exchange) : (t.call traffic request exchange).1 = none ∧
      (t.call traffic request exchange).2.sent = traffic.sent := by
  unfold Transport.call
  split
  · exact ⟨rfl, rfl⟩
  dsimp only
  split
  · exact ⟨rfl, rfl⟩
  split
  · exact ⟨rfl, rfl⟩
  case h_2 body bytes =>
    rw [unknown body (Option.filter_eq_some_iff.mp bytes).1]
    exact ⟨rfl, rfl⟩

/-- A page of the inventory is passed on if it says whether it is the last one. -/
theorem call_inventory {iam sts : String} {tokenizer : String → List (Option Token)}
    (written : ∀ text, Tokenized .content (tokenizer text) = true)
    (taken : TakenUp (transport iam sts tokenizer) traffic request body)
    (inventory : containsBytes (Text.asBytes "Action=GetAccountAuthorizationDetails") body = true)
    (within : WithinLimits traffic response) (ok : response.status = 200) :
    ((transport iam sts tokenizer).call traffic request (.answered response)).1.isSome = true ↔
      ∃ text, Text.fromUtf8 response.chunks.flatten = some text ∧
        ∃ f, ExplicitEnd (tokenizer text) f := by
  have known : (transport iam sts tokenizer).target request body = some true :=
    congrArg some inventory
  have passes : (transport iam sts tokenizer).passes true 200 response.chunks.flatten =
      explicitPagination tokenizer response.chunks.flatten := by
    simp [transport]
  have handed : ∃ headers, respond response response.chunks.flatten =
      some ⟨response.status, headers, response.chunks.flatten⟩ :=
    respond_some within.status within.headers
  obtain ⟨headers, handed⟩ := handed
  rw [call_within taken known within, ok, passes, handed, ← explicitPagination_iff written]
  cases explicitPagination tokenizer response.chunks.flatten <;> simp

end Permesh.Aws

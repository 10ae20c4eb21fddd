import Permesh.Aws.Records
import Permesh.Http

/-!
# Aws.Transport — what the SDK sends and gets back

`transport.rs` of the AWS provider and of its Identity Center connector: both let out requests to a few
addresses only, count them and the bytes that come back, and look into a response before the SDK sees
it. Where they differ is a parameter of `Transport`. The requests that were sent are kept beside the
counters.

A page of the inventory has to say whether it is the last one. Its text is cut into tokens by the crate
`xmlparser`, which is a parameter.
-/

namespace Permesh.Aws

open Permesh.Http

/-! ## Tokens -/

/-- `xmlparser::ElementEnd`: of a name, the local part is read only. -/
inductive ElementEnd where
  | opened
  | close (name : String)
  | empty
  deriving DecidableEq, Repr

/-- `xmlparser::Token`. -/
inductive Token where
  | declaration
  | processingInstruction
  | comment
  | dtdStart
  | emptyDtd
  | entityDeclaration
  | dtdEnd
  | elementStart (name : String)
  | attribute
  | elementEnd (kind : ElementEnd)
  | text (piece : String)
  | cdata
  deriving DecidableEq, Repr

/-- The path of the flag. -/
def IS_TRUNCATED : List String :=
  ["GetAccountAuthorizationDetailsResponse", "GetAccountAuthorizationDetailsResult", "IsTruncated"]

/-- The variables of the token loop. A body of 2 MiB cannot overflow `found`, an `i32`. -/
structure Scan where
  stack : List String
  found : Nat
  value : String

/-- The innermost element ends. -/
def Scan.leave (s : Scan) : Option Scan :=
  if s.stack = IS_TRUNCATED then
    if Text.trim s.value = "true" ∨ Text.trim s.value = "false" then
      some ⟨s.stack.dropLast, s.found + 1, ""⟩
    else none
  else some { s with stack := s.stack.dropLast }

/-- One turn of the loop, over a token or the error that the tokenizer ends with. -/
def Scan.step (s : Scan) : Option Token → Option Scan
  | some (.elementStart name) =>
    if (s.stack ++ [name]).length > 64 then none else some { s with stack := s.stack ++ [name] }
  | some (.text piece) =>
    some (if s.stack = IS_TRUNCATED then { s with value := s.value ++ piece } else s)
  | some (.elementEnd .opened) => some s
  | some (.elementEnd (.close name)) => if s.stack.getLast? = some name then s.leave else none
  | some (.elementEnd .empty) => s.leave
  | some .dtdStart | some .emptyDtd | some .entityDeclaration | none => none
  | some .declaration | some .processingInstruction | some .comment | some .dtdEnd
  | some .attribute | some .cdata => some s

/-- The loop of `explicit_pagination`, and what it is judged by. -/
def explicitTokens (tokens : List (Option Token)) : Bool :=
  match tokens.foldlM Scan.step ⟨[], 0, ""⟩ with
  | some s => s.found == 1 && s.stack.isEmpty
  | none => false

/-- `explicit_pagination`. -/
def explicitPagination (tokenizer : String → List (Option Token)) (bytes : List UInt8) : Bool :=
  match Text.fromUtf8 bytes with
  | some text => explicitTokens (tokenizer text)
  | none => false

/-! ## The transport -/

def MAX_BODY : Nat := 2 * 1024 * 1024
def MAX_TOTAL_BODY : Nat := 32 * 1024 * 1024

/-- A request of the SDK. A body that is not in memory has no bytes. -/
structure HttpRequest where
  method : String
  uri : String
  headers : List (String × String)
  body : Option (List UInt8)
  deriving DecidableEq

/-- A response for the SDK. -/
structure HttpResponse where
  status : Nat
  headers : List (String × String)
  body : List UInt8
  deriving DecidableEq

/-- What the requests of one client share: the counters, and the requests that were sent. -/
structure Traffic where
  attempts : Nat
  bytes : Nat
  sent : List HttpRequest

/-- `Transport`: the addresses, how many requests there may be, what a request asks for (nothing, if it
is none of the known ones), and whether a body may be passed on under its status. -/
structure Transport (T : Type) where
  allowed : List String
  attempts : Nat
  target : HttpRequest → List UInt8 → Option T
  passes : T → Nat → List UInt8 → Bool

/-- `windows(n).any(..)`: the bytes occur in a body. -/
def containsBytes (pattern : List UInt8) : List UInt8 → Bool
  | [] => pattern.isEmpty
  | b :: rest => pattern.isPrefixOf (b :: rest) || containsBytes pattern rest

/-- The chunks of a body behind `bytes`, and all bytes of the client. -/
def receive (broken : Bool) : (total : Nat) → (bytes : List UInt8) → List (List UInt8) →
    Option (List UInt8) × Nat
  | total, bytes, [] => (if broken then none else some bytes, total)
  | total, bytes, chunk :: chunks =>
    if chunk.length > MAX_BODY - bytes.length then (none, total)
    else if total + chunk.length > MAX_TOTAL_BODY then (none, total + chunk.length)
    else receive broken (total + chunk.length) (bytes ++ chunk) chunks

/-- `Headers::try_insert`: the value of a name is replaced. -/
def insertHeader (name value : String) (headers : List (String × String)) : List (String × String) :=
  headers.filter (·.1 != name) ++ [(name, value)]

/-- The response that is handed to the SDK. -/
def respond (response : Response) (bytes : List UInt8) : Option HttpResponse :=
  if 100 ≤ response.status ∧ response.status < 1000 then
    (response.headers.foldlM (fun headers (name, value) =>
      (HeaderValue.toStr value).map fun value => insertHeader name value headers) []).map fun headers =>
        ⟨response.status, headers, bytes⟩
  else none

/-- `call`, if `exchange` is what the request ends in when it is sent. -/
def Transport.call {T : Type} (t : Transport T) (traffic : Traffic) (request : HttpRequest)
    (exchange : Http.Exchange) : Option HttpResponse × Traffic :=
  if request.method ≠ "POST" ∨
      (t.allowed.any fun url => request.uri == url || request.uri == url ++ "/") = false then
    (none, traffic)
  else
    let before := traffic.attempts
    let traffic := { traffic with attempts := before + 1 }
    if before ≥ t.attempts then (none, traffic) else
    match request.body.filter (·.length ≤ 64 * 1024) with
    | none => (none, traffic)
    | some body =>
      match t.target request body with
      | none => (none, traffic)
      | some target =>
        let traffic := { traffic with sent := traffic.sent ++ [request] }
        match exchange with
        | .failed _ | .elapsed => (none, traffic)
        | .answered response =>
          if response.contentLength.any (· > MAX_BODY) then (none, traffic)
          else
            let (bytes, total) := receive response.broken traffic.bytes [] response.chunks
            let traffic := { traffic with bytes := total }
            match bytes with
            | none => (none, traffic)
            | some bytes =>
              if t.passes target response.status bytes then (respond response bytes, traffic)
              else (none, traffic)

/-- The transport of the provider: a page of the inventory has to say whether it is the last one. -/
def transport (iam sts : String) (tokenizer : String → List (Option Token)) : Transport Bool where
  allowed := [iam, sts]
  attempts := 600
  target _ body := some (containsBytes (Text.asBytes "Action=GetAccountAuthorizationDetails") body)
  passes inventory status bytes :=
    !(status == 200 && inventory && !explicitPagination tokenizer bytes)

end Permesh.Aws

import Permesh.Json
import Permesh.Url

/-!
# Http — requests and responses

A client sends its requests one after another; the server's side of the run is the exchange that
each of them ends in. `body` and `noRetry` are what the bounded clients share: a body is read chunk
by chunk under a limit, and a response with status 429 or 5xx is retried twice, unless a header
forbids it.
-/

namespace Permesh.Http

open Permesh.Json

/-- The bytes of a header value. -/
abbrev HeaderValue := List UInt8

/-- `HeaderValue::to_str`: visible ASCII only. -/
def HeaderValue.toStr (v : HeaderValue) : Option String :=
  if v.all fun b => (0x20 ≤ b && b < 0x7f) || b == 0x09 then
    some (.ofList (v.map fun b => Char.ofNat b.toNat))
  else none

/-- A header value with this text. -/
def HeaderValue.ofString (s : String) : HeaderValue := s.toByteArray.data.toList

/-- The fields of a response in the order they came, by lower case name. -/
abbrev HeaderMap := List (String × HeaderValue)

/-- `HeaderMap::get_all`. -/
def HeaderMap.getAll (h : HeaderMap) (name : String) : List HeaderValue :=
  (h.filter (·.1 == name)).map Prod.snd

/-- `HeaderMap::get`: the first value. -/
def HeaderMap.get (h : HeaderMap) (name : String) : Option HeaderValue := (h.getAll name).head?

structure Response where
  status : Nat
  headers : HeaderMap
  contentLength : Option Nat
  chunks : List (List UInt8)
  /-- Reading fails behind the last chunk. -/
  broken : Bool

/-- What one request ends in. -/
inductive Exchange where
  /-- The request could not be sent. -/
  | failed (isTimeout : Bool)
  /-- The deadline of the request passed, before or while the body was read. -/
  | elapsed
  | answered (response : Response)

/-- What lies outside of a client: the exchanges, by the number of the request, and the decoder of
documents. -/
structure Net where
  server : Nat → Exchange
  /-- `serde_json::from_slice`. -/
  decode : List UInt8 → Option Value

/-- Chunks are added up to the limit. -/
def readChunks (limit : Nat) (broken : Bool) : List UInt8 → List (List UInt8) →
    Except String (List UInt8)
  | bytes, [] => if broken then .error "transport" else .ok bytes
  | bytes, chunk :: chunks =>
    if bytes.length + chunk.length > limit then .error "limit"
    else readChunks limit broken (bytes ++ chunk) chunks

/-- The body of a response, or the code of the error. -/
def Response.body (limit : Nat) (r : Response) : Except String (List UInt8) :=
  if r.contentLength.any (· > limit) then .error "limit"
  else readChunks limit r.broken [] r.chunks

def isServerError (status : Nat) : Bool := 500 ≤ status && status < 600

def isSuccess (status : Nat) : Bool := 200 ≤ status && status < 300

/-- A response that may be tried again. -/
def retryable (status : Nat) : Bool := status == 429 || isServerError status

/-- The error that a retryable response ends the request with, if there is no further attempt. A
numeric `retry-after` above the bound forbids it. -/
def noRetry (bound attempt status : Nat) (headers : HeaderMap) : Option String :=
  if attempt = 2 then some (if status = 429 then "rate_limit" else "transport")
  else
    match headers.get "retry-after" with
    | some value =>
      if ((value.toStr.bind Text.parseU64).any (· ≤ bound)) then none else some "rate_limit"
    | none => if status = 429 then some "rate_limit" else none

end Permesh.Http

import Permesh.Lib.Schedule
import Permesh.Native.Request

/-!
# Native.Io — frames in, frames out

`Input::frame` collects bytes up to the next newline under two limits. `Output::send` serializes
one envelope under two limits and hands it to the writer. The loops over the reader and the
writer are the scheduler's (`Lib.Machine`); here is what they do with the bytes.
-/

namespace Permesh.Native

open Permesh.Lib

def MAX_TOTAL : Nat := 64 * MAX_FRAME

inductive Failure where
  | protocol | internal | unavailable | cancelled
  | provider (code : String)
  deriving DecidableEq, Repr

def Failure.code : Failure → String
  | .protocol => "protocol_error"
  | .internal => "internal"
  | .unavailable => "unavailable"
  | .cancelled => "internal"
  | .provider code => code

/-- The newline that ends a frame. -/
def newline : UInt8 := 10

/-! ## Input -/

/-- `Input`: the bytes of `buffer[start..end]`, the bytes consumed so far, and the frame that the
current call of `frame` is collecting. -/
structure Input where
  buffer : List UInt8
  total : Nat
  frame : List UInt8
  deriving DecidableEq, Repr

def Input.new : Input := ⟨[], 0, []⟩

/-- How much of the buffer belongs to the current frame. -/
def Input.count (i : Input) : Nat :=
  match i.buffer.findIdx? (· == newline) with
  | some k => k + 1
  | none => i.buffer.length

/-- `Input::frame` up to the next read. A frame without its newline has taken the whole buffer. -/
def Input.scan (i : Input) : Input × Option (Except Failure (List UInt8)) :=
  if i.buffer = [] then (i, none)
  else if MAX_FRAME - i.frame.length < i.count ∨ MAX_TOTAL - i.total < i.count then
    (i, some (.error .protocol))
  else
    let frame := i.frame ++ i.buffer.take i.count
    let rest : Input := ⟨i.buffer.drop i.count, i.total + i.count, []⟩
    if frame.getLast? = some newline then (rest, some (.ok frame))
    else ({ rest with frame := frame }, none)

/-- One `read`, which finds the buffer empty. -/
def Input.feed (i : Input) (chunk : List UInt8) : Input := { i with buffer := i.buffer ++ chunk }

/-- `Input::frame`, with a reader that returns these chunks and then ends: the chunks that are left,
and the result. A chunk without bytes is the end of the input. -/
def Input.nextFrame (i : Input) : List (List UInt8) →
    Input × List (List UInt8) × Except Failure (List UInt8)
  | [] =>
    match i.scan with
    | (i, some r) => (i, [], r)
    | (i, none) => (i, [], .error .protocol)
  | chunk :: chunks =>
    match i.scan with
    | (i, some r) => (i, chunk :: chunks, r)
    | (i, none) =>
      if chunk = [] then (i, chunks, .error .protocol) else (i.feed chunk).nextFrame chunks

/-- The results of at most `n` calls, up to the first error. -/
def Input.frames (i : Input) (chunks : List (List UInt8)) : Nat → List (Except Failure (List UInt8))
  | 0 => []
  | n + 1 =>
    match i.nextFrame chunks with
    | (i, chunks, .ok frame) => .ok frame :: i.frames chunks n
    | (_, _, .error e) => [.error e]

/-- The states of an input, at any point of any run: bytes arrive when the buffer is empty, the loop
goes on with what is buffered, and a call may end before it has a frame. -/
inductive Input.Reached : Input → Prop
  | new : Reached .new
  | feed {i : Input} (h : Reached i) (empty : i.buffer = []) (chunk : List UInt8) :
    Reached (i.feed chunk)
  | scan {i : Input} (h : Reached i) : Reached i.scan.1
  | drop {i : Input} (h : Reached i) : Reached { i with frame := [] }

/-! ## Output -/

variable {K : Crates}

/-- The events of the runtime, with the fields of their JSON objects. `draft` is always true and
`status` always `"ok"`. -/
inductive Event (K : Crates) where
  | handshake (provider : String) (capabilities : List Wire.Capability)
      (operations : Option (List String)) (features : Option (List String))
  | setup (spec : K.SetupSpec)
  | auth (spec : K.BrowserAuthSpec)
  | health (limitations : List String)
  | record (record : Wire.Record)
  | complete (count : Nat) (complete : Bool) (limitations : List String)
  | cancelled
  | error (code : String)

/-- `Output`, without its writer. -/
structure Output where
  total : Nat
  contract : RequestContract
  id : String
  deriving DecidableEq, Repr

def Output.new : Output := ⟨0, .negotiatedV1, "handshake"⟩

/-- The object that one frame carries. -/
structure Envelope (K : Crates) where
  protocol : Option Nat
  protocolVersion : Option Nat
  id : String
  event : Event K

def Output.envelope (out : Output) (event : Event K) : Envelope K where
  protocol :=
    match out.contract with
    | .negotiatedV1 => none
    | .legacySetup => some 3
    | .legacyAuth => some 4
  protocolVersion := if out.contract = .negotiatedV1 then some 1 else none
  id := out.id
  event := event

/-- `Limited::write`, for the pieces that the serializer writes one after the other. -/
def limited : List (List UInt8) → List UInt8 → Option (List UInt8)
  | [], frame => some frame
  | bytes :: rest, frame =>
    if MAX_FRAME - 1 - frame.length < bytes.length then none else limited rest (frame ++ bytes)

/-- `serde_json::to_writer`, as the pieces it writes. A compact document escapes control characters
and puts no white space between tokens, so no piece holds a newline. -/
structure Serializer (K : Crates) where
  pieces : Envelope K → List (List UInt8)
  plain : ∀ envelope, ∀ bytes ∈ pieces envelope, newline ∉ bytes

/-- `Output::send` up to the first poll of the writer. -/
def Output.begin (ser : Serializer K) (out : Output) (event : Event K) :
    Except Failure (List UInt8 × Output) :=
  match limited (ser.pieces (out.envelope event)) [] with
  | none => .error .internal
  | some json =>
    let frame := json ++ [newline]
    if MAX_TOTAL - out.total < frame.length then .error .internal
    else .ok (frame, { out with total := out.total + frame.length })

/-- `Output::send` with a writer that takes and flushes the frame in time, or does not: the frame that
it is offered, if any, and the result. -/
def Output.send (ser : Serializer K) (out : Output) (event : Event K) (taken : Bool) :
    Output × Option (List UInt8) × Except Failure Unit :=
  match out.begin ser event with
  | .error e => (out, none, .error e)
  | .ok (frame, out) => (out, some frame, if taken then .ok () else .error .unavailable)

/-- A call of `send`, with the contract and the identifier that are set before it. -/
structure SendCall (K : Crates) where
  contract : RequestContract
  id : String
  event : Event K
  taken : Bool

/-- The output as a call finds it. -/
def Output.set (out : Output) (call : SendCall K) : Output :=
  { out with contract := call.contract, id := call.id }

/-- The output behind some calls, and the frames that were offered. -/
def Output.sends (ser : Serializer K) (out : Output) (calls : List (SendCall K)) :
    Output × List (List UInt8) :=
  calls.foldl (fun (out, offered) call =>
    let (out, frame, _) := (out.set call).send ser call.event call.taken
    (out, offered ++ frame.toList)) (out, [])

end Permesh.Native

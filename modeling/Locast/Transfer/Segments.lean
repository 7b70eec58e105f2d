import Locast.Lib.Pool
import Mathlib.Algebra.BigOperators.Group.List.Basic
import Mathlib.Data.List.TakeDrop

/-!
# Frames as segments of a data channel

A data channel carries messages of at most 16384 bytes.  `WebRtcTransport::send` cuts a frame into
numbered segments and writes one after another; the peer's pump puts them together again, with room
for one open frame.
-/

namespace Locast.Transfer

open Locast.Lib

/-- Bytes. -/
abbrev Bytes : Type := List UInt8

/-- `MAX_FRAME_BYTES`. -/
def maxFrameBytes : ℕ := 1024 * 1024

/-- `MAX_SCTP_SEGMENT_PAYLOAD`: a message without the header of a segment. -/
def segmentPayload : ℕ := 16384 - 4

/-- `MAX_REASSEMBLED_BYTES`. -/
def maxReassembledBytes : ℕ := maxFrameBytes + 4

/-- `div_ceil`. -/
def divCeil (n m : ℕ) : ℕ := (n + m - 1) / m

/-- `MAX_SEGMENTS_PER_FRAME`. -/
def maxSegmentsPerFrame : ℕ := divCeil maxReassembledBytes segmentPayload

inductive TransportError where
  | closed
  | cancelled
  | frameTooLarge (size max : ℕ)
  | io (message : String)
  | channelClosed
  | backpressurePaused
  deriving DecidableEq

def TransportError.display : TransportError → String
  | closed => "transport closed"
  | cancelled => "transport cancelled"
  | frameTooLarge size max => "frame too large: " ++ toString size ++ " > " ++ toString max
  | io message => "transport io error: " ++ message
  | channelClosed => "transport channel closed unexpectedly"
  | backpressurePaused => "transport backpressured: paused"

/-! ### Sending -/

/-- `u16::to_be_bytes`. -/
def toBeBytes (n : ℕ) : Bytes := [UInt8.ofNat (n / 256), UInt8.ofNat n]

/-- `u16::from_be_bytes`. -/
def fromBeBytes (a b : UInt8) : ℕ := a.toNat * 256 + b.toNat

/-- `total_segments` of a frame. -/
def totalSegments (frame : Bytes) : ℕ := divCeil frame.length segmentPayload % 2 ^ 16

/-- The `i`-th chunk of a frame. -/
def piece (frame : Bytes) (i : ℕ) : Bytes := (frame.drop (i * segmentPayload)).take segmentPayload

/-- One message: the number of segments, the number of this one, and its bytes. -/
def message (total index : ℕ) (payload : Bytes) : Bytes :=
  toBeBytes total ++ toBeBytes index ++ payload

/-- The messages of a frame. -/
def messages (frame : Bytes) : List Bytes :=
  (List.range (divCeil frame.length segmentPayload)).map fun i =>
    message (totalSegments frame) i (piece frame i)

/-- The one effect of a send: a message is written to the channel. -/
inductive Write where
  | dcSend (msg : Bytes)
  deriving DecidableEq

/-- The channel takes the message or reports an error. -/
def Write.Resp (_ : Write) : Type := Except String Unit

/-- Writes messages until one fails. -/
def writeAll : List Bytes → Prog Write Write.Resp (Except TransportError Unit)
  | [] => .ret (.ok ())
  | msg :: msgs => .op (.dcSend msg) fun (r : Except String Unit) =>
    match r with
    | .error e => .ret (.error (.io e))
    | .ok () => writeAll msgs

/-- `WebRtcTransport::send`. -/
def send (frame : Bytes) : Prog Write Write.Resp (Except TransportError Unit) :=
  if maxReassembledBytes < frame.length then
    .ret (.error (.frameTooLarge (min frame.length (2 ^ 32 - 1)) (maxFrameBytes + 4)))
  else writeAll (messages frame)

/-- The messages on the channel, in order; a message that fails is not among them. -/
def Write.handle : (e : Write) → Option String → List Bytes → Option (e.Resp × List Bytes)
  | .dcSend _, some e, sent => some (.error e, sent)
  | .dcSend msg, none, sent => some (.ok (), sent ++ [msg])

/-- Any number of tasks that send frames over one channel. -/
def channelSystem :
    System Write Write.Resp Bytes (Except TransportError Unit) (List Bytes) (Option String) where
  program := send
  handle := Write.handle

/-! ### Receiving -/

/-- Why an inbound segment was refused. -/
inductive SegmentError where
  | noOpenFrame
  | badTotal (total : ℕ)
  | totalChanged (expected got : ℕ)
  | outOfOrder (expected got : ℕ)
  | tooLarge
  deriving DecidableEq

/-- The one frame currently being reassembled. -/
structure PendingFrame where
  totalSegments : ℕ
  received : ℕ
  payload : Bytes
  deriving DecidableEq

/-- `Reassembler`: its field `open`. -/
abbrev Reassembler : Type := Option PendingFrame

/-- `push_inner`: the frame that the segment completes, and what stays open. -/
def Reassembler.pushInner (total index : ℕ) (payload : Bytes) (r : Reassembler) :
    Except SegmentError (Option Bytes × Reassembler) :=
  if total = 0 ∨ maxSegmentsPerFrame < total then .error (.badTotal total)
  else
    -- a segment 0 begins a new frame; an unfinished one is abandoned
    match (if index = 0 then some ⟨total, 0, []⟩ else r) with
    | none => .error .noOpenFrame
    | some frame =>
      if frame.totalSegments ≠ total then .error (.totalChanged frame.totalSegments total)
      else if index ≠ frame.received then .error (.outOfOrder frame.received index)
      else if maxReassembledBytes < frame.payload.length + payload.length then .error .tooLarge
      else
        let frame' : PendingFrame :=
          { frame with payload := frame.payload ++ payload, received := frame.received + 1 }
        if frame'.received = frame'.totalSegments then .ok (some frame'.payload, none)
        else .ok (none, some frame')

/-- `push`: an error also discards the open frame. -/
def Reassembler.push (total index : ℕ) (payload : Bytes) (r : Reassembler) :
    Except SegmentError (Option Bytes) × Reassembler :=
  match r.pushInner total index payload with
  | .error e => (.error e, none)
  | .ok (frame, r') => (.ok frame, r')

/-- The receive pump: the frames it has delivered, and the violation that ended it. -/
structure Pump where
  reassembler : Reassembler
  delivered : List Bytes
  violation : Option SegmentError
  deriving DecidableEq

def Pump.start : Pump := ⟨none, [], none⟩

/-- The pump handles a message; after a violation it handles none. -/
def Pump.onMessage (p : Pump) (msg : Bytes) : Pump :=
  if p.violation.isSome then p
  else
    match msg with
    | a :: b :: c :: d :: payload =>
      match p.reassembler.push (fromBeBytes a b) (fromBeBytes c d) payload with
      | (.error e, r) => { p with reassembler := r, violation := some e }
      | (.ok none, r) => { p with reassembler := r }
      | (.ok (some frame), r) => { p with reassembler := r, delivered := p.delivered ++ [frame] }
    | _ => p

/-- The pump after these messages. -/
def pump (msgs : List Bytes) : Pump := msgs.foldl Pump.onMessage .start

end Locast.Transfer

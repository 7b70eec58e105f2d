import Locast.Lib.Trace
import Locast.Transfer.Plan
import Locast.Transfer.Wire
import Mathlib.Data.Finset.Card

/-!
# The sender's half of a transfer

`SenderSession::run`: it awaits a `Hello`, sends the `Offer`, and then answers `Request` and `Nak`
with chunks of the host's file.  It keeps the set of chunks the receiver has, from the `Hello` and
from every `Ack`, and answers a `Request` for one of these with an `Ack`.
-/

namespace Locast.Transfer

open Locast.Lib

inductive SessionError where
  | wire (e : WireError)
  | transport (e : TransportError)
  | storage (message : String)
  | peerMismatch (expected actual : String)
  | chunkOutOfRange (index total : ℕ)
  | cancelled
  | io (message : String)
  deriving DecidableEq

/-- How a send ends: the cancellation token fires first, the codec refuses the frame, or the
transport answers. -/
inductive SendOutcome where
  | sent
  | cancelled
  | malformed (e : WireError)
  | failed (e : TransportError)
  deriving DecidableEq

/-- How a receive ends. -/
inductive RecvOutcome where
  | frame (f : Frame)
  | undecodable (e : WireError)
  | cancelled
  | timedOut
  | failed (e : TransportError)
  | ended
  deriving DecidableEq

/-- What a sender does; the wait in its loop shows the set `have` it waits with. -/
inductive SenderEffect where
  | send (frame : Frame)
  | awaitHello
  | await (had : Finset ℕ)
  | readFile (offset length : ℕ)
  deriving DecidableEq

def SenderEffect.Resp : SenderEffect → Type
  | send _ => SendOutcome
  | awaitHello => RecvOutcome
  | await _ => RecvOutcome
  | readFile _ _ => Except String Bytes

/-- A part of a session. -/
abbrev SenderProg (α : Type) : Type :=
  Prog SenderEffect SenderEffect.Resp (Except SessionError α)

/-- What a session is given: the digest and base64 of the code it calls. -/
structure Primitives where
  sha256Hex : Bytes → String
  base64Encode : Bytes → String

namespace SenderSession

variable {α : Type}

/-- `send_frame`: a closed transport is a cancellation. -/
def sendFrame (frame : Frame) (k : SenderProg α) : SenderProg α :=
  .op (.send frame) fun (out : SendOutcome) =>
    match out with
    | .sent => k
    | .cancelled => .ret (.error .cancelled)
    | .malformed e => .ret (.error (.wire e))
    | .failed .closed => .ret (.error .cancelled)
    | .failed .channelClosed => .ret (.error .cancelled)
    | .failed e => .ret (.error (.transport e))

/-- `await_frame`: the frame, or the error it ends with. -/
def received (label : String) : RecvOutcome → Except SessionError Frame
  | .frame f => .ok f
  | .undecodable e => .error (.wire e)
  | .cancelled => .error .cancelled
  | .timedOut => .error (.io (label ++ " recv timed out after 60s"))
  | .failed e => .error (.transport e)
  | .ended => .error (.transport .channelClosed)

/-- `read_chunk_at`, with the host's check of its own file. -/
def readChunkAt (prims : Primitives) (chunk : PlannedChunk) (k : Bytes × String → SenderProg α) :
    SenderProg α :=
  .op (.readFile chunk.offset chunk.length) fun (r : Except String Bytes) =>
    match r with
    | .error e => .ret (.error (.io e))
    | .ok bytes =>
      if prims.sha256Hex bytes = chunk.sha256 then k (bytes, chunk.sha256)
      else .ret (.error (.io ("host self-verify: chunk sha256 mismatch: got " ++
        prims.sha256Hex bytes ++ ", expected " ++ chunk.sha256)))

/-- Answers with the chunk of an index. -/
def sendChunk (prims : Primitives) (plan : DownloadPlan) (index : ℕ) (k : SenderProg α) :
    SenderProg α :=
  match plan.chunks.find? fun c => c.index == index with
  | none => .ret (.error (.chunkOutOfRange index (asU32 plan.chunks.length)))
  | some chunk => readChunkAt prims chunk fun out =>
    sendFrame (.chunk ⟨plan.downloadId, chunk.index, prims.base64Encode out.1, out.2⟩) k

/-- The loop; `none` when the fuel ends before the session does. -/
def loop (prims : Primitives) (plan : DownloadPlan) : ℕ → Finset ℕ → SenderProg (Option Unit)
  | 0, _ => .ret (.ok none)
  | fuel + 1, had => .op (.await had) fun (out : RecvOutcome) =>
    match received "request" out with
    | .error (.transport .closed) => .ret (.ok (some ()))
    | .error (.transport .channelClosed) => .ret (.ok (some ()))
    | .error .cancelled => .ret (.ok (some ()))
    | .error e => .ret (.error e)
    | .ok frame =>
      match frame with
      | .request req =>
        if req.chunkIndex ∈ had then
          sendFrame (.ack ⟨plan.downloadId, req.chunkIndex⟩) (loop prims plan fuel had)
        else sendChunk prims plan req.chunkIndex (loop prims plan fuel had)
      | .ack ack =>
        if plan.sourceMeta.totalChunks ≤ ack.chunkIndex then
          .ret (.error (.chunkOutOfRange ack.chunkIndex plan.sourceMeta.totalChunks))
        else
          let had' := insert ack.chunkIndex had
          if plan.sourceMeta.totalChunks ≤ asU32 had'.card then .ret (.ok (some ()))
          else loop prims plan fuel had'
      | .nak nak => sendChunk prims plan nak.chunkIndex (loop prims plan fuel had)
      | .cancel _ => .ret (.ok (some ()))
      | .error e => .ret (.error (.io ("peer error: " ++ e.reason)))
      | other => .ret (.error (.wire (.malformed ("unexpected frame kind: " ++ other.kind.debug))))

/-- `run_after_hello`. -/
def runAfterHello (prims : Primitives) (plan : DownloadPlan) (hello : HelloFrame)
    (sanitizedFilename : String) (fuel : ℕ) : SenderProg (Option Unit) :=
  let total := plan.sourceMeta.totalChunks
  let offer : Frame := .offer {
    peerId := plan.source.peerId
    downloadId := plan.downloadId
    mediaId := plan.mediaId
    manifestVersion := plan.manifestVersion
    totalBytes := plan.sizeBytes
    chunkSizeBytes := chunkSizeBytes
    totalChunks := total
    sha256 := plan.sha256
    blake3 := plan.blake3
    filename := sanitizedFilename }
  sendFrame offer <| Prog.bind
    (loop prims plan fuel (hello.haveChunks.filter (· < total)).toFinset) fun r =>
      match r with
      | .error .cancelled => .ret (.ok (some ()))
      | r => .ret r

/-- The text of the error for a `Hello` that is not about the plan. -/
def mismatch (plan : DownloadPlan) (hello : HelloFrame) : String :=
  "Hello/download_id/media_id/manifest_version mismatch (plan " ++ plan.downloadId ++ " / " ++
    plan.mediaId ++ " / " ++ toString plan.manifestVersion ++ ", hello " ++ hello.downloadId ++
    " / " ++ hello.mediaId ++ " / " ++ toString hello.manifestVersion ++ ")"

/-- `SenderSession::run`. -/
def run (prims : Primitives) (plan : DownloadPlan) (sanitizedFilename : String) (fuel : ℕ) :
    SenderProg (Option Unit) :=
  .op .awaitHello fun (out : RecvOutcome) =>
    match received "hello" out with
    | .error e => .ret (.error e)
    | .ok (.hello hello) =>
      if hello.peerId ≠ plan.source.peerId then
        .ret (.error (.peerMismatch plan.source.peerId hello.peerId))
      else if hello.downloadId ≠ plan.downloadId ∨ hello.mediaId ≠ plan.mediaId ∨
          hello.manifestVersion ≠ plan.manifestVersion then
        .ret (.error (.wire (.malformed (mismatch plan hello))))
      else runAfterHello prims plan hello sanitizedFilename fuel
    | .ok _ => .ret (.error (.wire (.malformed "expected Hello")))

end SenderSession

end Locast.Transfer

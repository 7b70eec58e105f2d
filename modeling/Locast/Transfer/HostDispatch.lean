import Locast.Lib.AssocMap
import Locast.Lib.Machine
import Locast.Transfer.Codec
import Locast.Transfer.SenderSession

/-!
# The host's dispatch of senders

A sender is attached to each `files` channel once.  It waits until a verified manifest of the
current room is there, keeps that manifest, and answers the first `Hello` from it.
-/

namespace Locast.Transfer

open Locast.Lib
open Protocol (MediaEntry MediaManifest)

section Dispatch

variable (nfc : List Char → List Char) (fromSlice : Bytes → Except String Frame)
  (resolve : String → Except String String) (hostPeerId : String)

/-! ### One sender -/

/-- What `run_sender` hands to the session: the plan, the `Hello`, the path and the file name. -/
structure Attached where
  plan : DownloadPlan
  hello : HelloFrame
  sourcePath : String
  filename : String

/-- The checks of `run_sender` on the entry that a `Hello` names. -/
def serveEntry (manifestVersion : ℕ) (hello : HelloFrame) (entry : MediaEntry) :
    Except SessionError Attached :=
  if entry.sources = [] then .error (.wire (.malformed "manifest entry has no sources"))
  else if (entry.sources.find? fun s => s.peerId == hostPeerId).isNone then
    .error (.wire (.malformed "manifest entry has no host source"))
  else
    match resolve entry.id with
    | .error e => .error (.storage e)
    | .ok path =>
      match planDownload hello.downloadId entry.id manifestVersion entry hostPeerId with
      | .error e => .error (.storage ("plan_download: " ++ e.display))
      | .ok plan => .ok ⟨plan, hello, path, entry.filename⟩

/-- `run_sender`, up to the session: the first frame is a `Hello` for an entry of the manifest. -/
def runSender (manifest : MediaManifest) (raw : Bytes) : Except SessionError Attached :=
  match decode nfc fromSlice raw with
  | .error e => .error (.wire e)
  | .ok (.hello hello, _) =>
    match manifest.media.find? fun m => m.id == hello.mediaId with
    | none => .error (.wire (.malformed ("media_id " ++ hello.mediaId ++ " not in manifest")))
    | some entry => serveEntry resolve hostPeerId manifest.manifestVersion hello entry
  | .ok _ => .error (.wire (.malformed "expected Hello"))

/-! ### All senders -/

/-- How far the sender of a channel is. -/
inductive SenderState where
  | waiting
  | ready (manifest : MediaManifest)
  | serving (attached : Attached)
  | ended

/-- The sender holds the slot of its peer. -/
def SenderState.live : SenderState → Bool
  | ready _ | serving _ => true
  | waiting | ended => false

structure ChannelSender where
  peer : String
  state : SenderState

/-- The dispatch: the verified manifest of the current room, and the open channels. -/
structure Host where
  current : Option MediaManifest
  channels : AMap ℕ ChannelSender

def Host.init : Host := ⟨none, ∅⟩

/-- A sender of the peer is live already. -/
def Host.taken (peer : String) (h : Host) : Bool :=
  h.channels.entries.any fun e => e.2.peer == peer && e.2.state.live

def Host.put (c : ℕ) (sender : ChannelSender) (h : Host) : Host :=
  { h with channels := h.channels.insert c sender }

inductive HostInput where
  | manifest (m : Option MediaManifest)
  | opened (c : ℕ) (peer : String)
  | woken (c : ℕ)
  | hello (c : ℕ) (raw : Bytes)
  | finished (c : ℕ)
  | closed (c : ℕ)

/-- What happens to the sender of a channel, which is there. -/
def Host.onSender (f : ChannelSender → Option SenderState) (c : ℕ) (h : Host) : Option Host :=
  match h.channels.get c with
  | none => none
  | some sender => (f sender).map fun state => h.put c { sender with state := state }

/-- `spawn_for_dc` and the task it spawns. -/
def hostDispatch : Machine Host HostInput
  | h, .manifest m => some { h with current := m }
  | h, .opened c peer =>
    if (h.channels.get c).isSome then none
    else some (h.put c ⟨peer, if h.taken peer then .ended else .waiting⟩)
  | h, .woken c => h.onSender (fun sender =>
      match sender.state, h.current with
      | .waiting, some m => some (if h.taken sender.peer then .ended else .ready m)
      | _, _ => none) c
  | h, .hello c raw => h.onSender (fun sender =>
      match sender.state with
      | .ready m =>
        match runSender nfc fromSlice resolve hostPeerId m raw with
        | .ok attached => some (.serving attached)
        | .error _ => some .ended
      -- nobody reads the frame
      | state => some state) c
  | h, .finished c => h.onSender (fun sender =>
      match sender.state with
      | .serving _ => some .ended
      | _ => none) c
  | h, .closed c => some { h with channels := h.channels.erase c }

end Dispatch

end Locast.Transfer

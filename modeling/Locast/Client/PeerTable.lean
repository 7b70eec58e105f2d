import Locast.Lib.AssocMap
import Locast.Lib.Pool
import Locast.Protocol.Room

/-!
# The table of peer connections (`net/webrtc.rs`)

The manager holds one connection for each remote user.  A connection reports what happens to it
through its pump, which hands the manager the remote's id and not the connection.  Sections under
the manager's lock are effects; between two of them anything else may happen.

A connection is numbered when it is put into the table.  Beside the manager's own state, the model
keeps which connection was added last for each remote and which ones the manager has closed.
-/

namespace Locast.Client

open Locast.Lib Locast.Protocol

/-! ### Data -/

inductive PeerPhase where
  | new
  | offerSent
  | answerReceived
  | connected
  | failed
  deriving DecidableEq

/-- An entry of the table; `conn` is the connection it holds. -/
structure PeerEntry where
  conn : ℕ
  dc : Option ℕ
  phase : PeerPhase
  initiator : Bool
  restarts : ℕ
  deriving DecidableEq

/-- The manager's state, the connection last added for each remote, the connections the manager has
closed, and the number of the next connection. -/
structure PeerTable where
  roomId : Option Uuid
  peers : AMap Uuid PeerEntry
  added : AMap Uuid ℕ
  closed : List ℕ
  nextConn : ℕ

def PeerTable.empty : PeerTable := ⟨none, ∅, ∅, [], 0⟩

inductive ConnectionState where
  | connected
  | failed
  | closed
  /-- `New`, `Connecting`, `Disconnected`. -/
  | other
  deriving DecidableEq

inductive SignalKind where
  | offer
  | answer
  | ice
  deriving DecidableEq

/-- `ICE_RESTART_LIMIT`. -/
def iceRestartLimit : ℕ := 1

/-- `ROOM_PARTICIPANT_CAP`. -/
def roomParticipantCap : ℕ := 8

/-! ### Sections -/

inductive PeerAct where
  /-- The local user's id, once it is known. -/
  | localUser
  /-- Drops who left and picks who is to be added. -/
  | retain (roomId : Uuid) (participants : List Uuid) (me : Uuid)
  | buildPeerConnection
  /-- The data channel and the offer of an initiator. -/
  | offer
  | insert (remote : Uuid) (initiator : Bool) (phase : PeerPhase) (dc : Option ℕ)
  /-- Drops every entry. -/
  | drain
  | setConnected (remote : Uuid)
  | setFailed (remote : Uuid)
  | restartIce
  | setRestarted (remote : Uuid)
  /-- Takes the entry out of the table and closes its connection. -/
  | remove (remote : Uuid)
  | adopt (remote : Uuid) (dc : ℕ)
  /-- The room id that goes into an outgoing SIGNAL. -/
  | readRoom
  | contains (remote : Uuid)
  | applySignal (remote : Uuid) (kind : SignalKind)

/-- What a section gives back. -/
abbrev PeerAct.Result : PeerAct → Type
  | localUser => Option Uuid
  | retain _ _ _ => List (Uuid × Bool)
  | buildPeerConnection => Bool
  | offer => Option ℕ
  | setFailed _ => Option ℕ
  | restartIce => Bool
  | contains _ => Bool
  | _ => Unit

/-- What the environment decides: the local user, whether a call succeeds, and a new channel. -/
structure PeerInput where
  me : Option Uuid
  ok : Bool
  dc : ℕ

namespace PeerTable

/-- Takes an entry out of the table and closes its connection. -/
def remove (remote : Uuid) (t : PeerTable) : PeerTable :=
  match t.peers.get remote with
  | none => t
  | some e => { t with peers := t.peers.erase remote, closed := e.conn :: t.closed }

/-- Changes an entry, if it is there. -/
def modify (remote : Uuid) (f : PeerEntry → PeerEntry) (t : PeerTable) : PeerTable :=
  match t.peers.get remote with
  | none => t
  | some e => { t with peers := t.peers.insert remote (f e) }

/-- The participants to add: no entry yet, in order, while the table has room. -/
def targets (me : Uuid) (t : PeerTable) : List Uuid → List (Uuid × Bool) → List (Uuid × Bool)
  | [], acc => acc
  | uid :: rest, acc =>
    if uid = me then t.targets me rest acc
    else if (t.peers.get uid).isSome then t.targets me rest acc
    else if roomParticipantCap ≤ t.peers.size + acc.length then acc
    else t.targets me rest (acc ++ [(uid, decide (me < uid))])

/-- The locked part of `on_room_state_changed`. -/
def retain (roomId : Uuid) (participants : List Uuid) (me : Uuid) (t : PeerTable) :
    List (Uuid × Bool) × PeerTable :=
  let gone := t.peers.keys.filter fun uid => decide (uid ∉ participants)
  let t := gone.foldl (fun t uid => t.remove uid) { t with roomId := some roomId }
  if roomParticipantCap < t.peers.size then ([], t) else (t.targets me participants [], t)

/-- The locked part of `on_room_left`. -/
def drain (t : PeerTable) : PeerTable :=
  { t.peers.keys.foldl (fun t uid => t.remove uid) t with roomId := none }

/-- Puts a new connection into the table. -/
def insert (remote : Uuid) (initiator : Bool) (phase : PeerPhase) (dc : Option ℕ) (t : PeerTable) :
    PeerTable :=
  { t with
    peers := t.peers.insert remote ⟨t.nextConn, dc, phase, initiator, 0⟩
    added := t.added.insert remote t.nextConn
    nextConn := t.nextConn + 1 }

end PeerTable

/-- What an applied SIGNAL does to the entry. -/
def PeerEntry.signalled (kind : SignalKind) (ok : Bool) (e : PeerEntry) : PeerEntry :=
  match kind with
  | .offer => if !e.initiator && ok then { e with phase := .answerReceived } else e
  | .answer => if e.initiator && ok then { e with phase := .answerReceived } else e
  | .ice => e

def PeerAct.handle : (a : PeerAct) → PeerInput → PeerTable → Option (a.Result × PeerTable)
  | localUser, inp, t => some (inp.me, t)
  | retain roomId participants me, _, t => some (t.retain roomId participants me)
  | buildPeerConnection, inp, t => some (inp.ok, t)
  | offer, inp, t => some (if inp.ok then some inp.dc else none, t)
  | insert remote initiator phase dc, _, t => some ((), t.insert remote initiator phase dc)
  | drain, _, t => some ((), t.drain)
  | setConnected remote, _, t => some ((), t.modify remote fun e => { e with phase := .connected })
  | setFailed remote, _, t =>
    some ((t.peers.get remote).map (·.restarts),
      t.modify remote fun e => { e with phase := .failed })
  | restartIce, inp, t => some (inp.ok, t)
  | setRestarted remote, _, t =>
    some ((), t.modify remote fun e => { e with restarts := e.restarts + 1, phase := .offerSent })
  | remove remote, _, t => some ((), t.remove remote)
  | adopt remote dc, _, t => some ((), t.modify remote fun e => { e with dc := some dc })
  | readRoom, _, t => some ((), t)
  | contains remote, _, t => some ((t.peers.get remote).isSome, t)
  | applySignal remote kind, inp, t => some ((), t.modify remote (·.signalled kind inp.ok))

/-! ### Programs -/

abbrev PeerProg : Type := Prog PeerAct PeerAct.Result Unit

/-- One section. -/
def act (a : PeerAct) : Prog PeerAct PeerAct.Result a.Result := Prog.perform a

/-- `add_peer`. -/
def addPeer (target : Uuid × Bool) : PeerProg := do
  if ← act .buildPeerConnection then
    if target.2 then
      match ← act .offer with
      | some dc => act (.insert target.1 true .offerSent (some dc))
      | none => pure ()
    else act (.insert target.1 false .new none)

/-- `on_room_state_changed`. -/
def onRoomStateChanged (roomId : Uuid) (participants : List Uuid) : PeerProg := do
  match ← act .localUser with
  | none => pure ()
  | some me =>
    let targets ← act (.retain roomId participants me)
    Prog.forEach addPeer targets

/-- `on_room_left`. -/
def onRoomLeft : PeerProg := act .drain

/-- `on_connection_state`. -/
def onConnectionState (remote : Uuid) : ConnectionState → PeerProg
  | .connected => act (.setConnected remote)
  | .failed => do
    match ← act (.setFailed remote) with
    | none => pure ()
    | some restarts =>
      if restarts < iceRestartLimit then
        if ← act .restartIce then act (.setRestarted remote) else act (.remove remote)
      else act (.remove remote)
  | .closed => act (.remove remote)
  | .other => pure ()

/-- `on_inbound_data_channel`, of a channel with the `files` label or another one. -/
def onInboundDataChannel (remote : Uuid) (dc : ℕ) (files : Bool) : PeerProg :=
  if files then act (.adopt remote dc) else pure ()

/-- `handle_local_ice_candidate`. -/
def handleLocalIceCandidate : PeerProg := act .readRoom

/-- `handle_inbound_signal`, of a verified SIGNAL. -/
def handleInboundSignal (sender : Uuid) (kind : SignalKind) : PeerProg := do
  if ← act (.contains sender) then act (.applySignal sender kind)

/-- What a connection reports to its pump. -/
inductive PeerEvent where
  | iceCandidate
  | dataChannel (dc : ℕ) (files : Bool)
  | stateChange (state : ConnectionState)

inductive PeerOp where
  | roomState (roomId : Uuid) (participants : List Uuid)
  | roomLeft
  | signal (sender : Uuid) (kind : SignalKind)
  /-- The pump of the connection `conn` to `remote` hands on an event. -/
  | event (conn : ℕ) (remote : Uuid) (ev : PeerEvent)

def PeerOp.program : PeerOp → PeerProg
  | roomState roomId participants => onRoomStateChanged roomId participants
  | roomLeft => onRoomLeft
  | signal sender kind => handleInboundSignal sender kind
  | event _ _ .iceCandidate => handleLocalIceCandidate
  | event _ remote (.dataChannel dc files) => onInboundDataChannel remote dc files
  | event _ remote (.stateChange state) => onConnectionState remote state

def peerSystem : System PeerAct PeerAct.Result PeerOp Unit PeerTable PeerInput where
  program := PeerOp.program
  handle := PeerAct.handle

end Locast.Client

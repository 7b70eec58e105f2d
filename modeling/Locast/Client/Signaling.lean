import Locast.Client.ManifestTrust
import Locast.Lib.JsonValue
import Locast.Lib.Machine

/-!
# The client's signaling link (`net/signaling.rs`)

Sending an envelope is a section under the lock, which reads the bearer, the phase and the queue,
and then, the lock given back, an encoding step and a push.  The connection loop runs beside any
number of these: it empties the queue, opens a socket, shakes hands, and writes the queue to the
socket until the connection ends.
-/

namespace Locast.Client

open Locast.Lib Locast.Lib.JsonText Locast.Protocol

/-! ### Envelopes -/

abbrev Token : Type := Vector UInt8 32

/-- An envelope to be sent; `head` is what is copied unread. -/
structure OutEnvelope (α : Type) where
  head : α
  payload : Json

/-- `as_object`. -/
def asObject : Json → Option (List (String × Json))
  | .object entries => some entries
  | _ => none

/-- `Map::insert`, the order of the members apart. -/
def insertEntry (key : String) (value : Json) (entries : List (String × Json)) :
    List (String × Json) :=
  (key, value) :: entries.filter (·.1 ≠ key)

def bearerArray (token : Token) : Json := .array (token.toList.map fun b => .number b.toNat)

/-- The envelope with the bearer in its payload. -/
def withBearer {α : Type} (token : Token) (env : OutEnvelope α) : OutEnvelope α where
  head := env.head
  payload := .object (insertEntry "bearer" (bearerArray token) ((asObject env.payload).getD []))

/-- The bearer that an envelope carries. -/
def carried {α : Type} (env : OutEnvelope α) : Option Json :=
  (asObject env.payload).bind (·.lookup "bearer")

inductive SendError where
  | notConnected
  | protocol (message : String)
  | oversizedFrame (bytes cap : ℕ)
  deriving DecidableEq

/-- The encoder of the wire, and the cap of a frame. -/
structure FrameLimits (α : Type) where
  encodedLen : OutEnvelope α → Except String ℕ
  maxFrameBytes : ℕ

/-! ### The state -/

inductive ConnPhase where
  | disconnected
  | connecting
  | handshaking
  | authenticated
  | reconnecting
  | shuttingDown
  deriving DecidableEq

structure BearerRecord where
  userId : Uuid
  pubkey : PubKey
  token : Token
  expiresMs : ℤ

/-- What `run_handshake` knows. -/
structure Handshake where
  welcome : Bool
  nonce : Bool
  authSent : Bool
  resumeTokenHeld : Bool
  sentResume : Bool
  frames : ℕ
  deriving DecidableEq

/-- Where the connection loop is: with the end of a connection to report, before an attempt,
emptying the queue, opening the socket, saying hello, shaking hands, with `AUTH_OK` in hand, idle,
or not running. -/
inductive LoopAt where
  | ended
  | waiting
  | draining
  | connecting
  | hello
  | handshaking (h : Handshake)
  | authenticated
  | idle
  | stopped
  deriving DecidableEq

/-- What the section under the lock read; `connection` is kept for the statements only. -/
structure Captured where
  token : Token
  tx : ℕ
  connection : ℕ

/-- A `send_envelope` or a `send_envelopes_paced` call, which holds the session it began in.
`asked` is kept for the statements only. -/
structure SendCall (α : Type) where
  session : Option Token
  envs : List (OutEnvelope α)
  captured : Option Captured
  result : Option (Except SendError Unit)
  asked : List (OutEnvelope α)

/-- A frame in the queue.  All but the envelope is kept for the statements only: the call it is of,
which push it was, and the connection whose queue it was then. -/
structure QueuedFrame (α : Type) where
  env : OutEnvelope α
  call : ℕ
  number : ℕ
  queuedFor : ℕ

structure WrittenFrame (α : Type) where
  connection : ℕ
  frame : QueuedFrame α

/-- `outboundTx` is the queue that senders are given, `receiving` whether the loop still reads from
it. `connection` counts how often the loop has emptied the queue; the bearers of `AUTH_OK`, the
pushes and the writes are kept for the statements only. -/
structure LinkState (α : Type) where
  phase : ConnPhase
  bearer : Option BearerRecord
  resumeToken : Option (List UInt8)
  outboundTx : Option ℕ
  receiving : Bool
  queue : List (QueuedFrame α)
  loop : LoopAt
  connection : ℕ
  calls : List (SendCall α)
  issued : List (ℕ × Token)
  pushed : List (QueuedFrame α)
  written : List (WrittenFrame α)

def LinkState.new {α : Type} : LinkState α where
  phase := .disconnected
  bearer := none
  resumeToken := none
  outboundTx := none
  receiving := false
  queue := []
  loop := .stopped
  connection := 0
  calls := []
  issued := []
  pushed := []
  written := []

variable {α : Type}

/-! ### Sending -/

/-- The section under the lock of `send_envelope_in_session`. -/
def capture (s : LinkState α) (session : Option Token) : Except SendError Captured :=
  match s.bearer with
  | none => .error .notConnected
  | some b =>
    if session.any (· ≠ b.token) then
      .error (.protocol ("the connection was re-established while a multi-frame message" ++
        "                                   was being sent"))
    else if s.phase ≠ .authenticated then
      .error (.protocol "signaling not authenticated (the connection is being re-established)")
    else match s.outboundTx with
      | none => .error (.protocol "signaling not connected")
      | some tx => .ok ⟨b.token, tx, s.connection⟩

/-- A call comes to its end. -/
def SendCall.finish (c : SendCall α) (r : Except SendError Unit) : SendCall α :=
  { c with captured := none, result := some r }

/-- One envelope of a call is sent. -/
def SendCall.next (c : SendCall α) : SendCall α :=
  { c with
    envs := c.envs.tail
    captured := none
    result := if c.envs.tail.isEmpty then some (.ok ()) else none }

def LinkState.setCall (s : LinkState α) (i : ℕ) (c : SendCall α) : LinkState α :=
  { s with calls := s.calls.set i c }

def sendEnvelope (env : OutEnvelope α) (s : LinkState α) : LinkState α :=
  { s with calls := s.calls ++ [⟨none, [env], none, none, [env]⟩] }

/-- `send_envelopes_paced` up to its first frame. -/
def sendEnvelopesPaced (envs : List (OutEnvelope α)) (s : LinkState α) : LinkState α :=
  match s.bearer with
  | none => { s with calls := s.calls ++ [⟨none, envs, none, some (.error .notConnected), envs⟩] }
  | some b =>
    { s with
      calls := s.calls ++
        [⟨some b.token, envs, none, if envs.isEmpty then some (.ok ()) else none, envs⟩] }

def lockSection (i : ℕ) (c : SendCall α) (s : LinkState α) : LinkState α :=
  match capture s c.session with
  | .error e => s.setCall i (c.finish (.error e))
  | .ok captured => s.setCall i { c with captured := some captured }

/-- The frame a call pushes next. -/
def LinkState.frame (s : LinkState α) (i : ℕ) (captured : Captured) (env : OutEnvelope α) :
    QueuedFrame α :=
  ⟨withBearer captured.token env, i, s.pushed.length, s.connection⟩

/-- The rest of `send_envelope_in_session`. -/
def pushFrame (limits : FrameLimits α) (i : ℕ) (c : SendCall α) (captured : Captured)
    (env : OutEnvelope α) (s : LinkState α) : LinkState α :=
  match limits.encodedLen (withBearer captured.token env) with
  | .error e => s.setCall i (c.finish (.error (.protocol ("could not encode envelope: " ++ e))))
  | .ok len =>
    if limits.maxFrameBytes < len then
      s.setCall i (c.finish (.error (.oversizedFrame len limits.maxFrameBytes)))
    else if s.receiving = true ∧ s.outboundTx = some captured.tx then
      { s.setCall i c.next with
        queue := s.queue ++ [s.frame i captured env]
        pushed := s.pushed ++ [s.frame i captured env] }
    else s.setCall i (c.finish (.error (.protocol "ws send queue closed")))

/-! ### The handshake -/

structure AuthOkPayload where
  userId : Uuid
  token : List UInt8
  expiresMs : ℤ
  pubkey : List UInt8
  resumeToken : Option (List UInt8)

/-- An envelope of the server while hands are shaken; a payload that does not parse is an error. -/
inductive HandshakeFrame where
  | withRoom
  | welcome (parsed : Except String Unit)
  | challenge (nonce : Except String (List UInt8))
  | authOk (p : Except String AuthOkPayload)
  | authFail (reason : Except String String)
  | other (kind : String)

inductive HandshakeResult where
  | authFailed (message : String)
  | resumeRejected
  | protocolError (message : String)

inductive HandshakeStep where
  | goOn (h : Handshake)
  | authenticated (b : BearerRecord) (resumeToken : Option (List UInt8))
  | ended (r : HandshakeResult)

/-- `AUTH`, or `AUTH_RESUME` with the bearer of before, once welcome and challenge are there. -/
def sendAuth (bearer : Option BearerRecord) (h : Handshake) : Handshake :=
  if h.welcome = true ∧ h.nonce = true ∧ h.authSent = false then
    let canResume := bearer.isSome && h.resumeTokenHeld
    { h with
      authSent := true
      resumeTokenHeld := h.resumeTokenHeld && !canResume
      sentResume := h.sentResume || canResume }
  else h

def frameLimit : ℕ := 16

/-- The end of a round of the loop of `run_handshake`. -/
def nextFrame (bearer : Option BearerRecord) (h : Handshake) : HandshakeStep :=
  let h := { sendAuth bearer h with frames := h.frames + 1 }
  if h.frames < frameLimit then .goOn h
  else .ended (.protocolError "handshake frame limit exceeded")

def readAuthOk (p : AuthOkPayload) : HandshakeStep :=
  match sized 32 p.token, sized 32 p.pubkey with
  | none, _ => .ended (.protocolError s!"bad bearer length: {p.token.length}")
  | some _, none => .ended (.protocolError s!"bad pubkey length: {p.pubkey.length}")
  | some token, some pubkey =>
    .authenticated ⟨p.userId, pubkey, token, p.expiresMs⟩ p.resumeToken

/-- A round of the loop of `run_handshake`. -/
def runHandshake (bearer : Option BearerRecord) (h : Handshake) : HandshakeFrame → HandshakeStep
  | .withRoom => .ended (.protocolError "room_id set during handshake")
  | .welcome (.error e) => .ended (.protocolError s!"bad WELCOME: {e}")
  | .welcome (.ok _) => nextFrame bearer { h with welcome := true }
  | .challenge (.error e) => .ended (.protocolError s!"bad CHALLENGE: {e}")
  | .challenge (.ok nonce) =>
    if nonce.length ≠ 32 then .ended (.protocolError s!"bad nonce length: {nonce.length}")
    else nextFrame bearer { h with nonce := true }
  | .authOk p =>
    if h.authSent = false then .ended (.protocolError "AUTH_OK without prior AUTH")
    else match p with
      | .error e => .ended (.protocolError s!"bad AUTH_OK: {e}")
      | .ok p => readAuthOk p
  | .authFail (.error e) => .ended (.protocolError s!"bad AUTH_FAIL: {e}")
  | .authFail (.ok message) =>
    .ended (if h.sentResume = true then .resumeRejected else .authFailed message)
  | .other kind => .ended (.protocolError s!"unexpected type during handshake: {kind}")

/-! ### The connection loop -/

/-- `record_failure`, and the way back to the top of the loop. -/
def recordFailure (s : LinkState α) : LinkState α :=
  { s with phase := .reconnecting, bearer := none, loop := .waiting }

def handshakeEnded : HandshakeResult → LinkState α → LinkState α
  | .resumeRejected, s => { s with resumeToken := none, bearer := none, loop := .waiting }
  | _, s => recordFailure s

local instance : LawfulBEq Token := inferInstance

/-- A frame of the server while hands are shaken. A new handshake always issues a new bearer. -/
def handshakeFrame (h : Handshake) (f : HandshakeFrame) (s : LinkState α) : Option (LinkState α) :=
  match runHandshake s.bearer h f with
  | .goOn h => some { s with loop := .handshaking h }
  | .ended r => some (handshakeEnded r s)
  | .authenticated b resumeToken =>
    if b.token ∈ s.issued.map (·.2) then none
    else some
      { s with
        bearer := some b
        resumeToken := resumeToken
        phase := .authenticated
        loop := .authenticated
        issued := (s.connection, b.token) :: s.issued }

/-- The first frame of the queue is taken, and written unless the socket fails. -/
def writeFrame (ok : Bool) (f : QueuedFrame α) (s : LinkState α) : LinkState α :=
  if ok then
    { s with queue := s.queue.tail, written := s.written ++ [⟨s.connection, f⟩] }
  else { s with queue := s.queue.tail, loop := .ended }

/-- `start`, and the queue that the new loop installs. -/
def startLoop (s : LinkState α) : LinkState α :=
  { s with
    phase := .disconnected
    bearer := none
    resumeToken := none
    outboundTx := some (s.outboundTx.getD 0 + 1)
    receiving := true
    loop := .waiting }

/-- A step of the loop: what it finds, or what the socket and the server do. -/
inductive LoopInput where
  | reconnecting
  | connecting
  | discard
  | drained
  | opened
  | helloSent
  | failed
  | frame (f : HandshakeFrame)
  | enterIdle
  | write (ok : Bool)
  | disconnected
  | cancelled
  | start

/-- An attempt that can still fail. -/
def LoopAt.attempting : LoopAt → Bool
  | .connecting | .hello | .handshaking _ | .authenticated => true
  | _ => false

def LoopAt.handshake : LoopAt → Option Handshake
  | .handshaking h => some h
  | _ => none

/-- `connection_loop`. -/
def loopStep (s : LinkState α) : LoopInput → Option (LinkState α)
  | .reconnecting =>
    if s.loop = .ended then some { s with phase := .reconnecting, loop := .waiting } else none
  | .connecting =>
    if s.loop = .waiting then some { s with phase := .connecting, loop := .draining } else none
  | .discard =>
    if s.loop = .draining ∧ s.queue.isEmpty = false then some { s with queue := s.queue.tail }
    else none
  | .drained =>
    if s.loop = .draining ∧ s.queue.isEmpty = true then
      some { s with loop := .connecting, connection := s.connection + 1 }
    else none
  | .opened =>
    if s.loop = .connecting then some { s with phase := .handshaking, loop := .hello } else none
  | .helloSent =>
    if s.loop = .hello then
      some { s with loop := .handshaking ⟨false, false, false, s.resumeToken.isSome, false, 0⟩ }
    else none
  | .failed => if s.loop.attempting then some (recordFailure s) else none
  | .frame f => s.loop.handshake.bind fun h => handshakeFrame h f s
  | .enterIdle => if s.loop = .authenticated then some { s with loop := .idle } else none
  | .write ok => if s.loop = .idle then s.queue.head?.map fun f => writeFrame ok f s else none
  | .disconnected => if s.loop = .idle then some { s with loop := .ended } else none
  | .cancelled =>
    if s.loop = .stopped then none
    else some { s with phase := .shuttingDown, loop := .stopped, queue := [], receiving := false }
  | .start => if s.loop = .stopped then some (startLoop s) else none

inductive LinkInput (α : Type) where
  | sendEnvelope (env : OutEnvelope α)
  | sendEnvelopesPaced (envs : List (OutEnvelope α))
  | lockSection (i : ℕ)
  | push (i : ℕ)
  | loop (i : LoopInput)

/-- The steps of the calls and of the loop, in any order. -/
def linkMachine (limits : FrameLimits α) : Machine (LinkState α) (LinkInput α)
  | s, .sendEnvelope env => some (sendEnvelope env s)
  | s, .sendEnvelopesPaced envs => some (sendEnvelopesPaced envs s)
  | s, .lockSection i => s.calls[i]?.bind fun c =>
    if c.result.isNone ∧ c.captured.isNone then some (lockSection i c s) else none
  | s, .push i => s.calls[i]?.bind fun c => c.captured.bind fun captured =>
    c.envs.head?.map fun env => pushFrame limits i c captured env s
  | s, .loop i => loopStep s i

end Locast.Client

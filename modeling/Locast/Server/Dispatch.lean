import Locast.Rooms.Validation
import Locast.Server.Registry

/-!
# Dispatch (`rooms/dispatch.rs`, `rooms/caps.rs`, `ws/mod.rs`)

One envelope of an authenticated connection: the capability gate, the handler of its kind, and the
publishes of the connection's task afterwards.
-/

namespace Locast.Server

open Locast.Lib Locast.Protocol Locast.Rooms

namespace Proc

open Prog

/-! ### The capability gate (`caps.rs`) -/

/-- `is_user_in_room`. -/
def isUserInRoom (userId id : Uuid) : Proc Bool := do
  let registered ← isRegistered id
  if registered then do
    let s ← read id
    pure (s.participants.any fun p => p.userId == userId && p.status.isPresent)
  else pure false

/-- `is_room_host`. -/
def isRoomHost (id userId : Uuid) : Proc Bool := do
  let registered ← isRegistered id
  if registered then do
    let s ← read id
    pure (s.participants.any fun p => p.userId == userId && p.isHost && p.status ≠ .left)
  else pure false

/-- `can`. -/
def can (userId id : Uuid) (scope : Scope) (action : Action) : Proc Bool := do
  let registered ← isRegistered id
  if registered then do
    let s ← read id
    pure (s.can userId scope action)
  else pure false

/-- `has_live_participant_record`, on the rooms of a scan. -/
def hasLiveRecordIn (userId : Uuid) : List Uuid → Proc Bool
  | [] => pure false
  | id :: ids => do
    let s ← read id
    if s.state ≠ .ended && s.isMember userId then pure true else hasLiveRecordIn userId ids

/-- Succeeds on `true`. -/
def orError (e : CapsError) (b : Bool) : Except CapsError Unit := if b then .ok () else .error e

/-- What the gate asks in the named room, once the caller is in it. -/
def checkInRoom (userId id : Uuid) (command : Command) : Proc (Except CapsError Unit) :=
  match command with
  | .publishManifest | .permissionSet => do
    let host ← isRoomHost id userId
    pure (orError .notHost host)
  | .drawUndo => do
    let own ← can userId id .drawing .undoOwnStroke
    if own then pure (.ok ())
    else do
      let any ← can userId id .drawing .undoAnyStroke
      pure (orError .notHost any)
  | .drawClear => do
    let may ← can userId id .drawing .clearAll
    pure (orError .notHost may)
  | _ =>
    match command.toScopeAction with
    | some (scope, action) => do
      let may ← can userId id scope action
      pure (orError .notHost may)
    | none => pure (.ok ())

/-- `check_capability`. -/
def checkCapability (userId : Uuid) (roomId : Option Uuid) (command : Command) :
    Proc (Except CapsError Unit) :=
  match command with
  | .roomCreate | .roomJoinRequest | .roomLeave => pure (.ok ())
  | .presence =>
    match roomId with
    | some id => do
      let member ← isUserInRoom userId id
      pure (orError .notMember member)
    | none => do
      let ids ← rooms
      let member ← hasLiveRecordIn userId ids
      pure (orError .notMember member)
  | _ =>
    match roomId with
    | none => pure (.error .notMember)
    | some id => do
      let member ← isUserInRoom userId id
      if !member then pure (.error .notMember)
      else checkInRoom userId id command

/-! ### Room lifecycle -/

def handleRoomCreate (p : Except String RoomCreatePayload) (userId : Uuid) (pubkey : PubKey)
    (nowMs : ℤ) : Proc RoomDispatchOutcome :=
  match p with
  | .error e =>
    pure (.ofError RoomError.invalidState.code ("bad ROOM_CREATE payload: " ++ e) none)
  | .ok payload =>
    match validateRoomTitle payload.title with
    | .error _ => pure (.ofError .invalidState
        "title invalid: at most 80 characters, no control characters" none)
    | .ok () => do
      let created ← create payload.title userId pubkey payload.migrationEnabled nowMs
      match created with
      | .error e => pure (.ofError e.code e.message none)
      | .ok (room, you) =>
        let reply : Reply :=
          { roomId := some room.id, sender := none, payload := .roomCreated room you }
        pure { RoomDispatchOutcome.empty with toCaller := [reply] }

def handleRoomJoinRequest (p : Except String RoomJoinRequestPayload) (userId : Uuid)
    (pubkey : PubKey) (nowMs : ℤ) : Proc RoomDispatchOutcome :=
  match p with
  | .error e =>
    pure (.ofError RoomError.invalidState.code ("bad ROOM_JOIN_REQUEST payload: " ++ e) none)
  | .ok payload =>
    match normalizeCode payload.code with
    | none => pure (.ofError .invalidCode "invalid room code" none)
    | some code =>
      match validateDisplayName payload.displayName with
      | .error e => pure (.ofError .invalidState ("display_name invalid: " ++ e.message) none)
      | .ok () => do
        let joined ← join code userId pubkey payload.displayName nowMs
        match joined with
        | .error e => pure (.ofError e.code e.message none)
        | .ok (joined, _) =>
          let reply : Reply :=
            { roomId := some joined.room.id, sender := none, payload := .roomJoined joined }
          pure { RoomDispatchOutcome.empty with toCaller := [reply] }

/-- The registry has published a leave's events, so none are returned. -/
def handleRoomLeave (userId : Uuid) (roomId : Option Uuid) (nowMs : ℤ) :
    Proc RoomDispatchOutcome := do
  let left ← leaveRoom userId roomId true nowMs
  match left with
  | .error e => pure (.ofError e.code e.message none)
  | .ok _ => pure .empty

def handlePresence (userId : Uuid) (nowMs : ℤ) : Proc RoomDispatchOutcome := do
  touch userId nowMs
  pure .empty

/-! ### Commands that publish under the lock -/

/-- The wire code of a refused `MANIFEST_PUBLISH`. -/
def manifestPublishCode : RoomError → RoomErrorCode
  | .notHost => .notHost
  | .notJoined => .notJoined
  | .invalidState => .invalidState
  | .roomClosed => .roomClosed
  | _ => .internal

/-- The reply to a refused `MANIFEST_PUBLISH`. -/
def manifestPublishError (e : RoomError) : RoomDispatchOutcome :=
  .ofError (manifestPublishCode e) e.message none

def handleManifestPublish (crates : Crates) (envelope : Envelope)
    (p : Except String MediaManifest) (userId : Uuid) (pubkey : PubKey) :
    Proc RoomDispatchOutcome :=
  match p, envelope.roomId with
  | .error _, _ | .ok _, none => pure (manifestPublishError .invalidState)
  | .ok manifest, some id =>
    match manifestRefusal crates id pubkey manifest with
    | some e => pure (manifestPublishError e)
    | none => do
      let registered ← isRegistered id
      if !registered then pure (manifestPublishError .notJoined)
      else do
        let published ← locked id (.manifestPublish userId pubkey manifest)
        match published with
        | .error e => pure (manifestPublishError e)
        | .ok c => do
          putManifest id c
          publishManifest id c
          pure .empty

def handlePlaybackCmd (envelope : Envelope) (p : Except String PlaybackCommandPayload)
    (userId : Uuid) (pubkey : PubKey) : Proc RoomDispatchOutcome :=
  match envelope.roomId, p with
  | none, _ => pure (playbackReject .noRoomId)
  | some _, .error e => pure (playbackReject (.badPayload e))
  | some id, .ok payload => do
    let registered ← isRegistered id
    if !registered then pure (playbackReject .notJoined)
    else do
      let accepted ← locked id (.playbackCmd userId pubkey payload)
      match accepted with
      | .error e => pure (playbackReject e)
      | .ok _ => pure .empty

/-- The reply to a refused `PERMISSION_SET`. -/
def permissionSetError (e : RoomError) : RoomDispatchOutcome :=
  let code : RoomErrorCode := match e with
    | .notHost => .notHost
    | _ => .internal
  .ofError code e.message none

def handlePermissionSet (envelope : Envelope) (p : Except String PermissionSetPayload)
    (userId : Uuid) : Proc RoomDispatchOutcome :=
  match envelope.roomId, p with
  | none, _ => pure (permissionSetError (.internal "PERMISSION_SET missing room_id"))
  | some _, .error e => pure (permissionSetError (.internal ("permission_set payload: " ++ e)))
  | some id, .ok payload =>
    if payload.targetUserId = userId then
      pure (permissionSetError (.internal "PERMISSION_SET: cannot modify own capabilities"))
    else do
      let registered ← isRegistered id
      if !registered then pure (permissionSetError .roomNotFound)
      else do
        let done ← locked id (.permissionSet userId payload)
        match done with
        | .error e => pure (permissionSetError e)
        | .ok _ => pure .empty

/-- What the five drawing handlers share: the named room, the caller in it, then one write
section. -/
def inNamedRoom (kind : String) (envelope : Envelope) (userId : Uuid)
    (act : Uuid → Proc RoomDispatchOutcome) : Proc RoomDispatchOutcome :=
  match envelope.roomId with
  | none => pure (.defaultReject (kind ++ " requires envelope.room_id"))
  | some id => do
    let member ← isUserInRoom userId id
    if !member then pure (.defaultReject "drawing sender is not in the named room")
    else do
      let registered ← isRegistered id
      if !registered then pure (.defaultReject "drawing target room not found")
      else act id

def handleStrokeBegin (envelope : Envelope) (p : Except String StrokeBeginPayload) (userId : Uuid)
    (pubkey : PubKey) : Proc RoomDispatchOutcome := do
  let nowMs ← clock
  inNamedRoom "DRAW_BEGIN" envelope userId fun id =>
    locked id (.strokeBegin envelope p userId pubkey nowMs)

def handleStrokePoint (envelope : Envelope) (p : Except String StrokePointPayload)
    (userId : Uuid) : Proc RoomDispatchOutcome :=
  inNamedRoom "DRAW_POINT" envelope userId fun id => locked id (.strokePoint envelope p userId)

def handleStrokeEnd (envelope : Envelope) (p : Except String StrokeEndPayload) (userId : Uuid) :
    Proc RoomDispatchOutcome :=
  inNamedRoom "DRAW_END" envelope userId fun id => locked id (.strokeEnd envelope p userId)

def handleStrokeUndo (envelope : Envelope) (p : Except String StrokeUndoPayload) (userId : Uuid) :
    Proc RoomDispatchOutcome :=
  inNamedRoom "DRAW_UNDO" envelope userId fun id => locked id (.strokeUndo envelope p userId)

def handleStrokeClear (envelope : Envelope) (userId : Uuid) : Proc RoomDispatchOutcome :=
  inNamedRoom "DRAW_CLEAR" envelope userId fun id => locked id (.strokeClear userId)

/-! ### Replies and relays -/

/-- The wire code of a refused `MANIFEST_REQUEST`. -/
def manifestFetchCode : RoomError → RoomErrorCode
  | .notHost => .notHost
  | .notJoined => .notJoined
  | .invalidState => .invalidState
  | _ => .internal

/-- The reply to a refused `MANIFEST_REQUEST`. -/
def manifestFetchError (e : RoomError) : RoomDispatchOutcome :=
  .ofError (manifestFetchCode e) e.message none

/-- The frames of a manifest for the caller. -/
def manifestReplies (crates : Crates) (roomId : Uuid) (c : CachedManifest) : List Reply :=
  match crates.splitResponse c.manifest c.version c.publishedAtMs with
  | some parts =>
    parts.map fun part => { roomId := some roomId, sender := none, payload := .manifestPart part }
  | none =>
    let p : ManifestPublishedPayload := ⟨c.manifest, c.version, c.publishedAtMs⟩
    [{ roomId := some roomId, sender := none, payload := .manifestResponse p }]

def handleManifestFetch (crates : Crates) (envelope : Envelope) (p : Except String Uuid)
    (userId : Uuid) : Proc RoomDispatchOutcome :=
  match p, envelope.roomId with
  | .error _, _ | .ok _, none => pure (manifestFetchError .invalidState)
  | .ok _, some id => do
    let member ← isUserInRoom userId id
    if !member then pure (manifestFetchError .notJoined)
    else do
      let cached ← currentManifest id
      match cached with
      | none => pure (manifestFetchError .invalidState)
      | some c => pure { RoomDispatchOutcome.empty with toCaller := manifestReplies crates id c }

inductive SignalError where
  | missingSender
  | identityMismatch
  | badSignature
  | badPayload (message : String)
  | oversized (bytes : ℕ)
  | senderNotInRoom
  | recipientNotInRoom
  | selfSignal

/-- The `Display` text. -/
def SignalError.message : SignalError → String
  | missingSender => "missing sender signature"
  | identityMismatch => "sender identity does not match bearer"
  | badSignature => "bad signature"
  | badPayload message => "payload decode failed: " ++ message
  | oversized bytes => "oversized signal envelope: " ++ toString bytes ++ " bytes (cap 65536)"
  | senderNotInRoom => "sender is not a participant of the room"
  | recipientNotInRoom => "recipient is not a participant of the room"
  | selfSignal => "cannot signal self"

/-- The wire code. -/
def SignalError.code : SignalError → RoomErrorCode
  | senderNotInRoom | recipientNotInRoom => .notJoined
  | _ => .invalidState

/-- `error_outcome`. -/
def signalError (e : SignalError) : RoomDispatchOutcome := .ofError e.code e.message none

/-- `SIGNAL_MAX_BYTES`. -/
def signalMaxBytes : ℕ := 64 * 1024

/-- The checks of `handle_signal` that read no shared state, up to the room it names. -/
def signalRefusal (envelope : Envelope) (payload : SignalPayload) (userId : Uuid)
    (pubkey : PubKey) : Option SignalError :=
  match envelope.sender with
  | none => some .missingSender
  | some sender =>
    if sender.userId ≠ userId then some .identityMismatch
    else if sender.pubkey ≠ pubkey.toList then some .identityMismatch
    else if payload.toUserId = userId then some .selfSignal
    else none

/-- The Ed25519 check of `handle_signal`. -/
def signalVerified (crates : Crates) (envelope : Envelope) (payload : SignalPayload)
    (pubkey : PubKey) : Bool :=
  envelope.sender.any fun sender =>
    sender.sig.length = 64 && crates.verifySignal pubkey payload sender.sig

def handleSignal (crates : Crates) (envelope : Envelope) (p : Except String SignalPayload)
    (userId : Uuid) (pubkey : PubKey) : Proc RoomDispatchOutcome :=
  if signalMaxBytes < envelope.serializedLen then
    pure (signalError (.oversized envelope.serializedLen))
  else match p with
  | .error e => pure (signalError (.badPayload e))
  | .ok payload =>
    match signalRefusal envelope payload userId pubkey, envelope.roomId with
    | some e, _ => pure (signalError e)
    | none, none => pure (signalError .senderNotInRoom)
    | none, some id => do
      let sender ← isUserInRoom userId id
      if !sender then pure (signalError .senderNotInRoom)
      else do
        let recipient ← isUserInRoom payload.toUserId id
        if !recipient then pure (signalError .recipientNotInRoom)
        else if !signalVerified crates envelope payload pubkey then
          pure (signalError .badSignature)
        else do
          let delivered ← relay payload.toUserId
          if delivered then pure .empty else pure (signalError .recipientNotInRoom)

inductive PresenceError where
  | notJoined
  | badPayload (message : String)

/-- `From<PresenceError> for RoomError`, then the wire code. -/
def PresenceError.code : PresenceError → RoomErrorCode
  | notJoined => .notJoined
  | badPayload _ => .invalidState

/-- `position_code_for_message`. -/
def positionCodeForMessage : RoomErrorCode → String
  | .notJoined => "caller is not a room member"
  | .invalidState => "position report payload is malformed"
  | _ => "position report rejected"

/-- The reply to a refused report. -/
def positionReject (e : PresenceError) : RoomDispatchOutcome :=
  .ofError e.code ("position report rejected: " ++ positionCodeForMessage e.code) none

def handlePositionReport (envelope : Envelope) (p : Except String PositionReportPayload)
    (userId : Uuid) : Proc RoomDispatchOutcome :=
  match p, envelope.roomId with
  | .error e, _ => pure (positionReject (.badPayload e))
  | .ok _, none => pure (positionReject (.badPayload "POSITION_REPORT requires room_id"))
  | .ok payload, some id => do
    let member ← isUserInRoom userId id
    if !member then pure (positionReject .notJoined)
    else pure (.ofEvents [.positionReport id userId { payload with userId }])

/-- `laser_event`. -/
def laserEvent (envelope : Envelope) (userId : Uuid) : Option RoomEvent :=
  match envelope.roomId, envelope.body with
  | some id, .laserMove (.ok payload) =>
    if !validateUnitRange payload.x || !validateUnitRange payload.y then none
    else some (.laserMove id userId payload)
  | some id, .laserOff => some (.laserOff id userId)
  | _, _ => none

/-- `MAX_TEXT_LEN`. -/
def maxTextLen : ℕ := 2048

/-- The reply to a refused `CHAT_MESSAGE`. -/
def chatError (e : RoomError) : RoomDispatchOutcome :=
  let code : RoomErrorCode := match e with
    | .notHost => .notHost
    | .notJoined => .notJoined
    | _ => .internal
  .ofError code e.message none

/-- The checks of `handle_chat_message_payload` under the read lock. -/
def chatRefusal (s : RoomState) (userId : Uuid) (payload : ChatPayload) : Option RoomError :=
  if !s.isMember userId then some .notJoined
  else if payload.replyTo.any fun r => !s.participants.any (·.userId == r) then
    some (.internal "chat: reply_to references unknown participant")
  else none

def handleChatMessage (envelope : Envelope) (p : Except String ChatPayload) (userId : Uuid)
    (nowMs : ℤ) : Proc RoomDispatchOutcome :=
  match envelope.roomId, p with
  | none, _ => pure (chatError (.internal "CHAT_MESSAGE missing room_id"))
  | some _, .error e => pure (chatError (.internal ("chat payload: " ++ e)))
  | some id, .ok payload =>
    if maxTextLen < payload.text.utf8ByteSize then
      pure (chatError (.internal ("chat message text exceeds 2048 byte limit (got " ++
        toString payload.text.utf8ByteSize ++ ")")))
    else do
      let may ← can userId id .chat .sendChat
      if !may then pure (chatError (.internal "chat: not authorized to send"))
      else do
        let registered ← isRegistered id
        if !registered then pure (chatError .roomNotFound)
        else do
          let s ← read id
          match chatRefusal s userId payload with
          | some e => pure (chatError e)
          | none => pure (.ofEvents [.chatMessage
              ⟨id, userId, payload.text, payload.replyTo, nowMs⟩])

/-! ### The dispatcher -/

/-- The command the gate checks for a kind. -/
def commandOf : Body → Option Command
  | .roomCreate _ => some .roomCreate
  | .roomJoinRequest _ => some .roomJoinRequest
  | .roomLeave => some .roomLeave
  | .presence => some .presence
  | .manifestPublish _ => some .publishManifest
  | .manifestRequest _ => some .fetchManifest
  | .signal _ => some .signal
  | .playbackCmd _ => some .playbackControl
  | .positionReport _ => some .positionReport
  | .strokeBegin _ | .strokePoint _ | .strokeEnd _ => some .draw
  | .strokeUndo _ => some .drawUndo
  | .strokeClear => some .drawClear
  | .permissionSet _ => some .permissionSet
  | .chatMessage _ => some .chatMessage
  | .laserMove _ | .laserOff => some .laser
  | .other => none

/-- The commands whose refusal by the gate is answered. -/
def answersRefusal : Command → Bool
  | .publishManifest | .fetchManifest | .signal | .playbackControl | .positionReport | .draw
  | .permissionSet | .chatMessage => true
  | _ => false

/-- What the gate's refusal leads to. -/
def refused (command : Command) (e : CapsError) : RoomDispatchOutcome :=
  if answersRefusal command then .ofError e.code e.message none else .empty

/-- The handler of a kind. -/
def handleBody (env : Env) (envelope : Envelope) (userId : Uuid) (pubkey : PubKey) (nowMs : ℤ) :
    Proc RoomDispatchOutcome :=
  match envelope.body with
  | .roomCreate p => handleRoomCreate p userId pubkey nowMs
  | .roomJoinRequest p => handleRoomJoinRequest p userId pubkey nowMs
  | .roomLeave => handleRoomLeave userId envelope.roomId nowMs
  | .presence => handlePresence userId nowMs
  | .manifestPublish p => handleManifestPublish env.crates envelope p userId pubkey
  | .manifestRequest p => handleManifestFetch env.crates envelope p userId
  | .signal p => handleSignal env.crates envelope p userId pubkey
  | .playbackCmd p => handlePlaybackCmd envelope p userId pubkey
  | .positionReport p => handlePositionReport envelope p userId
  | .strokeBegin p => handleStrokeBegin envelope p userId pubkey
  | .strokePoint p => handleStrokePoint envelope p userId
  | .strokeEnd p => handleStrokeEnd envelope p userId
  | .strokeUndo p => handleStrokeUndo envelope p userId
  | .strokeClear => handleStrokeClear envelope userId
  | .laserMove _ | .laserOff => pure (.ofEvents (laserEvent envelope userId).toList)
  | .permissionSet p => handlePermissionSet envelope p userId
  | .chatMessage p => handleChatMessage envelope p userId nowMs
  | .other => pure .empty

/-- `dispatch_room_message`. -/
def dispatchRoomMessage (env : Env) (envelope : Envelope) (userId : Uuid) (pubkey : PubKey) :
    Proc RoomDispatchOutcome := do
  let nowMs ← clock
  match commandOf envelope.body with
  | none => handleBody env envelope userId pubkey nowMs
  | some command => do
    let checked ← checkCapability userId envelope.roomId command
    match checked with
    | .error e => pure (refused command e)
    | .ok () => handleBody env envelope userId pubkey nowMs

/-- `publish_events` of the connection's task. -/
def publishOutcome (split : SplitForWire) (roomId : Uuid) (events : List RoomEvent) : Proc Unit :=
  forEach (fun i => publish i.1 i.2) (publishEvents split roomId events)

/-- `dispatch_authed` for a room envelope. -/
def dispatchAuthed (env : Env) (envelope : Envelope) (userId : Uuid) (pubkey : PubKey) :
    Proc RoomDispatchOutcome := do
  let outcome ← dispatchRoomMessage env envelope userId pubkey
  match envelope.roomId with
  | none => pure outcome
  | some id => do
    publishOutcome env.crates.splitPublished id outcome.events
    pure outcome

end Proc

/-! ### The system -/

/-- Everything that starts a task: the registry's entry points, the ticks, and an envelope of an
authenticated connection. -/
inductive Op where
  | create (title : String) (hostUserId : Uuid) (hostPubkey : PubKey) (hostMigrationEnabled : Bool)
      (nowMs : ℤ)
  | join (code : String) (userId : Uuid) (pubkey : PubKey) (displayName : String) (nowMs : ℤ)
  | leaveRoom (userId : Uuid) (roomId : Option Uuid) (intentional : Bool) (nowMs : ℤ)
  | onConnectionLost (userId : Uuid) (nowMs : ℤ)
  | rejoin (userId : Uuid) (pubkey : PubKey) (nowMs : ℤ)
  | touch (userId : Uuid) (nowMs : ℤ)
  | tickGrace (nowMs : ℤ)
  | tickPresenceTimeout (nowMs : ℤ)
  | tickStaleParticipants (nowMs : ℤ)
  | dispatch (envelope : Envelope) (userId : Uuid) (pubkey : PubKey)

/-- The result of the registry's operations is of no interest here. -/
def discard {α : Type} (p : Proc α) : Proc (Option RoomDispatchOutcome) := do
  let _ ← p
  pure none

/-- The program of an operation; a dispatch ends with its outcome. -/
def Op.program (env : Env) : Op → Proc (Option RoomDispatchOutcome)
  | create title hostUserId hostPubkey hostMigrationEnabled nowMs =>
    discard (Proc.create title hostUserId hostPubkey hostMigrationEnabled nowMs)
  | join code userId pubkey displayName nowMs =>
    discard (Proc.join code userId pubkey displayName nowMs)
  | leaveRoom userId roomId intentional nowMs =>
    discard (Proc.leaveRoom userId roomId intentional nowMs)
  | onConnectionLost userId nowMs => discard (Proc.onConnectionLost userId nowMs)
  | rejoin userId pubkey nowMs => discard (Proc.rejoin userId pubkey nowMs)
  | touch userId nowMs => discard (Proc.touch userId nowMs)
  | tickGrace nowMs => discard (Proc.tickGrace nowMs)
  | tickPresenceTimeout nowMs => discard (Proc.tickPresenceTimeout nowMs)
  | tickStaleParticipants nowMs => discard (Proc.tickStaleParticipants env.cfg nowMs)
  | dispatch envelope userId pubkey => do
    let outcome ← Proc.dispatchAuthed env envelope userId pubkey
    pure (some outcome)

/-- **The server**: any number of tasks over the shared state. -/
def system (env : Env) :
    System Effect Effect.Resp Op (Option RoomDispatchOutcome) ServerState Input where
  program := Op.program env
  handle := Effect.handle env

/-- One step of one task, as it happened. -/
abbrev Step : Type := Did Effect.Resp Op ServerState Input

/-- The server with its tasks. -/
abbrev Tasks : Type := Pool Effect.Resp Op (Option RoomDispatchOutcome) ServerState

/-- **Runs of the server** from `st₀` whose steps all meet `guard`. -/
abbrev RunFrom (env : Env) (guard : List Step → Step → Prop) (st₀ : ServerState) :
    List Step → Tasks → Prop :=
  (system env).Run guard st₀

/-- Runs from an empty database. -/
abbrev Run (env : Env) (guard : List Step → Step → Prop) : List Step → Tasks → Prop :=
  RunFrom env guard ServerState.empty

/-- Every step is allowed. -/
def anyStep : List Step → Step → Prop := fun _ _ => True

end Locast.Server

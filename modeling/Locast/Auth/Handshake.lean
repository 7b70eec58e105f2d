import Locast.Auth.State

/-!
# The handshake and the bearer check (`ws/mod.rs`)

The loop of a connection, as far as it decides who its frames are from: HELLO, AUTH and AUTH_RESUME
before authentication, the bearer check of every frame after it.  What lies behind the check (the
skew probe, the manifest pieces and the room dispatcher) is one effect, `serve`.
-/

namespace Locast.Auth

open Locast.Lib Locast.Protocol

/-- A program of a connection. -/
abbrev Proc (α : Type) : Type := Prog Effect Effect.Resp α

namespace Proc

open Prog

def receive (c : ℕ) : Proc (Option (Uuid × PubKey) × ℤ) := .op (.receive c) .ret
def now : Proc ℤ := .op .now .ret
def newId : Proc Uuid := .op .newId .ret
def draw : Proc Bytes32 := .op .draw .ret
def nextEpoch : Proc ℕ := .op .nextEpoch .ret
def isAuthThrottled (c : ℕ) : Proc Bool := .op (.isAuthThrottled c) .ret
def recordAuthFailure (c : ℕ) : Proc Unit := .op (.recordAuthFailure c) .ret
def connState (c : ℕ) : Proc ConnState := .op (.connState c) .ret
def challenge (c : ℕ) (ch : Challenge) : Proc (Option String) := .op (.challenge c ch) .ret
def authenticate (c : ℕ) (userId : Uuid) (pubkey : PubKey) : Proc Bool :=
  .op (.authenticate c userId pubkey) .ret
def isPubkeyBanned (pubkey : PubKey) : Proc (Except SqlError Bool) :=
  .op (.isPubkeyBanned pubkey) .ret
def upsertUser (pubkey : PubKey) : Proc (Except SqlError Uuid) := .op (.upsertUser pubkey) .ret
def insertBearer (tokenHash : Bytes32) (userId : Uuid) (expiresMs : ℤ) (connectionEpoch : ℕ)
    (roomId : Option Uuid) : Proc (Except SqlError Unit) :=
  .op (.insertBearer tokenHash userId expiresMs connectionEpoch roomId) .ret
def selectBearer (tokenHash : Bytes32) : Proc (Except SqlError (Option BearerInfo)) :=
  .op (.selectBearer tokenHash) .ret
def renewBearer (tokenHash : Bytes32) (newExpiry nowMs : ℤ) : Proc (Except SqlError Unit) :=
  .op (.renewBearer tokenHash newExpiry nowMs) .ret
def revokeBearer (tokenHash : Bytes32) : Proc (Except SqlError Unit) :=
  .op (.revokeBearer tokenHash) .ret
def insertResumeToken (tokenHash : Bytes32) (info : ResumeInfo) : Proc (Except SqlError Unit) :=
  .op (.insertResumeToken tokenHash info) .ret
def selectResumeToken (tokenHash : Bytes32) : Proc (Except SqlError (Option ResumeInfo)) :=
  .op (.selectResumeToken tokenHash) .ret
def deleteResumeToken (tokenHash : Bytes32) : Proc (Except SqlError Unit) :=
  .op (.deleteResumeToken tokenHash) .ret
def rejoin (userId : Uuid) (pubkey : PubKey) : Proc Unit := .op (.rejoin userId pubkey) .ret
def send (c : ℕ) (reply : Reply) : Proc Bool := .op (.send c reply) .ret
def upgrade (c : ℕ) (userId : Uuid) (pubkey : PubKey) : Proc Unit :=
  .op (.upgrade c userId pubkey) .ret
def serve (c : ℕ) (userId : Uuid) (pubkey : PubKey) (kind : FrameKind) : Proc Bool :=
  .op (.serve c userId pubkey kind) .ret
def nextFrame (c : ℕ) : Proc Unit := .op (.nextFrame c) .ret
def hangUp (c : ℕ) : Proc Unit := .op (.hangUp c) .ret

/-! ### Tokens (`db.rs`) -/

/-- A row that has not expired. -/
def unexpired {ρ : Type} (expiresMs : ρ → ℤ) (nowMs : ℤ) :
    Except SqlError (Option ρ) → Except SqlError (Option ρ)
  | .error e => .error e
  | .ok none => .ok none
  | .ok (some row) => if nowMs < expiresMs row then .ok (some row) else .ok none

/-- `validate_bearer`. -/
def validateBearer (tokenHash : Bytes32) : Proc (Except SqlError (Option BearerInfo)) := do
  let nowMs ← now
  let row ← selectBearer tokenHash
  pure (unexpired BearerInfo.expiresMs nowMs row)

/-- `validate_resume_token`. -/
def validateResumeToken (tokenHash : Bytes32) : Proc (Except SqlError (Option ResumeInfo)) := do
  let nowMs ← now
  let row ← selectResumeToken tokenHash
  pure (unexpired ResumeInfo.expiresMs nowMs row)

/-- `validate_bearer_renewing`. -/
def validateBearerRenewing (tokenHash : Bytes32) (ttlMs : ℤ) :
    Proc (Except SqlError (Option BearerInfo)) := do
  let found ← validateBearer tokenHash
  match found with
  | .ok (some info) => do
    let nowMs ← now
    if info.expiresMs - nowMs < ttlMs.tdiv 2 then do
      let renewed ← renewBearer tokenHash (nowMs + ttlMs) nowMs
      match renewed with
      | .error e => pure (.error e)
      | .ok _ => pure (.ok (some { info with expiresMs := nowMs + ttlMs }))
    else pure (.ok (some info))
  | other => pure other

/-! ### The handshake -/

/-- `DispatchOutcome::auth_fail`. -/
def authFail (reason : AuthFailReason) : List Action :=
  [.send (.authFail reason), .close "auth_fail"]

variable (env : AuthEnv) (c : ℕ) (f : Frame)

/-- The resume token of a HELLO, if the store knows it. -/
def helloResumeToken : Proc (Option Bytes32) :=
  match f.resumeToken.bind (exactly 32) with
  | none => pure none
  | some token => do
    let found ← validateResumeToken (env.sha256 token)
    match found with
    | .ok (some _) => pure (some (env.sha256 token))
    | _ => pure none

/-- `handle_hello`. -/
def handleHello (handshakeDeadline : ℤ) : Proc (List Action) :=
  if !f.hello then pure [.close "bad_msg"]
  else if f.sender.isSome then pure [.close "handshake_no_sender"]
  else do
    let sessionId ← newId
    let serverTsMs ← now
    let nowMs ← now
    if handshakeDeadline < nowMs then pure [.close "handshake_timeout"]
    else do
      let nonce ← draw
      let resumeTokenHash ← helloResumeToken env f
      let connectionEpoch ← nextEpoch
      let expiresMs := serverTsMs + env.challengeTtlMs
      let refused ← challenge c
        { sessionId, serverTsMs, nonce, expiresMs, connectionEpoch, resumeTokenHash }
      match refused with
      | some reason => pure [.close reason]
      | none => pure [.send (.welcome sessionId), .send (.challenge nonce expiresMs)]

/-- The end of `handle_auth` and of `handle_auth_resume`: a bearer of the connection's epoch, the
transition to `Authenticated`, a resume token, and the rooms the user comes back to. -/
def issue (userId : Uuid) (pubkey : PubKey) (connectionEpoch : ℕ) : Proc (List Action) := do
  let nowMs ← now
  let expiresMs := nowMs + env.bearerTtlMs
  let token ← draw
  let inserted ← insertBearer (env.sha256 token) userId expiresMs connectionEpoch none
  match inserted with
  | .error _ => pure [.close "internal"]
  | .ok _ => do
    let moved ← authenticate c userId pubkey
    if moved then do
      let resumeToken ← draw
      let nowMs ← now
      -- a failure here does not keep the client from being authenticated
      let _ ← insertResumeToken (env.sha256 resumeToken)
        { userId, connectionEpoch, roomId := none, expiresMs := nowMs + env.bearerTtlMs }
      rejoin userId pubkey
      pure [.upgrade userId pubkey, .send (.authOk userId token expiresMs pubkey resumeToken)]
    else pure [.close "illegal_state"]

/-- `handle_auth`. -/
def handleAuth (handshakeDeadline : ℤ) : Proc (List Action) :=
  match f.auth with
  | none => pure (authFail .badSig)
  | some auth =>
    if f.sender.isSome then pure (authFail .badSig)
    else
      match exactly 32 auth.pubkey, exactly 64 auth.sig with
      | some pubkey, some sig => do
        let nowMs ← now
        if handshakeDeadline < nowMs then pure (authFail .expired)
        else do
          let throttled ← isAuthThrottled c
          if throttled then pure (authFail .rate)
          else do
            let banned ← isPubkeyBanned pubkey
            match banned with
            | .ok true => do
              recordAuthFailure c
              pure (authFail .banned)
            -- a failed lookup is logged, and the handshake goes on
            | _ => do
              let state ← connState c
              match state with
              | .challengeSent ch => do
                let nowMs ← now
                if ch.expiresMs < nowMs then pure (authFail .expired)
                else if env.verify pubkey ch.nonce sig then do
                  let user ← upsertUser pubkey
                  match user with
                  | .error _ => pure [.close "internal"]
                  | .ok userId => issue env c userId pubkey ch.connectionEpoch
                else do
                  recordAuthFailure c
                  pure (authFail .badSig)
              | _ => pure [.close "unexpected_auth"]
      | _, _ => pure (authFail .badSig)

/-- `BearerBinding::matches`. -/
def bindingMatches (info : BearerInfo) (userId : Uuid) (connectionEpoch : ℕ)
    (roomId : Option Uuid) : Bool :=
  info.userId == userId && info.connectionEpoch == connectionEpoch && info.roomId == roomId

/-- A refused AUTH_RESUME counts as a failure. -/
def refuse (reason : AuthFailReason) : Proc (List Action) := do
  recordAuthFailure c
  pure (authFail reason)

/-- `handle_auth_resume` once the bearer and the resume token are found: the ban list, the
signature, the retirement of both tokens, and the new ones. -/
def resumeSession (ch : Challenge) (bearerHash resumeHash : Bytes32) (info : BearerInfo)
    (sig : Sig) : Proc (List Action) := do
  let banned ← isPubkeyBanned info.pubkey
  match banned with
  | .ok true => refuse c .banned
  | _ =>
    if env.verify info.pubkey ch.nonce sig then do
      -- neither failure is more than logged
      let _ ← revokeBearer bearerHash
      let _ ← deleteResumeToken resumeHash
      issue env c info.userId info.pubkey ch.connectionEpoch
    else refuse c .badSig

/-- `handle_auth_resume`. -/
def handleAuthResume : Proc (List Action) :=
  match f.authResume with
  | none => pure (authFail .badSig)
  | some req =>
    if f.sender.isSome then pure (authFail .badSig)
    else
      match exactly 32 req.bearer, exactly 64 req.signedNonce with
      | some bearer, some sig =>
        if req.userId = 0 then pure (authFail .badSig)
        else do
          let throttled ← isAuthThrottled c
          if throttled then pure (authFail .rate)
          else do
            let state ← connState c
            match state with
            | .challengeSent ch => do
              let nowMs ← now
              if ch.expiresMs < nowMs then pure (authFail .expired)
              else
                match ch.resumeTokenHash with
                | none => refuse c .badSig
                | some resumeHash => do
                  let found ← validateBearer (env.sha256 bearer)
                  match found with
                  | .error _ => pure [.close "internal"]
                  | .ok none => refuse c .badSig
                  | .ok (some info) =>
                    if info.userId ≠ req.userId then refuse c .badSig
                    else do
                      let token ← validateResumeToken resumeHash
                      match token with
                      | .error _ => pure [.close "internal"]
                      | .ok none => refuse c .expired
                      | .ok (some resumeInfo) =>
                        if !bindingMatches info req.userId resumeInfo.connectionEpoch
                            resumeInfo.roomId || resumeInfo.userId ≠ req.userId then
                          refuse c .badSig
                        else
                          resumeSession env c ch (env.sha256 bearer) resumeHash info sig
            | _ => pure [.close "unexpected_resume"]
      | _, _ => pure (authFail .badSig)

/-! ### After the handshake -/

/-- `dispatch_authed`. -/
def dispatchAuthed (userId : Uuid) (pubkey : PubKey) : Proc (List Action) :=
  match f.bearer.bind (exactly 32) with
  | none => pure [.close "auth_required"]
  | some token => do
    let found ← validateBearerRenewing (env.sha256 token) env.bearerTtlMs
    match found with
    | .error _ => pure [.close "internal"]
    | .ok none => pure [.close "auth_required"]
    | .ok (some info) =>
      if info.userId ≠ userId then pure [.close "bearer_mismatch"]
      else if info.pubkey ≠ pubkey then pure [.close "bearer_mismatch"]
      else do
        let closes ← serve c userId pubkey f.kind
        pure (if closes then [.close "room_close"] else [])

/-- `dispatch`. -/
def dispatch (authed : Option (Uuid × PubKey)) (handshakeDeadline : ℤ) : Proc (List Action) :=
  match authed with
  | some (userId, pubkey) => dispatchAuthed env c f userId pubkey
  | none =>
    match f.kind with
    | .hello => handleHello env c f handshakeDeadline
    | .auth => handleAuth env c f handshakeDeadline
    | .authResume => handleAuthResume env c f
    | _ => pure []

/-! ### The loop of a connection -/

/-- What the loop does with the actions of a frame: a close frame, or a write that fails, ends
it. -/
def performActions : List Action → Proc Unit
  | [] => nextFrame c
  | .send reply :: actions => do
    let sent ← send c reply
    if sent then performActions actions else hangUp c
  | .close _ :: _ => hangUp c
  | .upgrade userId pubkey :: actions => do
    upgrade c userId pubkey
    performActions actions

/-- One frame. -/
def onFrame : Proc Unit := do
  let (authed, handshakeDeadline) ← receive c
  let actions ← dispatch env c f authed handshakeDeadline
  performActions c actions

/-- The peer is gone, or the handshake took too long. -/
def disconnect : Proc Unit := do
  let _ ← receive c
  hangUp c

/-- A tick of `spawn_bearer_cleanup`. -/
def bearerCleanup : Proc Unit := do
  let nowMs ← now
  let _ ← (.op (.purgeExpiredBearers nowMs) .ret : Proc (Except SqlError Unit))
  let nowMs ← now
  let _ ← (.op (.purgeExpiredResumeTokens nowMs) .ret : Proc (Except SqlError Unit))
  pure ()

end Proc

/-! ### The server -/

/-- Who acts: the network, the cleanup task, an operator at the ban list, the clock. -/
inductive Op where
  | accept (c : ℕ)
  | frame (c : ℕ) (f : Frame)
  | disconnect (c : ℕ)
  | bearerCleanup
  | editBanList (bannedPubkeys : List PubKey)
  | setClock (nowMs : ℤ)
  deriving DecidableEq

def Op.program (env : AuthEnv) : Op → Proc Unit
  | accept c => .op (.accept c) .ret
  | frame c f => Proc.onFrame env c f
  | disconnect c => Proc.disconnect c
  | bearerCleanup => Proc.bearerCleanup
  | editBanList keys => .op (.editBanList keys) .ret
  | setClock nowMs => .op (.setClock nowMs) .ret

/-- The server's connections, any number of them at once. -/
def authSystem (env : AuthEnv) : System Effect Effect.Resp Op Unit AuthState Input where
  program := Op.program env
  handle := Effect.handle env

/-- A step of a run. -/
abbrev Step : Type := Did Effect.Resp Op AuthState Input

/-- The tasks of a run. -/
abbrev Tasks : Type := Pool Effect.Resp Op Unit AuthState

end Locast.Auth

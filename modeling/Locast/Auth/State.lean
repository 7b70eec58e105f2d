import Locast.Lib.AssocMap
import Locast.Lib.Past
import Locast.Protocol.Room

/-!
# Connections, tokens and their tables (`auth/`, `db.rs`, `ws/mod.rs`)

What the connection tasks of one server share: the state machine of each connection, the identities,
the ban list and the two token tables.  An effect is what happens between two awaits.  A task of a
connection handles one frame at a time; the clock is the wall clock, which may be set.
-/

namespace Locast.Auth

open Locast.Lib Locast.Protocol

/-- 32 bytes: a nonce, a token or a SHA-256 digest. -/
abbrev Bytes32 : Type := Vector UInt8 32

/-- An Ed25519 signature. -/
abbrev Sig : Type := Vector UInt8 64

/-- Bytes of a wanted length. -/
def exactly (n : ℕ) (bytes : List UInt8) : Option (Vector UInt8 n) :=
  if h : bytes.length = n then some ⟨bytes.toArray, by simpa using h⟩ else none

lemma exactly_toList {n : ℕ} (v : Vector UInt8 n) : exactly n v.toList = some v := by
  simp [exactly, Vector.toList]

/-! ### The state machine of a connection (`auth/state.rs`) -/

/-- What `ChallengeSent` carries. -/
structure Challenge where
  sessionId : Uuid
  serverTsMs : ℤ
  nonce : Bytes32
  expiresMs : ℤ
  connectionEpoch : ℕ
  resumeTokenHash : Option Bytes32
  deriving DecidableEq

inductive ConnState where
  | new
  | helloReceived (sessionId : Uuid) (serverTsMs : ℤ)
  | challengeSent (challenge : Challenge)
  | authenticated (sessionId userId : Uuid) (pubkey : PubKey) (connectionEpoch : ℕ)
  | closed
  deriving DecidableEq

namespace ConnState

/-- `transition_hello`; `none` where the source returns the state as an error. -/
def transitionHello (sessionId : Uuid) (serverTsMs : ℤ) : ConnState → Option ConnState
  | new => some (helloReceived sessionId serverTsMs)
  | _ => none

/-- `transition_challenge`. -/
def transitionChallenge (nonce : Bytes32) (expiresMs : ℤ) (connectionEpoch : ℕ)
    (resumeTokenHash : Option Bytes32) : ConnState → Option ConnState
  | helloReceived sessionId serverTsMs =>
    some (challengeSent
      { sessionId, serverTsMs, nonce, expiresMs, connectionEpoch, resumeTokenHash })
  | _ => none

/-- `transition_authenticated`. -/
def transitionAuthenticated (userId : Uuid) (pubkey : PubKey) : ConnState → Option ConnState
  | challengeSent c => some (authenticated c.sessionId userId pubkey c.connectionEpoch)
  | _ => none

/-- `close`. -/
def close : ConnState → ConnState := fun _ => closed

end ConnState

/-! ### Tables -/

/-- A failed statement. -/
inductive SqlError where
  | failed
  deriving DecidableEq

/-- A row of `bearer_tokens`; its key is the token's hash. -/
structure BearerInfo where
  userId : Uuid
  pubkey : PubKey
  expiresMs : ℤ
  connectionEpoch : ℕ
  roomId : Option Uuid
  deriving DecidableEq

/-- A row of `session_resume_tokens`; its key is the token's hash. -/
structure ResumeInfo where
  userId : Uuid
  connectionEpoch : ℕ
  roomId : Option Uuid
  expiresMs : ℤ
  deriving DecidableEq

/-- A row of `user_identities`. -/
structure Identity where
  userId : Uuid
  pubkey : PubKey
  deriving DecidableEq

structure Db where
  userIdentities : List Identity
  bannedPubkeys : List PubKey
  bearerTokens : AMap Bytes32 BearerInfo
  sessionResumeTokens : AMap Bytes32 ResumeInfo

namespace Db

def empty : Db where
  userIdentities := []
  bannedPubkeys := []
  bearerTokens := ∅
  sessionResumeTokens := ∅

/-- The user id the store holds for a key. -/
def userOf (db : Db) (pubkey : PubKey) : Option Uuid :=
  (db.userIdentities.find? fun i => i.pubkey == pubkey).map Identity.userId

/-- The key the store holds for a user id. -/
def pubkeyOf (db : Db) (userId : Uuid) : Option PubKey :=
  (db.userIdentities.find? fun i => i.userId == userId).map Identity.pubkey

/-- `upsert_user`; a new id that is taken breaks the primary key. -/
def upsertUser (db : Db) (pubkey : PubKey) (newId : Uuid) : Except SqlError Uuid × Db :=
  match db.userOf pubkey with
  | some id => (.ok id, db)
  | none =>
    if (db.pubkeyOf newId).isSome then (.error .failed, db)
    else (.ok newId, { db with userIdentities := db.userIdentities ++ [⟨newId, pubkey⟩] })

/-- `insert_bearer`: the key of the row is the one the store holds for the user, and the token's
hash is a primary key. -/
def insertBearer (db : Db) (tokenHash : Bytes32) (userId : Uuid) (expiresMs : ℤ)
    (connectionEpoch : ℕ) (roomId : Option Uuid) : Except SqlError Unit × Db :=
  match db.pubkeyOf userId with
  | none => (.error .failed, db)
  | some pubkey =>
    if (db.bearerTokens.get tokenHash).isSome then (.error .failed, db)
    else
      let row : BearerInfo := { userId, pubkey, expiresMs, connectionEpoch, roomId }
      (.ok (), { db with bearerTokens := db.bearerTokens.insert tokenHash row })

/-- The `UPDATE` of `validate_bearer_renewing`. -/
def renewBearer (db : Db) (tokenHash : Bytes32) (newExpiry now : ℤ) : Db :=
  match db.bearerTokens.get tokenHash with
  | none => db
  | some row =>
    if now < row.expiresMs then
      { db with
        bearerTokens := db.bearerTokens.insert tokenHash { row with expiresMs := newExpiry } }
    else db

/-- `revoke_bearer`. -/
def revokeBearer (db : Db) (tokenHash : Bytes32) : Db :=
  { db with bearerTokens := db.bearerTokens.erase tokenHash }

/-- `insert_resume_token`, an `INSERT OR REPLACE`. -/
def insertResumeToken (db : Db) (tokenHash : Bytes32) (info : ResumeInfo) : Db :=
  { db with sessionResumeTokens := db.sessionResumeTokens.insert tokenHash info }

/-- `delete_resume_token`. -/
def deleteResumeToken (db : Db) (tokenHash : Bytes32) : Db :=
  { db with sessionResumeTokens := db.sessionResumeTokens.erase tokenHash }

/-- `purge_expired_bearers`. -/
def purgeExpiredBearers (db : Db) (now : ℤ) : Db :=
  { db with bearerTokens := db.bearerTokens.keep fun _ row => now < row.expiresMs }

/-- `purge_expired_resume_tokens`. -/
def purgeExpiredResumeTokens (db : Db) (now : ℤ) : Db :=
  { db with sessionResumeTokens := db.sessionResumeTokens.keep fun _ row => now < row.expiresMs }

end Db

/-! ### Frames -/

/-- The kinds the connection's dispatch tells apart; `room` are those of
`routes_to_room_dispatch`. -/
inductive FrameKind where
  | hello
  | auth
  | authResume
  | skewProbe
  | manifestPart
  | room
  | other
  deriving DecidableEq

structure AuthPayload where
  pubkey : List UInt8
  sig : List UInt8
  deriving DecidableEq

structure AuthResumePayload where
  userId : Uuid
  bearer : List UInt8
  signedNonce : List UInt8
  deriving DecidableEq

/-- A decoded frame: whether its payload decodes as a HELLO, what it decodes to as an AUTH and as an
AUTH_RESUME, and the bytes of its fields `resume_token` and `bearer`.  Frames of one connection that
carry the same have different numbers. -/
structure Frame where
  kind : FrameKind
  sender : Option Uuid := none
  hello : Bool := false
  resumeToken : Option (List UInt8) := none
  auth : Option AuthPayload := none
  authResume : Option AuthResumePayload := none
  bearer : Option (List UInt8) := none
  number : ℕ := 0
  deriving DecidableEq

/-! ### What the server writes -/

inductive AuthFailReason where
  | badSig
  | expired
  | banned
  | rate
  deriving DecidableEq

inductive Reply where
  | welcome (sessionId : Uuid)
  | challenge (nonce : Bytes32) (expiresMs : ℤ)
  | authFail (reason : AuthFailReason)
  | authOk (userId : Uuid) (token : Bytes32) (expiresMs : ℤ) (pubkey : PubKey)
      (resumeToken : Bytes32)
  deriving DecidableEq

/-- What a connection does with a dispatched frame (`Action`). -/
inductive Action where
  | send (reply : Reply)
  | close (reason : String)
  | upgrade (userId : Uuid) (pubkey : PubKey)
  deriving DecidableEq

/-! ### The server -/

/-- Where the loop of a connection is: not yet accepted, waiting for a frame, handling one, or
over. -/
inductive Phase where
  | unopened
  | waiting
  | handling
  | over
  deriving DecidableEq

structure Conn where
  phase : Phase
  state : ConnState
  authFailures : List ℤ
  authed : Option (Uuid × PubKey)
  handshakeDeadline : ℤ

/-- A connection before it is accepted. -/
def Conn.unopened : Conn where
  phase := .unopened
  state := .new
  authFailures := []
  authed := none
  handshakeDeadline := 0

/-- `drawn` are the random bytes given out so far. -/
structure AuthState where
  conns : ℕ → Conn
  epochCounter : ℕ
  now : ℤ
  drawn : List Bytes32
  db : Db

def AuthState.empty : AuthState where
  conns _ := .unopened
  epochCounter := 0
  now := 0
  drawn := []
  db := .empty

/-- One connection changed. -/
def AuthState.setConn (s : AuthState) (c : ℕ) (conn : Conn) : AuthState :=
  { s with conns := Function.update s.conns c conn }

/-- The server's settings and the crates it calls. -/
structure AuthEnv where
  handshakeTimeoutMs : ℤ
  challengeTtlMs : ℤ
  bearerTtlSeconds : ℤ
  sha256 : Bytes32 → Bytes32
  verify : PubKey → Bytes32 → Sig → Bool

/-- The lifetime of a bearer and of a resume token, in milliseconds. -/
def AuthEnv.bearerTtlMs (env : AuthEnv) : ℤ := env.bearerTtlSeconds * 1000

/-- Failures older than `AUTH_FAILURE_WINDOW_MS` are dropped from the front. -/
def recentFailures (now : ℤ) (failures : List ℤ) : List ℤ :=
  failures.dropWhile fun front => 60000 < now - front

/-- `AUTH_FAILURE_THRESHOLD`. -/
def authFailureThreshold : ℕ := 5

/-! ### Effects -/

inductive Effect where
  | accept (c : ℕ)
  | receive (c : ℕ)
  | nextFrame (c : ℕ)
  | hangUp (c : ℕ)
  | now
  | newId
  | draw
  | nextEpoch
  | isAuthThrottled (c : ℕ)
  | recordAuthFailure (c : ℕ)
  | connState (c : ℕ)
  | challenge (c : ℕ) (challenge : Challenge)
  | authenticate (c : ℕ) (userId : Uuid) (pubkey : PubKey)
  | isPubkeyBanned (pubkey : PubKey)
  | upsertUser (pubkey : PubKey)
  | insertBearer (tokenHash : Bytes32) (userId : Uuid) (expiresMs : ℤ) (connectionEpoch : ℕ)
      (roomId : Option Uuid)
  | selectBearer (tokenHash : Bytes32)
  | renewBearer (tokenHash : Bytes32) (newExpiry nowMs : ℤ)
  | revokeBearer (tokenHash : Bytes32)
  | insertResumeToken (tokenHash : Bytes32) (info : ResumeInfo)
  | selectResumeToken (tokenHash : Bytes32)
  | deleteResumeToken (tokenHash : Bytes32)
  | purgeExpiredBearers (nowMs : ℤ)
  | purgeExpiredResumeTokens (nowMs : ℤ)
  | rejoin (userId : Uuid) (pubkey : PubKey)
  | send (c : ℕ) (reply : Reply)
  | upgrade (c : ℕ) (userId : Uuid) (pubkey : PubKey)
  | serve (c : ℕ) (userId : Uuid) (pubkey : PubKey) (kind : FrameKind)
  | editBanList (bannedPubkeys : List PubKey)
  | setClock (nowMs : ℤ)
  deriving DecidableEq

/-- The answer to an effect. -/
def Effect.Resp : Effect → Type
  | receive _ => Option (Uuid × PubKey) × ℤ
  | now => ℤ
  | newId => Uuid
  | draw => Bytes32
  | nextEpoch => ℕ
  | isAuthThrottled _ => Bool
  | connState _ => ConnState
  | challenge .. => Option String
  | authenticate .. => Bool
  | isPubkeyBanned _ => Except SqlError Bool
  | upsertUser _ => Except SqlError Uuid
  | insertBearer .. | renewBearer .. | revokeBearer _ | insertResumeToken .. | deleteResumeToken _
  | purgeExpiredBearers _ | purgeExpiredResumeTokens _ => Except SqlError Unit
  | selectBearer _ => Except SqlError (Option BearerInfo)
  | selectResumeToken _ => Except SqlError (Option ResumeInfo)
  | send .. | serve .. => Bool
  | _ => Unit

/-- The environment's part of an effect: whether a statement or a write to the socket fails, whether
a room handler closes its caller, and what the generators draw. -/
structure Input where
  fails : Bool := false
  closes : Bool := false
  random : Bytes32 := Vector.replicate 32 0
  id : Uuid := 0

/-- The lock section of `handle_hello`: `New` to `HelloReceived` to `ChallengeSent`. -/
def helloSection (ch : Challenge) (state : ConnState) : Option String × ConnState :=
  match state.transitionHello ch.sessionId ch.serverTsMs with
  | none => (some "duplicate_hello", state)
  | some s =>
    match s.transitionChallenge ch.nonce ch.expiresMs ch.connectionEpoch ch.resumeTokenHash with
    | none => (some "illegal_state", state)
    | some s' => (none, s')

/-- What an effect does.  Random bytes do not repeat, nor do their digests. -/
def Effect.handle (env : AuthEnv) : (e : Effect) → Input → AuthState → Option (e.Resp × AuthState)
  | accept c, _, s =>
    if (s.conns c).phase = .unopened then
      some ((), s.setConn c { s.conns c with
        phase := .waiting, handshakeDeadline := s.now + env.handshakeTimeoutMs })
    else none
  | receive c, _, s =>
    if (s.conns c).phase = .waiting then
      some (((s.conns c).authed, (s.conns c).handshakeDeadline),
        s.setConn c { s.conns c with phase := .handling })
    else none
  | nextFrame c, _, s => some ((), s.setConn c { s.conns c with phase := .waiting })
  | hangUp c, _, s =>
    some ((), s.setConn c { s.conns c with phase := .over, state := (s.conns c).state.close })
  | now, _, s => some (s.now, s)
  | newId, inp, s => some (inp.id, s)
  | draw, inp, s =>
    if inp.random ∈ s.drawn ∨ env.sha256 inp.random ∈ s.drawn.map env.sha256 then none
    else some (inp.random, { s with drawn := s.drawn ++ [inp.random] })
  | nextEpoch, _, s =>
    let epoch := (s.epochCounter + 1) % 2 ^ 64
    some (epoch, { s with epochCounter := epoch })
  | isAuthThrottled c, _, s =>
    let failures := recentFailures s.now (s.conns c).authFailures
    some (decide (authFailureThreshold ≤ failures.length),
      s.setConn c { s.conns c with authFailures := failures })
  | recordAuthFailure c, _, s =>
    let failures := recentFailures s.now (s.conns c).authFailures ++ [s.now]
    some ((), s.setConn c { s.conns c with authFailures := failures })
  | connState c, _, s => some ((s.conns c).state, s)
  | challenge c ch, _, s =>
    let out := helloSection ch (s.conns c).state
    some (out.1, s.setConn c { s.conns c with state := out.2 })
  | authenticate c userId pubkey, _, s =>
    match (s.conns c).state.transitionAuthenticated userId pubkey with
    | none => some (false, s)
    | some state => some (true, s.setConn c { s.conns c with state })
  | isPubkeyBanned pubkey, inp, s =>
    some (if inp.fails then .error .failed else .ok (decide (pubkey ∈ s.db.bannedPubkeys)), s)
  | upsertUser pubkey, inp, s =>
    if inp.fails then some (.error .failed, s)
    else
      let out := s.db.upsertUser pubkey inp.id
      some (out.1, { s with db := out.2 })
  | insertBearer tokenHash userId expiresMs connectionEpoch roomId, inp, s =>
    if inp.fails then some (.error .failed, s)
    else
      let out := s.db.insertBearer tokenHash userId expiresMs connectionEpoch roomId
      some (out.1, { s with db := out.2 })
  | selectBearer tokenHash, inp, s =>
    some (if inp.fails then .error .failed else .ok (s.db.bearerTokens.get tokenHash), s)
  | renewBearer tokenHash newExpiry nowMs, inp, s =>
    if inp.fails then some (.error .failed, s)
    else some (.ok (), { s with db := s.db.renewBearer tokenHash newExpiry nowMs })
  | revokeBearer tokenHash, inp, s =>
    if inp.fails then some (.error .failed, s)
    else some (.ok (), { s with db := s.db.revokeBearer tokenHash })
  | insertResumeToken tokenHash info, inp, s =>
    if inp.fails then some (.error .failed, s)
    else some (.ok (), { s with db := s.db.insertResumeToken tokenHash info })
  | selectResumeToken tokenHash, inp, s =>
    some (if inp.fails then .error .failed else .ok (s.db.sessionResumeTokens.get tokenHash), s)
  | deleteResumeToken tokenHash, inp, s =>
    if inp.fails then some (.error .failed, s)
    else some (.ok (), { s with db := s.db.deleteResumeToken tokenHash })
  | purgeExpiredBearers nowMs, inp, s =>
    if inp.fails then some (.error .failed, s)
    else some (.ok (), { s with db := s.db.purgeExpiredBearers nowMs })
  | purgeExpiredResumeTokens nowMs, inp, s =>
    if inp.fails then some (.error .failed, s)
    else some (.ok (), { s with db := s.db.purgeExpiredResumeTokens nowMs })
  | rejoin .., _, s => some ((), s)
  | send .., inp, s => some (!inp.fails, s)
  | upgrade c userId pubkey, _, s =>
    some ((), s.setConn c { s.conns c with authed := some (userId, pubkey) })
  | serve .., inp, s => some (inp.closes, s)
  | editBanList bannedPubkeys, _, s => some ((), { s with db := { s.db with bannedPubkeys } })
  | setClock nowMs, _, s => some ((), { s with now := nowMs })

end Locast.Auth

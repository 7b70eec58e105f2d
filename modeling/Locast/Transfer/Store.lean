import Locast.Lib.AssocMap
import Locast.Lib.Pool
import Mathlib.Data.Int.Basic

/-!
# The download store

`DownloadStore` keeps one row per download and one per chunk of it.  Each of its operations is a
program whose effects are its SQL statements; an explicit transaction is one effect, and
`Effect.statements` lists what it executes.  A statement that fails leaves the database as it was.
-/

namespace Locast.Transfer

open Locast.Lib

/-- `CHUNK_SIZE_BYTES`. -/
def chunkSizeBytes : ℕ := 262144

/-! ### Rows -/

inductive ChunkState where
  | pending
  | inFlight
  | received
  | verified
  | failed
  deriving DecidableEq, Repr

inductive DownloadState where
  | pending
  | connecting
  | transferring
  | verifying
  | complete
  | failed
  | paused
  | cancelled
  deriving DecidableEq, Repr

open DownloadState in
/-- `is_valid_transition`. -/
def isValidTransition (current target : DownloadState) : Bool :=
  if current = target then true
  else
    match current, target with
    | pending, connecting => true
    | pending, transferring => true
    | pending, verifying => true
    | connecting, transferring => true
    | transferring, verifying => true
    | verifying, complete => true
    | pending, failed | connecting, failed | transferring, failed | verifying, failed => true
    | pending, paused | connecting, paused | transferring, paused | verifying, paused => true
    | pending, cancelled | connecting, cancelled | transferring, cancelled
    | verifying, cancelled => true
    | paused, transferring => true
    | _, _ => false

/-- A download in one of these states takes part in `ux_downloads_active`. -/
def DownloadState.active : DownloadState → Bool
  | pending | connecting | transferring | verifying | paused => true
  | complete | failed | cancelled => false

/-- A row of `download_chunks`; its key is the download and the chunk's index. -/
structure ChunkRow where
  offset : ℕ
  length : ℕ
  sha256 : String
  state : ChunkState
  deriving DecidableEq

/-- The rows that count as transferred. -/
def ChunkRow.counted (row : ChunkRow) : Bool := row.state == .verified || row.state == .received

/-- A row of `downloads` with the chunk rows that refer to it. -/
structure Download where
  mediaId : String
  roomId : Option String
  userId : String
  state : DownloadState
  totalBytes : ℕ
  transferredBytes : ℕ
  startedAt : ℤ
  completedAt : Option ℤ
  lastError : Option String
  sourcePeerId : Option String
  chunkSizeBytes : ℕ
  manifestVersion : ℤ
  chunks : AMap ℕ ChunkRow

/-- The bytes of the rows that count as transferred. -/
def Download.countedBytes (d : Download) : ℕ :=
  d.chunks.sumBy fun row => if row.counted then row.length else 0

structure NewDownload where
  downloadId : String
  mediaId : String
  roomId : Option String
  userId : String
  totalBytes : ℕ
  sourcePeerId : String
  chunkSizeBytes : ℕ
  manifestVersion : ℤ
  deriving DecidableEq

/-- A chunk of a new download: its index, offset, length and SHA-256. -/
abbrev NewChunk : Type := ℕ × ℕ × ℕ × String

/-! ### Statements -/

/-- The two tables. -/
abbrev Db : Type := AMap String Download

namespace Db

/-- An `UPDATE … WHERE id = ?`. -/
def update (id : String) (f : Download → Download) (db : Db) : Db :=
  match db.get id with
  | none => db
  | some d => db.insert id (f d)

/-- The stored state of a download. -/
def stateOf (db : Db) (id : String) : Option DownloadState := (db.get id).map Download.state

/-- The row of a chunk. -/
def chunkOf (db : Db) (id : String) (index : ℕ) : Option ChunkRow :=
  (db.get id).bind fun d => d.chunks.get index

/-- Another active download has the same media, room and user. -/
def activeConflict (db : Db) (id mediaId : String) (roomId : Option String) (userId : String) :
    Bool :=
  db.entries.any fun e => e.1 != id && e.2.state.active && e.2.mediaId == mediaId &&
    e.2.roomId.getD "" == roomId.getD "" && e.2.userId == userId

/-- After the `INSERT OR IGNORE` of a new download some row has its id. -/
def admitsNew (db : Db) (new : NewDownload) : Bool :=
  (db.get new.downloadId).isSome ||
    !db.activeConflict new.downloadId new.mediaId new.roomId new.userId

/-- A number read off a download; 0 without one. -/
def countOf (db : Db) (id : String) (f : Download → ℕ) : ℕ := ((db.get id).map f).getD 0

end Db

namespace Download

/-- `UPDATE downloads SET state = … WHERE state = …`. -/
def raise (current target : DownloadState) (d : Download) : Download :=
  if d.state = current then { d with state := target } else d

/-- The last `UPDATE` of `mark_complete`. -/
def finish (now : ℤ) (totalBytes : ℕ) (sourcePeerId : Option String) (d : Download) : Download :=
  if d.state = .verifying then
    { d with
      state := .complete
      transferredBytes := totalBytes
      completedAt := some now
      totalBytes := totalBytes
      sourcePeerId := d.sourcePeerId.or sourcePeerId }
  else d

/-- `refresh_transferred_bytes`. -/
def refresh (d : Download) : Download := { d with transferredBytes := d.countedBytes }

/-- An `UPDATE` of one chunk row. -/
def updateChunk (index : ℕ) (f : ChunkRow → ChunkRow) (d : Download) : Download :=
  match d.chunks.get index with
  | none => d
  | some row => { d with chunks := d.chunks.insert index (f row) }

/-- `INSERT OR IGNORE` of a chunk row. -/
def insertChunk (index : ℕ) (row : ChunkRow) (d : Download) : Download :=
  match d.chunks.get index with
  | none => { d with chunks := d.chunks.insert index row }
  | some _ => d

/-- `INSERT … ON CONFLICT … DO UPDATE SET state = 'verified'`, of `mark_complete`. -/
def upsertVerified (totalBytes : ℕ) (chunk : ℕ × String) (d : Download) : Download :=
  let offset := chunk.1 * Transfer.chunkSizeBytes
  let length := max (min Transfer.chunkSizeBytes (totalBytes - offset)) 1
  match d.chunks.get chunk.1 with
  | none =>
    { d with chunks := d.chunks.insert chunk.1 ⟨offset, length, chunk.2, .verified⟩ }
  | some row => { d with chunks := d.chunks.insert chunk.1 { row with state := .verified } }

/-- What `reconcile_manifest_version` does to the row of one chunk of the new manifest. -/
def reconcileChunk (chunk : ℕ × String) (d : Download) : Download :=
  match d.chunks.get chunk.1 with
  | some row =>
    if row.sha256 ≠ chunk.2 then
      { d with chunks := d.chunks.insert chunk.1 { row with sha256 := chunk.2, state := .pending } }
    else d
  | none =>
    let offset := chunk.1 * Transfer.chunkSizeBytes
    d.insertChunk chunk.1 ⟨offset, Transfer.chunkSizeBytes, chunk.2, .pending⟩

/-- The row is new or its hash changes. -/
def changedBy (chunk : ℕ × String) (d : Download) : Bool :=
  match d.chunks.get chunk.1 with
  | some row => row.sha256 != chunk.2
  | none => true

/-- `changed_count`. -/
def changedCount : List (ℕ × String) → Download → ℕ
  | [], _ => 0
  | chunk :: chunks, d =>
    (if d.changedBy chunk then 1 else 0) + changedCount chunks (d.reconcileChunk chunk)

/-- The `UPDATE` of the rows beyond the new manifest. -/
def cutChunks (total : ℕ) (d : Download) : Download :=
  { d with chunks := d.chunks.mapKeyed fun index row =>
      if total ≤ index then { row with state := .failed } else row }

/-- `reset_in_flight_to_pending`. -/
def resetInFlight (d : Download) : Download :=
  { d with chunks := d.chunks.mapVals fun row =>
      if row.state = .inFlight then { row with state := .pending } else row }

end Download

/-! ### Effects -/

/-- The statements and transactions of the store. -/
inductive Effect where
  | selectState (id : String)
  | selectVersion (id : String)
  | countChunks (id : String)
  | selectChunk (id : String) (index : ℕ)
  | setState (id : String) (target : DownloadState)
  | setFailed (id errorMessage : String)
  | setVersion (id : String) (version : ℤ)
  | setLastError (id message : String)
  | setSourcePeer (id peerId : String)
  | setVerified (id : String) (index : ℕ)
  | setReceived (id : String) (index : ℕ)
  | resetInFlight (id : String)
  | refresh (id : String)
  | createTx (new : NewDownload) (chunks : List NewChunk)
  | reconcileTx (id : String) (version : ℤ) (hashes : List (ℕ × String))
  | completeTx (id : String) (totalBytes : ℕ) (sourcePeerId : Option String)
      (hashes : List (ℕ × String))
  deriving DecidableEq

namespace Effect

/-- What a statement reads. -/
def Answer : Effect → Type
  | selectState _ => Option DownloadState
  | selectVersion _ => Option ℤ
  | countChunks _ => ℕ
  | selectChunk _ _ => Option ChunkRow
  | createTx _ _ => Bool
  | reconcileTx _ _ _ => ℕ
  | resetInFlight _ => ℕ
  | _ => Unit

/-- A statement answers, or fails with the text of its error. -/
def Resp (e : Effect) : Type := Except String e.Answer

/-- The environment's part of a statement: the error it fails with, and the clock. -/
structure Input where
  fails : Option String
  now : ℤ
  deriving DecidableEq

def answer : (e : Effect) → Db → e.Answer
  | selectState id, db => db.stateOf id
  | selectVersion id, db => (db.get id).map Download.manifestVersion
  | countChunks id, db => db.countOf id fun d => d.chunks.size
  | selectChunk id index, db => db.chunkOf id index
  | setState _ _, _ => ()
  | setFailed _ _, _ => ()
  | setVersion _ _, _ => ()
  | setLastError _ _, _ => ()
  | setSourcePeer _ _, _ => ()
  | setVerified _ _, _ => ()
  | setReceived _ _, _ => ()
  | resetInFlight id, db =>
    db.countOf id fun d => d.chunks.countBy fun row => row.state == .inFlight
  | refresh _, _ => ()
  | createTx new _, db => db.admitsNew new
  | reconcileTx id _ hashes, db => db.countOf id (Download.changedCount hashes)
  | completeTx _ _ _ _, _ => ()

/-- The row that `create` inserts. -/
def newRow (now : ℤ) (new : NewDownload) : Download where
  mediaId := new.mediaId
  roomId := new.roomId
  userId := new.userId
  state := .pending
  totalBytes := new.totalBytes
  transferredBytes := 0
  startedAt := now
  completedAt := none
  lastError := none
  sourcePeerId := some new.sourcePeerId
  chunkSizeBytes := new.chunkSizeBytes
  manifestVersion := new.manifestVersion
  chunks := ∅

/-- `INSERT OR IGNORE INTO downloads`. -/
def insertDownload (now : ℤ) (new : NewDownload) (db : Db) : Db :=
  if (db.get new.downloadId).isSome ||
      db.activeConflict new.downloadId new.mediaId new.roomId new.userId then db
  else db.insert new.downloadId (newRow now new)

/-- The download that an effect is about. -/
def subject : Effect → String
  | selectState id => id
  | selectVersion id => id
  | countChunks id => id
  | selectChunk id _ => id
  | setState id _ => id
  | setFailed id _ => id
  | setVersion id _ => id
  | setLastError id _ => id
  | setSourcePeer id _ => id
  | setVerified id _ => id
  | setReceived id _ => id
  | resetInFlight id => id
  | refresh id => id
  | createTx new _ => new.downloadId
  | reconcileTx id _ _ => id
  | completeTx id _ _ _ => id

/-- What the statements of an effect do to the rows of its download, one after another. -/
def edits (now : ℤ) : Effect → List (Download → Download)
  | selectState _ => []
  | selectVersion _ => []
  | countChunks _ => []
  | selectChunk _ _ => []
  | setState _ target => [fun d => { d with state := target }]
  | setFailed _ errorMessage =>
    [fun d => { d with lastError := some errorMessage, state := .failed }]
  | setVersion _ version => [fun d => { d with manifestVersion := version }]
  | setLastError _ message => [fun d => { d with lastError := some message }]
  | setSourcePeer _ peerId => [fun d => { d with sourcePeerId := some peerId }]
  | setVerified _ index => [Download.updateChunk index fun row => { row with state := .verified }]
  | setReceived _ index =>
    [Download.updateChunk index fun row =>
      if row.state ≠ .verified then { row with state := .received } else row]
  | resetInFlight _ => [Download.resetInFlight]
  | refresh _ => [Download.refresh]
  | createTx _ chunks =>
    chunks.map fun chunk =>
      Download.insertChunk chunk.1 ⟨chunk.2.1, chunk.2.2.1, chunk.2.2.2, .pending⟩
  | reconcileTx _ version hashes =>
    (fun d => { d with manifestVersion := version }) ::
      hashes.map Download.reconcileChunk ++ [Download.cutChunks hashes.length]
  | completeTx _ totalBytes sourcePeerId hashes =>
    [Download.raise .pending .connecting, Download.raise .connecting .transferring,
      Download.raise .transferring .verifying, Download.finish now totalBytes sourcePeerId] ++
      hashes.map (Download.upsertVerified totalBytes)

/-- The statements that an effect executes, in order. -/
def statements (now : ℤ) (e : Effect) (db : Db) : List (Db → Db) :=
  match e with
  | createTx new _ =>
    -- a transaction whose row lost the race is rolled back
    if db.admitsNew new then
      insertDownload now new :: (e.edits now).map (Db.update e.subject)
    else []
  | _ => (e.edits now).map (Db.update e.subject)

/-- A constraint of the schema that the effect breaks. -/
def refused : Effect → Db → Option String
  | setState id target, db =>
    if target.active && (db.get id).any (fun d => db.activeConflict id d.mediaId d.roomId d.userId)
      then
      some "UNIQUE constraint failed: index 'ux_downloads_active'"
    else none
  | completeTx id _ _ hashes, db =>
    if (db.get id).isNone && !hashes.isEmpty then some "FOREIGN KEY constraint failed" else none
  | _, _ => none

/-- The databases that statements go through, from the one before them. -/
def trail : List (Db → Db) → Db → List Db
  | [], db => [db]
  | f :: fs, db => db :: trail fs (f db)

def handle (e : Effect) (inp : Input) (db : Db) : Option (e.Resp × Db) :=
  match inp.fails.or (e.refused db) with
  | some msg => some (.error msg, db)
  | none => some (.ok (e.answer db), (e.statements inp.now db).foldl (fun db f => f db) db)

end Effect

end Locast.Transfer

import Locast.Transfer.Store

/-!
# The operations of the download store

Each public operation of `DownloadStore` that writes, as a program over the statements.
-/

namespace Locast.Transfer

open Locast.Lib

/-- The closed set of state-machine errors. -/
inductive ChunkStateError where
  | chunkIndexOutOfBounds (index total : ℕ)
  | downloadNotFound (id : String)
  | chunkHashMismatch (index : ℕ) (existing new : String)
  | manifestVersionMismatch (downloadVersion currentVersion : ℤ)
  | invalidTransition (current target : DownloadState)
  | invalidChunkSize (value : ℕ)
  | invalidManifestVersion (value : ℤ)
  | invalidSourcePeerId (value : String)
  | invalidMediaId (value : String)
  | invalidUserId (value : String)
  | activeDownloadExists (mediaId : String)
  | sqlx (message : String)
  deriving DecidableEq

/-- The name of the variant, as `{:?}` prints it. -/
def DownloadState.debug : DownloadState → String
  | pending => "Pending"
  | connecting => "Connecting"
  | transferring => "Transferring"
  | verifying => "Verifying"
  | complete => "Complete"
  | failed => "Failed"
  | paused => "Paused"
  | cancelled => "Cancelled"

def ChunkStateError.display : ChunkStateError → String
  | chunkIndexOutOfBounds index total =>
    "chunk index out of bounds: " ++ toString index ++ " >= " ++ toString total
  | downloadNotFound id => "download not found: " ++ id
  | chunkHashMismatch index existing new =>
    "sha256 mismatch on chunk " ++ toString index ++ ": existing=" ++ existing ++ ", new=" ++ new
  | manifestVersionMismatch downloadVersion currentVersion =>
    "manifest version mismatch: download=" ++ toString downloadVersion ++ ", current=" ++
      toString currentVersion
  | invalidTransition current target =>
    "invalid download state transition: cannot transition from " ++ current.debug ++ " to " ++
      target.debug
  | invalidChunkSize value => "invalid chunk_size_bytes: " ++ toString value
  | invalidManifestVersion value => "invalid manifest_version: " ++ toString value
  | invalidSourcePeerId value => "invalid source_peer_id: " ++ value
  | invalidMediaId value => "invalid media_id: " ++ value
  | invalidUserId value => "invalid user_id: " ++ value
  | activeDownloadExists mediaId =>
    "an active download already exists for media " ++ mediaId ++ " (ux_downloads_active)"
  | sqlx message => "database error: " ++ message

/-- The body of an operation. -/
abbrev Call (α : Type) : Type := Prog Effect Effect.Resp (Except ChunkStateError α)

namespace Call

variable {α : Type}

def fail (e : ChunkStateError) : Call α := .ret (.error e)

def done (a : α) : Call α := .ret (.ok a)

/-- A statement whose error ends the operation. -/
def query (e : Effect) (k : e.Answer → Call α) : Call α :=
  .op e fun (r : Except String e.Answer) =>
    match r with
    | .error msg => fail (.sqlx msg)
    | .ok a => k a

end Call

open Call

/-- A count as `u32`. -/
def asU32 (n : ℕ) : ℕ := n % 2 ^ 32

/-- `is_canonical_peer_id`. -/
def isCanonicalPeerId (s : String) : Bool :=
  s.utf8ByteSize == 64 && s.toList.all fun c => c.isDigit || ('a' ≤ c && c ≤ 'f')

/-! ### Creation -/

/-- The first chunk whose index is not its position. -/
def misplaced : ℕ → List NewChunk → Option ℕ
  | _, [] => none
  | i, chunk :: chunks => if chunk.1 ≠ asU32 i then some chunk.1 else misplaced (i + 1) chunks

/-- The number of chunks of a file, as `create` expects it. -/
def expectedTotal (new : NewDownload) : ℕ :=
  if new.totalBytes = 0 then 0
  else asU32 ((new.totalBytes + new.chunkSizeBytes - 1) / new.chunkSizeBytes)

/-- What `create` refuses before it touches the database. -/
def createError (new : NewDownload) (chunks : List NewChunk) : Option ChunkStateError :=
  let totalChunks := asU32 chunks.length
  if new.chunkSizeBytes ≠ chunkSizeBytes then some (.invalidChunkSize new.chunkSizeBytes)
  else if new.manifestVersion < 1 then some (.invalidManifestVersion new.manifestVersion)
  else if !isCanonicalPeerId new.sourcePeerId then some (.invalidSourcePeerId new.sourcePeerId)
  else if new.mediaId = "" then some (.invalidMediaId new.mediaId)
  else if new.userId = "" then some (.invalidUserId new.userId)
  else if totalChunks = 0 then some (.chunkIndexOutOfBounds 0 0)
  else if totalChunks ≠ expectedTotal new then
    some (.chunkIndexOutOfBounds totalChunks (expectedTotal new))
  else (misplaced 0 chunks).map fun index => .chunkIndexOutOfBounds index totalChunks

def create (new : NewDownload) (chunks : List NewChunk) : Call Unit :=
  match createError new chunks with
  | some e => fail e
  | none => query (.createTx new chunks) fun (kept : Bool) =>
    if kept then done () else fail (.activeDownloadExists new.mediaId)

/-! ### Chunks -/

def fetchTotalChunks {α : Type} (id : String) (k : ℕ → Call α) : Call α :=
  query (.countChunks id) fun (n : ℕ) => k (asU32 n)

def markChunkVerified (id : String) (index : ℕ) (sha256 : String) : Call Unit :=
  let update : Call Unit :=
    query (.setVerified id index) fun _ => query (.refresh id) fun _ => done ()
  fetchTotalChunks id fun total =>
    if total ≤ index then fail (.chunkIndexOutOfBounds index total)
    else query (.selectChunk id index) fun (existing : Option ChunkRow) =>
      match existing with
      | none => update
      | some row =>
        if row.state = .verified ∧ row.sha256 = sha256 then done ()
        else if row.sha256 ≠ sha256 then fail (.chunkHashMismatch index row.sha256 sha256)
        else update

def markChunkReceived (id : String) (index : ℕ) : Call Unit :=
  fetchTotalChunks id fun total =>
    if total ≤ index then fail (.chunkIndexOutOfBounds index total)
    else query (.setReceived id index) fun _ => done ()

def resetInFlightToPending (id : String) : Call ℕ :=
  query (.resetInFlight id) fun (n : ℕ) => done n

/-! ### The state of a download -/

def fetchState {α : Type} (id : String) (k : DownloadState → Call α) : Call α :=
  query (.selectState id) fun (state : Option DownloadState) =>
    match state with
    | none => fail (.downloadNotFound id)
    | some current => k current

def transition (id : String) (target : DownloadState) : Call Unit :=
  fetchState id fun current =>
    if !isValidTransition current target then fail (.invalidTransition current target)
    else query (.setState id target) fun _ => done ()

def markFailed (id errorMessage : String) : Call Unit :=
  fetchState id fun current =>
    if !isValidTransition current .failed then fail (.invalidTransition current .failed)
    else query (.setFailed id errorMessage) fun _ => done ()

def markComplete (id : String) (totalBytes : ℕ) (sourcePeerId : Option String)
    (hashes : List (ℕ × String)) : Call Unit :=
  query (.completeTx id totalBytes sourcePeerId hashes) fun _ => done ()

def setLastError (id message : String) : Call Unit :=
  query (.setLastError id message) fun _ => done ()

def setSourcePeerId (id peerId : String) : Call Unit :=
  query (.setSourcePeer id peerId) fun _ => done ()

/-! ### Manifest versions -/

def fetchManifestVersion {α : Type} (id : String) (k : ℤ → Call α) : Call α :=
  query (.selectVersion id) fun (version : Option ℤ) =>
    match version with
    | none => fail (.downloadNotFound id)
    | some current => k current

def bindManifestVersion (id : String) (newVersion : ℤ) : Call Unit :=
  if newVersion < 1 then fail (.invalidManifestVersion newVersion)
  else fetchManifestVersion id fun current =>
    if newVersion ≤ current then fail (.manifestVersionMismatch current newVersion)
    else query (.setVersion id newVersion) fun _ => done ()

def reconcileManifestVersion (id : String) (newVersion : ℤ) (hashes : List (ℕ × String)) :
    Call ℕ :=
  if newVersion < 1 then fail (.invalidManifestVersion newVersion)
  else fetchManifestVersion id fun current =>
    if newVersion ≤ current then fail (.manifestVersionMismatch current newVersion)
    else query (.reconcileTx id newVersion hashes) fun (changed : ℕ) => done (asU32 changed)

/-! ### All of them -/

/-- A call of the store. -/
inductive Op where
  | create (new : NewDownload) (chunks : List NewChunk)
  | markChunkVerified (id : String) (index : ℕ) (sha256 : String)
  | markChunkReceived (id : String) (index : ℕ)
  | resetInFlightToPending (id : String)
  | transition (id : String) (target : DownloadState)
  | markFailed (id errorMessage : String)
  | markComplete (id : String) (totalBytes : ℕ) (sourcePeerId : Option String)
      (hashes : List (ℕ × String))
  | setLastError (id message : String)
  | setSourcePeerId (id peerId : String)
  | bindManifestVersion (id : String) (newVersion : ℤ)
  | reconcileManifestVersion (id : String) (newVersion : ℤ) (hashes : List (ℕ × String))
  deriving DecidableEq

/-- The result without its number. -/
def Call.void {α : Type} (call : Call α) : Call Unit :=
  Prog.bind call fun r => .ret (r.map fun _ => ())

def Op.program : Op → Call Unit
  | .create new chunks => Transfer.create new chunks
  | .markChunkVerified id index sha256 => Transfer.markChunkVerified id index sha256
  | .markChunkReceived id index => Transfer.markChunkReceived id index
  | .resetInFlightToPending id => (Transfer.resetInFlightToPending id).void
  | .transition id target => Transfer.transition id target
  | .markFailed id errorMessage => Transfer.markFailed id errorMessage
  | .markComplete id totalBytes sourcePeerId hashes =>
    Transfer.markComplete id totalBytes sourcePeerId hashes
  | .setLastError id message => Transfer.setLastError id message
  | .setSourcePeerId id peerId => Transfer.setSourcePeerId id peerId
  | .bindManifestVersion id newVersion => Transfer.bindManifestVersion id newVersion
  | .reconcileManifestVersion id newVersion hashes =>
    (Transfer.reconcileManifestVersion id newVersion hashes).void

/-- Any number of calls at once, each cut at its statements. -/
def storeSystem : System Effect Effect.Resp Op (Except ChunkStateError Unit) Db Effect.Input where
  program := Op.program
  handle := Effect.handle

/-- What one statement of a call did. -/
abbrev StoreStep : Type := Did Effect.Resp Op Db Effect.Input

/-- The calls in progress and the database. -/
abbrev Calls : Type := Pool Effect.Resp Op (Except ChunkStateError Unit) Db

end Locast.Transfer

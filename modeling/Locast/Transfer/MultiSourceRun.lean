import Locast.Transfer.MultiSource

/-!
# The run of a multi-source download

The body of `run_multi_source`, cut at its effects: the `Hello`s, the loop of refilling the window,
nudging what is stuck and handling one inbound frame, and the assembly.  A loop that outlives its
fuel has no end.
-/

namespace Locast.Transfer

open Locast.Lib

/-- How a run ends, and what the orchestrator holds then. -/
structure Ending where
  outcome : Except MultiSourceError DownloadState
  receiver : Receiver

/-- A part of the run: it goes on with a value, or the run ends. -/
abbrev Step (α : Type) : Type := Prog Act Act.Resp (Except Ending α)

namespace Step

variable {α β : Type}

/-- The run goes on. -/
def next (a : α) : Step α := .ret (.ok a)

/-- `return Err(e)`. -/
def fail (e : MultiSourceError) (s : Receiver) : Step α := .ret (.error ⟨.error e, s⟩)

def andThen (m : Step α) (f : α → Step β) : Step β :=
  Prog.bind m fun r =>
    match r with
    | .error e => .ret (.error e)
    | .ok a => f a

end Step

/-- A call of the store, as a part of the run. -/
def liftStore {α : Type} : Prog Effect Effect.Resp α → Prog Act Act.Resp α
  | .ret a => .ret a
  | .op e k => .op (.store e) fun r => liftStore (k r)

/-- What the run is given: the digests and the texts of the code it calls, and its own peer id. -/
structure RunParams where
  sha256Hex : Bytes → String
  blake3Hex : Bytes → String
  base64Decode : String → Option Bytes
  sanitizeErrorMessage : String → String
  localPeerId : String
  plan : DownloadPlan

variable (ps : RunParams)

open Step

/-! ### Sends -/

/-- The error of `send_frame`. -/
def sendError : SendOutcome → Option MultiSourceError
  | .sent => none
  | .cancelled => some .cancelled
  | .malformed e => some (.wire e)
  | .failed .closed => some .cancelled
  | .failed .channelClosed => some .cancelled
  | .failed e => some (.transport e)

/-- Sends to a source that is there; nobody looks at the outcome. -/
def sendTo (peerId : String) (frame : Frame) (s : Receiver) : Step Receiver :=
  if s.hasSource peerId then .op (.send peerId frame false) fun _ => next s else next s

/-- The `Ack` of a chunk. -/
def sendAck (peerId : String) (index : ℕ) (s : Receiver) : Step Receiver :=
  sendTo peerId (.ack ⟨ps.plan.downloadId, index⟩) s

/-- The `Nak` of a chunk. -/
def sendNak (peerId : String) (index : ℕ) (s : Receiver) : Step Receiver :=
  let expected := ((ps.plan.chunks.find? fun c => c.index == index).map PlannedChunk.sha256).getD ""
  sendTo peerId (.nak ⟨ps.plan.downloadId, index, expected⟩) s

/-! ### Requests -/

/-- One pending chunk is asked of a source. -/
def dispatch (h : SourceHandle) (index : ℕ) (s : Receiver) : Step Receiver :=
  .op (.tryAcquireSlot h.peerId index h.slots) fun (granted : Bool) =>
    if granted then
      let s := s.updateSource h.peerId (.acquireSlot index)
      .op .now fun (now : ℕ) =>
        let s := { s with inFlight := s.inFlight.insert index ⟨h.peerId, now⟩ }
        .op (.send h.peerId (.request ⟨ps.plan.downloadId, index⟩) true) fun (out : SendOutcome) =>
          match sendError out with
          | none => next s
          | some e => fail e ((s.updateSource h.peerId (.releaseSlot index)).dropRecord index)
    else fail (.scheduler "scheduler cancelled") s

/-- Step 1 of the loop: the window is filled. -/
def refill : List ℕ → Receiver → Step Receiver
  | [], s => next s
  | index :: rest, s =>
    if maxChunkRetries ≤ s.retriesOf index then fail (.maxRetriesExceeded index maxChunkRetries) s
    else .op .now fun (now : ℕ) =>
      match SourceHandle.pick (s.triedOf index) now s.sources with
      | none =>
        if s.refusedByAll index then fail (.allSourcesExhausted index) s else refill rest s
      | some h => (dispatch ps h index s).andThen fun s =>
        if windowSize ≤ s.inFlight.size then next s else refill rest s

/-- The requests that have waited too long. -/
def Receiver.stuck (now : ℕ) (s : Receiver) : List (ℕ × String) :=
  (s.inFlight.entries.filter fun e => decide (stuckRequestRetry ≤ now - e.2.requestedAt)).map
    fun e => (e.1, e.2.peerId)

/-- The record of a request is as of now. -/
def Receiver.touch (index now : ℕ) (s : Receiver) : Receiver :=
  match s.inFlight.get index with
  | none => s
  | some record => { s with inFlight := s.inFlight.insert index { record with requestedAt := now } }

/-- One more stuck tick of a request; the third in a row counts as a NAK. -/
def Receiver.tick (index : ℕ) (peerId : String) (s : Receiver) :
    Except MultiSourceError Unit × Receiver :=
  let count := (s.consecutiveStuck.get (index, peerId)).getD 0 + 1
  if stuckRequestDemoteAfter ≤ count then
    { s with consecutiveStuck := s.consecutiveStuck.erase (index, peerId) }.applyNak index peerId
  else (.ok (), { s with consecutiveStuck := s.consecutiveStuck.insert (index, peerId) count })

/-- Step 1b of the loop: what is stuck is asked again. -/
def nudge : List (ℕ × String) → Receiver → Step Receiver
  | [], s => next s
  | (index, peerId) :: rest, s =>
    if s.hasSource peerId then
      .op (.send peerId (.request ⟨ps.plan.downloadId, index⟩) false) fun _ =>
        .op .now fun (now : ℕ) =>
          match (s.touch index now).tick index peerId with
          | (.error e, s) => fail e s
          | (.ok (), s) => nudge rest s
    else nudge rest s

/-! ### Inbound frames -/

/-- The outcome of one inbound chunk frame. -/
inductive HandleOutcome where
  | verified (index : ℕ) (peerId : String)
  | duplicate
  | nakTrigger (index : ℕ) (peerId : String)
  | peerMismatch (actual : String)

/-- The state once a chunk is verified and stored. -/
def Receiver.answered (index : ℕ) (peerId : String) (s : Receiver) : Receiver :=
  { s.updateSource peerId (.releaseSlot index) with
    inFlight := s.inFlight.erase index
    nakCounters := s.nakCounters.erase (index, peerId)
    consecutiveStuck := s.consecutiveStuck.erase (index, peerId) }

/-- The sample of a request that was answered, and the policy on it. -/
def sampleRtt (peerId : String) (requestedAt : ℕ) (s : Receiver) : Step Receiver :=
  .op .now fun (arrived : ℕ) => .op .now fun (sampledAt : ℕ) => .op .now fun (now : ℕ) =>
    next (s.updateSource peerId fun h =>
      (h.sampled sampledAt (arrived - requestedAt)).demoteByRtt now)

/-- `handle_chunk`, from the chunk that is expected to its acknowledgement. -/
def acceptChunk (peerId : String) (requestedAt : ℕ) (expected : PlannedChunk) (bytes : Bytes)
    (s : Receiver) : Step (HandleOutcome × Receiver) :=
  .op (.writePart expected.index bytes) fun (written : Except String Unit) =>
    match written with
    | .error e => fail (.io e) s
    | .ok () =>
      Prog.bind (liftStore (markChunkVerified ps.plan.downloadId expected.index expected.sha256))
        fun marked =>
          match marked with
          | .error e => fail (.storage e.display) s
          | .ok () =>
            (sendAck ps peerId expected.index (s.answered expected.index peerId)).andThen fun s =>
              (sampleRtt peerId requestedAt s).andThen fun s =>
                next (.verified expected.index peerId, s)

/-- `handle_chunk`. -/
def handleChunk (peerId : String) (chunk : ChunkFrame) (s : Receiver) :
    Step (HandleOutcome × Receiver) :=
  match s.inFlight.get chunk.chunkIndex with
  | none => (sendAck ps peerId chunk.chunkIndex s).andThen fun s => next (.duplicate, s)
  | some record =>
    if record.peerId ≠ peerId then
      (sendAck ps peerId chunk.chunkIndex s).andThen fun s => next (.peerMismatch peerId, s)
    else
      match ps.plan.chunks.find? fun c => c.index == chunk.chunkIndex with
      | none => fail (.wire (.malformed
          ("chunk index " ++ toString chunk.chunkIndex ++ " out of range"))) s
      | some expected =>
        match ps.base64Decode chunk.bytesB64 with
        | none => next (.nakTrigger chunk.chunkIndex peerId, s)
        | some bytes =>
          if bytes.length ≠ expected.length then next (.nakTrigger chunk.chunkIndex peerId, s)
          else if ps.sha256Hex bytes ≠ expected.sha256 then
            next (.nakTrigger chunk.chunkIndex peerId, s)
          else acceptChunk ps peerId record.requestedAt expected bytes s

/-- What a bad chunk leads to: its record goes, so that the chunk is asked for again. -/
def Receiver.requeue (index : ℕ) (peerId : String) (s : Receiver) : Receiver :=
  if (s.inFlight.get index).isSome then
    (s.dropRecord index).updateSource peerId (.releaseSlot index)
  else s

def onChunk (peerId : String) (chunk : ChunkFrame) (s : Receiver) : Step Receiver :=
  (handleChunk ps peerId chunk s).andThen fun out =>
    match out with
    | (.verified index peerId, s) =>
      let s := { s with haveSet := insert index s.haveSet }
      if peerId ≠ ps.plan.source.peerId then
        Prog.bind (liftStore (setSourcePeerId ps.plan.downloadId peerId)) fun _ => next s
      else next s
    | (.duplicate, s) => next s
    | (.nakTrigger index peerId, s) =>
      match s.applyNak index peerId with
      | (.error e, s) => fail e s
      | (.ok (), s) =>
        let s := s.requeue index peerId
        if peerId ∈ s.triedOf index then sendNak ps peerId index s else next s
    | (.peerMismatch _, s) => next s

/-- A frame of a source. -/
def onFrame (peerId : String) (frame : Frame) (s : Receiver) : Step Receiver :=
  match frame with
  | .chunk chunk => onChunk ps peerId chunk s
  | .cancel _ => .op (.recordState .cancelled none) fun _ =>
    Prog.bind (liftStore (transition ps.plan.downloadId .cancelled)) fun _ =>
      .ret (.error ⟨.ok .cancelled, s⟩)
  | .error e =>
    let reason := ps.sanitizeErrorMessage e.reason
    Prog.bind (liftStore (setLastError ps.plan.downloadId reason)) fun _ =>
      fail (.io ("peer error: " ++ reason)) s
  | .nak nak =>
    match s.applyNak nak.chunkIndex peerId with
    | (.error e, s) => fail e s
    | (.ok (), s) => sendNak ps peerId nak.chunkIndex s
  | .ack _ | .hello _ | .offer _ | .request _ => next s

/-! ### The loop -/

/-- Steps 1 and 1b of the loop. -/
def prepareRound (s : Receiver) : Step Receiver :=
  .op .now fun (now : ℕ) =>
    let s := { s with sources := s.sources.map (.recover now) }
    (if s.inFlight.size < windowSize then refill ps (s.pending ps.plan) s else next s).andThen
      fun s => .op .now fun (now : ℕ) =>
        .op (.stuckOrder (s.stuck now)) fun (order : { l // List.Perm l (s.stuck now) }) =>
          nudge ps order.1 s

/-- Step 2: one inbound frame, or a tick. -/
def awaitInbound (s : Receiver) : Step Receiver :=
  .op (.await s) fun (inbound : Inbound) =>
    match inbound with
    | .cancelled => fail .cancelled s
    | .tick => next s
    | .gone => fail .allSourcesGone s
    | .frame peerId f => onFrame ps peerId f s

/-- The loop; `none` when the fuel ends before it does. -/
def loop : ℕ → Receiver → Step (Option Receiver)
  | 0, _ => next none
  | fuel + 1, s => .op (.head s) fun _ =>
    if asU32 ps.plan.chunks.length ≤ asU32 s.haveSet.card then next (some s)
    else (prepareRound ps s).andThen fun s => (awaitInbound ps s).andThen fun s => loop fuel s

/-! ### Before the loop -/

/-- `store.fetch(..).ok().map(|r| r.state)`. -/
def fetchedState {α : Type} (k : Option DownloadState → Prog Act Act.Resp α) :
    Prog Act Act.Resp α :=
  .op (.store (.selectState ps.plan.downloadId)) fun (r : Except String (Option DownloadState)) =>
    match r with
    | .error _ => k none
    | .ok state => k state

/-- A transition that must succeed, then its event. -/
def moveTo (target : DownloadState) (s : Receiver) : Step Receiver :=
  Prog.bind (liftStore (transition ps.plan.downloadId target)) fun r =>
    match r with
    | .error e => fail (.storage e.display) s
    | .ok () => .op (.recordState target none) fun _ => next s

/-- The states before the first `Hello`. -/
def connect (s : Receiver) : Step Receiver :=
  .op (.recordState .pending none) fun _ => fetchedState ps fun current =>
    if current ≠ some .transferring ∧ current ≠ some .verifying then
      (moveTo ps .connecting s).andThen (moveTo ps .transferring)
    else next s

/-- `completed_chunk_indices`. -/
def completedIndices (s : Receiver) : Step (List ℕ) :=
  .op .completedChunkIndices fun (r : Except String (List ℕ)) =>
    match r with
    | .error e => fail (.storage (ChunkStateError.sqlx e).display) s
    | .ok indices => next indices

/-- The `Hello` to every source. -/
def sendHellos (hello : Frame) (s : Receiver) : List SourceHandle → Step Receiver
  | [] => next s
  | h :: rest => .op (.send h.peerId hello true) fun (out : SendOutcome) =>
    match out with
    | .sent => sendHellos hello s rest
    | .cancelled => fail .cancelled s
    | .malformed e => fail (.wire e) s
    | .failed e => fail (.transport e) s

/-- Everything before the loop. -/
def prepare (s : Receiver) : Step Receiver :=
  (connect ps s).andThen fun s =>
    (completedIndices s).andThen fun had =>
      let hello : Frame := .hello {
        peerId := ps.localPeerId
        downloadId := ps.plan.downloadId
        mediaId := ps.plan.mediaId
        manifestVersion := ps.plan.manifestVersion
        haveChunks := had }
      (sendHellos hello s s.sources).andThen fun s =>
        (completedIndices s).andThen fun had => next { s with haveSet := had.toFinset }

/-! ### Assembly -/

/-- A part of the assembly. -/
abbrev Assembly (α : Type) : Type := Prog Act Act.Resp (Except AssembleError α)

/-- The chunk files, one after another; each is opened as a path, measured and read. -/
def concatParts : List PlannedChunk → Bytes → Assembly Bytes
  | [], written => .ret (.ok written)
  | chunk :: rest, written =>
    .op (.readPart chunk.index) fun (r : Except AssembleError (String × Bytes)) =>
      match r with
      | .error e => .ret (.error e)
      | .ok (path, bytes) =>
        if bytes.length ≠ chunk.length then
          .ret (.error (.chunkLengthMismatch path bytes.length chunk.length))
        else concatParts rest (written ++ bytes)

/-- What is checked of the assembled file. -/
def verifyStaging (written : Bytes) : Assembly Unit :=
  if written.length ≠ ps.plan.sizeBytes then
    .ret (.error (.io ("staging partial size " ++ toString written.length ++ " != total_bytes " ++
      toString ps.plan.sizeBytes)))
  else if ps.sha256Hex written ≠ ps.plan.sha256 then
    .op .removeStaging fun _ => .ret (.error .sha256Mismatch)
  else .op .rereadStaging fun (r : Except AssembleError Bytes) =>
    match r with
    | .error e => .ret (.error e)
    | .ok bytes =>
      if bytes.length ≠ ps.plan.sizeBytes then
        .ret (.error (.io "staging partial size changed between passes"))
      else if ps.blake3Hex bytes ≠ ps.plan.blake3 then .ret (.error .blake3Mismatch)
      else .op .completeDownload fun (r : Except AssembleError Unit) => .ret r

/-- `assemble_and_finalize`. -/
def assembleAndFinalize : Assembly Unit :=
  .op .createStaging fun (r : Except AssembleError Unit) =>
    match r with
    | .error e => .ret (.error e)
    | .ok () => Prog.bind (concatParts ps.plan.chunks []) fun r =>
      match r with
      | .error e => .ret (.error e)
      | .ok written => .op .syncStaging fun (r : Except AssembleError Unit) =>
        match r with
        | .error e => .ret (.error e)
        | .ok () => verifyStaging ps written

/-! ### The end of the run -/

def closeAll {α : Type} (k : Step α) : List SourceHandle → Step α
  | [] => k
  | h :: rest => .op (.close h.peerId) fun _ => closeAll k rest

/-- The download is `Failed`, for this reason. -/
def endFailed (reason : String) (s : Receiver) (k : Step DownloadState) : Step DownloadState :=
  Prog.bind (liftStore (transition ps.plan.downloadId .failed)) fun r =>
    match r with
    | .error e => fail (.storage e.display) s
    | .ok () => .op (.recordState .failed (some reason)) fun _ => closeAll k s.sources

/-- Everything after the loop. -/
def finish (s : Receiver) : Step DownloadState :=
  (moveTo ps .verifying s).andThen fun s =>
    Prog.bind (assembleAndFinalize ps) fun r =>
      match r with
      | .ok () => .op .cleanupIncomplete fun _ =>
        (moveTo ps .complete s).andThen fun s => closeAll (next .complete) s.sources
      | .error .blake3Mismatch =>
        let reason := ps.sanitizeErrorMessage "blake3 mismatch"
        Prog.bind (liftStore (setLastError ps.plan.downloadId reason)) fun r =>
          match r with
          | .error e => fail (.storage e.display) s
          | .ok () => endFailed ps reason s (next .failed)
      | .error e =>
        let reason := ps.sanitizeErrorMessage ("assemble: " ++ e.display)
        Prog.bind (liftStore (setLastError ps.plan.downloadId reason)) fun _ =>
          endFailed ps reason s (fail (.assemble e.display) s)

/-- `run_multi_source_inner`: its end, or `none` when the fuel ends before it does. -/
def runMultiSourceInner (fuel : ℕ) (s : Receiver) : Prog Act Act.Resp (Option Ending) :=
  Prog.bind ((prepare ps s).andThen (loop ps fuel)) fun r =>
    match r with
    | .error e => .ret (some e)
    | .ok none => .ret none
    | .ok (some s) => Prog.bind (finish ps s) fun r =>
      match r with
      | .error e => .ret (some e)
      | .ok state => .ret (some ⟨.ok state, s⟩)

/-- `record_terminal_state_after_error`. -/
def recordTerminalStateAfterError (e : MultiSourceError) : Prog Act Act.Resp Unit :=
  fetchedState ps fun current =>
    if current = some .cancelled ∨ current = some .failed ∨ current = some .complete then .ret ()
    else
      match e with
      | .cancelled => Prog.bind (liftStore (transition ps.plan.downloadId .cancelled)) fun _ =>
        .op (.recordState .cancelled none) fun _ => .ret ()
      | e =>
        let message := ps.sanitizeErrorMessage e.display
        Prog.bind (liftStore (setLastError ps.plan.downloadId message)) fun _ =>
          Prog.bind (liftStore (transition ps.plan.downloadId .failed)) fun _ =>
            .op (.recordState .failed (some message)) fun _ => .ret ()

/-- `discard_scratch_after_terminal_failure`. -/
def discardScratchAfterTerminalFailure : Prog Act Act.Resp Unit :=
  fetchedState ps fun state =>
    if state = some .failed ∨ state = some .cancelled then
      .op .cleanupIncomplete fun _ => .ret ()
    else .ret ()

/-- `run_multi_source`. -/
def runMultiSource (fuel : ℕ) (s : Receiver) : Prog Act Act.Resp (Option Ending) :=
  Prog.bind (runMultiSourceInner ps fuel s) fun r =>
    match r with
    | none => .ret none
    | some ending =>
      Prog.bind (match ending.outcome with
        | .error e => recordTerminalStateAfterError ps e
        | .ok _ => .ret ()) fun _ =>
          Prog.bind (discardScratchAfterTerminalFailure ps) fun _ => .ret (some ending)

end Locast.Transfer

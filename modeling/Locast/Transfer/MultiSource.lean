import Locast.Transfer.SenderSession
import Mathlib.Data.Finset.Lattice.Basic
import Mathlib.Data.String.Basic

/-!
# The multi-source receiver

`run_multi_source` downloads one file from several sources.  Its body is a program whose effects are
the statements of the store, the sends and the one receive, the file system, the clock and the
events; what it keeps between them is a `Receiver`, which the two markers `head` and `await` show.
Instants and durations are milliseconds.
-/

namespace Locast.Transfer

open Locast.Lib

/-! ### Constants -/

/-- `WINDOW_SIZE`. -/
def windowSize : ℕ := 16

/-- `MAX_CHUNK_RETRIES`. -/
def maxChunkRetries : ℕ := 5

/-- `NAK_THRESHOLD`. -/
def nakThreshold : ℕ := 3

/-- `RTT_COOLDOWN`. -/
def rttCooldown : ℕ := 30000

/-- `RTT_WINDOW_CAP`. -/
def rttWindowCap : ℕ := 64

/-- `RTT_P95_WINDOW`. -/
def rttP95Window : ℕ := 10000

/-- `RTT_P95_LIMIT_MS`. -/
def rttP95LimitMs : ℕ := 2000

/-- `STUCK_REQUEST_RETRY`. -/
def stuckRequestRetry : ℕ := 2000

/-- `STUCK_REQUEST_DEMOTE_AFTER`. -/
def stuckRequestDemoteAfter : ℕ := 3

/-! ### Errors -/

inductive AssembleError where
  | chunkMissing (path : String)
  | chunkLengthMismatch (path : String) (got expected : ℕ)
  | io (message : String)
  | path (message : String)
  | pathEscapesLibrary (message : String)
  | blake3Mismatch
  | sha256Mismatch
  | completion (message : String)
  deriving DecidableEq

def AssembleError.display : AssembleError → String
  | chunkMissing file => "chunk file missing at " ++ file
  | chunkLengthMismatch file got expected =>
    "chunk file length mismatch at " ++ file ++ ": got " ++ toString got ++ ", expected " ++
      toString expected
  | io message => "io error: " ++ message
  | path message => "path builder rejected input: " ++ message
  | pathEscapesLibrary message => "path escapes library root: " ++ message
  | blake3Mismatch => "full-file BLAKE3 mismatch"
  | sha256Mismatch => "full-file SHA-256 mismatch"
  | completion message => "atomic completion failed: " ++ message

inductive MultiSourceError where
  | wire (e : WireError)
  | transport (e : TransportError)
  | storage (message : String)
  | io (message : String)
  | assemble (message : String)
  | duplicatePeerId (peerId : String)
  | noSources
  | allSourcesExhausted (index : ℕ)
  | allSourcesGone
  | cancelled
  | maxRetriesExceeded (index max : ℕ)
  | scheduler (message : String)
  deriving DecidableEq

def MultiSourceError.display : MultiSourceError → String
  | wire e => "wire error: " ++ e.display
  | transport e => "transport error: " ++ e.display
  | storage message => "storage error: " ++ message
  | io message => "io error: " ++ message
  | assemble message => "assemble error: " ++ message
  | duplicatePeerId peerId => "duplicate peer_id in sources: " ++ peerId
  | noSources => "no sources configured"
  | allSourcesExhausted index => "all sources exhausted for chunk " ++ toString index
  | allSourcesGone => "all source transports closed"
  | cancelled => "session cancelled"
  | maxRetriesExceeded index max =>
    "chunk " ++ toString index ++ " exceeded max retries (" ++ toString max ++ ")"
  | scheduler message => "scheduler error: " ++ message

/-! ### State -/

/-- A source: its priority, the window of its scheduler, and what demotes it. -/
structure SourceHandle where
  peerId : String
  priority : ℤ
  slots : Finset ℕ
  demotionCount : ℕ
  unavailable : Bool
  unavailableSince : Option ℕ
  rttSamples : List (ℕ × ℕ)

/-- A source as the caller of `MultiSourceReceiver::new` makes it. -/
def SourceHandle.fresh (peerId : String) (priority : ℤ) : SourceHandle :=
  ⟨peerId, priority, ∅, 0, false, none, []⟩

structure InflightRecord where
  peerId : String
  requestedAt : ℕ
  deriving DecidableEq

/-- What the orchestrator keeps. -/
structure Receiver where
  sources : List SourceHandle
  inFlight : AMap ℕ InflightRecord
  chunkRetries : AMap ℕ ℕ
  chunkTried : AMap ℕ (Finset String)
  nakCounters : AMap (ℕ × String) ℕ
  consecutiveStuck : AMap (ℕ × String) ℕ
  haveSet : Finset ℕ

/-- The first id that occurs again. -/
def duplicateId : List String → List String → Option String
  | _, [] => none
  | seen, id :: ids => if id ∈ seen then some id else duplicateId (id :: seen) ids

/-- `MultiSourceReceiver::new`. -/
def Receiver.new (sources : List SourceHandle) : Except MultiSourceError Receiver :=
  if sources = [] then .error .noSources
  else
    match duplicateId [] (sources.map SourceHandle.peerId) with
    | some id => .error (.duplicatePeerId id)
    | none => .ok ⟨sources, ∅, ∅, ∅, ∅, ∅, ∅⟩

/-! ### Choosing a source -/

namespace SourceHandle

/-- `pick` passes over the source for now. -/
def coolingDown (now : ℕ) (h : SourceHandle) : Bool :=
  h.unavailable && h.unavailableSince.any fun since => decide (now - since < rttCooldown)

/-- The better of two sources: by priority, then by demotions, then by id. -/
def better (current h : SourceHandle) : SourceHandle :=
  if h.priority < current.priority then h
  else if current.priority < h.priority then current
  else if h.demotionCount < current.demotionCount then h
  else if current.demotionCount < h.demotionCount then current
  else if h.peerId < current.peerId then h
  else current

/-- The best source so far and one more. -/
def consider (tried : Finset String) (now : ℕ) (best : Option SourceHandle) (h : SourceHandle) :
    Option SourceHandle :=
  if h.coolingDown now then best
  else if h.peerId ∈ tried then best
  else
    match best with
    | none => some h
    | some current => some (current.better h)

/-- `SourceSelector::pick`. -/
def pick (tried : Finset String) (now : ℕ) (handles : List SourceHandle) : Option SourceHandle :=
  handles.foldl (consider tried now) none

/-- `maybe_recover_sources`, of one source. -/
def recover (now : ℕ) (h : SourceHandle) : SourceHandle :=
  if h.unavailable && h.unavailableSince.any fun since => decide (rttCooldown ≤ now - since) then
    { h with unavailable := false, unavailableSince := none }
  else h

def acquireSlot (index : ℕ) (h : SourceHandle) : SourceHandle :=
  { h with slots := insert index h.slots }

/-- `release_slot`. -/
def releaseSlot (index : ℕ) (h : SourceHandle) : SourceHandle :=
  { h with slots := h.slots.erase index }

/-- The slot of a chunk it is demoted for is released. -/
def demote (index : ℕ) (h : SourceHandle) : SourceHandle :=
  { h.releaseSlot index with demotionCount := h.demotionCount + 1 }

/-- A new sample; the oldest go. -/
def sampled (now rtt : ℕ) (h : SourceHandle) : SourceHandle :=
  let samples := h.rttSamples ++ [(now, rtt)]
  { h with rttSamples := samples.drop (samples.length - rttWindowCap) }

end SourceHandle

/-- `rtt_p95`. -/
def rttP95 (samples : List (ℕ × ℕ)) (window now : ℕ) : Option ℕ :=
  let inWindow := ((samples.filter fun s => decide (now - s.1 ≤ window)).map Prod.snd).mergeSort
  inWindow[divCeil (inWindow.length * 95) 100 - 1]?

/-- The demotion policy of `handle_chunk`. -/
def SourceHandle.demoteByRtt (now : ℕ) (h : SourceHandle) : SourceHandle :=
  if h.unavailable then h
  else if (rttP95 h.rttSamples rttP95Window now).any fun p => decide (rttP95LimitMs < p) then
    { h with unavailable := true, unavailableSince := some now }
  else h

namespace Receiver

def updateSource (peerId : String) (f : SourceHandle → SourceHandle) (s : Receiver) : Receiver :=
  { s with sources := s.sources.map fun h => if h.peerId = peerId then f h else h }

def hasSource (peerId : String) (s : Receiver) : Bool := s.sources.any fun h => h.peerId == peerId

def triedOf (index : ℕ) (s : Receiver) : Finset String := (s.chunkTried.get index).getD ∅

def retriesOf (index : ℕ) (s : Receiver) : ℕ := (s.chunkRetries.get index).getD 0

/-- The chunk is in flight at this source. -/
def inFlightAt (index : ℕ) (peerId : String) (s : Receiver) : Bool :=
  (s.inFlight.get index).any fun record => record.peerId == peerId

def dropRecord (index : ℕ) (s : Receiver) : Receiver :=
  { s with inFlight := s.inFlight.erase index }

/-- Every source was demoted for the chunk. -/
def refusedByAll (index : ℕ) (s : Receiver) : Bool :=
  !s.sources.isEmpty && s.sources.all fun h => decide (h.peerId ∈ s.triedOf index)

/-- The chunks to ask for. -/
def pending (plan : DownloadPlan) (s : Receiver) : List ℕ :=
  ((plan.chunks.map PlannedChunk.index).filter fun i => (s.inFlight.get i).isNone).filter
    fun i => decide (i ∉ s.haveSet)

/-- `apply_nak`. -/
def applyNak (index : ℕ) (peerId : String) (s : Receiver) :
    Except MultiSourceError Unit × Receiver :=
  let s := { s with consecutiveStuck := s.consecutiveStuck.erase (index, peerId) }
  -- the chunk is no longer in flight at this source
  if !s.inFlightAt index peerId then (.ok (), s)
  else
    let retries := s.retriesOf index + 1
    let s := { s with chunkRetries := s.chunkRetries.insert index retries }
    if maxChunkRetries ≤ retries then (.error (.allSourcesExhausted index), s)
    else
      let count := (s.nakCounters.get (index, peerId)).getD 0 + 1
      if nakThreshold ≤ count then
        let s := { s with
          chunkTried := s.chunkTried.insert index (insert peerId (s.triedOf index))
          nakCounters := s.nakCounters.erase (index, peerId) }
        (.ok (), (s.updateSource peerId (.demote index)).dropRecord index)
      else (.ok (), { s with nakCounters := s.nakCounters.insert (index, peerId) count })

end Receiver

/-! ### Effects -/

/-- What the wait of the loop ends with. -/
inductive Inbound where
  | cancelled
  | tick
  | frame (peerId : String) (f : Frame)
  | gone
  deriving DecidableEq

/-- What the orchestrator does.  `checked` says whether the caller of a send looks at its outcome;
`head` and `await` show the state at the head of the loop and at its wait, and a request for a slot
the window it finds. -/
inductive Act where
  | store (e : Effect)
  | completedChunkIndices
  | recordState (state : DownloadState) (errorMessage : Option String)
  | now
  | send (peerId : String) (frame : Frame) (checked : Bool)
  | tryAcquireSlot (peerId : String) (index : ℕ) (slots : Finset ℕ)
  | stuckOrder (stuck : List (ℕ × String))
  | head (s : Receiver)
  | await (s : Receiver)
  | writePart (index : ℕ) (bytes : Bytes)
  | createStaging
  | readPart (index : ℕ)
  | syncStaging
  | removeStaging
  | rereadStaging
  | completeDownload
  | cleanupIncomplete
  | close (peerId : String)

namespace Act

def Resp : Act → Type
  | store e => e.Resp
  | completedChunkIndices => Except String (List ℕ)
  | recordState _ _ => Unit
  | now => ℕ
  | send _ _ _ => SendOutcome
  | tryAcquireSlot _ _ _ => Bool
  | stuckOrder stuck => { order : List (ℕ × String) // order.Perm stuck }
  | head _ => Unit
  | await _ => Inbound
  | writePart _ _ => Except String Unit
  | createStaging => Except AssembleError Unit
  | readPart _ => Except AssembleError (String × Bytes)
  | syncStaging => Except AssembleError Unit
  | removeStaging => Unit
  | rereadStaging => Except AssembleError Bytes
  | completeDownload => Except AssembleError Unit
  | cleanupIncomplete => Unit
  | close _ => Unit

end Act

end Locast.Transfer

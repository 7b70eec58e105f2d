import Locast.Lib.Machine
import Mathlib.Data.Finset.Erase
import Mathlib.Data.Finset.Insert
import Mathlib.Logic.Function.Basic

/-!
# Shared media (`hooks/useSharedMediaBridge.ts`, `stores/useSharedMediaStore.ts`)

`SharedMediaBridge` follows the room and its manifest, and makes every shared item local through
`openDownload`.  A `Bridge` is the store with the bridge's own variables and what is under way:
calls, retry timers and the continuations that wait for an answer; each of them may go on at any
time.  Left out are the delays of the timers, the message of a failed manifest fetch and the
bridge's disposal.
-/

namespace Locast.Client.SharedMedia

open Locast.Lib

/-! ### Downloads and items -/

inductive DownloadState where
  | pending
  | connecting
  | transferring
  | verifying
  | complete
  | failed
  | cancelled
  | paused
  deriving DecidableEq

/-- `DownloadStateEvent`. -/
structure DownloadStateEvent where
  id : String
  state : DownloadState
  errorMessage : Option String
  deriving DecidableEq

/-- What `openDownload` resolves to. -/
structure DownloadSession where
  downloadId : String
  mediaId : String
  state : DownloadState
  dedupHit : Bool
  transferStarted : Bool
  deriving DecidableEq

/-- `SharedItemStatus`. -/
inductive SharedItemStatus where
  | checking
  | waiting (downloadId localMediaId : String)
  | downloading (downloadId localMediaId : String)
  | ready (localMediaId : String) (dedup : Bool)
  | error (message : String)
  deriving DecidableEq

namespace SharedItemStatus

/-- The kind `local`. -/
def isLocal : SharedItemStatus → Bool
  | .ready .. => true
  | _ => false

def isError : SharedItemStatus → Bool
  | .error _ => true
  | _ => false

def isWaiting : SharedItemStatus → Bool
  | .waiting .. => true
  | _ => false

end SharedItemStatus

/-- What an answer of `openDownload` makes of its item. -/
def statusOf : Except String DownloadSession → SharedItemStatus
  | .error message => .error message
  | .ok r =>
    if r.state = .complete then .ready r.mediaId r.dedupHit
    else if r.transferStarted then .downloading r.downloadId r.mediaId
    else .waiting r.downloadId r.mediaId

/-- `download ${ev.state}`. -/
def DownloadState.name : DownloadState → String
  | .pending => "pending"
  | .connecting => "connecting"
  | .transferring => "transferring"
  | .verifying => "verifying"
  | .complete => "complete"
  | .failed => "failed"
  | .cancelled => "cancelled"
  | .paused => "paused"

/-- The transfer is over. -/
def DownloadState.isOver : DownloadState → Bool
  | .complete | .failed | .cancelled => true
  | _ => false

/-- What the state of its download makes of an item. -/
def foldedBy (ev : DownloadStateEvent) (localMediaId : String) (item : SharedItemStatus) :
    SharedItemStatus :=
  if ev.state = .complete then .ready localMediaId false
  else if ev.state = .failed ∨ ev.state = .cancelled then
    .error (ev.errorMessage.getD ("download " ++ ev.state.name))
  else item

/-- The body of the download store's subscription, for one item. -/
def folded (states : String → Option DownloadStateEvent) (item : SharedItemStatus) :
    SharedItemStatus :=
  match item with
  | .downloading downloadId localMediaId | .waiting downloadId localMediaId =>
    match states downloadId with
    | none => item
    | some ev => foldedBy ev localMediaId item
  | _ => item

/-! ### The bridge -/

/-- `RoomSummaryIpc`. -/
structure RoomSummary where
  id : String
  youUserId : Option String
  hostUserId : String
  deriving DecidableEq

/-- `isHost` of `onSummary`. -/
def isHostOf (summary : Option RoomSummary) : Bool :=
  summary.any fun s => s.youUserId.any (· = s.hostUserId)

/-- An `openDownload` that has not settled, in the `acquire` that awaits it; `stay` is the stay in
which it was made. -/
structure Call where
  roomId : String
  mediaId : String
  attempt : ℕ
  stay : ℕ
  deriving DecidableEq

/-- A retry timer, with the arguments of its `acquire`. -/
structure RetryTimer where
  roomId : String
  mediaId : String
  attempt : ℕ
  deriving DecidableEq

/-- What waits for an answer, or for its turn: a `refresh` of the room, with the summary that awaits
it; `onSummary` after its `refresh`; and `onSummary` at `fetchManifest`. -/
inductive Task where
  | manifest (roomId : String) (next : Option (String × Bool))
  | refreshed (roomId : String) (isHost : Bool)
  | fetch
  deriving DecidableEq

/-- The store, the bridge's variables and what is under way.  `states` is the download store, and
`stay` numbers the times that the store was reset. -/
structure Bridge where
  roomId : Option String
  isHost : Bool
  manifest : Option (List String)
  items : String → Option SharedItemStatus
  timers : List RetryTimer
  inflight : Finset String
  fetchedFor : Option String
  calls : List Call
  tasks : List Task
  states : String → Option DownloadStateEvent
  stay : ℕ

namespace Bridge

def start : Bridge where
  roomId := none
  isHost := false
  manifest := none
  items := fun _ => none
  timers := []
  inflight := ∅
  fetchedFor := none
  calls := []
  tasks := []
  states := fun _ => none
  stay := 0

/-! #### The store -/

def reset (s : Bridge) (roomId : Option String) (isHost : Bool) : Bridge :=
  { s with
    roomId
    isHost
    manifest := none
    items := fun _ => none
    stay := s.stay + 1 }

def setItem (s : Bridge) (mediaId : String) (status : SharedItemStatus) : Bridge :=
  { s with items := Function.update s.items mediaId (some status) }

/-! #### `acquire` -/

/-- The part of `acquire` in which the call is made. -/
def called (s : Bridge) (roomId mediaId : String) (attempt : ℕ) : Bridge :=
  { s with
    inflight := insert mediaId s.inflight
    items := if s.items mediaId = none then Function.update s.items mediaId (some .checking)
      else s.items
    calls := s.calls ++ [⟨roomId, mediaId, attempt, s.stay⟩] }

/-- `acquire` up to its `await`. -/
def acquire (s : Bridge) (roomId mediaId : String) (attempt : ℕ) : Bridge :=
  if s.roomId ≠ some roomId then s
  else if attempt = 0 ∧ (s.items mediaId).any (!·.isError) then s
  else if mediaId ∈ s.inflight then s
  else s.called roomId mediaId attempt

/-- `acquire` from its answer to the `finally`. -/
def answered (s : Bridge) (c : Call) (answer : Except String DownloadSession) : Bridge :=
  if s.roomId ≠ some c.roomId then s
  else
    let s := s.setItem c.mediaId (statusOf answer)
    if (statusOf answer).isWaiting then
      { s with timers := s.timers ++ [⟨c.roomId, c.mediaId, c.attempt + 1⟩] }
    else s

/-- The `finally` of `acquire`. -/
def released (s : Bridge) (mediaId : String) : Bridge :=
  { s with inflight := s.inflight.erase mediaId }

/-! #### `refresh` and `onSummary` -/

/-- `refresh` is over. -/
def refreshOver (s : Bridge) : Option (String × Bool) → Bridge
  | none => s
  | some (roomId, isHost) => { s with tasks := s.tasks ++ [.refreshed roomId isHost] }

/-- `refresh` up to its `await`. -/
def refresh (s : Bridge) (next : Option (String × Bool)) : Bridge :=
  match s.roomId with
  | none => s.refreshOver next
  | some roomId => { s with tasks := s.tasks ++ [.manifest roomId next] }

/-- `refresh` with a manifest. -/
def shown (s : Bridge) (roomId : String) (m : Option (List String)) : Bridge :=
  let s := { s with manifest := m }
  if s.isHost then s else (m.getD []).foldl (fun s mediaId => s.acquire roomId mediaId 0) s

/-- `refresh` from its answer on. -/
def refreshed (s : Bridge) (roomId : String) (next : Option (String × Bool))
    (answer : Except String (Option (List String))) : Bridge :=
  match answer with
  | .error _ => s.refreshOver next
  | .ok m => (if s.roomId ≠ some roomId then s else s.shown roomId m).refreshOver next

/-- The first part of `onSummary`: another room begins, or the host changes. -/
def followed (s : Bridge) (roomId : Option String) (isHost : Bool) : Bridge :=
  if s.roomId ≠ roomId then
    { s with
      timers := []
      inflight := ∅
      fetchedFor := none }.reset roomId isHost
  else { s with isHost }

/-- `onSummary` up to its first `await`. -/
def onSummary (s : Bridge) (summary : Option RoomSummary) : Bridge :=
  let s := s.followed (summary.map (·.id)) (isHostOf summary)
  match summary with
  | none => s
  | some summary => s.refresh (some (summary.id, isHostOf (some summary)))

/-- `onSummary` after its first `refresh`. -/
def resumed (s : Bridge) (roomId : String) (isHost : Bool) : Bridge :=
  if isHost ∨ s.fetchedFor = some roomId then s
  else if s.manifest ≠ none then s
  else
    { s with
      fetchedFor := some roomId
      tasks := s.tasks ++ [.fetch] }

/-! #### The download store -/

/-- The subscription, after a change of the download store. -/
def onDownloads (s : Bridge) (states : String → Option DownloadStateEvent) : Bridge :=
  { s with
    states
    items := fun mediaId => (s.items mediaId).map (folded states) }

/-- `resetRoomScopedStores`, of a deliberate leave or at the room's end. -/
def leave (s : Bridge) : Bridge := (s.reset none false).onDownloads fun _ => none

end Bridge

/-! ### Steps -/

/-- What can happen next.  A number says which call, task or timer it is about. -/
inductive BridgeInput where
  | summary (summary : Option RoomSummary)
  | leave
  | manifestState
  | manifest (k : ℕ) (answer : Except String (Option (List String)))
  | resume (k : ℕ)
  | fetched (k : ℕ)
  | answer (k : ℕ) (answer : Except String DownloadSession)
  | fire (k : ℕ)
  | downloadState (ev : DownloadStateEvent)
  | downloadProgress
  | dismiss (id : String)

namespace Bridge

/-- One step. -/
def step (s : Bridge) : BridgeInput → Option Bridge
  | .summary summary => some (s.onSummary summary)
  | .leave => some s.leave
  | .manifestState => some (s.refresh none)
  | .manifest k answer =>
    match s.tasks[k]? with
    | some (.manifest roomId next) =>
      some ({ s with tasks := s.tasks.eraseIdx k }.refreshed roomId next answer)
    | _ => none
  | .resume k =>
    match s.tasks[k]? with
    | some (.refreshed roomId isHost) =>
      some ({ s with tasks := s.tasks.eraseIdx k }.resumed roomId isHost)
    | _ => none
  | .fetched k =>
    match s.tasks[k]? with
    | some .fetch => some ({ s with tasks := s.tasks.eraseIdx k }.refresh none)
    | _ => none
  | .answer k answer =>
    (s.calls[k]?).map fun c =>
      ({ s with calls := s.calls.eraseIdx k }.answered c answer).released c.mediaId
  | .fire k =>
    (s.timers[k]?).map fun t =>
      { s with timers := s.timers.eraseIdx k }.acquire t.roomId t.mediaId t.attempt
  | .downloadState ev => some (s.onDownloads (Function.update s.states ev.id (some ev)))
  | .downloadProgress => some (s.onDownloads s.states)
  | .dismiss id => some (s.onDownloads (Function.update s.states id none))

end Bridge

/-- A bridge in its run: what it was last told of each download, which items have been local in this
stay, and whether a late answer has changed something. -/
structure BridgeRun where
  bridge : Bridge
  told : String → Option DownloadState
  reachedLocal : String → Bool
  disturbed : Bool

namespace BridgeRun

def start : BridgeRun := ⟨.start, fun _ => none, fun _ => false, false⟩

/-- An item is local. -/
def localIn (s : Bridge) (mediaId : String) : Bool := (s.items mediaId).any (·.isLocal)

/-- What the client has been told after an input. -/
def toldAfter (r : BridgeRun) : BridgeInput → String → Option DownloadState
  | .downloadState ev => Function.update r.told ev.id (some ev.state)
  | _ => r.told

/-- An answer of an earlier stay has changed its item, or released its mark, in the room now
held. -/
def disturbs (s s' : Bridge) : BridgeInput → Bool
  | .answer k _ => (s.calls[k]?).any fun c => c.stay ≠ s.stay && s.roomId ≠ none &&
      (s'.items c.mediaId ≠ s.items c.mediaId ||
        (c.mediaId ∈ s.inflight && c.mediaId ∉ s'.inflight))
  | _ => false

end BridgeRun

/-- **The machine of the bridge.** -/
def bridgeMachine : Machine BridgeRun BridgeInput := fun r i =>
  (r.bridge.step i).map fun s =>
    { bridge := s
      told := r.toldAfter i
      reachedLocal := fun m => (s.stay = r.bridge.stay && r.reachedLocal m) || BridgeRun.localIn s m
      disturbed := r.disturbed || BridgeRun.disturbs r.bridge s i }

/-! ### What is promised -/

namespace Bridge

/-- A retry timer is armed. -/
def armed (s : Bridge) (mediaId : String) : Prop := ∃ t ∈ s.timers, t.mediaId = mediaId

instance (s : Bridge) (mediaId : String) : Decidable (s.armed mediaId) :=
  inferInstanceAs (Decidable (∃ t ∈ s.timers, _))

/-- A call made in this stay is outstanding. -/
def asked (s : Bridge) (mediaId : String) : Prop :=
  ∃ c ∈ s.calls, c.stay = s.stay ∧ c.mediaId = mediaId

end Bridge

namespace BridgeRun

/-- The last that was told of a download is its end. -/
def ended (r : BridgeRun) (downloadId : String) : Prop := (r.told downloadId).any (·.isOver)

instance (r : BridgeRun) (downloadId : String) : Decidable (r.ended downloadId) :=
  inferInstanceAs (Decidable (_ = true))

/-- **An item is in hand**: local, in error, downloading under a transfer that has not ended, or
with a call outstanding or a retry timer armed. -/
def InHand (r : BridgeRun) (mediaId : String) : Prop :=
  (∃ st, r.bridge.items mediaId = some st ∧
    (st.isLocal ∨ st.isError ∨ ∃ d l, st = .downloading d l ∧ ¬r.ended d)) ∨
  r.bridge.asked mediaId ∨ r.bridge.armed mediaId

/-- **What the bridge promises.** -/
structure Faithful (r : BridgeRun) : Prop where
  oneCall : ∀ m, (r.bridge.calls.filter fun c => c.stay = r.bridge.stay ∧ c.mediaId = m).length ≤ 1
  oneTimer : ∀ m, (r.bridge.timers.filter fun t => t.mediaId = m).length ≤ 1
  undisturbed : r.disturbed = false
  local_kept : ∀ m, r.reachedLocal m → localIn r.bridge m
  inHand : r.bridge.isHost = false → ∀ m ∈ r.bridge.manifest.getD [], r.InHand m

/-! ### Orderly runs -/

/-- An answer to a call of this stay: it does not turn back a local item, begin a second timer, or
report a transfer that is known to have ended. -/
def Timely (r : BridgeRun) (c : Call) (st : SharedItemStatus) : Prop :=
  (localIn r.bridge c.mediaId → st.isLocal) ∧ (st.isWaiting → ¬r.bridge.armed c.mediaId) ∧
    match st with
    | .downloading d _ => ¬r.ended d ∨ r.bridge.armed c.mediaId
    | _ => True

/-- An answer to a call of an earlier stay, in a room: its item has no call in this stay, and stands
as it says if the room is the same. -/
def Harmless (r : BridgeRun) (c : Call) (st : SharedItemStatus) : Prop :=
  c.mediaId ∉ r.bridge.inflight ∧
    (r.bridge.roomId = some c.roomId →
      r.bridge.items c.mediaId = some st ∧ (st.isWaiting → ¬r.bridge.armed c.mediaId))

instance (r : BridgeRun) (c : Call) (st : SharedItemStatus) : Decidable (r.Timely c st) := by
  unfold Timely
  cases st <;> infer_instance

instance (r : BridgeRun) (c : Call) (st : SharedItemStatus) : Decidable (r.Harmless c st) := by
  unfold Harmless
  infer_instance

/-- **An orderly input**: late answers are harmless and the others timely, and the host of a room
becomes a viewer only when every item of the manifest has a status. -/
def orderly (r : BridgeRun) : BridgeInput → Prop
  | .answer k answer => ∀ c ∈ r.bridge.calls[k]?,
      if c.stay = r.bridge.stay then r.Timely c (statusOf answer)
      else r.bridge.roomId ≠ none → r.Harmless c (statusOf answer)
  | .summary summary =>
      r.bridge.roomId = summary.map (·.id) ∧ r.bridge.isHost = true ∧ isHostOf summary = false →
        ∀ m ∈ r.bridge.manifest.getD [], r.bridge.items m ≠ none
  | _ => True

instance (r : BridgeRun) (i : BridgeInput) : Decidable (orderly r i) := by
  cases i <;> unfold orderly <;> infer_instance

end BridgeRun

end Locast.Client.SharedMedia

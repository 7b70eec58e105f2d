import Locast.Lib.AssocMap
import Locast.Lib.Least
import Locast.Protocol.Room
import Mathlib.Data.List.Sort

/-!
# Stroke bookkeeping (`rooms/state.rs`)

The per-room record of the strokes in progress, of the committed strokes and of the content kept for
`DRAW_SYNC`.  A `VecDeque` is a list (`push_back` appends, `pop_front` takes the head), a `HashMap`
an `AMap`.

A `usize` subtraction is `checkedSub`: it panics in a debug build and wraps in a release build, so
every function that can reach one returns an `Option` and `none` is the underflow.
-/

namespace Locast.Rooms

open Locast.Lib Locast.Protocol

/-- The binding of a stroke id to the sender that began the stroke. -/
structure PendingStroke where
  senderId : Uuid
  senderPubkey : PubKey
  startedMs : ℤ
  cleared : Bool
  deriving DecidableEq

def maxCommittedStrokes : ℕ := 5000
def maxRetainedPoints : ℕ := 50000
def maxRetainedPointsPerStroke : ℕ := 10000
def maxRetainedColorBytes : ℕ := 64
def maxOpenStrokesPerUser : ℕ := 8
def maxOpenStrokesPerRoom : ℕ := 64

/-- The content of one stroke, kept for `DRAW_SYNC`. -/
structure StrokeContent where
  owner : Uuid
  begin : StrokeBeginPayload
  points : List StrokeSyncPoint
  endTsMs : Option ℤ
  dropped : Bool
  deriving DecidableEq

structure StrokeBookkeeping where
  pending : AMap Uuid PendingStroke
  committed : AMap Uuid Uuid
  committedOrder : List Uuid
  seq : ℕ
  content : AMap Uuid StrokeContent
  retainedPoints : ℕ
  evictOrder : List Uuid

/-- `a - b` on `usize`; `none` is the underflow. -/
def checkedSub (a b : ℕ) : Option ℕ := if b ≤ a then some (a - b) else none

lemma checkedSub_of_le {a b : ℕ} (h : b ≤ a) : checkedSub a b = some (a - b) := if_pos h

namespace StrokeBookkeeping

/-- `StrokeBookkeeping::default`. -/
def empty : StrokeBookkeeping where
  pending := ∅
  committed := ∅
  committedOrder := []
  seq := 0
  content := ∅
  retainedPoints := 0
  evictOrder := []

/-- `StrokeBookkeeping::new` at the wall clock `nowMs`: the sequence starts from the clock, so a
restored room never numbers its events below what clients already applied. -/
def new (nowMs : ℕ) : StrokeBookkeeping :=
  { empty with seq := min (nowMs * 1000) (2 ^ 64 - 1) }

/-- `next_seq`: the new value and the advanced bookkeeping. -/
def nextSeq (s : StrokeBookkeeping) : ℕ × StrokeBookkeeping :=
  (s.seq + 1, { s with seq := s.seq + 1 })

/-- Forget a stroke's content entirely. -/
def forgetContent (s : StrokeBookkeeping) (strokeId : Uuid) : Option StrokeBookkeeping :=
  match s.content.get strokeId with
  | none => some s
  | some c => do
    let retained ← checkedSub s.retainedPoints c.points.length
    some { s with content := s.content.erase strokeId, retainedPoints := retained }

/-- Free a stroke's points but keep its entry. -/
def dropContent (s : StrokeBookkeeping) (strokeId : Uuid) : Option StrokeBookkeeping :=
  match s.content.get strokeId with
  | none => some s
  | some c => do
    let retained ← checkedSub s.retainedPoints c.points.length
    some { s with
      content := s.content.insert strokeId { c with points := [] }
      retainedPoints := retained }

def markDropped (s : StrokeBookkeeping) (strokeId : Uuid) : StrokeBookkeeping :=
  match s.content.get strokeId with
  | none => s
  | some c => { s with content := s.content.insert strokeId { c with dropped := true } }

/-! ### Committing a stroke -/

/-- The loop of `commit`: pop the oldest committed stroke while there are more than the cap.
Returns the map, the order and the ids forgotten. -/
def popOverCap (committed : AMap Uuid Uuid) : List Uuid → AMap Uuid Uuid × List Uuid × List Uuid
  | [] => (committed, [], [])
  | old :: rest =>
    if maxCommittedStrokes < (old :: rest).length then
      let (committed', order, forgotten) := popOverCap (committed.erase old) rest
      (committed', order, old :: forgotten)
    else (committed, old :: rest, [])

/-- Record `strokeId` as a committed stroke of `owner`; also returns the ids forgotten. -/
def commit (s : StrokeBookkeeping) (strokeId owner : Uuid) :
    Option (StrokeBookkeeping × List Uuid) := do
  let order := if strokeId ∈ s.committed then s.committedOrder else s.committedOrder ++ [strokeId]
  let (committed, order, forgotten) := popOverCap (s.committed.insert strokeId owner) order
  let s ← forgotten.foldlM forgetContent { s with committed, committedOrder := order }
  some (s, forgotten)

/-! ### Keeping content -/

/-- Keep the content of a stroke `DRAW_BEGIN` just opened. -/
def recordBegin (s : StrokeBookkeeping) (owner : Uuid) (begin : StrokeBeginPayload) :
    Option StrokeBookkeeping := do
  let s ← s.forgetContent begin.strokeId
  let oversized : Bool := maxRetainedColorBytes < begin.color.utf8ByteSize
  let kept := if oversized then { begin with color := "" } else begin
  some { s with
    content := s.content.insert begin.strokeId
      { owner, begin := kept, points := [], endTsMs := none, dropped := oversized } }

/-- A committed stroke whose content has points to free. -/
def holdsPoints (s : StrokeBookkeeping) (id : Uuid) : Bool :=
  decide (id ∈ s.committed) &&
    match s.content.get id with
    | some c => !c.dropped && !c.points.isEmpty
    | none => false

/-- The eviction of `record_point`, over the queue: while the budget is full, pop the next id and,
if it is a committed stroke that holds points, free them.  The flag is `false` when the queue ran
out first.  (The source has two nested loops: the inner one pops up to the next victim.) -/
def makeRoom (s : StrokeBookkeeping) : List Uuid → Option (Bool × StrokeBookkeeping)
  | [] => some (decide (s.retainedPoints < maxRetainedPoints), { s with evictOrder := [] })
  | id :: queue =>
    if s.retainedPoints < maxRetainedPoints then some (true, { s with evictOrder := id :: queue })
    else if s.holdsPoints id then do
      let s ← s.dropContent id
      makeRoom (s.markDropped id) queue
    else makeRoom s queue

/-- Keep one accepted `DRAW_POINT`, within the budgets. -/
def recordPoint (s : StrokeBookkeeping) (point : StrokePointPayload) : Option StrokeBookkeeping :=
  match s.content.get point.strokeId with
  | none => some s
  | some c =>
    if c.dropped then some s
    else if maxRetainedPointsPerStroke ≤ c.points.length then do
      let s ← s.dropContent point.strokeId
      some (s.markDropped point.strokeId)
    else do
      let (hasRoom, s) ← s.makeRoom s.evictOrder
      if hasRoom then
        match s.content.get point.strokeId with
        | none => some s
        | some c =>
          let kept : StrokeSyncPoint :=
            { x := point.x, y := point.y, pressure := point.pressure, tsMs := point.tsMs }
          some { s with
            content := s.content.insert point.strokeId { c with points := c.points ++ [kept] }
            retainedPoints := s.retainedPoints + 1 }
      else do
        -- only strokes in progress hold content: stop keeping this one
        let s ← s.dropContent point.strokeId
        some (s.markDropped point.strokeId)

/-- Drop the undone and forgotten ids from a queue that has grown past twice the cap. -/
def cleanQueue (committed : AMap Uuid Uuid) (queue : List Uuid) : List Uuid :=
  if 2 * maxCommittedStrokes < queue.length then queue.filter (· ∈ committed) else queue

/-- Record a committed stroke's `DRAW_END` timestamp. -/
def recordEnd (s : StrokeBookkeeping) (strokeId : Uuid) (tsMs : ℤ) : StrokeBookkeeping :=
  let s := match s.content.get strokeId with
    | none => s
    | some c => { s with
        content := s.content.insert strokeId { c with endTsMs := some tsMs }
        evictOrder := s.evictOrder ++ [strokeId] }
  { s with evictOrder := cleanQueue s.committed s.evictOrder }

/-! ### Bounding the open strokes -/

/-- The strokes `user` has open. -/
def userOpen (s : StrokeBookkeeping) (user : Uuid) : ℕ :=
  s.pending.countBy fun p => p.senderId == user

def overUser (s : StrokeBookkeeping) (user : Uuid) : Bool :=
  maxOpenStrokesPerUser ≤ s.userOpen user

def overRoom (s : StrokeBookkeeping) : Bool := maxOpenStrokesPerRoom ≤ s.pending.size

/-- The order of `(started_ms, stroke_id)`. -/
def startsBefore (a b : (_ : Uuid) × PendingStroke) : Bool :=
  a.2.startedMs < b.2.startedMs || (a.2.startedMs == b.2.startedMs && a.1 < b.1)

/-- The oldest open stroke, of `user` if that is the bound reached, else of the room. -/
def oldestOpen (s : StrokeBookkeeping) (user : Uuid) : Option ((_ : Uuid) × PendingStroke) :=
  least startsBefore
    (s.pending.entries.filter fun e => !s.overUser user || e.2.senderId == user)

/-- Remove an open stroke as `DRAW_END` at `nowMs` would: a cleared one is forgotten, any other is
committed and reported. -/
def finishOpen (s : StrokeBookkeeping) (strokeId : Uuid) (stroke : PendingStroke) (nowMs : ℤ) :
    Option (StrokeBookkeeping × List (Uuid × Uuid)) := do
  let s := { s with pending := s.pending.erase strokeId }
  if stroke.cleared then do
    let s ← s.forgetContent strokeId
    some (s, [])
  else do
    let (s, _) ← s.commit strokeId stroke.senderId
    some (s.recordEnd strokeId nowMs, [(strokeId, stroke.senderId)])

/-- The loop of `finish_oldest_open_strokes`.  Each round removes one of the open strokes, so as
many rounds as there are open strokes are enough. -/
def finishOldestLoop (user : Uuid) (nowMs : ℤ) :
    ℕ → StrokeBookkeeping → Option (StrokeBookkeeping × List (Uuid × Uuid))
  | 0, s => some (s, [])
  | rounds + 1, s =>
    if !s.overUser user && !s.overRoom then some (s, [])
    else match s.oldestOpen user with
      | none => some (s, [])
      | some ⟨strokeId, stroke⟩ => do
        let (s, finished) ← s.finishOpen strokeId stroke nowMs
        let (s, later) ← finishOldestLoop user nowMs rounds s
        some (s, finished ++ later)

/-- Make room for one more stroke that `user` is about to begin.  Returns the id and the owner of
each stroke that was committed. -/
def finishOldestOpenStrokes (s : StrokeBookkeeping) (user : Uuid) (nowMs : ℤ) :
    Option (StrokeBookkeeping × List (Uuid × Uuid)) :=
  finishOldestLoop user nowMs s.pending.size s

/-! ### Reading, undoing and clearing -/

/-- The entry of one stroke in a snapshot; without content once that was dropped. -/
def syncEntry (s : StrokeBookkeeping) (id owner : Uuid) : StrokeSyncStroke :=
  let bare (endTsMs : Option ℤ) : StrokeSyncStroke :=
    { strokeId := id, ownerId := owner, begin := none, points := [], endTsMs }
  match s.content.get id with
  | none => bare none
  | some c =>
    if c.dropped then bare c.endTsMs
    else { strokeId := id, ownerId := c.owner, begin := some c.begin, points := c.points,
           endTsMs := c.endTsMs }

/-- The room's drawing state, for `DRAW_SYNC`: the committed strokes in commit order, then the open
strokes in the order they began. -/
def snapshot (s : StrokeBookkeeping) : StrokeSyncPayload where
  seq := s.seq
  strokes :=
    (s.committedOrder.filterMap fun id => (s.committed.get id).map (s.syncEntry id)) ++
      ((s.pending.entries.filter fun e => !e.2.cleared).insertionSort fun a b =>
        startsBefore b a = false).map fun e => s.syncEntry e.1 e.2.senderId

/-- The owner of a committed stroke. -/
def ownerOf (s : StrokeBookkeeping) (strokeId : Uuid) : Option Uuid := s.committed.get strokeId

/-- Remove one committed stroke; the flag says whether it was there. -/
def removeCommitted (s : StrokeBookkeeping) (strokeId : Uuid) : Option (Bool × StrokeBookkeeping) :=
  if strokeId ∈ s.committed then do
    let s ← { s with
      committed := s.committed.erase strokeId
      committedOrder := s.committedOrder.filter (· ≠ strokeId) }.forgetContent strokeId
    some (true, s)
  else some (false, s)

/-- `DRAW_CLEAR`: forget every committed stroke and mark every open one as cleared.  Also returns
how many committed strokes were forgotten. -/
def clearAll (s : StrokeBookkeeping) : ℕ × StrokeBookkeeping :=
  (s.committed.size,
    { s with
      pending := s.pending.mapVals fun stroke => { stroke with cleared := true }
      committed := ∅
      committedOrder := []
      content := ∅
      retainedPoints := 0
      evictOrder := [] })

end StrokeBookkeeping

end Locast.Rooms

import Locast.Rooms.Canvas
import Mathlib.Data.Finset.Dedup

/-!
# The drawing store (`stores/useDrawingStore.ts`, `hooks/useDrawingEventBridge.ts`)

The webview's copy of what others drew: the strokes that are open and those that have ended, in two
collections, and the number of the last drawing event or snapshot.
-/

namespace Locast.Client

open Locast.Lib Locast.Protocol Locast.Rooms

/-- A stroke of the store.  `endedAt` is zero while it is open. -/
structure RemoteStroke where
  id : Uuid
  userId : Uuid
  tool : StrokeTool
  color : String
  width : F32
  points : List StrokeSyncPoint
  startedAt : ℤ
  endedAt : ℤ
  deriving DecidableEq

structure DrawingStore where
  roomId : Option Uuid
  activeStrokes : AMap Uuid RemoteStroke
  completedStrokes : List RemoteStroke
  lastSeq : ℕ

namespace DrawingStore

/-- The store before it is given a room. -/
def initial : DrawingStore := ⟨none, ∅, [], 0⟩

def setRoomId (roomId : Option Uuid) (s : DrawingStore) : DrawingStore :=
  if roomId ≠ s.roomId then ⟨roomId, ∅, [], 0⟩ else s

/-- `acceptSeq`; zero is an event without a number. -/
def acceptSeq (seq : ℕ) (s : DrawingStore) : Bool × DrawingStore :=
  if seq = 0 then (true, s)
  else if seq ≤ s.lastSeq then (false, s)
  else (true, { s with lastSeq := seq })

def hasCompleted (id : Uuid) (s : DrawingStore) : Bool := s.completedStrokes.any (·.id = id)

/-- The copy of a stroke that the store has: an open one before one that ended. -/
def previous (id : Uuid) (s : DrawingStore) : Option RemoteStroke :=
  (s.activeStrokes.get id).or (s.completedStrokes.reverse.find? (·.id = id))

/-! ### Events -/

/-- The stroke a `DRAW_BEGIN` makes. -/
def begun (begin : StrokeBeginPayload) (userId : Uuid) : RemoteStroke where
  id := begin.strokeId
  userId := userId
  tool := begin.tool
  color := begin.color
  width := begin.width
  points := [⟨begin.x, begin.y, begin.pressure, begin.tsMs⟩]
  startedAt := begin.tsMs
  endedAt := 0

/-- `beginStroke`: a repeated begin changes nothing. -/
def beginStroke (begin : StrokeBeginPayload) (userId : Uuid) (s : DrawingStore) : DrawingStore :=
  if begin.strokeId ∈ s.activeStrokes ∨ s.hasCompleted begin.strokeId = true then s
  else { s with activeStrokes := s.activeStrokes.insert begin.strokeId (begun begin userId) }

def appendPoint (p : StrokePointPayload) (s : DrawingStore) : DrawingStore :=
  match s.activeStrokes.get p.strokeId with
  | none => s
  | some stroke => { s with
      activeStrokes := s.activeStrokes.insert p.strokeId
        { stroke with points := stroke.points ++ [syncPoint p] } }

def endStroke (p : StrokeEndPayload) (s : DrawingStore) : DrawingStore :=
  match s.activeStrokes.get p.strokeId with
  | none => s
  | some stroke => { s with
      activeStrokes := s.activeStrokes.erase p.strokeId
      completedStrokes := s.completedStrokes ++ [{ stroke with endedAt := p.tsMs }] }

def clearRoom (s : DrawingStore) : DrawingStore :=
  { s with activeStrokes := ∅, completedStrokes := [] }

def removeStroke (id : Uuid) (s : DrawingStore) : DrawingStore :=
  if id ∈ s.activeStrokes ∨ s.hasCompleted id = true then
    { s with
      activeStrokes := s.activeStrokes.erase id
      completedStrokes := s.completedStrokes.filter (·.id ≠ id) }
  else s

/-- What the bridge does for a drawing event that the store admits. -/
def draw (payload : WirePayload) (sender : Uuid) (s : DrawingStore) : DrawingStore :=
  match payload with
  | .strokeBegin p => s.beginStroke p sender
  | .strokePoint p => s.appendPoint p
  | .strokeEnd p => s.endStroke p
  | .strokeUndo p => s.removeStroke p.strokeId
  | .strokeClear => s.clearRoom
  | _ => s

/-- The bridge's handlers: an event of the room that the store admits.  An event without a sender
does not get here. -/
def receive (item : BroadcastItem) (s : DrawingStore) : Bool × DrawingStore :=
  match item.sender with
  | none => (false, s)
  | some sender =>
    if s.roomId ≠ some item.roomId then (false, s)
    else
      let out := s.acceptSeq item.seq
      if out.1 then (true, out.2.draw item.payload sender) else (false, out.2)

/-! ### Snapshots -/

/-- The stroke of a snapshot's entry, if the entry has content. -/
def synced (e : StrokeSyncStroke) : Option RemoteStroke :=
  e.begin.map fun begin =>
    { begun begin e.ownerId with
      id := e.strokeId
      points := ⟨begin.x, begin.y, begin.pressure, begin.tsMs⟩ :: e.points
      endedAt := e.endTsMs.getD 0 }

/-- One entry of a snapshot, into the two new collections. -/
def syncOne (localIds : Finset Uuid) (s : DrawingStore)
    (acc : AMap Uuid RemoteStroke × List RemoteStroke) (e : StrokeSyncStroke) :
    AMap Uuid RemoteStroke × List RemoteStroke :=
  if e.strokeId ∈ localIds then acc
  else
    match (match e.begin with
      | none => s.previous e.strokeId
      | some _ => synced e) with
    | none => acc
    | some stroke =>
      -- open in the snapshot, or content gone and open here
      if e.endTsMs = none ∧ (e.begin ≠ none ∨ e.strokeId ∈ s.activeStrokes) then
        (acc.1.insert stroke.id stroke, acc.2)
      else (acc.1, acc.2 ++ [stroke])

def applySnapshot (snapshot : StrokeSyncPayload) (localIds : Finset Uuid) (s : DrawingStore) :
    DrawingStore :=
  let out := snapshot.strokes.foldl (s.syncOne localIds) (∅, [])
  { s with
    activeStrokes := out.1
    completedStrokes := out.2
    lastSeq := max s.lastSeq snapshot.seq }

/-- The bridge's `onSync`. -/
def sync (roomId : Uuid) (snapshot : StrokeSyncPayload) (localIds : Finset Uuid)
    (s : DrawingStore) :
    DrawingStore :=
  if s.roomId ≠ some roomId then s else s.applySnapshot snapshot localIds

/-! ### Numbers -/

@[simp] lemma draw_lastSeq (payload : WirePayload) (sender : Uuid) (s : DrawingStore) :
    (s.draw payload sender).lastSeq = s.lastSeq := by
  cases payload with
  | strokeBegin p =>
    simp only [draw, beginStroke]
    split <;> rfl
  | strokePoint p =>
    simp only [draw, appendPoint]
    split <;> rfl
  | strokeEnd p =>
    simp only [draw, endStroke]
    split <;> rfl
  | strokeUndo p =>
    simp only [draw, removeStroke]
    split <;> rfl
  | _ => rfl

lemma acceptSeq_cases (seq : ℕ) (s : DrawingStore) :
    s.acceptSeq seq = (true, s) ∧ seq = 0 ∨ s.acceptSeq seq = (false, s) ∧ seq ≤ s.lastSeq ∨
      s.acceptSeq seq = (true, { s with lastSeq := seq }) ∧ s.lastSeq < seq := by
  unfold acceptSeq
  by_cases h0 : seq = 0
  · exact .inl ⟨if_pos h0, h0⟩
  rw [if_neg h0]
  by_cases hle : seq ≤ s.lastSeq
  · exact .inr (.inl ⟨if_pos hle, hle⟩)
  · exact .inr (.inr ⟨if_neg hle, not_le.1 hle⟩)

/-- An item is admitted under its number, or leaves the number of the last one. -/
lemma receive_lastSeq (item : BroadcastItem) (s : DrawingStore) :
    (s.receive item).2.lastSeq = s.lastSeq ∨ (s.receive item).2.lastSeq = item.seq := by
  unfold receive
  split
  · exact .inl rfl
  split
  · exact .inl rfl
  rcases acceptSeq_cases item.seq s with ⟨h, -⟩ | ⟨h, -⟩ | ⟨h, -⟩
  · simp [h]
  · simp [h]
  · simp [h]

end DrawingStore

end Locast.Client

import Locast.Lib.Machine
import Mathlib.Data.Rat.Defs
import Mathlib.Algebra.Order.Field.Rat
import Mathlib.Data.List.Basic
import Mathlib.Data.List.Count

/-!
# The drawing session (`drawing/drawingSession.ts`)

The local strokes become sends: one queue takes them all and hands one at a time to the transport.
A point is only remembered when it is appended; a frame, or the end of the stroke, queues the
newest.

Numbers are rationals: how JavaScript rounds is not modelled.
-/

namespace Locast.Client.Drawing

open Locast.Lib

/-! ### Data -/

def MAX_DRAW_POINT_HZ : ℚ := 80

def MIN_FLUSH_INTERVAL_MS : ℚ := 1000 / MAX_DRAW_POINT_HZ

def MAX_QUEUED_POINTS : ℕ := 32

/-- `StrokePointPayload`. -/
structure StrokePointPayload where
  x : ℚ
  y : ℚ
  pressure : ℚ
  tsMs : ℚ
  deriving DecidableEq

/-- `BeginStrokeOptions["tool"]`. -/
inductive StrokeTool where
  | pen
  | arrow
  | rect
  | circle
  | text
  | eraser
  deriving DecidableEq

/-- `BeginStrokeOptions`; the place is that of a point. -/
structure BeginStrokeOptions where
  tool : StrokeTool
  color : String
  width : ℚ
  point : StrokePointPayload
  strokeId : Option String
  deriving DecidableEq

/-- `DrawingSendInput`. -/
inductive DrawingSendInput where
  | begins (strokeId : String) (opts : BeginStrokeOptions) (clientSeq : ℕ)
  | point (strokeId : String) (point : StrokePointPayload) (clientSeq : ℕ)
  | ends (strokeId : String) (tsMs : ℚ) (clientSeq : ℕ)
  | undo (strokeId : String)
  | clear
  deriving DecidableEq

namespace DrawingSendInput

def isBegin : DrawingSendInput → Bool
  | .begins .. => true
  | _ => false

def isPoint : DrawingSendInput → Bool
  | .point .. => true
  | _ => false

def isEnd : DrawingSendInput → Bool
  | .ends .. => true
  | _ => false

/-- The point that a send carries. -/
def point? : DrawingSendInput → Option StrokePointPayload
  | .point _ p _ => some p
  | _ => none

end DrawingSendInput

/-- `ActiveStroke`: which of the objects it is, and its id.  Whether it `failed` stands with the
strokes. -/
structure ActiveStroke where
  ref : ℕ
  id : String
  deriving DecidableEq

/-- A stroke that was begun, whether its `DRAW_BEGIN` failed, the points that were appended to it,
and whether its `DRAW_END` was queued. -/
structure Stroke where
  id : String
  failed : Bool
  appended : List StrokePointPayload
  closed : Bool
  deriving DecidableEq

/-- `QueuedSend`.  An undo and a clear have no stroke of the session's; `undoes` are the strokes
that an undo is about. -/
structure QueuedSend where
  stroke : Option ActiveStroke
  input : DrawingSendInput
  undoes : List ℕ
  deriving DecidableEq

/-- It is a send of the stroke. -/
def QueuedSend.ofStroke (i : ℕ) (t : QueuedSend) : Bool := t.stroke.any (·.ref = i)

/-- The session.  `running` is the send that the pump awaits, and whether it was handed to the
transport; `queued` are all sends ever queued, `started` those taken from the queue, `settled` how
many of them have settled, and `frameFlushes` the readings of the clock at which a frame queued a
point. -/
structure DrawingSession where
  strokes : List Stroke
  active : Option ActiveStroke
  activeSeq : ℕ
  pendingPoint : Option StrokePointPayload
  lastFlushMs : Option ℚ
  frameScheduled : Bool
  tasks : List QueuedSend
  queuedPoints : ℕ
  running : Option (QueuedSend × Bool)
  queued : List QueuedSend
  started : List (QueuedSend × Bool)
  settled : ℕ
  frameFlushes : List ℚ
  deriving DecidableEq

namespace DrawingSession

def start : DrawingSession where
  strokes := []
  active := none
  activeSeq := 0
  pendingPoint := none
  lastFlushMs := none
  frameScheduled := false
  tasks := []
  queuedPoints := 0
  running := none
  queued := []
  started := []
  settled := 0
  frameFlushes := []

/-! ### The queue -/

/-- `stroke.failed`. -/
def failedOf (s : DrawingSession) (stroke : Option ActiveStroke) : Bool :=
  stroke.any fun a => s.strokes[a.ref]?.any (·.failed)

/-- `run` up to the promise: the send is handed over unless its stroke has failed. -/
def sends (s : DrawingSession) (t : QueuedSend) : Bool := !(s.failedOf t.stroke) || t.input.isBegin

/-- A turn of the loop in `pump`. -/
def next (s : DrawingSession) : DrawingSession :=
  match s.tasks with
  | [] => { s with running := none }
  | t :: rest => { s with
      tasks := rest
      queuedPoints := if t.input.isPoint then s.queuedPoints - 1 else s.queuedPoints
      running := some (t, s.sends t)
      started := s.started ++ [(t, s.sends t)] }

def pump (s : DrawingSession) : DrawingSession := if s.running.isSome then s else s.next

/-- The oldest point that waits is dropped. -/
def dropOldest (s : DrawingSession) : DrawingSession :=
  if s.tasks.any (·.input.isPoint) then
    { s with tasks := s.tasks.eraseP (·.input.isPoint), queuedPoints := s.queuedPoints - 1 }
  else s

/-- The place of a point is made. -/
def makeRoom (s : DrawingSession) : DrawingSession :=
  if MAX_QUEUED_POINTS ≤ s.queuedPoints then s.dropOldest else s

def push (t : QueuedSend) (s : DrawingSession) : DrawingSession :=
  { s with tasks := s.tasks ++ [t], queued := s.queued ++ [t] }

def enqueue (t : QueuedSend) (s : DrawingSession) : DrawingSession :=
  if t.input.isPoint then
    let s := s.makeRoom
    pump (push t { s with queuedPoints := s.queuedPoints + 1 })
  else pump (push t s)

/-- A `DRAW_BEGIN` that could not be sent fails its stroke. -/
def strokesAfter (ok : Bool) (t : QueuedSend) (handed : Bool) (s : DrawingSession) : List Stroke :=
  match t.stroke with
  | some a =>
    if handed ∧ ok = false ∧ t.input.isBegin then s.strokes.modify a.ref ({ · with failed := true })
    else s.strokes
  | none => s.strokes

/-- The promise of the send that runs settles. -/
def settle (ok : Bool) (s : DrawingSession) : Option DrawingSession :=
  s.running.map fun (t, handed) =>
    next { s with strokes := s.strokesAfter ok t handed, settled := s.settled + 1 }

/-! ### Calls and frames -/

/-- The rate lets a frame through. -/
def DueAt (t : ℚ) (s : DrawingSession) : Prop :=
  ∀ last ∈ s.lastFlushMs, MIN_FLUSH_INTERVAL_MS ≤ t - last

instance (t : ℚ) (s : DrawingSession) : Decidable (s.DueAt t) := by
  unfold DueAt
  infer_instance

def flushPending (force : Bool) (t : ℚ) (s : DrawingSession) : DrawingSession :=
  match s.active, s.pendingPoint with
  | some a, some p =>
    if force = false ∧ ¬ s.DueAt t then s
    else enqueue ⟨some a, .point a.id p (s.activeSeq + 1), []⟩ { s with
      pendingPoint := none
      lastFlushMs := some t
      activeSeq := s.activeSeq + 1
      frameFlushes := if force then s.frameFlushes else s.frameFlushes ++ [t] }
  | _, _ => s

/-- The clock is read at the flush and for the stamp. -/
def endStroke (flush stamp : ℚ) (s : DrawingSession) : DrawingSession :=
  match s.active with
  | none => s
  | some a =>
    let s := s.flushPending true flush
    enqueue ⟨some a, .ends a.id stamp (s.activeSeq + 1), []⟩ { s with
      frameScheduled := false
      active := none
      pendingPoint := none
      activeSeq := s.activeSeq + 1
      strokes := s.strokes.modify a.ref ({ · with closed := true }) }

/-- `newId` is what `newStrokeId` would give. -/
def beginStroke (opts : BeginStrokeOptions) (newId : String) (flush stamp : ℚ)
    (s : DrawingSession) :
    DrawingSession :=
  let s := s.endStroke flush stamp
  let stroke : ActiveStroke := ⟨s.strokes.length, opts.strokeId.getD newId⟩
  enqueue ⟨some stroke, .begins stroke.id opts 1, []⟩ { s with
    strokes := s.strokes ++ [⟨stroke.id, false, [], false⟩]
    active := some stroke
    activeSeq := 1
    pendingPoint := none }

def appendPoint (p : StrokePointPayload) (s : DrawingSession) : DrawingSession :=
  match s.active with
  | none => s
  | some a => { s with
      pendingPoint := some p
      frameScheduled := true
      strokes := s.strokes.modify a.ref fun st => { st with appended := st.appended ++ [p] } }

/-- The strokes of that id so far. -/
def withId (strokeId : String) (s : DrawingSession) : List ℕ :=
  (List.range s.strokes.length).filter fun i => s.strokes[i]?.any (·.id = strokeId)

def undoStroke (strokeId : String) (s : DrawingSession) : DrawingSession :=
  s.enqueue ⟨none, .undo strokeId, s.withId strokeId⟩

def clearAll (s : DrawingSession) : DrawingSession := s.enqueue ⟨none, .clear, []⟩

/-- The callback of a frame: it asks for another as long as a point waits. -/
def frame (t : ℚ) (s : DrawingSession) : Option DrawingSession :=
  if s.frameScheduled then
    let s := flushPending false t { s with frameScheduled := false }
    some { s with frameScheduled := s.pendingPoint.isSome && s.active.isSome }
  else none

end DrawingSession

/-- What happens to a session. -/
inductive DrawInput where
  | beginStroke (opts : BeginStrokeOptions) (newId : String) (flush stamp : ℚ)
  | appendPoint (p : StrokePointPayload)
  | endStroke (flush stamp : ℚ)
  | undoStroke (strokeId : String)
  | clearAll
  | frame (t : ℚ)
  | settle (ok : Bool)

/-- The session under its callers. -/
def drawMachine : Machine DrawingSession DrawInput
  | s, .beginStroke opts newId flush stamp => some (s.beginStroke opts newId flush stamp)
  | s, .appendPoint p => some (s.appendPoint p)
  | s, .endStroke flush stamp => some (s.endStroke flush stamp)
  | s, .undoStroke strokeId => some (s.undoStroke strokeId)
  | s, .clearAll => some s.clearAll
  | s, .frame t => s.frame t
  | s, .settle ok => s.settle ok

/-! ### What the queue promises -/

/-- The sends of one stroke: `client_seq` 1 for its `DRAW_BEGIN`, and growing ones. -/
structure StrokeSends where
  opts : BeginStrokeOptions
  points : List (StrokePointPayload × ℕ)
  ending : Option (ℚ × ℕ)
  increasing : (1 :: points.map (·.2) ++ ending.toList.map (·.2)).Pairwise (· < ·)

/-- `DRAW_BEGIN`, the points, and `DRAW_END` if the stroke was ended. -/
def StrokeSends.inputs (strokeId : String) (d : StrokeSends) : List DrawingSendInput :=
  .begins strokeId d.opts 1 :: d.points.map (fun q => .point strokeId q.1 q.2) ++
    d.ending.toList.map fun e => .ends strokeId e.1 e.2

namespace DrawingSession

/-- All sends that were not dropped, in their order. -/
def all (s : DrawingSession) : List QueuedSend := s.started.map (·.1) ++ s.tasks

/-- What was handed to the transport of a stroke. -/
def handed (i : ℕ) (s : DrawingSession) : List DrawingSendInput :=
  (s.started.filter fun x => x.2 && x.1.ofStroke i).map (·.1.input)

/-- What waits of a stroke. -/
def waiting (i : ℕ) (s : DrawingSession) : List DrawingSendInput :=
  (s.tasks.filter (·.ofStroke i)).map (·.input)

/-- **The sends of a stroke**: what was handed over and what waits is its `DRAW_BEGIN`, some of its
points in their order and, once it was ended, the last point appended and its `DRAW_END`; if its
`DRAW_BEGIN` failed, no more was handed over. -/
def StrokeSent (s : DrawingSession) (i : ℕ) (st : Stroke) : Prop :=
  if st.failed then ∃ opts, s.handed i = [.begins st.id opts 1]
  else ∃ d : StrokeSends, s.handed i ++ s.waiting i = d.inputs st.id ∧
    (d.points.map (·.1)).Sublist st.appended ∧ d.ending.isSome = st.closed ∧
    (st.closed = true → (d.points.map (·.1)).getLast? = st.appended.getLast?)

/-- **The queue.** One send at a time is handed over, in the order they were queued; only points are
dropped; an undo follows the `DRAW_END` of its stroke; the waiting points are counted and bounded;
and the points of the frames are spaced. -/
structure Faithful (s : DrawingSession) : Prop where
  oneAtATime : s.started.length = s.settled + s.running.isSome.toNat
  busy : s.running = none → s.tasks = []
  order : s.all.Sublist s.queued
  onlyPoints : s.all.filter (!·.input.isPoint) = s.queued.filter (!·.input.isPoint)
  strokes : ∀ i st, s.strokes[i]? = some st → s.StrokeSent i st
  undos : ∀ before u after, s.all = before ++ u :: after → ∀ i ∈ u.undoes,
    ∃ e ∈ before, e.ofStroke i = true ∧ e.input.isEnd = true
  count : s.queuedPoints = s.tasks.countP (·.input.isPoint)
  bound : s.queuedPoints ≤ MAX_QUEUED_POINTS
  spaced : s.frameFlushes.Pairwise fun t t' => MIN_FLUSH_INTERVAL_MS ≤ t' - t

/-- A point is flushed. -/
def Flushes (force : Bool) (t : ℚ) (s : DrawingSession) : Prop :=
  s.active.isSome = true ∧ s.pendingPoint.isSome = true ∧ (force = true ∨ s.DueAt t)

instance (force : Bool) (t : ℚ) (s : DrawingSession) : Decidable (s.Flushes force t) := by
  unfold Flushes
  infer_instance

/-- The oldest point that waits can be spared: its stroke is in progress, has failed, or has another
point waiting. -/
def Spare (s : DrawingSession) : Prop :=
  ∀ q ∈ s.tasks.find? (·.input.isPoint), q.stroke = s.active ∨ s.failedOf q.stroke = true ∨
    2 ≤ s.tasks.countP fun t => t.input.isPoint && t.stroke = q.stroke

instance (s : DrawingSession) : Decidable s.Spare := by
  unfold Spare
  infer_instance

/-- A full queue can spare its oldest point when a point is flushed. -/
def Room (force : Bool) (t : ℚ) (s : DrawingSession) : Prop :=
  s.Flushes force t → MAX_QUEUED_POINTS ≤ s.queuedPoints → s.Spare

instance (force : Bool) (t : ℚ) (s : DrawingSession) : Decidable (s.Room force t) := by
  unfold Room
  infer_instance

/-- The clock of a flush at the end of a stroke is not before that of a frame. -/
def OnTime (flush : ℚ) (s : DrawingSession) : Prop :=
  s.Flushes true flush → ∀ t ∈ s.frameFlushes, t ≤ flush

instance (flush : ℚ) (s : DrawingSession) : Decidable (s.OnTime flush) := by
  unfold OnTime
  infer_instance

end DrawingSession

/-- No point that is the last of an ended stroke is dropped, the clock does not step back before the
end of a stroke, and a stroke is not undone while it is in progress. -/
def orderly (s : DrawingSession) : DrawInput → Prop
  | .beginStroke _ _ flush _ | .endStroke flush _ => s.Room true flush ∧ s.OnTime flush
  | .frame t => s.frameScheduled = true → s.Room false t
  | .undoStroke strokeId => ∀ a ∈ s.active, a.id ≠ strokeId
  | _ => True

instance (s : DrawingSession) (i : DrawInput) : Decidable (orderly s i) := by
  cases i <;> unfold orderly <;> infer_instance

end Locast.Client.Drawing

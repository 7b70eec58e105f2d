import Mathlib.Algebra.Order.Ring.Rat
import Mathlib.Data.List.Basic
import Mathlib.Tactic.Linarith

/-!
# The stroke renderer (`drawing/strokeRenderer.ts`)

`renderStrokes` paints the local strokes and then the remote ones on a canvas of the video's size.
It runs against a context that records its calls, and `Canvas` says what recorded calls paint.

Numbers are rationals: how JavaScript rounds is not modelled.
-/

namespace Locast.Client.StrokeRenderer

/-! ### Strokes (`drawing/types.ts`) -/

/-- `StrokeTool`; `other` is a name that the cast of a remote stroke's tool lets through. -/
inductive StrokeTool where
  | pen
  | arrow
  | rect
  | circle
  | text
  | eraser
  | other (name : String)
  deriving DecidableEq

/-- `StrokePoint`. -/
structure StrokePoint where
  x : ℚ
  y : ℚ
  pressure : ℚ
  ts : ℚ
  deriving DecidableEq

structure Stroke where
  id : String
  userId : String
  tool : StrokeTool
  color : String
  width : ℚ
  points : List StrokePoint
  startedAt : ℚ
  endedAt : ℚ
  deriving DecidableEq

/-- A stroke of the remote store, as `renderStrokes` takes it. -/
structure RemoteStroke where
  id : String
  userId : String
  tool : String
  color : String
  width : ℚ
  points : List StrokePoint
  deriving DecidableEq

/-- `rs.tool as Stroke["tool"]`. -/
def asTool : String → StrokeTool
  | "pen" => .pen
  | "arrow" => .arrow
  | "rect" => .rect
  | "circle" => .circle
  | "text" => .text
  | "eraser" => .eraser
  | name => .other name

/-- A remote stroke as one of the history. -/
def RemoteStroke.asStroke (rs : RemoteStroke) : Stroke where
  id := rs.id
  userId := rs.userId
  tool := asTool rs.tool
  color := rs.color
  width := rs.width
  points := rs.points
  startedAt := (rs.points.head?.map (·.ts)).getD 0
  endedAt := (rs.points.getLast?.map (·.ts)).getD 0

/-- The two are painted alike. -/
def Stroke.Alike (s t : Stroke) : Prop :=
  s.tool = t.tool ∧ s.color = t.color ∧ s.width = t.width ∧ s.points = t.points

/-! ### The context -/

inductive CanvasLineCap where
  | butt
  | round
  | square
  deriving DecidableEq

inductive CanvasLineJoin where
  | bevel
  | round
  | miter
  deriving DecidableEq

/-- A call of the context, or an assignment to one of its properties. -/
inductive CanvasCall where
  | clearRect (x y w h : ℚ)
  | beginPath
  | moveTo (x y : ℚ)
  | lineTo (x y : ℚ)
  | stroke
  | strokeStyle (color : String)
  | lineWidth (width : ℚ)
  | lineCap (cap : CanvasLineCap)
  | lineJoin (join : CanvasLineJoin)
  deriving DecidableEq

/-- What one `stroke()` paints: the sub-paths, with the style of that moment. -/
structure Figure where
  color : String
  width : ℚ
  cap : CanvasLineCap
  join : CanvasLineJoin
  path : List (List (ℚ × ℚ))
  deriving DecidableEq

/-- What is on a canvas: figures, and holes from clearing a part of it. -/
inductive Mark where
  | figure (f : Figure)
  | hole (x y w h : ℚ)
  deriving DecidableEq

/-- A size in pixels of the backing store. -/
structure Size where
  width : ℚ
  height : ℚ
  deriving DecidableEq

/-- A canvas: what is painted, the current style and the current path. -/
structure Canvas where
  size : Size
  marks : List Mark
  color : String
  width : ℚ
  cap : CanvasLineCap
  join : CanvasLineJoin
  path : List (List (ℚ × ℚ))

namespace Canvas

/-- The effect of one call. -/
def call (c : Canvas) : CanvasCall → Canvas
  | .clearRect x y w h =>
    if x ≤ 0 ∧ y ≤ 0 ∧ c.size.width ≤ x + w ∧ c.size.height ≤ y + h then { c with marks := [] }
    else { c with marks := c.marks ++ [.hole x y w h] }
  | .beginPath => { c with path := [] }
  | .moveTo x y => { c with path := c.path ++ [[(x, y)]] }
  | .lineTo x y => { c with path := c.path.dropLast ++ [c.path.getLastD [] ++ [(x, y)]] }
  | .stroke => { c with marks := c.marks ++ [.figure ⟨c.color, c.width, c.cap, c.join, c.path⟩] }
  | .strokeStyle color => { c with color }
  | .lineWidth width => { c with width }
  | .lineCap cap => { c with cap }
  | .lineJoin join => { c with join }

def run (c : Canvas) (calls : List CanvasCall) : Canvas := calls.foldl call c

@[simp] lemma run_nil (c : Canvas) : c.run [] = c := rfl

@[simp] lemma run_cons (c : Canvas) (k : CanvasCall) (calls : List CanvasCall) :
    c.run (k :: calls) = (c.call k).run calls := rfl

lemma run_append (c : Canvas) (calls calls' : List CanvasCall) :
    c.run (calls ++ calls') = (c.run calls).run calls' := List.foldl_append

/-- The lines of a path go on its last sub-path. -/
lemma run_lineTo (c : Canvas) (sub ps : List (ℚ × ℚ)) :
    ({ c with path := [sub] }).run (ps.map fun p : ℚ × ℚ => .lineTo p.1 p.2) =
      { c with path := [sub ++ ps] } := by
  induction ps generalizing sub with
  | nil => simp
  | cons p ps ih =>
    rw [List.map_cons, run_cons]
    have hline : ({ c with path := [sub] } : Canvas).call (.lineTo p.1 p.2) =
        { c with path := [sub ++ [p]] } := rfl
    rw [hline, ih, List.append_assoc, List.singleton_append]

end Canvas

/-! ### `renderStrokes` -/

/-- `normalizedToBacking` (`drawing/geometry.ts`). -/
def normalizedToBacking (x y intrinsicWidth intrinsicHeight : ℚ) : ℚ × ℚ :=
  let w := if intrinsicWidth > 0 then intrinsicWidth else 0
  let h := if intrinsicHeight > 0 then intrinsicHeight else 0
  (if w = 0 then 0 else x * (w - 1), if h = 0 then 0 else y * (h - 1))

/-- The recording context, and the count of lines. -/
structure Recording where
  calls : List CanvasCall
  lineToCount : ℕ
  deriving DecidableEq

namespace Recording

def call (r : Recording) (k : CanvasCall) : Recording := { r with calls := r.calls ++ [k] }

def counted (r : Recording) : Recording := { r with lineToCount := r.lineToCount + 1 }

end Recording

def isPen (s : Stroke) : Bool := s.tool = .pen

def isRenderable (s : Stroke) : Bool := isPen s && 1 ≤ s.points.length

/-- The body of the loop over the points. -/
def renderPoint (intrinsicSize : Size) (r : Recording) (p : StrokePoint × ℕ) : Recording :=
  let backing := normalizedToBacking p.1.x p.1.y intrinsicSize.width intrinsicSize.height
  if p.2 = 0 then r.call (.moveTo backing.1 backing.2)
  else (r.call (.lineTo backing.1 backing.2)).counted

/-- The body of the loop over the strokes. -/
def renderStroke (intrinsicSize : Size) (widthScale : ℚ) (r : Recording) (stroke : Stroke) :
    Recording :=
  if !isRenderable stroke then r
  else
    let r := r.call (.strokeStyle stroke.color)
    let r := r.call (.lineWidth (stroke.width * widthScale))
    let r := r.call (.lineJoin .round)
    let r := r.call (.lineCap .round)
    let r := r.call .beginPath
    (stroke.points.zipIdx.foldl (renderPoint intrinsicSize) r).call .stroke

/-- **`renderStrokes`**, from a context that has recorded nothing; it returns the count of lines. -/
def renderStrokes (strokes : List Stroke) (remoteStrokes : Option (List RemoteStroke))
    (intrinsicSize : Size) (canvasCssWidth : ℚ) : Recording :=
  let r : Recording := ⟨[.clearRect 0 0 intrinsicSize.width intrinsicSize.height], 0⟩
  if strokes.length = 0 then r
  else if intrinsicSize.width ≤ 0 ∨ intrinsicSize.height ≤ 0 then r
  else
    let cssW := if canvasCssWidth > 0 then canvasCssWidth else intrinsicSize.width
    let widthScale := intrinsicSize.width / cssW
    let allStrokes := strokes ++ (remoteStrokes.getD []).map RemoteStroke.asStroke
    allStrokes.foldl (renderStroke intrinsicSize widthScale) r

/-- The repaint effect (`hooks/useDrawingCanvas.ts`), with the element's displayed width, where
there is a canvas with a context and a video size. -/
def repaint (rectWidth : Option ℚ) (intrinsicSize : Option Size) (strokes : List Stroke)
    (remoteStrokes : Option (List RemoteStroke)) : Option Recording :=
  match rectWidth, intrinsicSize with
  | some rectWidth, some intrinsicSize =>
    let cssWidth := if rectWidth = 0 then intrinsicSize.width else rectWidth
    some (renderStrokes strokes remoteStrokes intrinsicSize cssWidth)
  | _, _ => none

/-! ### What is to be painted -/

variable {size : Size} {css : ℚ} {strokes : List Stroke}
  {remoteStrokes : Option (List RemoteStroke)}

/-- The strokes to paint, in order: those of the pen that have a point. -/
def drawn (strokes : List Stroke) (remoteStrokes : Option (List RemoteStroke)) : List Stroke :=
  (strokes ++ (remoteStrokes.getD []).map RemoteStroke.asStroke).filter fun s =>
    s.tool = .pen ∧ s.points ≠ []

/-- A point in pixels of the backing store. -/
def scaled (size : Size) (p : StrokePoint) : ℚ × ℚ :=
  (p.x * (size.width - 1), p.y * (size.height - 1))

/-- **A stroke as it is to look**: one path through all its points, with its own colour and its
width scaled from the displayed width to that of the backing store. -/
def Stroke.figure (size : Size) (css : ℚ) (s : Stroke) : Figure where
  color := s.color
  width := s.width * (size.width / css)
  cap := .round
  join := .round
  path := [s.points.map (scaled size)]

/-- **The canvas shows every stroke**: whatever was on it, afterwards there is each stroke to paint,
once and in order, and nothing else; the number returned is that of their lines. -/
def Shows (strokes : List Stroke) (remoteStrokes : Option (List RemoteStroke))
    (size : Size) (css : ℚ) (r : Recording) : Prop :=
  (∀ c : Canvas, c.size = size →
    (c.run r.calls).marks = (drawn strokes remoteStrokes).map fun s =>
      .figure (s.figure size css)) ∧
  r.lineToCount = ((drawn strokes remoteStrokes).map fun s => s.points.length - 1).sum

/-- **No remote stroke is overlooked**: there is a local stroke, or none of the remote ones is to be
painted. -/
def Seen (strokes : List Stroke) (remoteStrokes : Option (List RemoteStroke)) : Prop :=
  strokes ≠ [] ∨ drawn [] remoteStrokes = []

/-! ### The calls for a stroke -/

/-- The calls that paint a stroke. -/
def strokeCalls (size : Size) (scale : ℚ) (s : Stroke) : List CanvasCall :=
  [.strokeStyle s.color, .lineWidth (s.width * scale), .lineJoin .round, .lineCap .round,
    .beginPath] ++ (match s.points.map (scaled size) with
      | [] => []
      | p :: ps => .moveTo p.1 p.2 :: ps.map fun p => .lineTo p.1 p.2) ++ [.stroke]

lemma normalizedToBacking_eq (hw : 0 < size.width) (hh : 0 < size.height) (p : StrokePoint) :
    normalizedToBacking p.x p.y size.width size.height = scaled size p := by
  simp [normalizedToBacking, scaled, hw, hh, hw.ne', hh.ne']

lemma isRenderable_eq (s : Stroke) : isRenderable s = decide (s.tool = .pen ∧ s.points ≠ []) := by
  simp [isRenderable, isPen, Nat.one_le_iff_ne_zero]

/-- The points after the first are lines. -/
lemma foldl_lines (hw : 0 < size.width) (hh : 0 < size.height) (ps : List StrokePoint) (k : ℕ)
    (r : Recording) : (ps.zipIdx (k + 1)).foldl (renderPoint size) r =
      ⟨r.calls ++ (ps.map (scaled size)).map (fun p => .lineTo p.1 p.2),
        r.lineToCount + ps.length⟩ := by
  induction ps generalizing k r with
  | nil => simp
  | cons p ps ih =>
    rw [List.zipIdx_cons, List.foldl_cons, ih]
    simp [renderPoint, Recording.call, Recording.counted, normalizedToBacking_eq hw hh,
      Nat.add_comm, Nat.add_left_comm]

/-- **The body of the loop over the strokes** adds the calls of a stroke to paint. -/
lemma renderStroke_eq (hw : 0 < size.width) (hh : 0 < size.height) {scale : ℚ} (r : Recording)
    {s : Stroke} (hs : isRenderable s) : renderStroke size scale r s =
      ⟨r.calls ++ strokeCalls size scale s, r.lineToCount + (s.points.length - 1)⟩ := by
  have hpoints : s.points ≠ [] := (of_decide_eq_true (isRenderable_eq s ▸ hs)).2
  obtain ⟨p, ps, hps⟩ := List.exists_cons_of_ne_nil hpoints
  rw [renderStroke, hs, Bool.not_true, if_neg Bool.false_ne_true, strokeCalls, hps]
  dsimp only
  rw [List.zipIdx_cons, List.foldl_cons, foldl_lines hw hh]
  simp [renderPoint, Recording.call, normalizedToBacking_eq hw hh]

/-- The loop over the strokes. -/
lemma foldl_renderStroke (hw : 0 < size.width) (hh : 0 < size.height) (scale : ℚ) (ss : List Stroke)
    (r : Recording) : ss.foldl (renderStroke size scale) r =
      ⟨r.calls ++ (ss.filter isRenderable).flatMap (strokeCalls size scale),
        r.lineToCount + ((ss.filter isRenderable).map fun s => s.points.length - 1).sum⟩ := by
  induction ss generalizing r with
  | nil => simp
  | cons s ss ih =>
    rw [List.foldl_cons, ih]
    by_cases hs : isRenderable s
    · rw [renderStroke_eq hw hh r hs, List.filter_cons_of_pos hs]
      simp [Nat.add_assoc]
    · rw [renderStroke, Bool.eq_false_iff.2 hs, Bool.not_false, if_pos rfl,
        List.filter_cons_of_neg hs]

/-- **What a rendering records** when there is a local stroke. -/
lemma renderStrokes_eq (hw : 0 < size.width) (hh : 0 < size.height) (hcss : 0 < css)
    (hlocal : strokes ≠ []) : renderStrokes strokes remoteStrokes size css =
      ⟨.clearRect 0 0 size.width size.height ::
          (drawn strokes remoteStrokes).flatMap (strokeCalls size (size.width / css)),
        ((drawn strokes remoteStrokes).map fun s => s.points.length - 1).sum⟩ := by
  have hdrawn : drawn strokes remoteStrokes =
      (strokes ++ (remoteStrokes.getD []).map RemoteStroke.asStroke).filter isRenderable :=
    List.filter_congr fun s _ => (isRenderable_eq s).symm
  rw [renderStrokes]
  dsimp only
  rw [if_neg (by simpa using hlocal), if_neg (by simp [hw, hh]), if_pos hcss,
    foldl_renderStroke hw hh, hdrawn]
  simp

/-- **What is recorded without a local stroke.** -/
lemma renderStrokes_nil : renderStrokes [] remoteStrokes size css =
    ⟨[.clearRect 0 0 size.width size.height], 0⟩ := rfl

/-! ### What the calls paint -/

/-- The canvas with the style of a stroke. -/
def Canvas.styled (c : Canvas) (s : Stroke) (scale : ℚ) : Canvas :=
  { c with
    color := s.color
    width := s.width * scale
    cap := .round
    join := .round }

/-- **The calls of a stroke paint it.** -/
lemma run_strokeCalls (c : Canvas) {s : Stroke} (hs : s.points ≠ []) :
    (c.run (strokeCalls size (size.width / css) s)).marks =
        c.marks ++ [.figure (s.figure size css)] ∧
      (c.run (strokeCalls size (size.width / css) s)).size = c.size := by
  obtain ⟨p, ps, hps⟩ := List.exists_cons_of_ne_nil hs
  rw [strokeCalls, hps, List.map_cons, Canvas.run_append, Canvas.run_append]
  dsimp only
  rw [Canvas.run_cons _ (.moveTo ..)]
  have hstyle : (c.run [.strokeStyle s.color, .lineWidth (s.width * (size.width / css)),
      .lineJoin .round, .lineCap .round, .beginPath]).call
        (.moveTo (scaled size p).1 (scaled size p).2) =
      { c.styled s (size.width / css) with path := [[scaled size p]] } := rfl
  have hlines :=
    (c.styled s (size.width / css)).run_lineTo [scaled size p] (ps.map (scaled size))
  rw [hstyle, hlines]
  simp [Canvas.run, Canvas.call, Canvas.styled, Stroke.figure, hps]

lemma run_flatMap (size : Size) (css : ℚ) (ss : List Stroke) (hss : ∀ s ∈ ss, s.points ≠ [])
    (c : Canvas) :
    (c.run (ss.flatMap (strokeCalls size (size.width / css)))).marks =
      c.marks ++ ss.map fun s => .figure (s.figure size css) := by
  induction ss generalizing c with
  | nil => simp
  | cons s ss ih =>
    rw [List.flatMap_cons, Canvas.run_append, ih fun t ht => hss t (List.mem_cons_of_mem s ht),
      (run_strokeCalls c (hss s List.mem_cons_self)).1, List.append_assoc]
    rfl

/-- The canvas is cleared first. -/
lemma run_clearRect (c : Canvas) (calls : List CanvasCall) :
    c.run (.clearRect 0 0 c.size.width c.size.height :: calls) =
      ({ c with marks := [] }).run calls := by
  rw [Canvas.run_cons, Canvas.call, if_pos (by simp)]

/-- **When the canvas shows every stroke.** -/
lemma shows_iff (hw : 0 < size.width) (hh : 0 < size.height) (hcss : 0 < css) :
    Shows strokes remoteStrokes size css (renderStrokes strokes remoteStrokes size css) ↔
      Seen strokes remoteStrokes := by
  by_cases hlocal : strokes = []
  · subst hlocal
    rw [renderStrokes_nil]
    constructor
    · rintro ⟨hmarks, -⟩
      have hblank := hmarks ⟨size, [], "", 1, .butt, .miter, []⟩ rfl
      rw [run_clearRect ⟨size, [], "", 1, .butt, .miter, []⟩] at hblank
      exact .inr (List.map_eq_nil_iff.1 hblank.symm)
    · rintro (hne | hnone)
      · exact absurd rfl hne
      refine ⟨fun c hc => ?_, by rw [hnone]; rfl⟩
      rw [← hc, run_clearRect c, hnone]
      rfl
  · refine iff_of_true ⟨fun c hc => ?_, ?_⟩ (.inl hlocal)
    · have hpoints : ∀ s ∈ drawn strokes remoteStrokes, s.points ≠ [] := fun s hs =>
        (of_decide_eq_true (List.mem_filter.1 hs).2).2
      rw [renderStrokes_eq hw hh hcss hlocal]
      have hrun := run_flatMap size css _ hpoints { c with marks := [] }
      subst hc
      rw [run_clearRect c, hrun]
      rfl
    · rw [renderStrokes_eq hw hh hcss hlocal]

/-! ### A stroke that moves to the other list -/

/-- The calls for what is to be painted. -/
def drawnCalls (size : Size) (scale : ℚ) (strokes : List Stroke)
    (remoteStrokes : Option (List RemoteStroke)) : List CanvasCall :=
  (drawn strokes remoteStrokes).flatMap (strokeCalls size scale)

lemma drawnCalls_eq_nil (size : Size) (scale : ℚ) (strokes : List Stroke)
    (remoteStrokes : Option (List RemoteStroke)) :
    drawnCalls size scale strokes remoteStrokes = [] ↔ drawn strokes remoteStrokes = [] := by
  refine ⟨fun h => ?_, fun h => by rw [drawnCalls, h]; rfl⟩
  refine List.eq_nil_iff_forall_not_mem.2 fun s hs => ?_
  have hcalls := List.flatMap_eq_nil_iff.1 h s hs
  rw [strokeCalls, List.cons_append] at hcalls
  cases hcalls

/-- **What is to be painted depends on the two lists together.** -/
lemma drawnCalls_move (size : Size) (scale : ℚ) {s : Stroke} {rs : RemoteStroke}
    (halike : s.Alike rs.asStroke) (strokes : List Stroke) (remoteStrokes : List RemoteStroke) :
    drawnCalls size scale (strokes ++ [s]) (some remoteStrokes) =
      drawnCalls size scale strokes (some (rs :: remoteStrokes)) := by
  obtain ⟨htool, hcolor, hwidth, hpoints⟩ := halike
  have hcalls : strokeCalls size scale s = strokeCalls size scale rs.asStroke := by
    rw [strokeCalls, strokeCalls, hcolor, hwidth, hpoints]
  have hone : ([s].filter fun s => s.tool = .pen ∧ s.points ≠ []).flatMap (strokeCalls size scale) =
      ([rs.asStroke].filter fun s => s.tool = .pen ∧ s.points ≠ []).flatMap
        (strokeCalls size scale) := by
    rw [List.filter_singleton, List.filter_singleton, htool, hpoints]
    cases decide (rs.asStroke.tool = .pen ∧ rs.asStroke.points ≠ [])
    · rfl
    · simp [hcalls]
  simp only [drawnCalls, drawn, Option.getD_some, List.map_cons, List.append_assoc,
    List.filter_append, List.flatMap_append]
  rw [hone, ← List.flatMap_append, ← List.filter_append, List.singleton_append]

/-- **When a stroke may move to the other list** without a change of what is recorded. -/
lemma move_iff (hw : 0 < size.width) (hh : 0 < size.height) (hcss : 0 < css) {s : Stroke}
    {rs : RemoteStroke} (halike : s.Alike rs.asStroke) (remoteStrokes : List RemoteStroke) :
    (renderStrokes (strokes ++ [s]) (some remoteStrokes) size css).calls =
        (renderStrokes strokes (some (rs :: remoteStrokes)) size css).calls ↔
      Seen strokes (some (rs :: remoteStrokes)) := by
  have hmove := drawnCalls_move size (size.width / css) halike strokes remoteStrokes
  rw [renderStrokes_eq hw hh hcss (List.append_ne_nil_of_right_ne_nil _ (List.cons_ne_nil s []))]
  by_cases hlocal : strokes = []
  · subst hlocal
    rw [renderStrokes_nil]
    have hnil := drawnCalls_eq_nil size (size.width / css) [] (some (rs :: remoteStrokes))
    rw [← hmove] at hnil
    constructor
    · intro h
      exact .inr (hnil.1 (List.cons.inj h).2)
    · rintro (hne | hnone)
      · exact absurd rfl hne
      · exact congrArg (List.cons _) (hnil.2 hnone)
  · rw [renderStrokes_eq hw hh hcss hlocal]
    exact iff_of_true (congrArg (List.cons _) hmove) (.inl hlocal)

/-! ### The canvas shows every stroke -/

/-- **The canvas shows every stroke, exactly when there is a local one or no remote one is to be
painted**; and then alone a stroke may move from one list to the other. -/
theorem canvas_shows (hw : 0 < size.width) (hh : 0 < size.height) (hcss : 0 < css)
    (strokes : List Stroke) (remoteStrokes : Option (List RemoteStroke)) :
    (Shows strokes remoteStrokes size css (renderStrokes strokes remoteStrokes size css) ↔
        Seen strokes remoteStrokes) ∧
      ∀ (s : Stroke) (rs : RemoteStroke), s.Alike rs.asStroke →
        ((renderStrokes (strokes ++ [s]) (some (remoteStrokes.getD [])) size css).calls =
            (renderStrokes strokes (some (rs :: remoteStrokes.getD [])) size css).calls ↔
          Seen strokes (some (rs :: remoteStrokes.getD []))) :=
  ⟨shows_iff hw hh hcss, fun _ _ halike => move_iff hw hh hcss halike (remoteStrokes.getD [])⟩

/-- A stroke of another user, from one corner to the other. -/
def diagonal : RemoteStroke :=
  ⟨"s", "u", "pen", "#ff5c69", 4, [⟨0, 0, 0, 0⟩, ⟨1, 1, 0, 5⟩]⟩

/-- Behind a stroke of one's own, it is painted. -/
theorem canvas_shows_behind :
    Shows [diagonal.asStroke] (some [diagonal]) ⟨640, 360⟩ 320
      (renderStrokes [diagonal.asStroke] (some [diagonal]) ⟨640, 360⟩ 320) :=
  (@canvas_shows ⟨640, 360⟩ 320 (by decide) (by decide) (by decide)
    [diagonal.asStroke] (some [diagonal])).1.2 (.inl (List.cons_ne_nil _ _))

/-- **A client that has not drawn does not see it.** -/
theorem not_canvas_shows :
    ¬Shows [] (some [diagonal]) ⟨640, 360⟩ 320
      (renderStrokes [] (some [diagonal]) ⟨640, 360⟩ 320) := by
  rintro ⟨-, hcount⟩
  exact absurd hcount (by decide)

/-- **The repaint effect** shows every stroke under the same condition, with any displayed width. -/
theorem repaint_shows {rectWidth : ℚ} (hw : 0 < size.width) (hh : 0 < size.height)
    (hrect : 0 ≤ rectWidth) : ∃ r css, repaint (some rectWidth)
      (some size) strokes remoteStrokes = some r ∧ 0 < css ∧
      (Shows strokes remoteStrokes size css r ↔ Seen strokes remoteStrokes) := by
  have hcss : 0 < if rectWidth = 0 then size.width else rectWidth := by
    split
    · exact hw
    · rename_i hne
      exact lt_of_le_of_ne hrect (Ne.symm hne)
  exact ⟨_, _, rfl, hcss, shows_iff hw hh hcss⟩

end Locast.Client.StrokeRenderer

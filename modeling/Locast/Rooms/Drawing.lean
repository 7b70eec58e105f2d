import Locast.Rooms.Events

/-!
# The drawing handlers (`rooms/drawing.rs`)

Each handler runs under the room's write lock and returns the outcome with the new room state;
`none` is an underflow of the retained-point counter.  The signature check of `DRAW_BEGIN` is split:
the comparisons with the session are here, the Ed25519 verification over the canonical bytes is a
parameter.
-/

namespace Locast.Rooms

open Locast.Protocol

/-- `VerifyingKey::from_bytes`, `drawing_signed_bytes` and `verify`, all succeeding. -/
abbrev VerifyStroke : Type := PubKey → StrokeBeginPayload → List UInt8 → Bool

inductive DrawingError where
  | notSigned
  | badSignature
  | strokeIdMismatch
  | unknownStroke
  | outOfRange
  deriving DecidableEq, Repr

/-- `reason`. -/
def DrawingError.reason : DrawingError → String
  | notSigned => "drawing_not_signed"
  | badSignature => "drawing_bad_signature"
  | strokeIdMismatch => "drawing_sender_mismatch"
  | unknownStroke => "drawing_unknown_stroke"
  | outOfRange => "drawing_out_of_range"

/-- `n` lies in `[0, 1]`. -/
def validateUnitRange (n : F32) : Bool := n.isFinite && (n.nonneg && n.leOne)

/-- The reply of `err_outcome`: it names the envelope's room and its claimed sender. -/
def errOutcome (envelope : Envelope) (message : String) : RoomDispatchOutcome :=
  { RoomDispatchOutcome.empty with toCaller :=
    [{ roomId := envelope.roomId
       sender := envelope.sender.map (·.userId)
       payload := .roomError { code := .invalidState, message, expectedSeq := none } }] }

/-- `err_outcome` with a drawing reason. -/
def drawingError (envelope : Envelope) (e : DrawingError) : RoomDispatchOutcome :=
  errOutcome envelope e.reason

def verifyStrokeBeginSignature (verify : VerifyStroke) (envelope : Envelope)
    (payload : StrokeBeginPayload) (expectedSender : Uuid) (expectedPubkey : PubKey) :
    Except DrawingError Unit :=
  match envelope.sender with
  | none => .error .notSigned
  | some sender =>
    if sender.userId ≠ expectedSender then .error .notSigned
    else if sender.pubkey ≠ expectedPubkey.toList then .error .notSigned
    else if sender.sig.length ≠ 64 then .error .badSignature
    else if verify expectedPubkey payload sender.sig then .ok ()
    else .error .badSignature

/-- Why `handle_stroke_begin` refuses a decoded payload, in the order it checks. -/
def strokeBeginError (verify : VerifyStroke) (envelope : Envelope) (state : RoomState)
    (userId : Uuid) (pubkey : PubKey) (payload : StrokeBeginPayload) : Option DrawingError :=
  if !validateUnitRange payload.x || !validateUnitRange payload.y ||
      !validateUnitRange payload.pressure || !(payload.width.isFinite && payload.width.pos) then
    some .outOfRange
  else match verifyStrokeBeginSignature verify envelope payload userId pubkey with
    | .error e => some e
    | .ok () =>
      if payload.strokeId ∈ state.drawing.pending ||
          (state.drawing.ownerOf payload.strokeId).isSome then some .strokeIdMismatch
      else none

/-- `DRAW_BEGIN`. -/
def handleStrokeBegin (verify : VerifyStroke) (envelope : Envelope)
    (decoded : Except String StrokeBeginPayload) (state : RoomState) (userId : Uuid)
    (pubkey : PubKey) (nowMs : ℤ) : Option (RoomDispatchOutcome × RoomState) :=
  match decoded with
  | .error e => some (errOutcome envelope ("bad DRAW_BEGIN payload: " ++ e), state)
  | .ok payload =>
    match strokeBeginError verify envelope state userId pubkey payload with
    | some e => some (drawingError envelope e, state)
    | none => do
      let roomId := envelope.roomId.getD state.id
      let (drawing, finished) ← state.drawing.finishOldestOpenStrokes userId nowMs
      let ends : List RoomEvent := finished.map fun stroke =>
        .strokeEnd roomId stroke.2 { strokeId := stroke.1, tsMs := nowMs }
      let stroke : PendingStroke :=
        { senderId := userId, senderPubkey := pubkey, startedMs := nowMs, cleared := false }
      let bound := { drawing with pending := drawing.pending.insert payload.strokeId stroke }
      let drawing ← bound.recordBegin userId payload
      some (.ofEvents (ends ++ [.strokeBegin roomId userId payload]), { state with drawing })

/-- `DRAW_POINT`. -/
def handleStrokePoint (envelope : Envelope) (decoded : Except String StrokePointPayload)
    (state : RoomState) (userId : Uuid) : Option (RoomDispatchOutcome × RoomState) :=
  match decoded with
  | .error e => some (errOutcome envelope ("bad DRAW_POINT payload: " ++ e), state)
  | .ok payload =>
    if !validateUnitRange payload.x || !validateUnitRange payload.y ||
        !validateUnitRange payload.pressure then some (drawingError envelope .outOfRange, state)
    else match state.drawing.pending.get payload.strokeId with
      | none => some (drawingError envelope .unknownStroke, state)
      | some binding =>
        if binding.senderId ≠ userId then some (drawingError envelope .strokeIdMismatch, state)
        else if binding.cleared then some (.empty, state)
        else do
          let drawing ← state.drawing.recordPoint payload
          let roomId := envelope.roomId.getD state.id
          some (.ofEvents [.strokePoint roomId binding.senderId payload], { state with drawing })

/-- `DRAW_END`. -/
def handleStrokeEnd (envelope : Envelope) (decoded : Except String StrokeEndPayload)
    (state : RoomState) (userId : Uuid) : Option (RoomDispatchOutcome × RoomState) :=
  match decoded with
  | .error e => some (errOutcome envelope ("bad DRAW_END payload: " ++ e), state)
  | .ok payload =>
    match state.drawing.pending.get payload.strokeId with
    | none => some (drawingError envelope .unknownStroke, state)
    | some binding =>
      if binding.senderId ≠ userId then some (drawingError envelope .strokeIdMismatch, state)
      else
        let removed := { state.drawing with
          pending := state.drawing.pending.erase payload.strokeId }
        if binding.cleared then do
          let drawing ← removed.forgetContent payload.strokeId
          some (.empty, { state with drawing })
        else do
          let (drawing, _) ← removed.commit payload.strokeId binding.senderId
          let drawing := drawing.recordEnd payload.strokeId payload.tsMs
          let roomId := envelope.roomId.getD state.id
          some (.ofEvents [.strokeEnd roomId binding.senderId payload], { state with drawing })

/-- `userId` may undo a stroke of `owner`. -/
def mayUndo (state : RoomState) (userId owner : Uuid) : Bool :=
  if owner = userId then
    state.presentCan userId .drawing .undoOwnStroke || state.presentCan userId .drawing
      .undoAnyStroke
  else state.presentCan userId .drawing .undoAnyStroke

/-- `DRAW_UNDO`.  A stroke the room does not hold, and a refusal, are silent. -/
def handleStrokeUndo (envelope : Envelope) (decoded : Except String StrokeUndoPayload)
    (state : RoomState) (userId : Uuid) : Option (RoomDispatchOutcome × RoomState) :=
  match decoded with
  | .error e => some (errOutcome envelope ("bad DRAW_UNDO payload: " ++ e), state)
  | .ok payload =>
    match state.drawing.ownerOf payload.strokeId with
    | none => some (.empty, state)
    | some owner =>
      if !mayUndo state userId owner then some (.empty, state)
      else do
        let (_, drawing) ← state.drawing.removeCommitted payload.strokeId
        some (.ofEvents [.strokeUndo state.id userId payload], { state with drawing })

/-- `DRAW_CLEAR`. -/
def handleStrokeClear (state : RoomState) (userId : Uuid) : RoomDispatchOutcome × RoomState :=
  if !state.presentCan userId .drawing .clearAll then (.empty, state)
  else (.ofEvents [.strokeClear state.id userId],
    { state with drawing := state.drawing.clearAll.2 })

end Locast.Rooms

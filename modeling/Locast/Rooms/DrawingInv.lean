import Locast.Rooms.Drawing
import Locast.Rooms.StrokeInv

/-!
# Runs of the drawing handlers

`DrawingCall` is one call of a drawing handler, by any user with any payload and time, or any other
operation on the room, none of which touches `drawing`.  `DrawingStep` says what a call can do to a
bookkeeping with the invariant (`drawingCall_spec`); every invariant of a run of calls is derived
from it.
-/

namespace Locast.Rooms

open Locast.Protocol StrokeBookkeeping

inductive DrawingCall where
  | begin (envelope : Envelope) (decoded : Except String StrokeBeginPayload) (userId : Uuid)
      (pubkey : PubKey) (nowMs : ℤ)
  | point (envelope : Envelope) (decoded : Except String StrokePointPayload) (userId : Uuid)
  | finish (envelope : Envelope) (decoded : Except String StrokeEndPayload) (userId : Uuid)
  | undo (envelope : Envelope) (decoded : Except String StrokeUndoPayload) (userId : Uuid)
  | clear (userId : Uuid)
  | elsewhere (state : RoomState)

/-- The room state after a call; `none` is an underflow. -/
def DrawingCall.run (verify : VerifyStroke) (state : RoomState) : DrawingCall → Option RoomState
  | .begin envelope decoded userId pubkey nowMs =>
    (handleStrokeBegin verify envelope decoded state userId pubkey nowMs).map (·.2)
  | .point envelope decoded userId => (handleStrokePoint envelope decoded state userId).map (·.2)
  | .finish envelope decoded userId => (handleStrokeEnd envelope decoded state userId).map (·.2)
  | .undo envelope decoded userId => (handleStrokeUndo envelope decoded state userId).map (·.2)
  | .clear userId => some (handleStrokeClear state userId).2
  | .elsewhere state' => some { state' with drawing := state.drawing }

/-- The room state after a sequence of calls. -/
def runCalls (verify : VerifyStroke) (state : RoomState) (calls : List DrawingCall) :
    Option RoomState :=
  calls.foldlM (fun state call => call.run verify state) state

/-! ### What a call does -/

/-- What a drawing call can do to the bookkeeping. -/
inductive DrawingStep (s : StrokeBookkeeping) : DrawingCall → StrokeBookkeeping → Prop
  | same (call : DrawingCall) : DrawingStep s call s
  | opened (envelope : Envelope) (payload : StrokeBeginPayload) (userId : Uuid) (pubkey : PubKey)
      (nowMs : ℤ) (hp : payload.strokeId ∉ s.pending) (hc : payload.strokeId ∉ s.committed)
      (t : StrokeBookkeeping) (finished : List (Uuid × Uuid))
      (hf : FinishesAll userId nowMs s finished t) :
      DrawingStep s (.begin envelope (.ok payload) userId pubkey nowMs)
        (t.opened ⟨userId, pubkey, nowMs, false⟩ payload)
  | kept (envelope : Envelope) (payload : StrokePointPayload) (userId : Uuid)
      (hr : (validateUnitRange payload.x && validateUnitRange payload.y &&
        validateUnitRange payload.pressure) = true)
      (stroke : PendingStroke) (hs : s.pending.get payload.strokeId = some stroke)
      (hu : stroke.senderId = userId) (hcl : stroke.cleared = false) (s' : StrokeBookkeeping)
      (hk : s.KeepsPoint payload s') :
      DrawingStep s (.point envelope (.ok payload) userId) s'
  | forgot (envelope : Envelope) (payload : StrokeEndPayload) (userId : Uuid)
      (stroke : PendingStroke) (hs : s.pending.get payload.strokeId = some stroke)
      (hcl : stroke.cleared = true) :
      DrawingStep s (.finish envelope (.ok payload) userId)
        ((s.closed payload.strokeId).forgotten payload.strokeId)
  | ended (envelope : Envelope) (payload : StrokeEndPayload) (userId : Uuid)
      (stroke : PendingStroke) (hs : s.pending.get payload.strokeId = some stroke)
      (hcl : stroke.cleared = false) (s' : StrokeBookkeeping)
      (he : s.Ends payload.strokeId stroke.senderId payload.tsMs s') :
      DrawingStep s (.finish envelope (.ok payload) userId) s'
  | undone (envelope : Envelope) (payload : StrokeUndoPayload) (userId : Uuid)
      (hc : payload.strokeId ∈ s.committed) :
      DrawingStep s (.undo envelope (.ok payload) userId) (s.undone payload.strokeId)
  | cleared (userId : Uuid) : DrawingStep s (.clear userId) s.clearAll.2

variable {verify : VerifyStroke} {state : RoomState}

/-- The handler goes through with the call. -/
def DrawingCall.accepted (verify : VerifyStroke) (state : RoomState) : DrawingCall → Bool
  | .begin envelope (.ok payload) userId pubkey _ =>
    (strokeBeginError verify envelope state userId pubkey payload).isNone
  | .point _ (.ok payload) userId =>
    validateUnitRange payload.x && validateUnitRange payload.y &&
      validateUnitRange payload.pressure &&
      (state.drawing.pending.get payload.strokeId).any fun stroke =>
        stroke.senderId == userId && !stroke.cleared
  | .finish _ (.ok payload) userId =>
    (state.drawing.pending.get payload.strokeId).any fun stroke => stroke.senderId == userId
  | .undo _ (.ok payload) userId =>
    (state.drawing.ownerOf payload.strokeId).any fun owner => mayUndo state userId owner
  | .clear userId => state.presentCan userId .drawing .clearAll
  | _ => false

/-- What a call of a drawing handler does to the drawing, and the events it makes. -/
inductive Drawn (verify : VerifyStroke) (state : RoomState) :
    DrawingCall → List RoomEvent → StrokeBookkeeping → Prop
  | silent (call : DrawingCall) (h : call.accepted verify state = false) :
      Drawn verify state call [] state.drawing
  | opened (envelope : Envelope) (payload : StrokeBeginPayload) (userId : Uuid) (pubkey : PubKey)
      (nowMs : ℤ) (haccept : strokeBeginError verify envelope state userId pubkey payload = none)
      (finished : List (Uuid × Uuid)) (t : StrokeBookkeeping)
      (hf : FinishesOnce userId nowMs state.drawing finished t) :
      Drawn verify state (.begin envelope (.ok payload) userId pubkey nowMs)
        (finished.map (fun stroke => .strokeEnd (envelope.roomId.getD state.id) stroke.2
          { strokeId := stroke.1, tsMs := nowMs }) ++
          [.strokeBegin (envelope.roomId.getD state.id) userId payload])
        (t.opened ⟨userId, pubkey, nowMs, false⟩ payload)
  | kept (envelope : Envelope) (payload : StrokePointPayload) (userId : Uuid)
      (hr : (validateUnitRange payload.x && validateUnitRange payload.y &&
        validateUnitRange payload.pressure) = true)
      (stroke : PendingStroke) (hs : state.drawing.pending.get payload.strokeId = some stroke)
      (hu : stroke.senderId = userId) (hcl : stroke.cleared = false) (s' : StrokeBookkeeping)
      (hk : state.drawing.KeepsPoint payload s') :
      Drawn verify state (.point envelope (.ok payload) userId)
        [.strokePoint (envelope.roomId.getD state.id) userId payload] s'
  | forgot (envelope : Envelope) (payload : StrokeEndPayload) (userId : Uuid)
      (stroke : PendingStroke) (hs : state.drawing.pending.get payload.strokeId = some stroke)
      (hu : stroke.senderId = userId) (hcl : stroke.cleared = true) :
      Drawn verify state (.finish envelope (.ok payload) userId) []
        ((state.drawing.closed payload.strokeId).forgotten payload.strokeId)
  | ended (envelope : Envelope) (payload : StrokeEndPayload) (userId : Uuid)
      (stroke : PendingStroke) (hs : state.drawing.pending.get payload.strokeId = some stroke)
      (hu : stroke.senderId = userId) (hcl : stroke.cleared = false) (s' : StrokeBookkeeping)
      (he : state.drawing.Ends payload.strokeId userId payload.tsMs s') :
      Drawn verify state (.finish envelope (.ok payload) userId)
        [.strokeEnd (envelope.roomId.getD state.id) userId payload] s'
  | undone (envelope : Envelope) (payload : StrokeUndoPayload) (userId owner : Uuid)
      (ho : state.drawing.ownerOf payload.strokeId = some owner)
      (hm : mayUndo state userId owner = true) :
      Drawn verify state (.undo envelope (.ok payload) userId)
        [.strokeUndo state.id userId payload] (state.drawing.undone payload.strokeId)
  | cleared (userId : Uuid) (hm : state.presentCan userId .drawing .clearAll = true) :
      Drawn verify state (.clear userId) [.strokeClear state.id userId] state.drawing.clearAll.2

lemma strokeBeginError_eq_none {envelope : Envelope} {userId : Uuid} {pubkey : PubKey}
    {payload : StrokeBeginPayload}
    (h : strokeBeginError verify envelope state userId pubkey payload = none) :
    verifyStrokeBeginSignature verify envelope payload userId pubkey = .ok () ∧
      payload.strokeId ∉ state.drawing.pending ∧ payload.strokeId ∉ state.drawing.committed := by
  unfold strokeBeginError at h
  split at h
  · cases h
  · split at h
    · cases h
    · rename_i hsig
      split at h
      · cases h
      · rename_i hneg
        simp only [Bool.or_eq_true, decide_eq_true_eq, not_or] at hneg
        exact ⟨hsig, hneg.1, fun hc => hneg.2 (AList.mem_iff_get.1 hc)⟩

/-- An accepted `DRAW_BEGIN`. -/
lemma handleStrokeBegin_accepted (h : state.drawing.Bookkept) {envelope : Envelope}
    {payload : StrokeBeginPayload} {userId : Uuid} {pubkey : PubKey}
    (haccept : strokeBeginError verify envelope state userId pubkey payload = none) (nowMs : ℤ) :
    ∃ finished t, FinishesOnce userId nowMs state.drawing finished t ∧
      handleStrokeBegin verify envelope (.ok payload) state userId pubkey nowMs =
        some (.ofEvents (finished.map (fun stroke => .strokeEnd (envelope.roomId.getD state.id)
            stroke.2 { strokeId := stroke.1, tsMs := nowMs }) ++
            [.strokeBegin (envelope.roomId.getD state.id) userId payload]),
          { state with drawing := t.opened ⟨userId, pubkey, nowMs, false⟩ payload }) := by
  obtain ⟨t, finished, hfin, hf⟩ := finishOldestOpenStrokes_once h userId nowMs
  have ht : t.Bookkept := h.finishesAll hf.all
  have hbegin := recordBegin_eq ht.retained ⟨userId, pubkey, nowMs, false⟩ payload
  refine ⟨finished, t, hf, ?_⟩
  simp only [handleStrokeBegin, haccept, hfin, hbegin, Option.bind_eq_bind, Option.bind_some]

lemma handleStrokeBegin_drawn (verify : VerifyStroke) (h : state.drawing.Bookkept)
    (envelope : Envelope) (decoded : Except String StrokeBeginPayload) (userId : Uuid)
    (pubkey : PubKey) (nowMs : ℤ) :
    ∃ out drawing, handleStrokeBegin verify envelope decoded state userId pubkey nowMs =
        some (out, { state with drawing }) ∧
      Drawn verify state (.begin envelope decoded userId pubkey nowMs) out.events drawing := by
  cases decoded with
  | error e => exact ⟨_, state.drawing, rfl, .silent _ rfl⟩
  | ok payload =>
    cases herr : strokeBeginError verify envelope state userId pubkey payload with
    | some e =>
      exact ⟨drawingError envelope e, state.drawing, by simp only [handleStrokeBegin, herr],
        .silent _ (by simp [DrawingCall.accepted, herr])⟩
    | none =>
      obtain ⟨finished, t, hf, hrun⟩ := handleStrokeBegin_accepted h herr nowMs
      exact ⟨_, _, hrun, .opened envelope payload userId pubkey nowMs herr finished t hf⟩

lemma handleStrokePoint_drawn (verify : VerifyStroke) (h : state.drawing.Bookkept)
    (envelope : Envelope) (decoded : Except String StrokePointPayload) (userId : Uuid) :
    ∃ out drawing, handleStrokePoint envelope decoded state userId =
        some (out, { state with drawing }) ∧
      Drawn verify state (.point envelope decoded userId) out.events drawing := by
  cases decoded with
  | error e => exact ⟨_, state.drawing, rfl, .silent _ rfl⟩
  | ok payload =>
    unfold handleStrokePoint
    dsimp only
    split
    · rename_i hrange
      refine ⟨_, state.drawing, rfl, .silent _ ?_⟩
      simp only [DrawingCall.accepted]
      cases hx : validateUnitRange payload.x <;> cases hy : validateUnitRange payload.y <;>
        cases hp : validateUnitRange payload.pressure <;> simp_all
    rename_i hrange
    cases hs : state.drawing.pending.get payload.strokeId with
    | none => exact ⟨_, state.drawing, rfl, .silent _ (by simp [DrawingCall.accepted, hs])⟩
    | some binding =>
      dsimp only
      split
      · rename_i hu
        exact ⟨_, state.drawing, rfl, .silent _ (by simp [DrawingCall.accepted, hs, hu])⟩
      rename_i hu
      have hu : binding.senderId = userId := by simpa using hu
      split
      · rename_i hcl
        exact ⟨_, state.drawing, rfl, .silent _ (by simp [DrawingCall.accepted, hs, hcl])⟩
      rename_i hcl
      have hcommitted := h.not_committed_of_pending _ (AList.mem_of_get hs)
      obtain ⟨s', hrec, hk⟩ := recordPoint_spec h.retained payload hcommitted
      simp only [hrec, hu, Option.bind_eq_bind, Option.bind_some]
      exact ⟨_, _, rfl, .kept envelope payload userId (by simpa [and_assoc] using hrange) binding
        hs hu (by simpa using hcl) s' hk⟩

/-- An accepted `DRAW_END` of a stroke that was not cleared. -/
lemma handleStrokeEnd_accepted (h : state.drawing.Bookkept) {payload : StrokeEndPayload}
    {binding : PendingStroke} (hs : state.drawing.pending.get payload.strokeId = some binding)
    (hcl : binding.cleared = false) (envelope : Envelope) :
    ∃ s', state.drawing.Ends payload.strokeId binding.senderId payload.tsMs s' ∧
      handleStrokeEnd envelope (.ok payload) state binding.senderId =
        some (.ofEvents [.strokeEnd (envelope.roomId.getD state.id) binding.senderId payload],
          { state with drawing := s' }) := by
  obtain ⟨t, gone, hcommit, he⟩ :=
    exists_ends h (AList.mem_of_get hs) binding.senderId payload.tsMs
  unfold closed at hcommit
  refine ⟨_, he, ?_⟩
  simp only [handleStrokeEnd, hs, hcl, hcommit, ne_eq, not_true, Bool.false_eq_true, if_false,
    Option.bind_eq_bind, Option.bind_some]

lemma handleStrokeEnd_drawn (verify : VerifyStroke) (h : state.drawing.Bookkept)
    (envelope : Envelope) (decoded : Except String StrokeEndPayload) (userId : Uuid) :
    ∃ out drawing, handleStrokeEnd envelope decoded state userId =
        some (out, { state with drawing }) ∧
      Drawn verify state (.finish envelope decoded userId) out.events drawing := by
  cases decoded with
  | error e => exact ⟨_, state.drawing, rfl, .silent _ rfl⟩
  | ok payload =>
    cases hs : state.drawing.pending.get payload.strokeId with
    | none =>
      exact ⟨drawingError envelope .unknownStroke, state.drawing, by simp [handleStrokeEnd, hs],
        .silent _ (by simp [DrawingCall.accepted, hs])⟩
    | some binding =>
      by_cases hu : binding.senderId = userId
      swap
      · exact ⟨drawingError envelope .strokeIdMismatch, state.drawing,
          by simp [handleStrokeEnd, hs, hu], .silent _ (by simp [DrawingCall.accepted, hs, hu])⟩
      cases hcl : binding.cleared with
      | true =>
        have hr : (state.drawing.closed payload.strokeId).Retained := ⟨h.retained.count_eq,
          h.retained.count_le, h.retained.points_le, h.retained.dropped_empty⟩
        have hforget := forgetContent_eq hr payload.strokeId
        unfold closed at hforget
        refine ⟨.empty, _, ?_, .forgot envelope payload userId binding hs hu hcl⟩
        simp only [handleStrokeEnd, hs, hu, hcl, hforget, ne_eq, not_true, if_false, if_true,
          Option.bind_eq_bind, Option.bind_some]
        rfl
      | false =>
        subst hu
        obtain ⟨s', he, hrun⟩ := handleStrokeEnd_accepted h hs hcl envelope
        exact ⟨_, _, hrun, .ended envelope payload _ binding hs rfl hcl _ he⟩

lemma handleStrokeUndo_drawn (verify : VerifyStroke) (h : state.drawing.Bookkept)
    (envelope : Envelope) (decoded : Except String StrokeUndoPayload) (userId : Uuid) :
    ∃ out drawing, handleStrokeUndo envelope decoded state userId =
        some (out, { state with drawing }) ∧
      Drawn verify state (.undo envelope decoded userId) out.events drawing := by
  cases decoded with
  | error e => exact ⟨_, state.drawing, rfl, .silent _ rfl⟩
  | ok payload =>
    unfold handleStrokeUndo
    dsimp only
    cases ho : state.drawing.ownerOf payload.strokeId with
    | none => exact ⟨_, state.drawing, rfl, .silent _ (by simp [DrawingCall.accepted, ho])⟩
    | some owner =>
      dsimp only
      split
      · rename_i hm
        exact ⟨_, state.drawing, rfl,
          .silent _ (by simpa [DrawingCall.accepted, ho] using hm)⟩
      rename_i hm
      have hc : payload.strokeId ∈ state.drawing.committed := AList.mem_of_get ho
      simp only [removeCommitted_eq h.retained hc, Option.bind_eq_bind, Option.bind_some]
      exact ⟨_, _, rfl, .undone envelope payload userId owner ho (by simpa using hm)⟩

lemma handleStrokeClear_drawn (verify : VerifyStroke) (state : RoomState) (userId : Uuid) :
    ∃ drawing, (handleStrokeClear state userId).2 = { state with drawing } ∧
      Drawn verify state (.clear userId) (handleStrokeClear state userId).1.events drawing := by
  unfold handleStrokeClear
  split
  · rename_i hm
    exact ⟨state.drawing, rfl, .silent _ (by simpa [DrawingCall.accepted] using hm)⟩
  · rename_i hm
    exact ⟨_, rfl, .cleared userId (by simpa using hm)⟩

/-- Whatever a handler does is a step of the bookkeeping. -/
lemma Drawn.step {call : DrawingCall} {events : List RoomEvent} {drawing : StrokeBookkeeping}
    (h : Drawn verify state call events drawing) : DrawingStep state.drawing call drawing := by
  cases h with
  | silent => exact .same _
  | opened envelope payload userId pubkey nowMs haccept finished t hf =>
    obtain ⟨-, hp, hc⟩ := strokeBeginError_eq_none haccept
    exact .opened envelope payload userId pubkey nowMs hp hc t finished hf.all
  | kept envelope payload userId hr stroke hs hu hcl s' hk =>
    exact .kept envelope payload userId hr stroke hs hu hcl _ hk
  | forgot envelope payload userId stroke hs hu hcl =>
    exact .forgot envelope payload userId stroke hs hcl
  | ended envelope payload userId stroke hs hu hcl s' he =>
    exact .ended envelope payload userId stroke hs hcl _ (hu ▸ he)
  | undone envelope payload userId owner ho hm =>
    exact .undone envelope payload userId (AList.mem_of_get ho)
  | cleared userId hm => exact .cleared userId

/-- **What a drawing call does**: on a bookkeeping with the invariant it returns, with one of the
steps of `DrawingStep`. -/
theorem drawingCall_spec (verify : VerifyStroke) (h : state.drawing.Bookkept) (call : DrawingCall) :
    ∃ state', call.run verify state = some state' ∧
      DrawingStep state.drawing call state'.drawing := by
  cases call with
  | begin envelope decoded userId pubkey nowMs =>
    obtain ⟨out, drawing, hrun, hs⟩ := handleStrokeBegin_drawn verify h envelope decoded userId
      pubkey nowMs
    exact ⟨_, by rw [DrawingCall.run, hrun]; rfl, hs.step⟩
  | point envelope decoded userId =>
    obtain ⟨out, drawing, hrun, hs⟩ := handleStrokePoint_drawn verify h envelope decoded userId
    exact ⟨_, by rw [DrawingCall.run, hrun]; rfl, hs.step⟩
  | finish envelope decoded userId =>
    obtain ⟨out, drawing, hrun, hs⟩ := handleStrokeEnd_drawn verify h envelope decoded userId
    exact ⟨_, by rw [DrawingCall.run, hrun]; rfl, hs.step⟩
  | undo envelope decoded userId =>
    obtain ⟨out, drawing, hrun, hs⟩ := handleStrokeUndo_drawn verify h envelope decoded userId
    exact ⟨_, by rw [DrawingCall.run, hrun]; rfl, hs.step⟩
  | clear userId =>
    obtain ⟨drawing, hrun, hs⟩ := handleStrokeClear_drawn verify state userId
    exact ⟨_, by rw [DrawingCall.run, hrun], hs.step⟩
  | elsewhere state' => exact ⟨_, rfl, .same _⟩

/-! ### The invariant along a run -/

/-- **One call keeps the bookkeeping invariant.** -/
theorem StrokeBookkeeping.Bookkept.step {s s' : StrokeBookkeeping} {call : DrawingCall}
    (h : s.Bookkept) (hs : DrawingStep s call s') : s'.Bookkept := by
  cases hs with
  | same => exact h
  | opened envelope payload userId pubkey nowMs hp hc t finished hf =>
    obtain ⟨hp', hc'⟩ := hf.fresh hp hc
    exact (h.finishesAll hf).opened rfl hp' hc' hf.bounds.1 hf.bounds.2
  | kept envelope payload userId hr stroke hs hu hcl s' hk => exact h.keepsPoint hk
  | forgot => exact h.closed_forgotten _
  | ended envelope payload userId stroke hs hcl s' he => exact h.ends he
  | undone => exact h.undone _
  | cleared => exact h.clearAll

/-- A run of calls from a state with the invariant never underflows and keeps the invariant. -/
theorem runCalls_bookkept (verify : VerifyStroke) (calls : List DrawingCall) (state : RoomState)
    (h : state.drawing.Bookkept) :
    ∃ state', runCalls verify state calls = some state' ∧ state'.drawing.Bookkept := by
  induction calls generalizing state with
  | nil => exact ⟨state, rfl, h⟩
  | cons call calls ih =>
    obtain ⟨state₁, hrun, hs⟩ := drawingCall_spec verify h call
    obtain ⟨state₂, hrest, h₂⟩ := ih state₁ (h.step hs)
    refine ⟨state₂, ?_, h₂⟩
    rw [runCalls, List.foldlM_cons, hrun]
    exact hrest

/-- **The drawing bookkeeping invariant.**  From a new room, every sequence of drawing calls returns
(no subtraction underflows) and ends in a bookkeeping with the invariant. -/
theorem drawing_bookkept (verify : VerifyStroke) (id : Uuid) (code title : String)
    (hostUserId : Uuid) (hostPubkey : PubKey) (migration : Bool) (createdMs : ℤ)
    (capSet : BitVec 32) (wallMs : ℕ) (calls : List DrawingCall) :
    ∃ state, runCalls verify
        (.new id code title hostUserId hostPubkey migration createdMs capSet wallMs) calls =
        some state ∧
      state.drawing.Bookkept :=
  runCalls_bookkept verify calls _ (.new wallMs)

end Locast.Rooms

import Locast.Protocol.Room

/-!
# The numbering of playback commands (`net/room.rs`)

The client numbers the host's commands itself, remembers the recent ones, and goes back to the
number the server expects when a command was lost.
-/

namespace Locast.Client

open Locast.Protocol

/-- What the host last sent as a playback command. -/
structure SentPlayback where
  seq : ℕ
  action : PlaybackAction
  mediaPositionMs : ℕ
  deriving DecidableEq

/-- `PLAYBACK_REPLAY_WINDOW`. -/
def playbackReplayWindow : ℕ := 16

/-- The next number, the commands no answer has confirmed (oldest first), the `expected` a replay
was made for since the last new command, and the highest `expected` so far. -/
structure PlaybackSeq where
  next : ℕ
  sent : List SentPlayback
  replayedFor : Option ℕ
  knownExpected : ℕ
  deriving DecidableEq

namespace PlaybackSeq

def new : PlaybackSeq := ⟨1, [], none, 0⟩

/-- Numbers a new command. -/
def number (action : PlaybackAction) (pos : ℕ) (s : PlaybackSeq) : ℕ × PlaybackSeq :=
  let sent := s.sent ++ [⟨s.next, action, pos⟩]
  (s.next, { s with
    next := s.next + 1
    sent := sent.drop (sent.length - playbackReplayWindow)
    replayedFor := none })

/-- Takes back the number of a command that never reached the wire. -/
def giveBack (seq : ℕ) (s : PlaybackSeq) : PlaybackSeq :=
  if s.next = seq + 1 then { s with next := seq, sent := s.sent.dropLast } else s

/-- **A number that is given back at once** is the next one again, and nothing is remembered that
was not. -/
theorem giveBack_number (action : PlaybackAction) (pos : ℕ) (s : PlaybackSeq) :
    ((s.number action pos).2.giveBack s.next).next = s.next ∧
      ((s.number action pos).2.giveBack s.next).sent <:+ s.sent := by
  have hback : (s.number action pos).2.giveBack s.next =
      { (s.number action pos).2 with next := s.next, sent :=
        (s.number action pos).2.sent.dropLast } :=
    if_pos rfl
  rw [hback]
  refine ⟨rfl, ?_⟩
  dsimp only [number]
  rw [List.drop_append_of_le_length, List.dropLast_concat]
  · exact List.drop_suffix _ _
  · rw [List.length_append, List.length_singleton, playbackReplayWindow]
    omega

/-- Commands numbered from `expected` on. -/
def renumber (expected : ℕ) (l : List SentPlayback) : List SentPlayback :=
  l.mapIdx fun i c => { c with seq := expected + i }

/-- What to send again, in order, after a rejection that says the server expects `expected`. -/
def planResync (expected : ℕ) (stateRefusal : Bool) (s : PlaybackSeq) :
    List SentPlayback × PlaybackSeq :=
  if expected < s.knownExpected then ([], s)
  else
    let s := { s with knownExpected := expected }
    if s.sent.getLast?.all fun c => decide (c.seq < expected) then ([], { s with next := expected })
    else if s.replayedFor = some expected then ([], s)
    else
      let kept := s.sent.filter fun c => decide (expected ≤ c.seq)
      -- the room has not started: only a PLAY applies
      let kept := if stateRefusal then kept.dropWhile fun c => c.action != .play else kept
      let sent := renumber expected kept
      (sent, { s with
        replayedFor := some expected
        sent := sent
        next := expected + sent.length })

end PlaybackSeq

end Locast.Client

import Locast.Lib.Machine
import Mathlib.Data.Rat.Defs
import Mathlib.Algebra.Order.Field.Rat
import Mathlib.Data.List.Basic
import Mathlib.Tactic.Linarith

/-!
# The laser sender (`laser/laserTransport.ts`)

The sender holds the newest position and a release that waits; one timer is both the gate of the
rate and the keepalive.  It hands one message at a time to the transport, whose promise settles
late, in time or never.

Numbers are rationals: how JavaScript rounds is not modelled.
-/

namespace Locast.Client.Laser

open Locast.Lib

/-! ### Data -/

/-- A place on the video frame. -/
structure Pos where
  x : ℚ
  y : ℚ
  deriving DecidableEq

/-- `LaserSendInput`. -/
inductive LaserSendInput where
  | move (pos : Pos)
  | off
  deriving DecidableEq

/-- What the sender is made with; `Infinity` is none. -/
structure LaserSenderOptions where
  minIntervalMs : ℚ
  keepaliveMs : Option ℚ
  sendTimeoutMs : Option ℚ

/-- Above zero and finite. -/
def enabled (ms : Option ℚ) : Bool := ms.any (0 < ·)

/-- What an armed timer is for. -/
inductive TimerKind where
  | gate
  | keepalive
  deriving DecidableEq

/-- A call of `dispatch`: what it hands over and when, whether its promise has settled, and whether
it is done with.  Its own timeout is armed, if timeouts are enabled, until it is done with. -/
structure Dispatched where
  input : LaserSendInput
  startedAt : ℚ
  promiseSettled : Bool
  settled : Bool
  deriving DecidableEq

/-- The release that `close` sends: once the latest promise has settled. -/
inductive FinalOff where
  | none
  | waiting
  | sent
  deriving DecidableEq

/-- `timer` has what it is for and the milliseconds it was armed with.  A time is none before the
first. -/
structure LaserSender where
  pending : Option Pos
  offPending : Bool
  held : Bool
  movedSinceOff : Bool
  lastPos : Option Pos
  lastMoveAt : Option ℚ
  lastSendAt : Option ℚ
  inFlight : Bool
  timer : Option (TimerKind × ℚ)
  disposed : Bool
  sends : List Dispatched
  finalOff : FinalOff
  deriving DecidableEq

/-- The readings of the clock in one call: for the gate, for the move and at the send. -/
structure Readings where
  gate : ℚ
  move : ℚ
  send : ℚ
  gate_le : gate ≤ move
  move_le : move ≤ send

/-- A clock that stands still. -/
def Readings.still (t : ℚ) : Readings := ⟨t, t, t, le_rfl, le_rfl⟩

variable (opts : LaserSenderOptions)

namespace LaserSender

def start : LaserSender where
  pending := none
  offPending := false
  held := false
  movedSinceOff := false
  lastPos := none
  lastMoveAt := none
  lastSendAt := none
  inFlight := false
  timer := none
  disposed := false
  sends := []
  finalOff := .none

/-! ### Calls -/

def cancelTimer (s : LaserSender) : LaserSender := { s with timer := none }

def armTimer (kind : TimerKind) (ms : ℚ) (s : LaserSender) : LaserSender :=
  { s with timer := some (kind, ms) }

/-- `dispatch` up to the promise of the transport. -/
def dispatch (input : LaserSendInput) (r : Readings) (s : LaserSender) : LaserSender :=
  { s with
    inFlight := true
    lastSendAt := some r.send
    sends := s.sends ++ [⟨input, r.send, false, false⟩] }

/-- The wait until the gate opens. -/
def gateWait (now : ℚ) (s : LaserSender) : ℚ :=
  match s.lastSendAt with
  | none => 0
  | some t => t + opts.minIntervalMs - now

/-- The gate is shut: its timer runs already or is armed. -/
def awaitGate (now : ℚ) (s : LaserSender) : LaserSender :=
  if s.timer.any (·.1 = .gate) then s else s.armTimer .gate (s.gateWait opts now)

/-- `pump`: sends what is due, or arms the timer for it. -/
def pump (r : Readings) (s : LaserSender) : LaserSender :=
  if s.disposed ∨ s.inFlight then s
  else if s.offPending then
    if 0 < s.gateWait opts r.gate then s.awaitGate opts r.gate
    else dispatch .off r
      (cancelTimer { s with offPending := false, movedSinceOff := false, lastPos := none })
  else match s.pending with
    | some pos =>
      if 0 < s.gateWait opts r.gate then s.awaitGate opts r.gate
      else dispatch (.move pos) r (cancelTimer { s with
        pending := none, lastPos := some pos, lastMoveAt := some r.move, movedSinceOff := true })
    | none =>
      match s.lastMoveAt, opts.keepaliveMs with
      | some t, some ms =>
        if s.held ∧ s.lastPos.isSome ∧ 0 < ms then s.armTimer .keepalive
          (max 0 (t + ms - r.gate)) else s
      | _, _ => s

/-- A finite number within [0, 1]; what is not finite is none. -/
def isUnit (n : Option ℚ) : Bool := n.any fun q => 0 ≤ q ∧ q ≤ 1

def move (x y : Option ℚ) (r : Readings) (s : LaserSender) : LaserSender :=
  match x, y with
  | some x, some y =>
    if s.disposed ∨ ¬(isUnit (some x) ∧ isUnit (some y)) then s
    else pump opts r { s with pending := some ⟨x, y⟩, held := true, offPending := false }
  | _, _ => s

def off (r : Readings) (s : LaserSender) : LaserSender :=
  if s.disposed then s
  else
    let s := cancelTimer { s with pending := none, held := false }
    if s.movedSinceOff then pump opts r { s with offPending := true } else s

def dispose (s : LaserSender) : LaserSender :=
  cancelTimer { s with disposed := true, pending := none, offPending := false, held := false }

def close (s : LaserSender) : LaserSender :=
  if s.disposed then s
  else
    let release := s.movedSinceOff
    { s.dispose with finalOff := if release then .waiting else .none }

/-! ### Callbacks -/

/-- The timer's callback. -/
def fire (kind : TimerKind) (r : Readings) (s : LaserSender) : LaserSender :=
  let s := { s with timer := none }
  if s.disposed then s
  else if kind = .keepalive ∧ s.held ∧ s.pending = none ∧ s.lastPos.isSome then
    pump opts r { s with pending := s.lastPos }
  else pump opts r s

/-- `done` of a dispatch, from its promise or from its timeout. -/
def done (k : ℕ) (r : Readings) (s : LaserSender) : LaserSender :=
  match s.sends[k]? with
  | none => s
  | some d =>
    if d.settled then s
    else pump opts r { s with sends := s.sends.set k { d with settled := true }, inFlight := false }

/-- The promise of the latest send, for `close`. -/
def lastSettled (s : LaserSender) : Bool := s.sends.getLast?.all (·.promiseSettled)

end LaserSender

/-! ### Runs -/

/-- A call, the firing of a timer, a promise that settles, or a callback of one that has. -/
inductive LaserInput where
  | move (x y : Option ℚ) (r : Readings)
  | off (r : Readings)
  | close
  | timer (r : Readings)
  | timeout (k : ℕ) (r : Readings)
  | settle (k : ℕ)
  | callback (k : ℕ) (r : Readings)
  | final

/-- The sender, and the clock's last reading. -/
structure LaserRun where
  sender : LaserSender
  clock : ℚ
  deriving DecidableEq

namespace LaserRun

def start (clock : ℚ) : LaserRun := ⟨.start, clock⟩

/-- A step that reads the clock. -/
def read (s : LaserRun) (r : Readings) (f : LaserSender → LaserSender) : Option LaserRun :=
  if s.clock ≤ r.gate then some ⟨f s.sender, r.send⟩ else none

end LaserRun

/-- `settles` tells the sends whose promises settle, with success or failure. -/
def laserMachine (settles : ℕ → Bool) : Machine LaserRun LaserInput
  | s, .move x y r => s.read r (·.move opts x y r)
  | s, .off r => s.read r (·.off opts r)
  | s, .close => some { s with sender := s.sender.close }
  | s, .timer r => s.sender.timer.bind fun t => s.read r (·.fire opts t.1 r)
  | s, .timeout k r => s.sender.sends[k]?.bind fun d =>
    if enabled opts.sendTimeoutMs ∧ ¬d.settled then s.read r (·.done opts k r) else none
  | s, .settle k => s.sender.sends[k]?.bind fun d =>
    if settles k ∧ ¬d.promiseSettled then
      some
        { s with sender :=
          { s.sender with sends := s.sender.sends.set k { d with promiseSettled := true } } }
    else none
  | s, .callback k r => s.sender.sends[k]?.bind fun d =>
    if d.promiseSettled ∧ ¬d.settled then s.read r (·.done opts k r) else none
  | s, .final =>
    if s.sender.finalOff = .waiting ∧ s.sender.lastSettled then
      some { s with sender := { s.sender with finalOff := .sent } }
    else none

/-! ### What the sender is for -/

def LaserSendInput.isMove : LaserSendInput → Bool
  | move _ => true
  | off => false

def FinalOff.isWaiting : FinalOff → Bool
  | waiting => true
  | _ => false

namespace LaserSender

/-- What was handed to the transport. -/
def handed (s : LaserSender) : List LaserSendInput :=
  s.sends.map (·.input) ++ if s.finalOff = .sent then [.off] else []

/-- No release was handed over after some move. -/
def Unreleased (s : LaserSender) : Prop :=
  ∃ before pos after, s.handed = before ++ .move pos :: after ∧ .off ∉ after

/-- The sends that have neither settled nor timed out. -/
def outstanding (s : LaserSender) : ℕ :=
  s.sends.countP (fun d => !d.promiseSettled && !d.settled) + if s.finalOff = .sent then 1 else 0

/-- Something is to be sent, now or later. -/
def WorkDue (s : LaserSender) : Prop :=
  s.pending.isSome ∨ s.offPending ∨ s.held ∧ enabled opts.keepaliveMs

/-- **The sender never stalls.** -/
def NoStall (s : LaserSender) : Prop :=
  s.disposed = false → s.WorkDue opts → s.inFlight ∨ s.timer.isSome

/-! ### The sends -/

/-- What the sends keep. -/
structure SendsOk (s : LaserSender) (clock : ℚ) : Prop where
  sendAt : ∀ t, s.lastSendAt = some t → t ≤ clock
  startedBy : ∀ started ∈ s.sends.map (·.startedAt), ∃ t, s.lastSendAt = some t ∧ started ≤ t
  spaced : (s.sends.map (·.startedAt)).Pairwise fun t t' => t + opts.minIntervalMs ≤ t'
  onlyLast : ∀ i d, s.sends[i]? = some d → d.settled = false → i + 1 = s.sends.length ∧
    s.inFlight = true
  flight : s.inFlight = true → (s.sends.map (·.settled)).getLast? = some false

/-- What the flags keep. -/
structure FlagsOk (s : LaserSender) : Prop where
  moved : s.movedSinceOff = (s.sends.map (·.input)).getLast?.any (·.isMove)
  pendingHeld : s.pending.isSome → s.held = true
  offFree : s.offPending = true → s.held = false ∧ s.movedSinceOff = true
  released : s.movedSinceOff = true → s.held = false → s.disposed = false → s.offPending = true
  heldPos : s.held = true → s.pending = none → s.lastPos.isSome ∧ s.lastMoveAt.isSome
  timerFree : s.timer.isSome → s.inFlight = false
  timerDue : s.timer.isSome → s.held = false → s.offPending = true
  idle : s.disposed = true → s.pending = none ∧ s.offPending = false ∧ s.held = false ∧
    s.timer = none
  finalOpen : s.finalOff ≠ .none → s.disposed = true ∧ s.movedSinceOff = true
  finalSent : s.finalOff = .sent → s.lastSettled = true
  finalNone : s.disposed = true → s.finalOff = .none → s.movedSinceOff = false

variable {opts} {s : LaserSender} {clock : ℚ} {r : Readings}

lemma SendsOk.mono (h : s.SendsOk opts clock) {clock' : ℚ} (hle : clock ≤ clock') :
    s.SendsOk opts clock' :=
  { h with sendAt := fun t ht => (h.sendAt t ht).trans hle }

lemma SendsOk.congr {s' : LaserSender} (h : s.SendsOk opts clock) (hsends : s'.sends = s.sends)
    (hat : s'.lastSendAt = s.lastSendAt) (hflight : s'.inFlight = s.inFlight) :
    s'.SendsOk opts clock where
  sendAt := hat ▸ h.sendAt
  startedBy := hat ▸ hsends ▸ h.startedBy
  spaced := hsends ▸ h.spaced
  onlyLast := hflight ▸ hsends ▸ h.onlyLast
  flight := hflight ▸ hsends ▸ h.flight

/-- **A message is handed over** when the gate is open. -/
lemma SendsOk.dispatch (h : s.SendsOk opts clock) (hflight : s.inFlight = false)
    (hclock : clock ≤ r.gate) (hgate : ¬0 < s.gateWait opts r.gate) (input : LaserSendInput) :
    (s.dispatch input r).SendsOk opts r.send := by
  have hlate : clock ≤ r.send := hclock.trans (r.gate_le.trans r.move_le)
  have hmap : (s.dispatch input r).sends.map (·.startedAt) = s.sends.map
      (·.startedAt) ++ [r.send] :=
    List.map_append
  refine ⟨?_, ?_, ?_, fun i d hd hsettled => ⟨?_, rfl⟩, fun _ => ?_⟩
  · rintro t ⟨⟩
    exact le_rfl
  · intro started hd
    refine ⟨r.send, rfl, ?_⟩
    rw [hmap] at hd
    rcases List.mem_append.1 hd with hd | hd
    · obtain ⟨t, ht, hle⟩ := h.startedBy started hd
      exact hle.trans ((h.sendAt t ht).trans hlate)
    · rw [List.mem_singleton.1 hd]
  · rw [hmap]
    refine List.pairwise_append.2 ⟨h.spaced, List.pairwise_singleton _ _,
      fun started hd _ hd' => ?_⟩
    rw [List.mem_singleton.1 hd']
    obtain ⟨t, ht, hle⟩ := h.startedBy started hd
    have hopen : t + opts.minIntervalMs - r.gate ≤ 0 := by
      rw [gateWait, ht] at hgate
      exact not_lt.1 hgate
    have hsend : r.gate ≤ r.send := r.gate_le.trans r.move_le
    linarith
  · have hlen : (s.dispatch input r).sends.length = s.sends.length + 1 := List.length_append
    change (s.sends ++ [_])[i]? = some d at hd
    rcases Nat.lt_trichotomy i s.sends.length with hi | rfl | hi
    · rw [List.getElem?_append_left hi] at hd
      have := (h.onlyLast i d hd hsettled).2
      rw [hflight] at this
      cases this
    · exact hlen.symm
    · rw [List.getElem?_eq_none (by simp; omega)] at hd
      cases hd
  · rw [LaserSender.dispatch, List.map_append]
    exact List.getLast?_concat

/-- A field that a change of one send leaves. -/
lemma map_set {α : Type*} {f : Dispatched → α} {l : List Dispatched} {k : ℕ} {d d' : Dispatched}
    (hd : l[k]? = some d) (hf : f d' = f d) : (l.set k d').map f = l.map f := by
  refine List.ext_getElem? fun i => ?_
  rw [List.getElem?_map, List.getElem?_map, List.getElem?_set]
  split
  · rename_i hi
    subst hi
    obtain ⟨hlt, -⟩ := List.getElem?_eq_some_iff.1 hd
    rw [if_pos hlt, hd, Option.map_some, Option.map_some, hf]
  · rfl

lemma lastSettled_eq (s : LaserSender) :
    s.lastSettled = (s.sends.map (·.promiseSettled)).getLast?.all id := by
  rw [LaserSender.lastSettled, List.getLast?_map]
  cases s.sends.getLast? <;> rfl

/-! ### One pump -/

/-- **What `pump` does**: nothing, a release, a move, or a timer armed for what is due. -/
lemma pump_cases (opts : LaserSenderOptions) (r : Readings) (s : LaserSender) :
    s.pump opts r = s ∧ (s.disposed = true ∨ s.inFlight = true ∨ s.timer.isSome ∨ ¬s.WorkDue opts ∨
      s.pending = none ∧ s.offPending = false ∧ ¬(s.lastPos.isSome ∧ s.lastMoveAt.isSome)) ∨
    (s.disposed = false ∧ s.inFlight = false ∧ ¬0 < s.gateWait opts r.gate ∧ (
      s.offPending = true ∧ s.pump opts r =
        dispatch .off r
          (cancelTimer { s with offPending := false, movedSinceOff := false, lastPos := none }) ∨
      s.offPending = false ∧ ∃ pos, s.pending = some pos ∧ s.pump opts r =
        dispatch (.move pos) r (cancelTimer { s with
          pending := none, lastPos := some pos, lastMoveAt := some r.move,
            movedSinceOff := true }))) ∨
    s.disposed = false ∧ s.inFlight = false ∧
      (s.offPending = true ∨ s.held = true ∨ s.pending.isSome) ∧ ∃ kind ms,
      s.pump opts r = s.armTimer kind ms ∧
        (s.offPending = true → 0 < s.gateWait opts r.gate) := by
  rw [pump]
  by_cases hout : s.disposed = true ∨ s.inFlight = true
  · rw [if_pos hout]
    exact .inl ⟨rfl, by tauto⟩
  rw [if_neg hout]
  obtain ⟨hdisposed, hflight⟩ : s.disposed = false ∧ s.inFlight = false := by simpa using hout
  have hgate : ∀ now, (s.awaitGate opts now = s ∧ s.timer.isSome) ∨
      ∃ kind ms, s.awaitGate opts now = s.armTimer kind ms := by
    intro now
    rw [awaitGate]
    by_cases harmed : s.timer.any (·.1 = .gate) = true
    · refine .inl ⟨if_pos harmed, ?_⟩
      obtain ⟨t, ht, -⟩ := (Option.any_eq_true _ _).1 harmed
      simp [ht]
    · exact .inr ⟨_, _, if_neg harmed⟩
  by_cases hoff : s.offPending = true
  · rw [if_pos hoff]
    by_cases hwait : 0 < s.gateWait opts r.gate
    · rw [if_pos hwait]
      rcases hgate r.gate with ⟨hsame, harmed⟩ | ⟨kind, ms, ht⟩
      · exact .inl ⟨hsame, by tauto⟩
      · exact .inr (.inr ⟨hdisposed, hflight, .inl hoff, kind, ms, ht, fun _ => hwait⟩)
    · rw [if_neg hwait]
      exact .inr (.inl ⟨hdisposed, hflight, hwait, .inl ⟨hoff, rfl⟩⟩)
  rw [if_neg hoff]
  have hoff' : s.offPending = false := by simpa using hoff
  cases hp : s.pending with
  | some pos =>
    dsimp only
    by_cases hwait : 0 < s.gateWait opts r.gate
    · rw [if_pos hwait]
      rcases hgate r.gate with ⟨hsame, harmed⟩ | ⟨kind, ms, ht⟩
      · exact .inl ⟨hsame, by tauto⟩
      · exact .inr
          (.inr ⟨hdisposed, hflight, .inr (.inr rfl), kind, ms, ht, fun h => absurd h hoff⟩)
    · rw [if_neg hwait]
      exact .inr (.inl ⟨hdisposed, hflight, hwait, .inr ⟨hoff', pos, rfl, rfl⟩⟩)
  | none =>
    dsimp only
    have hdue : s.WorkDue opts ↔ s.held = true ∧ enabled opts.keepaliveMs = true := by
      simp [WorkDue, hp, hoff']
    cases hat : s.lastMoveAt with
    | none => exact .inl ⟨rfl, by simp [hoff']⟩
    | some t =>
      cases hms : opts.keepaliveMs with
      | none => exact .inl ⟨rfl, .inr (.inr (.inr (.inl (by rw [hdue]; simp [hms, enabled]))))⟩
      | some ms =>
        dsimp only
        by_cases hidle : s.held = true ∧ s.lastPos.isSome = true ∧ 0 < ms
        · rw [if_pos hidle]
          exact .inr
            (.inr ⟨hdisposed, hflight, .inr (.inl hidle.1), _, _, rfl, fun h => absurd h hoff⟩)
        · rw [if_neg hidle]
          refine .inl ⟨rfl, .inr (.inr (.inr ?_))⟩
          by_cases hpos : s.lastPos.isSome = true
          · left
            rw [hdue]
            simp only [hms, enabled, Option.any_some, decide_eq_true_eq]
            tauto
          · exact .inr ⟨rfl, hoff', by simp [hpos]⟩

lemma FlagsOk.open (h : s.FlagsOk) (hdisposed : s.disposed = false) : s.finalOff = .none := by
  by_contra hne
  rw [(h.finalOpen hne).1] at hdisposed
  cases hdisposed

lemma FlagsOk.dispatchOff (h : s.FlagsOk) (hdisposed : s.disposed = false)
    (hoff : s.offPending = true) :
    (dispatch .off r (cancelTimer
      { s with offPending := false, movedSinceOff := false, lastPos := none })).FlagsOk := by
  have hfinal := h.open hdisposed
  have hheld := (h.offFree hoff).1
  refine ⟨?_, h.pendingHeld, ?_, ?_, ?_, ?_, ?_, ?_, ?_, ?_, fun _ _ => rfl⟩
  · simp [dispatch, LaserSendInput.isMove, cancelTimer]
  · rintro ⟨⟩
  · rintro ⟨⟩
  · exact fun hh => absurd (hheld.symm.trans hh) (by decide)
  · rintro ⟨⟩
  · rintro ⟨⟩
  · exact fun hd => absurd (hdisposed.symm.trans hd) (by decide)
  · exact fun hne => absurd hfinal hne
  · exact fun hsent => absurd (hfinal.symm.trans hsent) (by decide)

lemma FlagsOk.dispatchMove (h : s.FlagsOk) (hdisposed : s.disposed = false)
    (hoff : s.offPending = false) {pos : Pos} (hpos : s.pending = some pos) :
    (dispatch (.move pos) r (cancelTimer { s with
      pending := none, lastPos := some pos, lastMoveAt := some r.move,
        movedSinceOff := true })).FlagsOk := by
  have hfinal := h.open hdisposed
  have hheld : s.held = true := h.pendingHeld (by rw [hpos]; rfl)
  refine ⟨?_, ?_, ?_, ?_, ?_, ?_, ?_, ?_, ?_, ?_, ?_⟩
  · simp [dispatch, LaserSendInput.isMove, cancelTimer]
  · rintro ⟨⟩
  · exact fun ho => absurd (hoff.symm.trans ho) (by decide)
  · exact fun _ hh => absurd (hheld.symm.trans hh) (by decide)
  · exact fun _ _ => ⟨rfl, rfl⟩
  · rintro ⟨⟩
  · rintro ⟨⟩
  · exact fun hd => absurd (hdisposed.symm.trans hd) (by decide)
  · exact fun hne => absurd hfinal hne
  · exact fun hsent => absurd (hfinal.symm.trans hsent) (by decide)
  · exact fun hd => absurd (hdisposed.symm.trans hd) (by decide)

lemma FlagsOk.armTimer (h : s.FlagsOk) (hdisposed : s.disposed = false)
    (hflight : s.inFlight = false) (hdue : s.held = false → s.offPending = true)
    (kind : TimerKind) (ms : ℚ) :
    (s.armTimer kind ms).FlagsOk :=
  { h with
    timerFree := fun _ => hflight
    timerDue := fun _ => hdue
    idle := fun hd => absurd (hdisposed.symm.trans hd) (by decide) }

/-- What every step keeps. -/
structure Inv (opts : LaserSenderOptions) (s : LaserSender) (clock : ℚ) : Prop where
  sends : s.SendsOk opts clock
  flags : s.FlagsOk
  noStall : s.NoStall opts

/-- **One pump** leaves nothing due without a send in flight or a timer armed. -/
lemma Inv.of_pump (hsends : s.SendsOk opts clock) (hflags : s.FlagsOk) (hclock : clock ≤ r.gate) :
    Inv opts (s.pump opts r) r.send := by
  have hlate : clock ≤ r.send := hclock.trans (r.gate_le.trans r.move_le)
  rcases pump_cases opts r s with ⟨hsame, hwhy⟩ | ⟨hdisposed, hflight, hgate,
    ⟨hoff, hp⟩ | ⟨hoff, pos, hpos, hp⟩⟩ |
    ⟨hdisposed, hflight, hwhy, kind, ms, hp, -⟩
  · rw [hsame]
    refine ⟨hsends.mono hlate, hflags, fun hdisposed hdue => ?_⟩
    rcases hwhy with hd | hf | ht | hnot | ⟨hpend, hoff, hpos⟩
    · exact absurd (hdisposed.symm.trans hd) (by decide)
    · exact .inl hf
    · exact .inr ht
    · exact absurd hdue hnot
    · rcases hdue with hdue | hdue | hdue
      · rw [hpend] at hdue
        cases hdue
      · exact absurd (hoff.symm.trans hdue) (by decide)
      · exact absurd (hflags.heldPos hdue.1 hpend) hpos
  · have hready :
      (cancelTimer { s with offPending := false, movedSinceOff := false, lastPos := none }).SendsOk
        opts clock := hsends.congr rfl rfl rfl
    rw [hp]
    exact ⟨hready.dispatch hflight hclock hgate .off, hflags.dispatchOff hdisposed hoff,
      fun _ _ => .inl rfl⟩
  · have hready : (cancelTimer { s with
        pending := none, lastPos := some pos, lastMoveAt := some r.move, movedSinceOff :=
          true }).SendsOk
        opts clock := hsends.congr rfl rfl rfl
    rw [hp]
    exact ⟨hready.dispatch hflight hclock hgate _, hflags.dispatchMove hdisposed hoff hpos,
      fun _ _ => .inl rfl⟩
  · have harmed : (s.armTimer kind ms).SendsOk opts clock := hsends.congr rfl rfl rfl
    rw [hp]
    refine ⟨harmed.mono hlate, hflags.armTimer hdisposed hflight (fun hheld => ?_) kind ms,
      fun _ _ => .inr rfl⟩
    rcases hwhy with hoff | hh | hpend
    · exact hoff
    · exact absurd (hheld.symm.trans hh) (by decide)
    · exact absurd (hheld.symm.trans (hflags.pendingHeld hpend)) (by decide)

/-! ### Steps -/

lemma Inv.start (opts : LaserSenderOptions) (clock : ℚ) : Inv opts .start clock where
  sends := ⟨fun t ht => (by cases ht), fun d hd => absurd hd List.not_mem_nil, .nil,
    fun i d hd => (by cases hd), fun hf => (by cases hf)⟩
  flags := by constructor <;> simp [LaserSender.start]
  noStall := by simp [NoStall, WorkDue, LaserSender.start]

lemma Inv.mono (h : Inv opts s clock) {clock' : ℚ} (hle : clock ≤ clock') : Inv opts s clock' :=
  { h with sends := h.sends.mono hle }

lemma Inv.move (h : Inv opts s clock) (hclock : clock ≤ r.gate) (x y : Option ℚ) :
    Inv opts (s.move opts x y r) r.send := by
  have hsame : Inv opts s r.send := h.mono (hclock.trans (r.gate_le.trans r.move_le))
  rcases x with _ | x <;> rcases y with _ | y <;> try exact hsame
  rw [LaserSender.move]
  split
  · exact hsame
  · rename_i hok
    have hdisposed : s.disposed = false := by
      by_contra hd
      exact hok (.inl (by simpa using hd))
    refine .of_pump (h.sends.congr rfl rfl rfl) ?_ hclock
    exact { h.flags with
      pendingHeld := fun _ => rfl
      offFree := fun ho => (by cases ho)
      released := fun _ hh => (by cases hh)
      heldPos := fun _ hp => (by cases hp)
      timerDue := fun _ hh => (by cases hh)
      idle := fun hd => absurd (hdisposed.symm.trans hd) (by decide) }

lemma Inv.off (h : Inv opts s clock) (hclock : clock ≤ r.gate) :
    Inv opts (s.off opts r) r.send := by
  rw [LaserSender.off]
  split
  · exact h.mono (hclock.trans (r.gate_le.trans r.move_le))
  · rename_i hopen
    have hdisposed : s.disposed = false := by simpa using hopen
    dsimp only
    split
    · rename_i hmoved
      refine .of_pump (h.sends.congr rfl rfl rfl) ?_ hclock
      exact { h.flags with
        pendingHeld := fun hp => (by cases hp)
        offFree := fun _ => ⟨rfl, hmoved⟩
        released := fun _ _ _ => rfl
        heldPos := fun hh => (by cases hh)
        timerFree := fun ht => (by cases ht)
        timerDue := fun ht => (by cases ht)
        idle := fun hd => absurd (hdisposed.symm.trans hd) (by decide) }
    · rename_i hmoved
      have hquiet : s.offPending = false := by
        by_contra ho
        exact hmoved (h.flags.offFree (by simpa using ho)).2
      refine ⟨(h.sends.mono (hclock.trans (r.gate_le.trans r.move_le))).congr rfl rfl rfl, ?_, ?_⟩
      · exact { h.flags with
          pendingHeld := fun hp => (by cases hp)
          offFree := fun ho => absurd (hquiet.symm.trans ho) (by decide)
          released := fun hm => absurd hm hmoved
          heldPos := fun hh => (by cases hh)
          timerFree := fun ht => (by cases ht)
          timerDue := fun ht => (by cases ht)
          idle := fun hd => absurd (hdisposed.symm.trans hd) (by decide) }
      · rintro - (hdue | hdue | hdue)
        · cases hdue
        · exact absurd (hquiet.symm.trans hdue) (by decide)
        · exact absurd hdue.1 Bool.false_ne_true

lemma Inv.close (h : Inv opts s clock) : Inv opts s.close clock := by
  rw [LaserSender.close]
  split
  · exact h
  · rename_i hopen
    have hdisposed : s.disposed = false := by simpa using hopen
    have hnone := h.flags.open hdisposed
    refine ⟨h.sends.congr rfl rfl rfl, ?_, fun hd => (by cases hd)⟩
    refine ⟨h.flags.moved, fun hp => (by cases hp), fun ho => (by cases ho),
      fun _ _ hd => (by cases hd), fun hh => (by cases hh), fun ht => (by cases ht),
      fun ht => (by cases ht), fun _ => ⟨rfl, rfl, rfl, rfl⟩,
      fun hf => ⟨rfl, ?_⟩, fun hf => ?_, fun _ hf => ?_⟩
    · by_contra hm
      exact hf (if_neg hm)
    · dsimp only at hf
      split at hf <;> cases hf
    · dsimp only at hf
      by_contra hm
      rw [if_pos (by simpa [dispose, cancelTimer] using hm)] at hf
      cases hf

lemma Inv.fire (h : Inv opts s clock) (hclock : clock ≤ r.gate) (kind : TimerKind) :
    Inv opts (s.fire opts kind r) r.send := by
  have hflags : FlagsOk { s with timer := none } := { h.flags with
    timerFree := fun ht => (by cases ht)
    timerDue := fun ht => (by cases ht)
    idle := fun hd => ⟨(h.flags.idle hd).1, (h.flags.idle hd).2.1, (h.flags.idle hd).2.2.1, rfl⟩ }
  rw [LaserSender.fire]
  dsimp only
  split
  · rename_i hd
    refine ⟨(h.sends.mono (hclock.trans (r.gate_le.trans r.move_le))).congr rfl rfl rfl, hflags,
      fun hopen => ?_⟩
    exact absurd (hopen.symm.trans hd) (by decide)
  rename_i hopen
  split
  · rename_i hkeep
    refine .of_pump (h.sends.congr rfl rfl rfl) { hflags with
      pendingHeld := fun _ => hkeep.2.1
      heldPos := fun _ hp => ?_
      idle := fun hd => absurd hd hopen } hclock
    rw [show s.lastPos = none from hp] at hkeep
    exact absurd hkeep.2.2.2 (by decide)
  · exact .of_pump (h.sends.congr rfl rfl rfl) hflags hclock

/-- The sends with one of them done with. -/
lemma SendsOk.doneWith (h : s.SendsOk opts clock) {k : ℕ} {d : Dispatched}
    (hd : s.sends[k]? = some d) (hopen : d.settled = false) :
    SendsOk opts { s with sends := s.sends.set k { d with settled := true }, inFlight := false }
      clock := by
  have hstarted : (s.sends.set k { d with settled := true }).map (·.startedAt) = s.sends.map
      (·.startedAt) :=
    map_set hd rfl
  refine ⟨h.sendAt, fun t ht => h.startedBy t (hstarted ▸ ht), ?_, fun i d' hd' hd'' => ?_,
    fun hf => (by cases hf)⟩
  · change List.Pairwise _ ((s.sends.set k _).map _)
    rw [hstarted]
    exact h.spaced
  · change (s.sends.set k _)[i]? = some d' at hd'
    rw [List.getElem?_set] at hd'
    split at hd'
    · obtain ⟨-, heq⟩ := Option.ite_none_right_eq_some.1 hd'
      rw [← Option.some.inj heq] at hd''
      cases hd''
    · rename_i hne
      have hi := (h.onlyLast i d' hd' hd'').1
      have hk := (h.onlyLast k d hd hopen).1
      omega

lemma FlagsOk.doneWith (h : s.FlagsOk) {k : ℕ} {d : Dispatched} (hd : s.sends[k]? = some d) :
    FlagsOk { s with sends := s.sends.set k { d with settled := true }, inFlight := false } := by
  have hinput : (s.sends.set k { d with settled := true }).map (·.input) = s.sends.map (·.input) :=
    map_set hd rfl
  have hpromise : (s.sends.set k { d with settled := true }).map (·.promiseSettled) =
      s.sends.map (·.promiseSettled) := map_set hd rfl
  refine { h with
    moved := hinput ▸ h.moved
    timerFree := fun _ => rfl
    finalSent := fun hf => ?_ }
  rw [lastSettled_eq, hpromise, ← lastSettled_eq]
  exact h.finalSent hf

/-- **A send is done with**, and the next one may go. -/
lemma Inv.done (h : Inv opts s clock) (hclock : clock ≤ r.gate)
    (k : ℕ) : Inv opts (s.done opts k r) r.send := by
  have hsame : Inv opts s r.send := h.mono (hclock.trans (r.gate_le.trans r.move_le))
  rw [LaserSender.done]
  split
  · exact hsame
  · rename_i d hd
    split
    · exact hsame
    · rename_i hopen
      exact .of_pump (h.sends.doneWith hd (by simpa using hopen)) (h.flags.doneWith hd) hclock

/-- **A promise settles.** -/
lemma Inv.settle (h : Inv opts s clock) {k : ℕ} {d : Dispatched} (hd : s.sends[k]? = some d) :
    Inv opts { s with sends := s.sends.set k { d with promiseSettled := true } } clock := by
  have hstarted : (s.sends.set k { d with promiseSettled := true }).map (·.startedAt) =
      s.sends.map (·.startedAt) := map_set hd rfl
  have hinput : (s.sends.set k { d with promiseSettled := true }).map (·.input) = s.sends.map
      (·.input) :=
    map_set hd rfl
  have hsettled : (s.sends.set k { d with promiseSettled := true }).map (·.settled) =
      s.sends.map (·.settled) := map_set hd rfl
  refine ⟨⟨h.sends.sendAt, fun t ht => h.sends.startedBy t (hstarted ▸ ht), ?_,
    fun i d' hd' hd'' => ?_, fun hf => hsettled ▸ h.sends.flight hf⟩, { h.flags with
      moved := hinput ▸ h.flags.moved
      finalSent := fun hf => ?_ }, h.noStall⟩
  · change List.Pairwise _ ((s.sends.set k _).map _)
    rw [hstarted]
    exact h.sends.spaced
  · change (s.sends.set k _)[i]? = some d' at hd'
    change i + 1 = (s.sends.set k _).length ∧ _
    rw [List.length_set]
    rw [List.getElem?_set] at hd'
    split at hd'
    · rename_i hi
      obtain ⟨-, heq⟩ := Option.ite_none_right_eq_some.1 hd'
      rw [← Option.some.inj heq] at hd''
      exact hi ▸ h.sends.onlyLast k d hd hd''
    · exact h.sends.onlyLast i d' hd' hd''
  · have hlast := h.flags.finalSent hf
    rw [LaserSender.lastSettled, List.getLast?_eq_getElem?] at hlast ⊢
    change ((s.sends.set k _)[(s.sends.set k _).length - 1]?).all _ = true
    rw [List.length_set, List.getElem?_set]
    split
    · split <;> rfl
    · exact hlast

lemma Inv.final (h : Inv opts s clock)
    (hwait : s.finalOff = .waiting) (hlast : s.lastSettled = true) :
    Inv opts { s with finalOff := .sent } clock :=
  ⟨h.sends.congr rfl rfl rfl, { h.flags with
    finalOpen := fun _ => h.flags.finalOpen (by rw [hwait]; decide)
    finalSent := fun _ => hlast
    finalNone := fun _ hf => (by cases hf) }, h.noStall⟩

end LaserSender

variable {opts : LaserSenderOptions} {settles : ℕ → Bool} {s s' : LaserRun}

lemma LaserRun.read_eq_some {r : Readings} {f : LaserSender → LaserSender} :
    s.read r f = some s' ↔ s.clock ≤ r.gate ∧ s' = ⟨f s.sender, r.send⟩ := by
  rw [LaserRun.read, Option.ite_none_right_eq_some, Option.some.injEq, eq_comm (a := s')]

/-- **Every step keeps the invariant.** -/
lemma LaserSender.Inv.step {i : LaserInput} (h : s.sender.Inv opts s.clock)
    (hstep : laserMachine opts settles s i = some s') : s'.sender.Inv opts s'.clock := by
  cases i with
  | move x y r =>
    obtain ⟨hclock, rfl⟩ := LaserRun.read_eq_some.1 hstep
    exact h.move hclock x y
  | off r =>
    obtain ⟨hclock, rfl⟩ := LaserRun.read_eq_some.1 hstep
    exact h.off hclock
  | close =>
    cases hstep
    exact h.close
  | timer r =>
    obtain ⟨t, -, hread⟩ := Option.bind_eq_some_iff.1 hstep
    obtain ⟨hclock, rfl⟩ := LaserRun.read_eq_some.1 hread
    exact h.fire hclock t.1
  | timeout k r =>
    obtain ⟨d, -, hread⟩ := Option.bind_eq_some_iff.1 hstep
    obtain ⟨hclock, rfl⟩ := LaserRun.read_eq_some.1 (Option.ite_none_right_eq_some.1 hread).2
    exact h.done hclock k
  | settle k =>
    obtain ⟨d, hd, hset⟩ := Option.bind_eq_some_iff.1 hstep
    obtain ⟨-, ⟨⟩⟩ := Option.ite_none_right_eq_some.1 hset
    exact h.settle hd
  | callback k r =>
    obtain ⟨d, -, hread⟩ := Option.bind_eq_some_iff.1 hstep
    obtain ⟨hclock, rfl⟩ := LaserRun.read_eq_some.1 (Option.ite_none_right_eq_some.1 hread).2
    exact h.done hclock k
  | final =>
    obtain ⟨⟨hwait, hlast⟩, ⟨⟩⟩ := Option.ite_none_right_eq_some.1 hstep
    exact h.final hwait hlast

end Locast.Client.Laser

import Locast.Client.Requests

/-!
# What a rejection ends (`net/room.rs`)

Replies carry no mark of their request: the client hands a reply to whoever has waited longest for
its kind, and a `ROOM_ERROR` to whoever has waited longest for anything.  So what a rejection does
depends on who is waiting: it reaches the right request, and ends no session, exactly when the first
request in line is the one it answers, and that is a fetch, a join or a create.
-/

namespace Locast.Client

open Locast.Protocol

/-! ### Who is in line -/

/-- The requests still waiting, with their kinds, in the order they are tried. -/
def waiting (pending : Pending) : List (MessageKind × ℕ) :=
  pending.flatMap fun (k, ws) => (ws.filter (·.listening)).map (k, ·.request)

/-- The requests an envelope of this kind may resolve, in the order they are tried. -/
def inLine (kind : MessageKind) (pending : Pending) : List (MessageKind × ℕ) :=
  waiting (pending.find? (·.1 = kind)).toList ++ if kind = .roomError then waiting pending else []

@[simp]
lemma waiting_nil : waiting [] = [] := rfl

@[simp]
lemma waiting_cons (k : MessageKind) (ws : List Waiter) (rest : Pending) :
    waiting ((k, ws) :: rest) = (ws.filter (·.listening)).map (k, ·.request) ++ waiting rest := rfl

lemma deliver_fst (ws : List Waiter) :
    (deliver ws).1 = ((ws.filter (·.listening)).map (·.request)).head? := by
  induction ws with
  | nil => rfl
  | cons w ws ih =>
    by_cases hw : w.listening
    · simp [deliver, hw]
    · simpa [deliver, hw] using ih

/-- A delivery that finds nobody leaves nobody waiting. -/
lemma deliver_snd {ws : List Waiter} (h : (deliver ws).1 = none) : (deliver ws).2 = [] := by
  induction ws with
  | nil => rfl
  | cons w ws ih =>
    by_cases hw : w.listening
    · simp [deliver, hw] at h
    · rw [deliver, if_neg hw] at h ⊢
      exact ih h

lemma filter_of_deliver_none {ws : List Waiter} (h : (deliver ws).1 = none) :
    ws.filter (·.listening) = [] := by
  rw [deliver_fst] at h
  simpa using h

lemma map_deliver (k : MessageKind) (ws : List Waiter) :
    (deliver ws).1.map (k, ·) = ((ws.filter (·.listening)).map (k, ·.request)).head? := by
  rw [deliver_fst, ← List.head?_map, List.map_map]
  rfl

lemma deliverOwn_fst (kind : MessageKind) (pending : Pending) :
    (deliverOwn kind pending).1 = (waiting (pending.find? (·.1 = kind)).toList).head? := by
  induction pending with
  | nil => rfl
  | cons q rest ih =>
    obtain ⟨k, ws⟩ := q
    by_cases hk : k = kind
    · subst hk
      simp [deliverOwn, map_deliver]
    · simpa [deliverOwn, hk] using ih

/-- A delivery under a kind that finds nobody only drops closed waiters. -/
lemma waiting_deliverOwn {kind : MessageKind} {pending : Pending}
    (h : (deliverOwn kind pending).1 = none) :
    waiting (deliverOwn kind pending).2 = waiting pending := by
  induction pending with
  | nil => rfl
  | cons q rest ih =>
    obtain ⟨k, ws⟩ := q
    by_cases hk : k = kind
    · have hnone : (deliver ws).1 = none := by simpa [deliverOwn, hk] using h
      simp [deliverOwn, hk, deliver_snd hnone, filter_of_deliver_none hnone]
    · rw [deliverOwn, if_neg hk] at h ⊢
      simp [ih h]

lemma deliverAny_fst (pending : Pending) : (deliverAny pending).1 = (waiting pending).head? := by
  induction pending with
  | nil => rfl
  | cons q rest ih =>
    obtain ⟨k, ws⟩ := q
    have hmap := map_deliver k ws
    rcases hd : deliver ws with ⟨_ | r, ws'⟩
    · have hnone : ws.filter (·.listening) = [] := filter_of_deliver_none (by rw [hd])
      simp [deliverAny, hd, ih, hnone]
    · rw [hd] at hmap
      simp [deliverAny, hd, ← hmap]

/-- **Delivery.** An envelope resolves the first request in line. -/
theorem deliverToPending_fst (kind : MessageKind) (pending : Pending) :
    (deliverToPending kind pending).1 = (inLine kind pending).head? := by
  have hown := deliverOwn_fst kind pending
  rw [inLine, List.head?_append, ← hown, deliverToPending]
  rcases hd : deliverOwn kind pending with ⟨_ | resolved, pending'⟩
  · have hkept : waiting pending' = waiting pending := by
      have hfst : (deliverOwn kind pending).1 = none := by rw [hd]
      simpa [hd] using waiting_deliverOwn hfst
    by_cases hk : kind = .roomError
    · simp [hk, deliverAny_fst, hkept]
    · simp [hk]
  · rfl

/-! ### What a rejection leaves -/

namespace RoomClient

variable {Summary Outbound Media : Type}

/-- The two hold the same session: the cached room, the local user, the join credentials and the
presence loop. -/
def SameSession (c c' : RoomClient Summary Outbound Media) : Prop :=
  c'.state = c.state ∧ c'.localUserId = c.localUserId ∧ c'.activeRoomCode = c.activeRoomCode ∧
    c'.presenceLoop = c.presenceLoop

/-- There is no session to lose. -/
def NoSession (c : RoomClient Summary Outbound Media) : Prop :=
  c.state = none ∧ c.localUserId = none ∧ c.activeRoomCode = none ∧ c.presenceLoop = false

/-- The reply kinds of the requests a rejection may answer without ending the session. -/
def isolated : MessageKind → Bool
  | .manifestResponse | .roomJoined | .roomCreated => true
  | _ => false

lemma isolated_iff (k : MessageKind) :
    isolated k = true ↔ k = .manifestResponse ∨ k = .roomJoined ∨ k = .roomCreated := by
  cases k <;> simp [isolated]

lemma sameSession_refl (c : RoomClient Summary Outbound Media) : c.SameSession c :=
  ⟨rfl, rfl, rfl, rfl⟩

lemma sameSession_resync (expected : ℕ) (r : Bool) (c : RoomClient Summary Outbound Media) :
    c.SameSession (c.resyncPlaybackSeq expected r).1 :=
  sameSession_refl c

lemma sameSession_drop (c : RoomClient Summary Outbound Media) :
    c.SameSession c.dropRoomSession.1 ↔ c.NoSession := by
  simp only [SameSession, NoSession, dropRoomSession, forgetRoomSession, eq_comm]

/-- A rejection of a command nobody waits for keeps the session. -/
lemma sameSession_unsolicited {env : Inbound} (c : RoomClient Summary Outbound Media)
    (hcode : roomErrorEndsMembership env = false) :
    c.SameSession (c.handleRoomError env none).1 := by
  rw [handleRoomError, if_neg (by simp), if_pos ⟨rfl, hcode⟩]
  split
  · exact sameSession_resync _ _ c
  · exact sameSession_resync _ _ c
  · exact sameSession_refl c

/-- A rejection that answers a request keeps the session if the request is a fetch, a join or a
create, and else drops it. -/
lemma sameSession_answered {env : Inbound} (k : MessageKind)
    (c : RoomClient Summary Outbound Media) :
    c.SameSession (c.handleRoomError env (some k)).1 ↔ isolated k = true ∨ c.NoSession := by
  rw [isolated_iff]
  by_cases hm : k = .manifestResponse
  · simp [handleRoomError, hm, sameSession_refl]
  by_cases hj : k = .roomJoined ∨ k = .roomCreated
  · have hj' : some k = some .roomJoined ∨ some k = some .roomCreated := by simpa using hj
    rw [handleRoomError, if_neg (by simpa using hm), if_neg (by simp), if_pos hj']
    simp [hj, sameSession_refl]
  · have hj' : ¬(some k = some .roomJoined ∨ some k = some .roomCreated) := by simpa using hj
    rw [handleRoomError, if_neg (by simpa using hm), if_neg (by simp), if_neg hj', sameSession_drop]
    simp [hm, hj]

lemma sameSession_handleInbound {env : Inbound} (c : RoomClient Summary Outbound Media)
    (hcode : roomErrorEndsMembership env = false) :
    c.SameSession (c.handleInbound env).1 ↔
      ∀ k r, (inLine env.kind c.pending).head? = some (k, r) → isolated k = true ∨ c.NoSession := by
  rw [← deliverToPending_fst, handleInbound]
  rcases deliverToPending env.kind c.pending with ⟨_ | ⟨k, r⟩, pending'⟩
  · have hkeep : c.SameSession (handleRoomError env none { c with pending := pending' }).1 :=
      sameSession_unsolicited { c with pending := pending' } hcode
    simpa using hkeep
  · have hkeep : c.SameSession (handleRoomError env (some k) { c with pending := pending' }).1 ↔
        isolated k = true ∨ c.NoSession :=
      sameSession_answered k { c with pending := pending' }
    refine hkeep.trans ⟨fun h k' r' heq => ?_, fun h => h k r rfl⟩
    cases heq
    exact h

end RoomClient

/-! ### Rejections end only what they reject -/

/-- An envelope the client receives, and the request it answers: none if it refuses a command nobody
waits for. -/
structure Answering where
  env : Inbound
  answers : Option ℕ
  deriving DecidableEq

variable {Summary Outbound Media : Type}

/-- The envelope ends only what it rejects: it resolves no request but the one it answers, and a
`ROOM_ERROR` whose code leaves the membership alone keeps the session. -/
def EndsOnlyItsOwn (c : RoomClient Summary Outbound Media) (a : Answering) : Prop :=
  (∀ k r, (deliverToPending a.env.kind c.pending).1 = some (k, r) → a.answers = some r) ∧
    (a.env.kind = .roomError → roomErrorEndsMembership a.env = false →
      c.SameSession (c.handleInbound a.env).1)

/-- **Rejections.** An envelope ends only what it rejects exactly when the first request in line, if
there is one, is the one it answers and, for a `ROOM_ERROR` that leaves the membership alone, is a
fetch, a join or a create (or there is no session to lose). -/
theorem endsOnlyItsOwn_iff (c : RoomClient Summary Outbound Media) (a : Answering) :
    EndsOnlyItsOwn c a ↔
      ∀ k r, (inLine a.env.kind c.pending).head? = some (k, r) →
        a.answers = some r ∧
          (a.env.kind = .roomError → roomErrorEndsMembership a.env = false →
            RoomClient.isolated k = true ∨ c.NoSession) := by
  rw [EndsOnlyItsOwn, deliverToPending_fst]
  constructor
  · rintro ⟨hown, hkeep⟩ k r hhead
    refine ⟨hown k r hhead, fun hk hcode => ?_⟩
    exact (RoomClient.sameSession_handleInbound c hcode).mp (hkeep hk hcode) k r hhead
  · intro h
    refine ⟨fun k r hhead => (h k r hhead).1, fun hk hcode => ?_⟩
    exact (RoomClient.sameSession_handleInbound c hcode).mpr
      fun k r hhead => (h k r hhead).2 hk hcode

/-! ### A probe takes the rejection of a command -/

namespace Probing

/-- A client in a room that waits for the answer to a skew probe. -/
def client : RoomClient ℕ ℕ ℕ :=
  { pending := [(.skewReply, [⟨7, true⟩])]
    state := some 1
    localUserId := some 2
    activeRoomCode := some ("K7M2QD", "Ada")
    presenceLoop := true
    pendingOutbound := []
    hostMediaSelection := none
    playbackSeq := .new }

/-- The server refuses a playback command as stale. -/
def stale : Answering :=
  { env := ⟨.roomError, .ok
      { code := .staleCommand, message := "stale command", expectedSeq := some 3 }⟩
    answers := none }

/-- The refusal is handed to the probe and the client leaves its room. -/
theorem not_endsOnlyItsOwn : ¬EndsOnlyItsOwn client stale := by
  rintro ⟨hown, -⟩
  exact absurd (hown .skewReply 7 rfl) (by decide)

end Probing

end Locast.Client

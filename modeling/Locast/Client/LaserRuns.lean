import Locast.Client.LaserSender

/-!
# The laser at rest (`laser/laserTransport.ts`)

What the sender's invariant comes to: the spacing of the sends, and that a pointer which is
released, or a sender which is closed, hands its release over once nothing is left to happen.
-/

namespace Locast.Client.Laser

open Locast.Lib

variable {opts : LaserSenderOptions} {settles : ℕ → Bool} {s s' : LaserRun}

/-! ### Rate and outstanding sends -/

namespace LaserSender

variable {s : LaserSender} {clock : ℚ} {r : Readings}

lemma SendsOk.settled_of_dropLast (h : s.SendsOk opts clock) {l : List Dispatched} {d : Dispatched}
    (hl : s.sends = l ++ [d]) : ∀ d' ∈ l, d'.settled = true := by
  intro d' hd'
  obtain ⟨i, hi, rfl⟩ := List.getElem_of_mem hd'
  by_contra hopen
  have hget : s.sends[i]? = some l[i] := by
    rw [hl, List.getElem?_append_left hi, List.getElem?_eq_getElem hi]
  have hlen := (h.onlyLast i _ hget (by simpa using hopen)).1
  rw [hl, List.length_append, List.length_singleton] at hlen
  omega

/-- **One send is outstanding at most.** -/
lemma Inv.outstanding_le (h : Inv opts s clock) : s.outstanding ≤ 1 := by
  rw [outstanding]
  rcases List.eq_nil_or_concat s.sends with hnil | ⟨l, d, hl⟩
  · rw [hnil]
    split <;> simp
  rw [List.concat_eq_append] at hl
  have hbefore : l.countP (fun d => !d.promiseSettled && !d.settled) = 0 := by
    refine List.countP_eq_zero.2 fun d' hd' => ?_
    simp [h.sends.settled_of_dropLast hl d' hd']
  rw [hl, List.countP_append, hbefore, Nat.zero_add]
  split
  · rename_i hsent
    have hlast := h.flags.finalSent hsent
    rw [lastSettled, hl, List.getLast?_concat] at hlast
    have hd : d.promiseSettled = true := hlast
    simp [hd]
  · exact List.countP_le_length

/-! ### What goes on by itself -/

/-- A message handed over last that is a move is one without a release. -/
lemma exists_move_iff (l : List LaserSendInput) :
    (∃ before pos after, l = before ++ .move pos :: after ∧ .off ∉ after) ↔
      l.getLast?.any (·.isMove) = true := by
  constructor
  · rintro ⟨before, pos, after, rfl, hoff⟩
    rcases List.eq_nil_or_concat after with rfl | ⟨l, m, rfl⟩
    · rw [List.getLast?_concat]
      rfl
    · rw [List.concat_eq_append, ← List.cons_append, ← List.append_assoc, List.getLast?_concat]
      cases m with
      | move pos => rfl
      | off => exact absurd (by simp) hoff
  · intro h
    rcases List.eq_nil_or_concat l with rfl | ⟨l', m, rfl⟩
    · cases h
    · rw [List.concat_eq_append] at h ⊢
      rw [List.getLast?_concat] at h
      cases m with
      | move pos => exact ⟨l', pos, [], rfl, List.not_mem_nil⟩
      | off => cases h

lemma Inv.unreleased_iff (h : Inv opts s clock) :
    s.Unreleased ↔ s.movedSinceOff = true ∧ s.finalOff ≠ .sent := by
  rw [Unreleased, exists_move_iff, handed]
  by_cases hsent : s.finalOff = .sent
  · rw [if_pos hsent, List.getLast?_concat]
    simp [LaserSendInput.isMove, hsent]
  · rw [if_neg hsent, List.append_nil, ← h.flags.moved]
    simp [hsent]

/-- What is left to happen before the sender is at rest. -/
def rank (s : LaserSender) : ℕ :=
  6 * s.offPending.toNat + 2 * s.sends.countP (!·.settled) + s.sends.countP (!·.promiseSettled) +
    s.timer.isSome.toNat + s.finalOff.isWaiting.toNat

@[simp] lemma pump_held (opts : LaserSenderOptions) (r : Readings) (s : LaserSender) :
    (s.pump opts r).held = s.held := by
  rcases pump_cases opts r s with ⟨h, -⟩ | ⟨-, -, -, ⟨-, h⟩ | ⟨-, pos, -, h⟩⟩ | ⟨-, -, -, kind,
    ms, h, -⟩ <;> rw [h] <;> rfl

@[simp] lemma pump_finalOff (opts : LaserSenderOptions) (r : Readings) (s : LaserSender) :
    (s.pump opts r).finalOff = s.finalOff := by
  rcases pump_cases opts r s with ⟨h, -⟩ | ⟨-, -, -, ⟨-, h⟩ | ⟨-, pos, -, h⟩⟩ | ⟨-, -, -, kind,
    ms, h, -⟩ <;> rw [h] <;> rfl

lemma rank_dispatchOff (hoff : s.offPending = true) (r : Readings) :
    (dispatch .off r (cancelTimer
      { s with offPending := false, movedSinceOff := false, lastPos := none })).rank + 3 ≤
        s.rank := by
  simp only [rank, dispatch, cancelTimer, hoff, List.countP_append, List.countP_singleton,
    Bool.toNat_true, Bool.toNat_false, Option.isSome_none, Bool.not_false, if_true]
  omega

/-- A pump of a released pointer arms a timer at most. -/
lemma FlagsOk.rank_pump_le (h : s.FlagsOk) (hheld : s.held = false) (r : Readings) :
    (s.pump opts r).rank ≤ s.rank + 1 := by
  rcases pump_cases opts r s with ⟨hp, -⟩ | ⟨-, -, -, ⟨hoff, hp⟩ | ⟨-, pos, hpos, -⟩⟩ | ⟨-, -, -,
    kind, ms, hp, -⟩
  · rw [hp]
    exact Nat.le_succ _
  · have := rank_dispatchOff hoff r
    rw [hp]
    omega
  · have := h.pendingHeld (by rw [hpos]; rfl)
    rw [hheld] at this
    cases this
  · rw [hp]
    simp only [rank, LaserSender.armTimer, Option.isSome_some, Bool.toNat_true]
    omega

/-- A gate that opens sends the release. -/
lemma FlagsOk.rank_fire_lt (h : s.FlagsOk) (hheld : s.held = false) {t : TimerKind × ℚ}
    (ht : s.timer = some t) (hopen : ¬0 < s.gateWait opts r.gate) (kind : TimerKind) :
    (s.fire opts kind r).rank < s.rank := by
  have hsome : s.timer.isSome = true := by rw [ht]; rfl
  have hoff := h.timerDue hsome hheld
  have hflight := h.timerFree hsome
  have hdisposed : s.disposed = false := by
    by_contra hd
    rw [(h.idle (by simpa using hd)).2.2.2] at ht
    cases ht
  have hrank : rank { s with timer := none } + 1 = s.rank := by
    simp [rank, hsome]
    omega
  have hfire : s.fire opts kind r = pump opts r { s with timer := none } := by
    rw [fire]
    dsimp only
    rw [if_neg (by simp [hdisposed]), if_neg (by simp [hheld])]
  rw [hfire]
  rcases pump_cases opts r { s with timer := none } with ⟨-, hwhy⟩ | ⟨-, -, -, ⟨-, hp⟩ | ⟨hno, -⟩⟩ |
    ⟨-, -, -, kind, ms, -, hwait⟩
  · rcases hwhy with hd | hf | htm | hnot | ⟨-, hno, -⟩
    · exact absurd (hdisposed.symm.trans hd) (by decide)
    · exact absurd (hflight.symm.trans hf) (by decide)
    · cases htm
    · exact absurd (.inr (.inl hoff)) hnot
    · exact absurd (hoff.symm.trans hno) (by decide)
  · have := rank_dispatchOff (s := { s with timer := none }) hoff r
    rw [hp]
    omega
  · exact absurd (hoff.symm.trans hno) (by decide)
  · exact absurd (hwait hoff) hopen

lemma countP_set_lt {p : Dispatched → Bool} {l : List Dispatched} {k : ℕ} {d d' : Dispatched}
    (hd : l[k]? = some d) (hp : p d = true) (hp' : p d' = false) :
    (l.set k d').countP p + 1 = l.countP p := by
  obtain ⟨hk, rfl⟩ := List.getElem?_eq_some_iff.1 hd
  have hpos : 0 < l.countP p := List.countP_pos_iff.2 ⟨_, List.getElem_mem hk, hp⟩
  rw [List.countP_set hk, hp, hp']
  simp
  omega

lemma countP_set_eq {p : Dispatched → Bool} {l : List Dispatched} {k : ℕ} {d d' : Dispatched}
    (hd : l[k]? = some d) (hp : p d' = p d) : (l.set k d').countP p = l.countP p := by
  have hmap := congrArg (List.countP id) (map_set (f := p) hd hp)
  simpa only [List.countP_map, Function.id_comp] using hmap

lemma FlagsOk.rank_done_lt (h : s.FlagsOk) (hheld : s.held = false) {k : ℕ} {d : Dispatched}
    (hd : s.sends[k]? = some d) (hopen : d.settled = false)
    (r : Readings) : (s.done opts k r).rank < s.rank := by
  have hle := @FlagsOk.rank_pump_le opts _ (h.doneWith hd) hheld r
  have hless : (s.sends.set k { d with settled := true }).countP (!·.settled) + 1 =
      s.sends.countP (!·.settled) :=
    countP_set_lt hd (by simp [hopen]) rfl
  have hsame : (s.sends.set k { d with settled := true }).countP (!·.promiseSettled) =
      s.sends.countP (!·.promiseSettled) := countP_set_eq hd rfl
  have hdone : s.done opts k r =
      pump opts r
        { s with sends := s.sends.set k { d with settled := true }, inFlight := false } := by
    rw [done, hd]
    exact if_neg (by simp [hopen])
  rw [hdone]
  simp only [rank] at hle ⊢
  omega

lemma rank_settle_lt {k : ℕ} {d : Dispatched} (hd : s.sends[k]? = some d)
    (hopen : d.promiseSettled = false) :
    rank { s with sends := s.sends.set k { d with promiseSettled := true } } < s.rank := by
  have hless : (s.sends.set k { d with promiseSettled := true }).countP (!·.promiseSettled) + 1 =
      s.sends.countP (!·.promiseSettled) := countP_set_lt hd (by simp [hopen]) rfl
  have hsame : (s.sends.set k { d with promiseSettled := true }).countP (!·.settled) =
      s.sends.countP (!·.settled) := countP_set_eq hd rfl
  simp only [rank]
  omega

lemma done_held (hheld : s.held = false) (k : ℕ)
    (r : Readings) : (s.done opts k r).held = false := by
  rw [done]
  split
  · exact hheld
  · split
    · exact hheld
    · exact (pump_held _ _ _).trans hheld

end LaserSender

namespace LaserRun

/-- A callback, a promise that settles, or the timer of a gate that opens. -/
def Settling (opts : LaserSenderOptions) (s : LaserRun) : LaserInput → Prop
  | .timer r => ¬0 < s.sender.gateWait opts r.gate
  | .timeout _ _ | .settle _ | .callback _ _ | .final => True
  | .move _ _ _ | .off _ | .close => False

/-- With a release due, `close` is called when the latest promise settles some time. -/
def CloseOk (settles : ℕ → Bool) (s : LaserRun) : LaserInput → Prop
  | .close => s.sender.disposed = false → s.sender.movedSinceOff = true →
      settles (s.sender.sends.length - 1) = true
  | _ => True

/-- **A sender at rest.**  What goes on by itself comes to an end. -/
lemma rank_lt (h : s.sender.Inv opts s.clock) (hheld : s.sender.held = false) {i : LaserInput}
    (hi : s.Settling opts i) (hstep : laserMachine opts settles s i = some s') :
    s'.sender.held = false ∧ s'.sender.rank < s.sender.rank := by
  cases i with
  | move | off | close => cases hi
  | timer r =>
    obtain ⟨t, ht, hread⟩ := Option.bind_eq_some_iff.1 hstep
    obtain ⟨-, rfl⟩ := read_eq_some.1 hread
    refine ⟨?_, h.flags.rank_fire_lt hheld ht hi t.1⟩
    change (s.sender.fire opts t.1 r).held = false
    rw [LaserSender.fire]
    dsimp only
    split_ifs
    · exact hheld
    · exact (LaserSender.pump_held _ _ _).trans hheld
    · exact (LaserSender.pump_held _ _ _).trans hheld
  | timeout k r =>
    obtain ⟨d, hd, hread⟩ := Option.bind_eq_some_iff.1 hstep
    obtain ⟨⟨-, hopen⟩, hread⟩ := Option.ite_none_right_eq_some.1 hread
    obtain ⟨-, rfl⟩ := read_eq_some.1 hread
    exact ⟨LaserSender.done_held hheld k r, h.flags.rank_done_lt hheld hd (by simpa using hopen) r⟩
  | settle k =>
    obtain ⟨d, hd, hset⟩ := Option.bind_eq_some_iff.1 hstep
    obtain ⟨⟨-, hopen⟩, ⟨⟩⟩ := Option.ite_none_right_eq_some.1 hset
    exact ⟨hheld, LaserSender.rank_settle_lt hd (by simpa using hopen)⟩
  | callback k r =>
    obtain ⟨d, hd, hread⟩ := Option.bind_eq_some_iff.1 hstep
    obtain ⟨⟨-, hopen⟩, hread⟩ := Option.ite_none_right_eq_some.1 hread
    obtain ⟨-, rfl⟩ := read_eq_some.1 hread
    exact ⟨LaserSender.done_held hheld k r, h.flags.rank_done_lt hheld hd (by simpa using hopen) r⟩
  | final =>
    obtain ⟨⟨hwait, -⟩, ⟨⟩⟩ := Option.ite_none_right_eq_some.1 hstep
    refine ⟨hheld, ?_⟩
    simp [LaserSender.rank, hwait, FinalOff.isWaiting]

/-- A sender at rest that was released or closed has handed a release over, or waits for a
promise. -/
lemma released_of_rest (h : s.sender.Inv opts s.clock) (hheld : s.sender.held = false)
    (htimeout : enabled opts.sendTimeoutMs = true)
    (hrest : ∀ s', ¬(laserMachine opts settles).Step (Settling opts) s s') :
    ¬s.sender.Unreleased ∨ s.sender.finalOff = .waiting ∧
      settles (s.sender.sends.length - 1) = false := by
  by_cases hun : s.sender.Unreleased
  swap
  · exact .inl hun
  right
  obtain ⟨hmoved, hnotsent⟩ := h.unreleased_iff.1 hun
  have hread (r : Readings) (hr : s.clock ≤ r.gate) (f : LaserSender → LaserSender) :
      s.read r f = some ⟨f s.sender, r.send⟩ := if_pos hr
  have hstop (i : LaserInput) (hi : s.Settling opts i) : laserMachine opts settles s i = none := by
    cases hstep : laserMachine opts settles s i with
    | none => rfl
    | some s' => exact absurd ⟨i, hi, hstep⟩ (hrest s')
  have hsettled : ∀ (k : ℕ) (d : Dispatched), s.sender.sends[k]? = some d → d.settled = true := by
    intro k d hd
    by_contra hopen
    have hnone := hstop (.timeout k (.still s.clock)) trivial
    rw [laserMachine, hd, Option.bind_some, if_pos ⟨htimeout, hopen⟩, hread _ le_rfl] at hnone
    cases hnone
  have hflight : s.sender.inFlight = false := by
    by_contra hf
    have hlast := h.sends.flight (by simpa using hf)
    rw [List.getLast?_map, Option.map_eq_some_iff] at hlast
    obtain ⟨d, hd, hopen⟩ := hlast
    rw [List.getLast?_eq_getElem?] at hd
    rw [hsettled _ d hd] at hopen
    cases hopen
  have htimer : s.sender.timer = none := by
    cases ht : s.sender.timer with
    | none => rfl
    | some t =>
      obtain ⟨late, hlate, hopen⟩ : ∃ late, s.clock ≤ late ∧ ¬0 < s.sender.gateWait opts late := by
        cases hat : s.sender.lastSendAt with
        | none => exact ⟨s.clock, le_rfl, by simp [LaserSender.gateWait, hat]⟩
        | some last =>
          refine ⟨max s.clock (last + opts.minIntervalMs), le_max_left _ _, ?_⟩
          rw [LaserSender.gateWait, hat, not_lt]
          exact sub_nonpos.2 (le_max_right _ _)
      have hnone := hstop (.timer (.still late)) hopen
      rw [laserMachine, ht, Option.bind_some, hread _ hlate] at hnone
      cases hnone
  by_cases hdisposed : s.sender.disposed = true
  · have hwait : s.sender.finalOff = .waiting := by
      cases hfinal : s.sender.finalOff with
      | none =>
        rw [h.flags.finalNone hdisposed hfinal] at hmoved
        cases hmoved
      | waiting => rfl
      | sent => exact absurd hfinal hnotsent
    refine ⟨hwait, ?_⟩
    by_contra hsettles
    have hsome : s.sender.sends.getLast?.isSome = true := by
      rw [h.flags.moved, List.getLast?_map] at hmoved
      cases hlast : s.sender.sends.getLast? with
      | none =>
        rw [hlast] at hmoved
        cases hmoved
      | some d => rfl
    obtain ⟨d, hd⟩ := Option.isSome_iff_exists.1 hsome
    rw [List.getLast?_eq_getElem?] at hd
    have hpromise : d.promiseSettled = true := by
      by_contra hopen
      have hnone := hstop (.settle (s.sender.sends.length - 1)) trivial
      rw [laserMachine, hd, Option.bind_some, if_pos ⟨by simpa using hsettles, hopen⟩] at hnone
      cases hnone
    have hlast : s.sender.lastSettled = true := by
      rw [LaserSender.lastSettled, List.getLast?_eq_getElem?, hd]
      exact hpromise
    have hnone := hstop .final trivial
    rw [laserMachine, if_pos ⟨hwait, hlast⟩] at hnone
    cases hnone
  · have hoff := h.flags.released hmoved hheld (by simpa using hdisposed)
    rcases h.noStall (by simpa using hdisposed) (.inr (.inl hoff)) with hf | ht
    · exact absurd (hflight.symm.trans hf) (by decide)
    · rw [htimer] at ht
      cases ht

/-! ### A sender that is closed -/

/-- A closed sender sends nothing by itself. -/
lemma closed_step (hclosed : s.sender.disposed = true) {i : LaserInput}
    (hstep : laserMachine opts settles s i = some s') :
    s'.sender.disposed = true ∧ s'.sender.movedSinceOff = s.sender.movedSinceOff ∧
      s'.sender.sends.length = s.sender.sends.length ∧
      (∀ n, settles n = false →
        s'.sender.sends[n]?.map (·.promiseSettled) = s.sender.sends[n]?.map (·.promiseSettled)) ∧
      (s'.sender.finalOff = s.sender.finalOff ∨
        s.sender.finalOff = .waiting ∧ s.sender.lastSettled = true) := by
  have hset : ∀ {k : ℕ} {d d' : Dispatched}, s.sender.sends[k]? = some d → ∀ n,
      (n = k → d'.promiseSettled = d.promiseSettled) →
      (s.sender.sends.set k d')[n]?.map (·.promiseSettled) = s.sender.sends[n]?.map
        (·.promiseSettled) := by
    intro k d d' hd n hn
    rw [List.getElem?_set]
    split
    · rename_i hk
      subst hk
      rw [if_pos (List.getElem?_eq_some_iff.1 hd).1, hd, Option.map_some, Option.map_some, hn rfl]
    · rfl
  have hdone : ∀ (k : ℕ) (r : Readings) (d : Dispatched),
      s.sender.sends[k]? = some d → ¬d.settled = true → s.sender.done opts k r =
        { s.sender with sends := s.sender.sends.set k { d with settled := true }, inFlight :=
          false } := by
    intro k r d hd hopen
    rw [LaserSender.done, hd]
    dsimp only
    rw [if_neg hopen, LaserSender.pump, if_pos (.inl hclosed)]
  cases i with
  | move x y r =>
    obtain ⟨-, rfl⟩ := read_eq_some.1 hstep
    have hsame : s.sender.move opts x y r = s.sender := by
      rcases x with _ | x <;> rcases y with _ | y <;> first | rfl | exact if_pos (.inl hclosed)
    rw [hsame]
    exact ⟨hclosed, rfl, rfl, fun _ _ => rfl, .inl rfl⟩
  | off r =>
    obtain ⟨-, rfl⟩ := read_eq_some.1 hstep
    have hsame : s.sender.off opts r = s.sender := if_pos hclosed
    rw [hsame]
    exact ⟨hclosed, rfl, rfl, fun _ _ => rfl, .inl rfl⟩
  | close =>
    cases hstep
    have hsame : s.sender.close = s.sender := if_pos hclosed
    rw [hsame]
    exact ⟨hclosed, rfl, rfl, fun _ _ => rfl, .inl rfl⟩
  | timer r =>
    obtain ⟨t, -, hread⟩ := Option.bind_eq_some_iff.1 hstep
    obtain ⟨-, rfl⟩ := read_eq_some.1 hread
    have hsame : s.sender.fire opts t.1 r = { s.sender with timer := none } := if_pos hclosed
    rw [hsame]
    exact ⟨hclosed, rfl, rfl, fun _ _ => rfl, .inl rfl⟩
  | timeout k r =>
    obtain ⟨d, hd, hread⟩ := Option.bind_eq_some_iff.1 hstep
    obtain ⟨⟨-, hopen⟩, hread⟩ := Option.ite_none_right_eq_some.1 hread
    obtain ⟨-, rfl⟩ := read_eq_some.1 hread
    rw [hdone k r d hd hopen]
    exact ⟨hclosed, rfl, List.length_set, fun n _ => hset hd n fun _ => rfl, .inl rfl⟩
  | settle k =>
    obtain ⟨d, hd, hread⟩ := Option.bind_eq_some_iff.1 hstep
    obtain ⟨⟨hsettles, -⟩, ⟨⟩⟩ := Option.ite_none_right_eq_some.1 hread
    refine ⟨hclosed, rfl, List.length_set, fun n hn => hset hd n fun hk => ?_, .inl rfl⟩
    rw [hk, hsettles] at hn
    cases hn
  | callback k r =>
    obtain ⟨d, hd, hread⟩ := Option.bind_eq_some_iff.1 hstep
    obtain ⟨⟨-, hopen⟩, hread⟩ := Option.ite_none_right_eq_some.1 hread
    obtain ⟨-, rfl⟩ := read_eq_some.1 hread
    rw [hdone k r d hd hopen]
    exact ⟨hclosed, rfl, List.length_set, fun n _ => hset hd n fun _ => rfl, .inl rfl⟩
  | final =>
    obtain ⟨⟨hwait, hlast⟩, ⟨⟩⟩ := Option.ite_none_right_eq_some.1 hstep
    exact ⟨hclosed, rfl, rfl, fun _ _ => rfl, .inr ⟨hwait, hlast⟩⟩

/-- A step of a sender that is open leaves no final release behind, unless it closes it. -/
lemma open_step (hopen : s.sender.finalOff = .none) {i : LaserInput} (hi : i ≠ .close)
    (hstep : laserMachine opts settles s i = some s') : s'.sender.finalOff = .none := by
  have hdone : ∀ k r, (s.sender.done opts k r).finalOff = .none := by
    intro k r
    rw [LaserSender.done]
    split
    · exact hopen
    · split
      · exact hopen
      · exact (LaserSender.pump_finalOff _ _ _).trans hopen
  cases i with
  | move x y r =>
    obtain ⟨-, rfl⟩ := read_eq_some.1 hstep
    rcases x with _ | x <;> rcases y with _ | y <;> try exact hopen
    change (s.sender.move opts (some x) (some y) r).finalOff = .none
    rw [LaserSender.move]
    split
    · exact hopen
    · exact (LaserSender.pump_finalOff _ _ _).trans hopen
  | off r =>
    obtain ⟨-, rfl⟩ := read_eq_some.1 hstep
    change (s.sender.off opts r).finalOff = .none
    rw [LaserSender.off]
    split
    · exact hopen
    · dsimp only
      split
      · exact (LaserSender.pump_finalOff _ _ _).trans hopen
      · exact hopen
  | close => exact absurd rfl hi
  | timer r =>
    obtain ⟨t, -, hread⟩ := Option.bind_eq_some_iff.1 hstep
    obtain ⟨-, rfl⟩ := read_eq_some.1 hread
    change (s.sender.fire opts t.1 r).finalOff = .none
    rw [LaserSender.fire]
    dsimp only
    split
    · exact hopen
    · split <;> exact (LaserSender.pump_finalOff _ _ _).trans hopen
  | timeout k r =>
    obtain ⟨d, -, hread⟩ := Option.bind_eq_some_iff.1 hstep
    obtain ⟨-, rfl⟩ := read_eq_some.1 (Option.ite_none_right_eq_some.1 hread).2
    exact hdone k r
  | settle k =>
    obtain ⟨d, -, hread⟩ := Option.bind_eq_some_iff.1 hstep
    obtain ⟨-, ⟨⟩⟩ := Option.ite_none_right_eq_some.1 hread
    exact hopen
  | callback k r =>
    obtain ⟨d, -, hread⟩ := Option.bind_eq_some_iff.1 hstep
    obtain ⟨-, rfl⟩ := read_eq_some.1 (Option.ite_none_right_eq_some.1 hread).2
    exact hdone k r
  | final =>
    obtain ⟨⟨hwait, -⟩, -⟩ := Option.ite_none_right_eq_some.1 hstep
    exact absurd (hopen.symm.trans hwait) (by decide)

/-- Only promises that settle some time have settled. -/
def Honest (settles : ℕ → Bool) (sends : List Dispatched) : Prop :=
  ∀ k d, sends[k]? = some d → d.promiseSettled = true → settles k = true

lemma Honest.pump {sends : List Dispatched} (h : Honest settles sends) {t : LaserSender}
    (ht : t.sends = sends) (opts : LaserSenderOptions) (r : Readings) :
    Honest settles (t.pump opts r).sends := by
  subst ht
  have happend (input : LaserSendInput) : Honest settles
      (t.sends ++ [⟨input, r.send, false, false⟩]) := by
    intro k d hd hsettled
    rcases Nat.lt_trichotomy k t.sends.length with hk | rfl | hk
    · exact h k d (by rwa [List.getElem?_append_left hk] at hd) hsettled
    · rw [List.getElem?_concat_length] at hd
      rw [← Option.some.inj hd] at hsettled
      cases hsettled
    · rw [List.getElem?_eq_none (by simp; omega)] at hd
      cases hd
  rcases LaserSender.pump_cases opts r t with ⟨hp, -⟩ | ⟨-, -, -, ⟨-, hp⟩ | ⟨-, pos, -, hp⟩⟩ |
    ⟨-, -, -, kind, ms, hp, -⟩ <;> rw [hp]
  · exact h
  · exact happend _
  · exact happend _
  · exact h

lemma Honest.set {sends : List Dispatched} (h : Honest settles sends) {k : ℕ} {d d' : Dispatched}
    (hd : sends[k]? = some d)
    (hd' : d'.promiseSettled = true → d.promiseSettled = true ∨ settles k = true) :
    Honest settles (sends.set k d') := by
  intro n e he hsettled
  rw [List.getElem?_set] at he
  split at he
  · rename_i hk
    subst hk
    obtain ⟨-, heq⟩ := Option.ite_none_right_eq_some.1 he
    rw [← Option.some.inj heq] at hsettled
    exact (hd' hsettled).elim (h k d hd) id
  · exact h n e he hsettled

lemma Honest.step (h : Honest settles s.sender.sends) {i : LaserInput}
    (hstep : laserMachine opts settles s i = some s') : Honest settles s'.sender.sends := by
  have hdone : ∀ k r, Honest settles (s.sender.done opts k r).sends := by
    intro k r
    rw [LaserSender.done]
    split
    · exact h
    · rename_i d hd
      split
      · exact h
      · have hset : Honest settles (s.sender.sends.set k { d with settled := true }) :=
          h.set hd .inl
        exact hset.pump (by rfl) opts r
  cases i with
  | move x y r =>
    obtain ⟨-, rfl⟩ := read_eq_some.1 hstep
    rcases x with _ | x <;> rcases y with _ | y <;> try exact h
    change Honest settles (s.sender.move opts (some x) (some y) r).sends
    rw [LaserSender.move]
    split
    · exact h
    · exact h.pump (by rfl) opts r
  | off r =>
    obtain ⟨-, rfl⟩ := read_eq_some.1 hstep
    change Honest settles (s.sender.off opts r).sends
    rw [LaserSender.off]
    split
    · exact h
    · dsimp only
      split
      · exact h.pump (by rfl) opts r
      · exact h
  | close =>
    cases hstep
    change Honest settles s.sender.close.sends
    rw [LaserSender.close]
    split <;> exact h
  | timer r =>
    obtain ⟨t, -, hread⟩ := Option.bind_eq_some_iff.1 hstep
    obtain ⟨-, rfl⟩ := read_eq_some.1 hread
    change Honest settles (s.sender.fire opts t.1 r).sends
    rw [LaserSender.fire]
    dsimp only
    split
    · exact h
    · split <;> exact h.pump (by rfl) opts r
  | timeout k r =>
    obtain ⟨d, -, hread⟩ := Option.bind_eq_some_iff.1 hstep
    obtain ⟨-, rfl⟩ := read_eq_some.1 (Option.ite_none_right_eq_some.1 hread).2
    exact hdone k r
  | settle k =>
    obtain ⟨d, hd, hread⟩ := Option.bind_eq_some_iff.1 hstep
    obtain ⟨⟨hsettles, -⟩, ⟨⟩⟩ := Option.ite_none_right_eq_some.1 hread
    exact h.set hd fun _ => .inr hsettles
  | callback k r =>
    obtain ⟨d, -, hread⟩ := Option.bind_eq_some_iff.1 hstep
    obtain ⟨-, rfl⟩ := read_eq_some.1 (Option.ite_none_right_eq_some.1 hread).2
    exact hdone k r
  | final =>
    obtain ⟨-, ⟨⟩⟩ := Option.ite_none_right_eq_some.1 hstep
    exact h

/-- The final release waits for a promise that settles. -/
lemma close_settles (h : s.sender.Inv opts s.clock)
    (hclosed : s.sender.finalOff ≠ .none → settles (s.sender.sends.length - 1) = true)
    {i : LaserInput}
    (hok : s.CloseOk settles i) (hstep : laserMachine opts settles s i = some s') :
    s'.sender.finalOff ≠ .none → settles (s'.sender.sends.length - 1) = true := by
  by_cases hfinal : s.sender.finalOff = .none
  · by_cases hi : i = .close
    · subst hi
      cases hstep
      intro hne
      by_cases hd : s.sender.disposed = true
      · have hsame : s.sender.close = s.sender := if_pos hd
        rw [hsame] at hne
        exact absurd hfinal hne
      · have hsends : s.sender.close.sends = s.sender.sends := by
          rw [LaserSender.close, if_neg hd]
          rfl
        rw [hsends]
        refine hok (by simpa using hd) ?_
        by_contra hm
        rw [LaserSender.close, if_neg hd] at hne
        exact hne (if_neg hm)
    · exact fun hne => absurd (open_step hfinal hi hstep) hne
  · obtain ⟨-, -, hlen, -⟩ := closed_step (h.flags.finalOpen hfinal).1 hstep
    rw [hlen]
    exact fun _ => hclosed hfinal

/-- The release that `close` leaves waiting for a promise that never settles. -/
structure Stuck (settles : ℕ → Bool) (s : LaserRun) : Prop where
  disposed : s.sender.disposed = true
  moved : s.sender.movedSinceOff = true
  waiting : s.sender.finalOff = .waiting
  never : settles (s.sender.sends.length - 1) = false
  unsettled : s.sender.sends[s.sender.sends.length - 1]?.map (·.promiseSettled) = some false

lemma Stuck.step (h : s.Stuck settles) {i : LaserInput}
    (hstep : laserMachine opts settles s i = some s') :
    s'.Stuck settles := by
  obtain ⟨hdisposed, hmoved, hlen, hpromise, hfinal⟩ := closed_step h.disposed hstep
  refine ⟨hdisposed, hmoved.trans h.moved, ?_, by rw [hlen]; exact h.never, ?_⟩
  · rcases hfinal with hsame | ⟨-, hlast⟩
    · exact hsame.trans h.waiting
    · rw [LaserSender.lastSettled, List.getLast?_eq_getElem?] at hlast
      obtain ⟨d, hd, hopen⟩ := Option.map_eq_some_iff.1 h.unsettled
      rw [hd, Option.all_some, hopen] at hlast
      cases hlast
  · rw [hlen, hpromise _ h.never]
    exact h.unsettled

/-- Closing an open sender with a release due while the latest promise never settles. -/
lemma Stuck.of_close (h : s.sender.Inv opts s.clock) (honest : Honest settles s.sender.sends)
    (hbad : ¬s.CloseOk settles .close) : Stuck settles { s with sender := s.sender.close } := by
  unfold CloseOk at hbad
  push Not at hbad
  obtain ⟨hopen, hmoved, hnever⟩ := hbad
  have hclose : s.sender.close = { s.sender.dispose with finalOff := .waiting } := by
    rw [LaserSender.close, if_neg (by simp [hopen])]
    dsimp only
    rw [if_pos hmoved]
  have hnever : settles (s.sender.sends.length - 1) = false := by simpa using hnever
  rw [hclose]
  refine ⟨rfl, hmoved, rfl, hnever, ?_⟩
  have hlast := h.flags.moved.symm.trans hmoved
  rw [List.getLast?_map, List.getLast?_eq_getElem?] at hlast
  change s.sender.sends[s.sender.sends.length - 1]?.map (·.promiseSettled) = some false
  cases hd : s.sender.sends[s.sender.sends.length - 1]? with
  | none =>
    rw [hd] at hlast
    cases hlast
  | some d =>
    rw [Option.map_some, Option.some.injEq]
    by_contra hsettled
    have := honest _ d hd (by simpa using hsettled)
    rw [hnever] at this
    cases this

end LaserRun

open LaserRun in
/-- **The laser sender.**  Sends are spaced, one is outstanding at most, and the sender never
stalls; once the pointer is released or the sender closed, what goes on by itself comes to an end,
and then no move is left without a release.  A `close` with a release due while the latest promise
never settles leaves one for ever. -/
theorem laser_sender_keeps (htimeout : enabled opts.sendTimeoutMs = true) {clock : ℚ}
    (hrun : (laserMachine opts settles).Reaches (CloseOk settles) (.start clock) s) :
    ((s.sender.sends.map (·.startedAt)).Pairwise fun t t' => t + opts.minIntervalMs ≤ t') ∧
    s.sender.outstanding ≤ 1 ∧ s.sender.NoStall opts ∧
    (s.sender.held = false →
      (∀ s', (laserMachine opts settles).Step (Settling opts) s s' →
        s'.sender.held = false ∧ s'.sender.rank < s.sender.rank) ∧
      ((∀ s', ¬(laserMachine opts settles).Step (Settling opts) s s') → ¬s.sender.Unreleased)) ∧
    (¬s.CloseOk settles .close →
      ∀ s', (laserMachine opts settles).Reaches Machine.free
        { s with sender := s.sender.close } s' → s'.sender.held = false ∧
          s'.sender.Unreleased) := by
  obtain ⟨hinv, honest, hclosed⟩ : s.sender.Inv opts s.clock ∧ Honest settles s.sender.sends ∧
      (s.sender.finalOff ≠ .none → settles (s.sender.sends.length - 1) = true) := by
    refine hrun.invariant (I := fun s => s.sender.Inv opts s.clock ∧ Honest settles s.sender.sends ∧
      (s.sender.finalOff ≠ .none → settles (s.sender.sends.length - 1) = true))
      ⟨.start opts clock, fun k d hd => (by cases hd), fun h => absurd rfl h⟩ ?_
    rintro s i s' ⟨hs, honest, hclosed⟩ hok hstep
    exact ⟨hs.step hstep, honest.step hstep, close_settles hs hclosed hok hstep⟩
  refine ⟨hinv.sends.spaced, hinv.outstanding_le, hinv.noStall, fun hheld => ⟨?_, fun hrest => ?_⟩,
    fun hbad s' r => ?_⟩
  · rintro s' ⟨i, hi, hstep⟩
    exact rank_lt hinv hheld hi hstep
  · rcases released_of_rest hinv hheld htimeout hrest with hreleased | ⟨hwait, hnever⟩
    · exact hreleased
    · rw [hclosed (by rw [hwait]; decide)] at hnever
      cases hnever
  · have hstuck : s'.sender.Inv opts s'.clock ∧ s'.Stuck settles := by
      refine r.invariant (I := fun s => s.sender.Inv opts s.clock ∧ s.Stuck settles)
        ⟨hinv.close, .of_close hinv honest hbad⟩ ?_
      rintro s i s' ⟨hs, hstuck⟩ - hstep
      exact ⟨hs.step hstep, hstuck.step hstep⟩
    refine ⟨(hstuck.1.flags.idle hstuck.2.disposed).2.2.1,
      hstuck.1.unreleased_iff.2 ⟨hstuck.2.moved, ?_⟩⟩
    rw [hstuck.2.waiting]
    decide

/-- The options that a sender has when none are given. -/
def defaultOptions : LaserSenderOptions := ⟨1000 / 60, some 1000, some 2000⟩

/-! ### Some runs -/

instance (settles : ℕ → Bool) (s : LaserRun) (i : LaserInput) :
    Decidable (LaserRun.CloseOk settles s i) :=
  match i with
  | .close => inferInstanceAs (Decidable (_ → _ → _))
  | .move _ _ _ | .off _ | .timer _ | .timeout _ _ | .settle _ | .callback _ _ | .final =>
    isTrue trivial

/-- Nothing goes on by itself: no timer runs, every send is done with, and no release waits. -/
lemma LaserRun.atRest {s : LaserRun} (htimer : s.sender.timer = none)
    (hsends : ∀ d ∈ s.sender.sends, d.settled = true ∧ d.promiseSettled = true)
    (hfinal : s.sender.finalOff ≠ .waiting) (s' : LaserRun) :
    ¬(laserMachine opts settles).Step (LaserRun.Settling opts) s s' := by
  rintro ⟨i, hi, hstep⟩
  cases i with
  | move | off | close => cases hi
  | timer r =>
    rw [laserMachine, htimer] at hstep
    cases hstep
  | timeout k r =>
    obtain ⟨d, hd, hstep⟩ := Option.bind_eq_some_iff.1 hstep
    rw [if_neg fun h => h.2 (hsends d (List.mem_of_getElem? hd)).1] at hstep
    cases hstep
  | settle k =>
    obtain ⟨d, hd, hstep⟩ := Option.bind_eq_some_iff.1 hstep
    rw [if_neg fun h => h.2 (hsends d (List.mem_of_getElem? hd)).2] at hstep
    cases hstep
  | callback k r =>
    obtain ⟨d, hd, hstep⟩ := Option.bind_eq_some_iff.1 hstep
    rw [if_neg fun h => h.2 (hsends d (List.mem_of_getElem? hd)).1] at hstep
    cases hstep
  | final =>
    rw [laserMachine, if_neg fun h => hfinal h.1] at hstep
    cases hstep

/-- The promises of the first sends settle, and the fourth never does. -/
def firstThree (k : ℕ) : Bool := k < 3

def played (inputs : List LaserInput) : LaserRun :=
  ((laserMachine defaultOptions firstThree).play (LaserRun.CloseOk firstThree)
    (.start 0) inputs).getD (.start 0)

lemma reaches_played (inputs : List LaserInput) (h : ((laserMachine defaultOptions firstThree).play
    (LaserRun.CloseOk firstThree) (.start 0) inputs).isSome = true) :
    (laserMachine defaultOptions firstThree).Reaches (LaserRun.CloseOk firstThree) (.start 0)
    (played inputs) := by
  obtain ⟨s, hs⟩ := Option.isSome_iff_exists.1 h
  rw [played, hs]
  exact Machine.reaches_of_play hs

/-- Two moves and a release while the gate is shut, which its timer sends. -/
def releasedInputs : List LaserInput :=
  [.move (some 0) (some 1) (.still 0), .settle 0, .callback 0 (.still 1),
    .move (some 0) (some 0) (.still 20), .settle 1, .callback 1 (.still 25), .off (.still 30),
    .timer (.still 40), .settle 2, .callback 2 (.still 41)]

/-- A move, and a `close` that waits for its promise. -/
def closedInputs : List LaserInput :=
  [.move (some 0) (some 1) (.still 0), .close, .settle 0, .callback 0 (.still 1), .final]

theorem laser_sender_keeps_played :
    let s := played releasedInputs
    ((s.sender.sends.map (·.startedAt)).Pairwise
      (fun t t' => t + defaultOptions.minIntervalMs ≤ t') ∧ s.sender.outstanding ≤ 1 ∧
        s.sender.NoStall defaultOptions ∧ ¬s.sender.Unreleased) ∧
    ¬(played closedInputs).sender.Unreleased ∧
    let again := played (releasedInputs ++ [.move (some 1) (some 1) (.still 60)])
    ∀ s', (laserMachine defaultOptions firstThree).Reaches Machine.free
      { again with sender := again.sender.close } s' → s'.sender.Unreleased := by
  have htimeout : enabled defaultOptions.sendTimeoutMs = true := by decide
  obtain ⟨hspaced, hone, hstall, hrest, -⟩ :=
    laser_sender_keeps htimeout (reaches_played releasedInputs (by decide +kernel))
  obtain ⟨-, -, -, hclosed, -⟩ :=
    laser_sender_keeps htimeout (reaches_played closedInputs (by decide +kernel))
  obtain ⟨-, -, -, -, hagain⟩ := laser_sender_keeps htimeout (reaches_played
    (releasedInputs ++ [.move (some 1) (some 1) (.still 60)]) (by decide +kernel))
  refine ⟨⟨hspaced, hone, hstall, ?_⟩, ?_, fun s' r => (hagain (by decide +kernel) s' r).2⟩
  · exact (hrest (by decide +kernel)).2
      (LaserRun.atRest (by decide +kernel) (by decide +kernel) (by decide +kernel))
  · exact (hclosed (by decide +kernel)).2
      (LaserRun.atRest (by decide +kernel) (by decide +kernel) (by decide +kernel))

/-- A sender that was moved once. -/
def movedRun : LaserRun := ⟨LaserSender.start.move defaultOptions (some 0) (some 1) (.still 0), 0⟩

lemma movedRun_step (settles : ℕ → Bool) : laserMachine defaultOptions settles (.start 0)
    (.move (some 0) (some 1) (.still 0)) = some movedRun := by
  have hclock : (LaserRun.start 0).clock ≤ (Readings.still 0).gate := le_rfl
  exact LaserRun.read_eq_some.2 ⟨hclock, rfl⟩

/-- **A release that is never sent.**  A move is handed over, its promise never settles, and the
sender is closed: no release is handed over, whatever happens. -/
theorem not_laser_sender_keeps :
    ∃ s, (laserMachine defaultOptions fun _ => false).Reaches Machine.free (.start 0) s ∧
    s.sender.disposed = true ∧
      ∀ s', (laserMachine defaultOptions fun _ => false).Reaches Machine.free s s' →
        s'.sender.Unreleased := by
  have hmove : (laserMachine defaultOptions fun _ => false).Reaches Machine.free
      (.start 0) movedRun :=
    .tail .refl ⟨_, trivial, movedRun_step _⟩
  have hinv : movedRun.sender.Inv defaultOptions movedRun.clock :=
    LaserSender.Inv.step (LaserSender.Inv.start defaultOptions 0) (movedRun_step fun _ => false)
  have hstuck : LaserRun.Stuck (fun _ => false) { movedRun with sender := movedRun.sender.close } :=
    ⟨by decide, by decide, by decide, rfl, by decide⟩
  refine ⟨_, .tail hmove ⟨.close, trivial, rfl⟩, hstuck.disposed, fun s' r => ?_⟩
  have hkept : s'.sender.Inv defaultOptions s'.clock ∧ s'.Stuck fun _ => false := by
    refine r.invariant (I := fun s => s.sender.Inv defaultOptions s.clock ∧ s.Stuck fun _ => false)
      ⟨hinv.close, hstuck⟩ ?_
    rintro s i s' ⟨hs, hs'⟩ - hstep
    exact ⟨hs.step hstep, hs'.step hstep⟩
  refine hkept.1.unreleased_iff.2 ⟨hkept.2.moved, ?_⟩
  rw [hkept.2.waiting]
  decide

end Locast.Client.Laser

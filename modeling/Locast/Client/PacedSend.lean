import Locast.Server.RateLimit
import Mathlib.Algebra.Order.BigOperators.Group.List
import Mathlib.Data.Rat.Floor
import Mathlib.Tactic.NormNum

/-!
# A paced send (`net/signaling.rs`, `ratelimit/mod.rs`)

The frames of a message in many pieces are spaced so that the server's bucket for bytes takes them
all.  The sender reckons with exact instants and with the frames before the bearer is put in; the
server counts the frames as they come and reads its clock in whole milliseconds.
-/

namespace Locast.Client.Paced

open Locast.Server

/-! ### A bucket that is not full -/

/-- A bucket serves the calls that its level and the refills since pay for, when no calls in a row
ask for more than a full bucket gives. -/
lemma serves_of_level {b : TokenBucket} {calls : TokenBucket.Calls}
    (hlevel : ∀ done later, calls = done ++ later → (1000 * asked done : ℤ) ≤ b.milliTokens +
      b.refillPerSec.toNat * (highest b.lastRefillMs done - b.lastRefillMs))
    (hnear : Near b.lastRefillMs calls)
    (hs : Sustained b.capacity b.refillPerSec b.lastRefillMs calls) : b.Serves calls := by
  induction calls generalizing b with
  | nil => trivial
  | cons call rest ih =>
    obtain ⟨n, t⟩ := call
    have hrefill := TokenBucket.refill_milliTokens hnear.head
    have hsingle : asked [(n, t)] = n.toNat := TokenBucket.asked_singleton n t
    have hone := hlevel [(n, t)] rest rfl
    have hself := hs [] (n, t) [] rest rfl
    have hhigh : highest b.lastRefillMs [(n, t)] = max b.lastRefillMs t := rfl
    rw [List.nil_append, sub_self, mul_zero, add_zero, hsingle] at hself
    rw [hhigh, hsingle] at hone
    rcases b.tryConsumeNAt_cases n t with ⟨hlt, -⟩ | ⟨hle, hc⟩
    · omega
    obtain ⟨hcap, hrate, hlast, -⟩ := b.tryConsumeNAt_spec n t
    refine ⟨by rw [hc], ih (fun done later hdone => ?_) (hlast ▸ hnear.tail) ?_⟩
    · have hwhole := hlevel ((n, t) :: done) later (by rw [hdone, List.cons_append])
      have hrow := hs [] (n, t) done later (by rw [hdone]; rfl)
      have hasked : asked ((n, t) :: done) = n.toNat + asked done := rfl
      have hsplit : (b.refillPerSec.toNat : ℤ) *
          (highest (max b.lastRefillMs t) done - b.lastRefillMs) =
          b.refillPerSec.toNat * (highest (max b.lastRefillMs t) done - max b.lastRefillMs t) +
            b.refillPerSec.toNat * (max b.lastRefillMs t - b.lastRefillMs) := by ring
      rw [highest_cons, hasked, hsplit] at hwhole
      rw [List.nil_append, List.nil_append, highest_cons, hasked, hhigh] at hrow
      rw [hrate, hlast]
      have hleft : ((b.tryConsumeNAt n t).2.milliTokens : ℤ) =
          (b.refill t).milliTokens - n.toNat * 1000 := by
        rw [hc]
        push_cast [hle]
        rfl
      rw [hleft]
      push_cast at hwhole hrow
      omega
    · rw [hcap, hrate, hlast]
      intro earlier call row later hrest
      have := hs ((n, t) :: earlier) call row later (by rw [hrest]; rfl)
      simpa only [List.cons_append, highest_cons] using this

/-! ### The sender -/

/-- A frame: its length as it is measured, and what the bearer adds to it. -/
structure PacedFrame where
  len : ℕ
  bearerBytes : ℕ

/-- The frame as it is written. -/
def PacedFrame.written (f : PacedFrame) : ℕ := f.len + f.bearerBytes

/-- A frame on its way: the milliseconds since the start, and its length. -/
structure Sent where
  atMs : ℚ
  bytes : ℕ

/-- `SignalingError::OversizedFrame`. -/
structure OversizedFrame where
  bytes : ℕ
  cap : ℕ

/-- `PACED_BURST_BYTES`. -/
def pacedBurstBytes : ℕ := 1000000

/-- `paced_rate`. -/
def pacedRate (advertisedBytesPerSec : ℕ) : ℕ := max (advertisedBytesPerSec * 6 / 10) (16 * 1024)

/-- The milliseconds from the start until so many bytes may have been sent. -/
def dueMs (rate total : ℕ) : ℚ := (total - pacedBurstBytes : ℕ) * 1000 / rate

/-- The frames after some that had `sent` bytes; the first one that is too long ends it. -/
def sendFrom (maxFrameBytes rate : ℕ) : ℕ → List PacedFrame → List Sent × Except OversizedFrame Unit
  | _, [] => ([], .ok ())
  | sent, f :: rest =>
    if maxFrameBytes < f.written then ([], .error ⟨f.written, maxFrameBytes⟩)
    else
      let out := sendFrom maxFrameBytes rate (sent + f.len) rest
      (⟨dueMs rate (sent + f.len), f.written⟩ :: out.1, out.2)

/-- `send_envelopes_paced`, on a connection that stays. -/
def sendEnvelopesPaced (maxFrameBytes advertised : ℕ) (frames : List PacedFrame) :
    List Sent × Except OversizedFrame Unit := sendFrom maxFrameBytes (pacedRate advertised) 0 frames

/-! ### The server -/

structure RateLimitHit where
  observed : UInt32
  limit : UInt32
  retryAfterMs : UInt32

/-- `u32::try_from(n).unwrap_or(u32::MAX)`. -/
def toTokens (n : ℕ) : UInt32 := if n < 2 ^ 32 then .ofNat n else .ofNat (2 ^ 32 - 1)

/-- `check_bytes` at a reading of the clock. -/
def checkBytes (bytesLimit : UInt32) (frameBytes : ℕ) (nowMs : ℤ) (b : TokenBucket) :
    Except RateLimitHit Unit × TokenBucket :=
  let out := b.tryConsumeNAt (toTokens frameBytes) nowMs
  (if out.1 then .ok () else .error ⟨toTokens frameBytes, bytesLimit, 1000⟩, out.2)

/-- Every frame is accepted when the sending starts at this instant of the server's clock. -/
def Accepts (bytesLimit : UInt32) (start : ℚ) : TokenBucket → List Sent → Prop
  | _, [] => True
  | b, s :: rest =>
    let out := checkBytes bytesLimit s.bytes ⌊start + s.atMs⌋ b
    out.1 = .ok () ∧ Accepts bytesLimit start out.2 rest

/-- The calls that the frames are to the bucket. -/
def callOf (start : ℚ) (s : Sent) : UInt32 × ℤ := (toTokens s.bytes, ⌊start + s.atMs⌋)

/-! ### What is added up -/

/-- The lengths as they are measured. -/
def measured (frames : List PacedFrame) : ℕ := (frames.map (·.len)).sum

/-- What the bearer adds to all frames. -/
def bearerOf (frames : List PacedFrame) : ℕ := (frames.map (·.bearerBytes)).sum

/-- The bytes that are sent in the first `t` milliseconds. -/
def bytesBy (t : ℚ) (sent : List Sent) : ℕ := ((sent.filter (·.atMs ≤ t)).map (·.bytes)).sum

/-- The instants of the frames when none is too long. -/
def schedule (rate : ℕ) : ℕ → List PacedFrame → List Sent
  | _, [] => []
  | sent, f :: rest => ⟨dueMs rate (sent + f.len), f.written⟩ :: schedule rate (sent + f.len) rest

lemma bearerOf_append (frames more : List PacedFrame) :
    bearerOf (frames ++ more) = bearerOf frames + bearerOf more := by
  simp [bearerOf]

@[simp] lemma measured_cons (f : PacedFrame) (rest : List PacedFrame) :
    measured (f :: rest) = f.len + measured rest := rfl

@[simp] lemma bearerOf_cons (f : PacedFrame) (rest : List PacedFrame) :
    bearerOf (f :: rest) = f.bearerBytes + bearerOf rest := rfl

lemma bearerBytes_le {f : PacedFrame} {frames : List PacedFrame} (h : f ∈ frames) :
    f.bearerBytes ≤ bearerOf frames :=
  List.single_le_sum (fun _ _ => Nat.zero_le _) _ (List.mem_map_of_mem h)

lemma sendFrom_eq {maxFrameBytes rate sent : ℕ} {frames : List PacedFrame}
    (h : ∀ f ∈ frames, f.written ≤ maxFrameBytes) :
    sendFrom maxFrameBytes rate sent frames = (schedule rate sent frames, .ok ()) := by
  induction frames generalizing sent with
  | nil => rfl
  | cons f rest ih =>
    rw [sendFrom, if_neg (not_lt.2 (h f List.mem_cons_self)),
      ih fun g hg => h g (List.mem_cons_of_mem _ hg)]
    rfl

lemma schedule_eq_append {rate sent : ℕ} {frames : List PacedFrame} {l more : List Sent}
    (h : schedule rate sent frames = l ++ more) : ∃ f₁ f₂, frames = f₁ ++ f₂ ∧
      schedule rate sent f₁ = l ∧ schedule rate (sent + measured f₁) f₂ = more := by
  induction l generalizing sent frames with
  | nil => exact ⟨[], frames, rfl, rfl, h⟩
  | cons s l ih =>
    cases frames with
    | nil => cases h
    | cons f rest =>
      obtain ⟨hs, hrest⟩ := List.cons.inj h
      obtain ⟨f₁, f₂, rfl, h₁, h₂⟩ := ih hrest
      refine ⟨f :: f₁, f₂, rfl, by rw [schedule, h₁, hs], ?_⟩
      rw [measured_cons, ← Nat.add_assoc, h₂]

/-! ### Instants -/

variable {rate : ℕ}

lemma rate_mul_dueMs (hrate : 0 < rate) (total : ℕ) :
    rate * dueMs rate total = 1000 * ((total - pacedBurstBytes : ℕ) : ℚ) := by
  have hne : (rate : ℚ) ≠ 0 := by exact_mod_cast hrate.ne'
  rw [dueMs, ← mul_div_assoc, mul_div_cancel_left₀ _ hne, mul_comm]

lemma dueMs_mono (hrate : 0 < rate) {total more : ℕ} (h : total ≤ more) :
    dueMs rate total ≤ dueMs rate more := by
  have hpos : (0 : ℚ) < rate := by exact_mod_cast hrate
  refine le_of_mul_le_mul_left ?_ hpos
  rw [rate_mul_dueMs hrate, rate_mul_dueMs hrate]
  exact_mod_cast Nat.mul_le_mul_left 1000 (Nat.sub_le_sub_right h _)

lemma dueMs_nonneg (rate total : ℕ) : 0 ≤ dueMs rate total := by
  unfold dueMs
  positivity

lemma atMs_nonneg {sent : ℕ} {frames : List PacedFrame} {s : Sent}
    (h : s ∈ schedule rate sent frames) :    0 ≤ s.atMs := by
  induction frames generalizing sent with
  | nil => cases h
  | cons f rest ih =>
    rcases List.mem_cons.1 h with rfl | hmem
    · exact dueMs_nonneg _ _
    · exact ih hmem

/-- No reading is before the start. -/
lemma le_reading (start : ℚ) {sent : ℕ} {frames : List PacedFrame} {t : ℤ}
    (ht : t ∈ ((schedule rate sent frames).map (callOf start)).map (·.2)) :
    ⌊start⌋ ≤ t ∧ ∃ s ∈ schedule rate sent frames, t = ⌊start + s.atMs⌋ := by
  simp only [List.map_map, List.mem_map, Function.comp_apply, callOf] at ht
  obtain ⟨s, hs, rfl⟩ := ht
  exact ⟨Int.floor_le_floor (le_add_of_nonneg_right (atMs_nonneg hs)), s, hs, rfl⟩

/-- The last reading is the highest. -/
lemma highest_schedule (hrate : 0 < rate) (start : ℚ) (r : ℤ) {sent : ℕ} {frames : List PacedFrame}
    (hne : frames ≠ []) : highest r ((schedule rate sent frames).map (callOf start)) =
      max r ⌊start + dueMs rate (sent + measured frames)⌋ := by
  induction frames generalizing sent r with
  | nil => exact absurd rfl hne
  | cons f rest ih =>
    rw [schedule, List.map_cons, callOf, highest_cons, measured_cons, ← Nat.add_assoc]
    cases rest with
    | nil => rfl
    | cons g rest =>
      have hle : ⌊start + dueMs rate (sent + f.len)⌋ ≤
          ⌊start + dueMs rate (sent + f.len + measured (g :: rest))⌋ :=
        Int.floor_le_floor (add_le_add_right (dueMs_mono hrate (Nat.le_add_right _ _)) _)
      rw [ih _ (List.cons_ne_nil _ _), max_assoc, max_eq_right hle]

/-- A frame of fewer than 2^32 bytes is counted as it is. -/
lemma asked_schedule (start : ℚ) {sent : ℕ} {frames : List PacedFrame}
    (h : ∀ f ∈ frames, f.written < 2 ^ 32) :
    asked ((schedule rate sent frames).map (callOf start)) = measured frames + bearerOf frames := by
  induction frames generalizing sent with
  | nil => rfl
  | cons f rest ih =>
    have hf := h f List.mem_cons_self
    have htokens : (toTokens f.written).toNat = f.written := by
      rw [toTokens, if_pos hf, UInt32.toNat_ofNat_of_lt' hf]
    have hasked (c : UInt32 × ℤ) (cs : TokenBucket.Calls) :
      asked (c :: cs) = c.1.toNat + asked cs := rfl
    rw [schedule, List.map_cons, hasked, ih fun g hg => h g (List.mem_cons_of_mem _ hg),
      callOf, htokens, measured_cons, bearerOf_cons, PacedFrame.written]
    omega

/-- A span of exact milliseconds is less than one longer than the clock's. -/
lemma mul_span_le {x y : ℚ} (rate : ℕ) :
    rate * (y - x) ≤ ((rate * (⌊y⌋ - ⌊x⌋) + rate : ℤ) : ℚ) := by
  have hx := Int.floor_le x
  have hy := (Int.lt_floor_add_one y).le
  have hspan : y - x ≤ ((⌊y⌋ - ⌊x⌋ + 1 : ℤ) : ℚ) := by
    push_cast
    linarith
  calc (rate : ℚ) * (y - x) ≤ rate * ((⌊y⌋ - ⌊x⌋ + 1 : ℤ) : ℚ) :=
        mul_le_mul_of_nonneg_left hspan (Nat.cast_nonneg _)
    _ = _ := by push_cast; ring

/-- What frames in a row have is what the first may have, and what the rate gives until the last. -/
lemma measured_le (hrate : 0 < rate) (sent : ℕ) (f : PacedFrame) (row : List PacedFrame) :
    (1000 * (f.len + measured row : ℕ) : ℚ) ≤ 1000 * (max f.len pacedBurstBytes : ℕ) +
      rate * (dueMs rate (sent + f.len + measured row) - dueMs rate (sent + f.len)) := by
  rw [mul_sub, rate_mul_dueMs hrate, rate_mul_dueMs hrate]
  have hnat : f.len + measured row + (sent + f.len - pacedBurstBytes) ≤
      max f.len pacedBurstBytes + (sent + f.len + measured row - pacedBurstBytes) := by omega
  have hcast : ((f.len + measured row : ℕ) : ℚ) + (sent + f.len - pacedBurstBytes : ℕ) ≤
      (max f.len pacedBurstBytes : ℕ) + (sent + f.len + measured row - pacedBurstBytes : ℕ) := by
    exact_mod_cast hnat
  linarith

lemma bytesBy_eq_zero (hrate : 0 < rate) {t : ℚ} {sent : ℕ} (frames : List PacedFrame)
    (h : t < dueMs rate sent) : bytesBy t (schedule rate sent frames) = 0 := by
  induction frames generalizing sent with
  | nil => rfl
  | cons f rest ih =>
    have hlate : t < dueMs rate (sent + f.len) :=
      h.trans_le (dueMs_mono hrate (Nat.le_add_right _ _))
    rw [schedule, bytesBy, List.filter_cons_of_neg (by simpa using hlate)]
    exact ih hlate

/-- **The budget of the sender.** -/
lemma bytesBy_schedule_le (hrate : 0 < rate) {t : ℚ} {sent : ℕ} (frames : List PacedFrame)
    (hsent : (1000 * sent : ℚ) ≤ 1000 * pacedBurstBytes + rate * t) :
    (1000 * (sent + bytesBy t (schedule rate sent frames) : ℕ) : ℚ) ≤
      1000 * pacedBurstBytes + rate * t + 1000 * bearerOf frames := by
  induction frames generalizing sent with
  | nil => simpa [schedule, bytesBy, bearerOf] using hsent
  | cons f rest ih =>
    by_cases hdue : dueMs rate (sent + f.len) ≤ t
    · have hpaid := rate_mul_dueMs hrate (sent + f.len)
      have hle : rate * dueMs rate (sent + f.len) ≤ rate * t :=
        mul_le_mul_of_nonneg_left hdue (Nat.cast_nonneg _)
      have hnat : sent + f.len ≤ pacedBurstBytes + (sent + f.len - pacedBurstBytes) := by omega
      have hcast : ((sent + f.len : ℕ) : ℚ) ≤
          pacedBurstBytes + (sent + f.len - pacedBurstBytes : ℕ) := by
        exact_mod_cast hnat
      have hrest := @ih (sent + f.len) (by linarith)
      have hbytes : bytesBy t (schedule rate sent (f :: rest)) =
          f.written + bytesBy t (schedule rate (sent + f.len) rest) := by
        rw [schedule, bytesBy, List.filter_cons_of_pos (by simpa using hdue)]
        rfl
      rw [hbytes, bearerOf_cons, PacedFrame.written]
      push_cast at hrest ⊢
      linarith
    · have hlate := not_le.1 hdue
      have hzero : bytesBy t (schedule rate sent (f :: rest)) = 0 := by
        rw [schedule, bytesBy, List.filter_cons_of_neg (by simpa using hlate)]
        exact bytesBy_eq_zero hrate rest hlate
      have hbearer : (0 : ℚ) ≤ 1000 * bearerOf (f :: rest) := by positivity
      rw [hzero, Nat.add_zero]
      linarith

/-! ### The server takes them all -/

lemma accepts_iff (bytesLimit : UInt32) (start : ℚ) (b : TokenBucket) (sent : List Sent) :
    Accepts bytesLimit start b sent ↔ b.Serves (sent.map (callOf start)) := by
  induction sent generalizing b with
  | nil => exact Iff.rfl
  | cons s rest ih =>
    rw [Accepts, List.map_cons, callOf, TokenBucket.Serves]
    refine and_congr ?_ (ih _)
    rw [checkBytes]
    cases (b.tryConsumeNAt (toTokens s.bytes) ⌊start + s.atMs⌋).1 <;> simp

/-- What the sender's reckoning allows is paid for by the clock's, with one millisecond to spare. -/
lemma paid_of_span {R bytes upfront bearer bearers level : ℕ} {x y : ℚ} (hR : rate ≤ R)
    (hxy : x ≤ y) (hbytes : (1000 * bytes : ℚ) ≤ 1000 * upfront + rate * (y - x))
    (hbearer : bearer ≤ bearers)
    (hlevel : 1000 * (upfront + bearers) + rate ≤ level) :
    (1000 * (bytes + bearer) : ℤ) ≤ level + R * (⌊y⌋ - ⌊x⌋) := by
  have hspan := hbytes.trans (add_le_add_right (mul_span_le rate) _)
  have hint : (1000 * bytes : ℤ) ≤ 1000 * upfront + (rate * (⌊y⌋ - ⌊x⌋) + rate) := by
    exact_mod_cast hspan
  have hfaster : (rate * (⌊y⌋ - ⌊x⌋) : ℤ) ≤ R * (⌊y⌋ - ⌊x⌋) :=
    mul_le_mul_of_nonneg_right (by exact_mod_cast hR) (sub_nonneg.2 (Int.floor_le_floor hxy))
  omega

/-- The level that a bucket has once it is refilled at the start. -/
lemma accepts_schedule (hrate : 0 < rate) {b : TokenBucket}
    (hle : rate ≤ b.refillPerSec.toNat) {start : ℚ} (hlast : b.lastRefillMs = ⌊start⌋)
    {frames : List PacedFrame} (bytesLimit : UInt32)
    (hlevel : 1000 * (pacedBurstBytes + bearerOf frames) + rate ≤ b.milliTokens)
    (hholds : b.Holds)
    (hburst : ∀ f ∈ frames, 1000 * (f.len + bearerOf frames) + rate ≤ 1000 * b.capacity.toNat)
    (hclock : ∀ s ∈ schedule rate 0 frames, ⌊start + s.atMs⌋ - ⌊start⌋ < 2 ^ 63) :
    Accepts bytesLimit start b (schedule rate 0 frames) := by
  rw [accepts_iff]
  have hsmall : ∀ f ∈ frames, f.written < 2 ^ 32 := by
    intro f hf
    have hcap := b.capacity.toNat_lt
    have hone := hburst f hf
    have hbearer := bearerBytes_le hf
    rw [PacedFrame.written]
    omega
  have hfloor : ∀ total, ⌊start⌋ ≤ ⌊start + dueMs rate total⌋ := fun total =>
    Int.floor_le_floor (le_add_of_nonneg_right (dueMs_nonneg rate total))
  have hnear : Near b.lastRefillMs ((schedule rate 0 frames).map (callOf start)) := by
    have hrange : ∀ t ∈ b.lastRefillMs :: ((schedule rate 0 frames).map (callOf start)).map (·.2),
        ⌊start⌋ ≤ t ∧ t - ⌊start⌋ < 2 ^ 63 := by
      intro t ht
      rcases List.mem_cons.1 ht with rfl | ht
      · omega
      · obtain ⟨hle, s, hs, rfl⟩ := le_reading start ht
        exact ⟨hle, hclock s hs⟩
    intro t ht t' ht'
    have hup := (hrange t ht).2
    have hlow := (hrange t' ht').1
    omega
  refine serves_of_level ?_ hnear ?_
  · intro done later hcalls
    obtain ⟨l, more, hsplit, rfl, -⟩ := List.map_eq_append_iff.1 hcalls
    obtain ⟨f₁, f₂, rfl, rfl, -⟩ := schedule_eq_append hsplit
    rw [asked_schedule start fun f hf => hsmall f (List.mem_append_left _ hf)]
    by_cases hne : f₁ = []
    · subst hne
      simp [schedule, measured, bearerOf, highest]
    rw [highest_schedule hrate start _ hne, hlast, max_eq_right (hfloor _), Nat.zero_add]
    push_cast
    refine paid_of_span hle (le_add_of_nonneg_right (dueMs_nonneg rate _)) ?_
      (bearerOf_append f₁ f₂ ▸ Nat.le_add_right _ _) hlevel
    have hpaid := rate_mul_dueMs hrate (measured f₁)
    have hnat : measured f₁ ≤ pacedBurstBytes + (measured f₁ - pacedBurstBytes) := by omega
    have hcast : (measured f₁ : ℚ) ≤ pacedBurstBytes + (measured f₁ - pacedBurstBytes : ℕ) := by
      exact_mod_cast hnat
    rw [add_sub_cancel_left]
    linarith
  · intro earlier call row later hcalls
    obtain ⟨l, more, hsplit, hl, -⟩ := List.map_eq_append_iff.1 hcalls
    obtain ⟨l₁, lrow, rfl, rfl, hrow⟩ := List.map_eq_append_iff.1 hl
    obtain ⟨s, l₂, rfl, rfl, rfl⟩ := List.map_eq_cons_iff.1 hrow
    obtain ⟨fs, f₃, rfl, hfs, -⟩ := schedule_eq_append hsplit
    obtain ⟨f₁, frow, rfl, rfl, hfrow⟩ := schedule_eq_append hfs
    cases frow with
    | nil => cases hfrow
    | cons f f₂ =>
      obtain ⟨rfl, rfl⟩ := List.cons.inj hfrow
      have hbefore : ∀ more, highest b.lastRefillMs ((schedule rate 0 f₁).map (callOf start)) ≤
          ⌊start + dueMs rate (0 + measured f₁ + more)⌋ := by
        intro more
        by_cases hne : f₁ = []
        · subst hne
          exact hlast.trans_le (hfloor _)
        · rw [highest_schedule hrate start _ hne, hlast, max_eq_right (hfloor _)]
          exact Int.floor_le_floor (add_le_add_right (dueMs_mono hrate (Nat.le_add_right _ _)) _)
      have hend : highest b.lastRefillMs ((schedule rate 0 f₁).map (callOf start) ++
          (schedule rate (0 + measured f₁) (f :: f₂)).map (callOf start)) =
            ⌊start + dueMs rate (0 + measured f₁ + f.len + measured f₂)⌋ := by
        rw [highest_append, highest_schedule hrate start _ (List.cons_ne_nil _ _), measured_cons,
          Nat.add_assoc _ f.len, max_eq_right (hbefore _)]
      have hfirst : highest b.lastRefillMs ((schedule rate 0 f₁).map (callOf start) ++
          (schedule rate (0 + measured f₁) [f]).map (callOf start)) =
            ⌊start + dueMs rate (0 + measured f₁ + f.len)⌋ := by
        rw [highest_append, highest_schedule hrate start _ (List.cons_ne_nil _ _)]
        exact max_eq_right (hbefore f.len)
      have hasked : asked ((schedule rate (0 + measured f₁) (f :: f₂)).map (callOf start)) =
          f.len + measured f₂ + bearerOf (f :: f₂) :=
        asked_schedule start fun g hg =>
          hsmall g (List.mem_append_left _ (List.mem_append_right _ hg))
      have hbearer : bearerOf (f :: f₂) ≤ bearerOf (f₁ ++ f :: f₂ ++ f₃) := by
        rw [bearerOf_append, bearerOf_append]
        omega
      have hfull : 1000 * (max f.len pacedBurstBytes + bearerOf (f₁ ++ f :: f₂ ++ f₃)) + rate ≤
          1000 * b.capacity.toNat := by
        have hone := hburst f (by simp)
        have hcapacity : b.milliTokens ≤ b.capacity.toNat * 1000 := hholds
        rcases max_cases f.len pacedBurstBytes with ⟨hmax, -⟩ | ⟨hmax, -⟩ <;> rw [hmax] <;> omega
      have hbytes := measured_le hrate (0 + measured f₁) f f₂
      rw [← add_sub_add_left_eq_sub _ _ start] at hbytes
      have hpaid :=
        paid_of_span hle (add_le_add_right (dueMs_mono hrate (Nat.le_add_right _ _)) start) hbytes
        hbearer hfull
      change (1000 * asked ((schedule rate (0 + measured f₁) (f :: f₂)).map (callOf start)) : ℤ) ≤
        _ + _ * (highest _ (_ ++ (schedule rate (0 + measured f₁) (f :: f₂)).map (callOf start)) -
          highest _ (_ ++ (schedule rate (0 + measured f₁) [f]).map (callOf start)))
      rw [hasked, hend, hfirst]
      push_cast at hpaid ⊢
      exact hpaid

/-- A bucket goes on as it would after the refill at the start. -/
lemma accepts_refill (bytesLimit : UInt32) {start : ℚ} {b : TokenBucket} {sent : List Sent}
    (h : ∀ s ∈ sent, 0 ≤ s.atMs) (hlast : b.lastRefillMs ≤ ⌊start⌋)
    (hclock : ∀ s ∈ sent, ⌊start + s.atMs⌋ - b.lastRefillMs < 2 ^ 63) :
    Accepts bytesLimit start (b.refill ⌊start⌋) sent ↔ Accepts bytesLimit start b sent := by
  cases sent with
  | nil => exact Iff.rfl
  | cons s rest =>
    have hle : ⌊start⌋ ≤ ⌊start + s.atMs⌋ :=
      Int.floor_le_floor (le_add_of_nonneg_right (h s List.mem_cons_self))
    have hnext := hclock s List.mem_cons_self
    have hsame (n : UInt32) : (b.refill ⌊start⌋).tryConsumeNAt n ⌊start + s.atMs⌋ =
        b.tryConsumeNAt n ⌊start + s.atMs⌋ := by
      rw [TokenBucket.tryConsumeNAt, TokenBucket.refill_refill ⟨by omega, by omega⟩
        ⟨by omega, by omega⟩ (by omega), max_eq_right hle]
      rfl
    rw [Accepts, Accepts, checkBytes, checkBytes, hsame]

lemma pacedRate_pos (advertised : ℕ) : 0 < pacedRate advertised := by
  unfold pacedRate
  omega

/-- **A paced send fits the budget.**  A bucket of the advertised rate takes all frames when it
holds, at the start, what is sent up front, the bearers and one millisecond of the pace, and has
room for the longest frame beside these, while no reading is further from the bucket's last one than
an `i64` holds; and the bytes sent so far are always within the pace. -/
theorem paced_send_accepted {maxFrameBytes advertised : ℕ} {b : TokenBucket} {start : ℚ}
    {frames : List PacedFrame} (bytesLimit : UInt32) (hadvertised : 32 * 1024 ≤ advertised)
    (hrate : b.refillPerSec.toNat = advertised) (hlast : b.lastRefillMs ≤ ⌊start⌋)
    (hframes : ∀ f ∈ frames, f.written ≤ maxFrameBytes)
    (hlevel : 1000 * (pacedBurstBytes + bearerOf frames) + pacedRate advertised ≤
      (b.refill ⌊start⌋).milliTokens)
    (hburst : ∀ f ∈ frames, 1000 * (f.len + bearerOf frames) + pacedRate advertised ≤
      1000 * b.capacity.toNat)
    (hclock : ∀ s ∈ (sendEnvelopesPaced maxFrameBytes advertised frames).1,
      ⌊start + s.atMs⌋ - b.lastRefillMs < 2 ^ 63) :
    let out := sendEnvelopesPaced maxFrameBytes advertised frames
    out.2 = .ok () ∧ out.1.map (·.bytes) = frames.map (·.written) ∧
      Accepts bytesLimit start b out.1 ∧ ∀ t : ℚ, 0 ≤ t → (bytesBy t out.1 : ℚ) ≤
        pacedBurstBytes + pacedRate advertised * t / 1000 + bearerOf frames := by
  intro out
  have hpos := pacedRate_pos advertised
  have hout : out = (schedule (pacedRate advertised) 0 frames, .ok ()) := sendFrom_eq hframes
  change ∀ s ∈ out.1, _ at hclock
  rw [hout] at hclock ⊢
  refine ⟨rfl, ?_, ?_, fun t ht => ?_⟩
  · clear hframes hlevel hburst hclock hout out
    generalize 0 = sent
    induction frames generalizing sent with
    | nil => rfl
    | cons f rest ih => rw [schedule, List.map_cons, List.map_cons, ih]
  · rw [← accepts_refill bytesLimit (fun s hs => atMs_nonneg hs) hlast hclock]
    have hslower : pacedRate advertised ≤ b.refillPerSec.toNat := by
      unfold pacedRate
      omega
    refine accepts_schedule (b := b.refill ⌊start⌋) hpos hslower (max_eq_right hlast) bytesLimit
      hlevel (TokenBucket.holds_refill _ b) hburst fun s hs => ?_
    have := hclock s hs
    omega
  · have hle := @bytesBy_schedule_le _ hpos t 0 frames (by
      rw [Nat.cast_zero, mul_zero]
      positivity)
    rw [Nat.zero_add] at hle
    have hdiv : (bytesBy t (schedule (pacedRate advertised) 0 frames) : ℚ) ≤
        (1000 * pacedBurstBytes + pacedRate advertised * t + 1000 * bearerOf frames) / 1000 := by
      rw [le_div_iff₀ (by norm_num)]
      linarith
    refine hdiv.trans_eq ?_
    ring

/-- A long frame and a short one a tenth of a millisecond later. -/
def twoFrames : List PacedFrame := [⟨1000000, 60⟩, ⟨60, 60⟩]

theorem paced_send_accepted_twoFrames :
    Accepts 1000000 0 (TokenBucket.newAt 2000000 1000000 0)
      (sendEnvelopesPaced (1024 * 1024) 1000000 twoFrames).1 :=
  (paced_send_accepted 1000000 (by decide) (by decide) (by decide) (by decide) (by decide)
    (by decide) (by decide +kernel)).2.2.1

def behindALongOne : List PacedFrame := [⟨1048400, 100⟩, ⟨990000, 100⟩]

/-- **A millisecond is missing.**  The bucket that holds what is sent up front and the bearers
refuses a frame that is sent before its clock moves; and one that holds a millisecond more, but no
more than that, refuses a frame behind a long one. -/
theorem not_accepted : 
    (¬∀ (maxFrameBytes advertised : ℕ) (b : TokenBucket) (start : ℚ) (frames : List PacedFrame),
      maxFrameBytes ≤ 1024 * 1024 → 32 * 1024 ≤ advertised →
        b.refillPerSec.toNat = advertised → b.Holds →
      b.lastRefillMs ≤ ⌊start⌋ → 2000000 ≤ b.capacity.toNat →
        (∀ f ∈ frames, f.written ≤ maxFrameBytes) →
      1000 * (pacedBurstBytes + bearerOf frames) ≤ (b.refill ⌊start⌋).milliTokens →
      Accepts b.refillPerSec start b (sendEnvelopesPaced maxFrameBytes advertised frames).1) ∧
    ¬∀ (maxFrameBytes advertised : ℕ) (b : TokenBucket) (start : ℚ) (frames : List PacedFrame),
      maxFrameBytes ≤ 1024 * 1024 → 32 * 1024 ≤ advertised →
        b.refillPerSec.toNat = advertised → b.Holds →
      b.lastRefillMs ≤ ⌊start⌋ → 2000000 ≤ b.capacity.toNat →
        (∀ f ∈ frames, f.written ≤ maxFrameBytes) →
      1000 * (pacedBurstBytes + bearerOf frames) + pacedRate advertised ≤
        (b.refill ⌊start⌋).milliTokens →
      Accepts b.refillPerSec start b (sendEnvelopesPaced maxFrameBytes advertised frames).1 := by
  constructor
  · intro h
    have hall := h (1024 * 1024) 1000000 ⟨2000000, 1000000, 1000000000 + 120000, 0⟩ 0 twoFrames
      le_rfl (by decide)
      (by decide) (show _ ≤ _ by decide) (by decide) (by decide) (by decide) (by decide)
    rw [accepts_iff] at hall
    have hcalls : (sendEnvelopesPaced (1024 * 1024) 1000000 twoFrames).1.map (callOf 0) =
        [(1000060, 0), (120, 0)] := by decide +kernel
    rw [hcalls] at hall
    exact absurd hall.2.1 (by decide)
  · intro h
    have hall := h (1024 * 1024) 1666666667 ⟨2000200, 1666666667, 2000200000, 0⟩
      (9516 / 10000) behindALongOne
      le_rfl (by decide) (by decide) (show _ ≤ _ by decide) (by decide +kernel)
        (by decide) (by decide)
      (by decide +kernel)
    rw [accepts_iff] at hall
    have hcalls : (sendEnvelopesPaced (1024 * 1024) 1666666667 behindALongOne).1.map
        (callOf (9516 / 10000)) = [(1048500, 1), (990100, 1)] := by decide +kernel
    rw [hcalls] at hall
    exact absurd hall.2.1 (by decide)

end Locast.Client.Paced

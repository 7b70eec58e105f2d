import Mathlib.Algebra.BigOperators.Group.List.Basic
import Mathlib.Data.Int.Order.Basic
import Mathlib.Tactic.Ring
import Mathlib.Tactic.Linarith

/-!
# The rate limits of a connection (`ws/mod.rs`, `ratelimit/mod.rs`)

A token bucket counts in thousandths of a token, so that a refill credits the elapsed milliseconds
times the rate without rounding.  A clock that steps back credits nothing: what counts is the
highest reading so far.  All this needs readings whose difference an `i64` holds, as those of the
server's clock, which is never negative, do.
-/

namespace Locast.Server

/-! ### The bucket -/

/-- `u64::saturating_add` and `u64::saturating_mul`. -/
def saturate (n : ℕ) : ℕ := min n (2 ^ 64 - 1)

/-- `milliTokens` are the available tokens, times 1000. -/
structure TokenBucket where
  capacity : UInt32
  refillPerSec : UInt32
  milliTokens : ℕ
  lastRefillMs : ℤ
  deriving DecidableEq

namespace TokenBucket

def newAt (capacity refillPerSec : UInt32) (nowMs : ℤ) : TokenBucket where
  capacity := capacity
  refillPerSec := refillPerSec
  milliTokens := capacity.toNat * 1000
  lastRefillMs := nowMs

/-- The refill at the head of `try_consume_n_at`.  The difference of the readings is an `i64`, which
wraps where it does not fit. -/
def refill (nowMs : ℤ) (b : TokenBucket) : TokenBucket :=
  let elapsedMs := (max ((nowMs - b.lastRefillMs).bmod (2 ^ 64)) 0).toNat
  { b with
    milliTokens := min (saturate (b.milliTokens + saturate (elapsedMs * b.refillPerSec.toNat)))
      (b.capacity.toNat * 1000)
    lastRefillMs := max b.lastRefillMs nowMs }

/-- `try_consume_n_at`: whether the bucket has `n` tokens, which it then gives up. -/
def tryConsumeNAt (n : UInt32) (nowMs : ℤ) (b : TokenBucket) : Bool × TokenBucket :=
  let b := b.refill nowMs
  let need := n.toNat * 1000
  if b.milliTokens < need then (false, b)
  else (true, { b with milliTokens := b.milliTokens - need })

/-- Calls, each with what it asks for and the clock's reading. -/
abbrev Calls : Type := List (UInt32 × ℤ)

/-- The bucket after some calls. -/
def after (b : TokenBucket) : Calls → TokenBucket
  | [] => b
  | (n, t) :: rest => (b.tryConsumeNAt n t).2.after rest

/-- The tokens that some calls were given. -/
def granted (b : TokenBucket) : Calls → ℕ
  | [] => 0
  | (n, t) :: rest =>
    let out := b.tryConsumeNAt n t
    (if out.1 then n.toNat else 0) + out.2.granted rest

/-- Every call was refused or asked for nothing. -/
def Idles (b : TokenBucket) : Calls → Prop
  | [] => True
  | (n, t) :: rest =>
    let out := b.tryConsumeNAt n t
    (out.1 = false ∨ n = 0) ∧ out.2.Idles rest

/-- Every call was given what it asked for. -/
def Serves (b : TokenBucket) : Calls → Prop
  | [] => True
  | (n, t) :: rest =>
    let out := b.tryConsumeNAt n t
    out.1 = true ∧ out.2.Serves rest

end TokenBucket

/-- The highest reading of the clock, from a first one on. -/
def highest (start : ℤ) (calls : TokenBucket.Calls) : ℤ := (calls.map (·.2)).foldl max start

/-- A number that an `i64` holds. -/
def Fits (d : ℤ) : Prop := -2 ^ 63 ≤ d ∧ d < 2 ^ 63

/-- An `i64` holds the difference of any two readings, the first one among them. -/
def Near (start : ℤ) (calls : TokenBucket.Calls) : Prop :=
  ∀ t ∈ start :: calls.map (·.2), ∀ t' ∈ start :: calls.map (·.2), t - t' < 2 ^ 63

/-- What some calls ask for. -/
def asked (calls : TokenBucket.Calls) : ℕ := (calls.map (·.1.toNat)).sum

/-- **The sustained rate after a burst**: any calls in a row ask for at most the capacity, and what
the rate gives between the first and the last of them. -/
def Sustained (capacity refillPerSec : UInt32) (start : ℤ) (calls : TokenBucket.Calls) : Prop :=
  ∀ earlier call row later, calls = earlier ++ call :: row ++ later →
    (1000 * asked (call :: row) : ℤ) ≤ 1000 * capacity.toNat +
      refillPerSec.toNat * (highest start (earlier ++ call :: row) - highest start
        (earlier ++ [call]))

/-! ### Readings -/

lemma highest_cons (start t : ℤ) (n : UInt32) (calls : TokenBucket.Calls) :
    highest start ((n, t) :: calls) = highest (max start t) calls := rfl

lemma highest_append (start : ℤ) (calls more : TokenBucket.Calls) :
    highest start (calls ++ more) = highest (highest start calls) more := by
  simp [highest]

lemma le_highest (start : ℤ) (calls : TokenBucket.Calls) : start ≤ highest start calls := by
  induction calls generalizing start with
  | nil => exact le_rfl
  | cons call rest ih => exact (le_max_left _ _).trans (ih (max start call.2))

lemma highest_mem (start : ℤ) (calls : TokenBucket.Calls) :
    highest start calls ∈ start :: calls.map (·.2) := by
  induction calls generalizing start with
  | nil => exact List.mem_cons_self
  | cons call rest ih =>
    obtain ⟨n, t⟩ := call
    rw [highest_cons, List.map_cons]
    rcases List.mem_cons.1 (ih (max start t)) with h | h
    · rw [h]
      rcases max_choice start t with hm | hm <;> simp [hm]
    · exact List.mem_cons_of_mem _ (List.mem_cons_of_mem _ h)

namespace Near

variable {start : ℤ} {calls more : TokenBucket.Calls}

lemma mono {start' : ℤ} (h : Near start calls)
    (hsub : start' :: more.map (·.2) ⊆ start :: calls.map (·.2)) : Near start' more :=
  fun t ht t' ht' => h t (hsub ht) t' (hsub ht')

/-- The later readings, from the highest one before them on. -/
lemma right (h : Near start (calls ++ more)) : Near (highest start calls) more :=
  h.mono (List.cons_subset.2 ⟨by
    rcases List.mem_cons.1 (highest_mem start calls) with heq | hmem
    · simp [heq]
    · simp only [List.map_append, List.mem_cons, List.mem_append]
      exact .inr (.inl hmem), fun t ht => by
    simp only [List.map_append, List.mem_cons, List.mem_append]
    exact .inr (.inr ht)⟩)

lemma tail {n : UInt32} {t : ℤ} (h : Near start ((n, t) :: calls)) : Near (max start t) calls :=
  right (show Near start ([(n, t)] ++ calls) from h)

/-- A reading and the one before. -/
lemma head {n : UInt32} {t : ℤ} (h : Near start ((n, t) :: calls)) : Fits (t - start) := by
  have hup := h t (by simp) start (by simp)
  have hdown := h start (by simp) t (by simp)
  constructor <;> omega

/-- The highest reading and the one before. -/
lemma highest {n : UInt32} {t : ℤ} (h : Near start ((n, t) :: calls)) :
    Fits (highest start ((n, t) :: calls) - start) ∧
      t ≤ Server.highest start ((n, t) :: calls) := by
  have hup := h _ (highest_mem start ((n, t) :: calls)) start List.mem_cons_self
  have hle := le_highest start ((n, t) :: calls)
  have hle' := le_highest (max start t) calls
  rw [highest_cons] at hup hle ⊢
  refine ⟨⟨?_, ?_⟩, ?_⟩ <;> omega

end Near

/-! ### What a call does -/

namespace TokenBucket

variable {b : TokenBucket} {calls : Calls}

/-- A bucket as it is between calls. -/
def Holds (b : TokenBucket) : Prop := b.milliTokens ≤ b.capacity.toNat * 1000

lemma holds_newAt (capacity refillPerSec : UInt32) (nowMs : ℤ) :
    (newAt capacity refillPerSec nowMs).Holds := le_rfl

/-- **A refill** credits the time since the highest reading, up to the capacity. -/
lemma refill_milliTokens {nowMs : ℤ} {b : TokenBucket}
    (h : Fits (nowMs - b.lastRefillMs)) :
    ((b.refill nowMs).milliTokens : ℤ) = min (b.milliTokens + b.refillPerSec.toNat *
      (max b.lastRefillMs nowMs - b.lastRefillMs)) (b.capacity.toNat * 1000) := by
  have hcap : b.capacity.toNat < 2 ^ 32 := b.capacity.toNat_lt
  have helapsed : ((max ((nowMs - b.lastRefillMs).bmod (2 ^ 64)) 0).toNat : ℤ) =
      max b.lastRefillMs nowMs - b.lastRefillMs := by
    obtain ⟨hlo, hhi⟩ := h
    rw [Int.bmod_eq_of_le_mul_two (by omega) (by omega)]
    omega
  have hsat (x : ℕ) : min (saturate (b.milliTokens + saturate x)) (b.capacity.toNat * 1000) =
      min (b.milliTokens + x) (b.capacity.toNat * 1000) := by
    unfold saturate
    omega
  simp only [refill]
  rw [hsat, Nat.mul_comm, Nat.cast_min, Nat.cast_add, Nat.cast_mul, helapsed, Nat.cast_mul]
  rfl

@[simp] lemma refill_lastRefillMs (nowMs : ℤ) (b : TokenBucket) :
    (b.refill nowMs).lastRefillMs = max b.lastRefillMs nowMs := rfl

@[simp] lemma refill_capacity (nowMs : ℤ) (b : TokenBucket) :
    (b.refill nowMs).capacity = b.capacity := rfl

@[simp] lemma refill_refillPerSec (nowMs : ℤ) (b : TokenBucket) :
    (b.refill nowMs).refillPerSec = b.refillPerSec := rfl

lemma holds_refill (nowMs : ℤ) (b : TokenBucket) : (b.refill nowMs).Holds := min_le_right _ _

/-- Two refills in a row are one at the higher reading. -/
lemma refill_refill {b : TokenBucket} {t t' : ℤ} (h : Fits (t - b.lastRefillMs))
    (h' : Fits (t' - b.lastRefillMs)) (hback : -2 ^ 63 ≤ t' - t) :
    (b.refill t).refill t' = b.refill (max t t') := by
  have hm : (((b.refill t).refill t').milliTokens : ℤ) = (b.refill (max t t')).milliTokens := by
    have hrate : (0 : ℤ) ≤ b.refillPerSec.toNat := Int.natCast_nonneg _
    have hsplit : (b.refillPerSec.toNat : ℤ) * (max b.lastRefillMs (max t t') - b.lastRefillMs) =
        b.refillPerSec.toNat * (max b.lastRefillMs t - b.lastRefillMs) +
          b.refillPerSec.toNat * (max (max b.lastRefillMs t) t' - max b.lastRefillMs t) := by
      rw [← max_assoc]
      ring
    have hnonneg : (0 : ℤ) ≤ b.refillPerSec.toNat *
        (max (max b.lastRefillMs t) t' - max b.lastRefillMs t) :=
      mul_nonneg hrate (by omega)
    have hmax : Fits (max t t' - b.lastRefillMs) := by
      rcases max_choice t t' with hc | hc <;> rw [hc]
      exacts [h, h']
    have hsecond : Fits (t' - (b.refill t).lastRefillMs) := by
      unfold Fits at h h' ⊢
      rw [refill_lastRefillMs]
      omega
    rw [refill_milliTokens hsecond, refill_milliTokens h, refill_milliTokens hmax,
      refill_capacity, refill_refillPerSec, refill_lastRefillMs, hsplit]
    omega
  have hm' : ((b.refill t).refill t').milliTokens = (b.refill (max t t')).milliTokens := by
    exact_mod_cast hm
  have hlast : ((b.refill t).refill t').lastRefillMs = (b.refill (max t t')).lastRefillMs := by
    simp [max_assoc]
  calc (b.refill t).refill t'
      = { b with
          milliTokens := ((b.refill t).refill t').milliTokens
          lastRefillMs := ((b.refill t).refill t').lastRefillMs } := rfl
    _ = b.refill (max t t') := by rw [hm', hlast]; rfl

/-- A call is refused, or takes what it asks for. -/
lemma tryConsumeNAt_cases (n : UInt32) (nowMs : ℤ) (b : TokenBucket) :
    ((b.refill nowMs).milliTokens < n.toNat * 1000 ∧
      b.tryConsumeNAt n nowMs = (false, b.refill nowMs)) ∨
    (n.toNat * 1000 ≤ (b.refill nowMs).milliTokens ∧ b.tryConsumeNAt n nowMs =
      (true, { b.refill nowMs with
        milliTokens := (b.refill nowMs).milliTokens - n.toNat * 1000 })) := by
  by_cases h : (b.refill nowMs).milliTokens < n.toNat * 1000
  · exact .inl ⟨h, if_pos h⟩
  · exact .inr ⟨not_lt.1 h, if_neg h⟩

/-- What a call leaves of the bucket. -/
lemma tryConsumeNAt_spec (n : UInt32) (nowMs : ℤ) (b : TokenBucket) :
    let out := b.tryConsumeNAt n nowMs
    out.2.capacity = b.capacity ∧ out.2.refillPerSec = b.refillPerSec ∧
      out.2.lastRefillMs = max b.lastRefillMs nowMs ∧
      out.2.milliTokens + (if out.1 then n.toNat else 0) * 1000 = (b.refill nowMs).milliTokens := by
  rcases b.tryConsumeNAt_cases n nowMs with ⟨-, h⟩ | ⟨hle, h⟩
  · simp [h]
  · simp only [h, refill_capacity, refill_refillPerSec, refill_lastRefillMs, if_true, true_and]
    omega

lemma Holds.tryConsumeNAt (n : UInt32) (nowMs : ℤ) (b : TokenBucket) :
    (b.tryConsumeNAt n nowMs).2.Holds := by
  obtain ⟨hcap, -, -, hm⟩ := b.tryConsumeNAt_spec n nowMs
  have := holds_refill nowMs b
  unfold Holds at this ⊢
  rw [hcap]
  rw [refill_capacity] at this
  omega

/-- A refill at a reading that is no news. -/
lemma refill_self (h : b.Holds) : b.refill b.lastRefillMs = b := by
  have hm : ((b.refill b.lastRefillMs).milliTokens : ℤ) = b.milliTokens := by
    have : (b.milliTokens : ℤ) ≤ b.capacity.toNat * 1000 := by exact_mod_cast h
    rw [refill_milliTokens ⟨by omega, by omega⟩, max_self, sub_self, mul_zero, add_zero]
    exact min_eq_left this
  have hm' : (b.refill b.lastRefillMs).milliTokens = b.milliTokens := by exact_mod_cast hm
  calc b.refill b.lastRefillMs
      = { b with
          milliTokens := (b.refill b.lastRefillMs).milliTokens
          lastRefillMs := max b.lastRefillMs b.lastRefillMs } := rfl
    _ = b := by rw [hm', max_self]

/-! ### Runs -/

/-- The configuration stays, and the reference point is the highest reading. -/
lemma after_config (b : TokenBucket) (calls : Calls) :
    (b.after calls).capacity = b.capacity ∧ (b.after calls).refillPerSec = b.refillPerSec ∧
      (b.after calls).lastRefillMs = highest b.lastRefillMs calls := by
  induction calls generalizing b with
  | nil => exact ⟨rfl, rfl, rfl⟩
  | cons call rest ih =>
    obtain ⟨n, t⟩ := call
    obtain ⟨hcap, hrate, hlast, -⟩ := b.tryConsumeNAt_spec n t
    obtain ⟨h₁, h₂, h₃⟩ := ih (b.tryConsumeNAt n t).2
    exact ⟨h₁.trans hcap, h₂.trans hrate, h₃.trans (by rw [hlast, highest_cons])⟩

lemma Holds.after (h : b.Holds) (calls : Calls) : (b.after calls).Holds := by
  induction calls generalizing b with
  | nil => exact h
  | cons call rest ih => exact ih (.tryConsumeNAt call.1 call.2 b)

/-- What is given is in the bucket before, or credited meanwhile. -/
lemma granted_le {b : TokenBucket} {calls : Calls} (h : Near b.lastRefillMs calls) :
    (1000 * b.granted calls + (b.after calls).milliTokens : ℤ) ≤ b.milliTokens +
      b.refillPerSec.toNat * (highest b.lastRefillMs calls - b.lastRefillMs) := by
  induction calls generalizing b with
  | nil => simp [granted, after, highest]
  | cons call rest ih =>
    obtain ⟨n, t⟩ := call
    obtain ⟨-, hrate, hlast, hm⟩ := b.tryConsumeNAt_spec n t
    have hih := @ih (b.tryConsumeNAt n t).2 (hlast ▸ h.tail)
    have hrefill := refill_milliTokens h.head
    rw [hrate, hlast, ← highest_cons b.lastRefillMs t n] at hih
    simp only [granted, after]
    have hsplit : (b.refillPerSec.toNat : ℤ) *
        (highest b.lastRefillMs ((n, t) :: rest) - b.lastRefillMs) =
        b.refillPerSec.toNat * (highest b.lastRefillMs ((n, t) :: rest) - max b.lastRefillMs t) +
          b.refillPerSec.toNat * (max b.lastRefillMs t - b.lastRefillMs) := by ring
    rw [hsplit]
    omega

/-- **The bound.** Calls in a row are given at most the capacity, and what the rate credits between
the first and the last of them. -/
lemma granted_row_le {b : TokenBucket} {n : UInt32} {t : ℤ} {rest : Calls}
    (h : Near b.lastRefillMs ((n, t) :: rest)) :
    (1000 * b.granted ((n, t) :: rest) : ℤ) ≤ 1000 * b.capacity.toNat + b.refillPerSec.toNat *
      (highest b.lastRefillMs ((n, t) :: rest) - max b.lastRefillMs t) := by
  obtain ⟨-, hrate, hlast, hm⟩ := b.tryConsumeNAt_spec n t
  have hnear : Near (b.tryConsumeNAt n t).2.lastRefillMs rest := hlast ▸ h.tail
  have hrest := granted_le hnear
  have hfull : (b.refill t).milliTokens ≤ b.capacity.toNat * 1000 := holds_refill t b
  rw [hrate, hlast, ← highest_cons b.lastRefillMs t n] at hrest
  simp only [granted]
  omega

/-- **Nothing is lost to rounding.** Calls that take nothing leave what one refill leaves. -/
lemma after_idle (h : b.Holds) {calls : Calls} (hnear : Near b.lastRefillMs calls)
    (hidle : b.Idles calls) :
    b.after calls = b.refill (highest b.lastRefillMs calls) := by
  induction calls generalizing b with
  | nil => exact (refill_self h).symm
  | cons call rest ih =>
    obtain ⟨n, t⟩ := call
    obtain ⟨hout, hrest⟩ := hidle
    have hrefill : (b.tryConsumeNAt n t).2 = b.refill t := by
      rcases b.tryConsumeNAt_cases n t with ⟨-, hc⟩ | ⟨-, hc⟩
      · rw [hc]
      · rw [hc] at hout ⊢
        obtain rfl : n = 0 := by simpa using hout
        rfl
    rw [hrefill] at hrest
    obtain ⟨hfits, hle⟩ := hnear.highest
    rw [after, hrefill, ih (holds_refill t b) hnear.tail hrest, refill_lastRefillMs,
      ← highest_cons b.lastRefillMs t n, refill_refill hnear.head hfits (by omega),
        max_eq_right hle]

/-! ### A sender that keeps to the rate -/

/-- What is left in a bucket that has served some calls: it was full at one of them. -/
def Left (b : TokenBucket) (start : ℤ) (done : Calls) : Prop :=
  done = [] ∧ b.milliTokens = b.capacity.toNat * 1000 ∨
    ∃ earlier call row, done = earlier ++ call :: row ∧
      (b.milliTokens + 1000 * asked (call :: row) : ℤ) = 1000 * b.capacity.toNat +
        b.refillPerSec.toNat * (highest start done - highest start (earlier ++ [call]))

lemma asked_append (calls more : Calls) : asked (calls ++ more) = asked calls + asked more := by
  simp [asked]

lemma asked_singleton (n : UInt32) (t : ℤ) : asked [(n, t)] = n.toNat := by simp [asked]

/-- One more call of such a sender is served. -/
lemma Left.serve {start : ℤ} {done : Calls} (h : b.Left start done)
    (hlast : b.lastRefillMs = highest start done) {n : UInt32} {t : ℤ} {later : Calls}
    (hnear : Near start (done ++ (n, t) :: later))
    (hs : Sustained b.capacity b.refillPerSec start (done ++ (n, t) :: later)) :
    (b.tryConsumeNAt n t).1 = true ∧ (b.tryConsumeNAt n t).2.Left start (done ++ [(n, t)]) := by
  have hrefill := refill_milliTokens (hlast ▸ hnear.right.head)
  have hhigh : highest start (done ++ [(n, t)]) = max b.lastRefillMs t := by
    rw [highest_append, hlast]
    rfl
  -- full at this call
  have hself := hs done (n, t) [] later (by simp)
  simp only [sub_self, mul_zero, add_zero] at hself
  have hrow : asked [(n, t)] = n.toNat := asked_singleton n t
  by_cases hfull : (b.refill t).milliTokens = b.capacity.toNat * 1000
  · rcases b.tryConsumeNAt_cases n t with ⟨hlt, -⟩ | ⟨hle, hc⟩
    · omega
    · rw [hc]
      refine ⟨rfl, .inr ⟨done, (n, t), [], rfl, ?_⟩⟩
      rw [hrow, sub_self, mul_zero]
      dsimp only [refill_capacity]
      omega
  -- not full: every token since it was full last is accounted for
  · rcases h with ⟨rfl, hm⟩ | ⟨earlier, call, row, rfl, hm⟩
    · refine absurd ?_ hfull
      have hnonneg : (0 : ℤ) ≤ b.refillPerSec.toNat * (max b.lastRefillMs t - b.lastRefillMs) :=
        mul_nonneg (Int.natCast_nonneg _) (by omega)
      omega
    have hblock := hs earlier call (row ++ [(n, t)]) later (by simp)
    have hasked : asked (call :: (row ++ [(n, t)])) = asked (call :: row) + n.toNat := by
      rw [← List.cons_append, asked_append, hrow]
    have heq : earlier ++ call :: row ++ [(n, t)] = earlier ++ call :: (row ++ [(n, t)]) := by simp
    rw [← heq, hasked, hhigh] at hblock
    have hsplit : (b.refillPerSec.toNat : ℤ) *
        (max b.lastRefillMs t - highest start (earlier ++ [call])) =
        b.refillPerSec.toNat * (max b.lastRefillMs t - b.lastRefillMs) +
          b.refillPerSec.toNat * (b.lastRefillMs - highest start (earlier ++ [call])) := by ring
    rw [← hlast] at hm
    rcases b.tryConsumeNAt_cases n t with ⟨hlt, -⟩ | ⟨hle, hc⟩
    · push_cast at hblock
      omega
    · rw [hc]
      refine ⟨rfl, .inr ⟨earlier, call, row ++ [(n, t)], by simp, ?_⟩⟩
      rw [hasked, hhigh]
      dsimp only [refill_capacity, refill_refillPerSec]
      push_cast
      omega

lemma Left.serves {start : ℤ} {done calls : Calls} (h : b.Left start done)
    (hlast : b.lastRefillMs = highest start done) (hnear : Near start (done ++ calls))
    (hs : Sustained b.capacity b.refillPerSec start (done ++ calls)) : b.Serves calls := by
  induction calls generalizing b done with
  | nil => trivial
  | cons call rest ih =>
    obtain ⟨n, t⟩ := call
    obtain ⟨hok, hleft⟩ := h.serve hlast hnear hs
    obtain ⟨hcap, hrate, hlast', -⟩ := b.tryConsumeNAt_spec n t
    refine ⟨hok, ih hleft ?_ (by simpa using hnear) ?_⟩
    · rw [hlast', hlast, highest_append]
      rfl
    · rw [hcap, hrate]
      simpa using hs

end TokenBucket

open TokenBucket

/-- **Token bucket conformance.** While the readings are no further apart than an `i64` holds: over
any calls in a row the bucket gives at most its capacity and what the rate credits between the
highest readings before and after, or from the first of them on; it never holds more than its
capacity; calls that take nothing leave what one call at the highest reading leaves; and a sender
that keeps to the rate after its burst is never refused. -/
theorem tokenBucket_conforms {capacity refillPerSec : UInt32} {start : ℤ} {earlier calls : Calls}
    (hnear : Near start (earlier ++ calls)) :
    let b := (newAt capacity refillPerSec start).after earlier
    (1000 * b.granted calls : ℤ) ≤ 1000 * capacity.toNat + refillPerSec.toNat *
        (highest start (earlier ++ calls) - highest start earlier) ∧
      (∀ call row, calls = call :: row → (1000 * b.granted calls : ℤ) ≤ 1000 * capacity.toNat +
        refillPerSec.toNat *
          (highest start (earlier ++ calls) - highest start (earlier ++ [call]))) ∧
      b.milliTokens ≤ capacity.toNat * 1000 ∧
      (b.Idles calls → b.after calls =
        (b.tryConsumeNAt 0 (highest b.lastRefillMs calls)).2) ∧
      (Sustained capacity refillPerSec start calls →
        (newAt capacity refillPerSec start).Serves calls) := by
  intro b
  obtain ⟨hcap, hrate, hlast⟩ := (newAt capacity refillPerSec start).after_config earlier
  have hholds : b.Holds := (holds_newAt capacity refillPerSec start).after earlier
  have hlater : Near b.lastRefillMs calls := hlast ▸ hnear.right
  have hown : Near start calls := hnear.mono (by simp)
  refine ⟨?_, ?_, ?_, fun hidle => ?_, fun hs => ?_⟩
  · have hle := granted_le hlater
    have hb : (b.milliTokens : ℤ) ≤ capacity.toNat * 1000 := by
      have : b.milliTokens ≤ b.capacity.toNat * 1000 := hholds
      rw [hcap] at this
      exact_mod_cast this
    rw [hrate, hlast] at hle
    rw [highest_append]
    change (1000 * b.granted calls + (b.after calls).milliTokens : ℤ) ≤ b.milliTokens +
      refillPerSec.toNat * (highest (highest start earlier) calls - highest start earlier) at hle
    omega
  · rintro ⟨n, t⟩ row rfl
    have hle := granted_row_le hlater
    rw [hcap, hrate, hlast] at hle
    rw [highest_append, highest_append]
    exact hle
  · have : b.milliTokens ≤ b.capacity.toNat * 1000 := hholds
    rwa [hcap] at this
  · rw [after_idle hholds hlater hidle]
    rfl
  · exact Left.serves (.inl ⟨rfl, rfl⟩) rfl hown hs

namespace Clock

/-- A burst that empties the bucket. -/
def burst : Calls := [(2, 5000)]

/-- Two refused calls, one while the clock is behind. -/
def refused : Calls := [(1, 4000), (1, 5400)]

lemma near : Near 5000 (burst ++ refused) := by
  unfold Near burst refused
  decide

end Clock

theorem tokenBucket_conforms_refused :
    let b := (newAt 2 1 5000).after Clock.burst
    b.granted Clock.refused = 0 ∧ (b.after Clock.refused).milliTokens = 400 ∧
      (1000 * b.granted Clock.refused : ℤ) ≤ 1000 * 2 +
        1 * (highest 5000 (Clock.burst ++ Clock.refused) - highest 5000 Clock.burst) ∧
      b.after Clock.refused = (b.tryConsumeNAt 0 5400).2 := by
  obtain ⟨hle, -, -, hidle, -⟩ :=
    @tokenBucket_conforms 2 1 _ _ _ Clock.near
  exact ⟨by decide, by decide, hle, hidle ⟨.inl (by decide), .inl (by decide), trivial⟩⟩

/-- A reading `2 ^ 63 + 1` before the highest one wraps to a long time that has passed: the bucket
gives a second token where the rate has credited none. -/
theorem not_tokenBucket_conforms :
    let b := newAt 1 1 (2 ^ 63 - 1)
    let calls : Calls := [(1, 2 ^ 63 - 1), (1, -2)]
    highest (2 ^ 63 - 1) calls = 2 ^ 63 - 1 ∧ b.granted calls = 2 ∧
      ¬(1000 * b.granted calls : ℤ) ≤ 1000 * 1 + 1 *
        (highest (2 ^ 63 - 1) calls - highest (2 ^ 63 - 1) []) := by
  decide

end Locast.Server

import Mathlib.Data.Nat.Sqrt
import Mathlib.Data.List.Sort
import Mathlib.Algebra.BigOperators.Group.List.Basic
import Mathlib.Algebra.Order.BigOperators.Group.List
import Mathlib.Data.Rat.Floor
import Mathlib.Tactic.Linarith
import Mathlib.Tactic.Ring

/-!
# Clock skew (`room/skew.rs`)

A cycle of samples is reduced to the median of their offsets and to the deviation from it.  All
numbers are integers of the machine: where one is out of its range there is no result.
-/

namespace Locast.Client.Skew

/-! ### Numbers -/

/-- A number that an `i64` holds. -/
def IsI64 (x : ℤ) : Prop := -2 ^ 63 ≤ x ∧ x < 2 ^ 63

instance (x : ℤ) : Decidable (IsI64 x) := inferInstanceAs (Decidable (_ ∧ _))

/-- `i64::MAX`. -/
def i64Max : ℕ := 2 ^ 63 - 1

def checkedI64 (x : ℤ) : Option ℤ := if IsI64 x then some x else none

/-- A sum of squares, in an `i128`. -/
def checkedI128 (n : ℕ) : Option ℕ := if n < 2 ^ 127 then some n else none

def checkedU128 (n : ℕ) : Option ℕ := if n < 2 ^ 128 then some n else none

def checkedU32 (n : ℕ) : Option ℕ := if n < 2 ^ 32 then some n else none

def checkedDiv (a b : ℕ) : Option ℕ := if b = 0 then none else some (a / b)

lemma checkedI64_eq_some {x y : ℤ} : checkedI64 x = some y ↔ IsI64 x ∧ x = y := by
  simp only [checkedI64, Option.ite_none_right_eq_some, Option.some.injEq]

lemma checkedU32_eq_some {n m : ℕ} : checkedU32 n = some m ↔ n < 2 ^ 32 ∧ n = m := by
  simp only [checkedU32, Option.ite_none_right_eq_some, Option.some.injEq]

lemma checkedI128_eq_some {n m : ℕ} : checkedI128 n = some m ↔ n < 2 ^ 127 ∧ n = m := by
  simp only [checkedI128, Option.ite_none_right_eq_some, Option.some.injEq]

/-! ### The integer square root -/

/-- The loop of `isqrt`. -/
def isqrtLoop (n x y : ℕ) : Option ℕ :=
  if y < x then (checkedDiv n y).bind fun q => (checkedU128 (y + q)).bind fun s =>
    isqrtLoop n y (s / 2)
  else some x
termination_by x

def isqrt (n : ℕ) : Option ℕ := if n = 0 then some 0 else isqrtLoop n n ((n + 1) / 2)

/-! ### Samples -/

/-- The three stamps of an exchange that the reducer reads. -/
structure SkewSample where
  t0LocalMs : ℤ
  t3LocalMs : ℤ
  serverTsMs : ℤ
  deriving DecidableEq

structure SkewMeasurement where
  skewMs : Option ℤ
  jitterMs : Option ℕ
  samplesUsed : ℕ
  samplesRejected : ℕ
  deriving DecidableEq

/-- `MAX_RTT_MS`. -/
def maxRttMs : ℤ := 500

/-- The body of the loop over the samples: what was accepted, and how many were not. -/
def acceptSample (acc : List ℤ × ℕ) (s : SkewSample) : Option (List ℤ × ℕ) :=
  (checkedI64 (s.t3LocalMs - s.t0LocalMs)).bind fun rtt =>
    if !(0 ≤ rtt && rtt ≤ maxRttMs) then
      (checkedU32 (acc.2 + 1)).map fun rejected => (acc.1, rejected)
    else
      (checkedI64 (s.t0LocalMs + s.t3LocalMs)).bind fun sum =>
        (checkedI64 (s.serverTsMs - sum.tdiv 2)).map fun offset => (acc.1 ++ [offset], acc.2)

/-- The median; a division rounds towards zero. -/
def median (values : List ℤ) : Option ℤ :=
  let v := values.mergeSort (· ≤ ·)
  let mid := v.length / 2
  if v.length % 2 = 1 then v[mid]?
  else v[mid - 1]?.bind fun a => v[mid]?.bind fun b => (checkedI64 (a + b)).map (·.tdiv 2)

/-- A square more. -/
def addSquare (mean : ℤ) (sumSq : ℕ) (v : ℤ) : Option ℕ :=
  (checkedI64 (v - mean)).bind fun d =>
    (checkedI128 (d.natAbs * d.natAbs)).bind fun sq => checkedI128 (sumSq + sq)

def stddev (values : List ℤ) (mean : ℤ) : Option ℕ :=
  if values.length ≤ 1 then some 0
  else (values.foldlM (addSquare mean) 0).bind fun sumSq =>
    let variance := sumSq / values.length
    if i64Max < variance then some i64Max else isqrt variance

/-- `compute_skew_jitter`. -/
def computeSkewJitter (samples : List SkewSample) : Option SkewMeasurement :=
  if samples.isEmpty then some ⟨none, none, 0, 0⟩
  else (samples.foldlM acceptSample ([], 0)).bind fun (accepted, rejected) =>
    if accepted.isEmpty then some ⟨none, none, 0, rejected⟩
    else (median accepted).bind fun skewMs =>
      if 2 ≤ accepted.length then
        (stddev accepted skewMs).map fun jitterMs =>
          ⟨some skewMs, some jitterMs, accepted.length % 2 ^ 32, rejected⟩
      else some ⟨some skewMs, none, accepted.length % 2 ^ 32, rejected⟩

/-! ### The loop is the square root -/

/-- The mean of a number and its quotient is not below the root. -/
lemma lt_mean_succ_sq {n x : ℕ} (hx : 0 < x) :
    n < ((x + n / x) / 2 + 1) * ((x + n / x) / 2 + 1) := by
  obtain ⟨q, hq⟩ : ∃ q, q = n / x := ⟨_, rfl⟩
  have hn : n < x * (q + 1) := hq ▸ Nat.lt_mul_div_succ n hx
  have hm : x + (q + 1) ≤ 2 * ((x + q) / 2 + 1) := by omega
  have hsq : 4 * x * (q + 1) ≤ (x + (q + 1)) ^ 2 := four_mul_le_sq_add x (q + 1)
  have hmono := Nat.pow_le_pow_left hm 2
  rw [← hq]
  nlinarith

/-- From a number not below the root, the loop ends with the root. -/
lemma isqrtLoop_eq {n x y : ℕ} (hx : 0 < x) (hle : x ≤ n) (hn : n < 2 ^ 127)
    (hy : y = (x + n / x) / 2) (hup : n < (x + 1) * (x + 1)) : isqrtLoop n x y = some n.sqrt := by
  induction x using Nat.strong_induction_on generalizing y with
  | _ x ih =>
    have hone : 1 ≤ n / x := (Nat.one_le_div_iff hx).2 hle
    have hpos : 0 < y := by omega
    rw [isqrtLoop]
    by_cases hlt : y < x
    · have hsmall : n / y ≤ n := Nat.div_le_self n y
      rw [if_pos hlt, checkedDiv, if_neg hpos.ne', Option.bind_some, checkedU128, if_pos (by omega),
        Option.bind_some]
      exact ih y hlt hpos (hlt.le.trans hle) rfl (hy ▸ lt_mean_succ_sq hx)
    · rw [if_neg hlt]
      have hquot : x ≤ n / x := by omega
      have hsq : x * x ≤ n := (Nat.le_div_iff_mul_le hx).1 hquot
      rw [Nat.eq_sqrt.2 ⟨hsq, hup⟩]

/-- **The loop ends, with the square root.** -/
lemma isqrt_eq {n : ℕ} (hn : n < 2 ^ 127) : isqrt n = some n.sqrt := by
  rw [isqrt]
  split_ifs with hzero
  · rw [hzero, Nat.sqrt_zero]
  · have hpos : 0 < n := Nat.pos_of_ne_zero hzero
    exact isqrtLoop_eq hpos le_rfl hn (by rw [Nat.div_self hpos]) (by nlinarith)

/-! ### The samples that are used -/

/-- The round trip is not negative and not too long. -/
def inTime (s : SkewSample) : Bool :=
  0 ≤ s.t3LocalMs - s.t0LocalMs && s.t3LocalMs - s.t0LocalMs ≤ maxRttMs

/-- Server minus local time at the middle of the round trip. -/
def offset (s : SkewSample) : ℤ := s.serverTsMs - (s.t0LocalMs + s.t3LocalMs).tdiv 2

def offsets (samples : List SkewSample) : List ℤ := (samples.filter inTime).map offset

def rejectedCount (samples : List SkewSample) : ℕ := (samples.filter fun s => !inTime s).length

/-- What is computed of a sample is in its range. -/
structure SampleFits (s : SkewSample) : Prop where
  roundTrip : IsI64 (s.t3LocalMs - s.t0LocalMs)
  sum : inTime s = true → IsI64 (s.t0LocalMs + s.t3LocalMs)
  offset : inTime s = true → IsI64 (offset s)

lemma acceptSample_eq_some {acc out : List ℤ × ℕ} {s : SkewSample} : acceptSample acc s = some out ↔
    SampleFits s ∧ if inTime s then out = (acc.1 ++ [offset s], acc.2)
      else acc.2 + 1 < 2 ^ 32 ∧ out = (acc.1, acc.2 + 1) := by
  have hshape : SampleFits s ↔ IsI64 (s.t3LocalMs - s.t0LocalMs) ∧
      (inTime s = true → IsI64 (s.t0LocalMs + s.t3LocalMs) ∧ IsI64 (offset s)) :=
    ⟨fun h => ⟨h.1, fun hin => ⟨h.2 hin, h.3 hin⟩⟩, fun h => ⟨h.1, fun hin => (h.2 hin).1,
      fun hin => (h.2 hin).2⟩⟩
  rw [acceptSample, hshape]
  simp only [Option.bind_eq_some_iff, checkedI64_eq_some]
  by_cases hin : inTime s = true
  · have htrip : ¬(!(0 ≤ s.t3LocalMs - s.t0LocalMs && s.t3LocalMs - s.t0LocalMs ≤ maxRttMs)) =
        true := by
      simpa [inTime] using hin
    constructor
    · rintro ⟨_, ⟨hrtt, rfl⟩, h⟩
      rw [if_neg htrip] at h
      obtain ⟨_, hadded, h⟩ := Option.bind_eq_some_iff.1 h
      obtain ⟨hsum, rfl⟩ := checkedI64_eq_some.1 hadded
      obtain ⟨_, htaken, rfl⟩ := Option.map_eq_some_iff.1 h
      obtain ⟨hoff, rfl⟩ := checkedI64_eq_some.1 htaken
      exact ⟨⟨hrtt, fun _ => ⟨hsum, hoff⟩⟩, by rw [if_pos hin]; rfl⟩
    · rintro ⟨⟨hrtt, hfits⟩, hout⟩
      rw [if_pos hin] at hout
      refine ⟨_, ⟨hrtt, rfl⟩, ?_⟩
      rw [if_neg htrip, hout]
      exact Option.bind_eq_some_iff.2 ⟨_, checkedI64_eq_some.2 ⟨(hfits hin).1, rfl⟩,
        Option.map_eq_some_iff.2 ⟨_, checkedI64_eq_some.2 ⟨(hfits hin).2, rfl⟩, rfl⟩⟩
  · have htrip : (!(0 ≤ s.t3LocalMs - s.t0LocalMs && s.t3LocalMs - s.t0LocalMs ≤ maxRttMs)) =
        true := by
      rw [Bool.not_eq_true] at hin
      exact congrArg Bool.not hin
    constructor
    · rintro ⟨_, ⟨hrtt, rfl⟩, h⟩
      rw [if_pos htrip] at h
      obtain ⟨_, hnext, rfl⟩ := Option.map_eq_some_iff.1 h
      obtain ⟨hcount, rfl⟩ := checkedU32_eq_some.1 hnext
      exact ⟨⟨hrtt, fun h => absurd h hin⟩, by rw [if_neg hin]; exact ⟨hcount, rfl⟩⟩
    · rintro ⟨⟨hrtt, -⟩, hout⟩
      rw [if_neg hin] at hout
      refine ⟨_, ⟨hrtt, rfl⟩, ?_⟩
      rw [if_pos htrip, hout.2]
      exact Option.map_eq_some_iff.2 ⟨_, checkedU32_eq_some.2 ⟨hout.1, rfl⟩, rfl⟩

/-- **The loop over the samples** keeps the offsets of those in time and counts the others. -/
lemma foldlM_acceptSample {samples : List SkewSample} {acc out : List ℤ × ℕ}
    (hacc : acc.2 < 2 ^ 32) :
    samples.foldlM acceptSample acc = some out ↔ (∀ s ∈ samples, SampleFits s) ∧
      acc.2 + rejectedCount samples < 2 ^ 32 ∧
        out = (acc.1 ++ offsets samples, acc.2 + rejectedCount samples) := by
  induction samples generalizing acc with
  | nil =>
    have hrest : (acc.1 ++ offsets [], acc.2 + rejectedCount []) = acc := by
      rw [offsets, List.filter_nil, List.map_nil, List.append_nil]
      rfl
    rw [hrest, List.foldlM_nil, Option.pure_def, Option.some.injEq]
    exact ⟨fun h => ⟨by simp, hacc, h.symm⟩, fun h => h.2.2.symm⟩
  | cons s samples ih =>
    rw [List.foldlM_cons, Option.bind_eq_bind, Option.bind_eq_some_iff, List.forall_mem_cons]
    simp only [acceptSample_eq_some]
    by_cases hin : inTime s = true
    · have hoffsets : offsets (s :: samples) = offset s :: offsets samples := by
        rw [offsets, List.filter_cons_of_pos hin, List.map_cons, offsets]
      have hcount : rejectedCount (s :: samples) = rejectedCount samples := by
        rw [rejectedCount, List.filter_cons_of_neg (by simp [hin]), rejectedCount]
      simp only [hin, if_true, hoffsets, hcount]
      constructor
      · rintro ⟨_, ⟨hs, rfl⟩, h⟩
        obtain ⟨hall, hlt, rfl⟩ := (@ih (acc.1 ++ [offset s], acc.2) hacc).1 h
        exact ⟨⟨hs, hall⟩, hlt, by rw [List.append_assoc, List.singleton_append]⟩
      · rintro ⟨⟨hs, hall⟩, hlt, rfl⟩
        exact ⟨_, ⟨hs, rfl⟩, (@ih (acc.1 ++ [offset s], acc.2) hacc).2
          ⟨hall, hlt, by rw [List.append_assoc, List.singleton_append]⟩⟩
    · have hoffsets : offsets (s :: samples) = offsets samples := by
        rw [offsets, List.filter_cons_of_neg hin, offsets]
      have hcount : rejectedCount (s :: samples) = rejectedCount samples + 1 := by
        rw [rejectedCount, List.filter_cons_of_pos (by simp [hin]), List.length_cons, rejectedCount]
      simp only [if_neg hin, hoffsets, hcount]
      constructor
      · rintro ⟨_, ⟨hs, hlt, rfl⟩, h⟩
        obtain ⟨hall, hlt', rfl⟩ := (@ih (acc.1, acc.2 + 1) hlt).1 h
        exact ⟨⟨hs, hall⟩, by omega, by rw [Nat.add_assoc, Nat.add_comm 1]⟩
      · rintro ⟨⟨hs, hall⟩, hlt, rfl⟩
        have hlt' : acc.2 + 1 < 2 ^ 32 := by omega
        exact ⟨_, ⟨hs, hlt', rfl⟩, (@ih (acc.1, acc.2 + 1) hlt').2
          ⟨hall, by omega, by rw [Nat.add_assoc, Nat.add_comm 1]⟩⟩

/-! ### The median -/

def sorted (xs : List ℤ) : List ℤ := xs.mergeSort (· ≤ ·)

/-- The sum of the two in the middle, which are the same where the number is odd. -/
def middleSum (xs : List ℤ) : ℤ :=
  (sorted xs).getD ((xs.length - 1) / 2) 0 + (sorted xs).getD (xs.length / 2) 0

def middle (xs : List ℤ) : ℤ := (middleSum xs).tdiv 2

lemma median_eq_some {xs : List ℤ} {m : ℤ} (hne : xs ≠ []) :
    median xs = some m ↔ (xs.length % 2 = 0 → IsI64 (middleSum xs)) ∧ middle xs = m := by
  have hpos : 0 < xs.length := List.length_pos_iff.2 hne
  have hlen : (sorted xs).length = xs.length := List.length_mergeSort xs
  have hget : ∀ i < xs.length, (sorted xs)[i]? = some ((sorted xs).getD i 0) := by
    intro i hi
    rw [List.getD_eq_getElem?_getD, List.getElem?_eq_getElem (hlen ▸ hi), Option.getD_some]
  have hdef : median xs = if (sorted xs).length % 2 = 1 then (sorted xs)[(sorted xs).length / 2]?
      else (sorted xs)[(sorted xs).length / 2 - 1]?.bind fun a =>
        (sorted xs)[(sorted xs).length / 2]?.bind fun b =>
          (checkedI64 (a + b)).map (·.tdiv 2) := rfl
  rw [hdef, hlen, hget _ (by omega), hget _ (by omega)]
  by_cases hodd : xs.length % 2 = 1
  · have hmid : (xs.length - 1) / 2 = xs.length / 2 := by omega
    rw [if_pos hodd, middle, middleSum, hmid, ← two_mul, Int.mul_tdiv_cancel_left _ two_ne_zero,
      Option.some.injEq]
    exact ⟨fun h => ⟨fun heven => by omega, h⟩, fun h => h.2⟩
  · have hmid : xs.length / 2 - 1 = (xs.length - 1) / 2 := by omega
    rw [if_neg hodd, hmid, Option.bind_some, Option.bind_some, Option.map_eq_some_iff]
    constructor
    · rintro ⟨_, hadded, rfl⟩
      obtain ⟨hsum, rfl⟩ := checkedI64_eq_some.1 hadded
      exact ⟨fun _ => hsum, rfl⟩
    · rintro ⟨hsum, rfl⟩
      exact ⟨_, checkedI64_eq_some.2 ⟨hsum (by omega), rfl⟩, rfl⟩

lemma sorted_eq_of_perm {xs ys : List ℤ} (h : xs.Perm ys) : sorted xs = sorted ys := by
  have hx : (sorted xs).Pairwise (· ≤ ·) := List.pairwise_mergeSort' (· ≤ ·) xs
  have hy : (sorted ys).Pairwise (· ≤ ·) := List.pairwise_mergeSort' (· ≤ ·) ys
  exact List.Perm.eq_of_pairwise' hx hy
    ((List.mergeSort_perm xs _).trans (h.trans (List.mergeSort_perm ys _).symm))

/-- A half is off by less than one. -/
lemma half_spec (a : ℤ) : 2 * a.tdiv 2 ≤ a + 1 ∧ a ≤ 2 * a.tdiv 2 + 1 := by
  have hsplit := Int.tmod_add_mul_tdiv a 2
  have hup := Int.tmod_lt_of_pos a (by decide : (0 : ℤ) < 2)
  have hlow := Int.lt_tmod_of_pos a (by decide : (0 : ℤ) < 2)
  omega

/-- **The median lies among the values.** -/
lemma middle_bounds {xs : List ℤ} {lo hi : ℤ} (hne : xs ≠ []) (h : ∀ x ∈ xs, lo ≤ x ∧ x ≤ hi) :
    lo ≤ middle xs ∧ middle xs ≤ hi := by
  have hpos : 0 < xs.length := List.length_pos_iff.2 hne
  have hlen : (sorted xs).length = xs.length := List.length_mergeSort xs
  have hget : ∀ i < xs.length, lo ≤ (sorted xs).getD i 0 ∧ (sorted xs).getD i 0 ≤ hi := by
    intro i hi
    rw [List.getD_eq_getElem?_getD, List.getElem?_eq_getElem (hlen ▸ hi), Option.getD_some]
    exact h _ ((xs.mergeSort_perm _).subset (List.getElem_mem _))
  have hlow := hget ((xs.length - 1) / 2) (by omega)
  have hhigh := hget (xs.length / 2) (by omega)
  have hhalf := half_spec (middleSum xs)
  rw [middle]
  unfold middleSum at hhalf ⊢
  omega

/-! ### The deviation -/

def squares (xs : List ℤ) (m : ℤ) : ℕ := (xs.map fun x => (x - m).natAbs * (x - m).natAbs).sum

/-- The integer mean of the squared distances. -/
def meanSquare (xs : List ℤ) (m : ℤ) : ℕ := squares xs m / xs.length

/-- What is reported: the root, up to a cap. -/
def deviation (xs : List ℤ) (m : ℤ) : ℕ :=
  if i64Max < meanSquare xs m then i64Max else (meanSquare xs m).sqrt

lemma addSquare_eq_some {mean v : ℤ} {sumSq t : ℕ} : addSquare mean sumSq v = some t ↔
    IsI64 (v - mean) ∧ sumSq + (v - mean).natAbs * (v - mean).natAbs < 2 ^ 127 ∧
      sumSq + (v - mean).natAbs * (v - mean).natAbs = t := by
  rw [addSquare, Option.bind_eq_some_iff]
  constructor
  · rintro ⟨_, hdist, h⟩
    obtain ⟨hd, rfl⟩ := checkedI64_eq_some.1 hdist
    obtain ⟨_, hsq, h⟩ := Option.bind_eq_some_iff.1 h
    obtain ⟨-, rfl⟩ := checkedI128_eq_some.1 hsq
    exact ⟨hd, checkedI128_eq_some.1 h⟩
  · rintro ⟨hd, hlt, rfl⟩
    exact ⟨_, checkedI64_eq_some.2 ⟨hd, rfl⟩, Option.bind_eq_some_iff.2 ⟨_,
      checkedI128_eq_some.2 ⟨(Nat.le_add_left _ _).trans_lt hlt, rfl⟩,
        checkedI128_eq_some.2 ⟨hlt, rfl⟩⟩⟩

/-- **The loop over the distances** adds their squares. -/
lemma foldlM_addSquare {mean : ℤ} {xs : List ℤ} {sumSq t : ℕ} (hsum : sumSq < 2 ^ 127) :
    xs.foldlM (addSquare mean) sumSq = some t ↔ (∀ x ∈ xs, IsI64 (x - mean)) ∧
      sumSq + squares xs mean < 2 ^ 127 ∧ sumSq + squares xs mean = t := by
  induction xs generalizing sumSq with
  | nil =>
    rw [List.foldlM_nil, Option.pure_def, Option.some.injEq]
    exact ⟨fun h => ⟨by simp, hsum, h⟩, fun h => h.2.2⟩
  | cons x xs ih =>
    have hcons : squares (x :: xs) mean = (x - mean).natAbs * (x - mean).natAbs + squares xs mean :=
      List.sum_cons
    rw [List.foldlM_cons, Option.bind_eq_bind, Option.bind_eq_some_iff, List.forall_mem_cons, hcons,
      ← Nat.add_assoc]
    simp only [addSquare_eq_some]
    constructor
    · rintro ⟨_, ⟨hx, hlt, rfl⟩, h⟩
      obtain ⟨hall, hrest⟩ := (ih hlt).1 h
      exact ⟨⟨hx, hall⟩, hrest⟩
    · rintro ⟨⟨hx, hall⟩, hlt, heq⟩
      have hfirst := (Nat.le_add_right _ (squares xs mean)).trans_lt hlt
      exact ⟨_, ⟨hx, hfirst, rfl⟩, (ih hfirst).2 ⟨hall, hlt, heq⟩⟩

lemma stddev_eq_some {xs : List ℤ} {mean : ℤ} {j : ℕ} (hlen : 2 ≤ xs.length) :
    stddev xs mean = some j ↔ (∀ x ∈ xs, IsI64 (x - mean)) ∧ squares xs mean < 2 ^ 127 ∧
      deviation xs mean = j := by
  have hroot : squares xs mean < 2 ^ 127 →
      (if i64Max < meanSquare xs mean then some i64Max else isqrt (meanSquare xs mean)) =
        some (deviation xs mean) := by
    intro hlt
    rw [deviation]
    split_ifs
    · rfl
    · exact isqrt_eq ((Nat.div_le_self _ _).trans_lt hlt)
  rw [stddev, if_neg (by omega), Option.bind_eq_some_iff]
  constructor
  · rintro ⟨sumSq, hfold, h⟩
    obtain ⟨hall, hlt, rfl⟩ := (foldlM_addSquare (by decide)).1 hfold
    rw [Nat.zero_add] at hlt h
    exact ⟨hall, hlt, Option.some.inj ((hroot hlt).symm.trans h)⟩
  · rintro ⟨hall, hlt, rfl⟩
    exact ⟨squares xs mean, (foldlM_addSquare (by decide)).2
      ⟨hall, by rwa [Nat.zero_add], Nat.zero_add _⟩, hroot hlt⟩

/-! ### The estimate -/

/-- **Nothing that is computed overflows.** -/
structure Fits (samples : List SkewSample) : Prop where
  sample : ∀ s ∈ samples, SampleFits s
  rejected : rejectedCount samples < 2 ^ 32
  middles : offsets samples ≠ [] → (offsets samples).length % 2 = 0 →
    IsI64 (middleSum (offsets samples))
  distances : 2 ≤ (offsets samples).length →
    ∀ x ∈ offsets samples, IsI64 (x - middle (offsets samples))
  sumSq : 2 ≤ (offsets samples).length →
    squares (offsets samples) (middle (offsets samples)) < 2 ^ 127

/-- What is computed then. -/
def measured (samples : List SkewSample) : SkewMeasurement where
  skewMs := if offsets samples = [] then none else some (middle (offsets samples))
  jitterMs := if 2 ≤ (offsets samples).length then
    some (deviation (offsets samples) (middle (offsets samples))) else none
  samplesUsed := (offsets samples).length % 2 ^ 32
  samplesRejected := rejectedCount samples

lemma computeSkewJitter_eq_some {samples : List SkewSample} {m : SkewMeasurement} :
    computeSkewJitter samples = some m ↔ Fits samples ∧ measured samples = m := by
  have hfold := @foldlM_acceptSample samples ([], 0)
  simp only [List.nil_append, Nat.zero_add] at hfold
  have hstart : computeSkewJitter samples = (samples.foldlM acceptSample ([], 0)).bind
      fun (accepted, rejected) =>
        if accepted.isEmpty then some ⟨none, none, 0, rejected⟩
        else (median accepted).bind fun skewMs =>
          if 2 ≤ accepted.length then
            (stddev accepted skewMs).map fun jitterMs =>
              ⟨some skewMs, some jitterMs, accepted.length % 2 ^ 32, rejected⟩
          else some ⟨some skewMs, none, accepted.length % 2 ^ 32, rejected⟩ := by
    cases samples <;> rfl
  obtain ⟨xs, hxs⟩ : ∃ xs, xs = offsets samples := ⟨_, rfl⟩
  rw [hstart, Option.bind_eq_some_iff]
  constructor
  · rintro ⟨_, hacc, h⟩
    obtain ⟨hsample, hrejected, rfl⟩ := (hfold (by decide)).1 hacc
    dsimp only at h
    rw [← hxs] at h
    by_cases hnil : xs = []
    · rw [hnil, List.isEmpty_nil, if_pos rfl] at h
      rw [hnil] at hxs
      refine ⟨⟨hsample, hrejected, ?_, ?_, ?_⟩, ?_⟩
      · exact fun hne => absurd hxs.symm hne
      · rw [← hxs]
        exact fun hlen => absurd hlen (by decide)
      · rw [← hxs]
        exact fun hlen => absurd hlen (by decide)
      · rw [← Option.some.inj h, measured, ← hxs]
        rfl
    · rw [List.isEmpty_eq_false_iff.2 hnil, if_neg Bool.false_ne_true] at h
      obtain ⟨m', hmedian, h⟩ := Option.bind_eq_some_iff.1 h
      obtain ⟨hmiddle, rfl⟩ := (median_eq_some hnil).1 hmedian
      split_ifs at h with hlen
      · obtain ⟨j, hdev, rfl⟩ := Option.map_eq_some_iff.1 h
        obtain ⟨hdistance, hsquares, rfl⟩ := (stddev_eq_some hlen).1 hdev
        refine ⟨⟨hsample, hrejected, ?_, ?_, ?_⟩, ?_⟩
        · exact fun _ => hxs ▸ hmiddle
        · exact fun _ => hxs ▸ hdistance
        · exact fun _ => hxs ▸ hsquares
        · rw [measured, ← hxs, if_neg hnil, if_pos hlen]
      · refine ⟨⟨hsample, hrejected, ?_, ?_, ?_⟩, ?_⟩
        · exact fun _ => hxs ▸ hmiddle
        · exact fun h => absurd (hxs ▸ h) hlen
        · exact fun h => absurd (hxs ▸ h) hlen
        · rw [← Option.some.inj h, measured, ← hxs, if_neg hnil, if_neg hlen]
  · rintro ⟨hfits, rfl⟩
    refine ⟨_, (hfold (by decide)).2 ⟨hfits.sample, hfits.rejected, rfl⟩, ?_⟩
    have hmiddle := hfits.middles
    have hdistance := hfits.distances
    have hsquares := hfits.sumSq
    rw [measured]
    rw [← hxs] at hmiddle hdistance hsquares ⊢
    dsimp only
    by_cases hnil : xs = []
    · rw [hnil]
      rfl
    · rw [List.isEmpty_eq_false_iff.2 hnil, if_neg Bool.false_ne_true, if_neg hnil,
        (median_eq_some hnil).2 ⟨hmiddle hnil, rfl⟩, Option.bind_some]
      split_ifs with hlen
      · rw [(stddev_eq_some hlen).2 ⟨hdistance hlen, hsquares hlen, rfl⟩]
        rfl
      · rfl

/-! ### The order of the samples -/

section

variable {samples samples' : List SkewSample}

lemma offsets_perm (h : samples'.Perm samples) : (offsets samples').Perm (offsets samples) :=
  (h.filter inTime).map offset

lemma middleSum_perm {xs ys : List ℤ} (h : xs.Perm ys) : middleSum xs = middleSum ys := by
  rw [middleSum, middleSum, sorted_eq_of_perm h, h.length_eq]

lemma squares_perm {xs ys : List ℤ} (h : xs.Perm ys) (m : ℤ) : squares xs m = squares ys m :=
  (h.map _).sum_eq

lemma Fits.perm (hfits : Fits samples) (h : samples'.Perm samples) : Fits samples' := by
  have hperm := offsets_perm h
  have hmiddle : middle (offsets samples') = middle (offsets samples) := by
    rw [middle, middle, middleSum_perm hperm]
  refine ⟨fun s hs => hfits.sample s (h.subset hs), ?_, ?_, ?_, ?_⟩
  · have hcount : rejectedCount samples' = rejectedCount samples := (h.filter _).length_eq
    exact hcount ▸ hfits.rejected
  · rw [hperm.length_eq, middleSum_perm hperm]
    exact fun hne => hfits.middles fun hnil => hne (List.perm_nil.1 (hnil ▸ hperm))
  · rw [hperm.length_eq, hmiddle]
    exact fun hlen x hx => hfits.distances hlen x (hperm.subset hx)
  · rw [hperm.length_eq, hmiddle, squares_perm hperm]
    exact hfits.sumSq

lemma measured_perm (h : samples'.Perm samples) : measured samples' = measured samples := by
  have hperm := offsets_perm h
  have hmiddle : middle (offsets samples') = middle (offsets samples) := by
    rw [middle, middle, middleSum_perm hperm]
  have hnil : offsets samples' = [] ↔ offsets samples = [] :=
    ⟨fun hnil => List.nil_perm.1 (hnil ▸ hperm), fun hnil => List.perm_nil.1 (hnil ▸ hperm)⟩
  have hdev : deviation (offsets samples') = deviation (offsets samples) := by
    funext m
    rw [deviation, deviation, meanSquare, meanSquare, squares_perm hperm, hperm.length_eq]
  have hcount : rejectedCount samples' = rejectedCount samples := (h.filter _).length_eq
  simp only [measured, hmiddle, hnil, hdev, hcount, hperm.length_eq]

end

/-! ### The accuracy -/

/-- **The offset of a sample** is off by half a round trip at most. -/
lemma offset_near {s : SkewSample} {u d : ℚ} (hin : inTime s = true) (hlow : s.t0LocalMs ≤ u)
    (hup : u ≤ s.t3LocalMs) (hserver : (s.serverTsMs : ℚ) = u + d) :
    d - 250 ≤ offset s ∧ offset s ≤ d + 250 := by
  obtain ⟨hnonneg, hshort⟩ : 0 ≤ s.t3LocalMs - s.t0LocalMs ∧ s.t3LocalMs - s.t0LocalMs ≤ 500 := by
    rw [inTime, Bool.and_eq_true] at hin
    exact ⟨of_decide_eq_true hin.1, of_decide_eq_true hin.2⟩
  have hhalf := half_spec (s.t0LocalMs + s.t3LocalMs)
  have hlate : s.t3LocalMs ≤ (s.t0LocalMs + s.t3LocalMs).tdiv 2 + 250 := by omega
  have hearly : (s.t0LocalMs + s.t3LocalMs).tdiv 2 ≤ s.t0LocalMs + 250 := by omega
  have hlate' : (s.t3LocalMs : ℚ) ≤ ((s.t0LocalMs + s.t3LocalMs).tdiv 2 : ℤ) + 250 := by
    exact_mod_cast hlate
  have hearly' : (((s.t0LocalMs + s.t3LocalMs).tdiv 2 : ℤ) : ℚ) ≤ s.t0LocalMs + 250 := by
    exact_mod_cast hearly
  have hoffset : (offset s : ℚ) = s.serverTsMs - ((s.t0LocalMs + s.t3LocalMs).tdiv 2 : ℤ) := by
    rw [offset, Int.cast_sub]
  constructor <;> linarith

/-- The server stamps each sample that is used during its round trip, by a clock that is ahead by
`d`. -/
def Ahead (samples : List SkewSample) (d : ℚ) : Prop :=
  ∀ s ∈ samples, inTime s = true →
    ∃ u : ℚ, s.t0LocalMs ≤ u ∧ u ≤ s.t3LocalMs ∧ (s.serverTsMs : ℚ) = u + d

/-- **The median offset is near the true one.** -/
lemma middle_near {samples : List SkewSample} {d : ℚ} (hd : Ahead samples d)
    (hne : offsets samples ≠ []) :
    |(middle (offsets samples) : ℚ) - d| ≤ 250 := by
  have hall : ∀ x ∈ offsets samples, ⌈d - 250⌉ ≤ x ∧ x ≤ ⌊d + 250⌋ := by
    intro x hx
    obtain ⟨s, hs, rfl⟩ := List.mem_map.1 hx
    obtain ⟨hs, hin⟩ := List.mem_filter.1 hs
    obtain ⟨u, hlow, hup, hserver⟩ := hd s hs hin
    have hnear := offset_near hin hlow hup hserver
    exact ⟨Int.ceil_le.2 hnear.1, Int.le_floor.2 hnear.2⟩
  obtain ⟨hlow, hup⟩ := middle_bounds hne hall
  have hlow' := Int.ceil_le.1 hlow
  have hup' := Int.le_floor.1 hup
  rw [abs_le]
  constructor <;> linarith

/-! ### The estimate as it should be -/

/-- What a measurement of samples says. -/
structure IsEstimate (samples : List SkewSample) (m : SkewMeasurement) : Prop where
  used : m.samplesUsed = (samples.filter inTime).length
  rejected : m.samplesRejected = (samples.filter fun s => !inTime s).length
  skew : m.skewMs = if samples.filter inTime = [] then none else some (middle (offsets samples))
  accurate : ∀ d, Ahead samples d → ∀ skew ∈ m.skewMs, |(skew : ℚ) - d| ≤ maxRttMs / 2 + 1
  order : ∀ samples' : List SkewSample, samples'.Perm samples → computeSkewJitter samples' = some m
  jitter : m.jitterMs = if 2 ≤ (samples.filter inTime).length then
    some (meanSquare (offsets samples) (middle (offsets samples))).sqrt else none

/-- The numbers are in range, and the mean square is not cut off at another root. -/
structure InRange (samples : List SkewSample) : Prop extends Fits samples where
  used : (samples.filter inTime).length < 2 ^ 32
  uncapped : 2 ≤ (samples.filter inTime).length →
    meanSquare (offsets samples) (middle (offsets samples)) ≤ i64Max ∨
      i64Max ^ 2 ≤ meanSquare (offsets samples) (middle (offsets samples))

/-- Within the range of the sum of squares, the cap is the root above the square of it. -/
lemma deviation_eq_sqrt_iff {xs : List ℤ} {m : ℤ} (hlen : 2 ≤ xs.length)
    (hsquares : squares xs m < 2 ^ 127) :
    deviation xs m = (meanSquare xs m).sqrt ↔ meanSquare xs m ≤ i64Max ∨
      i64Max ^ 2 ≤ meanSquare xs m := by
  have hmean : meanSquare xs m < (i64Max + 1) ^ 2 := by
    have hle : meanSquare xs m ≤ squares xs m / 2 := Nat.div_le_div_left hlen two_pos
    have hmax : (i64Max + 1) ^ 2 = 2 ^ 126 := by decide
    omega
  rw [deviation]
  split_ifs with hbig
  · rw [Nat.eq_sqrt']
    exact ⟨fun h => .inr h.1, fun h => ⟨h.resolve_left (not_le.2 hbig), hmean⟩⟩
  · exact ⟨fun _ => .inl (not_lt.1 hbig), fun _ => rfl⟩

lemma length_offsets (samples : List SkewSample) :
    (offsets samples).length = (samples.filter inTime).length := List.length_map _

lemma offsets_eq_nil {samples : List SkewSample} :
    offsets samples = [] ↔ samples.filter inTime = [] :=
  List.map_eq_nil_iff

/-- **The skew estimate** is what it should be exactly when no number is out of range; its square
root always is. -/
theorem skew_estimate (samples : List SkewSample) :
    ((∃ m, computeSkewJitter samples = some m ∧ IsEstimate samples m) ↔ InRange samples) ∧
      ∀ n < 2 ^ 127, ∃ r, isqrt n = some r ∧ r * r ≤ n ∧ n < (r + 1) * (r + 1) := by
  refine ⟨⟨?_, fun h => ?_⟩, fun n hn => ?_⟩
  · rintro ⟨m, hm, hest⟩
    obtain ⟨hfits, rfl⟩ := computeSkewJitter_eq_some.1 hm
    refine ⟨hfits, ?_, fun hlen => ?_⟩
    · rw [← hest.used, measured]
      exact Nat.mod_lt _ (by decide)
    · have hjitter := hest.jitter
      rw [measured, length_offsets, if_pos hlen, if_pos hlen] at hjitter
      rw [← length_offsets] at hlen
      exact (deviation_eq_sqrt_iff hlen (hfits.sumSq hlen)).1 (Option.some.inj hjitter)
  · refine ⟨measured samples, computeSkewJitter_eq_some.2 ⟨h.toFits, rfl⟩, ?_, rfl, ?_, ?_, ?_, ?_⟩
    · rw [measured, length_offsets]
      exact Nat.mod_eq_of_lt h.used
    · simp only [measured, offsets_eq_nil]
    · intro d hd skew hskew
      have hmax : (maxRttMs : ℚ) / 2 + 1 = 251 := by norm_num [maxRttMs]
      simp only [measured, Option.mem_def, Option.ite_none_left_eq_some, Option.some.injEq] at hskew
      obtain ⟨hne, rfl⟩ := hskew
      rw [hmax]
      exact (middle_near hd hne).trans (by norm_num)
    · exact fun samples' hperm => computeSkewJitter_eq_some.2
        ⟨h.toFits.perm hperm, measured_perm hperm⟩
    · simp only [measured, length_offsets]
      split_ifs with hlen
      · have hroot := h.uncapped hlen
        rw [← length_offsets] at hlen
        rw [(deviation_eq_sqrt_iff hlen (h.sumSq hlen)).2 hroot]
      · rfl
  · exact ⟨n.sqrt, isqrt_eq hn, Nat.sqrt_le n, Nat.lt_succ_sqrt n⟩

/-- A stamp that the server chose is out of range against the local time. -/
theorem not_skew_estimate :
    computeSkewJitter [⟨1700000000000, 1700000000100, -2 ^ 63⟩] = none := by
  decide

end Locast.Client.Skew

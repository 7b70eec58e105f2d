import Mathlib.Data.List.Basic
import Mathlib.Data.Nat.Notation
import Mathlib.Tactic.Common

/-!
# Data in pieces

A list cut into slices of one length, of which only the last may be shorter, and functions of a list
that are fed with it piece by piece.
-/

namespace Locast.Lib

variable {α β : Type}

/-! ### Slices -/

/-- The slice of an index. -/
def slice (n : ℕ) (l : List α) (i : ℕ) : List α := (l.drop (i * n)).take n

/-- How many slices there are. -/
def sliceCount (n : ℕ) (l : List α) : ℕ := (l.length + n - 1) / n

def slices (n : ℕ) (l : List α) : List (List α) := (List.range (sliceCount n l)).map (slice n l)

lemma slices_nil {n : ℕ} (hn : 0 < n) : slices n ([] : List α) = [] := by
  have hzero : sliceCount n ([] : List α) = 0 := by
    rw [sliceCount, List.length_nil, Nat.zero_add]
    exact Nat.div_eq_of_lt (Nat.sub_lt hn Nat.one_pos)
  rw [slices, hzero]
  rfl

/-- A slice before the others. -/
lemma slices_append {n : ℕ} (hn : 0 < n) {p : List α} (hp : p.length = n) (l : List α) :
    slices n (p ++ l) = p :: slices n l := by
  have hcount : sliceCount n (p ++ l) = sliceCount n l + 1 := by
    rw [sliceCount, sliceCount, List.length_append, hp, ← Nat.add_div_right _ hn]
    congr 1
    omega
  have hrest : ∀ i, slice n (p ++ l) (i + 1) = slice n l i := by
    intro i
    rw [slice, slice, Nat.succ_mul, Nat.add_comm, List.drop_append, hp, Nat.add_sub_cancel_left,
      List.drop_eq_nil_of_le (by omega), List.nil_append]
  rw [slices, slices, hcount, List.range_succ_eq_map, List.map_cons, List.map_map]
  refine congrArg₂ _ ?_ (List.map_congr_left fun i _ => hrest i)
  rw [slice, Nat.zero_mul, List.drop_zero, ← hp, List.take_left]

/-- **Pieces that are slices**: full ones, and a shorter rest. -/
lemma slices_flatten {n : ℕ} (hn : 0 < n) {full : List (List α)} (hfull : ∀ p ∈ full, p.length = n)
    {rest : List α} (hrest : rest.length < n) :
    slices n (full.flatten ++ rest) = full ++ if rest.isEmpty then [] else [rest] := by
  induction full with
  | cons p full ih =>
    rw [List.flatten_cons, List.append_assoc, slices_append hn (hfull p List.mem_cons_self),
      ih fun q hq => hfull q (List.mem_cons_of_mem _ hq)]
    rfl
  | nil =>
    rw [List.flatten_nil, List.nil_append, List.nil_append]
    cases rest with
    | nil => exact slices_nil hn
    | cons a rest =>
      have hone : sliceCount n (a :: rest) = 1 := by
        rw [sliceCount]
        refine Nat.div_eq_of_lt_le ?_ ?_ <;> rw [List.length_cons] at * <;> omega
      rw [slices, hone, List.range_one, List.map_singleton, slice, Nat.zero_mul, List.drop_zero,
        List.take_of_length_le (Nat.le_of_lt hrest)]
      rfl

lemma length_slices (n : ℕ) (l : List α) : (slices n l).length = sliceCount n l := by
  rw [slices, List.length_map, List.length_range]

/-! ### Functions that are fed -/

/-- A function of a list that is computed as the list comes in. -/
structure Streaming (α β : Type) where
  State : Type
  init : State
  update : State → List α → State
  finalize : State → β
  update_nil : ∀ s, update s [] = s
  update_append : ∀ s a b, update (update s a) b = update s (a ++ b)

/-- Its value at once. -/
def Streaming.hash (h : Streaming α β) (l : List α) : β := h.finalize (h.update h.init l)

end Locast.Lib

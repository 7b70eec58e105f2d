import Mathlib.Data.List.Basic
import Mathlib.Data.List.Perm.Basic
import Mathlib.Data.Nat.Notation

/-!
# Removal by swapping

`swapRemove` takes an element out of a list and puts the last one in its place.  What is left is a
permutation of the rest (`swapRemove_perm`), so whatever does not depend on the order is kept.
-/

namespace Locast.Lib

variable {α : Type} {l : List α} {i : ℕ}

/-- `Vec::swap_remove`. -/
def swapRemove (l : List α) (i : ℕ) : List α :=
  match l.getLast? with
  | none => []
  | some a => (l.set i a).dropLast

lemma swapRemove_middle (before after : List α) (a b : α) :
    swapRemove (before ++ a :: (after ++ [b])) before.length = before ++ b :: after := by
  have hlast : (before ++ a :: (after ++ [b])).getLast? = some b := by
    rw [← List.cons_append, ← List.append_assoc, List.getLast?_concat]
  rw [swapRemove, hlast]
  dsimp only
  rw [List.set_append_right _ _ (Nat.le_refl _), Nat.sub_self, List.set_cons_zero,
    ← List.cons_append, ← List.append_assoc, List.dropLast_concat]

lemma swapRemove_last (before : List α) (a : α) :
    swapRemove (before ++ [a]) before.length = before := by
  rw [swapRemove, List.getLast?_concat]
  simp

/-- **What is left** are the other elements. -/
theorem swapRemove_perm {a : α} (h : l[i]? = some a) : (a :: swapRemove l i).Perm l := by
  obtain ⟨hi, rfl⟩ := List.getElem?_eq_some_iff.1 h
  have hsplit : l = l.take i ++ l[i] :: l.drop (i + 1) := by
    rw [List.getElem_cons_drop, List.take_append_drop]
  have hlen : (l.take i).length = i := List.length_take_of_le (Nat.le_of_lt hi)
  generalize l[i] = a at hsplit
  generalize l.take i = before at hsplit hlen
  rcases List.eq_nil_or_concat (l.drop (i + 1)) with hnil | ⟨after, b, hafter⟩
  · rw [hnil] at hsplit
    rw [hsplit, ← hlen, swapRemove_last]
    exact (List.perm_append_singleton a before).symm
  · rw [hafter, List.concat_eq_append] at hsplit
    rw [hsplit, ← hlen, swapRemove_middle]
    refine List.Perm.trans ?_ List.perm_middle.symm
    refine List.Perm.cons a (List.perm_middle.trans ?_)
    rw [← List.append_assoc]
    exact (List.perm_append_singleton b (before ++ after)).symm

lemma length_swapRemove (h : i < l.length) : (swapRemove l i).length + 1 = l.length :=
  (swapRemove_perm (List.getElem?_eq_getElem h)).length_eq

end Locast.Lib

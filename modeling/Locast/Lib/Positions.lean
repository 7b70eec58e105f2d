import Mathlib.Data.List.Chain
import Mathlib.Order.Nat

/-!
# Where things stood

What is left of a list, each member with the position at which it stood.  Members that stood side by
side are still side by side, whatever was taken away around them.
-/

namespace Locast.Lib

variable {α : Type}

/-- The positions grow. -/
def Ordered (l : List (α × ℕ)) : Prop := l.Pairwise fun a b => a.2 < b.2

/-- Each member stood right after the one before it. -/
def Consecutive (l : List (α × ℕ)) : Prop := l.IsChain fun a b => b.2 = a.2 + 1

instance [DecidableEq α] (l : List (α × ℕ)) : Decidable (Consecutive l) :=
  inferInstanceAs (Decidable (l.IsChain fun a b => b.2 = a.2 + 1))

lemma ordered_zipIdx (l : List α) : Ordered l.zipIdx := by
  refine List.pairwise_iff_getElem.2 fun i j hi hj hij => ?_
  rw [List.getElem_zipIdx, List.getElem_zipIdx]
  omega

lemma Ordered.sublist {l l' : List (α × ℕ)} (h : Ordered l') (hsub : l.Sublist l') : Ordered l :=
  List.Pairwise.sublist hsub h

lemma Consecutive.ordered {l : List (α × ℕ)} (h : Consecutive l) : Ordered l := by
  have hchain : l.IsChain fun a b => a.2 < b.2 := h.imp fun a b hab => by omega
  exact @List.IsChain.pairwise _ _ _ ⟨fun hab hbc => Nat.lt_trans hab hbc⟩ hchain

lemma Ordered.nodup {l : List (α × ℕ)} (h : Ordered l) : l.Nodup := by
  refine List.nodup_iff_pairwise_ne.2 (List.Pairwise.imp ?_ h)
  rintro a b hlt rfl
  exact absurd hlt (Nat.lt_irrefl _)

/-- What follows its neighbour at once comes next. -/
lemma prefix_of_consecutive {a : α × ℕ} {piece l : List (α × ℕ)} (hl : Ordered (a :: l))
    (hpiece : Consecutive (a :: piece)) (hsub : piece ⊆ l) : piece <+: l := by
  induction piece generalizing a l with
  | nil => exact List.nil_prefix
  | cons b piece ih =>
    obtain ⟨hb, hpiece⟩ := List.isChain_cons_cons.1 hpiece
    have hmem := hsub List.mem_cons_self
    obtain ⟨hfirst, hl⟩ := List.pairwise_cons.1 hl
    cases l with
    | nil => exact absurd hmem List.not_mem_nil
    | cons c l =>
      have hc := hfirst c List.mem_cons_self
      obtain rfl : b = c := by
        rcases List.mem_cons.1 hmem with heq | hlater
        · exact heq
        · have := (List.pairwise_cons.1 hl).1 b hlater
          omega
      refine List.cons_prefix_cons.2 ⟨rfl, ih hl hpiece fun x hx => ?_⟩
      have hlater := (List.pairwise_cons.1 (Consecutive.ordered hpiece)).1 x hx
      rcases List.mem_cons.1 (hsub (List.mem_cons_of_mem _ hx)) with rfl | hrest
      · exact absurd hlater (Nat.lt_irrefl _)
      · exact hrest

/-- **Neighbours stay neighbours**: members that stood side by side and are all still there. -/
lemma infix_of_consecutive {piece l : List (α × ℕ)} (hl : Ordered l) (hpiece : Consecutive piece)
    (hsub : piece ⊆ l) : piece <:+: l := by
  cases piece with
  | nil => exact List.nil_infix
  | cons a piece =>
    obtain ⟨u, v, rfl⟩ := List.append_of_mem (hsub List.mem_cons_self)
    have hv : Ordered (a :: v) := hl.sublist (List.sublist_append_right _ _)
    refine ((List.cons_prefix_cons.2 ⟨rfl, prefix_of_consecutive hv hpiece
      fun x hx => ?_⟩).isInfix).trans
      (List.suffix_append u (a :: v)).isInfix
    have hlater := (List.pairwise_cons.1 (Consecutive.ordered hpiece)).1 x hx
    rcases List.mem_append.1 (hsub (List.mem_cons_of_mem _ hx)) with hbefore | hafter
    · have := (List.pairwise_append.1 hl).2.2 x hbefore a List.mem_cons_self
      omega
    · rcases List.mem_cons.1 hafter with rfl | hafter
      · exact absurd hlater (Nat.lt_irrefl _)
      · exact hafter

end Locast.Lib

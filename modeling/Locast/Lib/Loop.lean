import Mathlib.Logic.Relation

/-!
# Loops and their turns

A loop goes on from a state to the next, turn by turn, until one returns.  What a function that
recurs in this way passes on the way is read off its turns.
-/

namespace Locast.Lib

variable {σ ρ : Type*} {turn : σ → σ ⊕ ρ} {f : σ → ρ} {s t : σ}

/-- The function is a loop of these turns: each goes on with a state, or returns. -/
def IsLoop (turn : σ → σ ⊕ ρ) (f : σ → ρ) : Prop := ∀ s, f s = (turn s).elim f id

/-- The loop comes from the one state to the other. -/
def ComesTo (turn : σ → σ ⊕ ρ) : σ → σ → Prop := Relation.ReflTransGen fun s t => turn s = .inl t

/-- **Invariants.** What every turn keeps holds wherever the loop comes to. -/
lemma ComesTo.invariant {I : σ → Prop} (r : ComesTo turn s t) (hs : I s)
    (hturn : ∀ s t, I s → turn s = .inl t → I t) : I t := by
  induction r with
  | refl => exact hs
  | tail _ h ih => exact hturn _ _ ih h

end Locast.Lib

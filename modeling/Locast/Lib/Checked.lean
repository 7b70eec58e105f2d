import Mathlib.Data.Nat.Notation

/-!
# Computations that can fail

What a computation may return and how it may fail (`Meets`), and a computation that succeeds
wherever another does, with the same result (`Extends`).  Both are checked step by step.
-/

namespace Locast.Lib

variable {ε α β σ : Type} {x y : Except ε α} {f g : α → Except ε β}

/-- It returns only what satisfies the one, and fails only as the other allows. -/
def Meets (P : α → Prop) (E : ε → Prop) : Except ε α → Prop
  | .ok a => P a
  | .error e => E e

/-- Where the one returns, the other returns the same. -/
def Extends (x y : Except ε α) : Prop := ∀ a, x = .ok a → y = .ok a

lemma bind_eq_ok {b : β} : (x >>= f) = .ok b ↔ ∃ a, x = .ok a ∧ f a = .ok b := by
  cases x with
  | error e => exact ⟨by rintro ⟨⟩, by rintro ⟨_, ⟨⟩, _⟩⟩
  | ok a =>
    refine ⟨fun h => ⟨a, rfl, h⟩, ?_⟩
    rintro ⟨a', ⟨⟩, h⟩
    exact h

namespace Meets

variable {P : α → Prop} {Q : β → Prop} {E : ε → Prop}

lemma of_eq_ok {a : α} (h : Meets P E x) (hx : x = .ok a) : P a := by
  rw [hx] at h
  exact h

lemma bind (h : Meets P E x) (hf : ∀ a, x = .ok a → P a → Meets Q E (f a)) :
    Meets Q E (x >>= f) := by
  cases x with
  | error e => exact h
  | ok a => exact hf a rfl h

lemma mono {P' : α → Prop} (h : Meets P E x) (hP : ∀ a, P a → P' a) : Meets P' E x := by
  cases x with
  | error e => exact h
  | ok a => exact hP a h

end Meets

namespace Extends

lemma refl (x : Except ε α) : Extends x x := fun _ h => h

lemma of_error {e : ε} : Extends (.error e) x := by
  rintro _ ⟨⟩

lemma bind (h : Extends x y) (hf : ∀ a, Extends (f a) (g a)) : Extends (x >>= f) (y >>= g) := by
  intro b hb
  obtain ⟨a, ha, hfa⟩ := bind_eq_ok.1 hb
  exact bind_eq_ok.2 ⟨a, h a ha, hf a b hfa⟩

end Extends

/-! ### A list, item by item -/

/-- Each item in turn, with its position. -/
def eachItem (step : ℕ → α → σ → Except ε σ) : ℕ → List α → σ → Except ε σ
  | _, [], s => .ok s
  | n, a :: l, s => step n a s >>= eachItem step (n + 1) l

section

variable {step step' : ℕ → α → σ → Except ε σ} {l l' : List α} {n m : ℕ} {s : σ}

lemma eachItem_append :
    eachItem step n (l ++ l') s = eachItem step n l s >>= eachItem step (n + l.length) l' := by
  induction l generalizing n s with
  | nil => rfl
  | cons a l ih =>
    have hcomm : n + 1 + l.length = n + (l.length + 1) := by omega
    simp only [List.cons_append, eachItem, List.length_cons, ← hcomm]
    cases step n a s with
    | error e => rfl
    | ok s' => exact ih

/-- **Invariants.** What every item keeps holds after the list. -/
lemma Meets.items {I : σ → Prop} {E : ε → Prop} (hs : I s)
    (hstep : ∀ n, ∀ a ∈ l, ∀ s, I s → Meets I E (step n a s)) :
    Meets I E (eachItem step n l s) := by
  induction l generalizing n s with
  | nil => exact hs
  | cons a l ih =>
    exact (hstep n a List.mem_cons_self s hs).bind fun s' _ hs' =>
      ih hs' fun n b hb => hstep n b (List.mem_cons_of_mem _ hb)

lemma Extends.items (hstep : ∀ n m a s, Extends (step n a s) (step' m a s)) :
    Extends (eachItem step n l s) (eachItem step' m l s) := by
  induction l generalizing n m s with
  | nil => exact .refl _
  | cons a l ih => exact (hstep n m a s).bind fun _ => ih

/-- **States on the way.**  Where the whole list is read, the state that another reading has after
some of its items is this one's too, and has the invariant. -/
lemma eachItem_reached {I : σ → Prop} {E : ε → Prop} {t u : σ}
    (hext : ∀ n m a s, Extends (step n a s) (step' m a s))
    (hkeep : ∀ n a s, I s → Meets I E (step n a s)) (hs : I s)
    (hread : eachItem step n (l ++ l') s = .ok t) (hpre : eachItem step' m l s = .ok u) :
    I u ∧ eachItem step (n + l.length) l' u = .ok t := by
  rw [eachItem_append] at hread
  obtain ⟨u', hu', hrest⟩ := bind_eq_ok.1 hread
  have hsame : eachItem step' m l s = .ok u' := Extends.items hext _ hu'
  obtain rfl := Except.ok.inj (hsame.symm.trans hpre)
  exact ⟨(Meets.items hs fun k a _ s => hkeep k a s).of_eq_ok hu', hrest⟩

end

end Locast.Lib

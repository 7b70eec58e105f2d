import Mathlib.Data.List.Basic

/-!
# The least element of a list

`least before l` is the first element of `l` that no other element is before: `min_by` with a
comparison that is computed.
-/

namespace Locast.Lib

variable {α : Type}

/-- The least of `a` and the elements of a list; ties go to the earlier one. -/
def leastFrom (before : α → α → Bool) (a : α) : List α → α
  | [] => a
  | b :: l => leastFrom before (if before b a then b else a) l

/-- The least element of a list; ties go to the earlier one. -/
def least (before : α → α → Bool) : List α → Option α
  | [] => none
  | a :: l => some (leastFrom before a l)

variable {before : α → α → Bool}

lemma leastFrom_mem (a : α) (l : List α) : leastFrom before a l ∈ a :: l := by
  induction l generalizing a with
  | nil => exact List.mem_singleton_self a
  | cons b l ih =>
    rcases List.mem_cons.1 (ih (if before b a then b else a)) with h | h
    · rw [leastFrom, h]
      split <;> simp
    · exact List.mem_cons_of_mem _ (List.mem_cons_of_mem _ h)

lemma least_mem {l : List α} {a : α} (h : least before l = some a) : a ∈ l := by
  cases l with
  | nil => cases h
  | cons b l => exact Option.some.inj h ▸ leastFrom_mem b l

@[simp] lemma least_eq_none {l : List α} : least before l = none ↔ l = [] := by
  cases l <;> simp [least]

section Order

variable (irrefl : ∀ a, before a a = false)
  (trans : ∀ a b c, before a b = true → before b c = true → before a c = true)

include trans

lemma leastFrom_eq_or_before (a : α) (l : List α) :
    leastFrom before a l = a ∨ before (leastFrom before a l) a = true := by
  induction l generalizing a with
  | nil => exact .inl rfl
  | cons b l ih =>
    rw [leastFrom]
    split
    · rename_i hba
      rcases ih b with h | h
      · exact .inr (by rw [h, hba])
      · exact .inr (trans _ _ _ h hba)
    · exact ih a

include irrefl

lemma not_before_leastFrom (a : α) (l : List α) :
    ∀ b ∈ a :: l, before b (leastFrom before a l) = false := by
  -- whoever is before the least is before the one it started from
  have hstart (x c : α) (l : List α) (h : before c (leastFrom before x l) = true) :
      before c x = true := by
    rcases leastFrom_eq_or_before trans x l with hx | hx
    · exact hx ▸ h
    · exact trans _ _ _ h hx
  induction l generalizing a with
  | nil => simpa [leastFrom] using irrefl a
  | cons c l ih =>
    intro b hb
    by_contra hbefore
    have hbefore : before b (leastFrom before a (c :: l)) = true := by simpa using hbefore
    rcases List.mem_cons.1 hb with rfl | hb
    · simpa [irrefl] using hstart b b (c :: l) hbefore
    rw [leastFrom] at hbefore
    rcases List.mem_cons.1 hb with rfl | hb
    · have hb' := hstart _ _ _ hbefore
      split at hb'
      · simp [irrefl] at hb'
      · exact absurd hb' ‹_›
    · rw [ih _ b (List.mem_cons_of_mem _ hb)] at hbefore
      cases hbefore

/-- Nobody is before the least. -/
theorem not_before_least {l : List α} {a : α} (h : least before l = some a) :
    ∀ b ∈ l, before b a = false := by
  cases l with
  | nil => cases h
  | cons c l => exact Option.some.inj h ▸ not_before_leastFrom irrefl trans c l

end Order

end Locast.Lib

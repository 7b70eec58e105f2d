import Mathlib.Data.List.DropRight
import Mathlib.Tactic.SplitIfs
import Mathlib.Algebra.BigOperators.Group.List.Basic
import Mathlib.Algebra.GroupWithZero.Nat

/-!
# Slices of a string by bytes

A string is the list of its characters; a slice is cut by offsets into its UTF-8 bytes, and is there
only when both offsets are ends of characters of it.
-/

namespace Locast.Lib

/-- The length in bytes. -/
def byteLen (s : List Char) : ℕ := (s.map Char.utf8Size).sum

@[simp] lemma byteLen_nil : byteLen [] = 0 := rfl

@[simp] lemma byteLen_cons (c : Char) (s : List Char) : byteLen (c :: s) = c.utf8Size + byteLen s :=
  rfl

@[simp] lemma byteLen_append (s t : List Char) : byteLen (s ++ t) = byteLen s + byteLen t := by
  simp [byteLen]

/-- The bytes from an offset on. -/
def getFrom : List Char → ℕ → Option (List Char)
  | s, 0 => some s
  | [], _ + 1 => none
  | c :: s, k + 1 => if c.utf8Size ≤ k + 1 then getFrom s (k + 1 - c.utf8Size) else none

/-- The bytes before an offset. -/
def getTo : List Char → ℕ → Option (List Char)
  | _, 0 => some []
  | [], _ + 1 => none
  | c :: s, k + 1 =>
    if c.utf8Size ≤ k + 1 then (getTo s (k + 1 - c.utf8Size)).map (c :: ·) else none

/-- The bytes between two offsets. -/
def getRange (s : List Char) (start stop : ℕ) : Option (List Char) :=
  if start ≤ stop then (getFrom s start).bind (getTo · (stop - start)) else none

/-- The offset of the first such character. -/
def find (p : Char) : List Char → Option ℕ
  | [] => none
  | c :: s => if c = p then some 0 else (find p s).map (c.utf8Size + ·)

/-! ### Slices at the ends of characters -/

lemma getFrom_zero (s : List Char) : getFrom s 0 = some s := by
  cases s <;> rfl

lemma getTo_zero (s : List Char) : getTo s 0 = some [] := by
  cases s <;> rfl

lemma getFrom_cons (c : Char) (s : List Char) (k : ℕ) :
    getFrom (c :: s) (c.utf8Size + k) = getFrom s k := by
  obtain ⟨n, hn⟩ : ∃ n, c.utf8Size + k = n + 1 :=
    Nat.exists_eq_succ_of_ne_zero (by have := c.utf8Size_pos; omega)
  rw [hn, getFrom, if_pos (hn ▸ Nat.le_add_right _ _), ← hn, Nat.add_sub_cancel_left]

lemma getTo_cons (c : Char) (s : List Char) (k : ℕ) :
    getTo (c :: s) (c.utf8Size + k) = (getTo s k).map (c :: ·) := by
  obtain ⟨n, hn⟩ : ∃ n, c.utf8Size + k = n + 1 :=
    Nat.exists_eq_succ_of_ne_zero (by have := c.utf8Size_pos; omega)
  rw [hn, getTo, if_pos (hn ▸ Nat.le_add_right _ _), ← hn, Nat.add_sub_cancel_left]

@[simp] lemma getFrom_append (s t : List Char) : getFrom (s ++ t) (byteLen s) = some t := by
  induction s with
  | nil => exact getFrom_zero t
  | cons c s ih => rw [List.cons_append, byteLen_cons, getFrom_cons, ih]

@[simp] lemma getTo_append (s t : List Char) : getTo (s ++ t) (byteLen s) = some s := by
  induction s with
  | nil => exact getTo_zero t
  | cons c s ih =>
    rw [List.cons_append, byteLen_cons, getTo_cons, ih]
    rfl

@[simp] lemma getRange_append (s t u : List Char) :
    getRange (s ++ (t ++ u)) (byteLen s) (byteLen s + byteLen t) = some t := by
  rw [getRange, if_pos (Nat.le_add_right _ _), getFrom_append, Nat.add_sub_cancel_left]
  exact getTo_append t u

lemma getFrom_eq_some {s t : List Char} {k : ℕ} (h : getFrom s k = some t) :
    ∃ u, s = u ++ t ∧ k = byteLen u := by
  fun_induction getFrom s k with
  | case1 s => exact ⟨[], by simpa using h, rfl⟩
  | case2 => cases h
  | case3 c s k hle ih =>
    obtain ⟨u, rfl, hu⟩ := ih h
    exact ⟨c :: u, rfl, by rw [byteLen_cons, ← hu]; omega⟩
  | case4 => cases h

lemma getTo_eq_some {s t : List Char} {k : ℕ} (h : getTo s k = some t) :
    t <+: s ∧ byteLen t = k := by
  fun_induction getTo s k generalizing t with
  | case1 s =>
    cases h
    exact ⟨List.nil_prefix, rfl⟩
  | case2 => cases h
  | case3 c s k hle ih =>
    obtain ⟨u, hu, rfl⟩ := Option.map_eq_some_iff.1 h
    obtain ⟨hpre, hlen⟩ := ih hu
    exact ⟨List.cons_prefix_cons.2 ⟨rfl, hpre⟩, by rw [byteLen_cons, hlen]; omega⟩
  | case4 => cases h

/-- A slice that ends inside a character. -/
lemma getTo_eq_none {s t : List Char} {c : Char} {k : ℕ} (h : t ++ [c] <+: s) (hlow : byteLen t < k)
    (hhigh : k < byteLen t + c.utf8Size) : getTo s k = none := by
  cases hget : getTo s k with
  | none => rfl
  | some u =>
    obtain ⟨hu, hlen⟩ := getTo_eq_some hget
    have hmono : ∀ {x y : List Char}, x <+: y → byteLen x ≤ byteLen y := by
      rintro x _ ⟨y, rfl⟩
      rw [byteLen_append]
      exact Nat.le_add_right _ _
    have hwhole : byteLen (t ++ [c]) = byteLen t + c.utf8Size := byteLen_append _ _
    rcases List.prefix_or_prefix_of_prefix hu h with hle | hle
    · rcases List.prefix_concat_iff.1 hle with heq | hle
      · rw [heq, hwhole] at hlen
        omega
      · have := hmono hle
        omega
    · have := hmono hle
      omega

/-- What is before the first such character. -/
def ahead (p : Char) (s : List Char) : List Char := s.takeWhile (· ≠ p)

/-- What is behind the first such character. -/
def behind (p : Char) (s : List Char) : List Char := (s.dropWhile (· ≠ p)).drop 1

lemma ahead_append_behind {p : Char} {s : List Char} (h : p ∈ s) :
    ahead p s ++ p :: behind p s = s := by
  induction s with
  | nil => exact absurd h List.not_mem_nil
  | cons c s ih =>
    rw [ahead, behind]
    by_cases hc : c = p
    · simp [hc]
    · have hs : p ∈ s := (List.mem_cons.1 h).resolve_left (Ne.symm hc)
      rw [List.takeWhile_cons_of_pos (by simpa using hc),
        List.dropWhile_cons_of_pos (by simpa using hc)]
      exact congrArg (c :: ·) (ih hs)

lemma length_behind (p : Char) (s : List Char) : (behind p s).length ≤ s.length := by
  rw [behind, List.length_drop]
  exact (Nat.sub_le _ _).trans (List.dropWhile_sublist _).length_le

lemma find_eq (p : Char) (s : List Char) :
    find p s = if p ∈ s then some (byteLen (ahead p s)) else none := by
  induction s with
  | nil => rfl
  | cons c s ih =>
    rw [find, ahead]
    by_cases hc : c = p
    · simp [hc]
    · rw [if_neg hc, ih, List.takeWhile_cons_of_pos (by simpa using hc), byteLen_cons]
      by_cases hs : p ∈ s
      · rw [if_pos hs, if_pos (List.mem_cons_of_mem _ hs)]
        rfl
      · rw [if_neg hs, if_neg (by simp [hs, Ne.symm hc])]
        rfl

/-! ### Splitting -/

/-- Before and after the first occurrence. -/
def splitOnce (pat : List Char) : List Char → Option (List Char × List Char)
  | [] => if pat = [] then some ([], []) else none
  | c :: s =>
    if pat <+: c :: s then some ([], (c :: s).drop pat.length)
    else (splitOnce pat s).map fun p => (c :: p.1, p.2)

/-- Before and after the first such character. -/
def splitOnceAt (p : Char → Bool) : List Char → Option (List Char × List Char)
  | [] => none
  | c :: s => if p c then some ([], s) else (splitOnceAt p s).map fun q => (c :: q.1, q.2)

/-- At most so many pieces, the last of which holds the rest. -/
def splitn (p : Char → Bool) : ℕ → List Char → List (List Char)
  | 0, _ => []
  | 1, s => [s]
  | n + 2, s => match splitOnceAt p s with
    | none => [s]
    | some (before, after) => before :: splitn p (n + 1) after

/-- The offsets of the occurrences of two characters. -/
def matchIndices (a b : Char) : List Char → ℕ → List ℕ
  | [], _ => []
  | [_], _ => []
  | c :: d :: s, i =>
    if c = a ∧ d = b then i :: matchIndices a b s (i + c.utf8Size + d.utf8Size)
    else matchIndices a b (d :: s) (i + c.utf8Size)

lemma splitOnceAt_append {p : Char → Bool} {s : List Char} (hs : ∀ c ∈ s, p c = false) {c : Char}
    (hc : p c = true) (t : List Char) : splitOnceAt p (s ++ c :: t) = some (s, t) := by
  induction s with
  | nil => simp [splitOnceAt, hc]
  | cons d s ih =>
    rw [List.cons_append, splitOnceAt, if_neg (by simp [hs d List.mem_cons_self]),
      ih fun e he => hs e (List.mem_cons_of_mem _ he)]
    rfl

lemma splitOnceAt_eq_some {p : Char → Bool} {s t u : List Char}
    (h : splitOnceAt p s = some (t, u)) :
    ∃ c, p c = true ∧ s = t ++ c :: u := by
  induction s generalizing t with
  | nil => cases h
  | cons c s ih =>
    rw [splitOnceAt] at h
    split at h
    · rename_i hc
      cases h
      exact ⟨c, hc, rfl⟩
    · obtain ⟨⟨t', u'⟩, hsplit, heq⟩ := Option.map_eq_some_iff.1 h
      cases heq
      obtain ⟨d, hd, rfl⟩ := ih hsplit
      exact ⟨d, hd, rfl⟩

/-- Nothing of the pattern begins before it. -/
lemma splitOnce_append {p : Char} {pat : List Char} {s : List Char} (hs : p ∉ s) (t : List Char) :
    splitOnce (p :: pat) (s ++ (p :: pat ++ t)) = some (s, t) := by
  induction s with
  | nil =>
    have hpre : p :: pat <+: p :: (pat ++ t) := List.prefix_append (p :: pat) t
    rw [List.nil_append, List.cons_append, splitOnce, if_pos hpre, List.length_cons,
      List.drop_succ_cons, List.drop_left]
  | cons c s ih =>
    obtain ⟨hc, hs⟩ := not_or.1 (mt List.mem_cons.2 hs)
    have hpre : ¬p :: pat <+: c :: (s ++ (p :: pat ++ t)) := fun h =>
      hc (List.cons_prefix_cons.1 h).1
    rw [List.cons_append, splitOnce, if_neg hpre, ih hs]
    rfl

lemma splitOnce_eq_none {pat : List Char} {s : List Char} (h : ¬pat <:+: s) :
    splitOnce pat s = none := by
  induction s with
  | nil =>
    rw [splitOnce, if_neg]
    rintro rfl
    exact h List.infix_rfl
  | cons c s ih =>
    rw [splitOnce, if_neg fun hpre => h hpre.isInfix, ih fun hin =>
      h (hin.trans (List.suffix_cons c s).isInfix)]
    rfl

/-- **Fields are read back.** -/
lemma splitn_intercalate {sep : Char} {fields : List (List Char)} (h : ∀ f ∈ fields, sep ∉ f)
    (last : List Char) :
    splitn (· = sep) (fields.length + 1) (List.intercalate [sep] (fields ++ [last])) =
      fields ++ [last] := by
  induction fields with
  | nil => rw [List.nil_append, List.intercalate_singleton]; rfl
  | cons f fields ih =>
    have hf : ∀ c ∈ f, decide (c = sep) = false := fun c hc =>
      decide_eq_false fun heq => h f List.mem_cons_self (heq ▸ hc)
    rw [List.cons_append, List.intercalate_cons_of_ne_nil (by simp), List.append_assoc,
      List.singleton_append, List.length_cons, splitn, splitOnceAt_append hf (by simp)]
    dsimp only
    rw [ih fun g hg => h g (List.mem_cons_of_mem _ hg)]

lemma exists_of_mem_matchIndices {a b : Char} {s : List Char} {i k : ℕ}
    (h : k ∈ matchIndices a b s i) :
    ∃ t u, s = t ++ a :: b :: u ∧ k = i + byteLen t := by
  fun_induction matchIndices a b s i with
  | case1 => cases h
  | case2 => cases h
  | case3 d e s i hde ih =>
    obtain ⟨rfl, rfl⟩ := hde
    rcases List.mem_cons.1 h with rfl | h
    · exact ⟨[], s, rfl, rfl⟩
    · obtain ⟨t, u, rfl, rfl⟩ := ih h
      exact ⟨d :: e :: t, u, rfl, by simp only [byteLen_cons]; omega⟩
  | case4 d e s i hde ih =>
    obtain ⟨t, u, hs, rfl⟩ := ih h
    exact ⟨d :: t, u, by rw [hs]; rfl, by simp only [byteLen_cons]; omega⟩

/-! ### White space -/

/-- Without what is blank at its ends. -/
def trimWith (ws : Char → Bool) (s : List Char) : List Char := (s.dropWhile ws).rdropWhile ws

/-- The first piece that is not blank. -/
def firstWord (ws : Char → Bool) (s : List Char) : Option (List Char) :=
  match (s.dropWhile ws).takeWhile fun c => !ws c with
  | [] => none
  | word => some word

variable {ws : Char → Bool}

lemma trimWith_eq_nil_iff {s : List Char} :
    trimWith ws s = [] ↔ ∀ c ∈ s, ws c = true := by
  rw [trimWith, List.rdropWhile_eq_nil_iff]
  refine ⟨fun h => ?_, fun h c hc => h c ((List.dropWhile_sublist _).mem hc)⟩
  by_contra hne
  obtain ⟨c, hc, hws⟩ : ∃ c ∈ s, ws c = false := by simpa using hne
  have hdrop : s.dropWhile ws ≠ [] := by
    rw [Ne, List.dropWhile_eq_nil_iff]
    exact fun hall => by simp [hall c hc] at hws
  exact Bool.false_ne_true
    ((List.head_dropWhile_not ws hdrop).symm.trans (h _ (List.head_mem hdrop)))

lemma dropWhile_append_of_forall {p s : List Char} (hp : ∀ c ∈ p, ws c = true)
    (hs : ∀ c ∈ s.head?, ws c = false) : (p ++ s).dropWhile ws = s := by
  induction p with
  | nil =>
    cases s with
    | nil => rfl
    | cons c s => rw [List.nil_append, List.dropWhile_cons, if_neg (by simp [hs c rfl])]
  | cons c p ih =>
    rw [List.cons_append, List.dropWhile_cons, if_pos (hp c List.mem_cons_self),
      ih fun d hd => hp d (List.mem_cons_of_mem _ hd)]

/-- What is blank around a word is cut off. -/
lemma trimWith_append {p s q : List Char} (hp : ∀ c ∈ p, ws c = true) (hq : ∀ c ∈ q, ws c = true)
    (hhead : ∀ c ∈ s.head?, ws c = false) (hlast : ∀ c ∈ s.getLast?, ws c = false) :
    trimWith ws (p ++ s ++ q) = s := by
  cases s with
  | nil =>
    rw [trimWith_eq_nil_iff]
    simpa [or_imp, forall_and] using ⟨hp, hq⟩
  | cons c s =>
    rw [trimWith, List.append_assoc, dropWhile_append_of_forall hp (by simpa using hhead),
      List.rdropWhile, List.reverse_append, dropWhile_append_of_forall (by simpa using hq)
        (by rwa [List.head?_reverse]), List.reverse_reverse]

/-- What is blank at the end does not matter. -/
lemma trimWith_append_blank {s q : List Char} (hq : ∀ c ∈ q, ws c = true) :
    trimWith ws (s ++ q) = trimWith ws s := by
  by_cases hs : ∀ c ∈ s, ws c = true
  · rw [trimWith_eq_nil_iff.2 hs, trimWith_eq_nil_iff]
    intro c hc
    rcases List.mem_append.1 hc with hc | hc
    · exact hs c hc
    · exact hq c hc
  · have hdrop : (s.dropWhile ws).isEmpty = false := by
      rw [List.isEmpty_eq_false_iff, Ne, List.dropWhile_eq_nil_iff]
      exact hs
    rw [trimWith, List.dropWhile_append, hdrop, if_neg Bool.false_ne_true, trimWith,
      List.rdropWhile, List.reverse_append, List.dropWhile_append_of_pos (by simpa using hq)]
    rfl

lemma trimWith_rdropWhile (s : List Char) : trimWith ws (s.rdropWhile ws) = trimWith ws s := by
  have hsplit : s.rdropWhile ws ++ s.rtakeWhile ws = s := List.rdropWhile_append_rtakeWhile
  conv_rhs => rw [← hsplit]
  exact (trimWith_append_blank fun c hc => List.mem_rtakeWhile_imp hc).symm

lemma trimWith_dropWhile (s : List Char) : trimWith ws (s.dropWhile ws) = trimWith ws s := by
  rw [trimWith, List.dropWhile_idempotent, trimWith]

lemma rdropWhile_append_of_forall (s : List Char) {q : List Char} (hq : ∀ c ∈ q, ws c = true) :
    (s ++ q).rdropWhile ws = s.rdropWhile ws := by
  rw [List.rdropWhile, List.reverse_append, List.dropWhile_append_of_pos (by simpa using hq)]
  rfl

/-- Nothing is cut off before what is not blank. -/
lemma rdropWhile_append_of_getLast? {s : List Char} {c : Char} (hs : s.getLast? = some c)
    (hc : ws c = false) (t : List Char) : (s ++ t).rdropWhile ws = s ++ t.rdropWhile ws := by
  have hrev : s.reverse.dropWhile ws = s.reverse :=
    dropWhile_append_of_forall (p := []) (by simp) (by simpa [hs] using hc)
  rw [List.rdropWhile, List.reverse_append, List.dropWhile_append, hrev, List.rdropWhile]
  split_ifs with hnil
  · rw [List.isEmpty_iff.1 hnil]
    simp
  · simp

lemma firstWord_append {p s q : List Char} (hp : ∀ c ∈ p, ws c = true) (hs : ∀ c ∈ s, ws c = false)
    (hne : s ≠ []) (hq : ∀ c ∈ q.head?, ws c = true) : firstWord ws (p ++ (s ++ q)) = some s := by
  have htake : (s ++ q).takeWhile (fun c => !ws c) = s := by
    rw [List.takeWhile_append_of_pos (by simpa using hs)]
    cases q with
    | nil => simp
    | cons c q => rw [List.takeWhile_cons_of_neg (by simp [hq c rfl]), List.append_nil]
  obtain ⟨c, s, rfl⟩ := List.exists_cons_of_ne_nil hne
  rw [firstWord, dropWhile_append_of_forall hp (by simpa using hs c List.mem_cons_self), htake]

end Locast.Lib

import Locast.Subtitles.Common

/-!
# The lines of a text

The byte scan of `split_lines` cuts a text at its line breaks, and nowhere else: every slice it
takes is there, and the lines are those of the text.
-/

namespace Locast.Subtitles

open Locast.Lib

variable {caps caps' : Caps}

def IsBreak (c : Char) : Prop := c = '\n' ∨ c = '\r'

instance (c : Char) : Decidable (IsBreak c) := inferInstanceAs (Decidable (_ ∨ _))

/-- The lines of a text, the first of which has begun. -/
def linesFrom : List Char → (cur : List Char) → List (List Char)
  | [], cur => if cur = [] then [] else [cur]
  | [c], cur => if IsBreak c then [cur] else [cur ++ [c]]
  | c :: d :: rest, cur =>
    if IsBreak c then
      cur :: if c = '\r' ∧ d = '\n' then linesFrom rest [] else linesFrom (d :: rest) []
    else linesFrom (d :: rest) (cur ++ [c])

/-- The lines of a text. -/
def linesOf (text : List Char) : List (List Char) := linesFrom text []

/-- The caps on lines, line by line. -/
def checkLines (caps : Caps) : List (List Char) → List (List Char) → Parsed (List (List Char))
  | [], lines => .ok lines
  | l :: ls, lines =>
    if caps.maxLines ≤ lines.length then reject .tooManyLines
    else if caps.maxLineBytes < byteLen l then reject (.lineTooLong (lineNumber lines.length))
    else checkLines caps ls (lines ++ [l])

/-! ### The scan -/

/-- What follows one byte. -/
lemma splitLoop_cons (text : List Char) (b : UInt8) (tail : List UInt8) (start i : ℕ)
    (lines : List (List Char)) :
    splitLoop caps text (b :: tail) start i lines =
      if b = 10 ∨ b = 13 then
        pushLine caps text lines start i >>= fun lines =>
          if b = 13 ∧ tail.head? = some 10 then splitLoop caps text tail.tail (i + 2) (i + 2) lines
          else splitLoop caps text tail (i + 1) (i + 1) lines
      else splitLoop caps text tail start (i + 1) lines := by
  cases tail with
  | nil => simp [splitLoop]
  | cons b' rest => simp [splitLoop]

/-- The bytes of a character that is no line break. -/
lemma splitLoop_append {text : List Char} {bytes tail : List UInt8} {start i : ℕ}
    {lines : List (List Char)} (h : ∀ b ∈ bytes, b ≠ 10 ∧ b ≠ 13) :
    splitLoop caps text (bytes ++ tail) start i lines =
      splitLoop caps text tail start (i + bytes.length) lines := by
  induction bytes generalizing i with
  | nil => rfl
  | cons b bytes ih =>
    obtain ⟨hlf, hcr⟩ := h b List.mem_cons_self
    rw [List.cons_append, splitLoop_cons, if_neg (by simp [hlf, hcr]),
      ih fun b hb => h b (List.mem_cons_of_mem _ hb), List.length_cons]
    congr 1
    omega

lemma ne_of_mem_utf8EncodeChar {c : Char} (hc : ¬IsBreak c) {b : UInt8}
    (hb : b ∈ String.utf8EncodeChar c) : b ≠ 10 ∧ b ≠ 13 := by
  refine ⟨?_, ?_⟩ <;> rintro rfl
  · exact hc (.inl (Char.toNat_inj.1 (toNat_of_mem_utf8EncodeChar hb (by decide))))
  · exact hc (.inr (Char.toNat_inj.1 (toNat_of_mem_utf8EncodeChar hb (by decide))))

lemma pushLine_eq (before cur after : List Char) (lines : List (List Char)) :
    pushLine caps (before ++ (cur ++ after)) lines (byteLen before) (byteLen before + byteLen cur) =
      if caps.maxLines ≤ lines.length then reject .tooManyLines
      else if caps.maxLineBytes < byteLen cur then
        reject (.lineTooLong (lineNumber lines.length))
      else .ok (lines ++ [cur]) := by
  rw [pushLine, getRange_append, Nat.add_sub_cancel_left]
  rfl

lemma checkLines_cons (l : List Char) (ls lines : List (List Char)) :
    checkLines caps (l :: ls) lines =
      (if caps.maxLines ≤ lines.length then reject .tooManyLines
      else if caps.maxLineBytes < byteLen l then reject (.lineTooLong (lineNumber lines.length))
      else .ok (lines ++ [l]) : Parsed _) >>= checkLines caps ls := by
  rw [checkLines]
  split_ifs <;> rfl

lemma head?_encodeUtf8 {s : List Char} : (encodeUtf8 s).head? = some 10 ↔ s.head? = some '\n' := by
  cases s with
  | nil => simp
  | cons c s =>
    rw [encodeUtf8_cons, List.head?_cons, Option.some_inj]
    refine ⟨fun h => ?_, ?_⟩
    · obtain ⟨rest, hrest⟩ := List.head?_eq_some_iff.1 h
      have hmem : (10 : UInt8) ∈ String.utf8EncodeChar c := by
        cases hbytes : String.utf8EncodeChar c with
        | nil => exact absurd hbytes String.utf8EncodeChar_ne_nil
        | cons b bytes =>
          rw [hbytes] at hrest
          cases hrest
          exact List.mem_cons_self
      exact Char.toNat_inj.1 (toNat_of_mem_utf8EncodeChar hmem (by decide))
    · rintro rfl
      rfl

lemma linesFrom_cons (c : Char) (rest cur : List Char) :
    linesFrom (c :: rest) cur =
      if IsBreak c then
        cur :: if c = '\r' ∧ rest.head? = some '\n' then linesFrom rest.tail
          [] else linesFrom rest []
      else linesFrom rest (cur ++ [c]) := by
  cases rest with
  | nil => simp [linesFrom]
  | cons d rest => simp [linesFrom]

lemma utf8EncodeChar_of_isBreak {c : Char} (h : IsBreak c) :
    ∃ b : UInt8, String.utf8EncodeChar c = [b] ∧ (b = 10 ∨ b = 13) ∧ (b = 13 ↔ c = '\r') ∧
      c.utf8Size = 1 := by
  rcases h with rfl | rfl
  · exact ⟨10, rfl, .inl rfl, by decide, rfl⟩
  · exact ⟨13, rfl, .inr rfl, by decide, rfl⟩

/-- The scan of the rest of a text, in the middle of a line. -/
lemma splitLoop_eq (before cur rest : List Char) (lines : List (List Char)) :
    splitLoop caps (before ++ (cur ++ rest)) (encodeUtf8 rest) (byteLen before)
      (byteLen before + byteLen cur) lines = checkLines caps (linesFrom rest cur) lines := by
  induction hn : rest.length using Nat.strong_induction_on generalizing before cur rest lines with
  | _ n ih =>
    cases rest with
    | nil =>
      rw [encodeUtf8_nil, splitLoop, pushLast, linesFrom]
      by_cases hcur : cur = []
      · simp [hcur, checkLines]
      · have hpos : byteLen before < byteLen before + byteLen cur := by
          obtain ⟨c, cur, rfl⟩ := List.exists_cons_of_ne_nil hcur
          have := c.utf8Size_pos
          simp only [byteLen_cons]
          omega
        rw [if_pos hpos, if_neg hcur, checkLines_cons, pushLine_eq]
        split_ifs <;> rfl
    | cons c rest =>
      rw [encodeUtf8_cons, linesFrom_cons]
      by_cases hc : IsBreak c
      · obtain ⟨b, hb, hbreak, hcr, hsize⟩ := utf8EncodeChar_of_isBreak hc
        -- the next line begins after the break
        have hnext (lines : List (List Char)) :
            (if b = 13 ∧ (encodeUtf8 rest).head? = some 10 then
              splitLoop caps (before ++ (cur ++ c :: rest)) (encodeUtf8 rest).tail
                (byteLen before + byteLen cur + 2) (byteLen before + byteLen cur + 2) lines
            else splitLoop caps (before ++ (cur ++ c :: rest)) (encodeUtf8 rest)
                (byteLen before + byteLen cur + 1) (byteLen before + byteLen cur + 1) lines) =
            checkLines caps (if c = '\r' ∧ rest.head? = some '\n' then linesFrom rest.tail []
              else linesFrom rest []) lines := by
          simp only [hcr, head?_encodeUtf8]
          split_ifs with hcrlf
          · obtain ⟨rest, rfl⟩ := List.head?_eq_some_iff.1 hcrlf.2
            have htail : (String.utf8EncodeChar '\n').tail = [] := rfl
            have hlf : '\n'.utf8Size = 1 := rfl
            have := ih rest.length (by simp only [← hn, List.length_cons]; omega)
              (before ++ (cur ++ [c, '\n'])) [] rest lines rfl
            simpa [hsize, htail, hlf, Nat.add_assoc] using this
          · have := ih rest.length (by simp [← hn]) (before ++ (cur ++ [c])) [] rest lines rfl
            simpa [hsize, Nat.add_assoc] using this
        rw [hb, List.singleton_append, splitLoop_cons, if_pos hbreak, if_pos hc, checkLines_cons,
          pushLine_eq]
        simp only [hnext]
      · rw [splitLoop_append fun b => ne_of_mem_utf8EncodeChar hc, if_neg hc]
        have := ih rest.length (by simp [← hn]) before (cur ++ [c]) rest lines rfl
        rw [← this, String.length_utf8EncodeChar]
        simp [Nat.add_assoc]

/-- **Every slice is there**, and the lines are those of the text. -/
lemma splitLines_eq (text : List Char) : splitLines caps text = checkLines caps (linesOf text) [] :=
  splitLoop_eq [] [] text []

/-! ### What the caps on lines do -/

/-- The lines pass, or the file is rejected. -/
lemma checkLines_eq (caps : Caps) (ls lines : List (List Char)) :
    checkLines caps ls lines = .ok (lines ++ ls) ∨ ∃ e, checkLines caps ls lines = reject e := by
  induction ls generalizing lines with
  | nil => exact .inl (by simp [checkLines])
  | cons l ls ih =>
    rw [checkLines]
    split_ifs
    · exact .inr ⟨_, rfl⟩
    · exact .inr ⟨_, rfl⟩
    · simpa using ih (lines ++ [l])

/-- They pass when they are few and short enough. -/
lemma checkLines_eq_ok_iff (caps : Caps) (ls lines : List (List Char)) :
    (∃ r, checkLines caps ls lines = .ok r) ↔
      (ls = [] ∨ lines.length + ls.length ≤ caps.maxLines) ∧ ∀ l ∈ ls,
        byteLen l ≤ caps.maxLineBytes := by
  induction ls generalizing lines with
  | nil => simp [checkLines]
  | cons l ls ih =>
    rw [checkLines]
    split_ifs with hmany hlong
    · simp only [reject, reduceCtorEq, exists_false, false_iff, not_and_or, false_or,
        List.length_cons]
      exact .inl (by omega)
    · simp only [reject, reduceCtorEq, exists_false, false_iff, not_and_or]
      exact .inr fun hall => absurd (hall l List.mem_cons_self) (by omega)
    · rw [ih]
      simp only [List.length_append, List.length_cons, List.length_nil, false_or,
        List.forall_mem_cons]
      constructor
      · rintro ⟨hcount, hall⟩
        refine ⟨?_, by omega, hall⟩
        rcases hcount with rfl | hcount
        · simp only [List.length_nil]
          omega
        · omega
      · rintro ⟨hcount, -, hall⟩
        exact ⟨.inr (by omega), hall⟩

/-- **What `split_lines` returns.** -/
lemma splitLines_eq_ok_iff {text : List Char} {lines : List (List Char)} :
    splitLines caps text = .ok lines ↔ lines = linesOf text ∧
      (linesOf text).length ≤ caps.maxLines ∧ ∀ l ∈ linesOf text,
        byteLen l ≤ caps.maxLineBytes := by
  rw [splitLines_eq]
  have hiff := checkLines_eq_ok_iff caps (linesOf text) []
  simp only [List.length_nil, zero_add] at hiff
  constructor
  · intro h
    obtain ⟨hcount, hall⟩ := hiff.1 ⟨lines, h⟩
    refine ⟨?_, ?_, hall⟩
    · rcases checkLines_eq caps (linesOf text) [] with heq | ⟨e, heq⟩
      · exact (Except.ok.inj (heq.symm.trans h)).symm
      · cases heq.symm.trans h
    · rcases hcount with hnil | hcount
      · simp [hnil]
      · exact hcount
  · rintro ⟨rfl, hcount, hall⟩
    obtain ⟨r, hr⟩ := hiff.2 ⟨.inr hcount, hall⟩
    rcases checkLines_eq caps (linesOf text) [] with heq | ⟨e, heq⟩
    · exact heq
    · cases heq.symm.trans hr

end Locast.Subtitles

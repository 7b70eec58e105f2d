import Locast.Lib.Base64
import Mathlib.Data.Int.Notation
import Mathlib.Data.Nat.Notation

/-!
# Compact JSON text

The text of a JSON value with nothing between its tokens: strings escape the quote, the backslash
and the control characters, everything else stands as its UTF-8, and a number is its decimal digits.
Each writer comes with the length of what it writes.
-/

namespace Locast.Lib.JsonText

/-! ### Characters -/

/-- The bytes of a string. -/
def utf8 (s : String) : List UInt8 := s.toList.flatMap String.utf8EncodeChar

lemma utf8EncodeChar_append_inj {c d : Char} {x y : List UInt8}
    (h : String.utf8EncodeChar c ++ x = String.utf8EncodeChar d ++ y) : c = d ∧ x = y := by
  have hc (c : Char) (x : List UInt8) :
      ByteArray.utf8DecodeChar? (String.utf8EncodeChar c ++ x).toByteArray 0 = some c := by
    rw [List.toByteArray_append]
    exact ByteArray.utf8DecodeChar?_utf8EncodeChar_append
  have hcd : c = d := Option.some.inj ((hc c x).symm.trans ((congrArg (fun b =>
    ByteArray.utf8DecodeChar? b.toByteArray 0) h).trans (hc d y)))
  subst hcd
  exact ⟨rfl, List.append_cancel_left h⟩

/-- Equal bytes are bytes of equal strings. -/
lemma utf8_inj {s t : String} (h : utf8 s = utf8 t) : s = t := by
  have key : ∀ l m : List Char, l.flatMap String.utf8EncodeChar = m.flatMap String.utf8EncodeChar →
      l = m := by
    intro l
    induction l with
    | nil =>
      rintro (- | ⟨d, m⟩) h
      · rfl
      · have hpos := Char.utf8Size_pos d
        have := congrArg List.length h
        simp at this
        omega
    | cons c l ih =>
      rintro (- | ⟨d, m⟩) h
      · have hpos := Char.utf8Size_pos c
        have := congrArg List.length h
        simp at this
        omega
      · obtain ⟨rfl, hrest⟩ := utf8EncodeChar_append_inj h
        rw [ih m hrest]
  exact String.toList_inj.1 (key _ _ h)

@[simp] lemma length_utf8 (s : String) : (utf8 s).length = s.utf8ByteSize := by
  have hsize := Base64.utf8ByteSize_ofList s.toList
  rw [String.ofList_toList] at hsize
  rw [utf8, List.length_flatMap, hsize]
  exact congrArg List.sum (List.map_congr_left fun c _ => String.length_utf8EncodeChar c)

/-- The lower-case hexadecimal digit of four bits. -/
def hexDigit (v : ℕ) : UInt8 := UInt8.ofNat (if v < 10 then v + 48 else v + 87)

/-- One character inside the quotes. -/
def escape (c : Char) : List UInt8 :=
  if c = '"' then [92, 34]
  else if c = '\\' then [92, 92]
  else if c.toNat = 8 then [92, 98]
  else if c.toNat = 9 then [92, 116]
  else if c.toNat = 10 then [92, 110]
  else if c.toNat = 12 then [92, 102]
  else if c.toNat = 13 then [92, 114]
  else if c.toNat < 32 then [92, 117, 48, 48, hexDigit (c.toNat / 16), hexDigit (c.toNat % 16)]
  else String.utf8EncodeChar c

/-- How many bytes a character takes inside the quotes. -/
def escapedSize (c : Char) : ℕ :=
  if c = '"' ∨ c = '\\' ∨ c.toNat = 8 ∨ c.toNat = 9 ∨ c.toNat = 10 ∨ c.toNat = 12 ∨
    c.toNat = 13 then 2
  else if c.toNat < 32 then 6
  else c.utf8Size

lemma length_escape (c : Char) : (escape c).length = escapedSize c := by
  unfold escape escapedSize
  by_cases h₁ : c = '"'
  · simp [h₁]
  by_cases h₂ : c = '\\'
  · simp [h₂]
  simp only [h₁, h₂, if_false, false_or]
  split_ifs <;> first | rfl | omega | simp

/-- The size of a string between its quotes. -/
def textSize (s : String) : ℕ := (s.toList.map escapedSize).sum

/-- A character that stands as itself in one byte. -/
def Plain (c : Char) : Prop := 32 ≤ c.toNat ∧ c.toNat < 127 ∧ c ≠ '"' ∧ c ≠ '\\'

instance (c : Char) : Decidable (Plain c) := inferInstanceAs (Decidable (_ ∧ _))

lemma utf8Size_of_plain {c : Char} (h : Plain c) : c.utf8Size = 1 := by
  rw [Char.utf8Size_eq_one_iff, UInt32.le_iff_toNat_le]
  exact Nat.le_of_lt_succ (Nat.lt_succ_of_lt h.2.1)

lemma escapedSize_of_plain {c : Char} (h : Plain c) : escapedSize c = c.utf8Size := by
  obtain ⟨hlow, -, hquote, hslash⟩ := h
  unfold escapedSize
  rw [if_neg (by simp only [hquote, hslash, false_or]; omega), if_neg (by omega)]

/-- A string of plain characters is as long as its text. -/
lemma textSize_of_plain {s : String} (h : ∀ c ∈ s.toList, Plain c) :
    textSize s = s.utf8ByteSize := by
  have hsize := Base64.utf8ByteSize_ofList s.toList
  rw [String.ofList_toList] at hsize
  rw [textSize, hsize]
  exact congrArg List.sum (List.map_congr_left fun c hc => escapedSize_of_plain (h c hc))

/-! ### Values -/

/-- A string. -/
def text (s : String) : List UInt8 := 34 :: (s.toList.flatMap escape ++ [34])

@[simp] lemma length_text (s : String) : (text s).length = textSize s + 2 := by
  have hlen : (s.toList.flatMap escape).length = textSize s := by
    rw [List.length_flatMap, textSize]
    exact congrArg List.sum (List.map_congr_left fun c _ => length_escape c)
  simp [text, hlen]

/-- How many digits a number has. -/
def digitCount (n : ℕ) : ℕ := (Nat.toDigits 10 n).length

/-- A number that is not negative. -/
def nat (n : ℕ) : List UInt8 := (Nat.toDigits 10 n).map fun c => UInt8.ofNat c.toNat

@[simp] lemma length_nat (n : ℕ) : (nat n).length = digitCount n := by simp [nat, digitCount]

lemma one_le_digitCount (n : ℕ) : 1 ≤ digitCount n := by
  have hne : Nat.toDigits 10 n ≠ [] := Nat.toDigits_ne_nil
  exact List.length_pos_iff.2 hne

lemma digitCount_le_iff {n k : ℕ} (hk : 0 < k) : digitCount n ≤ k ↔ n < 10 ^ k :=
  Nat.length_toDigits_le_iff (by decide) hk

/-- A whole number. -/
def int : ℤ → List UInt8
  | .ofNat n => nat n
  | .negSucc n => 45 :: nat (n + 1)

/-- How many characters a whole number has. -/
def intSize : ℤ → ℕ
  | .ofNat n => digitCount n
  | .negSucc n => digitCount (n + 1) + 1

@[simp] lemma length_int (z : ℤ) : (int z).length = intSize z := by
  cases z <;> simp [int, intSize]

/-- Items with a comma between them. -/
def separated : List (List UInt8) → List UInt8
  | [] => []
  | [x] => x
  | x :: rest => x ++ 44 :: separated rest

/-- An array of numbers. -/
def nats (l : List ℕ) : List UInt8 := 91 :: (separated (l.map nat) ++ [93])

/-- The size of an array of numbers between its brackets. -/
def natsSize (l : List ℕ) : ℕ := (l.map digitCount).sum + (l.length - 1)

@[simp] lemma length_nats (l : List ℕ) : (nats l).length = natsSize l + 2 := by
  have hlen : (separated (l.map nat)).length = natsSize l := by
    induction l with
    | nil => rfl
    | cons n rest ih =>
      cases rest with
      | nil => simp [separated, natsSize]
      | cons m rest =>
        rw [List.map_cons] at ih
        rw [List.map_cons, List.map_cons, separated, List.length_append, List.length_cons, ih]
        · simp [natsSize]
          omega
        · exact List.cons_ne_nil _ _
  simp [nats, hlen]

/-- From `a` on, every number has at least `d` digits. -/
lemma le_digits_range {a d : ℕ} (h : ∀ i, a ≤ i → d ≤ digitCount i) (k : ℕ) :
    ((List.range a).map digitCount).sum + k * d ≤ ((List.range (a + k)).map digitCount).sum := by
  induction k with
  | zero => simp
  | succ k ih =>
    have hlast := h (a + k) (Nat.le_add_right _ _)
    rw [← Nat.add_assoc, List.range_succ, List.map_append, List.sum_append, Nat.succ_mul]
    simp only [List.map_cons, List.map_nil, List.sum_cons, List.sum_nil]
    omega

/-! ### Objects -/

/-- One more member of an object that has some. -/
def member (key : String) (value : List UInt8) : List UInt8 := 44 :: (text key ++ 58 :: value)

@[simp] lemma length_member (key : String) (value : List UInt8) :
    (member key value).length = textSize key + 4 + value.length := by
  simp [member]
  omega

end Locast.Lib.JsonText

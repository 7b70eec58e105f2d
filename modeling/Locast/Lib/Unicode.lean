import Mathlib.Data.List.Basic
import Mathlib.Tactic.SplitIfs

/-!
# UTF-8 and UTF-16, read strictly

What is not an encoding of a text is refused; the encoding of a text is read back as that text.
-/

namespace Locast.Lib

/-! ### ASCII letters -/

lemma isUpper_eq (c : Char) : c.isUpper = decide ('A'.val ≤ c.val ∧ c.val ≤ 'Z'.val) := rfl

lemma isLower_eq (c : Char) : c.isLower = (decide ('a'.val ≤ c.val) && decide (c.val ≤ 'z'.val)) :=
  rfl

lemma isAlpha_eq (c : Char) : c.isAlpha = (c.isUpper || c.isLower) := rfl

/-! ### UTF-8 -/

def encodeUtf8 (s : List Char) : List UInt8 := s.flatMap String.utf8EncodeChar

/-- `std::str::from_utf8`. -/
def decodeUtf8 (bytes : List UInt8) : Option (List Char) :=
  bytes.toByteArray.utf8Decode?.map Array.toList

lemma decodeUtf8_encodeUtf8 (s : List Char) : decodeUtf8 (encodeUtf8 s) = some s := by
  have h : (encodeUtf8 s).toByteArray = s.utf8Encode := rfl
  rw [decodeUtf8, h, List.utf8Decode?_utf8Encode, Option.map_some]

/-- A byte below 128 is an ASCII character. -/
lemma toNat_of_mem_utf8EncodeChar {c : Char} {b : UInt8} (h : b ∈ String.utf8EncodeChar c)
    (hb : b.toNat < 128) : c.toNat = b.toNat := by
  have hc : c.val.toNat = c.toNat := rfl
  have hbound : ∀ n : ℕ, (UInt8.ofNat n).toNat = n % 256 := fun n => UInt8.toNat_ofNat'
  unfold String.utf8EncodeChar at h
  dsimp only at h
  split_ifs at h <;> simp only [List.mem_cons, List.not_mem_nil, or_false] at h
  · subst h
    rw [hbound] at hb ⊢
    omega
  · rcases h with rfl | rfl <;> rw [hbound] at hb <;> omega
  · rcases h with rfl | rfl | rfl <;> rw [hbound] at hb <;> omega
  · rcases h with rfl | rfl | rfl | rfl <;> rw [hbound] at hb <;> omega

lemma valid_toNat (c : Char) : c.toNat < 0xD800 ∨ (0xDFFF < c.toNat ∧ c.toNat < 0x110000) := c.valid

lemma lt_of_mem_utf8EncodeChar {c : Char} {b : UInt8} (h : b ∈ String.utf8EncodeChar c) :
    b.toNat < 0xF8 := by
  have hvalid := valid_toNat c
  have hc : c.val.toNat = c.toNat := rfl
  have hbound : ∀ n : ℕ, (UInt8.ofNat n).toNat = n % 256 := fun n => UInt8.toNat_ofNat'
  unfold String.utf8EncodeChar at h
  dsimp only at h
  split_ifs at h <;> simp only [List.mem_cons, List.not_mem_nil, or_false] at h
  · subst h
    rw [hbound]
    omega
  · rcases h with rfl | rfl <;> rw [hbound] <;> omega
  · rcases h with rfl | rfl | rfl <;> rw [hbound] <;> omega
  · rcases h with rfl | rfl | rfl | rfl <;> rw [hbound] <;> omega

/-- A text begins with the bytes of a mark only if it begins with the mark. -/
lemma eq_of_utf8EncodeChar_append {c : Char} {tail rest : List UInt8}
    (h : String.utf8EncodeChar c ++ tail = 0xEF :: 0xBB :: 0xBF :: rest) : c = '\uFEFF' := by
  have hvalid := valid_toNat c
  have hc : c.val.toNat = c.toNat := rfl
  have hbyte : ∀ (n : ℕ) (b : UInt8), UInt8.ofNat n = b → n % 256 = b.toNat := by
    rintro n b rfl
    exact UInt8.toNat_ofNat'.symm
  unfold String.utf8EncodeChar at h
  dsimp only at h
  have hmark : c.toNat = 0xFEFF → c = '\uFEFF' := fun h => Char.toNat_inj.1 h
  split_ifs at h <;> simp only [List.cons_append, List.nil_append, List.cons.injEq] at h
  · have h₁ : _ % 256 = 0xEF := hbyte _ _ h.1
    omega
  · have h₁ : _ % 256 = 0xEF := hbyte _ _ h.1
    omega
  · have h₁ : _ % 256 = 0xEF := hbyte _ _ h.1
    have h₂ : _ % 256 = 0xBB := hbyte _ _ h.2.1
    have h₃ : _ % 256 = 0xBF := hbyte _ _ h.2.2.1
    exact hmark (by omega)
  · have h₁ : _ % 256 = 0xEF := hbyte _ _ h.1
    omega

@[simp] lemma encodeUtf8_nil : encodeUtf8 [] = [] := rfl

@[simp] lemma encodeUtf8_cons (c : Char) (s : List Char) :
    encodeUtf8 (c :: s) = String.utf8EncodeChar c ++ encodeUtf8 s := rfl

/-! ### UTF-16 -/

/-- The code units of a character. -/
def encodeUtf16 (c : Char) : List ℕ :=
  let n := c.toNat
  if n < 0x10000 then [n]
  else [0xD800 + (n - 0x10000) / 0x400, 0xDC00 + (n - 0x10000) % 0x400]

/-- `String::from_utf16`. -/
def decodeUtf16 : List ℕ → Option (List Char)
  | [] => some []
  | [u] => if 0xD800 ≤ u ∧ u < 0xE000 then none else some [Char.ofNat u]
  | u :: v :: rest =>
    if 0xD800 ≤ u ∧ u < 0xDC00 then
      if 0xDC00 ≤ v ∧ v < 0xE000 then
        (decodeUtf16 rest).map (Char.ofNat (0x10000 + (u - 0xD800) * 0x400 + (v - 0xDC00)) :: ·)
      else none
    else if 0xDC00 ≤ u ∧ u < 0xE000 then none
    else (decodeUtf16 (v :: rest)).map (Char.ofNat u :: ·)

lemma decodeUtf16_encodeUtf16_append (c : Char) (rest : List ℕ) :
    decodeUtf16 (encodeUtf16 c ++ rest) = (decodeUtf16 rest).map (c :: ·) := by
  have hvalid := valid_toNat c
  unfold encodeUtf16
  dsimp only
  split_ifs with hsmall
  · have hplain : ¬(0xD800 ≤ c.toNat ∧ c.toNat < 0xDC00) := by omega
    cases rest with
    | nil =>
      simp only [List.append_nil, decodeUtf16, Option.map_some]
      rw [if_neg (by omega), Char.ofNat_toNat]
    | cons v rest =>
      rw [List.singleton_append, decodeUtf16, if_neg hplain, if_neg (by omega), Char.ofNat_toNat]
  · rw [List.cons_append, List.singleton_append, decodeUtf16, if_pos (by omega), if_pos (by omega)]
    have hback : 0x10000 + (0xD800 + (c.toNat - 0x10000) / 0x400 - 0xD800) * 0x400 +
        (0xDC00 + (c.toNat - 0x10000) % 0x400 - 0xDC00) = c.toNat := by omega
    rw [hback, Char.ofNat_toNat]

/-- **The encoding of a text is read back.** -/
lemma decodeUtf16_flatMap (s : List Char) : decodeUtf16 (s.flatMap encodeUtf16) = some s := by
  induction s with
  | nil => rfl
  | cons c s ih =>
    rw [List.flatMap_cons, decodeUtf16_encodeUtf16_append, ih]
    rfl

lemma lt_of_mem_encodeUtf16 {c : Char} {u : ℕ} (h : u ∈ encodeUtf16 c) : u < 0x10000 := by
  have hvalid := valid_toNat c
  unfold encodeUtf16 at h
  dsimp only at h
  split_ifs at h
  · simp only [List.mem_singleton] at h
    omega
  · simp only [List.mem_cons, List.not_mem_nil, or_false] at h
    omega

end Locast.Lib

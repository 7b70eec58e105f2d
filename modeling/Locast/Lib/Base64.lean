import Mathlib.Data.List.Basic
import Mathlib.Data.Nat.Notation
import Mathlib.Algebra.GroupWithZero.Nat

/-!
# Base64 (the standard alphabet, with padding)

Three bytes are four characters.  The last group is padded, and a decoder takes the canonical form
only: the bits the padding stands for are zero.
-/

namespace Locast.Lib.Base64

/-! ### The alphabet -/

/-- The character of six bits. -/
def digit (v : ℕ) : Char :=
  if v < 26 then Char.ofNat (v + 65)
  else if v < 52 then Char.ofNat (v + 71)
  else if v < 62 then Char.ofNat (v - 4)
  else if v = 62 then '+'
  else '/'

/-- The six bits of a character. -/
def value (c : Char) : Option ℕ :=
  let n := c.toNat
  if 65 ≤ n ∧ n ≤ 90 then some (n - 65)
  else if 97 ≤ n ∧ n ≤ 122 then some (n - 71)
  else if 48 ≤ n ∧ n ≤ 57 then some (n + 4)
  else if c = '+' then some 62
  else if c = '/' then some 63
  else none

lemma value_digit {v : ℕ} (h : v < 64) : value (digit v) = some v := by
  have hall : ∀ v < 64, value (digit v) = some v := by decide
  exact hall v h

lemma digit_size {v : ℕ} (h : v < 64) : (digit v).utf8Size = 1 := by
  have hall : ∀ v < 64, (digit v).utf8Size = 1 := by decide
  exact hall v h

/-! ### Groups -/

/-- The characters of a list of bytes. -/
def encodeBytes : List UInt8 → List Char
  | [] => []
  | [a] => [digit (a.toNat / 4), digit (a.toNat % 4 * 16), '=', '=']
  | [a, b] =>
    [digit (a.toNat / 4), digit (a.toNat % 4 * 16 + b.toNat / 16), digit (b.toNat % 16 * 4), '=']
  | a :: b :: c :: rest =>
    digit (a.toNat / 4) :: digit (a.toNat % 4 * 16 + b.toNat / 16) ::
      digit (b.toNat % 16 * 4 + c.toNat / 64) :: digit (c.toNat % 64) :: encodeBytes rest

/-- The bytes of a list of characters. -/
def decodeChars : List Char → Option (List UInt8)
  | [] => some []
  | w :: x :: y :: z :: rest =>
    match value w, value x with
    | some w, some x =>
      match value y, value z with
      | some y, some z => (decodeChars rest).map fun bytes =>
          UInt8.ofNat (w * 4 + x / 16) :: UInt8.ofNat (x % 16 * 16 + y / 4) ::
            UInt8.ofNat (y % 4 * 64 + z) :: bytes
      | some y, none =>
        if z = '=' ∧ rest = [] ∧ y % 4 = 0 then
          some [UInt8.ofNat (w * 4 + x / 16), UInt8.ofNat (x % 16 * 16 + y / 4)]
        else none
      | none, _ =>
        if y = '=' ∧ z = '=' ∧ rest = [] ∧ x % 16 = 0 then some [UInt8.ofNat (w * 4 + x / 16)]
        else none
    | _, _ => none
  | _ => none

/-- **The round trip.** -/
theorem decodeChars_encodeBytes (bytes : List UInt8) :
    decodeChars (encodeBytes bytes) = some bytes := by
  have hpad : value '=' = none := rfl
  have hbyte (a : UInt8) (n : ℕ) (h : n = a.toNat) : UInt8.ofNat n = a := by
    rw [h, UInt8.ofNat_toNat]
  fun_induction encodeBytes bytes with
  | case1 => rfl
  | case2 a =>
    have ha := a.toNat_lt
    rw [decodeChars, value_digit (by omega), value_digit (by omega)]
    simp only [hpad]
    rw [if_pos ⟨trivial, trivial, trivial, by omega⟩, hbyte a _ (by omega)]
  | case3 a b =>
    have ha := a.toNat_lt
    have hb := b.toNat_lt
    rw [decodeChars, value_digit (by omega), value_digit (by omega), value_digit (by omega)]
    simp only [hpad]
    rw [if_pos ⟨trivial, trivial, by omega⟩, hbyte a _ (by omega), hbyte b _ (by omega)]
  | case4 a b c rest ih =>
    have ha := a.toNat_lt
    have hb := b.toNat_lt
    have hc := c.toNat_lt
    rw [decodeChars, value_digit (by omega), value_digit (by omega), value_digit (by omega),
      value_digit (by omega)]
    simp only [ih, Option.map_some]
    rw [hbyte a _ (by omega), hbyte b _ (by omega), hbyte c _ (by omega)]

/-! ### Strings -/

def encode (bytes : List UInt8) : String := .ofList (encodeBytes bytes)

def decode (s : String) : Option (List UInt8) := decodeChars s.toList

/-- **The round trip**, on strings. -/
theorem decode_encode (bytes : List UInt8) : decode (encode bytes) = some bytes := by
  rw [decode, encode, String.toList_ofList, decodeChars_encodeBytes]

lemma utf8ByteSize_ofList (cs : List Char) :
    (String.ofList cs).utf8ByteSize = (cs.map Char.utf8Size).sum := by
  induction cs with
  | nil => rfl
  | cons c cs ih =>
    rw [String.ofList_cons, String.utf8ByteSize_append, String.utf8ByteSize_singleton, ih]
    rfl

/-- Characters of ASCII take a byte each. -/
lemma utf8ByteSize_ofList_ascii {cs : List Char} (h : ∀ c ∈ cs, c.toNat ≤ 127) :
    (String.ofList cs).utf8ByteSize = cs.length := by
  rw [utf8ByteSize_ofList]
  induction cs with
  | nil => rfl
  | cons c cs ih =>
    have hc := Char.utf8Size_eq_one_iff.2 (UInt32.le_iff_toNat_le.2 (h c List.mem_cons_self))
    rw [List.map_cons, List.sum_cons, ih fun d hd => h d (List.mem_cons_of_mem _ hd), hc,
      List.length_cons, Nat.add_comm]

/-- Every three bytes, and the bytes left over, take four characters. -/
theorem encode_size (bytes : List UInt8) :
    (encode bytes).utf8ByteSize = (bytes.length + 2) / 3 * 4 := by
  have hpad : '='.utf8Size = 1 := rfl
  rw [encode, utf8ByteSize_ofList]
  fun_induction encodeBytes bytes with
  | case1 => rfl
  | case2 a =>
    have ha := a.toNat_lt
    simp only [List.map_cons, List.map_nil, List.sum_cons, List.sum_nil, hpad]
    rw [digit_size (by omega), digit_size (by omega)]
    simp
  | case3 a b =>
    have ha := a.toNat_lt
    have hb := b.toNat_lt
    simp only [List.map_cons, List.map_nil, List.sum_cons, List.sum_nil, hpad]
    rw [digit_size (by omega), digit_size (by omega), digit_size (by omega)]
    simp
  | case4 a b c rest ih =>
    have ha := a.toNat_lt
    have hb := b.toNat_lt
    have hc := c.toNat_lt
    simp only [List.map_cons, List.sum_cons, ih, List.length_cons]
    rw [digit_size (by omega), digit_size (by omega), digit_size (by omega), digit_size (by omega)]
    omega

lemma encode_ne_empty {bytes : List UInt8} (h : bytes ≠ []) : encode bytes ≠ "" := by
  intro he
  have hd := decode_encode bytes
  rw [he] at hd
  exact h (Option.some.inj hd).symm

end Locast.Lib.Base64

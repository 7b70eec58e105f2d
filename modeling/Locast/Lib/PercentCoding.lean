import Locast.Lib.Unicode

/-!
# Percent coding

What a coding of one segment of a URL is relied on for, and a coding that is like that: bytes that
are not unreserved become `%` and two hexadecimal digits.
-/

namespace Locast.Lib

/-- RFC 3986, section 2.3. -/
def isUnreserved (c : Char) : Bool :=
  c.isAlphanum || c == '-' || c == '_' || c == '.' || c == '~'

/-- **A percent coding**: what it writes is read back, it writes nothing but unreserved characters
and escapes, and it leaves unreserved characters as they are. -/
structure PercentCoding (encode : List Char → List Char) (decode : List Char → Option (List Char)) :
    Prop where
  decode_encode : ∀ s, decode (encode s) = some s
  plain : ∀ s, ∀ c ∈ encode s, isUnreserved c = true ∨ c = '%'
  unreserved : ∀ s : List Char, (∀ c ∈ s, isUnreserved c = true) → encode s = s

namespace PercentCoding

/-! ### Hexadecimal digits -/

def digits : List Char := "0123456789ABCDEF".toList

/-- The digit of a number below 16. -/
def digit (n : ℕ) : Char := digits.getD n '0'

/-- The number of a digit, in either case. -/
def value? (c : Char) : Option ℕ :=
  if c.isDigit then some (c.toNat - 48)
  else if 'A' ≤ c ∧ c ≤ 'F' then some (c.toNat - 55)
  else if 'a' ≤ c ∧ c ≤ 'f' then some (c.toNat - 87)
  else none

lemma value?_digit {n : ℕ} (h : n < 16) : value? (digit n) = some n := by
  revert n
  decide

lemma isUnreserved_digit {n : ℕ} (h : n < 16) : isUnreserved (digit n) = true := by
  revert n
  decide

/-! ### The coding -/

def encodeByte (b : UInt8) : List Char :=
  if b.toNat < 128 ∧ isUnreserved (Char.ofNat b.toNat) then [Char.ofNat b.toNat]
  else ['%', digit (b.toNat / 16), digit (b.toNat % 16)]

def encodeChars (s : List Char) : List Char := (encodeUtf8 s).flatMap encodeByte

/-- A `%` that two digits do not follow stands for itself. -/
def decodeBytes : List Char → List UInt8
  | [] => []
  | c :: rest =>
    match c, rest with
    | '%', a :: b :: rest' =>
      match value? a, value? b with
      | some x, some y => UInt8.ofNat (16 * x + y) :: decodeBytes rest'
      | _, _ => String.utf8EncodeChar '%' ++ decodeBytes (a :: b :: rest')
    | c, rest => String.utf8EncodeChar c ++ decodeBytes rest

def decodeChars (s : List Char) : Option (List Char) := decodeUtf8 (decodeBytes s)

/-! ### What is written is read back -/

lemma decodeBytes_cons_of_ne {c : Char} (h : c ≠ '%') (rest : List Char) :
    decodeBytes (c :: rest) = String.utf8EncodeChar c ++ decodeBytes rest := by
  rw [decodeBytes]
  exact fun _ _ _ heq _ => h heq

lemma utf8EncodeChar_ascii {c : Char} (h : c.toNat < 128) :
    String.utf8EncodeChar c = [UInt8.ofNat c.toNat] := by
  have hc : c.val.toNat = c.toNat := rfl
  unfold String.utf8EncodeChar
  dsimp only
  rw [if_pos (by omega), hc]

lemma toNat_ofNat_byte (b : UInt8) : (Char.ofNat b.toNat).toNat = b.toNat := by
  have hb := b.toNat_lt
  unfold Char.ofNat
  rw [dif_pos (Or.inl (by omega))]
  rfl

lemma decodeBytes_encodeByte (b : UInt8) (rest : List Char) :
    decodeBytes (encodeByte b ++ rest) = b :: decodeBytes rest := by
  unfold encodeByte
  split
  · rename_i h
    have hne : Char.ofNat b.toNat ≠ '%' := by
      intro heq
      rw [heq] at h
      exact absurd h.2 (by decide)
    have hsmall : (Char.ofNat b.toNat).toNat < 128 := by
      rw [toNat_ofNat_byte]
      exact h.1
    rw [List.singleton_append, decodeBytes_cons_of_ne hne, utf8EncodeChar_ascii hsmall,
      toNat_ofNat_byte, UInt8.ofNat_toNat]
    rfl
  · have hb := b.toNat_lt
    have hhigh : value? (digit (b.toNat / 16)) = some (b.toNat / 16) := value?_digit (by omega)
    have hlow : value? (digit (b.toNat % 16)) = some (b.toNat % 16) := value?_digit (by omega)
    simp only [List.cons_append, List.nil_append, decodeBytes, hhigh, hlow]
    rw [Nat.div_add_mod, UInt8.ofNat_toNat]

lemma decodeBytes_flatMap (bytes : List UInt8) :
    decodeBytes (bytes.flatMap encodeByte) = bytes := by
  induction bytes with
  | nil => rfl
  | cons b bytes ih => rw [List.flatMap_cons, decodeBytes_encodeByte, ih]

lemma isUnreserved_lt {c : Char} (h : isUnreserved c = true) : c.toNat < 128 := by
  unfold isUnreserved at h
  simp only [Bool.or_eq_true, beq_iff_eq] at h
  rcases h with (((h | rfl) | rfl) | rfl) | rfl
  · have hrange : ((65 ≤ c.toNat ∧ c.toNat ≤ 90) ∨ (97 ≤ c.toNat ∧ c.toNat ≤ 122)) ∨
        (48 ≤ c.toNat ∧ c.toNat ≤ 57) := by
      simpa [Char.isAlphanum, isAlpha_eq, isUpper_eq, isLower_eq, Char.isDigit,
        UInt32.le_iff_toNat_le] using h
    omega
  all_goals decide

/-- Bytes and digits: the coding is one. -/
theorem chars : PercentCoding encodeChars decodeChars where
  decode_encode s := by rw [decodeChars, encodeChars, decodeBytes_flatMap, decodeUtf8_encodeUtf8]
  plain s c hc := by
    obtain ⟨b, -, hb⟩ := List.mem_flatMap.1 hc
    unfold encodeByte at hb
    split at hb
    · rename_i h
      rw [List.mem_singleton.1 hb]
      exact .inl h.2
    · have hlt := b.toNat_lt
      simp only [List.mem_cons, List.not_mem_nil, or_false] at hb
      rcases hb with rfl | rfl | rfl
      · exact .inr rfl
      · exact .inl (isUnreserved_digit (by omega))
      · exact .inl (isUnreserved_digit (by omega))
  unreserved s hs := by
    induction s with
    | nil => rfl
    | cons c s ih =>
      have hc := hs c List.mem_cons_self
      have hsmall := isUnreserved_lt hc
      have hbyte : (UInt8.ofNat c.toNat).toNat = c.toNat := by
        rw [UInt8.toNat_ofNat']
        omega
      have hchar : Char.ofNat (UInt8.ofNat c.toNat).toNat = c := by
        rw [hbyte, Char.ofNat_toNat]
      rw [encodeChars, encodeUtf8_cons, utf8EncodeChar_ascii hsmall, List.singleton_append,
        List.flatMap_cons, encodeByte, if_pos ⟨by rwa [hbyte], by rwa [hchar]⟩, hchar]
      exact congrArg (c :: ·) (ih fun d hd => hs d (List.mem_cons_of_mem _ hd))

end PercentCoding

end Locast.Lib

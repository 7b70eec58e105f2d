import Locast.Lib.JsonText
import Mathlib.Data.Nat.Digits.Defs
import Mathlib.Tactic.SplitIfs
import Mathlib.Tactic.Ring

/-!
# MessagePack

The bytes of a value: a header that names the kind of the value and a number (the value of an
integer, the length of a string, the size of a list), in the shortest form that fits, and what it
announces. A header can be read back off the front of any text (`readHeader_header`), so no value is
written as the beginning of another (`write_append_inj`).
-/

namespace Locast.Lib.MsgPack

open JsonText

abbrev Bytes : Type := List UInt8

/-! ### Numbers of fixed width -/

/-- The `width` low bytes of a number, the most significant first. -/
def beBytes : ℕ → ℕ → Bytes
  | 0, _ => []
  | width + 1, n => beBytes width (n / 256) ++ [UInt8.ofNat n]

/-- The number that bytes stand for, the most significant first. -/
def ofBeBytes (b : Bytes) : ℕ := b.foldl (fun n byte => n * 256 + byte.toNat) 0

@[simp] lemma length_beBytes (width n : ℕ) : (beBytes width n).length = width := by
  induction width generalizing n with
  | zero => rfl
  | succ width ih => simp [beBytes, ih]

lemma ofBeBytes_beBytes {width n : ℕ} (h : n < 256 ^ width) : ofBeBytes (beBytes width n) = n := by
  induction width generalizing n with
  | zero =>
    obtain rfl : n = 0 := by simpa using h
    rfl
  | succ width ih =>
    have hdiv : n / 256 < 256 ^ width := Nat.div_lt_of_lt_mul (by rwa [pow_succ'] at h)
    have hlow : (UInt8.ofNat n).toNat = n % 256 := by simp
    have hfront := ih hdiv
    rw [ofBeBytes] at hfront
    rw [beBytes, ofBeBytes, List.foldl_append, hfront, List.foldl_cons, List.foldl_nil, hlow]
    omega

/-! ### Values -/

/-- A byte string is its length and the number its bytes spell. -/
inductive Value where
  | nil
  | int (z : ℤ)
  | text (s : String)
  | bin (length value : ℕ)
  | float32 (bits : BitVec 32)
  | seq (items : List Value)
  | map (fields : List (String × Value))

/-- What a header announces. -/
inductive Kind where
  | nil
  | unsigned
  | negative
  | text
  | bin
  | float32
  | seq
  | map
  deriving DecidableEq

/-- The header of a value.  A negative number is announced by how far it is below `-1`. -/
def header (kind : Kind) (n : ℕ) : Option Bytes :=
  match kind with
  | .nil => if n = 0 then some [0xc0] else none
  | .unsigned =>
    if n < 0x80 then some [UInt8.ofNat n]
    else if n < 256 ^ 1 then some (0xcc :: beBytes 1 n)
    else if n < 256 ^ 2 then some (0xcd :: beBytes 2 n)
    else if n < 256 ^ 4 then some (0xce :: beBytes 4 n)
    else if n < 256 ^ 8 then some (0xcf :: beBytes 8 n)
    else none
  | .negative =>
    if n < 32 then some [UInt8.ofNat (255 - n)]
    else if n < 128 * 256 ^ 0 then some (0xd0 :: beBytes 1 (256 ^ 1 - 1 - n))
    else if n < 128 * 256 ^ 1 then some (0xd1 :: beBytes 2 (256 ^ 2 - 1 - n))
    else if n < 128 * 256 ^ 3 then some (0xd2 :: beBytes 4 (256 ^ 4 - 1 - n))
    else if n < 128 * 256 ^ 7 then some (0xd3 :: beBytes 8 (256 ^ 8 - 1 - n))
    else none
  | .text =>
    if n < 32 then some [UInt8.ofNat (0xa0 + n)]
    else if n < 256 ^ 1 then some (0xd9 :: beBytes 1 n)
    else if n < 256 ^ 2 then some (0xda :: beBytes 2 n)
    else if n < 256 ^ 4 then some (0xdb :: beBytes 4 n)
    else none
  | .bin =>
    if n < 256 ^ 1 then some (0xc4 :: beBytes 1 n)
    else if n < 256 ^ 2 then some (0xc5 :: beBytes 2 n)
    else if n < 256 ^ 4 then some (0xc6 :: beBytes 4 n)
    else none
  | .float32 => if n = 0 then some [0xca] else none
  | .seq =>
    if n < 16 then some [UInt8.ofNat (0x90 + n)]
    else if n < 256 ^ 2 then some (0xdc :: beBytes 2 n)
    else if n < 256 ^ 4 then some (0xdd :: beBytes 4 n)
    else none
  | .map =>
    if n < 16 then some [UInt8.ofNat (0x80 + n)]
    else if n < 256 ^ 2 then some (0xde :: beBytes 2 n)
    else if n < 256 ^ 4 then some (0xdf :: beBytes 4 n)
    else none

/-- What the header of a value announces. -/
def announce : Value → Kind × ℕ
  | .nil => (.nil, 0)
  | .int z => if 0 ≤ z then (.unsigned, z.toNat) else (.negative, (-1 - z).toNat)
  | .text s => (.text, s.utf8ByteSize)
  | .bin length _ => (.bin, length)
  | .float32 _ => (.float32, 0)
  | .seq items => (.seq, items.length)
  | .map fields => (.map, fields.length)

/-- A value's header with its body. -/
def framed (v : Value) (body : Option Bytes) : Option Bytes := do
  let front ← header (announce v).1 (announce v).2
  let back ← body
  return front ++ back

mutual
/-- What follows the header of a value. -/
def body : Value → Option Bytes
  | .nil => some []
  | .int _ => some []
  | .text s => some (utf8 s)
  | .bin length value => if value < 256 ^ length then some (beBytes length value) else none
  | .float32 bits => some (beBytes 4 bits.toNat)
  | .seq items => itemsBody items
  | .map fields => fieldsBody fields

def itemsBody : List Value → Option Bytes
  | [] => some []
  | item :: rest => do
    let front ← framed item (body item)
    let back ← itemsBody rest
    return front ++ back

def fieldsBody : List (String × Value) → Option Bytes
  | [] => some []
  | (key, value) :: rest => do
    let name ← framed (.text key) (some (utf8 key))
    let front ← framed value (body value)
    let back ← fieldsBody rest
    return name ++ front ++ back
end

/-- The bytes of a value; none where the format has no room for it. -/
def write (v : Value) : Option Bytes := framed v (body v)

/-! ### Reading headers -/

/-- The number in the next bytes. -/
def wide (kind : Kind) (width : ℕ) (rest : Bytes) : Kind × ℕ × Bytes :=
  (kind, ofBeBytes (rest.take width), rest.drop width)

def wideNegative (width : ℕ) (rest : Bytes) : Kind × ℕ × Bytes :=
  (.negative, 256 ^ width - 1 - ofBeBytes (rest.take width), rest.drop width)

/-- The header at the front of a text, and what follows it. -/
def readHeader : Bytes → Option (Kind × ℕ × Bytes)
  | [] => none
  | first :: rest =>
    let code := first.toNat
    if code < 0x80 then some (.unsigned, code, rest)
    else if code < 0x90 then some (.map, code - 0x80, rest)
    else if code < 0xa0 then some (.seq, code - 0x90, rest)
    else if code < 0xc0 then some (.text, code - 0xa0, rest)
    else if 0xe0 ≤ code then some (.negative, 255 - code, rest)
    else match code with
      | 0xc0 => some (.nil, 0, rest)
      | 0xc4 => some (wide .bin 1 rest)
      | 0xc5 => some (wide .bin 2 rest)
      | 0xc6 => some (wide .bin 4 rest)
      | 0xca => some (.float32, 0, rest)
      | 0xcc => some (wide .unsigned 1 rest)
      | 0xcd => some (wide .unsigned 2 rest)
      | 0xce => some (wide .unsigned 4 rest)
      | 0xcf => some (wide .unsigned 8 rest)
      | 0xd0 => some (wideNegative 1 rest)
      | 0xd1 => some (wideNegative 2 rest)
      | 0xd2 => some (wideNegative 4 rest)
      | 0xd3 => some (wideNegative 8 rest)
      | 0xd9 => some (wide .text 1 rest)
      | 0xda => some (wide .text 2 rest)
      | 0xdb => some (wide .text 4 rest)
      | 0xdc => some (wide .seq 2 rest)
      | 0xdd => some (wide .seq 4 rest)
      | 0xde => some (wide .map 2 rest)
      | 0xdf => some (wide .map 4 rest)
      | _ => none

lemma wide_beBytes {kind : Kind} {width n : ℕ} (h : n < 256 ^ width) (rest : Bytes) :
    wide kind width (beBytes width n ++ rest) = (kind, n, rest) := by
  rw [wide, List.take_left' (length_beBytes _ _), List.drop_left' (length_beBytes _ _),
    ofBeBytes_beBytes h]

lemma wideNegative_beBytes {width n : ℕ} (h : n < 256 ^ width) (rest : Bytes) :
    wideNegative width (beBytes width (256 ^ width - 1 - n) ++ rest) = (.negative, n, rest) := by
  rw [wideNegative, List.take_left' (length_beBytes _ _), List.drop_left' (length_beBytes _ _),
    ofBeBytes_beBytes (by omega)]
  congr 2
  omega

/-- A header says what it was written for. -/
lemma readHeader_header {kind : Kind} {n : ℕ} {front : Bytes} (h : header kind n = some front)
    (rest : Bytes) : readHeader (front ++ rest) = some (kind, n, rest) := by
  have hbyte {m : ℕ} (hm : m < 256) : (UInt8.ofNat m).toNat = m := by simp; omega
  cases kind with
  | nil | float32 =>
    simp only [header] at h
    split_ifs at h with h₀
    cases h
    subst h₀
    rfl
  | unsigned =>
    simp only [header] at h
    split_ifs at h with h₀ h₁ h₂ h₄ h₈ <;> cases h
    · simp only [List.cons_append, readHeader, hbyte (by omega : n < 256), if_pos h₀]
      rfl
    · exact congrArg some (wide_beBytes h₁ rest)
    · exact congrArg some (wide_beBytes h₂ rest)
    · exact congrArg some (wide_beBytes h₄ rest)
    · exact congrArg some (wide_beBytes h₈ rest)
  | negative =>
    simp only [header] at h
    split_ifs at h with h₀ h₁ h₂ h₄ h₈ <;> cases h
    · simp only [List.cons_append, readHeader, hbyte (by omega : 255 - n < 256)]
      rw [if_neg (by omega), if_neg (by omega), if_neg (by omega), if_neg (by omega),
        if_pos (by omega), Nat.sub_sub_self (by omega)]
      rfl
    · exact congrArg some (wideNegative_beBytes (by omega) rest)
    · exact congrArg some (wideNegative_beBytes (by omega) rest)
    · exact congrArg some (wideNegative_beBytes (by omega) rest)
    · exact congrArg some (wideNegative_beBytes (by omega) rest)
  | text =>
    simp only [header] at h
    split_ifs at h with h₀ h₁ h₂ h₄ <;> cases h
    · simp only [List.cons_append, readHeader, hbyte (by omega : 0xa0 + n < 256)]
      rw [if_neg (by omega), if_neg (by omega), if_neg (by omega), if_pos (by omega),
        Nat.add_sub_cancel_left]
      rfl
    · exact congrArg some (wide_beBytes h₁ rest)
    · exact congrArg some (wide_beBytes h₂ rest)
    · exact congrArg some (wide_beBytes h₄ rest)
  | bin =>
    simp only [header] at h
    split_ifs at h with h₁ h₂ h₄ <;> cases h
    · exact congrArg some (wide_beBytes h₁ rest)
    · exact congrArg some (wide_beBytes h₂ rest)
    · exact congrArg some (wide_beBytes h₄ rest)
  | seq =>
    simp only [header] at h
    split_ifs at h with h₀ h₂ h₄ <;> cases h
    · simp only [List.cons_append, readHeader, hbyte (by omega : 0x90 + n < 256)]
      rw [if_neg (by omega), if_neg (by omega), if_pos (by omega), Nat.add_sub_cancel_left]
      rfl
    · exact congrArg some (wide_beBytes h₂ rest)
    · exact congrArg some (wide_beBytes h₄ rest)
  | map =>
    simp only [header] at h
    split_ifs at h with h₀ h₂ h₄ <;> cases h
    · simp only [List.cons_append, readHeader, hbyte (by omega : 0x80 + n < 256)]
      rw [if_neg (by omega), if_pos (by omega), Nat.add_sub_cancel_left]
      rfl
    · exact congrArg some (wide_beBytes h₂ rest)
    · exact congrArg some (wide_beBytes h₄ rest)

/-! ### No value begins another -/

lemma framed_append_inj {v w : Value} {x y : Option Bytes} {a b r s : Bytes}
    (hv : framed v x = some a) (hw : framed w y = some b) (h : a ++ r = b ++ s) :
    announce v = announce w ∧ ∃ a' b', x = some a' ∧ y = some b' ∧ a' ++ r = b' ++ s := by
  simp only [framed, Option.bind_eq_bind, Option.bind_eq_some_iff, Option.pure_def,
    Option.some.injEq] at hv hw
  obtain ⟨front, hfront, a', rfl, rfl⟩ := hv
  obtain ⟨front', hfront', b', rfl, rfl⟩ := hw
  rw [List.append_assoc, List.append_assoc] at h
  have hread := readHeader_header hfront (a' ++ r)
  rw [h, readHeader_header hfront' (b' ++ s)] at hread
  simp only [Option.some.injEq, Prod.mk.injEq] at hread
  obtain ⟨hkind, hn, hrest⟩ := hread
  exact ⟨Prod.ext hkind.symm hn.symm, a', b', rfl, rfl, hrest.symm⟩

lemma announce_int_inj {z z' : ℤ} (h : announce (.int z) = announce (.int z')) : z = z' := by
  simp only [announce] at h
  split_ifs at h <;> simp only [Prod.mk.injEq, true_and] at h
  · omega
  · cases h.1
  · cases h.1
  · omega

lemma kind_int (z : ℤ) : (announce (.int z)).1 = .unsigned ∨ (announce (.int z)).1 = .negative := by
  simp only [announce]
  split_ifs
  · exact .inl rfl
  · exact .inr rfl

mutual
lemma body_append_inj : ∀ {v w : Value} {a b r s : Bytes}, announce v = announce w →
    body v = some a → body w = some b → a ++ r = b ++ s → v = w ∧ r = s
  | .nil, w, a, b, r, s, hvw, hv, hw, h => by
    cases w with
    | nil =>
      cases hv
      cases hw
      exact ⟨rfl, h⟩
    | int z => rcases kind_int z with hz | hz <;> cases (congrArg Prod.fst hvw).trans hz
    | _ => cases congrArg Prod.fst hvw
  | .int z, w, a, b, r, s, hvw, hv, hw, h => by
    cases w with
    | int z' =>
      cases hv
      cases hw
      exact ⟨congrArg Value.int (announce_int_inj hvw), h⟩
    | _ => rcases kind_int z with hz | hz <;> cases hz.symm.trans (congrArg Prod.fst hvw)
  | .text t, w, a, b, r, s, hvw, hv, hw, h => by
    cases w with
    | text t' =>
      cases hv
      cases hw
      obtain ⟨htext, hrest⟩ := List.append_inj h (by simpa [announce] using hvw)
      exact ⟨congrArg Value.text (utf8_inj htext), hrest⟩
    | int z => rcases kind_int z with hz | hz <;> cases (congrArg Prod.fst hvw).trans hz
    | _ => cases congrArg Prod.fst hvw
  | .bin n value, w, a, b, r, s, hvw, hv, hw, h => by
    cases w with
    | bin n' value' =>
      obtain rfl : n = n' := congrArg Prod.snd hvw
      simp only [body, Option.ite_none_right_eq_some, Option.some.injEq] at hv hw
      obtain ⟨hlt, rfl⟩ := hv
      obtain ⟨hlt', rfl⟩ := hw
      obtain ⟨hvalue, hrest⟩ := List.append_inj h (by simp)
      obtain rfl : value = value' := by
        rw [← ofBeBytes_beBytes hlt, hvalue, ofBeBytes_beBytes hlt']
      exact ⟨rfl, hrest⟩
    | int z => rcases kind_int z with hz | hz <;> cases (congrArg Prod.fst hvw).trans hz
    | _ => cases congrArg Prod.fst hvw
  | .float32 bits, w, a, b, r, s, hvw, hv, hw, h => by
    cases w with
    | float32 bits' =>
      cases hv
      cases hw
      obtain ⟨hbits, hrest⟩ := List.append_inj h (by simp)
      have hread (x : BitVec 32) : ofBeBytes (beBytes 4 x.toNat) = x.toNat :=
        ofBeBytes_beBytes x.isLt
      refine ⟨congrArg Value.float32 (BitVec.eq_of_toNat_eq ?_), hrest⟩
      rw [← hread bits, hbits, hread bits']
    | int z => rcases kind_int z with hz | hz <;> cases (congrArg Prod.fst hvw).trans hz
    | _ => cases congrArg Prod.fst hvw
  | .seq items, w, a, b, r, s, hvw, hv, hw, h => by
    cases w with
    | seq items' =>
      obtain ⟨rfl, hrest⟩ := itemsBody_append_inj (congrArg Prod.snd hvw) hv hw h
      exact ⟨rfl, hrest⟩
    | int z => rcases kind_int z with hz | hz <;> cases (congrArg Prod.fst hvw).trans hz
    | _ => cases congrArg Prod.fst hvw
  | .map fields, w, a, b, r, s, hvw, hv, hw, h => by
    cases w with
    | map fields' =>
      obtain ⟨rfl, hrest⟩ := fieldsBody_append_inj (congrArg Prod.snd hvw) hv hw h
      exact ⟨rfl, hrest⟩
    | int z => rcases kind_int z with hz | hz <;> cases (congrArg Prod.fst hvw).trans hz
    | _ => cases congrArg Prod.fst hvw

lemma itemsBody_append_inj : ∀ {l m : List Value} {a b r s : Bytes}, l.length = m.length →
    itemsBody l = some a → itemsBody m = some b → a ++ r = b ++ s → l = m ∧ r = s
  | [], [], a, b, r, s, _, hl, hm, h => by
    cases hl
    cases hm
    exact ⟨rfl, h⟩
  | v :: l, w :: m, a, b, r, s, hlen, hl, hm, h => by
    simp only [itemsBody, Option.bind_eq_bind, Option.bind_eq_some_iff, Option.pure_def,
      Option.some.injEq] at hl hm
    obtain ⟨front, hfront, back, hback, rfl⟩ := hl
    obtain ⟨front', hfront', back', hback', rfl⟩ := hm
    rw [List.append_assoc, List.append_assoc] at h
    obtain ⟨hvw, x, y, hx, hy, hxy⟩ := framed_append_inj hfront hfront' h
    obtain ⟨rfl, hrest⟩ := body_append_inj hvw hx hy hxy
    obtain ⟨rfl, hend⟩ := itemsBody_append_inj (Nat.succ.inj hlen) hback hback' hrest
    exact ⟨rfl, hend⟩

lemma fieldsBody_append_inj : ∀ {l m : List (String × Value)} {a b r s : Bytes},
    l.length = m.length → fieldsBody l = some a → fieldsBody m = some b → a ++ r = b ++ s →
    l = m ∧ r = s
  | [], [], a, b, r, s, _, hl, hm, h => by
    cases hl
    cases hm
    exact ⟨rfl, h⟩
  | (key, v) :: l, (key', w) :: m, a, b, r, s, hlen, hl, hm, h => by
    simp only [fieldsBody, Option.bind_eq_bind, Option.bind_eq_some_iff, Option.pure_def,
      Option.some.injEq] at hl hm
    obtain ⟨name, hname, front, hfront, back, hback, rfl⟩ := hl
    obtain ⟨name', hname', front', hfront', back', hback', rfl⟩ := hm
    simp only [List.append_assoc] at h
    obtain ⟨hkey, x, y, hx, hy, hxy⟩ := framed_append_inj hname hname' h
    cases hx
    cases hy
    obtain ⟨htext, hrest⟩ := List.append_inj hxy (by simpa [announce] using hkey)
    obtain rfl := utf8_inj htext
    obtain ⟨hvw, x, y, hx, hy, hxy⟩ := framed_append_inj hfront hfront' hrest
    obtain ⟨rfl, hrest⟩ := body_append_inj hvw hx hy hxy
    obtain ⟨rfl, hend⟩ := fieldsBody_append_inj (Nat.succ.inj hlen) hback hback' hrest
    exact ⟨rfl, hend⟩
end

/-- **No value is written as the beginning of another.** -/
theorem write_append_inj {v w : Value} {a b r s : Bytes} (hv : write v = some a)
    (hw : write w = some b) (h : a ++ r = b ++ s) : v = w ∧ r = s := by
  obtain ⟨hvw, x, y, hx, hy, hxy⟩ := framed_append_inj hv hw h
  exact body_append_inj hvw hx hy hxy

theorem write_inj {v w : Value} {b : Bytes} (hv : write v = some b) (hw : write w = some b) :
    v = w :=
  (write_append_inj hv hw rfl : v = w ∧ ([] : Bytes) = []).1

/-! ### Strings stand in full -/

mutual
/-- How many bytes the strings of a value have, those that name fields among them. -/
def textBytes : Value → ℕ
  | .text s => s.utf8ByteSize
  | .bin length _ => length
  | .seq items => itemsTextBytes items
  | .map fields => fieldsTextBytes fields
  | _ => 0

def itemsTextBytes : List Value → ℕ
  | [] => 0
  | item :: rest => textBytes item + itemsTextBytes rest

def fieldsTextBytes : List (String × Value) → ℕ
  | [] => 0
  | (key, value) :: rest => key.utf8ByteSize + textBytes value + fieldsTextBytes rest
end

lemma framed_length {v : Value} {x : Option Bytes} {a : Bytes} (h : framed v x = some a) :
    ∃ a', x = some a' ∧ a'.length ≤ a.length := by
  simp only [framed, Option.bind_eq_bind, Option.bind_eq_some_iff, Option.pure_def,
    Option.some.injEq] at h
  obtain ⟨front, -, a', rfl, rfl⟩ := h
  exact ⟨a', rfl, by simp⟩

mutual
lemma textBytes_le_body : ∀ {v : Value} {a : Bytes}, body v = some a → textBytes v ≤ a.length
  | .nil, a, _ | .int z, a, _ | .float32 bits, a, _ => Nat.zero_le _
  | .text s, a, h => by
    cases h
    simp [textBytes]
  | .bin n value, a, h => by
    simp only [body, Option.ite_none_right_eq_some, Option.some.injEq] at h
    obtain ⟨-, rfl⟩ := h
    simp [textBytes]
  | .seq items, a, h => by
    rw [textBytes]
    exact itemsTextBytes_le_body h
  | .map fields, a, h => by
    rw [textBytes]
    exact fieldsTextBytes_le_body h

lemma itemsTextBytes_le_body : ∀ {l : List Value} {a : Bytes}, itemsBody l = some a →
    itemsTextBytes l ≤ a.length
  | [], a, _ => Nat.zero_le _
  | v :: l, a, h => by
    simp only [itemsBody, Option.bind_eq_bind, Option.bind_eq_some_iff, Option.pure_def,
      Option.some.injEq] at h
    obtain ⟨front, hfront, back, hback, rfl⟩ := h
    obtain ⟨x, hx, hle⟩ := framed_length hfront
    have hv := textBytes_le_body hx
    have hl := itemsTextBytes_le_body hback
    simp only [itemsTextBytes, List.length_append]
    omega

lemma fieldsTextBytes_le_body : ∀ {l : List (String × Value)} {a : Bytes},
    fieldsBody l = some a → fieldsTextBytes l ≤ a.length
  | [], a, _ => Nat.zero_le _
  | (key, v) :: l, a, h => by
    simp only [fieldsBody, Option.bind_eq_bind, Option.bind_eq_some_iff, Option.pure_def,
      Option.some.injEq] at h
    obtain ⟨name, hname, front, hfront, back, hback, rfl⟩ := h
    obtain ⟨x, hx, hle⟩ := framed_length hname
    obtain ⟨y, hy, hle'⟩ := framed_length hfront
    cases hx
    have hv := textBytes_le_body hy
    have hl := fieldsTextBytes_le_body hback
    simp only [length_utf8] at hle
    simp only [fieldsTextBytes, List.length_append]
    omega
end

/-- The bytes of a value hold its strings. -/
lemma textBytes_le_write {v : Value} {a : Bytes} (h : write v = some a) :
    textBytes v ≤ a.length := by
  obtain ⟨x, hx, hle⟩ := framed_length h
  exact (textBytes_le_body hx).trans hle

end Locast.Lib.MsgPack

import Locast.Lib.JsonText
import Mathlib.Algebra.Order.BigOperators.Group.List
import Mathlib.Tactic.SplitIfs
import Mathlib.Tactic.IntervalCases

/-!
# JSON values

The compact text of a whole value, with the members of an object in the order they are given.  No
value's text goes on to be another's, where what follows a number is not one of its digits
(`write_append_inj`), so a text is the text of one value.
-/

namespace Locast.Lib.JsonText

/-! ### Strings are read back -/

/-- The value of a lower-case hexadecimal digit. -/
def hexValue (b : UInt8) : ℕ := if b.toNat < 58 then b.toNat - 48 else b.toNat - 87

lemma hexValue_hexDigit {v : ℕ} (h : v < 16) : hexValue (hexDigit v) = v := by
  interval_cases v <;> rfl

/-- The first character between the quotes, and what follows it. -/
def unescape (b : List UInt8) : Option (Char × List UInt8) :=
  if b.head? = some 92 then
    match b.tail with
    | 34 :: rest => some ('"', rest)
    | 92 :: rest => some ('\\', rest)
    | 98 :: rest => some (Char.ofNat 8, rest)
    | 116 :: rest => some (Char.ofNat 9, rest)
    | 110 :: rest => some (Char.ofNat 10, rest)
    | 102 :: rest => some (Char.ofNat 12, rest)
    | 114 :: rest => some (Char.ofNat 13, rest)
    | 117 :: 48 :: 48 :: high :: low :: rest =>
      some (Char.ofNat (hexValue high * 16 + hexValue low), rest)
    | _ => none
  else (ByteArray.utf8DecodeChar? b.toByteArray 0).map fun c => (c, b.drop c.utf8Size)

lemma head_utf8EncodeChar {c : Char} {rest : List UInt8} {d : Char} (hd : d.utf8Size = 1)
    (h : (String.utf8EncodeChar c ++ rest).head? = (String.utf8EncodeChar d).head?) : c = d := by
  obtain ⟨b, hb⟩ : ∃ b, String.utf8EncodeChar d = [b] :=
    List.length_eq_one_iff.1 ((String.length_utf8EncodeChar d).trans hd)
  rw [hb] at h
  obtain ⟨t, ht⟩ := List.head?_eq_some_iff.1 h
  refine (utf8EncodeChar_append_inj (x := rest) (y := t) ?_).1
  rw [hb, ht]
  rfl

lemma unescape_escape (c : Char) (rest : List UInt8) :
    unescape (escape c ++ rest) = some (c, rest) := by
  have hof {n : ℕ} (h : c.toNat = n) : Char.ofNat n = c := h ▸ Char.ofNat_toNat c
  unfold escape
  split_ifs with h₁ h₂ h₃ h₄ h₅ h₆ h₇ h₈
  · rw [h₁]
    rfl
  · rw [h₂]
    rfl
  · exact congrArg (fun c => some (c, rest)) (hof h₃)
  · exact congrArg (fun c => some (c, rest)) (hof h₄)
  · exact congrArg (fun c => some (c, rest)) (hof h₅)
  · exact congrArg (fun c => some (c, rest)) (hof h₆)
  · exact congrArg (fun c => some (c, rest)) (hof h₇)
  · refine congrArg (fun c => some (c, rest)) (hof ?_)
    rw [hexValue_hexDigit (by omega), hexValue_hexDigit (by omega)]
    omega
  · have hne : (String.utf8EncodeChar c ++ rest).head? ≠ some 92 :=
      fun h => h₂ (head_utf8EncodeChar (d := '\\') rfl h)
    rw [unescape, if_neg hne, List.toByteArray_append,
      ByteArray.utf8DecodeChar?_utf8EncodeChar_append]
    simp [List.drop_left' (String.length_utf8EncodeChar c)]

lemma head_escape (c : Char) (rest : List UInt8) : (escape c ++ rest).head? ≠ some 34 := by
  unfold escape
  split_ifs with h₁ h₂ h₃ h₄ h₅ h₆ h₇ h₈
  all_goals try exact fun h => absurd (Option.some.inj h) (by decide)
  exact fun h => h₁ (head_utf8EncodeChar (d := '"') rfl h)

lemma escapes_append_inj : ∀ {l m : List Char} {r s : List UInt8},
    l.flatMap escape ++ 34 :: r = m.flatMap escape ++ 34 :: s → l = m ∧ r = s
  | [], [], r, s, h => ⟨rfl, (List.cons.inj h).2⟩
  | [], d :: m, r, s, h => by
    rw [List.flatMap_cons, List.append_assoc] at h
    exact absurd (congrArg List.head? h).symm (head_escape d _)
  | c :: l, [], r, s, h => by
    rw [List.flatMap_cons, List.append_assoc] at h
    exact absurd (congrArg List.head? h) (head_escape c _)
  | c :: l, d :: m, r, s, h => by
    rw [List.flatMap_cons, List.flatMap_cons, List.append_assoc, List.append_assoc] at h
    have hread := congrArg unescape h
    rw [unescape_escape, unescape_escape] at hread
    obtain ⟨rfl, hrest⟩ := Prod.mk.inj (Option.some.inj hread)
    obtain ⟨rfl, hend⟩ := escapes_append_inj hrest
    exact ⟨rfl, hend⟩

lemma text_append_inj {s t : String} {x y : List UInt8} (h : text s ++ x = text t ++ y) :
    s = t ∧ x = y := by
  simp only [text, List.cons_append, List.append_assoc, List.nil_append, List.cons.injEq,
    true_and] at h
  obtain ⟨hst, hxy⟩ := escapes_append_inj h
  exact ⟨String.toList_inj.1 hst, hxy⟩

/-! ### Numbers are read back -/

/-- A decimal digit. -/
def IsDigit (b : UInt8) : Prop := 48 ≤ b.toNat ∧ b.toNat < 58

instance (b : UInt8) : Decidable (IsDigit b) := inferInstanceAs (Decidable (_ ∧ _))

/-- What follows does not carry a number on. -/
def Stops (rest : List UInt8) : Prop := ∀ b ∈ rest.head?, ¬IsDigit b

lemma digit_of_mem_nat {n : ℕ} {b : UInt8} (h : b ∈ nat n) : IsDigit b := by
  obtain ⟨c, hc, rfl⟩ := List.mem_map.1 h
  have hdigit := Nat.isDigit_of_mem_toDigits (by decide) (by decide) hc
  simp only [Char.isDigit, Bool.and_eq_true, decide_eq_true_eq, UInt32.le_iff_toNat_le] at hdigit
  have hlow : 48 ≤ c.toNat := hdigit.1
  have hhigh : c.toNat ≤ 57 := hdigit.2
  simp only [IsDigit, UInt8.toNat_ofNat']
  omega

lemma nat_inj {n m : ℕ} (h : nat n = nat m) : n = m := by
  have hread (k : ℕ) : (nat k).map (fun b => Char.ofNat b.toNat) = Nat.toDigits 10 k := by
    rw [nat, List.map_map]
    refine (List.map_congr_left fun c hc => ?_).trans (List.map_id _)
    have hdigit := Nat.isDigit_of_mem_toDigits (by decide) (by decide) hc
    simp only [Char.isDigit, Bool.and_eq_true, decide_eq_true_eq, UInt32.le_iff_toNat_le] at hdigit
    have hhigh : c.toNat ≤ 57 := hdigit.2
    have hbyte : (UInt8.ofNat c.toNat).toNat = c.toNat := by
      simp only [UInt8.toNat_ofNat']
      omega
    simp only [Function.comp_apply, hbyte, Char.ofNat_toNat, id_eq]
  have hdigits : Nat.toDigits 10 n = Nat.toDigits 10 m := by
    rw [← hread n, h, hread m]
  rw [← Nat.ofDigitChars_toDigits (by decide : 1 < 10) (by decide) (n := n), hdigits,
    Nat.ofDigitChars_toDigits (by decide) (by decide)]

lemma nat_append_inj {n m : ℕ} {r s : List UInt8} (hr : Stops r) (hs : Stops s)
    (h : nat n ++ r = nat m ++ s) : n = m ∧ r = s := by
  have htake (k : ℕ) (t : List UInt8) (ht : Stops t) :
      (nat k ++ t).takeWhile (fun b => decide (IsDigit b)) = nat k := by
    rw [List.takeWhile_append_of_pos fun b hb => decide_eq_true (digit_of_mem_nat hb)]
    cases t with
    | nil => simp
    | cons b t =>
      rw [List.takeWhile_cons_of_neg (by simpa using ht b rfl), List.append_nil]
  have hnat : nat n = nat m := by
    rw [← htake n r hr, h, htake m s hs]
  refine ⟨nat_inj hnat, ?_⟩
  rw [hnat] at h
  exact List.append_cancel_left h

lemma int_append_inj {z z' : ℤ} {r s : List UInt8} (hr : Stops r) (hs : Stops s)
    (h : int z ++ r = int z' ++ s) : z = z' ∧ r = s := by
  have hsign {n : ℕ} {x y : List UInt8} : nat n ++ x ≠ 45 :: y := by
    intro hxy
    obtain ⟨b, t, hb⟩ := List.exists_cons_of_ne_nil (show nat n ≠ [] by simp [nat])
    rw [hb] at hxy
    have hdigit := digit_of_mem_nat (hb ▸ List.mem_cons_self : b ∈ nat n)
    rw [(List.cons.inj hxy).1] at hdigit
    exact absurd hdigit (by decide)
  cases z with
  | ofNat n =>
    cases z' with
    | ofNat m =>
      obtain ⟨rfl, hrest⟩ := nat_append_inj hr hs h
      exact ⟨rfl, hrest⟩
    | negSucc m => exact absurd h hsign
  | negSucc n =>
    cases z' with
    | ofNat m => exact absurd h.symm hsign
    | negSucc m =>
      obtain ⟨hnm, hrest⟩ := nat_append_inj hr hs (List.cons.inj h).2
      obtain rfl := Nat.succ.inj hnm
      exact ⟨rfl, hrest⟩

/-! ### Values -/

inductive Json where
  | null
  | bool (b : Bool)
  | number (z : ℤ)
  | string (s : String)
  | array (items : List Json)
  | object (entries : List (String × Json))

mutual
/-- The text of a value. -/
def write : Json → List UInt8
  | .null => [110, 117, 108, 108]
  | .bool true => [116, 114, 117, 101]
  | .bool false => [102, 97, 108, 115, 101]
  | .number z => int z
  | .string s => text s
  | .array items => 91 :: writeItems true items
  | .object entries => 123 :: writeEntries true entries

/-- The items that are left, and the bracket that closes the array. -/
def writeItems : Bool → List Json → List UInt8
  | _, [] => [93]
  | first, item :: rest => (if first then [] else [44]) ++ (write item ++ writeItems false rest)

def writeEntries : Bool → List (String × Json) → List UInt8
  | _, [] => [125]
  | first, (key, value) :: rest =>
    (if first then [] else [44]) ++ (text key ++ 58 :: (write value ++ writeEntries false rest))
end

/-- What the first byte of a value says. -/
def form (b : UInt8) : ℕ :=
  if IsDigit b ∨ b = 45 then 0 else b.toNat

def Json.form : Json → ℕ
  | .null => 110
  | .bool b => if b then 116 else 102
  | .number _ => 0
  | .string _ => 34
  | .array _ => 91
  | .object _ => 123

lemma head_write (v : Json) : ∃ b t, write v = b :: t ∧ form b = v.form := by
  cases v with
  | bool b => cases b <;> exact ⟨_, _, rfl, rfl⟩
  | number z =>
    cases z with
    | ofNat n =>
      obtain ⟨b, t, hb⟩ := List.exists_cons_of_ne_nil (show nat n ≠ [] by simp [nat])
      exact ⟨b, t, hb, if_pos (.inl (digit_of_mem_nat (hb ▸ List.mem_cons_self : b ∈ nat n)))⟩
    | negSucc n => exact ⟨45, _, rfl, rfl⟩
  | _ => exact ⟨_, _, rfl, rfl⟩

lemma form_of_write {v w : Json} {r s : List UInt8} (h : write v ++ r = write w ++ s) :
    v.form = w.form := by
  obtain ⟨b, t, hb, hv⟩ := head_write v
  obtain ⟨c, u, hc, hw⟩ := head_write w
  rw [hb, hc] at h
  rw [← hv, ← hw, (List.cons.inj h).1]

lemma write_ne_bracket (v : Json) {r s : List UInt8} : write v ++ r ≠ 93 :: s := by
  obtain ⟨b, t, hb, hform⟩ := head_write v
  intro h
  rw [hb] at h
  obtain rfl : b = 93 := (List.cons.inj h).1
  cases v with
  | bool b => cases b <;> cases hform
  | _ => cases hform

lemma stops_writeItems (l : List Json) (r : List UInt8) : Stops (writeItems false l ++ r) := by
  intro b hb
  cases l <;> cases hb <;> decide

lemma stops_writeEntries (l : List (String × Json)) (r : List UInt8) :
    Stops (writeEntries false l ++ r) := by
  intro b hb
  cases l <;> cases hb <;> decide

mutual
/-- **No value's text goes on to be another's.** -/
theorem write_append_inj : ∀ {v w : Json} {r s : List UInt8}, Stops r → Stops s →
    write v ++ r = write w ++ s → v = w ∧ r = s
  | .null, w, r, s, hr, hs, h => by
    have hform := form_of_write h
    cases w with
    | null => exact ⟨rfl, List.append_cancel_left h⟩
    | bool b => cases b <;> cases hform
    | _ => cases hform
  | .bool b, w, r, s, hr, hs, h => by
    have hform := form_of_write h
    cases w with
    | bool b' =>
      obtain rfl : b = b' := by
        cases b <;> cases b' <;> first | rfl | cases hform
      exact ⟨rfl, List.append_cancel_left h⟩
    | _ => cases b <;> cases hform
  | .number z, w, r, s, hr, hs, h => by
    have hform := form_of_write h
    cases w with
    | number z' =>
      obtain ⟨rfl, hrest⟩ := int_append_inj hr hs h
      exact ⟨rfl, hrest⟩
    | bool b => cases b <;> cases hform
    | _ => cases hform
  | .string t, w, r, s, hr, hs, h => by
    have hform := form_of_write h
    cases w with
    | string t' =>
      obtain ⟨rfl, hrest⟩ := text_append_inj h
      exact ⟨rfl, hrest⟩
    | bool b => cases b <;> cases hform
    | _ => cases hform
  | .array items, w, r, s, hr, hs, h => by
    have hform := form_of_write h
    cases w with
    | array items' =>
      obtain ⟨rfl, hrest⟩ := writeItems_append_inj true (List.cons.inj h).2
      exact ⟨rfl, hrest⟩
    | bool b => cases b <;> cases hform
    | _ => cases hform
  | .object entries, w, r, s, hr, hs, h => by
    have hform := form_of_write h
    cases w with
    | object entries' =>
      obtain ⟨rfl, hrest⟩ := writeEntries_append_inj true (List.cons.inj h).2
      exact ⟨rfl, hrest⟩
    | bool b => cases b <;> cases hform
    | _ => cases hform

theorem writeItems_append_inj : ∀ (first : Bool) {l m : List Json} {r s : List UInt8},
    writeItems first l ++ r = writeItems first m ++ s → l = m ∧ r = s
  | first, [], [], r, s, h => ⟨rfl, (List.cons.inj h).2⟩
  | true, [], w :: m, r, s, h => by
    simp only [writeItems, if_true, List.nil_append, List.append_assoc] at h
    exact absurd h.symm (write_ne_bracket w)
  | true, v :: l, [], r, s, h => by
    simp only [writeItems, if_true, List.nil_append, List.append_assoc] at h
    exact absurd h (write_ne_bracket v)
  | false, [], w :: m, r, s, h => by cases (List.cons.inj h).1
  | false, v :: l, [], r, s, h => by cases (List.cons.inj h).1
  | first, v :: l, w :: m, r, s, h => by
    simp only [writeItems, List.append_assoc] at h
    obtain ⟨rfl, hrest⟩ := write_append_inj (stops_writeItems l r) (stops_writeItems m s)
      (List.append_cancel_left h)
    obtain ⟨rfl, hend⟩ := writeItems_append_inj false hrest
    exact ⟨rfl, hend⟩

theorem writeEntries_append_inj : ∀ (first : Bool) {l m : List (String × Json)} {r s : List UInt8},
    writeEntries first l ++ r = writeEntries first m ++ s → l = m ∧ r = s
  | first, [], [], r, s, h => ⟨rfl, (List.cons.inj h).2⟩
  | first, [], (key, w) :: m, r, s, h => by cases first <;> cases (List.cons.inj h).1
  | first, (key, v) :: l, [], r, s, h => by cases first <;> cases (List.cons.inj h).1
  | first, (key, v) :: l, (key', w) :: m, r, s, h => by
    simp only [writeEntries, List.append_assoc, List.cons_append] at h
    obtain ⟨rfl, hvalue⟩ := text_append_inj (List.append_cancel_left h)
    obtain ⟨rfl, hrest⟩ := write_append_inj (stops_writeEntries l r) (stops_writeEntries m s)
      (List.cons.inj hvalue).2
    obtain ⟨rfl, hend⟩ := writeEntries_append_inj false hrest
    exact ⟨rfl, hend⟩
end

/-! ### Strings stand in full -/

lemma utf8Size_le_escapedSize (c : Char) : c.utf8Size ≤ escapedSize c := by
  have hlow {n : ℕ} (h : c.toNat = n) (hn : n < 128) : c.utf8Size = 1 := by
    rw [Char.utf8Size_eq_one_iff, UInt32.le_iff_toNat_le]
    exact Nat.le_of_lt_succ (lt_of_eq_of_lt h hn)
  unfold escapedSize
  split_ifs with h₁ h₂
  · rcases h₁ with rfl | rfl | h | h | h | h | h
    · decide
    · decide
    all_goals
      rw [hlow h (by decide)]
      decide
  · rw [hlow rfl (by omega)]
    decide
  · exact le_rfl

lemma utf8ByteSize_le_length_text (s : String) : s.utf8ByteSize ≤ (text s).length := by
  have hsize := Base64.utf8ByteSize_ofList s.toList
  rw [String.ofList_toList] at hsize
  rw [length_text, textSize, hsize]
  exact (List.sum_le_sum fun c _ => utf8Size_le_escapedSize c).trans (Nat.le_add_right _ _)

mutual
/-- How many bytes the strings of a value have, the keys of its objects among them. -/
def Json.textBytes : Json → ℕ
  | .string s => s.utf8ByteSize
  | .array items => itemsTextBytes items
  | .object entries => entriesTextBytes entries
  | _ => 0

def itemsTextBytes : List Json → ℕ
  | [] => 0
  | item :: rest => item.textBytes + itemsTextBytes rest

def entriesTextBytes : List (String × Json) → ℕ
  | [] => 0
  | (key, value) :: rest => key.utf8ByteSize + value.textBytes + entriesTextBytes rest
end

mutual
/-- The text of a value holds its strings. -/
lemma textBytes_le_write : ∀ v : Json, v.textBytes ≤ (write v).length
  | .null | .bool _ | .number _ => Nat.zero_le _
  | .string s => utf8ByteSize_le_length_text s
  | .array items => by
    have := itemsTextBytes_le true items
    simp only [Json.textBytes, write, List.length_cons]
    omega
  | .object entries => by
    have := entriesTextBytes_le true entries
    simp only [Json.textBytes, write, List.length_cons]
    omega

lemma itemsTextBytes_le : ∀ (first : Bool) (l : List Json),
    itemsTextBytes l ≤ (writeItems first l).length
  | _, [] => Nat.zero_le _
  | first, v :: l => by
    have hv := textBytes_le_write v
    have hl := itemsTextBytes_le false l
    simp only [itemsTextBytes, writeItems, List.length_append]
    omega

lemma entriesTextBytes_le : ∀ (first : Bool) (l : List (String × Json)),
    entriesTextBytes l ≤ (writeEntries first l).length
  | _, [] => Nat.zero_le _
  | first, (key, v) :: l => by
    have hkey := utf8ByteSize_le_length_text key
    have hv := textBytes_le_write v
    have hl := entriesTextBytes_le false l
    simp only [entriesTextBytes, writeEntries, List.length_append, List.length_cons]
    omega
end

end Locast.Lib.JsonText

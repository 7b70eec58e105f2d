import Locast.Lib.StrSlice
import Locast.Rooms.Validation
import Mathlib.Tactic.SplitIfs

/-!
# Range headers (`library/protocol.rs`)

A player asks for a part of a file.  What a header asks for is said from the grammar of RFC 9110,
apart from the parser; the parser reads its numbers as Rust does, with a plus sign before them, and
differs in nothing else.
-/

namespace Locast.Library

open Locast.Lib

/-! ### Numbers -/

/-- `core::num::ParseIntError`. -/
inductive ParseIntError where
  | empty
  | invalidDigit
  | posOverflow
  deriving DecidableEq

def ParseIntError.display : ParseIntError → String
  | empty => "cannot parse integer from empty string"
  | invalidDigit => "invalid digit found in string"
  | posOverflow => "number too large to fit in target type"

/-- The digits of a `u64`, the first of them first. -/
def readDigits : ℕ → List Char → Except ParseIntError ℕ
  | acc, [] => .ok acc
  | acc, c :: rest =>
    if !c.isDigit then .error .invalidDigit
    else if 2 ^ 64 ≤ 10 * acc + (c.toNat - 48) then .error .posOverflow
    else readDigits (10 * acc + (c.toNat - 48)) rest

/-- Without the sign that Rust reads before a number. -/
def unsign : List Char → List Char
  | '+' :: digits => digits
  | digits => digits

/-- `u64::from_str`. -/
def parseU64 (s : List Char) : Except ParseIntError ℕ :=
  if s = [] then .error .empty
  else if s = ['+'] ∨ s = ['-'] then .error .invalidDigit
  else readDigits 0 (unsign s)

/-- `u64` subtraction; there is none below zero. -/
def checkedSub (a b : ℕ) : Option ℕ := if b ≤ a then some (a - b) else none

lemma checkedSub_eq {a b : ℕ} (h : b ≤ a) : checkedSub a b = some (a - b) := if_pos h

/-! ### The parser -/

/-- Why a header is refused. -/
inductive RangeError where
  | unit (header : List Char)
  | multiRange
  | suffixLength (e : ParseIntError)
  | zeroSuffix
  | emptyFile
  | start (e : ParseIntError)
  | stop (e : ParseIntError)
  | reversed (start stop : ℕ)
  | beyond (start size : ℕ)
  | malformed (header : List Char)
  deriving DecidableEq

/-- The message; `debug` is how a text is written in a message. -/
def RangeError.message (debug : List Char → String) : RangeError → String
  | unit header => "unsupported range unit in " ++ debug header
  | multiRange => "multi-range is not supported in v1"
  | suffixLength e => "invalid suffix length: " ++ e.display
  | zeroSuffix => "zero-length suffix range"
  | emptyFile => "suffix range of an empty file"
  | start e => "invalid range start: " ++ e.display
  | stop e => "invalid range end: " ++ e.display
  | reversed a b => "start " ++ toString a ++ " > end " ++ toString b
  | beyond a size => "start " ++ toString a ++ " >= size " ++ toString size
  | malformed header => "malformed range: " ++ debug header

/-- `-N`: the last bytes. -/
def parseSuffix (length : List Char) (size : ℕ) : Option (Except RangeError (ℕ × ℕ)) :=
  match parseU64 length with
  | .error e => some (.error (.suffixLength e))
  | .ok n =>
    if n = 0 then some (.error .zeroSuffix)
    else if size = 0 then some (.error .emptyFile)
    else do
      let start ← checkedSub size (min n size)
      let last ← checkedSub size 1
      return .ok (start, last)

/-- `N-` and `N-M`. -/
def parseBounds (first last : List Char) (size : ℕ) : Option (Except RangeError (ℕ × ℕ)) :=
  match parseU64 first with
  | .error e => some (.error (.start e))
  | .ok start =>
    -- `saturating_sub`: the end of an empty file is its beginning
    match if last = [] then Except.ok (size - 1) else parseU64 last with
    | .error e => some (.error (.stop e))
    | .ok stop =>
      if stop < start then some (.error (.reversed start stop))
      else if size ≤ start then some (.error (.beyond start size))
      else do
        let final ← checkedSub size 1
        return .ok (start, min stop final)

/-- `parse_single_range`: the first and the last byte.  Arithmetic that leaves the `u64` has no
result. -/
def parseSingleRange (header : List Char) (size : ℕ) : Option (Except RangeError (ℕ × ℕ)) :=
  let s := trimWith Rooms.isWhitespace header
  if ¬"bytes=".toList <+: s then some (.error (.unit s))
  else
    let spec := s.drop "bytes=".toList.length
    if ',' ∈ spec then some (.error .multiRange)
    else
      match splitOnceAt (· = '-') spec with
      | none => some (.error (.malformed s))
      | some ([], length) => parseSuffix length size
      | some (first, last) => parseBounds first last size

/-! ### The grammar -/

/-- What digits say. -/
def value (digits : List Char) : ℕ := Nat.ofDigitChars 10 digits 0

/-- `1*DIGIT`, below the bound of a `u64`. -/
structure IsNumber (t : List Char) : Prop where
  nonempty : t ≠ []
  digits : ∀ c ∈ t, c.isDigit = true
  small : value t < 2 ^ 64

/-- One range, with its numbers as they are written. -/
inductive RangeSpec where
  | between (first last : List Char)
  | onward (first : List Char)
  | suffix (length : List Char)
  deriving DecidableEq

namespace RangeSpec

def text : RangeSpec → List Char
  | between first last => first ++ '-' :: last
  | onward first => first ++ ['-']
  | suffix length => '-' :: length

/-- What stands where a number should. -/
def numbers : RangeSpec → List (List Char)
  | between first last => [first, last]
  | onward first => [first]
  | suffix length => [length]

def WellFormed (spec : RangeSpec) : Prop := ∀ t ∈ spec.numbers, IsNumber t

/-- The bytes of a file that a range selects. -/
def Selects (size i : ℕ) : RangeSpec → Prop
  | between first last => value first ≤ i ∧ i ≤ value last ∧ i < size
  | onward first => value first ≤ i ∧ i < size
  | suffix length => size ≤ i + value length ∧ i < size

/-- The bytes that it selects are those from `a` to `b`, and there are any. -/
structure Is (spec : RangeSpec) (size a b : ℕ) : Prop where
  le : a ≤ b
  lt : b < size
  selects : ∀ i, spec.Selects size i ↔ a ≤ i ∧ i ≤ b

/-- Without the signs that Rust reads. -/
def unsigned : RangeSpec → RangeSpec
  | between first last => between (unsign first) (unsign last)
  | onward first => onward (unsign first)
  | suffix length => suffix (unsign length)

/-- The range that is written: the first hyphen parts it. -/
def ofText (t : List Char) : Option RangeSpec :=
  match splitOnceAt (· = '-') t with
  | none => none
  | some ([], length) => some (suffix length)
  | some (first, []) => some (onward first)
  | some (first, last) => some (between first last)

end RangeSpec

/-- **What RFC 9110 selects**: the header is one range, and it is these bytes. -/
def Requests (header : List Char) (size a b : ℕ) : Prop :=
  ∃ spec : RangeSpec, trimWith Rooms.isWhitespace header = "bytes=".toList ++ spec.text ∧
    spec.WellFormed ∧ spec.Is size a b

/-- **A plus sign stands before a number** of what would be a range that selects something. -/
def PlusSigned (header : List Char) (size : ℕ) : Prop :=
  ∃ spec : RangeSpec, trimWith Rooms.isWhitespace header = "bytes=".toList ++ spec.text ∧
    spec.unsigned ≠ spec ∧ spec.unsigned.WellFormed ∧ ∃ i, spec.unsigned.Selects size i

/-! ### Numbers that are read -/

lemma le_ofDigitChars (t : List Char) (acc : ℕ) : acc ≤ Nat.ofDigitChars 10 t acc := by
  induction t generalizing acc with
  | nil => exact le_of_eq Nat.ofDigitChars_nil.symm
  | cons c t ih =>
    rw [Nat.ofDigitChars_cons]
    have := ih (10 * acc + (c.toNat - '0'.toNat))
    omega

lemma readDigits_eq_ok {t : List Char} {acc n : ℕ} (hacc : acc < 2 ^ 64) :
    readDigits acc t = .ok n ↔
      (∀ c ∈ t, c.isDigit = true) ∧ Nat.ofDigitChars 10 t acc = n ∧ n < 2 ^ 64 := by
  induction t generalizing acc with
  | nil =>
    rw [readDigits, Nat.ofDigitChars_nil, Except.ok.injEq]
    exact ⟨fun h => ⟨by simp, h, h ▸ hacc⟩, fun h => h.2.1⟩
  | cons c t ih =>
    have hzero : '0'.toNat = 48 := rfl
    have hle := le_ofDigitChars t (10 * acc + (c.toNat - 48))
    rw [readDigits, Nat.ofDigitChars_cons, hzero, List.forall_mem_cons]
    by_cases hc : c.isDigit = true
    · rw [hc, Bool.not_true, if_neg Bool.false_ne_true]
      by_cases hbig : 2 ^ 64 ≤ 10 * acc + (c.toNat - 48)
      · rw [if_pos hbig]
        refine ⟨by rintro ⟨⟩, ?_⟩
        rintro ⟨-, rfl, hlt⟩
        omega
      · rw [if_neg hbig, ih (not_le.1 hbig)]
        simp only [true_and]
    · rw [Bool.not_eq_true] at hc
      rw [hc, Bool.not_false, if_pos rfl]
      exact ⟨by rintro ⟨⟩, fun h => absurd h.1.1 Bool.false_ne_true⟩

lemma unsign_of_ne {s : List Char} (h : s.head? ≠ some '+') : unsign s = s := by
  unfold unsign
  split
  · exact absurd rfl h
  · rfl

lemma parseU64_eq_ok {s : List Char} {n : ℕ} :
    parseU64 s = .ok n ↔ IsNumber (unsign s) ∧ value (unsign s) = n := by
  unfold parseU64
  split_ifs with hnil hsign
  · subst hnil
    exact ⟨by rintro ⟨⟩, fun h => absurd rfl h.1.nonempty⟩
  · refine ⟨by rintro ⟨⟩, fun h => ?_⟩
    rcases hsign with rfl | rfl
    · exact absurd rfl h.1.nonempty
    · exact absurd (h.1.digits '-' List.mem_cons_self) (by decide)
  · rw [readDigits_eq_ok (by decide)]
    constructor
    · rintro ⟨hdigits, rfl, hsmall⟩
      refine ⟨⟨fun h => ?_, hdigits, hsmall⟩, rfl⟩
      match s, h with
      | [], _ => exact hnil rfl
      | ['+'], _ => exact hsign (.inl rfl)
      | '+' :: _ :: _, h => cases h
      | c :: t, h =>
        by_cases hc : c = '+'
        · subst hc
          obtain rfl : t = [] := h
          exact hsign (.inl rfl)
        · rw [unsign_of_ne (by simpa using hc)] at h
          cases h
    · rintro ⟨hnum, rfl⟩
      exact ⟨hnum.digits, rfl, hnum.small⟩

lemma IsNumber.head?_ne {t : List Char} (h : IsNumber t) {c : Char} (hc : c.isDigit = false) :
    t.head? ≠ some c := fun hhead => by
  have hmem := h.digits c (List.mem_of_mem_head? hhead)
  rw [hc] at hmem
  cases hmem

lemma IsNumber.unsign_eq {t : List Char} (h : IsNumber t) : unsign t = t :=
  unsign_of_ne (h.head?_ne rfl)

/-- A number that is read has no hyphen and no comma, before its sign is dropped. -/
lemma not_mem_of_isNumber {t : List Char} (h : IsNumber (unsign t)) {c : Char} (hplus : c ≠ '+')
    (hc : c.isDigit = false) : c ∉ t := by
  intro hmem
  have hkept : c ∈ unsign t := by
    unfold unsign
    split
    · exact (List.mem_cons.1 hmem).resolve_left hplus
    · exact hmem
  rw [h.digits c hkept] at hc
  cases hc

lemma ne_nil_of_isNumber {t : List Char} (h : IsNumber (unsign t)) : t ≠ [] := by
  rintro rfl
  exact h.nonempty rfl

/-! ### A range as it is written -/

namespace RangeSpec

variable {spec spec' : RangeSpec}

lemma not_mem_text (h : spec.unsigned.WellFormed) : ',' ∉ spec.text := by
  have hfree : ∀ {t}, IsNumber (unsign t) → ',' ∉ t := fun h =>
    not_mem_of_isNumber h (by decide) (by decide)
  cases spec with
  | between first last =>
    have h₁ := hfree (h _ List.mem_cons_self)
    have h₂ := hfree (h _ (List.mem_cons_of_mem _ List.mem_cons_self))
    simp [text, h₁, h₂]
  | onward first =>
    have h₁ := hfree (h _ List.mem_cons_self)
    simp [text, h₁]
  | suffix length =>
    have h₁ := hfree (h _ List.mem_cons_self)
    simp [text, h₁]

/-- The first hyphen parts the text. -/
lemma splitOnceAt_text {t : List Char} (h : IsNumber (unsign t)) (rest : List Char) :
    splitOnceAt (· = '-') (t ++ '-' :: rest) = some (t, rest) :=
  splitOnceAt_append (fun c hc => decide_eq_false fun heq =>
    not_mem_of_isNumber h (by decide) (by decide) (heq ▸ hc)) (by decide) rest

lemma ofText_text (h : spec.unsigned.WellFormed) : ofText spec.text = some spec := by
  unfold ofText
  cases spec with
  | between first last =>
    have h₁ := h _ List.mem_cons_self
    have h₂ := h _ (List.mem_cons_of_mem _ List.mem_cons_self)
    rw [text, splitOnceAt_text h₁]
    obtain ⟨c, t, rfl⟩ := List.exists_cons_of_ne_nil (ne_nil_of_isNumber h₁)
    obtain ⟨d, u, rfl⟩ := List.exists_cons_of_ne_nil (ne_nil_of_isNumber h₂)
    rfl
  | onward first =>
    have h₁ := h _ List.mem_cons_self
    rw [text, splitOnceAt_text h₁]
    obtain ⟨c, t, rfl⟩ := List.exists_cons_of_ne_nil (ne_nil_of_isNumber h₁)
    rfl
  | suffix length => rfl

lemma unsigned_eq_self (h : spec.WellFormed) : spec.unsigned = spec := by
  cases spec with
  | between first last =>
    rw [unsigned, (h _ List.mem_cons_self).unsign_eq,
      (h _ (List.mem_cons_of_mem _ List.mem_cons_self)).unsign_eq]
  | onward first => rw [unsigned, (h _ List.mem_cons_self).unsign_eq]
  | suffix length => rw [unsigned, (h _ List.mem_cons_self).unsign_eq]

/-- One text is one range. -/
lemma text_injective (h : spec.unsigned.WellFormed) (h' : spec'.unsigned.WellFormed)
    (heq : spec.text = spec'.text) : spec = spec' := by
  have hone := ofText_text h
  rw [heq, ofText_text h'] at hone
  exact (Option.some.inj hone).symm

lemma Is.unique {size a b a' b' : ℕ} (h : spec.Is size a b) (h' : spec.Is size a' b') :
    a = a' ∧ b = b' := by
  have h₁ := (h'.selects a).1 ((h.selects a).2 ⟨le_rfl, h.le⟩)
  have h₂ := (h'.selects b).1 ((h.selects b).2 ⟨h.le, le_rfl⟩)
  have h₃ := (h.selects a').1 ((h'.selects a').2 ⟨le_rfl, h'.le⟩)
  have h₄ := (h.selects b').1 ((h'.selects b').2 ⟨h'.le, le_rfl⟩)
  exact ⟨by omega, by omega⟩

/-- What a range selects lies together. -/
lemma exists_is {size i : ℕ} (h : spec.Selects size i) : ∃ a b, spec.Is size a b := by
  cases spec with
  | between first last =>
    obtain ⟨h₁, h₂, h₃⟩ := h
    refine ⟨value first, min (value last) (size - 1), by omega, by omega, fun j => ?_⟩
    simp only [Selects]
    omega
  | onward first =>
    obtain ⟨h₁, h₂⟩ := h
    refine ⟨value first, size - 1, by omega, by omega, fun j => ?_⟩
    simp only [Selects]
    omega
  | suffix length =>
    obtain ⟨h₁, h₂⟩ := h
    refine ⟨size - min (value length) size, size - 1, by omega, by omega, fun j => ?_⟩
    simp only [Selects]
    omega

end RangeSpec

/-! ### What is read -/

section

open RangeSpec

variable {size a b : ℕ}

lemma refused_iff {e : RangeError} {P : Prop} (h : ¬P) :
    (some (.error e) : Option (Except RangeError (ℕ × ℕ))) = some (.ok (a, b)) ↔ P :=
  iff_of_false (by rintro ⟨⟩) h

lemma RangeSpec.Is.ok_iff {spec : RangeSpec} {x y : ℕ} {P : Prop}
    (his : spec.Is size x y) (hP : P) :
    (some (.ok (x, y)) : Option (Except RangeError (ℕ × ℕ))) = some (.ok (a, b)) ↔
      P ∧ spec.Is size a b := by
  constructor
  · intro h
    cases h
    exact ⟨hP, his⟩
  · rintro ⟨-, h⟩
    obtain ⟨rfl, rfl⟩ := his.unique h
    rfl

lemma not_isNumber {s : List Char} {e : ParseIntError} (h : parseU64 s = .error e) :
    ¬IsNumber (unsign s) := fun hnum => by
  rw [parseU64_eq_ok.2 ⟨hnum, rfl⟩] at h
  cases h

lemma parseSuffix_eq_ok {length : List Char} : parseSuffix length size = some (.ok (a, b)) ↔
    (suffix length).unsigned.WellFormed ∧ (suffix length).unsigned.Is size a b := by
  have hwell : (suffix length).unsigned.WellFormed ↔ IsNumber (unsign length) :=
    List.forall_mem_singleton
  rw [hwell]
  unfold parseSuffix
  split
  · rename_i e hread
    exact refused_iff fun h => not_isNumber hread h.1
  rename_i n hread
  obtain ⟨hnum, hvalue⟩ := parseU64_eq_ok.1 hread
  have hselects : ∀ i, (suffix length).unsigned.Selects size i ↔ size ≤ i + n ∧
    i < size := fun i => by
    rw [← hvalue]
    rfl
  have hfirst : ∀ {P : Prop}, P ∧ (suffix length).unsigned.Is size a b → size ≤ a + n ∧ a < size :=
    fun h => (hselects a).1 ((h.2.selects a).2 ⟨le_rfl, h.2.le⟩)
  split_ifs with hzero hempty
  · exact refused_iff fun h => by
      have := hfirst h
      omega
  · exact refused_iff fun h => by
      have := hfirst h
      omega
  · rw [checkedSub_eq (min_le_right n size), checkedSub_eq (by omega : 1 ≤ size)]
    refine RangeSpec.Is.ok_iff ⟨by omega, by omega, fun i => ?_⟩ hnum
    rw [hselects]
    omega

lemma parseBounds_nil {first : List Char} : parseBounds first [] size = some (.ok (a, b)) ↔
    (onward first).unsigned.WellFormed ∧ (onward first).unsigned.Is size a b := by
  have hwell : (onward first).unsigned.WellFormed ↔ IsNumber (unsign first) :=
    List.forall_mem_singleton
  rw [hwell]
  unfold parseBounds
  split
  · rename_i e hread
    exact refused_iff fun h => not_isNumber hread h.1
  rename_i start hread
  obtain ⟨hnum, hvalue⟩ := parseU64_eq_ok.1 hread
  have hselects : ∀ i, (onward first).unsigned.Selects size i ↔ start ≤ i ∧ i < size := fun i => by
    rw [← hvalue]
    rfl
  have hfirst : ∀ {P : Prop}, P ∧ (onward first).unsigned.Is size a b → start ≤ a ∧ a < size :=
    fun h => (hselects a).1 ((h.2.selects a).2 ⟨le_rfl, h.2.le⟩)
  rw [if_pos rfl]
  dsimp only
  split_ifs with hreversed hbeyond
  · exact refused_iff fun h => by
      have := hfirst h
      omega
  · exact refused_iff fun h => by
      have := hfirst h
      omega
  · rw [checkedSub_eq (by omega : 1 ≤ size)]
    refine RangeSpec.Is.ok_iff ⟨by omega, by omega, fun i => ?_⟩ hnum
    rw [hselects]
    omega

lemma parseBounds_of_ne {first last : List Char} (hlast : last ≠ []) :
    parseBounds first last size = some (.ok (a, b)) ↔
      (between first last).unsigned.WellFormed ∧ (between first last).unsigned.Is size a b := by
  have hwell : (between first last).unsigned.WellFormed ↔
      IsNumber (unsign first) ∧ IsNumber (unsign last) :=
    List.forall_mem_cons.trans (and_congr_right fun _ => List.forall_mem_singleton)
  rw [hwell]
  unfold parseBounds
  split
  · rename_i e hread
    exact refused_iff fun h => not_isNumber hread h.1.1
  rename_i start hread
  obtain ⟨hnum, hvalue⟩ := parseU64_eq_ok.1 hread
  rw [if_neg hlast]
  split
  · rename_i e hread'
    exact refused_iff fun h => not_isNumber hread' h.1.2
  rename_i stop hread'
  obtain ⟨hnum', hvalue'⟩ := parseU64_eq_ok.1 hread'
  have hselects : ∀ i, (between first last).unsigned.Selects size i ↔ start ≤ i ∧
      i ≤ stop ∧ i < size :=
    fun i => by
      rw [← hvalue, ← hvalue']
      rfl
  have hfirst : ∀ {P : Prop}, P ∧ (between first last).unsigned.Is size a b →
      start ≤ a ∧ a ≤ stop ∧ a < size :=
    fun h => (hselects a).1 ((h.2.selects a).2 ⟨le_rfl, h.2.le⟩)
  split_ifs with hreversed hbeyond
  · exact refused_iff fun h => by
      have := hfirst h
      omega
  · exact refused_iff fun h => by
      have := hfirst h
      omega
  · rw [checkedSub_eq (by omega : 1 ≤ size)]
    refine RangeSpec.Is.ok_iff ⟨by omega, by omega, fun i => ?_⟩ ⟨hnum, hnum'⟩
    rw [hselects]
    omega

/-- The range that is written, if there is one. -/
lemma exists_text_iff (spec : RangeSpec) (hspec : ofText spec.text = some spec) :
    (∃ spec' : RangeSpec, spec.text = spec'.text ∧ spec'.unsigned.WellFormed ∧
      spec'.unsigned.Is size a b) ↔ spec.unsigned.WellFormed ∧ spec.unsigned.Is size a b := by
  refine ⟨?_, fun h => ⟨spec, rfl, h⟩⟩
  rintro ⟨spec', htext, h⟩
  have hsame := ofText_text h.1
  rw [← htext, hspec] at hsame
  obtain rfl : spec = spec' := Option.some.inj hsame
  exact h

/-- **What the parser accepts**: one range, with or without plus signs, that selects something. -/
lemma parseSingleRange_eq_ok {header : List Char} :
    parseSingleRange header size = some (.ok (a, b)) ↔ ∃ spec : RangeSpec,
    trimWith Rooms.isWhitespace header = "bytes=".toList ++ spec.text ∧
      spec.unsigned.WellFormed ∧ spec.unsigned.Is size a b := by
  unfold parseSingleRange
  dsimp only
  by_cases hunit : "bytes=".toList <+: trimWith Rooms.isWhitespace header
  swap
  · rw [if_pos hunit]
    exact refused_iff fun ⟨spec, htext, _⟩ => hunit (htext ▸ List.prefix_append _ _)
  obtain ⟨t, ht⟩ := hunit
  rw [← ht, if_neg (not_not.2 (List.prefix_append _ _)), List.drop_left]
  simp only [List.append_cancel_left_eq]
  split_ifs with hcomma
  · refine refused_iff ?_
    rintro ⟨spec, rfl, hwell, -⟩
    exact not_mem_text hwell hcomma
  split
  · rename_i hsplit
    refine refused_iff ?_
    rintro ⟨spec, rfl, hwell, -⟩
    have htext := ofText_text hwell
    rw [ofText, hsplit] at htext
    cases htext
  · rename_i length hsplit
    obtain ⟨c, hc, rfl⟩ := splitOnceAt_eq_some hsplit
    obtain rfl : c = '-' := of_decide_eq_true hc
    rw [parseSuffix_eq_ok]
    exact (exists_text_iff (suffix length) rfl).symm
  · rename_i first last hfirst hsplit
    obtain ⟨c, hc, rfl⟩ := splitOnceAt_eq_some hsplit
    obtain rfl : c = '-' := of_decide_eq_true hc
    obtain ⟨d, first, rfl⟩ := List.exists_cons_of_ne_nil fun h => hfirst h
    cases last with
    | nil =>
      rw [parseBounds_nil]
      exact (exists_text_iff (onward (d :: first)) (by rw [text, ofText, hsplit])).symm
    | cons e last =>
      rw [parseBounds_of_ne (List.cons_ne_nil _ _)]
      exact (exists_text_iff (between (d :: first) (e :: last)) (by rw [text, ofText, hsplit])).symm

/-- Nothing leaves the `u64`. -/
lemma parseSingleRange_ne_none (header : List Char) (size : ℕ) :
    parseSingleRange header size ≠ none := by
  have hsuffix : ∀ length, parseSuffix length size ≠ none := fun length => by
    unfold parseSuffix
    split
    · exact Option.some_ne_none _
    split_ifs with h₁ h₂
    · exact Option.some_ne_none _
    · exact Option.some_ne_none _
    · rw [checkedSub_eq (min_le_right _ size), checkedSub_eq (by omega : 1 ≤ size)]
      exact Option.some_ne_none _
  have hbounds : ∀ first last, parseBounds first last size ≠ none := fun first last => by
    unfold parseBounds
    split
    · exact Option.some_ne_none _
    split
    · exact Option.some_ne_none _
    split_ifs with h₁ h₂
    · exact Option.some_ne_none _
    · exact Option.some_ne_none _
    · rw [checkedSub_eq (by omega : 1 ≤ size)]
      exact Option.some_ne_none _
  unfold parseSingleRange
  dsimp only
  by_cases hunit : "bytes=".toList <+: trimWith Rooms.isWhitespace header
  swap
  · rw [if_pos hunit]
    exact Option.some_ne_none _
  rw [if_neg (not_not.2 hunit)]
  split_ifs
  · exact Option.some_ne_none _
  split
  · exact Option.some_ne_none _
  · exact hsuffix _
  · exact hbounds _ _

/-- **The parser accepts what RFC 9110 selects, unless there is a plus sign.** -/
lemma parse_exact_iff {header : List Char} :
    (∀ a b, parseSingleRange header size = some (.ok (a, b)) ↔ Requests header size a b) ↔
      ¬PlusSigned header size := by
  constructor
  · rintro h ⟨spec, htext, hsigned, hwell, i, hi⟩
    obtain ⟨a, b, his⟩ := exists_is hi
    obtain ⟨spec', htext', hwell', -⟩ := (h a b).1
      (parseSingleRange_eq_ok.2 ⟨spec, htext, hwell, his⟩)
    have hsame := unsigned_eq_self hwell'
    obtain rfl : spec = spec' := text_injective hwell (hsame.symm ▸ hwell')
      (List.append_cancel_left (htext.symm.trans htext'))
    exact hsigned hsame
  · intro h a b
    rw [parseSingleRange_eq_ok]
    constructor
    · rintro ⟨spec, htext, hwell, his⟩
      have hsame : spec.unsigned = spec := by
        by_contra hsigned
        exact h ⟨spec, htext, hsigned, hwell, a, (his.selects a).2 ⟨le_rfl, his.le⟩⟩
      rw [hsame] at hwell his
      exact ⟨spec, htext, hwell, his⟩
    · rintro ⟨spec, htext, hwell, his⟩
      exact ⟨spec, htext, (unsigned_eq_self hwell).symm ▸ hwell,
        (unsigned_eq_self hwell).symm ▸ his⟩

end

end Locast.Library

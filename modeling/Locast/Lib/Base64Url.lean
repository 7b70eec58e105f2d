import Locast.Lib.Base64
import Mathlib.Data.List.Monad

/-!
# Base64 for URLs (without padding)

Two characters of the alphabet are others, and the padding is left out: a decoder puts it back and
takes no text that has it.
-/

namespace Locast.Lib.Base64Url

def toUrl (c : Char) : Char := if c = '+' then '-' else if c = '/' then '_' else c

def fromUrl (c : Char) : Option Char :=
  if c = '-' then some '+'
  else if c = '_' then some '/'
  else if c = '+' ∨ c = '/' ∨ c = '=' then none
  else some c

def encode (bytes : List UInt8) : List Char :=
  ((Base64.encodeBytes bytes).filter (· ≠ '=')).map toUrl

/-- The padding is as long as the last group is short. -/
def padded (s : List Char) : List Char := s ++ List.replicate ((4 - s.length % 4) % 4) '='

def decode (s : List Char) : Option (List UInt8) :=
  (s.mapM fromUrl).bind fun l => Base64.decodeChars (padded l)

/-- The characters of a text without padding. -/
def urlChar (c : Char) : Bool := c.isAlphanum || c == '-' || c == '_'

lemma digit_spec {v : ℕ} (h : v < 64) : Base64.digit v ≠ '=' ∧
    fromUrl (toUrl (Base64.digit v)) = some (Base64.digit v) ∧
      urlChar (toUrl (Base64.digit v)) = true := by
  have hall : ∀ v < 64, Base64.digit v ≠ '=' ∧
    fromUrl (toUrl (Base64.digit v)) = some (Base64.digit v) ∧
      urlChar (toUrl (Base64.digit v)) = true := by
    decide
  exact hall v h

/-- What is encoded is digits, and padding at the end. -/
lemma exists_of_mem_encodeBytes {bytes : List UInt8} {c : Char} (h : c ∈ Base64.encodeBytes bytes) :
    c = '=' ∨ ∃ v < 64, c = Base64.digit v := by
  fun_induction Base64.encodeBytes bytes with
  | case1 => cases h
  | case2 a =>
    have ha := a.toNat_lt
    simp only [List.mem_cons, List.not_mem_nil, or_false] at h
    rcases h with rfl | rfl | rfl | rfl
    · exact .inr ⟨_, by omega, rfl⟩
    · exact .inr ⟨_, by omega, rfl⟩
    · exact .inl rfl
    · exact .inl rfl
  | case3 a b =>
    have ha := a.toNat_lt
    have hb := b.toNat_lt
    simp only [List.mem_cons, List.not_mem_nil, or_false] at h
    rcases h with rfl | rfl | rfl | rfl
    · exact .inr ⟨_, by omega, rfl⟩
    · exact .inr ⟨_, by omega, rfl⟩
    · exact .inr ⟨_, by omega, rfl⟩
    · exact .inl rfl
  | case4 a b c' rest ih =>
    have ha := a.toNat_lt
    have hb := b.toNat_lt
    have hc := c'.toNat_lt
    simp only [List.mem_cons] at h
    rcases h with rfl | rfl | rfl | rfl | h
    · exact .inr ⟨_, by omega, rfl⟩
    · exact .inr ⟨_, by omega, rfl⟩
    · exact .inr ⟨_, by omega, rfl⟩
    · exact .inr ⟨_, by omega, rfl⟩
    · exact ih h

lemma mapM_fromUrl {l : List Char} (h : ∀ c ∈ l, fromUrl (toUrl c) = some c) :
    (l.map toUrl).mapM fromUrl = some l := by
  induction l with
  | nil => rfl
  | cons c l ih =>
    rw [List.map_cons, List.mapM_cons, h c List.mem_cons_self,
      ih fun d hd => h d (List.mem_cons_of_mem _ hd)]
    rfl

/-- **The padding is put back.** -/
lemma padded_filter (bytes : List UInt8) :
    padded ((Base64.encodeBytes bytes).filter (· ≠ '=')) = Base64.encodeBytes bytes := by
  have hkeep : ∀ v < 64, ∀ l : List Char,
      (Base64.digit v :: l).filter (· ≠ '=') = Base64.digit v :: l.filter (· ≠ '=') := fun v hv l =>
    List.filter_cons_of_pos (decide_eq_true (digit_spec hv).1)
  have hdrop : ∀ l : List Char, ('=' :: l).filter (· ≠ '=') = l.filter (· ≠ '=') := fun l =>
    List.filter_cons_of_neg (by simp)
  fun_induction Base64.encodeBytes bytes with
  | case1 => rfl
  | case2 a =>
    have ha := a.toNat_lt
    rw [hkeep _ (by omega), hkeep _ (by omega), hdrop, hdrop, List.filter_nil]
    rfl
  | case3 a b =>
    have ha := a.toNat_lt
    have hb := b.toNat_lt
    rw [hkeep _ (by omega), hkeep _ (by omega), hkeep _ (by omega), hdrop, List.filter_nil]
    rfl
  | case4 a b c rest ih =>
    have ha := a.toNat_lt
    have hb := b.toNat_lt
    have hc := c.toNat_lt
    have hfour : ∀ (w x y z : Char) (l : List Char),
        padded (w :: x :: y :: z :: l) = w :: x :: y :: z :: padded l := by
      intro w x y z l
      have hmod : (l.length + 1 + 1 + 1 + 1) % 4 = l.length % 4 := by omega
      simp only [padded, List.length_cons, hmod, List.cons_append]
    rw [hkeep _ (by omega), hkeep _ (by omega), hkeep _ (by omega), hkeep _ (by omega), hfour, ih]

/-- **The round trip.** -/
theorem decode_encode (bytes : List UInt8) : decode (encode bytes) = some bytes := by
  have hback : ∀ c ∈ (Base64.encodeBytes bytes).filter (· ≠ '='), fromUrl (toUrl c) = some c := by
    intro c hc
    obtain ⟨hmem, hne⟩ := List.mem_filter.1 hc
    rcases exists_of_mem_encodeBytes hmem with rfl | ⟨v, hv, rfl⟩
    · exact absurd hne (by decide)
    · exact (digit_spec hv).2.1
  rw [decode, encode, mapM_fromUrl hback, Option.bind_some, padded_filter,
    Base64.decodeChars_encodeBytes]

/-- A text without padding needs no escape in a URL. -/
lemma urlChar_of_mem_encode {bytes : List UInt8} {c : Char} (h : c ∈ encode bytes) :
    urlChar c = true := by
  obtain ⟨d, hd, rfl⟩ := List.mem_map.1 h
  obtain ⟨hmem, hne⟩ := List.mem_filter.1 hd
  rcases exists_of_mem_encodeBytes hmem with rfl | ⟨v, hv, rfl⟩
  · exact absurd hne (by decide)
  · exact (digit_spec hv).2.2

end Locast.Lib.Base64Url

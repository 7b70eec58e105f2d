import Locast.Subtitles.Lines
import Locast.Subtitles.Rendering

/-!
# Reading what was written

The lines of a written text are those that were written, and its bytes are decoded to it.
-/

namespace Locast.Subtitles

open Locast.Lib

variable {caps : Caps}

/-! ### Lines -/

lemma linesFrom_append {l : List Char} (h : Unbroken l) (rest cur : List Char) :
    linesFrom (l ++ rest) cur = linesFrom rest (cur ++ l) := by
  induction l generalizing cur with
  | nil => simp
  | cons c l ih =>
    have hc : ¬IsBreak c := not_or.2 (h c List.mem_cons_self)
    rw [List.cons_append, linesFrom_cons, if_neg hc, ih fun d hd => h d (List.mem_cons_of_mem _ hd),
      List.append_assoc, List.singleton_append]

/-- A line ends where its ending is not part of a longer one. -/
lemma linesFrom_ending {e : Ending} {rest : List Char} (h : e = .cr → rest.head? ≠ some '\n')
    (cur : List Char) : linesFrom (e.chars ++ rest) cur = cur :: linesOf rest := by
  cases e with
  | lf =>
    rw [Ending.chars, List.singleton_append, linesFrom_cons, if_pos (.inl rfl)]
    exact congrArg _ (if_neg fun hlf => absurd hlf.1 (by decide))
  | crlf =>
    rw [Ending.chars, List.cons_append, linesFrom_cons, if_pos (.inr rfl)]
    exact congrArg _ (if_pos ⟨rfl, rfl⟩)
  | cr =>
    rw [Ending.chars, List.singleton_append, linesFrom_cons, if_pos (.inr rfl)]
    exact congrArg _ (if_neg fun hlf => h rfl hlf.2)

lemma linesOf_append_ending {l rest : List Char} {e : Ending} (hl : Unbroken l)
    (h : e = .cr → rest.head? ≠ some '\n') :
    linesOf (l ++ (e.chars ++ rest)) = l :: linesOf rest := by
  rw [linesOf, linesFrom_append hl, linesFrom_ending h, List.nil_append]

lemma linesOf_unbroken {l : List Char} (hl : Unbroken l) :
    linesOf l = if l = [] then [] else [l] := by
  have := linesFrom_append hl [] []
  rwa [List.append_nil, List.nil_append] at this

/-- What begins with a line feed begins with an empty line that it ends. -/
lemma eq_nil_of_head? {l rest : List Char} {e : Ending} (hl : Unbroken l)
    (h : (l ++ (e.chars ++ rest)).head? = some '\n') : l = [] ∧ e = .lf := by
  cases l with
  | cons c l =>
    rw [List.cons_append, List.head?_cons, Option.some_inj] at h
    exact absurd h (hl c List.mem_cons_self).1
  | nil =>
    cases e with
    | lf => exact ⟨rfl, rfl⟩
    | crlf => simp [Ending.chars] at h
    | cr => simp [Ending.chars] at h

/-- **The lines of a written text.** -/
lemma linesOf_of_written {lines : List (List Char)} {text : List Char} (h : Written lines text) :
    linesOf text = lines := by
  obtain ⟨hchain, hlines, hlast⟩ := h
  rename_i ended last
  induction ended with
  | nil => exact linesOf_unbroken hlast
  | cons l ended ih =>
    have hl := hlines l List.mem_cons_self
    have hrest := fun l' hl' => hlines l' (List.mem_cons_of_mem _ hl')
    rw [List.flatMap_cons, List.append_assoc, EndedLine.chars, List.append_assoc,
      linesOf_append_ending hl ?_, ih hchain.of_cons hrest, List.map_cons, List.cons_append]
    intro hcr hlf
    cases ended with
    | nil =>
      obtain ⟨rest, rfl⟩ := List.head?_eq_some_iff.1 hlf
      exact (hlast '\n' List.mem_cons_self).1 rfl
    | cons l' ended =>
      rw [List.flatMap_cons, List.append_assoc, EndedLine.chars, List.append_assoc] at hlf
      obtain ⟨hline, hending⟩ := eq_nil_of_head? (hlines l' (by simp)) hlf
      exact (List.isChain_cons_cons.1 hchain).1 ⟨hcr, hline, hending⟩

/-! ### Bytes -/

lemma units_flatMap {toUnit : UInt8 → UInt8 → ℕ} {toBytes : ℕ → List UInt8}
    (h : ∀ u < 0x10000, ∀ rest, units toUnit (toBytes u ++ rest) = (units toUnit rest).map (u :: ·))
    (text : List Char) :
    units toUnit ((text.flatMap encodeUtf16).flatMap toBytes) =
      some (text.flatMap encodeUtf16) := by
  have hlt : ∀ u ∈ text.flatMap encodeUtf16, u < 0x10000 := by
    intro u hu
    obtain ⟨c, -, hu⟩ := List.mem_flatMap.1 hu
    exact lt_of_mem_encodeUtf16 hu
  generalize text.flatMap encodeUtf16 = us at hlt
  induction us with
  | nil => rfl
  | cons u us ih =>
    rw [List.flatMap_cons, h u (hlt u List.mem_cons_self),
      ih fun v hv => hlt v (List.mem_cons_of_mem _ hv)]
    rfl

lemma units_leBytes (u : ℕ) (hu : u < 0x10000) (rest : List UInt8) :
    units fromLeBytes (leBytes u ++ rest) = (units fromLeBytes rest).map (u :: ·) := by
  have hback : fromLeBytes (UInt8.ofNat u) (UInt8.ofNat (u / 256)) = u := by
    simp only [fromLeBytes, UInt8.toNat_ofNat']
    omega
  rw [leBytes, List.cons_append, List.singleton_append, units, hback]

lemma units_beBytes (u : ℕ) (hu : u < 0x10000) (rest : List UInt8) :
    units fromBeBytes (beBytes u ++ rest) = (units fromBeBytes rest).map (u :: ·) := by
  have hback : fromBeBytes (UInt8.ofNat (u / 256)) (UInt8.ofNat u) = u := by
    simp only [fromBeBytes, UInt8.toNat_ofNat']
    omega
  rw [beBytes, List.cons_append, List.singleton_append, units, hback]

lemma decodeUtf16Bytes_eq {toUnit : UInt8 → UInt8 → ℕ} {bytes : List UInt8} {text : List Char}
    (h : units toUnit bytes = some (text.flatMap encodeUtf16))
    (hlen : byteLen text ≤ caps.maxInputBytes) :
    decodeUtf16Bytes caps toUnit bytes = .ok text := by
  rw [decodeUtf16Bytes, h, Option.bind_some, decodeUtf16_flatMap]
  exact if_neg (Nat.not_lt.2 hlen)

/-- No byte of UTF-8 begins a mark of UTF-16. -/
lemma take_two_encodeUtf8 {text : List Char} {b : UInt8} {bs : List UInt8} (hb : 0xF8 ≤ b.toNat) :
    (encodeUtf8 text).take 2 ≠ b :: bs := by
  intro h
  cases text with
  | nil => cases h
  | cons c text =>
    have hmem : b ∈ String.utf8EncodeChar c := by
      rw [encodeUtf8_cons] at h
      cases hbytes : String.utf8EncodeChar c with
      | nil => exact absurd hbytes String.utf8EncodeChar_ne_nil
      | cons b' bytes =>
        rw [hbytes] at h
        cases h
        exact List.mem_cons_self
    exact absurd (lt_of_mem_utf8EncodeChar hmem) (Nat.not_lt.2 hb)

lemma take_three_encodeUtf8 {text : List Char} (h : text.head? ≠ some '\uFEFF') :
    (encodeUtf8 text).take 3 ≠ [0xEF, 0xBB, 0xBF] := by
  intro htake
  cases text with
  | nil => cases htake
  | cons c text =>
    have hsplit := List.take_append_drop 3 (encodeUtf8 (c :: text))
    rw [htake, encodeUtf8_cons] at hsplit
    exact h (congrArg some (eq_of_utf8EncodeChar_append hsplit.symm))

/-- **The bytes of a text are decoded to it.** -/
lemma decodeMarked_encode {text : List Char} (enc : Encoding)
    (hlen : byteLen text ≤ caps.maxInputBytes) (hmark : text.head? ≠ some '\uFEFF') :
    decodeMarked caps (enc.encode text) = .ok text := by
  cases enc with
  | utf8 =>
    rw [Encoding.encode, decodeMarked, if_neg (take_two_encodeUtf8 (by decide)),
      if_neg (take_two_encodeUtf8 (by decide)), if_neg (take_three_encodeUtf8 hmark),
      decodeUtf8_encodeUtf8]
    rfl
  | utf8Bom =>
    rw [Encoding.encode, decodeMarked, if_neg (by simp), if_neg (by simp), if_pos (by simp)]
    simp only [List.cons_append, List.nil_append, List.drop_succ_cons, List.drop_zero,
      decodeUtf8_encodeUtf8]
    rfl
  | utf16Le =>
    rw [Encoding.encode, decodeMarked, if_pos (by simp)]
    exact decodeUtf16Bytes_eq (units_flatMap units_leBytes text) hlen
  | utf16Be =>
    rw [Encoding.encode, decodeMarked, if_neg (by simp), if_pos (by simp)]
    exact decodeUtf16Bytes_eq (units_flatMap units_beBytes text) hlen

lemma decodeText_encode {lines : List (List Char)} {text : List Char} {enc : Encoding}
    (h : Fits caps lines text (enc.encode text)) (hblank : isBlank text = false) :
    decodeText caps (enc.encode text) = .ok text := by
  rw [decodeText, if_neg (Nat.not_lt.2 h.input), decodeMarked_encode enc h.decoded h.noMark]
  change checkText text = .ok text
  rw [checkText, if_neg h.noNul, hblank]
  rfl

end Locast.Subtitles

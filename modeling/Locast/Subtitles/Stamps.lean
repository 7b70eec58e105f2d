import Locast.Subtitles.Formats
import Locast.Subtitles.Rendering

/-!
# Stamps and timing lines, read back

The fields of a stamp are read as the numbers they write, so that a stamp gives its time and a
timing line its two times.
-/

namespace Locast.Subtitles

open Locast.Lib

variable {caps : Caps}

/-! ### Digits -/

lemma toNat_of_isDigit {c : Char} (h : c.isDigit = true) : 48 ≤ c.toNat ∧ c.toNat ≤ 57 := by
  simpa [Char.isDigit, UInt32.le_iff_toNat_le] using h

/-- A digit is none of the characters between the fields. -/
lemma ne_of_isDigit {c d : Char} (h : c.isDigit = true) (hd : d.isDigit = false := by rfl) :
    c ≠ d := by
  rintro rfl
  simp [h] at hd

lemma isWhitespace_of_isDigit {c : Char} (h : c.isDigit = true) : Rooms.isWhitespace c = false := by
  have := toNat_of_isDigit h
  simp only [Rooms.isWhitespace]
  grind

lemma utf8Size_of_isDigit {c : Char} (h : c.isDigit = true) : c.utf8Size = 1 := by
  have hc : c.val.toNat = c.toNat := rfl
  have := toNat_of_isDigit h
  rw [Char.utf8Size, if_pos]
  rw [UInt32.le_iff_toNat_le, hc]
  exact this.2.trans (by decide)

lemma Digits.byteLen_eq {s : List Char} (h : Digits s) : byteLen s = s.length := by
  have hall := h.digits
  clear h
  induction s with
  | nil => rfl
  | cons c s ih =>
    rw [byteLen_cons, utf8Size_of_isDigit (hall c List.mem_cons_self),
      ih fun d hd => hall d (List.mem_cons_of_mem _ hd), List.length_cons, Nat.add_comm]

lemma digitsValue_concat (s : List Char) (c : Char) :
    digitsValue (s ++ [c]) = digitsValue s * 10 + (c.toNat - 48) := by
  simp [digitsValue]

lemma digitsValue_lt {s : List Char} (h : ∀ c ∈ s, c.isDigit = true) :
    digitsValue s < 10 ^ s.length := by
  induction s using List.reverseRecOn with
  | nil => decide
  | append_singleton s c ih =>
    have := ih fun d hd => h d (List.mem_append_left _ hd)
    have := toNat_of_isDigit (h c (by simp))
    rw [digitsValue_concat, List.length_append, List.length_singleton, Nat.pow_succ]
    omega

lemma Digits.notMem {s : List Char} (h : Digits s) {d : Char} (hd : d.isDigit = false) : d ∉ s :=
  fun hmem => ne_of_isDigit (h.digits d hmem) hd rfl

/-- **Digits are read as their number.** -/
lemma Digits.parseDigits_eq {s : List Char} (h : Digits s) (hlen : s.length ≤ maxTimestampDigits) :
    parseDigits s = some (digitsValue s) := by
  have hlt := (digitsValue_lt h.digits).trans_le (Nat.pow_le_pow_right (by decide) hlen)
  rw [parseDigits, if_neg, if_pos (List.all_eq_true.2 h.digits), checkedU32,
    if_pos (hlt.trans (by decide))]
  rw [h.byteLen_eq]
  exact not_or.2 ⟨h.ne_nil, Nat.not_lt.2 hlen⟩

lemma Digits.fracToMs_eq {s : List Char} (h : Digits s) (hlen : s.length ≤ 3) :
    fracToMs s = some (fraction s) := by
  have hlt := digitsValue_lt h.digits
  rw [fracToMs, h.parseDigits_eq (hlen.trans (by decide)), Option.bind_some, h.byteLen_eq, fraction]
  obtain hone | htwo | hthree : s.length = 1 ∨ s.length = 2 ∨ s.length = 3 := by
    have := List.length_pos_of_ne_nil h.ne_nil
    omega
  · rw [hone] at hlt ⊢
    exact if_pos (by omega)
  · rw [htwo] at hlt ⊢
    exact if_pos (by omega)
  · rw [hthree] at hlt ⊢
    exact if_pos (by omega)

/-! ### Totals -/

lemma checkedU64_eq {n : ℕ} (h : n < 2 ^ 64) : checkedU64 n = some n := if_pos h

/-- A time within the cap is its own total. -/
lemma timestampToMs_eq {t line hours minutes seconds ms : ℕ} (hcap : caps.maxTimestampMs < 2 ^ 32)
    (ht : t ≤ caps.maxTimestampMs)
    (h : t = hours * msPerHour + minutes * msPerMinute + seconds * msPerSecond + ms) :
    timestampToMs caps line hours minutes seconds ms = .ok t := by
  have hsmall : ∀ n, n ≤ t → n < 2 ^ 64 := fun n hn =>
    (hn.trans ht).trans_lt (hcap.trans (by decide))
  have htotal : timestampTotal hours minutes seconds ms = some t := by
    rw [timestampTotal, checkedU64_eq (hsmall _ (by omega)), Option.bind_some,
      checkedU64_eq (hsmall _ (by omega)), Option.bind_some, checkedU64_eq (hsmall _ (by omega)),
      Option.bind_some, checkedU64_eq (hsmall _ (by omega)), Option.bind_some,
      checkedU64_eq (hsmall _ (by omega)), Option.bind_some, checkedU64_eq (hsmall _ (by omega)), h]
  rw [timestampToMs, htotal, Option.bind_some, checkedU32, if_pos (ht.trans_lt hcap), withinCap,
    if_pos ht]

/-! ### Stamps -/

section

variable {t line : ℕ} {hours minutes seconds frac : List Char}

lemma StampFields.timestampToMs_eq (h : StampFields t hours minutes seconds frac)
    (hcap : caps.maxTimestampMs < 2 ^ 32) (ht : t ≤ caps.maxTimestampMs) :
    timestampToMs caps line (digitsValue hours) (digitsValue minutes) (digitsValue seconds)
      (fraction frac) = .ok t :=
  Subtitles.timestampToMs_eq hcap ht h.total

/-- The pieces that the code cuts a stamp into. -/
lemma StampFields.splitOn_eq (h : StampFields t hours minutes seconds frac) (sep : Char)
    (hsep : sep ≠ ':') :
    (hours ++ ':' :: (minutes ++ ':' :: (seconds ++ sep :: frac))).splitOn ':' =
      [hours, minutes, seconds ++ sep :: frac] := by
  have hcolon : ∀ s ∈ [hours, minutes, seconds, frac], ':' ∉ s := fun s hs =>
    (h.digits s hs).notMem rfl
  rw [List.splitOn_append_cons_self_of_not_mem (hcolon _ (by simp)),
    List.splitOn_append_cons_self_of_not_mem (hcolon _ (by simp)), List.splitOn_eq_singleton]
  simp [hcolon seconds (by simp), hcolon frac (by simp), hsep.symm]

lemma StampFields.splitOnceAt_eq (h : StampFields t hours minutes seconds frac) {sep : Char}
    {p : Char → Bool} (hp : p sep = true) (hdigit : ∀ c, c.isDigit = true → p c = false) :
    splitOnceAt p (seconds ++ sep :: frac) = some (seconds, frac) :=
  splitOnceAt_append (fun c hc => hdigit c ((h.digits seconds (by simp)).digits c hc)) hp frac

end

lemma orReject_some_bind {α β : Type} (e : SubtitleError) (a : α) (f : α → Parsed β) :
    (orReject e (some a) >>= f) = f a := rfl

/-- A stamp that is read back as its time. -/
def ReadsStamp (caps : Caps) (IsStamp : ℕ → List Char → Prop)
    (parseStamp : List Char → ℕ → Parsed ℕ) : Prop :=
  ∀ t s line, IsStamp t s → t ≤ caps.maxTimestampMs → parseStamp s line = .ok t

lemma Srt.field_eq {s : List Char} {n : ℕ} (h : Digits s) (hlen : s.length ≤ n)
    (hn : n ≤ maxTimestampDigits) :
    Srt.field s n = some (digitsValue s) := by
  rw [Srt.field, h.byteLen_eq, if_neg (Nat.not_lt.2 hlen), h.parseDigits_eq (hlen.trans hn)]

lemma Srt.reads_stamp (hcap : caps.maxTimestampMs < 2 ^ 32) :
    ReadsStamp caps Srt.IsStamp (Srt.parseStamp caps) := by
  rintro t _ line ⟨h, hhours, hsep⟩ ht
  rename_i hours minutes seconds frac sep
  have hcut : splitOnceAt (fun c => c = ',' || c = '.') (seconds ++ sep :: frac) =
      some (seconds, frac) := by
    refine h.splitOnceAt_eq (by simpa using hsep) fun c hc => ?_
    simp [ne_of_isDigit hc (d := ','), ne_of_isDigit hc (d := '.')]
  rw [Srt.parseStamp, h.splitOn_eq sep (by rcases hsep with rfl | rfl <;> decide)]
  dsimp only
  rw [hcut, orReject_some_bind]
  dsimp only
  rw [Srt.field_eq (h.digits hours (by simp)) hhours (by decide), orReject_some_bind,
    Srt.field_eq (h.digits minutes (by simp)) h.minutes_le (by decide), orReject_some_bind,
    Srt.field_eq (h.digits seconds (by simp)) h.seconds_le (by decide), orReject_some_bind,
    (h.digits frac (by simp)).fracToMs_eq h.frac_le, orReject_some_bind]
  exact h.timestampToMs_eq hcap ht

lemma Vtt.twoDigitBelow60_eq {s : List Char} (h : Digits s) (hlen : s.length = 2)
    (hlt : digitsValue s < 60) : Vtt.twoDigitBelow60 s = some (digitsValue s) := by
  rw [Vtt.twoDigitBelow60, h.byteLen_eq, if_neg (not_not.2 hlen),
    h.parseDigits_eq (hlen.trans_le (by decide)), Option.filter_some, if_pos (by simpa using hlt)]

lemma Vtt.stampOf_eq {t line : ℕ} {hours minutes seconds frac : List Char}
    (h : StampFields t hours minutes seconds frac) (hcap : caps.maxTimestampMs < 2 ^ 32)
    (ht : t ≤ caps.maxTimestampMs) (hminutes : minutes.length = 2 ∧ digitsValue minutes < 60)
    (hseconds : seconds.length = 2 ∧ digitsValue seconds < 60) (hfrac : frac.length = 3) :
    Vtt.stampOf caps hours minutes (seconds ++ '.' :: frac) line = .ok t := by
  have hcut : splitOnceAt (· = '.') (seconds ++ '.' :: frac) = some (seconds, frac) :=
    h.splitOnceAt_eq (by simp) fun c hc => by simp [ne_of_isDigit hc (d := '.')]
  rw [Vtt.stampOf, hcut, orReject_some_bind]
  dsimp only
  rw [(h.digits hours (by simp)).parseDigits_eq h.hours_le, orReject_some_bind,
    Vtt.twoDigitBelow60_eq (h.digits minutes (by simp)) hminutes.1 hminutes.2, orReject_some_bind,
    Vtt.twoDigitBelow60_eq (h.digits seconds (by simp)) hseconds.1 hseconds.2, orReject_some_bind,
    (h.digits frac (by simp)).byteLen_eq, if_neg (not_not.2 hfrac),
    (h.digits frac (by simp)).fracToMs_eq h.frac_le, orReject_some_bind]
  exact h.timestampToMs_eq hcap ht

lemma Vtt.reads_stamp (hcap : caps.maxTimestampMs < 2 ^ 32) :
    ReadsStamp caps Vtt.IsStamp (Vtt.parseStamp caps) := by
  rintro t _ line (⟨h, hminutes, hseconds, hfrac⟩ | ⟨h, hminutes, hseconds, hfrac⟩) ht
  · rw [Vtt.parseStamp, h.splitOn_eq '.' (by decide)]
    exact Vtt.stampOf_eq h hcap ht hminutes hseconds hfrac
  · rename_i minutes seconds frac
    -- without hours, it is a stamp of no hours
    have hsplit := h.splitOn_eq '.' (by decide)
    rw [List.splitOn_append_cons_self_of_not_mem (by decide), List.cons.injEq] at hsplit
    rw [Vtt.parseStamp, hsplit.2]
    exact Vtt.stampOf_eq h hcap ht hminutes hseconds hfrac

lemma Ass.twoDigits_eq {s : List Char} (h : Digits s) (hlen : s.length = 2) :
    Ass.twoDigits s = some (digitsValue s) := by
  rw [Ass.twoDigits, h.byteLen_eq, if_pos hlen, h.parseDigits_eq (hlen.trans_le (by decide))]

lemma Ass.reads_stamp (hcap : caps.maxTimestampMs < 2 ^ 32) :
    ReadsStamp caps Ass.IsStamp (Ass.parseStamp caps) := by
  rintro t _ line ⟨h, hminutes, hseconds⟩ ht
  rename_i hours minutes seconds frac
  have hcut : splitOnceAt (· = '.') (seconds ++ '.' :: frac) = some (seconds, frac) :=
    h.splitOnceAt_eq (by simp) fun c hc => by simp [ne_of_isDigit hc (d := '.')]
  rw [Ass.parseStamp, h.splitOn_eq '.' (by decide)]
  dsimp only
  rw [hcut, orReject_some_bind]
  dsimp only
  rw [(h.digits hours (by simp)).parseDigits_eq h.hours_le, orReject_some_bind,
    Ass.twoDigits_eq (h.digits minutes (by simp)) hminutes, orReject_some_bind,
    Ass.twoDigits_eq (h.digits seconds (by simp)) hseconds, orReject_some_bind,
    (h.digits frac (by simp)).fracToMs_eq h.frac_le, orReject_some_bind]
  exact h.timestampToMs_eq hcap ht

/-! ### Timing lines -/

def isStampChar (c : Char) : Bool := c.isDigit || c = ':' || c = ',' || c = '.'

lemma isWhitespace_of_isStampChar {c : Char} (h : isStampChar c = true) :
    Rooms.isWhitespace c = false := by
  simp only [isStampChar, Bool.or_eq_true, decide_eq_true_eq] at h
  rcases h with ((h | rfl) | rfl) | rfl
  · exact isWhitespace_of_isDigit h
  · decide
  · decide
  · decide

lemma ne_of_isStampChar {c d : Char} (h : isStampChar c = true) (hd : isStampChar d = false) :
    c ≠ d := by
  rintro rfl
  simp [h] at hd

def StampChars (IsStamp : ℕ → List Char → Prop) : Prop :=
  ∀ t s, IsStamp t s → s ≠ [] ∧ ∀ c ∈ s, isStampChar c = true

lemma StampFields.chars {t : ℕ} {hours minutes seconds frac : List Char} {sep : Char}
    (h : StampFields t hours minutes seconds frac) (hsep : sep = ',' ∨ sep = '.') :
    ∀ c ∈ hours ++ ':' :: (minutes ++ ':' :: (seconds ++ sep :: frac)), isStampChar c = true := by
  have hdigit : ∀ s ∈ [hours, minutes, seconds, frac], ∀ c ∈ s, isStampChar c = true :=
    fun s hs c hc => by simp [isStampChar, (h.digits s hs).digits c hc]
  simp only [List.mem_append, List.mem_cons]
  rintro c (hc | rfl | hc | rfl | hc | rfl | hc)
  · exact hdigit hours (by simp) c hc
  · rfl
  · exact hdigit minutes (by simp) c hc
  · rfl
  · exact hdigit seconds (by simp) c hc
  · rcases hsep with rfl | rfl <;> rfl
  · exact hdigit frac (by simp) c hc

lemma Srt.stampChars : StampChars Srt.IsStamp := by
  rintro t _ ⟨h, -, hsep⟩
  exact ⟨by simp, h.chars hsep⟩

lemma Vtt.stampChars : StampChars Vtt.IsStamp := by
  rintro t _ (⟨h, -, -, -⟩ | ⟨h, -, -, -⟩)
  · exact ⟨by simp, h.chars (.inr rfl)⟩
  · exact ⟨by simp, fun c hc => h.chars (.inr rfl) c (by simp at hc ⊢; tauto)⟩

lemma Ass.stampChars : StampChars Ass.IsStamp := by
  rintro t _ ⟨h, -, -⟩
  exact ⟨by simp, h.chars (.inr rfl)⟩

/-- A timing line begins with what is blank or a stamp. -/
lemma head?_of_isTimingLine {IsStamp : ℕ → List Char → Prop} (hchars : StampChars IsStamp)
    {start stop : ℕ} {raw : List Char} (hraw : IsTimingLine IsStamp start stop raw) :
    ∀ c ∈ raw.head?, Rooms.isWhitespace c = true ∨ isStampChar c = true := by
  obtain ⟨hleft, -, hbefore, -, -, -⟩ := hraw
  rename_i before left leftPad rightPad right rest
  obtain ⟨hlne, hlchars⟩ := hchars start left hleft
  cases before with
  | cons c before =>
    rintro _ ⟨⟩
    exact .inl (isBlank_iff.1 hbefore c List.mem_cons_self)
  | nil =>
    obtain ⟨c, left, rfl⟩ := List.exists_cons_of_ne_nil hlne
    rintro _ ⟨⟩
    exact .inr (hlchars c List.mem_cons_self)

/-- **A timing line gives its two times.** -/
lemma timingLine_eq {IsStamp : ℕ → List Char → Prop} {parseStamp : List Char → ℕ → Parsed ℕ}
    (hreads : ReadsStamp caps IsStamp parseStamp) (hchars : StampChars IsStamp)
    {start stop line : ℕ}
    {raw : List Char} (hraw : IsTimingLine IsStamp start stop raw) (horder : start ≤ stop)
    (hcap : stop ≤ caps.maxTimestampMs) :
    (splitOnce arrow raw).isSome = true ∧ isBlank raw = false ∧
      timingLine parseStamp raw line = .ok ⟨start, stop, []⟩ := by
  obtain ⟨hleft, hright, hbefore, hleftPad, hrightPad, hrest⟩ := hraw
  rename_i before left leftPad rightPad right rest
  obtain ⟨hlne, hlchars⟩ := hchars start left hleft
  obtain ⟨hrne, hrchars⟩ := hchars stop right hright
  have hblank : ∀ s, isBlank s = true → '-' ∉ s := fun s hs hmem =>
    absurd (isBlank_iff.1 hs '-' hmem) (by decide)
  have hdash : '-' ∉ before ++ left ++ leftPad := by
    simp only [List.mem_append, not_or]
    exact ⟨⟨hblank before hbefore, fun hmem => absurd (hlchars '-' hmem) (by decide)⟩,
      hblank leftPad hleftPad⟩
  have hsplit :
      splitOnce arrow (before ++ left ++ leftPad ++ (arrow ++ (rightPad ++ right ++ rest))) =
      some (before ++ left ++ leftPad, rightPad ++ right ++ rest) := splitOnce_append hdash _
  have htrim : trim (before ++ left ++ leftPad) = left :=
    trimWith_append (isBlank_iff.1 hbefore) (isBlank_iff.1 hleftPad)
      (fun c hc => isWhitespace_of_isStampChar (hlchars c (List.mem_of_mem_head? hc)))
      fun c hc => isWhitespace_of_isStampChar (hlchars c (List.mem_of_mem_getLast? hc))
  have hword : firstWord Rooms.isWhitespace (rightPad ++ right ++ rest) = some right := by
    rw [List.append_assoc]
    exact firstWord_append (isBlank_iff.1 hrightPad)
      (fun c hc => isWhitespace_of_isStampChar (hrchars c hc)) hrne hrest
  refine ⟨by rw [hsplit]; rfl, ?_, ?_⟩
  · rw [← Bool.not_eq_true, isBlank_iff]
    intro hall
    exact absurd (hall '-' (by simp [arrow])) (by decide)
  · rw [timingLine, hsplit, orReject_some_bind]
    dsimp only
    rw [hword, orReject_some_bind, htrim, hreads start left line hleft (horder.trans hcap),
      hreads stop right line hright hcap]
    change checkOrder line start stop >>= _ = _
    rw [checkOrder, if_neg (Nat.not_lt.2 horder)]
    rfl

end Locast.Subtitles

import Locast.Subtitles.Stamps
import Locast.Subtitles.Written
import Locast.Subtitles.Events
import Mathlib.Tactic.IntervalCases

/-!
# Every list of cues can be written

A way to write cues in canonical form in each of the formats: fields of fixed width, no identifiers,
and the columns that an event needs.
-/

namespace Locast.Subtitles

open Locast.Lib

/-! ### Numbers of fixed width -/

/-- The last so many digits. -/
def padDigits : ℕ → ℕ → List Char
  | 0, _ => []
  | width + 1, n => padDigits width (n / 10) ++ [Char.ofNat (48 + n % 10)]

lemma length_padDigits (width n : ℕ) : (padDigits width n).length = width := by
  induction width generalizing n with
  | zero => rfl
  | succ width ih => rw [padDigits, List.length_append, ih, List.length_singleton]

lemma toNat_digit {d : ℕ} (h : d < 10) : (Char.ofNat (48 + d)).toNat = 48 + d := by
  interval_cases d <;> rfl

lemma isDigit_digit {d : ℕ} (h : d < 10) : (Char.ofNat (48 + d)).isDigit = true := by
  interval_cases d <;> rfl

lemma digits_padDigits {width : ℕ} (hwidth : width ≠ 0) (n : ℕ) : Digits (padDigits width n) := by
  refine ⟨List.ne_nil_of_length_pos (by rw [length_padDigits]; omega), ?_⟩
  clear hwidth
  induction width generalizing n with
  | zero => rintro _ ⟨⟩
  | succ width ih =>
    intro c hc
    rcases List.mem_append.1 hc with hc | hc
    · exact ih (n / 10) c hc
    · obtain rfl := List.mem_singleton.1 hc
      exact isDigit_digit (Nat.mod_lt _ (by decide))

lemma digitsValue_padDigits {width n : ℕ} (h : n < 10 ^ width) :
    digitsValue (padDigits width n) = n := by
  induction width generalizing n with
  | zero =>
    rw [Nat.pow_zero, Nat.lt_one_iff] at h
    rw [h]
    rfl
  | succ width ih =>
    rw [padDigits, digitsValue_concat, toNat_digit (Nat.mod_lt _ (by decide)),
      ih (by rw [Nat.pow_succ] at h; omega)]
    omega

/-- A time in fields of fixed width. -/
lemma stampFields_padDigits {t width : ℕ} (ht : t ≤ limits.maxTimestampMs) (hwidth : width ≠ 0)
    (hle : width ≤ 3) (hdvd : 10 ^ (3 - width) ∣ t) :
    StampFields t (padDigits 3 (t / msPerHour)) (padDigits 2 (t / msPerMinute % 60))
      (padDigits 2 (t / msPerSecond % 60))
        (padDigits width (t % msPerSecond / 10 ^ (3 - width))) := by
  have hcap : t ≤ 360000000 := ht
  have hfrac : fraction (padDigits width (t % msPerSecond / 10 ^ (3 - width))) =
      t % msPerSecond := by
    have hpow : 10 ^ width * 10 ^ (3 - width) = 1000 := by
      rw [← Nat.pow_add, Nat.add_sub_cancel' hle]
    have hlt : t % msPerSecond / 10 ^ (3 - width) < 10 ^ width := by
      refine Nat.div_lt_of_lt_mul ?_
      rw [Nat.mul_comm, hpow]
      exact Nat.mod_lt _ (by decide)
    have hdvd' : 10 ^ (3 - width) ∣ t % msPerSecond :=
      (Nat.dvd_mod_iff (Dvd.intro_left _ hpow)).2 hdvd
    rw [fraction, length_padDigits, digitsValue_padDigits hlt, Nat.div_mul_cancel hdvd']
  refine ⟨?_, (length_padDigits _ _).trans_le (by decide), (length_padDigits _ _).le,
    (length_padDigits _ _).le, (length_padDigits _ _).trans_le hle, ?_⟩
  · simp only [List.mem_cons, List.not_mem_nil, or_false]
    rintro s (rfl | rfl | rfl | rfl)
    · exact digits_padDigits (by decide) _
    · exact digits_padDigits (by decide) _
    · exact digits_padDigits (by decide) _
    · exact digits_padDigits hwidth _
  · rw [hfrac, digitsValue_padDigits (by simp only [msPerHour]; omega),
      digitsValue_padDigits (by simp only [msPerMinute]; omega),
      digitsValue_padDigits (by simp only [msPerSecond]; omega)]
    simp only [msPerHour, msPerMinute, msPerSecond]
    omega

def writeStamp (sep : Char) (width t : ℕ) : List Char :=
  padDigits 3 (t / msPerHour) ++ ':' :: (padDigits 2 (t / msPerMinute % 60) ++
    ':' :: (padDigits 2 (t / msPerSecond % 60) ++
      sep :: padDigits width (t % msPerSecond / 10 ^ (3 - width))))

lemma Srt.isStamp_writeStamp {t : ℕ} (ht : t ≤ limits.maxTimestampMs) :
    Srt.IsStamp t (writeStamp ',' 3 t) :=
  .intro (stampFields_padDigits ht (by decide) (by decide) (Nat.one_dvd t))
    (length_padDigits _ _).le
    (.inl rfl)

lemma digitsValue_sixty (n : ℕ) :
    (padDigits 2 (n % 60)).length = 2 ∧ digitsValue (padDigits 2 (n % 60)) < 60 := by
  have hlt : n % 60 < 60 := Nat.mod_lt _ (by decide)
  exact ⟨length_padDigits _ _, by rwa [digitsValue_padDigits (hlt.trans (by decide))]⟩

lemma Vtt.isStamp_writeStamp {t : ℕ} (ht : t ≤ limits.maxTimestampMs) :
    Vtt.IsStamp t (writeStamp '.' 3 t) :=
  .hours (stampFields_padDigits ht (by decide) (by decide) (Nat.one_dvd t)) (digitsValue_sixty _)
    (digitsValue_sixty _) (length_padDigits _ _)

lemma Ass.isStamp_writeStamp {t : ℕ} (ht : t ≤ limits.maxTimestampMs) (hdvd : 10 ∣ t) :
    Ass.IsStamp t (writeStamp '.' 2 t) :=
  .intro (stampFields_padDigits ht (by decide) (by decide) (by simpa using hdvd))
    (length_padDigits _ _)
    (length_padDigits _ _)

/-! ### Lines -/

/-- Of one line, and without NUL. -/
def Clean (l : List Char) : Prop := ∀ c ∈ l, c ≠ '\n' ∧ c ≠ '\r' ∧ c ≠ '\x00'

instance (l : List Char) : Decidable (Clean l) :=
  decidable_of_iff (l.all fun c => c ≠ '\n' && c ≠ '\r' && c ≠ '\x00') (by simp [Clean, and_assoc])

lemma clean_append {l l' : List Char} (h : Clean l) (h' : Clean l') : Clean (l ++ l') := by
  intro c hc
  rcases List.mem_append.1 hc with hc | hc
  · exact h c hc
  · exact h' c hc

/-- What is not dropped is no control character. -/
lemma ne_of_kept {c : Char} (h : isDroppedChar c = false) : c ≠ '\r' ∧ c ≠ '\x00' := by
  refine ⟨?_, ?_⟩ <;> rintro rfl <;> exact absurd h (by decide)

lemma PlainLine.clean {l : List Char} (h : PlainLine l) : Clean l := by
  intro c hc
  refine ⟨?_, ne_of_kept (h.kept c hc)⟩
  rintro rfl
  exact (h.plain '\n' hc).1 (by simp)

lemma clean_of_stampChars {s : List Char} (h : ∀ c ∈ s, isStampChar c = true) : Clean s :=
  fun c hc => ⟨ne_of_isStampChar (h c hc) rfl, ne_of_isStampChar (h c hc) rfl,
    ne_of_isStampChar (h c hc) rfl⟩

/-- Cues written as blocks, each with a blank line behind it. -/
lemma exists_blocks {fmt : SubtitleFormat} {IsStamp : ℕ → List Char → Prop}
    (IsIdent : List Char → Prop) (hchars : StampChars IsStamp)
    (hstamp : ∀ t ≤ limits.maxTimestampMs, ∃ s, IsStamp t s)
    (cues : List Cue) (hcues : ∀ c ∈ cues, CanonicalCue limits fmt c) :
    ∃ lines, Blocks (IsTimingLine IsStamp) IsIdent cues lines ∧ ∀ l ∈ lines, Clean l := by
  induction cues with
  | nil => exact ⟨[], .nil, by rintro _ ⟨⟩⟩
  | cons c cues ih =>
    obtain ⟨lines, hlines, hclean⟩ := ih fun d hd => hcues d (List.mem_cons_of_mem _ hd)
    have hc := hcues c List.mem_cons_self
    obtain ⟨left, hleft⟩ := hstamp c.startMs (hc.order.trans hc.cap)
    obtain ⟨right, hright⟩ := hstamp c.endMs hc.cap
    obtain ⟨l, ls, hplain, htext⟩ := hc.text.exists_lines
    have htiming : IsTimingLine IsStamp c.startMs c.endMs
        ([] ++ left ++ [' '] ++ (arrow ++ ([' '] ++ right ++ []))) :=
      .intro hleft hright rfl rfl rfl (by rintro _ ⟨⟩)
    have hblock : IsBlock (IsTimingLine IsStamp) IsIdent c
        (Option.toList none ++ ([] ++ left ++ [' '] ++ (arrow ++ ([' '] ++ right ++ []))) :: l ::
          ls) :=
      .intro (by rintro _ ⟨⟩) htiming hplain htext
    refine ⟨_, .cue [] hblock rfl hlines, fun l' hl' => ?_⟩
    rcases List.mem_append.1 hl' with hl' | hl'
    · rcases List.mem_cons.1 hl' with rfl | hl'
      · exact clean_append (clean_append (clean_of_stampChars (hchars _ _ hleft).2) (by decide))
          (clean_append (by decide) (clean_append (clean_append (by decide)
            (clean_of_stampChars (hchars _ _ hright).2)) (by decide)))
      · exact (hplain l' hl').clean
    · rcases List.mem_cons.1 hl' with rfl | hl'
      · decide
      · exact hclean l' hl'

/-- A text with its line breaks written as `\N`. -/
lemma exists_escaped {text : List Char} (h : ∀ c ∈ text, isDroppedChar c = false) :
    ∃ written, Ass.IsEscaped text written ∧ Clean written := by
  induction text with
  | nil => exact ⟨[], .nil, by decide⟩
  | cons c text ih =>
    obtain ⟨written, hwritten, hclean⟩ := ih fun d hd => h d (List.mem_cons_of_mem _ hd)
    by_cases hc : c = '\n'
    · rw [hc]
      exact ⟨_, .newline (.inl rfl) hwritten, clean_append (l := ['\\', 'N']) (by decide) hclean⟩
    · refine ⟨_, .char hc hwritten, clean_append (l := [c]) ?_ hclean⟩
      rintro d hd
      obtain rfl := List.mem_singleton.1 hd
      exact ⟨hc, ne_of_kept (h d List.mem_cons_self)⟩

/-- `Format:Start,End,Text`. -/
def Ass.writtenNames : List (List Char) :=
  [['S', 't', 'a', 'r', 't'], ['E', 'n', 'd'], ['T', 'e', 'x', 't']]

def Ass.writtenColumns : Ass.Columns := ⟨3, 0, 1⟩

lemma Ass.isFormat_writtenNames : Ass.IsFormat Ass.writtenColumns Ass.writtenNames where
  noComma := by decide
  count := rfl
  start := rfl
  stop := rfl
  text := rfl

lemma trim_of_stampChars {s : List Char} (h : ∀ c ∈ s, isStampChar c = true) : trim s = s :=
  trim_eq_self (fun c hc => isWhitespace_of_isStampChar (h c (List.mem_of_mem_head? hc)))
    fun c hc => isWhitespace_of_isStampChar (h c (List.mem_of_mem_getLast? hc))

lemma Ass.comma_notMem {t : ℕ} {s : List Char} (h : Ass.IsStamp t s) : ',' ∉ s := by
  obtain ⟨h, -, -⟩ := h
  have hcomma : ∀ s, Digits s → ',' ∉ s := fun s hs => hs.notMem rfl
  simp only [List.mem_append, List.mem_cons, not_or]
  exact ⟨hcomma _ (h.digits _ (by simp)), by decide, hcomma _ (h.digits _ (by simp)), by decide,
    hcomma _ (h.digits _ (by simp)), by decide, hcomma _ (h.digits _ (by simp))⟩

/-- Cues written as events. -/
lemma exists_events (cues : List Cue) (hcues : ∀ c ∈ cues, CanonicalCue limits .ass c) :
    ∃ lines, Ass.Events Ass.writtenColumns cues lines ∧ ∀ l ∈ lines, Clean l := by
  induction cues with
  | nil => exact ⟨[], .nil, by rintro _ ⟨⟩⟩
  | cons c cues ih =>
    obtain ⟨lines, hlines, hclean⟩ := ih fun d hd => hcues d (List.mem_cons_of_mem _ hd)
    have hc := hcues c List.mem_cons_self
    obtain ⟨hstartDvd, hendDvd⟩ := hc.aligned rfl
    have hstart := Ass.isStamp_writeStamp (hc.order.trans hc.cap) hstartDvd
    have hend := Ass.isStamp_writeStamp hc.cap hendDvd
    obtain ⟨written, hwritten, hcleanText⟩ := exists_escaped fun d hd => (hc.text.chars d hd).2.2
    have hchars := fun t => (Ass.stampChars t (writeStamp '.' 2 t))
    have hcomma : ∀ f ∈ [writeStamp '.' 2 c.startMs, writeStamp '.' 2 c.endMs], ',' ∉ f := by
      simp only [List.forall_mem_cons]
      exact ⟨Ass.comma_notMem hstart, Ass.comma_notMem hend, by rintro _ ⟨⟩⟩
    have hevent : Ass.IsEvent Ass.writtenColumns c (Ass.dialogueKey ++ ([] ++ Ass.commaJoin
        ([writeStamp '.' 2 c.startMs, writeStamp '.' 2 c.endMs] ++ [written]))) :=
      .intro rfl rfl hcomma rfl rfl (by rwa [trim_of_stampChars (hchars _ hstart).2])
        (by rwa [trim_of_stampChars (hchars _ hend).2]) hwritten
    refine ⟨_, .event hevent hlines, fun l hl => ?_⟩
    rcases List.mem_cons.1 hl with rfl | hl
    · have hstamp (t : ℕ) (h : Ass.IsStamp t (writeStamp '.' 2 t)) : Clean (writeStamp '.' 2 t) :=
        clean_of_stampChars (hchars t h).2
      simp only [Ass.commaJoin, List.cons_append, List.nil_append, List.intercalate_cons_cons,
        List.intercalate_singleton]
      exact clean_append (by decide) (clean_append (clean_append (hstamp _ hstart) (by decide))
        (clean_append (clean_append (hstamp _ hend) (by decide)) hcleanText))
    · exact hclean l hl

/-! ### Files -/

/-- Lines that end in line feeds. -/
lemma written_of_clean {lines : List (List Char)} (h : ∀ l ∈ lines, Clean l) :
    Written lines (lines.flatMap (· ++ ['\n'])) := by
  have hended : (lines.map fun l => (⟨l, .lf⟩ : EndedLine)).IsChain EndedLine.Apart := by
    induction lines with
    | nil => exact .nil
    | cons l lines ih =>
      have := ih fun l' hl' => h l' (List.mem_cons_of_mem _ hl')
      cases lines with
      | nil => exact .singleton _
      | cons l' lines => exact .cons_cons (by rintro ⟨⟨⟩, -⟩) this
  have hunbroken : ∀ e ∈ lines.map fun l => (⟨l, .lf⟩ : EndedLine), Unbroken e.line := by
    intro e he
    obtain ⟨l, hl, rfl⟩ := List.mem_map.1 he
    exact fun c hc => ⟨(h l hl c hc).1, (h l hl c hc).2.1⟩
  have hlast : Unbroken [] := by rintro _ ⟨⟩
  simpa [EndedLine.chars, Ending.chars, List.flatMap_map, Function.comp_def] using
    Written.intro hended hunbroken hlast

/-- **Every list of cues in canonical form can be written** in each format. -/
lemma exists_renders (fmt : SubtitleFormat) (cues : List Cue)
    (hcues : ∀ c ∈ cues, CanonicalCue limits fmt c) :
    ∃ lines text, Renders fmt cues lines ∧ Written lines text ∧ '\x00' ∉ text ∧
      text.head? ≠ some '\uFEFF' := by
  have hfile {first : List Char} {lines : List (List Char)}
    (hrenders : Renders fmt cues (first :: lines))
      (hfirst : Clean first) (hhead : first.head? ≠ some '\uFEFF') (hclean : ∀ l ∈ lines, Clean l) :
      ∃ lines text, Renders fmt cues lines ∧ Written lines text ∧ '\x00' ∉ text ∧
        text.head? ≠ some '\uFEFF' := by
    have hall : ∀ l ∈ first :: lines, Clean l := List.forall_mem_cons.2 ⟨hfirst, hclean⟩
    refine ⟨first :: lines, _, hrenders, written_of_clean hall, fun hnul => ?_, ?_⟩
    · obtain ⟨l, hl, hmem⟩ := List.mem_flatMap.1 hnul
      rcases List.mem_append.1 hmem with hmem | hmem
      · exact (hall l hl _ hmem).2.2 rfl
      · exact absurd (List.mem_singleton.1 hmem) (by decide)
    · cases first with
      | nil => simp
      | cons c first => simpa using hhead
  cases fmt with
  | srt =>
    obtain ⟨lines, hlines, hclean⟩ := exists_blocks Srt.IsIdent Srt.stampChars
      (fun t ht => ⟨_, Srt.isStamp_writeStamp ht⟩) cues hcues
    exact hfile (.srt (.blank [] rfl hlines)) (by decide) (by decide) hclean
  | vtt =>
    obtain ⟨lines, hlines, hclean⟩ := exists_blocks Vtt.IsIdent Vtt.stampChars
      (fun t ht => ⟨_, Vtt.isStamp_writeStamp ht⟩) cues hcues
    have hheader : Vtt.isHeader ['W', 'E', 'B', 'V', 'T', 'T'] = true := rfl
    exact hfile (.vtt hheader hlines) (by decide) (by decide) hclean
  | ass =>
    obtain ⟨lines, hlines, hclean⟩ := exists_events cues hcues
    have hheader : Ass.IsHeader ['E', 'v', 'e', 'n', 't', 's']
        ['[', 'E', 'v', 'e', 'n', 't', 's', ']'] :=
      ⟨['E', 'v', 'e', 'n', 't', 's'], rfl, rfl⟩
    have hbefore : ∀ l ∈ ([] : List (List Char)), ∀ name, Ass.IsHeader name l →
        Ass.isEvents name = false := by
      rintro _ ⟨⟩
    exact hfile (.ass hbefore rfl hheader Ass.isFormat_writtenNames hlines) (by decide) (by decide)
      (List.forall_mem_cons.2 ⟨by decide, hclean⟩)

end Locast.Subtitles

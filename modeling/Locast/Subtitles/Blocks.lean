import Locast.Subtitles.Stamps
import Locast.Lib.Checked

/-!
# Blocks, read back

SRT and WebVTT read the blocks of a file one by one: after a block its cue is pending, and the blank
line or the end of the file that follows it puts the cue with the others.
-/

namespace Locast.Subtitles

open Locast.Lib

variable {caps : Caps}

/-! ### Plain text -/

lemma joinLines_cons (l : List Char) (ls : List (List Char)) :
    joinLines (l :: ls) = l ++ ls.flatMap ('\n' :: ·) := by
  induction ls generalizing l with
  | nil => simp [joinLines]
  | cons l' ls ih =>
    have := ih l'
    rw [joinLines] at this ⊢
    rw [List.intercalate_cons_cons, this]
    simp

lemma SubtitleText.exists_lines {text : List Char} (h : SubtitleText text) :
    ∃ l ls, (∀ l' ∈ l :: ls, PlainLine l') ∧ text = joinLines (l :: ls) := by
  obtain ⟨l, ls, hplain⟩ := h
  exact ⟨l, ls, hplain, rfl⟩

lemma SubtitleText.notBlank {text : List Char} (h : SubtitleText text) : isBlank text = false := by
  obtain ⟨l, ls, hplain⟩ := h
  have hl := (hplain l List.mem_cons_self).notBlank
  rw [← Bool.not_eq_true, isBlank_iff] at hl ⊢
  exact fun hall => hl fun c hc => hall c (joinLines_cons l ls ▸ List.mem_append_left _ hc)

lemma PlainLine.ne_nil {l : List Char} (h : PlainLine l) : l ≠ [] := by
  rintro rfl
  exact absurd h.notBlank (by decide)

lemma pushCueChar_eq {buf : List Char} {c : Char} {line : ℕ} (hc : isDroppedChar c = false)
    (hlen : byteLen (buf ++ [c]) ≤ caps.maxCueTextBytes) :
    pushCueChar caps buf c line = .ok (buf ++ [c]) := by
  rw [pushCueChar, if_neg (by simp [hc]), if_pos (by simpa using hlen)]

lemma pushCueText_eq {buf piece : List Char} {line : ℕ} (h : ∀ c ∈ piece, isDroppedChar c = false)
    (hlen : byteLen (buf ++ piece) ≤ caps.maxCueTextBytes) :
    pushCueText caps buf piece line = .ok (buf ++ piece) := by
  induction piece generalizing buf with
  | nil => simp [pushCueText]
  | cons c piece ih =>
    have hfits : byteLen (buf ++ [c]) ≤ caps.maxCueTextBytes := by
      simp only [byteLen_append, byteLen_cons, byteLen_nil] at hlen ⊢
      omega
    rw [pushCueText, pushCueChar_eq (h c List.mem_cons_self) hfits]
    change pushCueText caps (buf ++ [c]) piece line = _
    rw [ih (fun d hd => h d (List.mem_cons_of_mem _ hd)) (by simpa using hlen)]
    simp

lemma PlainLine.kept {l : List Char} (h : PlainLine l) : ∀ c ∈ l, isDroppedChar c = false :=
  fun c hc => (h.plain c hc).2

/-- The first line of a text. -/
lemma appendLine_nil {l : List Char} {line : ℕ} (h : PlainLine l)
    (hlen : byteLen l ≤ caps.maxCueTextBytes) : appendLine caps [] l line = .ok l := by
  rw [appendLine, if_neg (by simpa using h.ne_nil)]
  exact pushCueText_eq h.kept hlen

/-- A line of a text that has begun. -/
lemma appendLine_of_ne_nil {text l : List Char} {line : ℕ} (htext : text ≠ []) (h : PlainLine l)
    (hlen : byteLen (text ++ '\n' :: l) ≤ caps.maxCueTextBytes) :
    appendLine caps text l line = .ok (text ++ '\n' :: l) := by
  have hnewline : byteLen (text ++ ['\n']) ≤ caps.maxCueTextBytes := by
    simp only [byteLen_append, byteLen_cons, byteLen_nil] at hlen ⊢
    omega
  rw [appendLine, if_neg (by simpa using h.ne_nil), if_neg (by simpa using htext),
    pushCueChar_eq (by decide) hnewline]
  change pushCueText caps (text ++ ['\n']) l line = _
  rw [pushCueText_eq h.kept (by simpa using hlen)]
  simp

lemma scanTags_eq {closerOf : Char → Option Char} {line rest : List Char} {i : ℕ}
    {gaveUp out : List Char} (h : ∀ c ∈ rest, closerOf c = none ∧ isDroppedChar c = false) :
    scanTags closerOf line rest i 0 gaveUp out = .ok (out ++ rest) := by
  induction rest generalizing i out with
  | nil => simp [scanTags]
  | cons c rest ih =>
    obtain ⟨hcloser, hdropped⟩ := h c List.mem_cons_self
    rw [scanTags, if_neg (Nat.not_lt_zero _), hcloser]
    dsimp only
    rw [hdropped, ih fun d hd => h d (List.mem_cons_of_mem _ hd)]
    simp

lemma Srt.stripTags_eq {l : List Char} (h : PlainLine l) : Srt.stripTags l = .ok l := by
  refine scanTags_eq fun c hc => ⟨?_, h.kept c hc⟩
  have := (h.plain c hc).1
  simp only [List.mem_cons, not_or] at this
  rw [Srt.closerOf, if_neg this.1, if_neg this.2.2.1]

lemma Vtt.stripTags_eq {l : List Char} (h : PlainLine l) : Vtt.stripTags l = .ok l := by
  refine scanTags_eq fun c hc => ⟨?_, h.kept c hc⟩
  have := (h.plain c hc).1
  simp only [List.mem_cons, not_or] at this
  rw [Vtt.closerOf, if_neg this.1]

lemma Vtt.scanEntities_eq {line rest : List Char} {i : ℕ} {out : List Char} (h : '&' ∉ rest) :
    Vtt.scanEntities line rest i 0 out = .ok (out ++ rest) := by
  induction rest generalizing i out with
  | nil => simp [Vtt.scanEntities]
  | cons c rest ih =>
    obtain ⟨hc, hrest⟩ := not_or.1 (mt List.mem_cons.2 h)
    rw [Vtt.scanEntities, if_neg (Nat.not_lt_zero _), if_neg (Ne.symm hc), ih hrest]
    simp

lemma Vtt.decodeEntities_eq {l : List Char} (h : PlainLine l) : Vtt.decodeEntities l = .ok l :=
  Vtt.scanEntities_eq fun hmem => (h.plain '&' hmem).1 (by simp)

/-! ### The run over the blocks -/

section

variable {σ : Type} {line : ℕ → List Char → σ → Parsed σ}

/-- A line of text goes to the text of the cue. -/
def ReadsText (caps : Caps) (line : ℕ → List Char → σ → Parsed σ) (withText : List Char → σ) :
    Prop :=
  ∀ n l text, PlainLine l → line n l (withText text) =
    checked (appendLine caps text l (lineNumber n)) >>= fun text => .ok (withText text)

/-- The lines of a text after its first. -/
lemma ReadsText.lines {withText : List Char → σ} (hline : ReadsText caps line withText)
    {ls : List (List Char)} (hls : ∀ l ∈ ls, PlainLine l) {n : ℕ} {text : List Char}
    (htext : text ≠ [])
    (hlen : byteLen (text ++ ls.flatMap ('\n' :: ·)) ≤ caps.maxCueTextBytes) :
    eachItem line n ls (withText text) = .ok (withText (text ++ ls.flatMap ('\n' :: ·))) := by
  induction ls generalizing n text with
  | nil => simp [eachItem]
  | cons l ls ih =>
    have hl := hls l List.mem_cons_self
    have hfits : byteLen (text ++ '\n' :: l) ≤ caps.maxCueTextBytes := by
      simp only [List.flatMap_cons, byteLen_append, byteLen_cons] at hlen ⊢
      omega
    rw [eachItem, hline n l text hl, appendLine_of_ne_nil htext hl hfits]
    change eachItem line (n + 1) ls (withText (text ++ '\n' :: l)) = _
    rw [ih (fun l' hl' => hls l' (List.mem_cons_of_mem _ hl')) (by simp) (by simpa using hlen)]
    simp

/-- A block, whose first lines have been seen to begin a cue. -/
lemma ReadsText.block {withText : List Char → σ} (hline : ReadsText caps line withText)
    {s s' : σ} {n : ℕ} {timing l : List Char} {idents ls : List (List Char)}
    (hident : eachItem line n idents s = .ok s')
    (htiming : ∀ n, line n timing s' = .ok (withText [])) (hls : ∀ l' ∈ l :: ls, PlainLine l')
    (hlen : byteLen (joinLines (l :: ls)) ≤ caps.maxCueTextBytes) :
    eachItem line n (idents ++ timing :: l :: ls) s = .ok (withText (joinLines (l :: ls))) := by
  have hl := hls l List.mem_cons_self
  rw [joinLines_cons] at hlen ⊢
  have hfits : byteLen l ≤ caps.maxCueTextBytes := by
    rw [byteLen_append] at hlen
    omega
  rw [eachItem_append, hident]
  change eachItem line (n + idents.length) (timing :: l :: ls) s' = _
  rw [eachItem, htiming]
  change eachItem line _ (l :: ls) (withText []) = _
  rw [eachItem, hline _ l [] hl, appendLine_nil hl hfits]
  exact hline.lines (fun l' hl' => hls l' (List.mem_cons_of_mem _ hl')) hl.ne_nil hlen

/-- A machine that reads blocks: what it is between two blocks, and after one. -/
structure ReadsBlocks (caps : Caps) (fmt : SubtitleFormat) (IsTiming : ℕ → ℕ → List Char → Prop)
    (IsIdent : List Char → Prop) (line : ℕ → List Char → σ → Parsed σ)
    (finish : σ → Parsed (List Cue))
    (idle : List Cue → σ) (opened : List Cue → Cue → σ) : Prop where
  blank : ∀ n b cues, isBlank b = true → line n b (idle cues) = .ok (idle cues)
  block : ∀ n block cues c, CanonicalCue caps fmt c → IsBlock IsTiming IsIdent c block →
    eachItem line n block (idle cues) = .ok (opened cues c)
  close : ∀ n b cues c, isBlank b = true → CanonicalCue caps fmt c →
    cues.length + 1 ≤ caps.maxCues → line n b (opened cues c) = .ok (idle (cues ++ [c]))
  finishIdle : ∀ cues, finish (idle cues) = .ok cues
  finish : ∀ cues c, CanonicalCue caps fmt c → cues.length + 1 ≤ caps.maxCues →
    finish (opened cues c) = .ok (cues ++ [c])

/-- **Blocks are read as their cues.** -/
lemma ReadsBlocks.run {fmt : SubtitleFormat} {IsTiming : ℕ → ℕ → List Char → Prop}
    {IsIdent : List Char → Prop} {finish : σ → Parsed (List Cue)} {idle : List Cue → σ}
    {opened : List Cue → Cue → σ}
    (hreads : ReadsBlocks caps fmt IsTiming IsIdent line finish idle opened)
    {cues : List Cue} {lines : List (List Char)} (h : Blocks IsTiming IsIdent cues lines)
    (hcues : ∀ c ∈ cues, CanonicalCue caps fmt c) {n : ℕ} {before : List Cue}
    (hcount : before.length + cues.length ≤ caps.maxCues) :
    (eachItem line n lines (idle before) >>= finish) = .ok (before ++ cues) := by
  induction h generalizing n before with
  | nil =>
    rw [List.append_nil]
    exact hreads.finishIdle before
  | blank b hb _ ih =>
    rw [eachItem, hreads.blank n b before hb]
    exact ih hcues hcount
  | @last c block hblock =>
    have hc := hcues c List.mem_cons_self
    rw [hreads.block n block before c hc hblock]
    exact hreads.finish before c hc hcount
  | @cue c cues block lines b hblock hb _ ih =>
    have hc := hcues c List.mem_cons_self
    simp only [List.length_cons] at hcount
    rw [eachItem_append, hreads.block n block before c hc hblock]
    change ((eachItem line (n + block.length) (b :: lines) (opened before c)) >>= finish) = _
    rw [eachItem, hreads.close _ b before c hb hc (by omega)]
    change (eachItem line (n + block.length + 1) lines (idle (before ++ [c])) >>= finish) = _
    have hcount : (before ++ [c]).length + cues.length ≤ caps.maxCues := by
      rw [List.length_append, List.length_singleton]
      omega
    rw [ih (fun d hd => hcues d (List.mem_cons_of_mem _ hd)) hcount, List.append_assoc,
      List.singleton_append]

end

lemma checkCueCount_eq {n : ℕ} (hcap : caps.maxCues < 2 ^ 32) (hn : n ≤ caps.maxCues) :
    checkCueCount caps n = .ok () := if_neg (by omega)

/-- A pending cue goes with the others. -/
lemma flush_eq {fmt : SubtitleFormat} {c : Cue} {cues : List Cue} (hcap : caps.maxCues < 2 ^ 32)
    (hc : CanonicalCue caps fmt c) (hcount : cues.length + 1 ≤ caps.maxCues) :
    flush caps (some ⟨c.startMs, c.endMs, c.text⟩) cues = .ok (cues ++ [c]) := by
  rw [flush, if_neg (by simp [hc.text.notBlank]), checkCueCount_eq hcap hcount]
  rfl

/-! ### SRT -/

lemma Srt.readsText (cues : List Cue) (start stop : ℕ) :
    ReadsText caps (Srt.line caps) fun text => ⟨cues, some ⟨start, stop, text⟩⟩ := by
  intro n l text hl
  rw [Srt.line, if_neg (by simp [hl.notBlank])]
  change (Srt.stripTags l >>= _ : Parsed _) = _
  rw [Srt.stripTags_eq hl]
  rfl

lemma Srt.line_ident {n : ℕ} {i : List Char} (h : Srt.IsIdent i) (cues : List Cue) :
    Srt.line caps n i ⟨cues, none⟩ = .ok ⟨cues, none⟩ := by
  rw [Srt.line, if_neg (by simp [h.notBlank])]
  dsimp only
  rw [if_neg (by simp [splitOnce_eq_none h.noArrow])]

lemma Srt.line_timing (hcap : caps.maxTimestampMs < 2 ^ 32) {c : Cue} {timing : List Char}
    (hc : CanonicalCue caps .srt c) (h : IsTimingLine Srt.IsStamp c.startMs c.endMs timing)
    (cues : List Cue) (n : ℕ) :
    Srt.line caps n timing ⟨cues, none⟩ = .ok ⟨cues, some ⟨c.startMs, c.endMs, []⟩⟩ := by
  obtain ⟨harrow, hblank, heq⟩ := timingLine_eq
    (Srt.reads_stamp hcap) Srt.stampChars h hc.order hc.cap
  rw [Srt.line, if_neg (by simp [hblank])]
  dsimp only
  rw [if_pos harrow, Srt.parseTimingLine, heq]
  rfl

/-- **SRT reads blocks.** -/
lemma Srt.readsBlocks (hcount : caps.maxCues < 2 ^ 32) (hcap : caps.maxTimestampMs < 2 ^ 32) :
    ReadsBlocks caps .srt (IsTimingLine Srt.IsStamp) Srt.IsIdent (Srt.line caps)
      (fun s => flush caps s.pending s.cues) (fun cues => ⟨cues, none⟩)
      (fun cues c => ⟨cues, some ⟨c.startMs, c.endMs, c.text⟩⟩) where
  blank n b cues hb := by
    rw [Srt.line, if_pos hb]
    rfl
  block := by
    rintro n _ cues c hc ⟨hident, htiming, hplain, htext⟩
    rename_i ident timing l ls
    have hbefore : eachItem (Srt.line caps) n ident.toList ⟨cues, none⟩ = .ok ⟨cues, none⟩ := by
      cases ident with
      | none => rfl
      | some i =>
        rw [Option.toList_some, eachItem, Srt.line_ident (hident i rfl)]
        rfl
    rw [htext]
    exact (Srt.readsText cues c.startMs c.endMs).block hbefore
      (Srt.line_timing hcap hc htiming cues)
      hplain (htext ▸ hc.short)
  close n b cues c hb hc hlen := by
    rw [Srt.line, if_pos hb, flush_eq hcount hc hlen]
    rfl
  finishIdle cues := rfl
  finish cues c hc hlen := flush_eq hcount hc hlen

/-! ### WebVTT -/

lemma Vtt.readsText (cues : List Cue) (start stop : ℕ) :
    ReadsText caps (Vtt.line caps) fun text => ⟨cues, some ⟨start, stop, text⟩, .skip⟩ := by
  intro n l text hl
  rw [Vtt.line, if_neg (by simp [hl.notBlank])]
  change (Vtt.stripTags l >>= fun piece => Vtt.decodeEntities piece >>= _ : Parsed _) = _
  rw [Vtt.stripTags_eq hl]
  change (Vtt.decodeEntities l >>= _ : Parsed _) = _
  rw [Vtt.decodeEntities_eq hl]
  rfl

lemma Vtt.line_ident {n : ℕ} {i : List Char} (h : Vtt.IsIdent i) (cues : List Cue) :
    Vtt.line caps n i ⟨cues, none, .idle⟩ = .ok ⟨cues, none, .afterId⟩ := by
  rw [Vtt.line, if_neg (by simp [h.notBlank])]
  dsimp only
  rw [if_neg (by simp [h.notSkipped]), if_neg (by simp [splitOnce_eq_none h.noArrow])]

/-- A timing line begins no block that is skipped. -/
lemma Vtt.isSkippedBlockStart_timing {start stop : ℕ} {timing : List Char}
    (h : IsTimingLine Vtt.IsStamp start stop timing) : Vtt.isSkippedBlockStart timing = false := by
  have hhead := head?_of_isTimingLine Vtt.stampChars h
  have hkeyword : ∀ d : Char, ∀ keyword, Rooms.isWhitespace d = false → isStampChar d = false →
      Vtt.startsWith (d :: keyword) timing = false := by
    intro d keyword hws hstamp
    rw [Vtt.startsWith]
    cases timing with
    | nil => rfl
    | cons c timing =>
      have hne : d ≠ c := by
        rintro rfl
        rcases hhead d rfl with h | h
        · exact Bool.false_ne_true (hws.symm.trans h)
        · exact Bool.false_ne_true (hstamp.symm.trans h)
      rw [List.isPrefixOf?, if_neg (by simpa using hne)]
  rw [Vtt.isSkippedBlockStart, hkeyword _ _ (by decide) (by decide),
    hkeyword _ _ (by decide) (by decide), hkeyword _ _ (by decide) (by decide)]
  rfl

lemma Vtt.line_timing (hcap : caps.maxTimestampMs < 2 ^ 32) {c : Cue} {timing : List Char}
    (hc : CanonicalCue caps .vtt c) (h : IsTimingLine Vtt.IsStamp c.startMs c.endMs timing)
    (cues : List Cue) {mode : Vtt.Mode} (hmode : mode ≠ .skip) (n : ℕ) :
    Vtt.line caps n timing ⟨cues, none, mode⟩ =
      .ok ⟨cues, some ⟨c.startMs, c.endMs, []⟩, .skip⟩ := by
  obtain ⟨harrow, hblank, heq⟩ := timingLine_eq
    (Vtt.reads_stamp hcap) Vtt.stampChars h hc.order hc.cap
  rw [Vtt.line, if_neg (by simp [hblank])]
  cases mode with
  | idle =>
    dsimp only
    rw [if_neg (by simp [Vtt.isSkippedBlockStart_timing h]), if_pos harrow,
      Vtt.parseTimingLine, heq]
    rfl
  | afterId =>
    dsimp only
    rw [if_pos harrow, Vtt.parseTimingLine, heq]
    rfl
  | skip => exact absurd rfl hmode

/-- **WebVTT reads blocks.** -/
lemma Vtt.readsBlocks (hcount : caps.maxCues < 2 ^ 32) (hcap : caps.maxTimestampMs < 2 ^ 32) :
    ReadsBlocks caps .vtt (IsTimingLine Vtt.IsStamp) Vtt.IsIdent (Vtt.line caps)
      (fun s => flush caps s.pending s.cues) (fun cues => ⟨cues, none, .idle⟩)
      (fun cues c => ⟨cues, some ⟨c.startMs, c.endMs, c.text⟩, .skip⟩) where
  blank n b cues hb := by
    rw [Vtt.line, if_pos hb]
    rfl
  block := by
    rintro n _ cues c hc ⟨hident, htiming, hplain, htext⟩
    rename_i ident timing l ls
    obtain ⟨mode, hmode, hbefore⟩ : ∃ mode, mode ≠ .skip ∧
        eachItem (Vtt.line caps) n ident.toList ⟨cues, none, .idle⟩ = .ok ⟨cues, none, mode⟩ := by
      cases ident with
      | none => exact ⟨.idle, by rintro ⟨⟩, rfl⟩
      | some i =>
        refine ⟨.afterId, by rintro ⟨⟩, ?_⟩
        rw [Option.toList_some, eachItem, Vtt.line_ident (hident i rfl)]
        rfl
    rw [htext]
    exact (Vtt.readsText cues c.startMs c.endMs).block hbefore
      (Vtt.line_timing hcap hc htiming cues hmode) hplain (htext ▸ hc.short)
  close n b cues c hb hc hlen := by
    rw [Vtt.line, if_pos hb, flush_eq hcount hc hlen]
    rfl
  finishIdle cues := rfl
  finish cues c hc hlen := flush_eq hcount hc hlen

end Locast.Subtitles

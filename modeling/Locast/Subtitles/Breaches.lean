import Locast.Subtitles.RoundTrip

/-!
# What is above a cap

What the machine of a format holds after some of its lines: the cues it has made, and the cue whose
times or text it has read.  Something there that is above a cap rejects the file, also where the cue
would be blank and dropped.
-/

namespace Locast.Subtitles

open Locast.Lib

variable {caps caps' : Caps} {fmt : SubtitleFormat}

/-! ### What a machine holds -/

/-- The line is an event of the section, and this is behind its key. -/
def Ass.IsDialogue (raw : List Char) (s : Ass.State) (value : List Char) : Prop :=
  Ass.sectionName (trim raw) = none ∧ s.inEvents = true ∧
    ∃ key, splitOnceAt (· = ':') (trim raw) = some (key, value) ∧
      Ass.eqIgnoreCase (trim key) ['d', 'i', 'a', 'l', 'o', 'g', 'u', 'e'] = true

/-- The times of an event, as they are read, and its text field. -/
structure Ass.Timed (caps : Caps) (value : List Char) (cols : Ass.Columns) (line startMs endMs : ℕ)
    (textField : List Char) : Prop where
  fields : cols.count ≤ (splitn (· = ',') cols.count value).length
  start : ∃ f, (splitn (· = ',') cols.count value)[cols.start]? = some f ∧
    Ass.parseStamp caps (trim f) line = .ok startMs
  stop : ∃ f, (splitn (· = ',') cols.count value)[cols.stop]? = some f ∧
    Ass.parseStamp caps (trim f) line = .ok endMs
  text : (splitn (· = ',') cols.count value).getLast? = some textField

/-- **What a machine holds** after some of the lines: its cues, and the cue it is at. -/
inductive Holds (caps : Caps) : SubtitleFormat → List (List Char) → List Cue → Option Pending → Prop
  | srt {pre rest : List (List Char)} {s : Srt.State}
      (h : eachItem (Srt.line caps) 0 pre ⟨[], none⟩ = .ok s) :
      Holds caps .srt (pre ++ rest) s.cues s.pending
  | srtEnd {lines : List (List Char)} {s : Srt.State} {cues : List Cue}
      (h : eachItem (Srt.line caps) 0 lines ⟨[], none⟩ = .ok s)
      (hflush : flush caps s.pending s.cues = .ok cues) : Holds caps .srt lines cues none
  | vtt {header : List Char} {pre rest : List (List Char)} {s : Vtt.State}
      (h : eachItem (Vtt.line caps) 1 pre ⟨[], none, .idle⟩ = .ok s) :
      Holds caps .vtt (header :: (pre ++ rest)) s.cues s.pending
  | vttEnd {header : List Char} {lines : List (List Char)} {s : Vtt.State} {cues : List Cue}
      (h : eachItem (Vtt.line caps) 1 lines ⟨[], none, .idle⟩ = .ok s)
      (hflush : flush caps s.pending s.cues = .ok cues) :
        Holds caps .vtt (header :: lines) cues none
  | ass {pre rest : List (List Char)} {s : Ass.State}
      (h : eachItem (Ass.line caps) 0 pre ⟨[], false, false, none⟩ = .ok s) :
      Holds caps .ass (pre ++ rest) s.cues none
  | timed {pre rest : List (List Char)} {raw value textField : List Char} {s : Ass.State}
      {cols : Ass.Columns} {startMs endMs : ℕ}
      (h : eachItem (Ass.line caps) 0 pre ⟨[], false, false, none⟩ = .ok s)
      (hevent : Ass.IsDialogue raw s value) (hcols : s.columns = some cols)
      (htimed : Ass.Timed caps (value.dropWhile Rooms.isWhitespace) cols
        (lineNumber pre.length) startMs endMs textField) :
      Holds caps .ass (pre ++ raw :: rest) s.cues (some ⟨startMs, endMs, []⟩)
  | cleaned {pre rest : List (List Char)} {raw value textField text : List Char} {s : Ass.State}
      {cols : Ass.Columns} {startMs endMs : ℕ}
      (h : eachItem (Ass.line caps) 0 pre ⟨[], false, false, none⟩ = .ok s)
      (hevent : Ass.IsDialogue raw s value) (hcols : s.columns = some cols)
      (htimed : Ass.Timed caps (value.dropWhile Rooms.isWhitespace) cols
        (lineNumber pre.length) startMs endMs textField)
      (htext : Ass.cleanText caps textField (lineNumber pre.length) = .ok (some text)) :
      Holds caps .ass (pre ++ raw :: rest) s.cues (some ⟨startMs, endMs, text⟩)

/-- The cues and the cue it is at are within the caps. -/
structure WithinCaps (caps : Caps) (cues : List Cue) (current : Option Pending) : Prop where
  cues : cues.length ≤ caps.maxCues
  times : ∀ p ∈ current, p.endMs ≤ caps.maxTimestampMs
  text : ∀ p ∈ current, byteLen p.text ≤ caps.maxCueTextBytes

lemma GoodCues.within {cues : List Cue} {pending : Option Pending} (h : GoodCues caps cues)
    (hp : ∀ p ∈ pending, GoodPending caps p) : WithinCaps caps cues pending :=
  ⟨h.count, fun p hmem => (hp p hmem).cap, fun p hmem => (hp p hmem).text.short⟩

lemma Ass.line_dialogue {raw value : List Char} {s : Ass.State} (h : Ass.IsDialogue raw s value)
    (index : ℕ) : Ass.line caps index raw s = Ass.dialogue caps value (lineNumber index) s := by
  obtain ⟨hname, hevents, key, hsplit, hkey⟩ := h
  have hformat : Ass.eqIgnoreCase (trim key) ['f', 'o', 'r', 'm', 'a', 't'] = false := by
    simp only [Ass.eqIgnoreCase, beq_iff_eq, beq_eq_false_iff_ne] at hkey ⊢
    rw [hkey]
    decide
  simp only [Ass.line, hname, hevents, hsplit, hformat, hkey]
  rfl

/-- What is read of an event that passes is within the caps. -/
lemma Ass.Timed.within (hle : caps.Le caps') {value : List Char} {cols : Ass.Columns}
    {line startMs endMs : ℕ} {textField : List Char} {cue : Option Cue}
    (h : Ass.Timed caps' value cols line startMs endMs textField)
    (hread : Ass.parseDialogue caps value cols line = .ok cue) :
    endMs ≤ caps.maxTimestampMs ∧ ∀ text, Ass.cleanText caps' textField line = .ok (some text) →
      byteLen text ≤ caps.maxCueTextBytes := by
  obtain ⟨hfields, ⟨f, hf, hstart⟩, ⟨g, hg, hstop⟩, htext⟩ := h
  simp only [Ass.parseDialogue, if_neg (Nat.not_lt.2 hfields), hf, hg, htext] at hread
  obtain ⟨_, -, hread⟩ := bind_eq_ok.1 hread
  obtain ⟨stop, hstop', hread⟩ := bind_eq_ok.1 hread
  obtain ⟨_, -, hread⟩ := bind_eq_ok.1 hread
  obtain ⟨shown, hshown, -⟩ := bind_eq_ok.1 hread
  refine ⟨?_, fun text hclean => ?_⟩
  · obtain rfl := Except.ok.inj ((Ass.parseStamp_extends hle _ _ line _ hstop').symm.trans hstop)
    exact (Ass.meets_parseStamp _ _).of_eq_ok hstop'
  · obtain rfl := Except.ok.inj ((Ass.cleanText_extends hle _ _ line _ hshown).symm.trans hclean)
    exact ((Ass.meets_cleanText _ _).of_eq_ok hshown text rfl).short

/-- An event of a file that passes is read. -/
lemma Ass.exists_parseDialogue (hle : caps.Le caps') {text : List Char} {inFile : List Cue}
    {pre rest : List (List Char)} {raw value : List Char} {s : Ass.State} {cols : Ass.Columns}
    (hread : Ass.parse caps text = .ok inFile) (hlines : linesOf text = pre ++ raw :: rest)
    (h : eachItem (Ass.line caps') 0 pre ⟨[], false, false, none⟩ = .ok s)
    (hevent : Ass.IsDialogue raw s value) (hcols : s.columns = some cols) :
    GoodCues caps s.cues ∧ ∃ cue, Ass.parseDialogue caps (value.dropWhile Rooms.isWhitespace) cols
      (lineNumber pre.length) = .ok cue := by
  obtain ⟨lines, hl, hread⟩ := bind_eq_ok.1 hread
  obtain rfl := (splitLines_eq_ok_iff.1 hl).1.trans hlines
  obtain ⟨t, hitems, -⟩ := bind_eq_ok.1 hread
  obtain ⟨hs, hrest⟩ := eachItem_reached (Ass.line_extends hle) Ass.meets_line
    (show Ass.Good caps ⟨[], _, _, _⟩ from goodCues_nil) hitems h
  obtain ⟨u, hline, -⟩ := bind_eq_ok.1 hrest
  rw [Ass.line_dialogue hevent, Ass.dialogue, hcols, Nat.zero_add] at hline
  obtain ⟨cols', hcols', hline⟩ := bind_eq_ok.1 hline
  obtain rfl : cols = cols' := Except.ok.inj hcols'
  obtain ⟨cue, hcue, -⟩ := bind_eq_ok.1 hline
  exact ⟨hs, cue, hcue⟩

/-- **What the machine of a file that passes holds is within the caps**, and higher ones change
nothing of it. -/
lemma Holds.within (hle : caps.Le caps') {text : List Char} {inFile cues : List Cue}
    {current : Option Pending} (hread : parseFormat caps fmt text = .ok inFile)
    (h : Holds caps' fmt (linesOf text) cues current) : WithinCaps caps cues current := by
  have hgood := (meets_parseFormat fmt text).of_eq_ok hread
  have hnone : ∀ p ∈ (none : Option Pending), GoodPending caps p := by rintro _ ⟨⟩
  generalize hlines : linesOf text = lines at h
  have hsplit {lines' : List (List Char)} (h : splitLines caps text = .ok lines') :
      lines' = lines :=
    (splitLines_eq_ok_iff.1 h).1.trans hlines
  cases h with
  | @srt pre rest s h =>
    obtain ⟨_, hl, hread⟩ := bind_eq_ok.1 hread
    obtain rfl := hsplit hl
    obtain ⟨t, hitems, -⟩ := bind_eq_ok.1 hread
    obtain ⟨⟨hcues, hpending⟩, -⟩ := eachItem_reached (Srt.line_extends hle) Srt.meets_line
      ⟨goodCues_nil, hnone⟩ hitems h
    exact hcues.within hpending
  | @srtEnd _ s _ h hflush =>
    obtain ⟨_, hl, hread⟩ := bind_eq_ok.1 hread
    obtain rfl := hsplit hl
    obtain ⟨t, hitems, hend⟩ := bind_eq_ok.1 hread
    obtain rfl := Except.ok.inj ((Extends.items (Srt.line_extends hle) _ hitems).symm.trans h)
    obtain rfl := Except.ok.inj ((flush_extends hle _ _ _ hend).symm.trans hflush)
    exact hgood.within hnone
  | @vtt header pre rest s h =>
    obtain ⟨_, hl, hread⟩ := bind_eq_ok.1 hread
    obtain rfl := hsplit hl
    dsimp only at hread
    split_ifs at hread
    · obtain ⟨t, hitems, -⟩ := bind_eq_ok.1 hread
      obtain ⟨⟨hcues, hpending⟩, -⟩ := eachItem_reached (Vtt.line_extends hle) Vtt.meets_line
        ⟨goodCues_nil, hnone⟩ hitems h
      exact hcues.within hpending
    · cases hread
  | @vttEnd header lines s _ h hflush =>
    obtain ⟨_, hl, hread⟩ := bind_eq_ok.1 hread
    obtain rfl := hsplit hl
    dsimp only at hread
    split_ifs at hread
    · obtain ⟨t, hitems, hend⟩ := bind_eq_ok.1 hread
      obtain rfl := Except.ok.inj ((Extends.items (Vtt.line_extends hle) _ hitems).symm.trans h)
      obtain rfl := Except.ok.inj ((flush_extends hle _ _ _ hend).symm.trans hflush)
      exact hgood.within hnone
    · cases hread
  | @ass pre rest s h =>
    obtain ⟨_, hl, hread⟩ := bind_eq_ok.1 hread
    obtain rfl := hsplit hl
    obtain ⟨t, hitems, -⟩ := bind_eq_ok.1 hread
    have hs : Ass.Good caps s := (eachItem_reached (Ass.line_extends hle) Ass.meets_line
      (show Ass.Good caps ⟨[], _, _, _⟩ from goodCues_nil) hitems h).1
    exact GoodCues.within hs hnone
  | timed h hevent hcols htimed =>
    obtain ⟨hcues, cue, hcue⟩ := Ass.exists_parseDialogue hle hread hlines h hevent hcols
    have htimes := (htimed.within hle hcue).1
    refine ⟨hcues.count, ?_, ?_⟩
    · rintro _ ⟨⟩
      exact htimes
    · rintro _ ⟨⟩
      exact Nat.zero_le _
  | cleaned h hevent hcols htimed htext =>
    obtain ⟨hcues, cue, hcue⟩ := Ass.exists_parseDialogue hle hread hlines h hevent hcols
    obtain ⟨htimes, hshort⟩ := htimed.within hle hcue
    refine ⟨hcues.count, ?_, ?_⟩
    · rintro _ ⟨⟩
      exact htimes
    · rintro _ ⟨⟩
      exact hshort _ htext

namespace TwoFiles

open TwoCues

/-- A cue above the cap on times, of which only a tag would be shown, and a cue that is good. -/
def late : List Char := "200:00:00,000 --> 200:00:01,000".toList

def rest : List (List Char) :=
  ["<b>".toList, [], "00:00:01,000 --> 00:00:01,500".toList, ['a']]

/-- The caps, with times up to 1000 hours. -/
def long : Caps := { limits with maxTimestampMs := 3600000000 }

end TwoFiles

end Locast.Subtitles

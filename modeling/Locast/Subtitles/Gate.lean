import Locast.Subtitles.Formats
import Locast.Subtitles.Lines
import Mathlib.Tactic.SplitIfs

/-!
# The subtitle gate

No slice that the machines take is missing; what they return keeps every cap; and a file that passes
under some caps passes under higher ones with the same cues, so that no cap ever shortens or drops a
cue.
-/

namespace Locast.Subtitles

open Locast.Lib

variable {caps caps' : Caps} {α : Type}

/-- A failure that is the rejection of the file. -/
def Rejects (f : Failure) : Prop := f ≠ .badSlice

/-- One set of caps is nowhere above another. -/
structure Caps.Le (caps caps' : Caps) : Prop where
  maxInputBytes : caps.maxInputBytes ≤ caps'.maxInputBytes
  maxLines : caps.maxLines ≤ caps'.maxLines
  maxLineBytes : caps.maxLineBytes ≤ caps'.maxLineBytes
  maxCues : caps.maxCues ≤ caps'.maxCues
  maxCueTextBytes : caps.maxCueTextBytes ≤ caps'.maxCueTextBytes
  maxTimestampMs : caps.maxTimestampMs ≤ caps'.maxTimestampMs

/-- The text of a cue: within its cap, and without dropped characters. -/
structure GoodText (caps : Caps) (text : List Char) : Prop where
  short : byteLen text ≤ caps.maxCueTextBytes
  kept : ∀ c ∈ text, isDroppedChar c = false

structure GoodCue (caps : Caps) (c : Cue) : Prop where
  order : c.startMs ≤ c.endMs
  cap : c.endMs ≤ caps.maxTimestampMs
  text : GoodText caps c.text
  notBlank : isBlank c.text = false

/-- The cues of a file, as far as it is read. -/
structure GoodCues (caps : Caps) (cues : List Cue) : Prop where
  good : ∀ c ∈ cues, GoodCue caps c
  count : cues.length ≤ caps.maxCues

lemma goodCues_nil : GoodCues caps [] := ⟨by rintro _ ⟨⟩, Nat.zero_le _⟩

lemma GoodCues.push {cues : List Cue} {c : Cue} (h : GoodCues caps cues) (hc : GoodCue caps c)
    (hcount : cues.length + 1 ≤ caps.maxCues) : GoodCues caps (cues ++ [c]) := by
  refine ⟨fun d hd => ?_, by simpa using hcount⟩
  rcases List.mem_append.1 hd with hd | hd
  · exact h.good d hd
  · obtain rfl := List.mem_singleton.1 hd
    exact hc

/-! ### Steps that take no slice -/

lemma meets_reject {P : α → Prop} (e : SubtitleError) : Meets P Rejects (reject e) := by
  rintro ⟨⟩

lemma meets_orReject {e : SubtitleError} {o : Option α} :
    Meets (fun a => o = some a) Rejects (orReject e o) := by
  cases o with
  | none => exact meets_reject e
  | some a => exact rfl

lemma meets_checked {P : α → Prop} {x : Except SubtitleError α} (h : ∀ a, x = .ok a → P a) :
    Meets P Rejects (checked x) := by
  cases x with
  | error e => exact meets_reject e
  | ok a => exact h a rfl

lemma meets_sliced {s : α} {o : Option α} (h : o = some s) :
    Meets (fun a => a = s) Rejects (sliced o) := by
  rw [h]
  exact rfl

lemma sliced_some_bind {β : Type} (a : α) (f : α → Parsed β) : (sliced (some a) >>= f) = f a := rfl

lemma orReject_extends {e e' : SubtitleError} {o : Option α} :
    Extends (orReject e o) (orReject e' o) := by
  cases o with
  | none => exact .of_error
  | some a => exact .refl _

lemma checkOrder_extends {line line' start stop : ℕ} :
    Extends (checkOrder line start stop) (checkOrder line' start stop) := by
  unfold checkOrder
  split_ifs
  · exact .of_error
  · exact .refl _

lemma checked_extends {x y : Except SubtitleError α} (h : Extends x y) :
    Extends (checked x) (checked y) := by
  cases x with
  | error e => exact .of_error
  | ok a =>
    rw [h a rfl]
    exact .refl _

/-! ### Cue text -/

lemma goodText_nil : GoodText caps [] := ⟨Nat.zero_le _, by rintro _ ⟨⟩⟩

lemma goodText_of_pushCueChar {buf buf' : List Char} {c : Char} {line : ℕ} (h : GoodText caps buf)
    (hpush : pushCueChar caps buf c line = .ok buf') : GoodText caps buf' := by
  unfold pushCueChar at hpush
  split_ifs at hpush with hdropped hfits
  · cases hpush
    exact h
  · cases hpush
    refine ⟨by simpa using hfits, fun d hd => ?_⟩
    rcases List.mem_append.1 hd with hd | hd
    · exact h.kept d hd
    · obtain rfl := List.mem_singleton.1 hd
      simpa using hdropped

lemma goodText_of_pushCueText {buf piece buf' : List Char} {line : ℕ} (h : GoodText caps buf)
    (hpush : pushCueText caps buf piece line = .ok buf') : GoodText caps buf' := by
  induction piece generalizing buf with
  | nil =>
    cases hpush
    exact h
  | cons c piece ih =>
    obtain ⟨mid, hmid, hrest⟩ := bind_eq_ok.1 hpush
    exact ih (goodText_of_pushCueChar h hmid) hrest

lemma goodText_of_appendLine {text piece text' : List Char} {line : ℕ} (h : GoodText caps text)
    (happend : appendLine caps text piece line = .ok text') : GoodText caps text' := by
  unfold appendLine at happend
  split_ifs at happend
  · cases happend
    exact h
  · exact goodText_of_pushCueText h happend
  · obtain ⟨mid, hmid, hrest⟩ := bind_eq_ok.1 happend
    exact goodText_of_pushCueText (goodText_of_pushCueChar h hmid) hrest

lemma pushCueChar_extends (hle : caps.Le caps') (buf : List Char) (c : Char) (line line' : ℕ) :
    Extends (pushCueChar caps buf c line) (pushCueChar caps' buf c line') := by
  unfold pushCueChar
  split_ifs with hdropped hfits hfits'
  · exact .refl _
  · exact .refl _
  · exact absurd (hfits.trans hle.maxCueTextBytes) hfits'
  · exact .of_error
  · exact .of_error

lemma pushCueText_extends (hle : caps.Le caps') (buf piece : List Char) (line line' : ℕ) :
    Extends (pushCueText caps buf piece line) (pushCueText caps' buf piece line') := by
  induction piece generalizing buf with
  | nil => exact .refl _
  | cons c piece ih => exact (pushCueChar_extends hle buf c line line').bind ih

lemma appendLine_extends (hle : caps.Le caps') (text piece : List Char) (line line' : ℕ) :
    Extends (appendLine caps text piece line) (appendLine caps' text piece line') := by
  unfold appendLine
  split_ifs
  · exact .refl _
  · exact pushCueText_extends hle _ _ _ _
  · exact (pushCueChar_extends hle _ _ _ _).bind fun _ => pushCueText_extends hle _ _ _ _

/-! ### Times and counts -/

lemma meets_timestampToMs (line h m s ms : ℕ) :
    Meets (· ≤ caps.maxTimestampMs) Rejects (timestampToMs caps line h m s ms) := by
  unfold timestampToMs
  cases (timestampTotal h m s ms).bind checkedU32 with
  | none => exact meets_reject _
  | some t =>
    rw [withinCap]
    split_ifs with hle
    · exact hle
    · exact meets_reject _

lemma timestampToMs_extends (hle : caps.Le caps') (line line' h m s ms : ℕ) :
    Extends (timestampToMs caps line h m s ms) (timestampToMs caps' line' h m s ms) := by
  unfold timestampToMs
  cases (timestampTotal h m s ms).bind checkedU32 with
  | none => exact .of_error
  | some t =>
    simp only [withinCap]
    split_ifs with hcap hcap'
    · exact .refl _
    · exact absurd (hcap.trans hle.maxTimestampMs) hcap'
    · exact .of_error
    · exact .of_error

lemma meets_checkCueCount (n : ℕ) :
    Meets (fun _ => n ≤ caps.maxCues) Rejects (checkCueCount caps n) := by
  unfold checkCueCount
  split_ifs with h
  · exact meets_reject _
  · exact Nat.le_of_not_lt fun hlt => h (.inr hlt)

lemma checkCueCount_extends (hle : caps.Le caps') (n : ℕ) :
    Extends (checkCueCount caps n) (checkCueCount caps' n) := by
  unfold checkCueCount
  split_ifs with h h' h'
  · exact .of_error
  · exact .of_error
  · exact absurd (h'.imp_right hle.maxCues.trans_lt) h
  · exact .refl _

lemma splitLines_extends (hle : caps.Le caps') (text : List Char) :
    Extends (splitLines caps text) (splitLines caps' text) := by
  intro lines h
  obtain ⟨heq, hcount, hall⟩ := splitLines_eq_ok_iff.1 h
  exact splitLines_eq_ok_iff.2 ⟨heq, hcount.trans hle.maxLines, fun l hl =>
    (hall l hl).trans hle.maxLineBytes⟩

lemma meets_splitLines (text : List Char) :
    Meets (fun _ => True) Rejects (splitLines caps text) := by
  rw [splitLines_eq]
  rcases checkLines_eq caps (linesOf text) [] with h | ⟨e, h⟩
  · rw [h]
    trivial
  · rw [h]
    exact meets_reject e

/-! ### Markup -/

/-- The scan looks ahead only from where it is. -/
lemma meets_scanTags {closerOf : Char → Option Char}
    (hopen : ∀ c p, closerOf c = some p → c.utf8Size = 1) (before rest : List Char) (skipUntil : ℕ)
    (gaveUp out : List Char) :
    Meets (fun _ => True) Rejects
      (scanTags closerOf (before ++ rest) rest (byteLen before) skipUntil gaveUp out) := by
  induction rest generalizing before skipUntil gaveUp out with
  | nil => trivial
  | cons c rest ih =>
    have hnext : byteLen before + c.utf8Size = byteLen (before ++ [c]) := by simp
    have hline : before ++ c :: rest = before ++ [c] ++ rest := by simp
    rw [scanTags, hnext, hline]
    by_cases hskip : byteLen before < skipUntil
    · rw [if_pos hskip]
      exact ih _ _ _ _
    · rw [if_neg hskip]
      cases hcloser : closerOf c with
      | none => exact ih _ _ _ _
      | some closer =>
        have hafter : getFrom (before ++ [c] ++ rest) (byteLen before + 1) = some rest := by
          rw [← hopen c closer hcloser, hnext, getFrom_append]
        dsimp only
        split_ifs
        · exact ih _ _ _ _
        · refine (meets_sliced hafter).bind fun after _ _ => ?_
          cases find closer after with
          | none => exact ih _ _ _ _
          | some off => exact ih _ _ _ _

/-! ### What SRT and WebVTT share -/

structure GoodPending (caps : Caps) (p : Pending) : Prop where
  order : p.startMs ≤ p.endMs
  cap : p.endMs ≤ caps.maxTimestampMs
  text : GoodText caps p.text

lemma meets_timingLine {parseStamp : List Char → ℕ → Parsed ℕ} {raw : List Char} {line : ℕ}
    (hstamp : ∀ s, Meets (· ≤ caps.maxTimestampMs) Rejects (parseStamp s line)) :
    Meets (GoodPending caps) Rejects (timingLine parseStamp raw line) := by
  refine meets_orReject.bind fun p _ _ => meets_orReject.bind fun endToken _ _ => ?_
  refine (hstamp _).bind fun startMs _ _ => (hstamp _).bind fun endMs _ hend => ?_
  unfold checkOrder
  split_ifs with horder
  · exact meets_reject _
  · exact ⟨Nat.le_of_not_lt horder, hend, goodText_nil⟩

lemma timingLine_extends {stamp stamp' : List Char → ℕ → Parsed ℕ} {raw : List Char}
    {line line' : ℕ} (hstamp : ∀ s, Extends (stamp s line) (stamp' s line')) :
    Extends (timingLine stamp raw line) (timingLine stamp' raw line') :=
  orReject_extends.bind fun _ => orReject_extends.bind fun _ =>
    (hstamp _).bind fun _ => (hstamp _).bind fun _ => checkOrder_extends.bind fun _ => .refl _

lemma meets_flush {pending : Option Pending} {cues : List Cue}
    (hp : ∀ p ∈ pending, GoodPending caps p) (hcues : GoodCues caps cues) :
    Meets (GoodCues caps) Rejects (flush caps pending cues) := by
  cases pending with
  | none => exact hcues
  | some p =>
    rw [flush]
    split_ifs with hblank
    · exact hcues
    · have hgood := hp p rfl
      exact (meets_checkCueCount _).bind fun _ _ hcount =>
        hcues.push ⟨hgood.order, hgood.cap, hgood.text, by simpa using hblank⟩ hcount

lemma flush_extends (hle : caps.Le caps') (pending : Option Pending) (cues : List Cue) :
    Extends (flush caps pending cues) (flush caps' pending cues) := by
  cases pending with
  | none => exact .refl _
  | some p =>
    simp only [flush]
    split_ifs
    · exact .refl _
    · exact (checkCueCount_extends hle _).bind fun _ => .refl _

/-! ### SRT -/

lemma Srt.meets_parseStamp (s : List Char) (line : ℕ) :
    Meets (· ≤ caps.maxTimestampMs) Rejects (Srt.parseStamp caps s line) := by
  unfold Srt.parseStamp
  split
  · exact meets_orReject.bind fun _ _ _ => meets_orReject.bind fun _ _ _ =>
      meets_orReject.bind fun _ _ _ => meets_orReject.bind fun _ _ _ =>
        meets_orReject.bind fun _ _ _ => meets_timestampToMs _ _ _ _ _
  · exact meets_reject _

lemma Srt.parseStamp_extends (hle : caps.Le caps') (s : List Char) (line line' : ℕ) :
    Extends (Srt.parseStamp caps s line) (Srt.parseStamp caps' s line') := by
  unfold Srt.parseStamp
  split
  · exact orReject_extends.bind fun _ => orReject_extends.bind fun _ =>
      orReject_extends.bind fun _ =>
      orReject_extends.bind fun _ => orReject_extends.bind fun _ =>
        timestampToMs_extends hle _ _ _ _ _ _
  · exact .of_error

lemma Srt.meets_stripTags (raw : List Char) :
    Meets (fun _ => True) Rejects (Srt.stripTags raw) := by
  refine meets_scanTags (fun c p h => ?_) [] raw 0 [] []
  unfold Srt.closerOf at h
  split_ifs at h with h₁ h₂
  · rw [h₁]
    rfl
  · rw [h₂]
    rfl

/-- What SRT has collected. -/
def Srt.Good (caps : Caps) (s : Srt.State) : Prop :=
  GoodCues caps s.cues ∧ ∀ p ∈ s.pending, GoodPending caps p

lemma Srt.meets_line (index : ℕ) (raw : List Char) (s : Srt.State) (h : Srt.Good caps s) :
    Meets (Srt.Good caps) Rejects (Srt.line caps index raw s) := by
  unfold Srt.line
  by_cases hblank : isBlank raw = true
  · rw [if_pos hblank]
    exact (meets_flush h.2 h.1).bind fun cues _ hcues => ⟨hcues, by rintro _ ⟨⟩⟩
  · rw [if_neg hblank]
    cases hp : s.pending with
    | none =>
      dsimp only
      split_ifs
      · refine (meets_timingLine fun s => Srt.meets_parseStamp s _).bind fun p _ hp => ⟨h.1, ?_⟩
        rintro _ ⟨⟩
        exact hp
      · exact h
    | some p =>
      have hgood := h.2 p hp
      refine (Srt.meets_stripTags raw).bind fun piece _ _ =>
        (meets_checked fun text htext => goodText_of_appendLine hgood.text htext).bind
          fun text _ htext => ⟨h.1, ?_⟩
      rintro _ ⟨⟩
      exact ⟨hgood.order, hgood.cap, htext⟩

lemma Srt.line_extends (hle : caps.Le caps') (index index' : ℕ) (raw : List Char) (s : Srt.State) :
    Extends (Srt.line caps index raw s) (Srt.line caps' index' raw s) := by
  unfold Srt.line
  by_cases hblank : isBlank raw = true
  · rw [if_pos hblank, if_pos hblank]
    exact (flush_extends hle _ _).bind fun _ => .refl _
  · rw [if_neg hblank, if_neg hblank]
    cases s.pending with
    | none =>
      dsimp only
      split_ifs
      · exact (timingLine_extends fun s => Srt.parseStamp_extends hle s _ _).bind fun _ => .refl _
      · exact .refl _
    | some p =>
      exact (Extends.refl _).bind fun _ =>
        (checked_extends (appendLine_extends hle _ _ _ _)).bind fun _ => .refl _

lemma Srt.meets_parse (text : List Char) :
    Meets (GoodCues caps) Rejects (Srt.parse caps text) := by
  refine (meets_splitLines text).bind fun lines _ _ => ?_
  refine (Meets.items (I := Srt.Good caps) ⟨goodCues_nil, by rintro _ ⟨⟩⟩
    fun n raw _ s hs => Srt.meets_line n raw s hs).bind fun s _ hs => meets_flush hs.2 hs.1

lemma Srt.parse_extends (hle : caps.Le caps') (text : List Char) :
    Extends (Srt.parse caps text) (Srt.parse caps' text) :=
  (splitLines_extends hle text).bind fun _ =>
    (Extends.items (Srt.line_extends hle)).bind fun _ => flush_extends hle _ _

/-! ### WebVTT -/

lemma Vtt.meets_stampOf (hours minutes rest : List Char) (line : ℕ) :
    Meets (· ≤ caps.maxTimestampMs) Rejects (Vtt.stampOf caps hours minutes rest line) := by
  refine meets_orReject.bind fun p _ _ => meets_orReject.bind fun _ _ _ =>
    meets_orReject.bind fun _ _ _ => meets_orReject.bind fun _ _ _ => ?_
  split_ifs
  · exact meets_reject _
  · exact meets_orReject.bind fun _ _ _ => meets_timestampToMs _ _ _ _ _

lemma Vtt.stampOf_extends (hle : caps.Le caps') (hours minutes rest : List Char) (line line' : ℕ) :
    Extends (Vtt.stampOf caps hours minutes rest line)
      (Vtt.stampOf caps' hours minutes rest line') := by
  refine orReject_extends.bind fun p => orReject_extends.bind fun _ =>
    orReject_extends.bind fun _ =>
    orReject_extends.bind fun _ => ?_
  split_ifs
  · exact .of_error
  · exact orReject_extends.bind fun _ => timestampToMs_extends hle _ _ _ _ _ _

lemma Vtt.meets_parseStamp (s : List Char) (line : ℕ) :
    Meets (· ≤ caps.maxTimestampMs) Rejects (Vtt.parseStamp caps s line) := by
  unfold Vtt.parseStamp
  split
  · exact Vtt.meets_stampOf _ _ _ _
  · exact Vtt.meets_stampOf _ _ _ _
  · exact meets_reject _

lemma Vtt.parseStamp_extends (hle : caps.Le caps') (s : List Char) (line line' : ℕ) :
    Extends (Vtt.parseStamp caps s line) (Vtt.parseStamp caps' s line') := by
  unfold Vtt.parseStamp
  split
  · exact Vtt.stampOf_extends hle _ _ _ _ _
  · exact Vtt.stampOf_extends hle _ _ _ _ _
  · exact .of_error

lemma Vtt.meets_stripTags (raw : List Char) :
    Meets (fun _ => True) Rejects (Vtt.stripTags raw) := by
  refine meets_scanTags (fun c p h => ?_) [] raw 0 [] []
  unfold Vtt.closerOf at h
  split_ifs at h with h₁
  rw [h₁]
  rfl

lemma Vtt.meets_scanEntities (before rest : List Char) (skipUntil : ℕ) (out : List Char) :
    Meets (fun _ => True) Rejects
      (Vtt.scanEntities (before ++ rest) rest (byteLen before) skipUntil out) := by
  induction rest generalizing before skipUntil out with
  | nil => trivial
  | cons c rest ih =>
    have hnext : byteLen before + c.utf8Size = byteLen (before ++ [c]) := by simp
    have hline : before ++ c :: rest = before ++ [c] ++ rest := by simp
    have hsuffix : getFrom (before ++ [c] ++ rest) (byteLen before) = some (c :: rest) := by
      rw [← hline, getFrom_append]
    rw [Vtt.scanEntities, hnext, hline]
    split_ifs
    · exact ih _ _ _
    · refine (meets_sliced hsuffix).bind fun suffix _ _ => ?_
      cases Vtt.matchEntity suffix with
      | none => exact ih _ _ _
      | some entity => exact ih _ _ _
    · exact ih _ _ _

/-- What WebVTT has collected. -/
def Vtt.Good (caps : Caps) (s : Vtt.State) : Prop :=
  GoodCues caps s.cues ∧ ∀ p ∈ s.pending, GoodPending caps p

lemma Vtt.meets_line (index : ℕ) (raw : List Char) (s : Vtt.State) (h : Vtt.Good caps s) :
    Meets (Vtt.Good caps) Rejects (Vtt.line caps index raw s) := by
  have kept (mode : Vtt.Mode) :
      Vtt.Good caps { s with pending := none, mode := mode } := ⟨h.1, by rintro _ ⟨⟩⟩
  have timing (mode : Vtt.Mode) : Meets (Vtt.Good caps) Rejects
      (Vtt.parseTimingLine caps raw (lineNumber index) >>= fun cue =>
        .ok { s with pending := some cue, mode := mode }) := by
    refine (meets_timingLine fun s => Vtt.meets_parseStamp s _).bind fun p _ hp => ⟨h.1, ?_⟩
    rintro _ ⟨⟩
    exact hp
  unfold Vtt.line
  by_cases hblank : isBlank raw = true
  · rw [if_pos hblank]
    exact (meets_flush h.2 h.1).bind fun cues _ hcues => ⟨hcues, by rintro _ ⟨⟩⟩
  · rw [if_neg hblank]
    cases hp : s.pending with
    | none =>
      cases s.mode with
      | idle =>
        dsimp only
        split_ifs
        · exact kept _
        · exact timing _
        · exact kept _
      | afterId =>
        dsimp only
        split_ifs
        · exact timing _
        · exact kept _
      | skip => exact h
    | some p =>
      have hgood := h.2 p hp
      refine (Vtt.meets_stripTags raw).bind fun piece _ _ =>
        (Vtt.meets_scanEntities [] piece 0 []).bind fun decoded _ _ =>
        (meets_checked fun text htext => goodText_of_appendLine hgood.text htext).bind
          fun text _ htext => ⟨h.1, ?_⟩
      rintro _ ⟨⟩
      exact ⟨hgood.order, hgood.cap, htext⟩

lemma Vtt.line_extends (hle : caps.Le caps') (index index' : ℕ) (raw : List Char) (s : Vtt.State) :
    Extends (Vtt.line caps index raw s) (Vtt.line caps' index' raw s) := by
  have timing : Extends (Vtt.parseTimingLine caps raw (lineNumber index))
      (Vtt.parseTimingLine caps' raw (lineNumber index')) :=
    timingLine_extends fun s => Vtt.parseStamp_extends hle s _ _
  unfold Vtt.line
  by_cases hblank : isBlank raw = true
  · rw [if_pos hblank, if_pos hblank]
    exact (flush_extends hle _ _).bind fun _ => .refl _
  · rw [if_neg hblank, if_neg hblank]
    cases s.pending with
    | none =>
      cases s.mode with
      | idle =>
        dsimp only
        split_ifs
        · exact .refl _
        · exact timing.bind fun _ => .refl _
        · exact .refl _
      | afterId =>
        dsimp only
        split_ifs
        · exact timing.bind fun _ => .refl _
        · exact .refl _
      | skip => exact .refl _
    | some p =>
      exact (Extends.refl _).bind fun _ => (Extends.refl _).bind fun _ =>
        (checked_extends (appendLine_extends hle _ _ _ _)).bind fun _ => .refl _

lemma Vtt.meets_parse (text : List Char) :
    Meets (GoodCues caps) Rejects (Vtt.parse caps text) := by
  refine (meets_splitLines text).bind fun lines _ _ => ?_
  cases lines with
  | nil => exact meets_reject _
  | cons first rest =>
    dsimp only
    split_ifs
    · refine (Meets.items (I := Vtt.Good caps) ⟨goodCues_nil, by rintro _ ⟨⟩⟩
        fun n raw _ s hs => Vtt.meets_line n raw s hs).bind fun s _ hs => meets_flush hs.2 hs.1
    · exact meets_reject _

lemma Vtt.parse_extends (hle : caps.Le caps') (text : List Char) :
    Extends (Vtt.parse caps text) (Vtt.parse caps' text) := by
  refine (splitLines_extends hle text).bind fun lines => ?_
  cases lines with
  | nil => exact .of_error
  | cons first rest =>
    dsimp only
    split_ifs
    · exact (Extends.items (Vtt.line_extends hle)).bind fun _ => flush_extends hle _ _
    · exact .of_error

/-! ### ASS -/

/-- What a text is made of: text that is shown, and override blocks. -/
inductive Ass.Piece where
  | shown (s : List Char)
  | override (body : List Char)

/-- The pieces, one after the other. -/
def Ass.runPieces (caps : Caps) (line : ℕ) :
    List Ass.Piece → List Char × Option SubtitleError → Parsed (Option (List Char))
  | [], out => Ass.cleaned out
  | .shown s :: pieces, out =>
    Ass.runPieces caps line pieces (Ass.note out.1 out.2 (pushCueText caps out.1 s line))
  | .override body :: pieces, out =>
    Ass.enablesDrawing body >>= fun draws =>
      if draws then .ok none else Ass.runPieces caps line pieces out

lemma pushCueText_singleton (buf : List Char) (c : Char) (line : ℕ) :
    pushCueText caps buf [c] line = pushCueChar caps buf c line := by
  simp only [pushCueText]
  cases pushCueChar caps buf c line <;> rfl

lemma Ass.cleanLoop_nil {raw : List Char} {line pos : ℕ} {out : List Char × Option SubtitleError}
    (h : getFrom raw pos = some []) : Ass.cleanLoop caps raw line pos out = Ass.cleaned out := by
  unfold Ass.cleanLoop
  split
  · rename_i heq
    cases h.symm.trans heq
  · rfl
  · rename_i heq
    cases h.symm.trans heq

lemma Ass.cleanLoop_cons {raw : List Char} {line pos : ℕ} {out : List Char × Option SubtitleError}
    {c : Char} {rest : List Char} (h : getFrom raw pos = some (c :: rest)) :
    Ass.cleanLoop caps raw line pos out =
      if c = '{' then
        sliced (getFrom (c :: rest) 1) >>= fun inner =>
          match find '}' inner with
          | some off =>
            (sliced (getTo inner off) >>= Ass.enablesDrawing) >>= fun draws =>
              if draws then .ok none else Ass.cleanLoop caps raw line (pos + (off + 2)) out
          | none => Ass.enablesDrawing inner >>= fun draws =>
              if draws then .ok none else Ass.cleaned out
      else if c = '\\' then
        sliced (getFrom (c :: rest) 1) >>= fun after =>
          Ass.cleanLoop caps raw line (pos + (Ass.escapeOf after).2)
            (Ass.note out.1 out.2 (pushCueChar caps out.1 (Ass.escapeOf after).1 line))
      else
        sliced (getTo (c :: rest) c.utf8Size) >>= fun piece =>
          Ass.cleanLoop caps raw line (pos + c.utf8Size)
            (Ass.note out.1 out.2 (pushCueText caps out.1 piece line)) := by
  rw [Ass.cleanLoop]
  split
  · rename_i heq
    cases h.symm.trans heq
  · rename_i heq
    cases h.symm.trans heq
  · rename_i heq
    cases h.symm.trans heq
    rfl

/-- What a backslash stands for, and what follows. -/
def Ass.escaped : List Char → Char × List Char
  | 'N' :: after | 'n' :: after => ('\n', after)
  | 'h' :: after => (' ', after)
  | rest => ('\\', rest)

lemma Ass.length_escaped (rest : List Char) : (Ass.escaped rest).2.length ≤ rest.length := by
  unfold Ass.escaped
  split <;> simp

/-- **The pieces of a text**: an override block ends at the first closing brace, or with the
text. -/
def Ass.pieces : List Char → List Ass.Piece
  | [] => []
  | c :: rest =>
    if c = '{' then
      if '}' ∈ rest then .override (ahead '}' rest) :: Ass.pieces (behind '}' rest)
      else [.override rest]
    else if c = '\\' then .shown [(Ass.escaped rest).1] :: Ass.pieces (Ass.escaped rest).2
    else .shown [c] :: Ass.pieces rest
termination_by s => s.length
decreasing_by
  · exact Nat.lt_succ_of_le (length_behind _ _)
  · exact Nat.lt_succ_of_le (Ass.length_escaped _)
  · exact Nat.lt_succ_self _

/-- What a backslash stands for ends within the text. -/
lemma Ass.escapeOf_spec (rest : List Char) : ∃ eaten, rest = eaten ++ (Ass.escaped rest).2 ∧
    (Ass.escapeOf rest).1 = (Ass.escaped rest).1 ∧ (Ass.escapeOf rest).2 = 1 + byteLen eaten := by
  unfold Ass.escapeOf
  split
  · exact ⟨['N'], rfl, rfl, rfl⟩
  · exact ⟨['n'], rfl, rfl, rfl⟩
  · exact ⟨['h'], rfl, rfl, rfl⟩
  · rename_i hN hn hh
    have hplain : Ass.escaped rest = ('\\', rest) := by
      unfold Ass.escaped
      split
      · exact absurd rfl (hN _)
      · exact absurd rfl (hn _)
      · exact absurd rfl (hh _)
      · rfl
    rw [hplain]
    exact ⟨[], rfl, rfl, rfl⟩

/-- **The scan takes its text in pieces**, which no cap changes. -/
lemma Ass.cleanLoop_eq_runPieces (before rest : List Char) (caps : Caps) (line : ℕ)
    (out : List Char × Option SubtitleError) :
    Ass.cleanLoop caps (before ++ rest) line (byteLen before) out =
      Ass.runPieces caps line (Ass.pieces rest) out := by
  induction hn : rest.length using Nat.strong_induction_on generalizing before rest out with
  | _ n ih =>
    cases rest with
    | nil =>
      rw [Ass.pieces]
      exact Ass.cleanLoop_nil (getFrom_append _ _)
    | cons c rest =>
      -- where the scan goes on, it is at the end of what it has read
      have next (eaten after : List Char) (hrest : rest = eaten ++ after)
          (out : List Char × Option SubtitleError) : Ass.cleanLoop caps (before ++ c :: rest) line
            (byteLen before + (c.utf8Size + byteLen eaten)) out =
              Ass.runPieces caps line (Ass.pieces after) out := by
        have :=
          ih after.length (by simp only [← hn, hrest, List.length_cons, List.length_append]; omega)
          (before ++ c :: eaten) after out rfl
        simpa [hrest] using this
      rw [Ass.pieces, Ass.cleanLoop_cons (getFrom_append _ _)]
      by_cases hopen : c = '{'
      · have hinner : getFrom (c :: rest) 1 = some rest := by
          rw [hopen]
          exact getFrom_append ['{'] rest
        rw [if_pos hopen, if_pos hopen, hinner, sliced_some_bind, find_eq]
        by_cases hclose : '}' ∈ rest
        · have hrest := ahead_append_behind hclose
          have hbody : getTo rest (byteLen (ahead '}' rest)) = some (ahead '}' rest) := by
            have := getTo_append (ahead '}' rest) ('}' :: behind '}' rest)
            rwa [hrest] at this
          have hsize : c.utf8Size + byteLen (ahead '}' rest ++ ['}']) =
              byteLen (ahead '}' rest) + 2 := by
            have hlast : '}'.utf8Size = 1 := rfl
            have hfirst : '{'.utf8Size = 1 := rfl
            simp only [hopen, byteLen_append, byteLen_cons, byteLen_nil, hlast, hfirst]
            omega
          have hrun := next (ahead '}' rest ++ ['}']) (behind '}' rest)
            (by rw [List.append_assoc]; exact hrest.symm) out
          rw [hsize] at hrun
          rw [if_pos hclose, if_pos hclose]
          simp only [hbody, sliced_some_bind, hrun]
          rfl
        · rw [if_neg hclose, if_neg hclose]
          rfl
      rw [if_neg hopen, if_neg hopen]
      by_cases hescape : c = '\\'
      · have hafter : getFrom (c :: rest) 1 = some rest := by
          rw [hescape]
          exact getFrom_append ['\\'] rest
        obtain ⟨eaten, hrest, hchar, hlen⟩ := Ass.escapeOf_spec rest
        have hsize : (Ass.escapeOf rest).2 = c.utf8Size + byteLen eaten := by
          rw [hlen, hescape]
          rfl
        rw [if_pos hescape, if_pos hescape, hafter, sliced_some_bind, hsize,
          next eaten _ hrest, hchar, Ass.runPieces, pushCueText_singleton]
      · have hpiece : getTo (c :: rest) c.utf8Size = some [c] := by
          simpa using getTo_append [c] rest
        have hrun := next [] rest rfl
        rw [byteLen_nil, Nat.add_zero] at hrun
        rw [if_neg hescape, if_neg hescape, hpiece, sliced_some_bind, hrun, Ass.runPieces]

lemma Ass.cleanText_eq_runPieces (caps : Caps) (raw : List Char) (line : ℕ) :
    Ass.cleanText caps raw line = Ass.runPieces caps line (Ass.pieces raw) ([], none) :=
  Ass.cleanLoop_eq_runPieces [] raw caps line ([], none)

/-- Whether an override block switches drawing on. -/
def Ass.draws (body : List Char) : Bool := (Ass.enablesDrawing body).toOption.getD false

lemma Ass.anyDraws_eq {body : List Char} {is : List ℕ}
    (his : ∀ i ∈ is, ∃ rest, getFrom body (i + 2) = some rest) : Ass.anyDraws body is =
      .ok (is.any fun i => (getFrom body (i + 2)).any Ass.startsNonzero) := by
  induction is with
  | nil => rfl
  | cons i is ih =>
    obtain ⟨rest, hrest⟩ := his i List.mem_cons_self
    rw [Ass.anyDraws, hrest, sliced_some_bind, List.any_cons, hrest, Option.any_some,
      ih fun j hj => his j (List.mem_cons_of_mem _ hj)]
    cases Ass.startsNonzero rest <;> rfl

/-- What is behind an occurrence. -/
lemma Ass.getFrom_behind (before after : List Char) :
    getFrom (before ++ '\\' :: 'p' :: after) (byteLen before + 2) = some after := by
  have hlen : byteLen before + 2 = byteLen (before ++ ['\\', 'p']) := by
    have hslash : '\\'.utf8Size = 1 := rfl
    have hp : 'p'.utf8Size = 1 := rfl
    simp [hslash, hp]
  rw [hlen, show before ++ '\\' :: 'p' :: after = before ++ ['\\', 'p'] ++ after by simp,
    getFrom_append]

/-- Where drawing is looked for, the slice is there. -/
lemma Ass.enablesDrawing_eq_any (body : List Char) : Ass.enablesDrawing body =
    .ok ((matchIndices '\\' 'p' body 0).any fun i =>
      (getFrom body (i + 2)).any Ass.startsNonzero) := by
  refine Ass.anyDraws_eq fun i hi => ?_
  obtain ⟨before, after, rfl, rfl⟩ := exists_of_mem_matchIndices hi
  exact ⟨after, by rw [Nat.zero_add, Ass.getFrom_behind]⟩

lemma Ass.enablesDrawing_eq (body : List Char) :
    Ass.enablesDrawing body = .ok (Ass.draws body) := by
  rw [Ass.draws, Ass.enablesDrawing_eq_any]
  rfl

def Ass.Piece.draws : Ass.Piece → Bool
  | .shown _ => false
  | .override body => Ass.draws body

/-- A piece goes to the text, as long as it fits. -/
def Ass.noteShown (caps : Caps) (line : ℕ) (out : List Char × Option SubtitleError) :
    Ass.Piece → List Char × Option SubtitleError
  | .shown s => Ass.note out.1 out.2 (pushCueText caps out.1 s line)
  | .override _ => out

/-- **Drawing is dropped whatever its length.** -/
lemma Ass.runPieces_eq (line : ℕ) (pieces : List Ass.Piece)
    (out : List Char × Option SubtitleError) :
    Ass.runPieces caps line pieces out =
      if pieces.any Ass.Piece.draws then .ok none
      else Ass.cleaned (pieces.foldl (Ass.noteShown caps line) out) := by
  induction pieces generalizing out with
  | nil => rfl
  | cons piece pieces ih =>
    cases piece with
    | shown s =>
      rw [Ass.runPieces, ih]
      rfl
    | override body =>
      rw [Ass.runPieces, Ass.enablesDrawing_eq, ih]
      cases hdraws : Ass.draws body with
      | false => simp [Ass.Piece.draws, hdraws, Ass.noteShown, bind, Except.bind]
      | true => simp [Ass.Piece.draws, hdraws, bind, Except.bind]

lemma Ass.goodText_note {out : List Char × Option SubtitleError} {s : List Char} {line : ℕ}
    (h : GoodText caps out.1) :
    GoodText caps (Ass.note out.1 out.2 (pushCueText caps out.1 s line)).1 := by
  unfold Ass.note
  split
  · exact h
  · exact goodText_of_pushCueText h ‹_›
  · exact h

lemma Ass.goodText_foldl {pieces : List Ass.Piece}
    {out : List Char × Option SubtitleError} {line : ℕ} (h : GoodText caps out.1) :
    GoodText caps (pieces.foldl (Ass.noteShown caps line) out).1 := by
  induction pieces generalizing out with
  | nil => exact h
  | cons piece pieces ih =>
    cases piece with
    | shown s => exact ih (Ass.goodText_note h)
    | override body => exact ih h

/-- Under higher caps, a text that fits is the same. -/
lemma Ass.foldl_agrees (hle : caps.Le caps') {pieces : List Ass.Piece}
    {out out' : List Char × Option SubtitleError} {line line' : ℕ} (h : out.2 = none → out' = out)
    (hfits : (pieces.foldl (Ass.noteShown caps line) out).2 = none) :
    pieces.foldl (Ass.noteShown caps' line') out' = pieces.foldl (Ass.noteShown caps line) out := by
  induction pieces generalizing out out' with
  | nil => exact h hfits
  | cons piece pieces ih =>
    cases piece with
    | override body => exact ih h hfits
    | shown s =>
      refine ih (fun hnone => ?_) hfits
      obtain ⟨buf, overflow⟩ := out
      simp only [Ass.noteShown] at hnone ⊢
      cases overflow with
      | some e => cases hnone
      | none =>
        obtain rfl := h rfl
        cases hpush : pushCueText caps buf s line with
        | error e =>
          rw [hpush] at hnone
          cases hnone
        | ok buf' =>
          rw [pushCueText_extends hle _ _ _ line' _ hpush]

lemma Ass.meets_cleanText (raw : List Char) (line : ℕ) :
    Meets (fun o => ∀ text ∈ o, GoodText caps text) Rejects (Ass.cleanText caps raw line) := by
  rw [Ass.cleanText_eq_runPieces, Ass.runPieces_eq]
  generalize Ass.pieces raw = pieces
  split_ifs
  · rintro _ ⟨⟩
  · have hgood : GoodText caps (pieces.foldl (Ass.noteShown caps line) ([], none)).1 :=
      Ass.goodText_foldl goodText_nil
    generalize pieces.foldl (Ass.noteShown caps line) ([], none) = out at hgood
    obtain ⟨buf, overflow⟩ := out
    cases overflow with
    | some e => exact meets_reject e
    | none =>
      rintro _ ⟨⟩
      exact hgood

lemma Ass.cleanText_extends (hle : caps.Le caps') (raw : List Char) (line line' : ℕ) :
    Extends (Ass.cleanText caps raw line) (Ass.cleanText caps' raw line') := by
  rw [Ass.cleanText_eq_runPieces, Ass.cleanText_eq_runPieces, Ass.runPieces_eq, Ass.runPieces_eq]
  generalize Ass.pieces raw = pieces
  split_ifs
  · exact .refl _
  · intro o ho
    cases hfold : pieces.foldl (Ass.noteShown caps line) ([], none) with
    | mk buf overflow =>
      rw [hfold] at ho
      cases overflow with
      | some e => cases ho
      | none =>
        have hsame : pieces.foldl (Ass.noteShown caps' line') ([], none) =
            pieces.foldl (Ass.noteShown caps line) ([], none) :=
          Ass.foldl_agrees hle (fun _ => rfl) (by rw [hfold])
        rw [hsame, hfold]
        exact ho

lemma Ass.meets_parseStamp (s : List Char) (line : ℕ) :
    Meets (· ≤ caps.maxTimestampMs) Rejects (Ass.parseStamp caps s line) := by
  unfold Ass.parseStamp
  split
  · exact meets_orReject.bind fun _ _ _ => meets_orReject.bind fun _ _ _ =>
      meets_orReject.bind fun _ _ _ => meets_orReject.bind fun _ _ _ =>
        meets_orReject.bind fun _ _ _ => meets_timestampToMs _ _ _ _ _
  · exact meets_reject _

lemma Ass.parseStamp_extends (hle : caps.Le caps') (s : List Char) (line line' : ℕ) :
    Extends (Ass.parseStamp caps s line) (Ass.parseStamp caps' s line') := by
  unfold Ass.parseStamp
  split
  · exact orReject_extends.bind fun _ => orReject_extends.bind fun _ =>
      orReject_extends.bind fun _ =>
      orReject_extends.bind fun _ => orReject_extends.bind fun _ =>
        timestampToMs_extends hle _ _ _ _ _ _
  · exact .of_error

lemma Ass.meets_parseDialogue (value : List Char) (cols : Ass.Columns) (line : ℕ) :
    Meets (fun o => ∀ c ∈ o, GoodCue caps c) Rejects (Ass.parseDialogue caps value cols line) := by
  have dropped : Meets (fun o => ∀ c ∈ o, GoodCue caps c) Rejects
      (.ok none : Parsed (Option Cue)) := by
    rintro _ ⟨⟩
  unfold Ass.parseDialogue
  dsimp only
  split_ifs
  · exact dropped
  · split
    · refine (Ass.meets_parseStamp _ _).bind fun startMs _ _ =>
        (Ass.meets_parseStamp _ _).bind fun endMs _ hend => ?_
      unfold checkOrder
      split_ifs with horder
      · exact meets_reject _
      · refine Meets.bind (P := fun _ => True) trivial fun _ _ _ =>
          (Ass.meets_cleanText _ _).bind fun text _ htext => ?_
        cases text with
        | none => exact dropped
        | some text =>
          dsimp only
          split_ifs with hblank
          · exact dropped
          · rintro _ ⟨⟩
            exact ⟨Nat.le_of_not_lt horder, hend, htext text rfl, by simpa using hblank⟩
    · exact dropped

lemma Ass.parseDialogue_extends (hle : caps.Le caps') (value : List Char) (cols : Ass.Columns)
    (line line' : ℕ) :
    Extends (Ass.parseDialogue caps value cols line)
      (Ass.parseDialogue caps' value cols line') := by
  unfold Ass.parseDialogue
  dsimp only
  split_ifs
  · exact .refl _
  · split
    · exact (Ass.parseStamp_extends hle _ _ _).bind fun _ => (Ass.parseStamp_extends hle _ _ _).bind
        fun _ => checkOrder_extends.bind fun _ => (Ass.cleanText_extends hle _ _ _).bind fun _ =>
          .refl _
    · exact .refl _

/-- What ASS has collected. -/
def Ass.Good (caps : Caps) (s : Ass.State) : Prop := GoodCues caps s.cues

lemma Ass.meets_parseFormat (value : List Char) (line : ℕ) :
    Meets (fun _ => True) Rejects (Ass.parseFormat value line) := by
  unfold Ass.parseFormat
  dsimp only
  split
  · split_ifs
    · exact meets_reject _
    · trivial
  · exact meets_reject _

lemma Ass.parseFormat_extends (value : List Char) (line line' : ℕ) :
    Extends (Ass.parseFormat value line) (Ass.parseFormat value line') := by
  unfold Ass.parseFormat
  dsimp only
  split
  · split_ifs
    · exact .of_error
    · exact .refl _
  · exact .of_error

lemma Ass.meets_dialogue (value : List Char) (line : ℕ) (s : Ass.State) (h : Ass.Good caps s) :
    Meets (Ass.Good caps) Rejects (Ass.dialogue caps value line s) := by
  refine meets_orReject.bind fun cols _ _ => (Ass.meets_parseDialogue _ _ _).bind
    fun cue _ hcue => ?_
  cases cue with
  | none => exact h
  | some cue =>
    exact (meets_checkCueCount _).bind fun _ _ hcount => GoodCues.push h (hcue cue rfl) hcount

lemma Ass.dialogue_extends (hle : caps.Le caps') (value : List Char) (line line' : ℕ)
    (s : Ass.State) :
    Extends (Ass.dialogue caps value line s) (Ass.dialogue caps' value line' s) := by
  refine orReject_extends.bind fun cols => (Ass.parseDialogue_extends hle _ _ _ _).bind
    fun cue => ?_
  cases cue with
  | none => exact .refl _
  | some cue => exact (checkCueCount_extends hle _).bind fun _ => .refl _

lemma Ass.meets_line (index : ℕ) (raw : List Char) (s : Ass.State) (h : Ass.Good caps s) :
    Meets (Ass.Good caps) Rejects (Ass.line caps index raw s) := by
  unfold Ass.line
  dsimp only
  split
  · exact h
  · split_ifs
    · exact h
    · split
      · exact h
      · split_ifs
        · exact (Ass.meets_parseFormat _ _).bind fun _ _ _ => h
        · exact Ass.meets_dialogue _ _ _ h
        · exact h

lemma Ass.line_extends (hle : caps.Le caps') (index index' : ℕ) (raw : List Char) (s : Ass.State) :
    Extends (Ass.line caps index raw s) (Ass.line caps' index' raw s) := by
  unfold Ass.line
  dsimp only
  split
  · exact .refl _
  · split_ifs
    · exact .refl _
    · split
      · exact .refl _
      · split_ifs
        · exact (Ass.parseFormat_extends _ _ _).bind fun _ => .refl _
        · exact Ass.dialogue_extends hle _ _ _ _
        · exact .refl _

lemma Ass.meets_parse (text : List Char) :
    Meets (GoodCues caps) Rejects (Ass.parse caps text) := by
  refine (meets_splitLines text).bind fun lines _ _ => ?_
  refine (Meets.items (I := Ass.Good caps) (show Ass.Good caps ⟨[], _, _, _⟩ from goodCues_nil)
    fun n raw _ s hs => Ass.meets_line n raw s hs).bind fun s _ hs => ?_
  split_ifs
  · exact meets_reject _
  · exact hs

lemma Ass.parse_extends (hle : caps.Le caps') (text : List Char) :
    Extends (Ass.parse caps text) (Ass.parse caps' text) :=
  (splitLines_extends hle text).bind fun _ =>
    (Extends.items (Ass.line_extends hle)).bind fun _ => .refl _

/-! ### The gate -/

lemma meets_parseFormat (fmt : SubtitleFormat) (text : List Char) :
    Meets (GoodCues caps) Rejects (parseFormat caps fmt text) := by
  cases fmt with
  | srt => exact Srt.meets_parse text
  | vtt => exact Vtt.meets_parse text
  | ass => exact Ass.meets_parse text

lemma parseFormat_extends (hle : caps.Le caps') (fmt : SubtitleFormat) (text : List Char) :
    Extends (parseFormat caps fmt text) (parseFormat caps' fmt text) := by
  cases fmt with
  | srt => exact Srt.parse_extends hle text
  | vtt => exact Vtt.parse_extends hle text
  | ass => exact Ass.parse_extends hle text

end Locast.Subtitles

import Locast.Subtitles.Written
import Locast.Subtitles.Events
import Locast.Subtitles.Writer

/-!
# What is written is read back

A file that a grammar gives for a list of cues is read as these cues, in order of their starts,
however its lines are ended and its text is encoded.  One SRT text behind another is read as the
cues of both.
-/

namespace Locast.Subtitles

open Locast.Lib

variable {caps : Caps} {fmt : SubtitleFormat} {cues : List Cue} {lines : List (List Char)}
  {text : List Char}

/-! ### The three parsers -/

lemma splitLines_of_fits {bytes : List UInt8} (hlines : linesOf text = lines)
    (h : Fits caps lines text bytes) : splitLines caps text = .ok lines := by
  subst hlines
  exact splitLines_eq_ok_iff.2 ⟨rfl, h.lineCount, h.lineBytes⟩

lemma Srt.parse_eq (hmax : caps.maxCues < 2 ^ 32) (hcap : caps.maxTimestampMs < 2 ^ 32)
    (hlines : splitLines caps text = .ok lines)
    (h : Blocks (IsTimingLine Srt.IsStamp) Srt.IsIdent cues lines)
    (hcues : ∀ c ∈ cues, CanonicalCue caps .srt c) (hcount : cues.length ≤ caps.maxCues) :
    Srt.parse caps text = .ok cues := by
  rw [Srt.parse, hlines]
  change _ = Except.ok ([] ++ cues)
  exact (Srt.readsBlocks hmax hcap).run h hcues (by simpa using hcount)

lemma Vtt.parse_eq (hmax : caps.maxCues < 2 ^ 32) (hcap : caps.maxTimestampMs < 2 ^ 32)
    {header : List Char} (hheader : Vtt.isHeader header = true)
    (hlines : splitLines caps text = .ok (header :: lines))
    (h : Blocks (IsTimingLine Vtt.IsStamp) Vtt.IsIdent cues lines)
    (hcues : ∀ c ∈ cues, CanonicalCue caps .vtt c) (hcount : cues.length ≤ caps.maxCues) :
    Vtt.parse caps text = .ok cues := by
  rw [Vtt.parse, hlines]
  change (if Vtt.isHeader header = true then _ else _ : Parsed _) = _
  rw [if_pos hheader]
  change _ = Except.ok ([] ++ cues)
  exact (Vtt.readsBlocks hmax hcap).run h hcues (by simpa using hcount)

lemma Ass.run_before {before : List (List Char)}
    (h : ∀ l ∈ before, ∀ name, Ass.IsHeader name l → Ass.isEvents name = false) (n : ℕ) :
    eachItem (Ass.line caps) n before ⟨[], false, false, none⟩ = .ok ⟨[], false, false, none⟩ := by
  induction before generalizing n with
  | nil => rfl
  | cons l before ih =>
    rw [eachItem, Ass.line_before (h l List.mem_cons_self)]
    exact ih (fun l' hl' => h l' (List.mem_cons_of_mem _ hl')) (n + 1)

lemma Ass.parse_eq (hmax : caps.maxCues < 2 ^ 32) (hcap : caps.maxTimestampMs < 2 ^ 32)
    {before names : List (List Char)} {events header : List Char} {cols : Ass.Columns}
    (hbefore : ∀ l ∈ before, ∀ name, Ass.IsHeader name l → Ass.isEvents name = false)
    (hevents : Ass.isEvents events = true) (hheader : Ass.IsHeader events header)
    (hformat : Ass.IsFormat cols names)
    (hlines : splitLines caps text =
      .ok (before ++ header :: (Ass.formatKey ++ Ass.commaJoin names) :: lines))
    (h : Ass.Events cols cues lines) (hcues : ∀ c ∈ cues, CanonicalCue caps .ass c)
    (hcount : cues.length ≤ caps.maxCues) : Ass.parse caps text = .ok cues := by
  have hrun : eachItem (Ass.line caps) 0
      (before ++ header :: (Ass.formatKey ++ Ass.commaJoin names) :: lines)
        ⟨[], false, false, none⟩ =
      .ok ⟨cues, true, true, some cols⟩ := by
    rw [eachItem_append, Ass.run_before hbefore]
    change eachItem (Ass.line caps) _ (header :: _) _ = _
    rw [eachItem, Ass.line_header hheader hevents]
    change eachItem (Ass.line caps) _ (_ :: lines) _ = _
    rw [eachItem, Ass.line_format hformat]
    change _ = Except.ok (⟨[] ++ cues, true, true, some cols⟩ : Ass.State)
    exact Ass.run_events hcap hmax h hcues (by simpa using hcount)
  rw [Ass.parse, hlines]
  change (eachItem (Ass.line caps) 0 _ _ >>= _ : Parsed _) = _
  rw [hrun]
  rfl

/-- **Each parser reads its grammar.** -/
lemma parseFormat_eq (hmax : caps.maxCues < 2 ^ 32) (hcap : caps.maxTimestampMs < 2 ^ 32)
    (h : Renders fmt cues lines) (hlines : splitLines caps text = .ok lines)
    (hcues : ∀ c ∈ cues, CanonicalCue caps fmt c) (hcount : cues.length ≤ caps.maxCues) :
    parseFormat caps fmt text = .ok cues := by
  cases h with
  | srt h => exact Srt.parse_eq hmax hcap hlines h hcues hcount
  | vtt hheader h => exact Vtt.parse_eq hmax hcap hheader hlines h hcues hcount
  | ass hbefore hevents hheader hformat h =>
    exact Ass.parse_eq hmax hcap hbefore hevents hheader hformat hlines h hcues hcount

/-! ### The gate -/

lemma finalizeCues_eq (hmax : caps.maxCues < 2 ^ 32) (hne : cues ≠ [])
    (hcues : ∀ c ∈ cues, isBlank c.text = false) (hcount : cues.length ≤ caps.maxCues) :
    finalizeCues caps cues = .ok (sortByStart cues) := by
  have hfilter : cues.filter (fun c => !isBlank c.text) = cues :=
    List.filter_eq_self.2 fun c hc => by simp [hcues c hc]
  rw [finalizeCues, hfilter, checkCueCount_eq hmax hcount]
  change (if cues.isEmpty = true then _ else _ : Parsed _) = _
  rw [if_neg (by simpa using hne)]

/-- What is on a line is in the text. -/
lemma mem_of_written (h : Written lines text) {l : List Char} (hl : l ∈ lines) :
    ∀ c ∈ l, c ∈ text := by
  obtain ⟨-, -, -⟩ := h
  rename_i ended last
  intro c hc
  rcases List.mem_append.1 hl with hl | hl
  · obtain ⟨e, he, rfl⟩ := List.mem_map.1 hl
    exact List.mem_append_left _ (List.mem_flatMap.2 ⟨e, he, List.mem_append_left _ hc⟩)
  · split_ifs at hl
    · cases hl
    · obtain rfl := List.mem_singleton.1 hl
      exact List.mem_append_right _ hc

lemma not_isBlank_of_written (h : Written lines text) {l : List Char} (hl : l ∈ lines)
    (hblank : isBlank l = false) : isBlank text = false := by
  rw [← Bool.not_eq_true, isBlank_iff] at hblank ⊢
  exact fun hall => hblank fun c hc => hall c (mem_of_written h hl c hc)

lemma exists_of_blocks {IsTiming : ℕ → ℕ → List Char → Prop} {IsIdent : List Char → Prop}
    (h : Blocks IsTiming IsIdent cues lines) (hne : cues ≠ []) :
    ∃ l ∈ lines, isBlank l = false := by
  have hblock {c : Cue} {block : List (List Char)} (h : IsBlock IsTiming IsIdent c block) :
      ∃ l ∈ block, isBlank l = false := by
    obtain ⟨-, -, hplain, -⟩ := h
    exact ⟨_, by simp, (hplain _ List.mem_cons_self).notBlank⟩
  induction h with
  | nil => exact absurd rfl hne
  | blank b _ _ ih =>
    obtain ⟨l, hl, hblank⟩ := ih hne
    exact ⟨l, List.mem_cons_of_mem _ hl, hblank⟩
  | last h => exact hblock h
  | cue b h _ _ _ =>
    obtain ⟨l, hl, hblank⟩ := hblock h
    exact ⟨l, List.mem_append_left _ hl, hblank⟩

/-- A file of cues is not blank. -/
lemma exists_of_renders (h : Renders fmt cues lines) (hne : cues ≠ []) :
    ∃ l ∈ lines, isBlank l = false := by
  cases h with
  | srt h => exact exists_of_blocks h hne
  | vtt hheader h =>
    obtain ⟨l, hl, hblank⟩ := exists_of_blocks h hne
    exact ⟨l, List.mem_cons_of_mem _ hl, hblank⟩
  | @ass _ _ _ names _ _ _ hbefore hevents hheader hformat h =>
    refine ⟨Ass.formatKey ++ Ass.commaJoin names, by simp, ?_⟩
    rw [← Bool.not_eq_true, isBlank_iff]
    exact fun hall => absurd (hall 'F' (by simp [Ass.formatKey])) (by decide)

/-- **Files are read back.** -/
lemma parseSubtitle_eq (hmax : caps.maxCues < 2 ^ 32) (hcap : caps.maxTimestampMs < 2 ^ 32)
    {enc : Encoding} (hne : cues ≠ []) (hcount : cues.length ≤ caps.maxCues)
    (hcues : ∀ c ∈ cues, CanonicalCue caps fmt c) (h : Renders fmt cues lines)
    (hwritten : Written lines text) (hfits : Fits caps lines text (enc.encode text)) :
    parseSubtitle caps fmt (enc.encode text) = .ok (sortByStart cues) := by
  obtain ⟨l, hl, hblank⟩ := exists_of_renders h hne
  have hsplit := splitLines_of_fits (linesOf_of_written hwritten) hfits
  rw [parseSubtitle, decodeText_encode hfits (not_isBlank_of_written hwritten hl hblank)]
  change (parseFormat caps fmt text >>= _ : Parsed _) = _
  rw [parseFormat_eq hmax hcap h hsplit hcues hcount]
  exact finalizeCues_eq hmax hne (fun c hc => (hcues c hc).text.notBlank) hcount

/-! ### One SRT text behind another -/

lemma linesFrom_append_ending {e : Ending} {rest : List Char} (h : e = .cr → rest.head? ≠ some '\n')
    (a cur : List Char) : ∃ k, linesFrom (a ++ (e.chars ++ rest)) cur =
      linesFrom a cur ++ (List.replicate k [] ++ linesOf rest) := by
  have hfeed : (e.chars ++ rest).head? = some '\n' → e = .lf := fun hlf =>
    (eq_nil_of_head? (l := []) (by rintro _ ⟨⟩) hlf).2
  fun_induction linesFrom a cur with
  | case1 => exact ⟨1, linesFrom_ending h []⟩
  | case2 cur => exact ⟨0, linesFrom_ending h cur⟩
  | case3 c cur hc =>
    rw [List.singleton_append, linesFrom_cons, if_pos hc]
    split_ifs with hcrlf
    · obtain rfl := hfeed hcrlf.2
      exact ⟨0, rfl⟩
    · rw [linesFrom_ending h]
      exact ⟨1, rfl⟩
  | case4 c cur hc =>
    rw [List.singleton_append, linesFrom_cons, if_neg hc, linesFrom_ending h]
    exact ⟨0, rfl⟩
  | case5 c d a cur hc ih ih' =>
    rw [List.cons_append, linesFrom_cons, if_pos hc]
    simp only [List.cons_append, List.head?_cons, Option.some_inj, List.tail_cons]
    split_ifs
    · obtain ⟨k, hk⟩ := ih
      exact ⟨k, congrArg _ hk⟩
    · obtain ⟨k, hk⟩ := ih'
      exact ⟨k, congrArg _ hk⟩
  | case6 c d a cur hc ih =>
    obtain ⟨k, hk⟩ := ih
    exact ⟨k, by rw [List.cons_append, linesFrom_cons, if_neg hc, hk]⟩

/-- A blank line, and the lines of what follows it. -/
lemma linesOf_blank {w : List Char} (hw : Unbroken w) (e : Ending) (b : List Char) :
    ∃ bs, linesOf (w ++ (e.chars ++ b)) = w :: bs ∧ (linesOf b = bs ∨ linesOf b = [] :: bs) := by
  by_cases h : e = .cr ∧ b.head? = some '\n'
  · obtain ⟨rfl, hhead⟩ := h
    obtain ⟨b, rfl⟩ := List.head?_eq_some_iff.1 hhead
    have hcrlf : Ending.cr.chars ++ '\n' :: b = Ending.crlf.chars ++ b := rfl
    refine ⟨linesOf b, ?_, .inr ?_⟩
    · rw [hcrlf, linesOf_append_ending hw (by rintro ⟨⟩)]
    · exact linesOf_append_ending (l := []) (e := .lf) (by rintro _ ⟨⟩) (by rintro ⟨⟩)
  · exact ⟨linesOf b, linesOf_append_ending hw fun he hhead => h ⟨he, hhead⟩, .inl rfl⟩

lemma flush_grows {p : Option Pending} {before out : List Cue} (h : flush caps p before = .ok out) :
    before.length ≤ out.length := by
  cases p with
  | none =>
    cases h
    exact le_rfl
  | some p =>
    rw [flush] at h
    split_ifs at h
    · cases h
      exact le_rfl
    · obtain ⟨-, -, h⟩ := bind_eq_ok.1 h
      cases h
      simp

/-- What is pending goes behind whatever there is. -/
lemma flush_behind (hmax : caps.maxCues < 2 ^ 32) {p : Option Pending} {before cues out : List Cue}
    (h : flush caps p cues = .ok out) (hlen : before.length + out.length ≤ caps.maxCues) :
    flush caps p (before ++ cues) = .ok (before ++ out) := by
  cases p with
  | none =>
    cases h
    rfl
  | some p =>
    rw [flush] at h ⊢
    split_ifs at h ⊢
    · cases h
      rfl
    · obtain ⟨-, -, h⟩ := bind_eq_ok.1 h
      cases h
      have hcount : (before ++ cues).length + 1 ≤ caps.maxCues := by
        simp only [List.length_append, List.length_singleton] at hlen ⊢
        omega
      rw [checkCueCount_eq hmax hcount, ← List.append_assoc]
      rfl

namespace Srt

variable {s s' : Srt.State} {n m : ℕ} {raw : List Char}

lemma line_grows (h : Srt.line caps n raw s = .ok s') : s.cues.length ≤ s'.cues.length := by
  unfold Srt.line at h
  by_cases hblank : isBlank raw = true
  · rw [if_pos hblank] at h
    obtain ⟨out, hflush, h⟩ := bind_eq_ok.1 h
    cases h
    exact flush_grows hflush
  · rw [if_neg hblank] at h
    cases hp : s.pending with
    | none =>
      rw [hp] at h
      dsimp only at h
      split_ifs at h
      · obtain ⟨cue, -, h⟩ := bind_eq_ok.1 h
        cases h
        exact le_rfl
      · cases h
        exact le_rfl
    | some p =>
      rw [hp] at h
      obtain ⟨piece, -, h⟩ := bind_eq_ok.1 h
      obtain ⟨text, -, h⟩ := bind_eq_ok.1 h
      cases h
      exact le_rfl

/-- A line does the same behind other cues, as long as they fit. -/
lemma line_behind (hmax : caps.maxCues < 2 ^ 32) {before : List Cue}
    (h : Srt.line caps n raw s = .ok s') (hlen : before.length + s'.cues.length ≤ caps.maxCues) :
    Srt.line caps n raw ⟨before ++ s.cues, s.pending⟩ = .ok ⟨before ++ s'.cues, s'.pending⟩ := by
  unfold Srt.line at h ⊢
  by_cases hblank : isBlank raw = true
  · rw [if_pos hblank] at h ⊢
    obtain ⟨out, hflush, h⟩ := bind_eq_ok.1 h
    cases h
    rw [flush_behind hmax hflush hlen]
    rfl
  · rw [if_neg hblank] at h ⊢
    cases hp : s.pending with
    | none =>
      rw [hp] at h
      dsimp only at h ⊢
      split_ifs at h ⊢
      · obtain ⟨cue, hcue, h⟩ := bind_eq_ok.1 h
        cases h
        rw [hcue]
        rfl
      · cases h
        rw [hp]
    | some p =>
      rw [hp] at h
      obtain ⟨piece, hpiece, h⟩ := bind_eq_ok.1 h
      obtain ⟨text, htext, h⟩ := bind_eq_ok.1 h
      cases h
      exact bind_eq_ok.2 ⟨piece, hpiece, bind_eq_ok.2 ⟨text, htext, rfl⟩⟩

lemma run_grows (h : eachItem (Srt.line caps) n lines s = .ok s') :
    s.cues.length ≤ s'.cues.length := by
  induction lines generalizing n s with
  | nil =>
    cases h
    exact le_rfl
  | cons raw lines ih =>
    obtain ⟨mid, hline, h⟩ := bind_eq_ok.1 h
    exact (line_grows hline).trans (ih h)

lemma run_behind (hmax : caps.maxCues < 2 ^ 32) {before : List Cue}
    (h : eachItem (Srt.line caps) n lines s = .ok s')
    (hlen : before.length + s'.cues.length ≤ caps.maxCues) :
    eachItem (Srt.line caps) n lines ⟨before ++ s.cues, s.pending⟩ =
      .ok ⟨before ++ s'.cues, s'.pending⟩ := by
  induction lines generalizing n s with
  | nil =>
    cases h
    rfl
  | cons raw lines ih =>
    obtain ⟨mid, hline, h⟩ := bind_eq_ok.1 h
    have hmid := run_grows h
    rw [eachItem, line_behind hmax hline (by omega)]
    exact ih h

lemma run_blank {b : List Char} (hb : isBlank b = true) {blanks : List (List Char)}
    (hblanks : ∀ b ∈ blanks, isBlank b = true) {out : List Cue}
    (h : flush caps s.pending s.cues = .ok out) :
    eachItem (Srt.line caps) n (blanks ++ [b]) s = .ok ⟨out, none⟩ := by
  induction blanks generalizing n s with
  | nil =>
    rw [List.nil_append, eachItem, Srt.line, if_pos hb, h]
    rfl
  | cons b' blanks ih =>
    rw [List.cons_append, eachItem, Srt.line, if_pos (hblanks b' List.mem_cons_self), h]
    exact ih (fun c hc => hblanks c (List.mem_cons_of_mem _ hc)) rfl

/-- Where a line stands does not matter. -/
lemma run_index (h : eachItem (Srt.line caps) n lines s = .ok s') (m : ℕ) :
    eachItem (Srt.line caps) m lines s = .ok s' :=
  Extends.items (Srt.line_extends ⟨le_rfl, le_rfl, le_rfl, le_rfl, le_rfl, le_rfl⟩) s' h

/-- **One text behind another.** -/
lemma parse_append (hmax : caps.maxCues < 2 ^ 32) {a b blank : List Char} {e e' : Ending}
    {ca cb : List Cue} (ha : Srt.parse caps a = .ok ca) (hb : Srt.parse caps b = .ok cb)
    (hblank : isBlank blank = true)
    (hline : Unbroken blank) (hapart : ¬(e = .cr ∧ blank = [] ∧ e' = .lf))
    (hlines : splitLines caps (a ++ (e.chars ++ (blank ++ (e'.chars ++ b)))) = .ok lines)
    (hlen : ca.length + cb.length ≤ caps.maxCues) :
    Srt.parse caps (a ++ (e.chars ++ (blank ++ (e'.chars ++ b)))) = .ok (ca ++ cb) := by
  obtain ⟨la, hla, ha⟩ := bind_eq_ok.1 ha
  obtain ⟨sa, hsa, hca⟩ := bind_eq_ok.1 ha
  obtain ⟨lb, hlb, hb⟩ := bind_eq_ok.1 hb
  obtain ⟨sb, hsb, hcb⟩ := bind_eq_ok.1 hb
  obtain ⟨bs, hbs, hrest⟩ := linesOf_blank hline e' b
  have hhead : e = .cr → (blank ++ (e'.chars ++ b)).head? ≠ some '\n' := fun he hlf =>
    hapart ⟨he, eq_nil_of_head? hline hlf⟩
  obtain ⟨k, hk⟩ := linesFrom_append_ending hhead a []
  have hall : lines = la ++ ((List.replicate k [] ++ [blank]) ++ bs) := by
    rw [(splitLines_eq_ok_iff.1 hlines).1, (splitLines_eq_ok_iff.1 hla).1, linesOf, hk, hbs]
    simp [linesOf]
  -- the second text, from wherever it stands
  have hsecond : eachItem (Srt.line caps) 0 bs ⟨[], none⟩ = .ok sb := by
    rw [(splitLines_eq_ok_iff.1 hlb).1] at hsb
    rcases hrest with hrest | hrest
    · rwa [hrest] at hsb
    · rw [hrest, eachItem, Srt.line, if_pos (by rfl)] at hsb
      exact run_index hsb 0
  have hblanks : ∀ b ∈ List.replicate k ([] : List Char), isBlank b = true := by
    intro b hb
    rw [List.eq_of_mem_replicate hb]
    rfl
  have hgrows := flush_grows hcb
  rw [Srt.parse, hlines]
  change (eachItem (Srt.line caps) 0 lines ⟨[], none⟩ >>= _ : Parsed _) = _
  rw [hall, eachItem_append, hsa]
  change (eachItem (Srt.line caps) _ ((List.replicate k [] ++ [blank]) ++ bs) sa >>= _ : Parsed _) =
    _
  rw [eachItem_append, run_blank hblank hblanks hca]
  change (eachItem (Srt.line caps) _ bs ⟨ca, none⟩ >>= _ : Parsed _) = _
  have hbehind (m : ℕ) : eachItem (Srt.line caps) m bs ⟨ca ++ [], none⟩ =
      .ok ⟨ca ++ sb.cues, sb.pending⟩ := run_behind hmax (run_index hsecond m) (by omega)
  rw [List.append_nil] at hbehind
  rw [hbehind]
  exact flush_behind hmax hcb hlen

end Srt

/-- **Subtitles are read back.**  A file that a grammar gives for cues in canonical form is read as
these cues, by their starts; an SRT text, a blank line and a second SRT text are read as the cues of
the first and then those of the second; and every list of cues in canonical form has such a file. -/
theorem subtitle_round_trip :
    (∀ (fmt : SubtitleFormat) (cues : List Cue) (lines : List (List Char)) (text : List Char)
      (enc : Encoding), cues ≠ [] → cues.length ≤ limits.maxCues →
      (∀ c ∈ cues, CanonicalCue limits fmt c) → Renders fmt cues lines → Written lines text →
      Fits limits lines text (enc.encode text) →
      parseSubtitle limits fmt (enc.encode text) = .ok (sortByStart cues)) ∧
    (∀ (a b blank : List Char) (e e' : Ending) (ca cb : List Cue) (lines : List (List Char)),
      Srt.parse limits a = .ok ca → Srt.parse limits b = .ok cb → isBlank blank = true →
      Unbroken blank → EndedLine.Apart ⟨[], e⟩ ⟨blank, e'⟩ →
      splitLines limits (a ++ (e.chars ++ (blank ++ (e'.chars ++ b)))) = .ok lines →
      ca.length + cb.length ≤ limits.maxCues →
      Srt.parse limits (a ++ (e.chars ++ (blank ++ (e'.chars ++ b)))) = .ok (ca ++ cb)) ∧
    ∀ (fmt : SubtitleFormat) (cues : List Cue), (∀ c ∈ cues, CanonicalCue limits fmt c) →
      ∃ lines text, Renders fmt cues lines ∧ Written lines text ∧ '\x00' ∉ text ∧
        text.head? ≠ some '\uFEFF' := by
  have hmax : limits.maxCues < 2 ^ 32 := by decide
  have hcap : limits.maxTimestampMs < 2 ^ 32 := by decide
  refine ⟨?_, ?_, exists_renders⟩
  · intro fmt cues lines text enc hne hcount hcues hrenders hwritten hfits
    exact parseSubtitle_eq hmax hcap hne hcount hcues hrenders hwritten hfits
  · intro a b blank e e' ca cb lines ha hb hblank hline hapart hlines hlen
    exact Srt.parse_append hmax ha hb hblank hline hapart hlines hlen

/-! ### Two cues -/

namespace TwoCues

/-- A timing line of SRT. -/
def timing (start stop : ℕ) : List Char :=
  [] ++ writeStamp ',' 3 start ++ [' '] ++ (arrow ++ ([' '] ++ writeStamp ',' 3 stop ++ []))

/-- The earlier of two cues, and the later. -/
def early : Cue := ⟨1000, 1500, ['a']⟩

def later : Cue := ⟨5000, 6000, ['b']⟩

lemma plainLine_of {l : List Char} (hblank : isBlank l = false)
    (hplain : (l.all fun c => decide (c ∉ ['<', '>', '{', '}', '&', '\\', '\n']) && !isDroppedChar
      c) = true) :
    PlainLine l := by
  refine ⟨hblank, fun c hc => ?_⟩
  simpa using List.all_eq_true.1 hplain c hc

lemma joinLines_singleton (l : List Char) : l = joinLines [l] := List.intercalate_singleton.symm

/-- A cue of one line. -/
lemma canonicalCue_line {c : Cue} (horder : c.startMs ≤ c.endMs)
    (hcap : c.endMs ≤ limits.maxTimestampMs) (hshort : byteLen c.text ≤ limits.maxCueTextBytes)
    (hline : PlainLine c.text) :
    CanonicalCue limits .srt c where
  order := horder
  cap := hcap
  short := hshort
  text := by
    rw [joinLines_singleton c.text]
    exact .intro c.text [] (by simpa using hline)
  aligned := by rintro ⟨⟩
  trimmed := by rintro ⟨⟩

lemma plainLine_early : PlainLine early.text := plainLine_of rfl rfl

lemma plainLine_later : PlainLine later.text := plainLine_of rfl rfl

lemma canonicalCue_early : CanonicalCue limits .srt early :=
  canonicalCue_line (by decide) (by decide) (by decide) plainLine_early

lemma canonicalCue_later : CanonicalCue limits .srt later :=
  canonicalCue_line (by decide) (by decide) (by decide) plainLine_later

lemma isBlock_line {c : Cue} (hc : CanonicalCue limits .srt c) (hline : PlainLine c.text) :
    IsBlock (IsTimingLine Srt.IsStamp) Srt.IsIdent c [timing c.startMs c.endMs, c.text] := by
  have htiming : IsTimingLine Srt.IsStamp c.startMs c.endMs (timing c.startMs c.endMs) :=
    .intro (Srt.isStamp_writeStamp (hc.order.trans hc.cap))
      (Srt.isStamp_writeStamp hc.cap) rfl rfl rfl
      (by rintro _ ⟨⟩)
  have hident : ∀ i ∈ (none : Option (List Char)), Srt.IsIdent i := by rintro _ ⟨⟩
  exact .intro hident htiming (by simpa using hline) (joinLines_singleton _)

/-- The later cue comes first; the lines end in each of the ways, and the last one in none. -/
def ended : List EndedLine :=
  [⟨timing 5000 6000, .crlf⟩, ⟨['b'], .crlf⟩, ⟨[], .lf⟩, ⟨timing 1000 1500, .cr⟩]

def file : List Char := ended.flatMap EndedLine.chars ++ ['a']

lemma written_file : Written (ended.map (·.line) ++ [['a']]) file := by
  have hchain : ended.IsChain EndedLine.Apart := by
    simp [ended, EndedLine.Apart]
  have hunbroken : ∀ l ∈ ended, Unbroken l.line := by
    have hall : (ended.all fun l => l.line.all fun c => c ≠ '\n' && c ≠ '\r') = true := by
      decide
    intro l hl c hc
    simpa using List.all_eq_true.1 (List.all_eq_true.1 hall l hl) c hc
  have hlast : Unbroken ['a'] := by simp [Unbroken]
  exact .intro hchain hunbroken hlast

lemma fits_file :
    Fits limits (ended.map (·.line) ++ [['a']]) file (Encoding.utf16Le.encode file) where
  input := by decide +kernel
  decoded := by decide +kernel
  lineCount := by decide
  lineBytes := by decide +kernel
  noNul := by decide +kernel
  noMark := by decide +kernel

lemma sortByStart_two : sortByStart [later, early] = [early, later] := by
  rw [sortByStart]
  simp [List.mergeSort, List.MergeSort.Internal.splitInTwo, early, later]

/-- A text of one cue. -/
def alone (c : Cue) : List Char := timing c.startMs c.endMs ++ '\n' :: c.text

/-- Two cues out of order, in UTF-16 and with each of the line endings; and one text behind the
other. -/
theorem subtitle_round_trip_two_cues :
    parseSubtitle limits .srt (Encoding.utf16Le.encode file) = .ok [early, later] ∧
    Srt.parse limits (alone later ++ "\r\n\n".toList ++ alone early) = .ok [later, early] := by
  constructor
  · have hcues : ∀ c ∈ [later, early], CanonicalCue limits .srt c := by
      simp [canonicalCue_later, canonicalCue_early]
    have hrenders : Renders .srt [later, early] (ended.map (·.line) ++ [['a']]) :=
      .srt (.cue [] (isBlock_line canonicalCue_later plainLine_later) rfl
        (.last (isBlock_line canonicalCue_early plainLine_early)))
    rw [subtitle_round_trip.1 .srt [later, early] _ file .utf16Le (by simp)
      (by decide) hcues hrenders written_file fits_file, sortByStart_two]
  · have hlater : Srt.parse limits (alone later) = .ok [later] := by decide
    have hearly : Srt.parse limits (alone early) = .ok [early] := by decide
    have hlines : splitLines limits (alone later ++ (Ending.crlf.chars ++ ([] ++ (Ending.lf.chars ++
        alone early)))) = .ok [timing 5000 6000, ['b'], [], timing 1000 1500, ['a']] := by
          decide
    have hboth := subtitle_round_trip.2.1 (alone later) (alone early) [] .crlf .lf [later]
      [early] _ hlater
      hearly rfl (by simp [Unbroken]) (by simp [EndedLine.Apart]) hlines (by decide)
    rw [List.append_assoc]
    exact hboth

end TwoCues

/-! ### What is not read back -/

namespace NotReadBack

open TwoCues

/-- The blank line between the cues is empty, and its line feed follows a carriage return. -/
def merged : List EndedLine :=
  [⟨timing 1000 1500, .lf⟩, ⟨['a'], .cr⟩, ⟨[], .lf⟩, ⟨timing 5000 6000, .lf⟩, ⟨['b'], .lf⟩]

/-- A cue whose text ends in a space. -/
def spaced : Cue := ⟨1000, 1500, ['a', ' ']⟩

/-- The lines of a file with this cue. -/
def spacedLines : List (List Char) :=
  [] ++ ['[', 'E', 'v', 'e', 'n', 't', 's', ']'] ::
    (Ass.formatKey ++ Ass.commaJoin Ass.writtenNames) :: [Ass.dialogueKey ++ ([] ++ Ass.commaJoin
      ([writeStamp '.' 2 1000, writeStamp '.' 2 1500] ++ [['a', ' ']]))]

lemma renders_spaced : Renders .ass [spaced] spacedLines := by
  have hstart : Ass.IsStamp 1000 (writeStamp '.' 2 1000) :=
    Ass.isStamp_writeStamp (by decide) (by decide)
  have hend : Ass.IsStamp 1500 (writeStamp '.' 2 1500) :=
    Ass.isStamp_writeStamp (by decide) (by decide)
  have hwritten : Ass.IsEscaped ['a', ' '] ['a', ' '] := .char (by decide) (.char (by decide) .nil)
  have hcomma : ∀ f ∈ [writeStamp '.' 2 1000, writeStamp '.' 2 1500], ',' ∉ f := by
    simp only [List.forall_mem_cons]
    exact ⟨Ass.comma_notMem hstart, Ass.comma_notMem hend, by rintro _ ⟨⟩⟩
  have hevent : Ass.IsEvent Ass.writtenColumns spaced (Ass.dialogueKey ++ ([] ++ Ass.commaJoin
      ([writeStamp '.' 2 1000, writeStamp '.' 2 1500] ++ [['a', ' ']]))) :=
    .intro rfl rfl hcomma rfl rfl (by rwa [trim_of_stampChars (Ass.stampChars _ _ hstart).2])
      (by rwa [trim_of_stampChars (Ass.stampChars _ _ hend).2]) hwritten
  have hbefore : ∀ l ∈ ([] : List (List Char)), ∀ name, Ass.IsHeader name l →
      Ass.isEvents name = false := by
    rintro _ ⟨⟩
  exact .ass hbefore rfl ⟨['E', 'v', 'e', 'n', 't', 's'], rfl, rfl⟩ Ass.isFormat_writtenNames
    (.event hevent .nil)

/-- A file without cues, a text of ASS that ends in a space, and an empty line whose line feed
follows the carriage return of the line before it: each is written as its format says. -/
theorem not_subtitle_round_trip :
    (Renders .srt [] [] ∧ parseSubtitle limits .srt (Encoding.utf8.encode []) =
      reject .emptyInput) ∧
    (CanonicalCue limits .srt spaced ∧ 10 ∣ spaced.startMs ∧ 10 ∣ spaced.endMs ∧
      Renders .ass [spaced] spacedLines ∧
      parseSubtitle limits .ass (Encoding.utf8.encode (spacedLines.flatMap (· ++ ['\n']))) =
        .ok [⟨1000, 1500, ['a']⟩]) ∧
    (∀ c ∈ [early, later], CanonicalCue limits .srt c) ∧
      Renders .srt [early, later] (merged.map (·.line)) ∧
      parseSubtitle limits .srt (Encoding.utf8.encode (merged.flatMap EndedLine.chars)) =
        .ok [⟨1000, 1500, 'a' :: '\n' :: timing 5000 6000 ++ ['\n', 'b']⟩] := by
  refine ⟨⟨.srt .nil, by decide +kernel⟩,
    ⟨?_, by decide, by decide, renders_spaced, by decide +kernel⟩, ?_, ?_, by decide +kernel⟩
  · exact canonicalCue_line (by decide) (by decide) (by decide) (plainLine_of rfl rfl)
  · simp [canonicalCue_later, canonicalCue_early]
  · exact .srt (.cue [] (isBlock_line canonicalCue_early plainLine_early) rfl
      (.last (isBlock_line canonicalCue_later plainLine_later)))

end NotReadBack

end Locast.Subtitles

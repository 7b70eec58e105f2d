import Locast.Subtitles.Blocks
import Locast.Subtitles.Gate

/-!
# Events, read back

What stands before the events of an ASS file is skipped, the `Format:` line gives the columns, and a
`Dialogue:` line is cut at them and gives its cue.
-/

namespace Locast.Subtitles

open Locast.Lib

variable {caps : Caps}

/-! ### The columns -/

/-- A field has a name. -/
def Ass.named (name n : List Char) : Bool := Ass.eqIgnoreCase (trim n) name

/-- A field has one name. -/
lemma Ass.not_named {name n : List Char} (name' : List Char) (h : Ass.named name n = true)
    (hne : name.map Char.toLower ≠ name'.map Char.toLower) : Ass.named name' n = false := by
  rw [Ass.named, Ass.eqIgnoreCase, beq_iff_eq] at h
  rw [Ass.named, Ass.eqIgnoreCase, h]
  exact beq_eq_false_iff_ne.2 hne

/-- What one field does to the columns. -/
lemma Ass.formatField_eq (i : ℕ) (n : List Char) (f : Ass.FormatFields) :
    Ass.formatField i n f =
      { count := if (trim n).isEmpty then f.count else i + 1
        start := if Ass.named ['s', 't', 'a', 'r', 't'] n then f.start.or (some i) else f.start
        stop := if Ass.named ['e', 'n', 'd'] n then f.stop.or (some i) else f.stop
        text := if Ass.named ['t', 'e', 'x', 't'] n then f.text.or (some i) else f.text } := by
  have hfield : Ass.formatField i n f =
      let f := if Ass.named ['s', 't', 'a', 'r', 't'] n then { f with start := f.start.or (some i) }
        else if Ass.named ['e', 'n', 'd'] n then { f with stop := f.stop.or (some i) }
        else if Ass.named ['t', 'e', 'x', 't'] n then { f with text := f.text.or (some i) } else f
      if (trim n).isEmpty then f else { f with count := i + 1 } := rfl
  rw [hfield]
  cases hstart : Ass.named ['s', 't', 'a', 'r', 't'] n with
  | true =>
    simp only [Ass.not_named ['e', 'n', 'd'] hstart (by decide),
      Ass.not_named ['t', 'e', 'x', 't'] hstart (by decide)]
    cases (trim n).isEmpty <;> rfl
  | false =>
    cases hend : Ass.named ['e', 'n', 'd'] n with
    | true =>
      simp only [Ass.not_named ['t', 'e', 'x', 't'] hend (by decide)]
      cases (trim n).isEmpty <;> rfl
    | false => cases Ass.named ['t', 'e', 'x', 't'] n <;> cases (trim n).isEmpty <;> rfl

/-- The columns of a list of fields: the first of each name. -/
lemma Ass.formatFields_eq (i : ℕ) (names : List (List Char)) (f : Ass.FormatFields) :
    let f' := Ass.formatFields i names f
    f'.start = f.start.or ((names.findIdx? (Ass.named ['s', 't', 'a', 'r', 't'])).map (i + ·)) ∧
    f'.stop = f.stop.or ((names.findIdx? (Ass.named ['e', 'n', 'd'])).map (i + ·)) ∧
    f'.text = f.text.or ((names.findIdx? (Ass.named ['t', 'e', 'x', 't'])).map (i + ·)) := by
  have hcons (o : Option ℕ) (i : ℕ) (p : List Char → Bool) (n : List Char)
    (names : List (List Char)) :
      (if p n then o.or (some i) else o).or ((names.findIdx? p).map (i + 1 + ·)) =
        o.or (((n :: names).findIdx? p).map (i + ·)) := by
    rw [List.findIdx?_cons]
    cases p n with
    | true => cases o <;> simp
    | false =>
      cases names.findIdx? p with
      | none => simp
      | some k => simp [Nat.add_assoc, Nat.add_comm 1 k]
  induction names generalizing i f with
  | nil => simp [Ass.formatFields]
  | cons n names ih =>
    obtain ⟨hstart, hstop, htext⟩ := ih (i + 1) (Ass.formatField i n f)
    rw [Ass.formatFields]
    refine ⟨hstart.trans ?_, hstop.trans ?_, htext.trans ?_⟩
    · rw [Ass.formatField_eq, hcons]
    · rw [Ass.formatField_eq, hcons]
    · rw [Ass.formatField_eq, hcons]

/-- The last field counts, if it has a name. -/
lemma Ass.formatFields_count (i : ℕ) (names : List (List Char)) (last : List Char)
    (f : Ass.FormatFields) (hlast : trim last ≠ []) :
    (Ass.formatFields i (names ++ [last]) f).count = i + names.length + 1 := by
  induction names generalizing i f with
  | nil =>
    rw [List.nil_append, Ass.formatFields, Ass.formatFields, Ass.formatField_eq]
    exact if_neg (by simpa using hlast)
  | cons n names ih =>
    rw [List.cons_append, Ass.formatFields, ih, List.length_cons]
    omega

/-- **The columns are those that the fields name.** -/
lemma Ass.parseFormat_eq {cols : Ass.Columns} {names : List (List Char)}
    (h : Ass.IsFormat cols names) (line : ℕ) :
    Ass.parseFormat (Ass.commaJoin names) line = .ok cols := by
  have hne : names ≠ [] := by
    rintro rfl
    cases h.start
  have hsplit : (Ass.commaJoin names).splitOn ',' = names :=
    List.splitOn_intercalate ',' h.noComma hne
  obtain ⟨hstart, hstop, htext⟩ := Ass.formatFields_eq 0 names ⟨0, none, none, none⟩
  have hcount : (Ass.formatFields 0 names ⟨0, none, none, none⟩).count = names.length := by
    have hlast := (List.findIdx?_eq_some_iff_getElem.1 h.text).2.1
    rw [← List.dropLast_append_getLast hne, Ass.formatFields_count]
    · rw [List.length_append, List.length_singleton]
      omega
    · intro hnil
      rw [← List.getLast_eq_getElem hne, hnil] at hlast
      exact absurd hlast (by decide)
  have hpos := List.length_pos_of_ne_nil hne
  rw [Ass.parseFormat, hsplit, hstart, hstop, htext, hcount]
  rw [show names.findIdx? (Ass.named _) = some cols.start from h.start,
    show names.findIdx? (Ass.named _) = some cols.stop from h.stop,
    show names.findIdx? (Ass.named _) = some (names.length - 1) from h.text]
  simp only [Option.map_some, Option.none_or, zero_add]
  rw [if_neg (by omega), h.count]

/-- The end of the line is cut off its last field. -/
lemma Ass.rdropWhile_commaJoin (fields : List (List Char)) (last : List Char) :
    (Ass.commaJoin (fields ++ [last])).rdropWhile Rooms.isWhitespace =
      Ass.commaJoin (fields ++ [last.rdropWhile Rooms.isWhitespace]) := by
  induction fields with
  | nil => simp [Ass.commaJoin]
  | cons f fields ih =>
    simp only [Ass.commaJoin, List.cons_append] at ih ⊢
    rw [List.intercalate_cons_of_ne_nil (by simp), List.intercalate_cons_of_ne_nil (by simp),
      rdropWhile_append_of_getLast? (c := ',') (by simp) (by decide), ih]

/-- Names count for what they are without what is blank around them. -/
lemma Ass.IsFormat.rdropWhile {cols : Ass.Columns} {fields : List (List Char)} {last : List Char}
    (h : Ass.IsFormat cols (fields ++ [last])) :
    Ass.IsFormat cols (fields ++ [last.rdropWhile Rooms.isWhitespace]) := by
  have hcolumn (name : List Char) : (fields ++ [last.rdropWhile Rooms.isWhitespace]).findIdx?
      (Ass.named name) = (fields ++ [last]).findIdx? (Ass.named name) := by
    have hnamed : Ass.named name (last.rdropWhile Rooms.isWhitespace) = Ass.named name last := by
      rw [Ass.named, trim, trimWith_rdropWhile]
      rfl
    simp only [List.findIdx?_append, List.findIdx?_cons, hnamed, List.findIdx?_nil]
  refine ⟨fun n hn => ?_, ?_, (hcolumn _).trans h.start, (hcolumn _).trans h.stop, ?_⟩
  · rcases List.mem_append.1 hn with hn | hn
    · exact h.noComma n (List.mem_append_left _ hn)
    · obtain rfl := List.mem_singleton.1 hn
      exact fun hmem => h.noComma last (by simp) ((List.rdropWhile_prefix _ _).subset hmem)
  · simpa using h.count
  · have := h.text
    simp only [Ass.IsColumn, List.length_append, List.length_singleton] at this ⊢
    exact (hcolumn _).trans this

/-! ### Lines -/

lemma Ass.sectionName_eq_some {s name : List Char} :
    Ass.sectionName s = some name ↔ ∃ inner, s = '[' :: (inner ++ [']']) ∧ trim inner = name := by
  constructor
  · intro h
    unfold Ass.sectionName at h
    split at h
    · split_ifs at h with hlast
      obtain ⟨inner, rfl⟩ := List.getLast?_eq_some_iff.1 hlast
      rw [List.dropLast_concat] at h
      exact ⟨inner, rfl, Option.some_inj.1 h⟩
    · cases h
  · rintro ⟨inner, rfl, rfl⟩
    simp [Ass.sectionName]

/-- A line behind a key. -/
lemma trim_key {key rest : List Char} {c d : Char} (hhead : key.head? = some c)
    (hc : Rooms.isWhitespace c = false) (hlast : key.getLast? = some d)
    (hd : Rooms.isWhitespace d = false) :
    trim (key ++ rest) = key ++ rest.rdropWhile Rooms.isWhitespace := by
  obtain ⟨key, rfl⟩ := List.head?_eq_some_iff.1 hhead
  rw [trim, trimWith, List.cons_append, List.dropWhile_cons, if_neg (by simp [hc]),
    ← List.cons_append, rdropWhile_append_of_getLast? hlast hd]

/-- Before the events. -/
lemma Ass.line_before {l : List Char} (h : ∀ name, Ass.IsHeader name l → Ass.isEvents name = false)
    (n : ℕ) : Ass.line caps n l ⟨[], false, false, none⟩ = .ok ⟨[], false, false, none⟩ := by
  rw [Ass.line]
  cases hname : Ass.sectionName (trim l) with
  | none => rfl
  | some name =>
    have hevents : Ass.eqIgnoreCase name ['e', 'v', 'e', 'n', 't', 's'] = false :=
      h name (Ass.sectionName_eq_some.1 hname)
    simp [hevents]

lemma Ass.line_header {l name : List Char} (h : Ass.IsHeader name l)
    (hevents : Ass.isEvents name = true) (n : ℕ) :
    Ass.line caps n l ⟨[], false, false, none⟩ = .ok ⟨[], true, true, none⟩ := by
  have hname : Ass.sectionName (trim l) = some name := Ass.sectionName_eq_some.2 h
  have hevents : Ass.eqIgnoreCase name ['e', 'v', 'e', 'n', 't', 's'] = true := hevents
  rw [Ass.line, hname]
  simp [hevents]

lemma Ass.line_format {cols : Ass.Columns} {names : List (List Char)}
    (h : Ass.IsFormat cols names) (n : ℕ) :
    Ass.line caps n (Ass.formatKey ++ Ass.commaJoin names) ⟨[], true, true, none⟩ =
      .ok ⟨[], true, true, some cols⟩ := by
  have hne : names ≠ [] := by
    rintro rfl
    cases h.start
  obtain ⟨fields, last, rfl⟩ := (List.eq_nil_or_concat' names).resolve_left hne
  have htrim : trim (Ass.formatKey ++ Ass.commaJoin (fields ++ [last])) =
      ['F', 'o', 'r', 'm', 'a', 't'] ++ ':' :: Ass.commaJoin
        (fields ++ [last.rdropWhile Rooms.isWhitespace]) := by
    rw [trim_key (c := 'F') (d := ':') rfl (by decide) rfl (by decide), Ass.rdropWhile_commaJoin]
    rfl
  have hkey (value : List Char) : splitOnceAt (· = ':')
      (['F', 'o', 'r', 'm', 'a', 't'] ++ ':' :: value) =
      some (['F', 'o', 'r', 'm', 'a', 't'], value) := splitOnceAt_append (by simp) (by simp) value
  rw [Ass.line, htrim, hkey]
  change Ass.parseFormat _ (lineNumber n) >>= _ = _
  rw [Ass.parseFormat_eq h.rdropWhile]
  rfl

/-! ### Dialogue -/

lemma SubtitleText.chars {text : List Char} (h : SubtitleText text) :
    ∀ c ∈ text, c ≠ '{' ∧ c ≠ '\\' ∧ isDroppedChar c = false := by
  obtain ⟨l, ls, hplain⟩ := h
  have key : ∀ l' ∈ l :: ls, ∀ c ∈ l', c ≠ '{' ∧ c ≠ '\\' ∧ isDroppedChar c = false := by
    intro l' hl' c hc
    have := ((hplain l' hl').plain c hc).1
    simp only [List.mem_cons, not_or] at this
    exact ⟨this.2.2.1, this.2.2.2.2.2.1, (hplain l' hl').kept c hc⟩
  intro c hc
  rw [joinLines_cons, List.mem_append, List.mem_flatMap] at hc
  rcases hc with hc | ⟨l', hl', hc⟩
  · exact key l List.mem_cons_self c hc
  · rcases List.mem_cons.1 hc with rfl | hc
    · decide
    · exact key l' (List.mem_cons_of_mem _ hl') c hc

/-- **What is written is read back**, from any place in the text on. -/
lemma Ass.cleanLoop_eq {text written : List Char} (h : Ass.IsEscaped text written)
    (hplain : ∀ c ∈ text, c ≠ '{' ∧ c ≠ '\\' ∧ isDroppedChar c = false) (before out : List Char)
    {line : ℕ} (hlen : byteLen (out ++ text) ≤ caps.maxCueTextBytes) :
    Ass.cleanLoop caps (before ++ written) line (byteLen before) (out, none) =
      .ok (some (out ++ text)) := by
  induction h generalizing before out with
  | nil =>
    rw [Ass.cleanLoop_nil (getFrom_append before []), List.append_nil]
    rfl
  | @newline text written n hn _ ih =>
    have hfits : byteLen (out ++ ['\n']) ≤ caps.maxCueTextBytes := by
      simp only [byteLen_append, byteLen_cons, byteLen_nil] at hlen ⊢
      omega
    have hescape : Ass.escapeOf (n :: written) = ('\n', 2) := by
      rcases hn with rfl | rfl <;> rfl
    have hnext : byteLen before + 2 = byteLen (before ++ ['\\', n]) := by
      have hslash : '\\'.utf8Size = 1 := rfl
      have hsize : n.utf8Size = 1 := by rcases hn with rfl | rfl <;> rfl
      simp [hslash, hsize]
    have hafter : getFrom ('\\' :: n :: written) 1 = some (n :: written) :=
      getFrom_append ['\\'] (n :: written)
    rw [Ass.cleanLoop_cons (getFrom_append before _), if_neg (by decide), if_pos rfl, hafter,
      sliced_some_bind, hescape]
    dsimp only
    rw [pushCueChar_eq (by decide) hfits, hnext]
    have := ih (fun c hc => hplain c (List.mem_cons_of_mem _ hc)) (before ++ ['\\', n])
      (out ++ ['\n']) (by simpa using hlen)
    simpa [Ass.note] using this
  | @char text written c hc _ ih =>
    obtain ⟨hopen, hslash, hkept⟩ := hplain c List.mem_cons_self
    have hfits : byteLen (out ++ [c]) ≤ caps.maxCueTextBytes := by
      simp only [byteLen_append, byteLen_cons, byteLen_nil] at hlen ⊢
      omega
    have hpiece : getTo (c :: written) c.utf8Size = some [c] := by
      simpa using getTo_append [c] written
    have hnext : byteLen before + c.utf8Size = byteLen (before ++ [c]) := by simp
    rw [Ass.cleanLoop_cons (getFrom_append before _), if_neg hopen, if_neg hslash, hpiece,
      sliced_some_bind, pushCueText_singleton, pushCueChar_eq hkept hfits, hnext]
    have := ih (fun d hd => hplain d (List.mem_cons_of_mem _ hd)) (before ++ [c]) (out ++ [c])
      (by simpa using hlen)
    simpa [Ass.note] using this

lemma Ass.cleanText_eq {text written : List Char} (h : Ass.IsEscaped text written)
    (htext : SubtitleText text) (hlen : byteLen text ≤ caps.maxCueTextBytes) (line : ℕ) :
    Ass.cleanText caps written line = .ok (some text) :=
  Ass.cleanLoop_eq h htext.chars [] [] hlen

/-- What is written ends as the text does. -/
lemma Ass.getLast?_of_isEscaped {text written : List Char}
    (h : Ass.IsEscaped text written) {d : Char} (hd : text.getLast? = some d) (hne : d ≠ '\n') :
    written.getLast? = some d := by
  induction h with
  | nil => cases hd
  | @newline text written n hn h ih =>
    cases htext : text.getLast? with
    | none =>
      rw [List.getLast?_eq_none_iff.1 htext] at hd
      cases hd
      exact absurd rfl hne
    | some e =>
      rw [List.getLast?_cons, htext] at hd
      cases hd
      rw [List.getLast?_cons, List.getLast?_cons, ih htext]
      rfl
  | @char text written c hc h ih =>
    cases htext : text.getLast? with
    | none =>
      obtain rfl := List.getLast?_eq_none_iff.1 htext
      cases h
      exact hd
    | some e =>
      rw [List.getLast?_cons, htext] at hd
      cases hd
      rw [List.getLast?_cons, ih htext]
      rfl

/-- **An event is read as its cue.** -/
lemma Ass.parseDialogue_eq (hcap : caps.maxTimestampMs < 2 ^ 32) {cols : Ass.Columns} {c : Cue}
    (hc : CanonicalCue caps .ass c) {fields : List (List Char)}
    {startField endField written : List Char}
    (hcount : fields.length + 1 = cols.count) (hcomma : ∀ f ∈ fields, ',' ∉ f)
    (hstart : fields[cols.start]? = some startField) (hend : fields[cols.stop]? = some endField)
    (hstartStamp : Ass.IsStamp c.startMs (trim startField))
    (hendStamp : Ass.IsStamp c.endMs (trim endField)) (htext : Ass.IsEscaped c.text written)
    (line : ℕ) :
    Ass.parseDialogue caps (Ass.commaJoin (fields ++ [written])) cols line = .ok (some c) := by
  have hfields : splitn (· = ',') cols.count (Ass.commaJoin (fields ++ [written])) =
      fields ++ [written] := by
    rw [← hcount]
    exact splitn_intercalate hcomma written
  have hbefore {i : ℕ} {f : List Char} (h : fields[i]? = some f) :
      (fields ++ [written])[i]? = some f := by
    rw [List.getElem?_append_left (List.getElem?_eq_some_iff.1 h).1, h]
  rw [Ass.parseDialogue, hfields, if_neg (by simp [← hcount]), hbefore hstart, hbefore hend,
    List.getLast?_append]
  change Ass.parseStamp caps (trim startField) line >>= _ = _
  rw [Ass.reads_stamp hcap c.startMs _ line hstartStamp (hc.order.trans hc.cap)]
  change Ass.parseStamp caps (trim endField) line >>= _ = _
  rw [Ass.reads_stamp hcap c.endMs _ line hendStamp hc.cap]
  change checkOrder line c.startMs c.endMs >>= _ = _
  rw [checkOrder, if_neg (Nat.not_lt.2 hc.order)]
  change Ass.cleanText caps written line >>= _ = _
  rw [Ass.cleanText_eq htext hc.text hc.short]
  change (if isBlank c.text = true then (.ok none : Parsed (Option Cue)) else _) = _
  rw [hc.text.notBlank]
  rfl

lemma Ass.getLast?_commaJoin (fields : List (List Char)) {last : List Char} {d : Char}
    (hd : last.getLast? = some d) : (Ass.commaJoin (fields ++ [last])).getLast? = some d := by
  induction fields with
  | nil => simpa [Ass.commaJoin] using hd
  | cons f fields ih =>
    rw [Ass.commaJoin] at ih ⊢
    rw [List.cons_append, List.intercalate_cons_of_ne_nil (by simp), List.getLast?_append, ih]
    rfl

/-- What is blank before the first field does not matter. -/
lemma Ass.dropWhile_commaJoin {pad : List Char} (hpad : isBlank pad = true) (f : List Char)
    (fields : List (List Char)) (last : List Char) :
    (pad ++ Ass.commaJoin (f :: fields ++ [last])).dropWhile Rooms.isWhitespace =
      Ass.commaJoin (f.dropWhile Rooms.isWhitespace :: fields ++ [last]) := by
  rw [List.dropWhile_append_of_pos (isBlank_iff.1 hpad)]
  simp only [Ass.commaJoin, List.cons_append]
  rw [List.intercalate_cons_of_ne_nil (by simp), List.intercalate_cons_of_ne_nil (by simp),
    List.append_assoc, List.append_assoc, List.dropWhile_append]
  split_ifs with hnil
  · rw [List.isEmpty_iff.1 hnil]
    rfl
  · rfl

/-- A field without what is blank before it is the same field. -/
lemma Ass.exists_field {f : List Char} {fields : List (List Char)} {i : ℕ} {field : List Char}
    (h : (f :: fields)[i]? = some field) :
    ∃ field', (f.dropWhile Rooms.isWhitespace :: fields)[i]? = some field' ∧
      trim field' = trim field := by
  cases i with
  | zero =>
    obtain rfl := Option.some_inj.1 h
    exact ⟨_, rfl, trimWith_dropWhile f⟩
  | succ i => exact ⟨field, h, rfl⟩

lemma Ass.line_event (hcap : caps.maxTimestampMs < 2 ^ 32) (hmax : caps.maxCues < 2 ^ 32)
    {cols : Ass.Columns} {c : Cue} (hc : CanonicalCue caps .ass c) {l : List Char}
    (h : Ass.IsEvent cols c l) {cues : List Cue} (hlen : cues.length + 1 ≤ caps.maxCues) (n : ℕ) :
    Ass.line caps n l ⟨cues, true, true, some cols⟩ = .ok ⟨cues ++ [c], true, true, some cols⟩ := by
  obtain ⟨hpad, hcount, hcomma, hstart, hend, hstartStamp, hendStamp, htext⟩ := h
  rename_i pad startField endField written fields
  cases fields with
  | nil => cases hstart
  | cons f fields =>
    obtain ⟨d, hd⟩ : ∃ d, c.text.getLast? = some d := by
      cases hlast : c.text.getLast? with
      | some d => exact ⟨d, rfl⟩
      | none =>
        have := hc.text.notBlank
        rw [List.getLast?_eq_none_iff.1 hlast] at this
        exact absurd this (by decide)
    have hws := hc.trimmed rfl d hd
    have hwritten := Ass.getLast?_of_isEscaped htext hd
      (by rintro rfl; exact absurd hws (by decide))
    have htrim : trim (Ass.dialogueKey ++ (pad ++ Ass.commaJoin (f :: fields ++ [written]))) =
        ['D', 'i', 'a', 'l', 'o', 'g', 'u', 'e'] ++
          ':' :: (pad ++ Ass.commaJoin (f :: fields ++ [written])) := by
      have hlast : (Ass.dialogueKey ++ (pad ++ Ass.commaJoin (f :: fields ++ [written]))).getLast? =
          some d := by
        rw [List.getLast?_append, List.getLast?_append, Ass.getLast?_commaJoin _ hwritten]
        rfl
      refine trim_eq_self (by rintro _ ⟨⟩; decide) ?_
      rw [hlast]
      rintro _ ⟨⟩
      exact hws
    have hkey (value : List Char) :
        splitOnceAt (· = ':') (['D', 'i', 'a', 'l', 'o', 'g', 'u', 'e'] ++ ':' :: value) =
          some (['D', 'i', 'a', 'l', 'o', 'g', 'u', 'e'], value) :=
      splitOnceAt_append (by simp) (by simp) value
    obtain ⟨startField', hstart', hstartTrim⟩ := Ass.exists_field hstart
    obtain ⟨endField', hend', hendTrim⟩ := Ass.exists_field hend
    have hcount' : (f.dropWhile Rooms.isWhitespace :: fields).length + 1 = cols.count := hcount
    have hcomma' : ∀ g ∈ f.dropWhile Rooms.isWhitespace :: fields, ',' ∉ g := by
      intro g hg hmem
      rcases List.mem_cons.1 hg with rfl | hg
      · exact hcomma f List.mem_cons_self ((List.dropWhile_sublist _).mem hmem)
      · exact hcomma g (List.mem_cons_of_mem _ hg) hmem
    rw [Ass.line, htrim, hkey]
    change Ass.dialogue caps (pad ++ Ass.commaJoin (f :: fields ++ [written])) (lineNumber n) _ = _
    rw [Ass.dialogue, Ass.dropWhile_commaJoin hpad]
    change (Ass.parseDialogue caps
      (Ass.commaJoin (f.dropWhile Rooms.isWhitespace :: fields ++ [written])) cols
        (lineNumber n) >>= _ : Parsed _) = _
    rw [Ass.parseDialogue_eq hcap hc hcount' hcomma' hstart' hend' (hstartTrim ▸ hstartStamp)
      (hendTrim ▸ hendStamp) htext]
    change (checkCueCount caps (cues.length + 1) >>= _ : Parsed _) = _
    rw [checkCueCount_eq hmax hlen]
    rfl

lemma Ass.line_blank {b : List Char} (hb : isBlank b = true) (n : ℕ) (s : Ass.State) :
    Ass.line caps n b s = .ok s := by
  rw [Ass.line, List.isEmpty_iff.1 hb]
  cases s.inEvents <;> rfl

/-- **Events are read as their cues.** -/
lemma Ass.run_events (hcap : caps.maxTimestampMs < 2 ^ 32) (hmax : caps.maxCues < 2 ^ 32)
    {cols : Ass.Columns} {cues : List Cue} {lines : List (List Char)}
    (h : Ass.Events cols cues lines)
    (hcues : ∀ c ∈ cues, CanonicalCue caps .ass c) {n : ℕ} {before : List Cue}
    (hlen : before.length + cues.length ≤ caps.maxCues) :
    eachItem (Ass.line caps) n lines ⟨before, true, true, some cols⟩ =
      .ok ⟨before ++ cues, true, true, some cols⟩ := by
  induction h generalizing n before with
  | nil =>
    rw [List.append_nil]
    rfl
  | blank b hb _ ih =>
    rw [eachItem, Ass.line_blank hb]
    exact ih hcues hlen
  | @event c cues l lines hl _ ih =>
    simp only [List.length_cons] at hlen
    have hnext : (before ++ [c]).length + cues.length ≤ caps.maxCues := by
      rw [List.length_append, List.length_singleton]
      omega
    rw [eachItem, Ass.line_event hcap hmax (hcues c List.mem_cons_self) hl (by omega)]
    change eachItem (Ass.line caps) (n + 1) lines ⟨before ++ [c], true, true, some cols⟩ = _
    rw [ih (fun d hd => hcues d (List.mem_cons_of_mem _ hd)) hnext, List.append_assoc,
      List.singleton_append]

end Locast.Subtitles

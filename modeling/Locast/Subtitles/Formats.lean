import Locast.Subtitles.Common

/-!
# SRT, WebVTT and ASS (`subtitles/srt.rs`, `vtt.rs`, `ass.rs`, `mod.rs`)

Three machines that read a text line by line, and the gate that decodes the bytes, runs one of them
and puts the cues in order.
-/

namespace Locast.Subtitles

open Locast.Lib

variable (caps : Caps)

/-! ### What the machines share -/

/-- A cue whose text is being collected. -/
structure Pending where
  startMs : ℕ
  endMs : ℕ
  text : List Char
  deriving DecidableEq

def arrow : List Char := ['-', '-', '>']

/-- `flush`, of SRT and of WebVTT. -/
def flush : Option Pending → List Cue → Parsed (List Cue)
  | none, cues => .ok cues
  | some p, cues =>
    if isBlank p.text then .ok cues
    else checkCueCount caps (cues.length + 1) >>= fun _ =>
      .ok (cues ++ [⟨p.startMs, p.endMs, p.text⟩])

/-- `parse_timing_line`, with the stamps of a format. -/
def timingLine (parseStamp : List Char → ℕ → Parsed ℕ) (raw : List Char) (line : ℕ) :
    Parsed Pending :=
  orReject (.badTimestamp line) (splitOnce arrow raw) >>= fun (left, right) =>
    orReject (.badTimestamp line) (firstWord Rooms.isWhitespace right) >>= fun endToken =>
      parseStamp (trim left) line >>= fun startMs =>
        parseStamp endToken line >>= fun endMs =>
          checkOrder line startMs endMs >>= fun _ => .ok ⟨startMs, endMs, []⟩

/-- The scan of `strip_tags`, at offset `i`: an opener looks ahead for its closer, and those whose
closer was not found are not looked for again. -/
def scanTags (closerOf : Char → Option Char) (line : List Char) :
    List Char → (i skipUntil : ℕ) → (gaveUp out : List Char) → Parsed (List Char)
  | [], _, _, _, out => .ok out
  | c :: rest, i, skipUntil, gaveUp, out =>
    if i < skipUntil then scanTags closerOf line rest (i + c.utf8Size) skipUntil gaveUp out
    else match closerOf c with
      | none =>
        scanTags closerOf line rest (i + c.utf8Size) skipUntil gaveUp
          (if isDroppedChar c then out else out ++ [c])
      | some closer =>
        if closer ∈ gaveUp then
          scanTags closerOf line rest (i + c.utf8Size) skipUntil gaveUp (out ++ [c])
        else sliced (getFrom line (i + 1)) >>= fun after =>
          match find closer after with
          | some off =>
            scanTags closerOf line rest (i + c.utf8Size) (i + 1 + off + 1) gaveUp out
          | none =>
            scanTags closerOf line rest (i + c.utf8Size) skipUntil (closer :: gaveUp) (out ++ [c])

/-- A line goes to the text of its cue. -/
def appendLine (text piece : List Char) (line : ℕ) : Except SubtitleError (List Char) :=
  if piece.isEmpty then .ok text
  else (if text.isEmpty then .ok text else pushCueChar caps text '\n' line) >>= fun text =>
    pushCueText caps text piece line

/-! ### SRT -/

namespace Srt

def closerOf (c : Char) : Option Char :=
  if c = '<' then some '>' else if c = '{' then some '}' else none

def stripTags (line : List Char) : Parsed (List Char) := scanTags closerOf line line 0 0 [] []

def field (s : List Char) (maxDigits : ℕ) : Option ℕ :=
  if maxDigits < byteLen s then none else parseDigits s

def parseStamp (s : List Char) (line : ℕ) : Parsed ℕ :=
  match s.splitOn ':' with
  | [hours, minutes, rest] =>
    orReject (.badTimestamp line) (splitOnceAt (fun c => c = ',' || c = '.') rest) >>=
      fun (seconds, frac) =>
        orReject (.badTimestamp line) (field hours 3) >>= fun h =>
          orReject (.badTimestamp line) (field minutes 2) >>= fun m =>
            orReject (.badTimestamp line) (field seconds 2) >>= fun sec =>
              orReject (.badTimestamp line) (fracToMs frac) >>= fun ms =>
                timestampToMs caps line h m sec ms
  | _ => reject (.badTimestamp line)

def parseTimingLine (raw : List Char) (line : ℕ) : Parsed Pending :=
  timingLine (parseStamp caps) raw line

structure State where
  cues : List Cue
  pending : Option Pending
  deriving DecidableEq

/-- The loop body of `parse`. -/
def line (index : ℕ) (raw : List Char) (s : State) : Parsed State :=
  if isBlank raw then flush caps s.pending s.cues >>= fun cues => .ok ⟨cues, none⟩
  else match s.pending with
    | some cue =>
      stripTags raw >>= fun piece =>
        checked (appendLine caps cue.text piece (lineNumber index)) >>= fun text =>
          .ok ⟨s.cues, some { cue with text := text }⟩
    | none =>
      if (splitOnce arrow raw).isSome then
        parseTimingLine caps raw (lineNumber index) >>= fun cue => .ok ⟨s.cues, some cue⟩
      else .ok s

def parse (text : List Char) : Parsed (List Cue) :=
  splitLines caps text >>= fun lines =>
    eachItem (line caps) 0 lines ⟨[], none⟩ >>= fun s => flush caps s.pending s.cues

end Srt

/-! ### WebVTT -/

namespace Vtt

/-- A keyword alone, or followed by a space or a tab. -/
def startsWith (keyword line : List Char) : Bool :=
  match keyword.isPrefixOf? line with
  | some rest => rest.isEmpty || rest.head? = some ' ' || rest.head? = some '\t'
  | none => false

def isHeader (line : List Char) : Bool := startsWith ['W', 'E', 'B', 'V', 'T', 'T'] line

def isSkippedBlockStart (line : List Char) : Bool :=
  startsWith ['N', 'O', 'T', 'E'] line || startsWith ['S', 'T', 'Y', 'L', 'E'] line ||
    startsWith ['R', 'E', 'G', 'I', 'O', 'N'] line

def closerOf (c : Char) : Option Char := if c = '<' then some '>' else none

def stripTags (line : List Char) : Parsed (List Char) := scanTags closerOf line line 0 0 [] []

def entities : List (List Char × List Char) :=
  [(['&', 'a', 'm', 'p', ';'], ['&']), (['&', 'l', 't', ';'], ['<']), (['&', 'g', 't', ';'], ['>']),
    (['&', 'n', 'b', 's', 'p', ';'], [' ']), (['&', 'l', 'r', 'm', ';'], []),
    (['&', 'r', 'l', 'm', ';'], [])]

def matchEntity (rest : List Char) : Option (ℕ × List Char) :=
  (entities.find? fun entity => entity.1.isPrefixOf rest).map fun entity =>
    (byteLen entity.1, entity.2)

/-- The scan of `decode_entities`, at offset `i`. -/
def scanEntities (line : List Char) :
    List Char → (i skipUntil : ℕ) → (out : List Char) → Parsed (List Char)
  | [], _, _, out => .ok out
  | c :: rest, i, skipUntil, out =>
    if i < skipUntil then scanEntities line rest (i + c.utf8Size) skipUntil out
    else if c = '&' then
      sliced (getFrom line i) >>= fun suffix =>
        match matchEntity suffix with
        | some (len, replacement) =>
          scanEntities line rest (i + c.utf8Size) (i + len) (out ++ replacement)
        | none => scanEntities line rest (i + c.utf8Size) skipUntil (out ++ [c])
    else scanEntities line rest (i + c.utf8Size) skipUntil (out ++ [c])

def decodeEntities (line : List Char) : Parsed (List Char) := scanEntities line line 0 0 []

def twoDigitBelow60 (s : List Char) : Option ℕ :=
  if byteLen s ≠ 2 then none else (parseDigits s).filter (· < 60)

/-- The fields of a stamp, once it is cut at the colons. -/
def stampOf (hours minutes rest : List Char) (line : ℕ) : Parsed ℕ :=
  orReject (.badTimestamp line) (splitOnceAt (· = '.') rest) >>= fun (seconds, frac) =>
    orReject (.badTimestamp line) (parseDigits hours) >>= fun h =>
      orReject (.badTimestamp line) (twoDigitBelow60 minutes) >>= fun m =>
        orReject (.badTimestamp line) (twoDigitBelow60 seconds) >>= fun sec =>
          if byteLen frac ≠ 3 then reject (.badTimestamp line)
          else orReject (.badTimestamp line) (fracToMs frac) >>= fun ms =>
            timestampToMs caps line h m sec ms

def parseStamp (s : List Char) (line : ℕ) : Parsed ℕ :=
  match s.splitOn ':' with
  | [minutes, rest] => stampOf caps ['0'] minutes rest line
  | [hours, minutes, rest] => stampOf caps hours minutes rest line
  | _ => reject (.badTimestamp line)

def parseTimingLine (raw : List Char) (line : ℕ) : Parsed Pending :=
  timingLine (parseStamp caps) raw line

/-- At the start of a block, after a possible identifier, or in what is left of a block. -/
inductive Mode where
  | idle
  | afterId
  | skip

structure State where
  cues : List Cue
  pending : Option Pending
  mode : Mode

/-- The loop body of `parse`. -/
def line (index : ℕ) (raw : List Char) (s : State) : Parsed State :=
  if isBlank raw then flush caps s.pending s.cues >>= fun cues => .ok ⟨cues, none, .idle⟩
  else match s.pending with
    | some cue =>
      stripTags raw >>= fun piece =>
        decodeEntities piece >>= fun decoded =>
          checked (appendLine caps cue.text decoded (lineNumber index)) >>= fun text =>
            .ok { s with pending := some { cue with text := text } }
    | none => match s.mode with
      | .idle =>
        if isSkippedBlockStart raw then .ok { s with mode := .skip }
        else if (splitOnce arrow raw).isSome then
          parseTimingLine caps raw (lineNumber index) >>= fun cue =>
            .ok { s with pending := some cue, mode := .skip }
        else .ok { s with mode := .afterId }
      | .afterId =>
        if (splitOnce arrow raw).isSome then
          parseTimingLine caps raw (lineNumber index) >>= fun cue =>
            .ok { s with pending := some cue, mode := .skip }
        else .ok { s with mode := .skip }
      | .skip => .ok s

def parse (text : List Char) : Parsed (List Cue) :=
  splitLines caps text >>= fun lines =>
    match lines with
    | [] => reject .missingHeader
    | first :: rest =>
      if isHeader first then
        eachItem (line caps) 1 rest ⟨[], none, .idle⟩ >>= fun s => flush caps s.pending s.cues
      else reject .missingHeader

end Vtt

/-! ### ASS -/

namespace Ass

/-- The columns of a `Format:` line; the text is the last. -/
structure Columns where
  count : ℕ
  start : ℕ
  stop : ℕ

def eqIgnoreCase (a b : List Char) : Bool := a.map Char.toLower == b.map Char.toLower

def sectionName : List Char → Option (List Char)
  | '[' :: rest => if rest.getLast? = some ']' then some (trim rest.dropLast) else none
  | _ => none

structure FormatFields where
  count : ℕ
  start : Option ℕ
  stop : Option ℕ
  text : Option ℕ

/-- The loop body of `parse_format`. -/
def formatField (i : ℕ) (name : List Char) (f : FormatFields) : FormatFields :=
  let name := trim name
  let f :=
    if eqIgnoreCase name ['s', 't', 'a', 'r', 't'] then { f with start := f.start.or (some i) }
    else if eqIgnoreCase name ['e', 'n', 'd'] then { f with stop := f.stop.or (some i) }
    else if eqIgnoreCase name ['t', 'e', 'x', 't'] then { f with text := f.text.or (some i) }
    else f
  if name.isEmpty then f else { f with count := i + 1 }

def formatFields : ℕ → List (List Char) → FormatFields → FormatFields
  | _, [], f => f
  | i, name :: names, f => formatFields (i + 1) names (formatField i name f)

def parseFormat (value : List Char) (line : ℕ) : Parsed Columns :=
  let f := formatFields 0 (value.splitOn ',') ⟨0, none, none, none⟩
  match f.start, f.stop, f.text with
  | some start, some stop, some text =>
    if text + 1 ≠ f.count then reject (.malformed line "text column must be last")
    else .ok ⟨f.count, start, stop⟩
  | _, _, _ => reject (.malformed line "missing format column")

def twoDigits (s : List Char) : Option ℕ := if byteLen s = 2 then parseDigits s else none

def parseStamp (s : List Char) (line : ℕ) : Parsed ℕ :=
  match s.splitOn ':' with
  | [hours, minutes, rest] =>
    orReject (.badTimestamp line) (splitOnceAt (· = '.') rest) >>= fun (seconds, frac) =>
      orReject (.badTimestamp line) (parseDigits hours) >>= fun h =>
        orReject (.badTimestamp line) (twoDigits minutes) >>= fun m =>
          orReject (.badTimestamp line) (twoDigits seconds) >>= fun sec =>
            orReject (.badTimestamp line) (fracToMs frac) >>= fun ms =>
              timestampToMs caps line h m sec ms
  | _ => reject (.badTimestamp line)

/-- A nonzero number, leading zeros allowed. -/
def startsNonzero (s : List Char) : Bool := (s.dropWhile (· = '0')).head?.any Char.isDigit

def anyDraws (body : List Char) : List ℕ → Parsed Bool
  | [] => .ok false
  | i :: is =>
    sliced (getFrom body (i + 2)) >>= fun rest =>
      if startsNonzero rest then .ok true else anyDraws body is

def enablesDrawing (body : List Char) : Parsed Bool := anyDraws body (matchIndices '\\' 'p' body 0)

/-- A push is tried until one fails; the first error is kept (`note`). -/
def note (out : List Char) (overflow : Option SubtitleError)
    (pushed : Except SubtitleError (List Char)) : List Char × Option SubtitleError :=
  match overflow, pushed with
  | some e, _ => (out, some e)
  | none, .ok out' => (out', none)
  | none, .error e => (out, some e)

/-- The end of `clean_text`. -/
def cleaned : List Char × Option SubtitleError → Parsed (Option (List Char))
  | (_, some e) => reject e
  | (out, none) => .ok (some out)

/-- What `\N`, `\n`, `\h` and a lone backslash stand for, and how many bytes they are. -/
def escapeOf : List Char → Char × ℕ
  | 'N' :: _ | 'n' :: _ => ('\n', 2)
  | 'h' :: _ => (' ', 2)
  | _ => ('\\', 1)

lemma getFrom_lt {raw rest : List Char} {c : Char} {pos : ℕ}
    (h : getFrom raw pos = some (c :: rest)) :
    pos < byteLen raw := by
  obtain ⟨u, rfl, rfl⟩ := getFrom_eq_some h
  have := c.utf8Size_pos
  simp only [byteLen_append, byteLen_cons]
  omega

lemma escapeOf_pos (s : List Char) : 0 < (escapeOf s).2 := by
  unfold escapeOf
  split <;> decide

/-- The scan of `clean_text`, at offset `pos`. -/
def cleanLoop (raw : List Char) (line pos : ℕ) (out : List Char × Option SubtitleError) :
    Parsed (Option (List Char)) :=
  match h : getFrom raw pos with
  | none => .error .badSlice
  | some [] => cleaned out
  | some (c :: rest) =>
    have := getFrom_lt h
    if c = '{' then
      sliced (getFrom (c :: rest) 1) >>= fun inner =>
        match find '}' inner with
        | some off =>
          (sliced (getTo inner off) >>= enablesDrawing) >>= fun draws =>
            if draws then .ok none else cleanLoop raw line (pos + (off + 2)) out
        | none => enablesDrawing inner >>= fun draws => if draws then .ok none else cleaned out
    else if c = '\\' then
      sliced (getFrom (c :: rest) 1) >>= fun after =>
        have := escapeOf_pos after
        cleanLoop raw line (pos + (escapeOf after).2)
          (note out.1 out.2 (pushCueChar caps out.1 (escapeOf after).1 line))
    else
      sliced (getTo (c :: rest) c.utf8Size) >>= fun piece =>
        have := c.utf8Size_pos
        cleanLoop raw line (pos + c.utf8Size) (note out.1 out.2 (pushCueText caps out.1 piece line))
termination_by byteLen raw - pos

def cleanText (raw : List Char) (line : ℕ) : Parsed (Option (List Char)) :=
  cleanLoop caps raw line 0 ([], none)

def parseDialogue (value : List Char) (cols : Columns) (line : ℕ) : Parsed (Option Cue) :=
  let fields := splitn (· = ',') cols.count value
  if fields.length < cols.count then .ok none
  else match fields[cols.start]?, fields[cols.stop]?, fields.getLast? with
    | some startField, some endField, some textField =>
      parseStamp caps (trim startField) line >>= fun startMs =>
        parseStamp caps (trim endField) line >>= fun endMs =>
          checkOrder line startMs endMs >>= fun _ =>
            cleanText caps textField line >>= fun text =>
              match text with
              | none => .ok none
              | some text => if isBlank text then .ok none else .ok (some ⟨startMs, endMs, text⟩)
    | _, _, _ => .ok none

structure State where
  cues : List Cue
  seenEvents : Bool
  inEvents : Bool
  columns : Option Columns

/-- `Dialogue:`, in the events and after a format. -/
def dialogue (value : List Char) (line : ℕ) (s : State) : Parsed State :=
  orReject (.malformed line "dialogue before format") s.columns >>= fun cols =>
    parseDialogue caps (value.dropWhile Rooms.isWhitespace) cols line >>= fun cue =>
      match cue with
      | none => .ok s
      | some cue =>
        checkCueCount caps (s.cues.length + 1) >>= fun _ => .ok { s with cues := s.cues ++ [cue] }

/-- The loop body of `parse`. -/
def line (index : ℕ) (raw : List Char) (s : State) : Parsed State :=
  let line := trim raw
  match sectionName line with
  | some name =>
    let inEvents := eqIgnoreCase name ['e', 'v', 'e', 'n', 't', 's']
    .ok { s with inEvents := inEvents, seenEvents := s.seenEvents || inEvents }
  | none =>
    if s.inEvents = false then .ok s
    else match splitOnceAt (· = ':') line with
      | none => .ok s
      | some (key, value) =>
        if eqIgnoreCase (trim key) ['f', 'o', 'r', 'm', 'a', 't'] then
          parseFormat value (lineNumber index) >>= fun cols => .ok { s with columns := some cols }
        else if eqIgnoreCase (trim key) ['d', 'i', 'a', 'l', 'o', 'g', 'u', 'e'] then
          dialogue caps value (lineNumber index) s
        else .ok s

def parse (text : List Char) : Parsed (List Cue) :=
  splitLines caps text >>= fun lines =>
    eachItem (line caps) 0 lines ⟨[], false, false, none⟩ >>= fun s =>
      if s.seenEvents = false then reject .missingHeader else .ok s.cues

end Ass

/-! ### The gate (`mod.rs`) -/

inductive SubtitleFormat where
  | srt
  | vtt
  | ass
  deriving DecidableEq

/-- The parser of a format. -/
def parseFormat : SubtitleFormat → List Char → Parsed (List Cue)
  | .srt => Srt.parse caps
  | .vtt => Vtt.parse caps
  | .ass => Ass.parse caps

/-- The cues by start; those that start together stay in order. -/
def sortByStart (cues : List Cue) : List Cue :=
  cues.mergeSort fun a b => decide (a.startMs ≤ b.startMs)

def finalizeCues (cues : List Cue) : Parsed (List Cue) :=
  let cues := cues.filter fun c => !isBlank c.text
  checkCueCount caps cues.length >>= fun _ =>
    if cues.isEmpty then reject .noCues else .ok (sortByStart cues)

def parseSubtitle (fmt : SubtitleFormat) (bytes : List UInt8) : Parsed (List Cue) :=
  decodeText caps bytes >>= fun text => parseFormat caps fmt text >>= finalizeCues caps

end Locast.Subtitles

import Locast.Subtitles.Formats

/-!
# Writing subtitles

The grammars of the three formats, as relations: what a stamp, a timing line, a block or an event
is, how lines are ended, and how a text is encoded.
-/

namespace Locast.Subtitles

open Locast.Lib

/-! ### Cues in canonical form -/

/-- A line of text that every format writes as it is. -/
structure PlainLine (l : List Char) : Prop where
  notBlank : isBlank l = false
  plain : ∀ c ∈ l, c ∉ ['<', '>', '{', '}', '&', '\\', '\n'] ∧ isDroppedChar c = false

/-- The lines of a cue, joined. -/
def joinLines (lines : List (List Char)) : List Char := List.intercalate ['\n'] lines

inductive SubtitleText : List Char → Prop
  | intro (l : List Char) (ls : List (List Char)) (h : ∀ l' ∈ l :: ls, PlainLine l') :
    SubtitleText (joinLines (l :: ls))

/-- A cue that every format can hold.  ASS trims its lines, so its texts do not end in white
space. -/
structure CanonicalCue (caps : Caps) (fmt : SubtitleFormat) (c : Cue) : Prop where
  order : c.startMs ≤ c.endMs
  cap : c.endMs ≤ caps.maxTimestampMs
  short : byteLen c.text ≤ caps.maxCueTextBytes
  text : SubtitleText c.text
  aligned : fmt = .ass → 10 ∣ c.startMs ∧ 10 ∣ c.endMs
  trimmed : fmt = .ass → ∀ d ∈ c.text.getLast?, Rooms.isWhitespace d = false

/-! ### Stamps -/

structure Digits (s : List Char) : Prop where
  ne_nil : s ≠ []
  digits : ∀ c ∈ s, c.isDigit = true

/-- What the digits after the seconds stand for. -/
def fraction (f : List Char) : ℕ := digitsValue f * 10 ^ (3 - f.length)

/-- The fields of a stamp, and the time they give. -/
structure StampFields (t : ℕ) (hours minutes seconds frac : List Char) : Prop where
  digits : ∀ s ∈ [hours, minutes, seconds, frac], Digits s
  hours_le : hours.length ≤ maxTimestampDigits
  minutes_le : minutes.length ≤ 2
  seconds_le : seconds.length ≤ 2
  frac_le : frac.length ≤ 3
  total : t = digitsValue hours * msPerHour + digitsValue minutes * msPerMinute +
    digitsValue seconds * msPerSecond + fraction frac

/-- `H{1,3}:M{1,2}:S{1,2}[,.]d{1,3}`. -/
inductive Srt.IsStamp (t : ℕ) : List Char → Prop
  | intro {hours minutes seconds frac : List Char} {sep : Char}
    (h : StampFields t hours minutes seconds frac) (hhours : hours.length ≤ 3)
    (hsep : sep = ',' ∨ sep = '.') :
    Srt.IsStamp t (hours ++ ':' :: (minutes ++ ':' :: (seconds ++ sep :: frac)))

/-- `[H+:]MM:SS.mmm`. -/
inductive Vtt.IsStamp (t : ℕ) : List Char → Prop
  | hours {hours minutes seconds frac : List Char} (h : StampFields t hours minutes seconds frac)
    (hminutes : minutes.length = 2 ∧ digitsValue minutes < 60)
    (hseconds : seconds.length = 2 ∧ digitsValue seconds < 60) (hfrac : frac.length = 3) :
    Vtt.IsStamp t (hours ++ ':' :: (minutes ++ ':' :: (seconds ++ '.' :: frac)))
  | minutes {minutes seconds frac : List Char} (h : StampFields t ['0'] minutes seconds frac)
    (hminutes : minutes.length = 2 ∧ digitsValue minutes < 60)
    (hseconds : seconds.length = 2 ∧ digitsValue seconds < 60) (hfrac : frac.length = 3) :
    Vtt.IsStamp t (minutes ++ ':' :: (seconds ++ '.' :: frac))

/-- `H:MM:SS.cc`. -/
inductive Ass.IsStamp (t : ℕ) : List Char → Prop
  | intro {hours minutes seconds frac : List Char} (h : StampFields t hours minutes seconds frac)
    (hminutes : minutes.length = 2) (hseconds : seconds.length = 2) :
    Ass.IsStamp t (hours ++ ':' :: (minutes ++ ':' :: (seconds ++ '.' :: frac)))

/-! ### Blocks, of SRT and WebVTT -/

/-- `START --> END`, and coordinates or settings after it. -/
inductive IsTimingLine (IsStamp : ℕ → List Char → Prop) (start stop : ℕ) : List Char → Prop
  | intro {before left leftPad rightPad right rest : List Char} (hleft : IsStamp start left)
    (hright : IsStamp stop right) (hbefore : isBlank before = true)
      (hleftPad : isBlank leftPad = true)
    (hrightPad : isBlank rightPad = true) (hrest : ∀ c ∈ rest.head?, Rooms.isWhitespace c = true) :
    IsTimingLine IsStamp start stop
      (before ++ left ++ leftPad ++ (arrow ++ (rightPad ++ right ++ rest)))

/-- An identifier, if there is one, the timing line, and the lines of the text. -/
inductive IsBlock (IsTiming : ℕ → ℕ → List Char → Prop) (IsIdent : List Char → Prop) (c : Cue) :
    List (List Char) → Prop
  | intro {ident : Option (List Char)} {timing l : List Char} {ls : List (List Char)}
    (hident : ∀ i ∈ ident, IsIdent i) (htiming : IsTiming c.startMs c.endMs timing)
    (hplain : ∀ l' ∈ l :: ls, PlainLine l') (htext : c.text = joinLines (l :: ls)) :
    IsBlock IsTiming IsIdent c (ident.toList ++ timing :: l :: ls)

/-- Blocks, with a blank line after each but the last. -/
inductive Blocks (IsTiming : ℕ → ℕ → List Char → Prop) (IsIdent : List Char → Prop) :
    List Cue → List (List Char) → Prop
  | nil : Blocks IsTiming IsIdent [] []
  | blank {cues : List Cue} {lines : List (List Char)} (b : List Char) (hb : isBlank b = true)
    (h : Blocks IsTiming IsIdent cues lines) : Blocks IsTiming IsIdent cues (b :: lines)
  | last {c : Cue} {block : List (List Char)} (hblock : IsBlock IsTiming IsIdent c block) :
    Blocks IsTiming IsIdent [c] block
  | cue {c : Cue} {cues : List Cue} {block lines : List (List Char)} (b : List Char)
    (hblock : IsBlock IsTiming IsIdent c block) (hb : isBlank b = true)
    (h : Blocks IsTiming IsIdent cues lines) :
    Blocks IsTiming IsIdent (c :: cues) (block ++ b :: lines)

/-- An index, or anything else that is no timing line. -/
structure Srt.IsIdent (l : List Char) : Prop where
  notBlank : isBlank l = false
  noArrow : ¬arrow <:+: l

/-- An identifier of WebVTT. -/
structure Vtt.IsIdent (l : List Char) : Prop where
  notBlank : isBlank l = false
  noArrow : ¬arrow <:+: l
  notSkipped : Vtt.isSkippedBlockStart l = false

/-! ### Events, of ASS -/

/-- A text with its line breaks written as `\N` or `\n`. -/
inductive Ass.IsEscaped : List Char → List Char → Prop
  | nil : Ass.IsEscaped [] []
  | newline {text written : List Char} {n : Char} (hn : n = 'N' ∨ n = 'n')
    (h : Ass.IsEscaped text written) : Ass.IsEscaped ('\n' :: text) ('\\' :: n :: written)
  | char {text written : List Char} {c : Char} (hc : c ≠ '\n') (h : Ass.IsEscaped text written) :
    Ass.IsEscaped (c :: text) (c :: written)

def Ass.formatKey : List Char := ['F', 'o', 'r', 'm', 'a', 't', ':']

def Ass.dialogueKey : List Char := ['D', 'i', 'a', 'l', 'o', 'g', 'u', 'e', ':']

/-- `[Name]`, whatever is blank around it. -/
def Ass.IsHeader (name l : List Char) : Prop :=
  ∃ inner, trim l = '[' :: (inner ++ [']']) ∧ trim inner = name

def Ass.isEvents (name : List Char) : Bool := Ass.eqIgnoreCase name ['e', 'v', 'e', 'n', 't', 's']

/-- Fields with a comma between each and the next. -/
def Ass.commaJoin (fields : List (List Char)) : List Char := List.intercalate [','] fields

/-- The column of a name: the first that has it. -/
def Ass.IsColumn (names : List (List Char)) (name : List Char) (i : ℕ) : Prop :=
  names.findIdx? (fun n => Ass.eqIgnoreCase (trim n) name) = some i

/-- A `Format:` line names the columns, with the text in the last. -/
structure Ass.IsFormat (cols : Ass.Columns) (names : List (List Char)) : Prop where
  noComma : ∀ n ∈ names, ',' ∉ n
  count : names.length = cols.count
  start : Ass.IsColumn names ['s', 't', 'a', 'r', 't'] cols.start
  stop : Ass.IsColumn names ['e', 'n', 'd'] cols.stop
  text : Ass.IsColumn names ['t', 'e', 'x', 't'] (names.length - 1)

/-- A `Dialogue:` line: the stamps in their columns, anything in the others, and the text. -/
inductive Ass.IsEvent (cols : Ass.Columns) (c : Cue) : List Char → Prop
  | intro {pad startField endField written : List Char} {fields : List (List Char)}
    (hpad : isBlank pad = true) (hcount : fields.length + 1 = cols.count)
    (hcomma : ∀ f ∈ fields, ',' ∉ f)
    (hstart : fields[cols.start]? = some startField)
    (hend : fields[cols.stop]? = some endField)
    (hstartStamp : Ass.IsStamp c.startMs (trim startField))
    (hendStamp : Ass.IsStamp c.endMs (trim endField)) (htext : Ass.IsEscaped c.text written) :
    Ass.IsEvent cols c (Ass.dialogueKey ++ (pad ++ Ass.commaJoin (fields ++ [written])))

inductive Ass.Events (cols : Ass.Columns) : List Cue → List (List Char) → Prop
  | nil : Ass.Events cols [] []
  | blank {cues : List Cue} {lines : List (List Char)} (b : List Char) (hb : isBlank b = true)
    (h : Ass.Events cols cues lines) : Ass.Events cols cues (b :: lines)
  | event {c : Cue} {cues : List Cue} {l : List Char} {lines : List (List Char)}
    (hl : Ass.IsEvent cols c l) (h : Ass.Events cols cues lines) :
    Ass.Events cols (c :: cues) (l :: lines)

/-! ### Files -/

/-- A file of a format with these cues, line by line. -/
inductive Renders : SubtitleFormat → List Cue → List (List Char) → Prop
  | srt {cues : List Cue} {lines : List (List Char)}
    (h : Blocks (IsTimingLine Srt.IsStamp) Srt.IsIdent cues lines) : Renders .srt cues lines
  | vtt {cues : List Cue} {header : List Char} {lines : List (List Char)}
    (hheader : Vtt.isHeader header = true)
    (h : Blocks (IsTimingLine Vtt.IsStamp) Vtt.IsIdent cues lines) :
    Renders .vtt cues (header :: lines)
  | ass {cues : List Cue} {cols : Ass.Columns} {before names lines : List (List Char)}
    {events header : List Char}
    (hbefore : ∀ l ∈ before, ∀ name, Ass.IsHeader name l → Ass.isEvents name = false)
    (hevents : Ass.isEvents events = true) (hheader : Ass.IsHeader events header)
    (hformat : Ass.IsFormat cols names) (h : Ass.Events cols cues lines) :
    Renders .ass cues (before ++ header :: (Ass.formatKey ++ Ass.commaJoin names) :: lines)

/-- Of one line. -/
def Unbroken (l : List Char) : Prop := ∀ c ∈ l, c ≠ '\n' ∧ c ≠ '\r'

inductive Ending where
  | lf
  | crlf
  | cr

def Ending.chars : Ending → List Char
  | .lf => ['\n']
  | .crlf => ['\r', '\n']
  | .cr => ['\r']

structure EndedLine where
  line : List Char
  ending : Ending

def EndedLine.chars (l : EndedLine) : List Char := l.line ++ l.ending.chars

/-- A carriage return and then an empty line that ends in a line feed are one line break. -/
def EndedLine.Apart (l l' : EndedLine) : Prop := ¬(l.ending = .cr ∧ l'.line = [] ∧ l'.ending = .lf)

/-- A text of these lines, each with an ending of its own; the last one may go without. -/
inductive Written : List (List Char) → List Char → Prop
  | intro {ended : List EndedLine} {last : List Char} (h : ended.IsChain EndedLine.Apart)
    (hlines : ∀ l ∈ ended, Unbroken l.line) (hlast : Unbroken last) :
    Written (ended.map (·.line) ++ if last = [] then [] else [last])
      (ended.flatMap EndedLine.chars ++ last)

def leBytes (u : ℕ) : List UInt8 := [UInt8.ofNat u, UInt8.ofNat (u / 256)]

def beBytes (u : ℕ) : List UInt8 := [UInt8.ofNat (u / 256), UInt8.ofNat u]

inductive Encoding where
  | utf8
  | utf8Bom
  | utf16Le
  | utf16Be

/-- The bytes of a text, behind a byte order mark where there is one. -/
def Encoding.encode (text : List Char) : Encoding → List UInt8
  | .utf8 => encodeUtf8 text
  | .utf8Bom => [0xEF, 0xBB, 0xBF] ++ encodeUtf8 text
  | .utf16Le => [0xFF, 0xFE] ++ (text.flatMap encodeUtf16).flatMap leBytes
  | .utf16Be => [0xFE, 0xFF] ++ (text.flatMap encodeUtf16).flatMap beBytes

/-- A file within the caps on its input and its lines, with no NUL and no byte order mark of its
own. -/
structure Fits (caps : Caps) (lines : List (List Char)) (text : List Char) (bytes : List UInt8) :
    Prop where
  input : bytes.length ≤ caps.maxInputBytes
  decoded : byteLen text ≤ caps.maxInputBytes
  lineCount : lines.length ≤ caps.maxLines
  lineBytes : ∀ l ∈ lines, byteLen l ≤ caps.maxLineBytes
  noNul : '\x00' ∉ text
  noMark : text.head? ≠ some '\uFEFF'

end Locast.Subtitles

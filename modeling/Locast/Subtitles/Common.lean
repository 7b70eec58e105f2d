import Locast.Lib.StrSlice
import Locast.Lib.Unicode
import Locast.Lib.Checked
import Locast.Rooms.Validation

/-!
# Subtitles: limits, errors and helpers (`subtitles/limits.rs`, `error.rs`, `common.rs`)

A text is the list of its characters, cut by offsets into its bytes.  Where the code would go on
without a slice that is not there, the model stops (`Failure.badSlice`): that this never happens is
part of what is proved.
-/

namespace Locast.Subtitles

open Locast.Lib

/-! ### Limits and errors -/

/-- The caps. They are a parameter, so that what a cap changes can be said. -/
structure Caps where
  maxInputBytes : ℕ
  maxLines : ℕ
  maxLineBytes : ℕ
  maxCues : ℕ
  maxCueTextBytes : ℕ
  maxTimestampMs : ℕ

/-- The caps of `limits.rs`. -/
def limits : Caps where
  maxInputBytes := 16 * 1024 * 1024
  maxLines := 1000000
  maxLineBytes := 65536
  maxCues := 100000
  maxCueTextBytes := 8192
  maxTimestampMs := 360000000

def maxTimestampDigits : ℕ := 9

inductive SubtitleError where
  | tooLarge (limit : ℕ)
  | emptyInput
  | invalidEncoding
  | missingHeader
  | badTimestamp (line : ℕ)
  | timestampOrder (line : ℕ)
  | timestampTooLarge (line : ℕ)
  | tooManyLines
  | lineTooLong (line : ℕ)
  | tooManyCues (limit : ℕ)
  | cueTooLong (line : ℕ)
  | noCues
  | malformed (line : ℕ) (what : String)
  deriving DecidableEq

/-- The file is rejected, or a slice is out of bounds or splits a character. -/
inductive Failure where
  | rejected (e : SubtitleError)
  | badSlice
  deriving DecidableEq

abbrev Parsed (α : Type) : Type := Except Failure α

def reject {α : Type} (e : SubtitleError) : Parsed α := .error (.rejected e)

/-- A step that takes no slice. -/
def checked {α : Type} : Except SubtitleError α → Parsed α
  | .ok a => .ok a
  | .error e => reject e

/-- A slice that has to be there. -/
def sliced {α : Type} : Option α → Parsed α
  | some s => .ok s
  | none => .error .badSlice

/-- `ok_or_else`. -/
def orReject {α : Type} (e : SubtitleError) : Option α → Parsed α
  | some a => .ok a
  | none => reject e

structure Cue where
  startMs : ℕ
  endMs : ℕ
  text : List Char
  deriving DecidableEq

/-- `str::trim`. -/
def trim (s : List Char) : List Char := trimWith Rooms.isWhitespace s

def isBlank (s : List Char) : Bool := (trim s).isEmpty

lemma isBlank_iff {s : List Char} : isBlank s = true ↔ ∀ c ∈ s, Rooms.isWhitespace c = true := by
  rw [isBlank, List.isEmpty_iff, trim, trimWith_eq_nil_iff]

lemma trim_eq_self {s : List Char} (hhead : ∀ c ∈ s.head?, Rooms.isWhitespace c = false)
    (hlast : ∀ c ∈ s.getLast?, Rooms.isWhitespace c = false) : trim s = s := by
  have : trim ([] ++ s ++ []) = s := trimWith_append (by simp) (by simp) hhead hlast
  rwa [List.nil_append, List.append_nil] at this

variable (caps : Caps)

/-! ### Decoding -/

/-- `chunks_exact(2)`, with nothing left over. -/
def units (toUnit : UInt8 → UInt8 → ℕ) : List UInt8 → Option (List ℕ)
  | [] => some []
  | [_] => none
  | a :: b :: rest => (units toUnit rest).map (toUnit a b :: ·)

def fromLeBytes (a b : UInt8) : ℕ := a.toNat + 256 * b.toNat

def fromBeBytes (a b : UInt8) : ℕ := 256 * a.toNat + b.toNat

def decodeUtf16Bytes (toUnit : UInt8 → UInt8 → ℕ) (bytes : List UInt8) : Parsed (List Char) :=
  match (units toUnit bytes).bind decodeUtf16 with
  | none => reject .invalidEncoding
  | some decoded =>
    if caps.maxInputBytes < byteLen decoded then reject (.tooLarge caps.maxInputBytes)
    else .ok decoded

/-- The bytes after the byte order mark, in the encoding that it names. -/
def decodeMarked (bytes : List UInt8) : Parsed (List Char) :=
  if bytes.take 2 = [0xFF, 0xFE] then decodeUtf16Bytes caps fromLeBytes (bytes.drop 2)
  else if bytes.take 2 = [0xFE, 0xFF] then decodeUtf16Bytes caps fromBeBytes (bytes.drop 2)
  else if bytes.take 3 = [0xEF, 0xBB, 0xBF] then
    orReject .invalidEncoding (decodeUtf8 (bytes.drop 3))
  else orReject .invalidEncoding (decodeUtf8 bytes)

def checkText (text : List Char) : Parsed (List Char) :=
  if '\x00' ∈ text then reject .invalidEncoding
  else if isBlank text then reject .emptyInput
  else .ok text

/-- `decode_text`. -/
def decodeText (bytes : List UInt8) : Parsed (List Char) :=
  if caps.maxInputBytes < bytes.length then reject (.tooLarge caps.maxInputBytes)
  else decodeMarked caps bytes >>= checkText

/-- The line number of a 0-based index, as a `u32`. -/
def lineNumber (index : ℕ) : ℕ := min (min index (2 ^ 32 - 1) + 1) (2 ^ 32 - 1)

/-! ### Lines -/

def pushLine (text : List Char) (lines : List (List Char)) (start stop : ℕ) :
    Parsed (List (List Char)) :=
  if caps.maxLines ≤ lines.length then reject .tooManyLines
  else if caps.maxLineBytes < stop - start then reject (.lineTooLong (lineNumber lines.length))
  else sliced (getRange text start stop) >>= fun line => .ok (lines ++ [line])

/-- What is left when the bytes are at their end. -/
def pushLast (text : List Char) (start i : ℕ) (lines : List (List Char)) :
    Parsed (List (List Char)) :=
  if start < i then pushLine caps text lines start i else .ok lines

/-- The byte scan of `split_lines`, at offset `i` of a line that starts at `start`. -/
def splitLoop (text : List Char) :
    List UInt8 → (start i : ℕ) → List (List Char) → Parsed (List (List Char))
  | [], start, i, lines => pushLast caps text start i lines
  | [b], start, i, lines =>
    if b = 10 ∨ b = 13 then
      pushLine caps text lines start i >>= fun lines => pushLast caps text (i + 1) (i + 1) lines
    else pushLast caps text start (i + 1) lines
  | b :: b' :: rest, start, i, lines =>
    if b = 10 ∨ b = 13 then
      pushLine caps text lines start i >>= fun lines =>
        if b = 13 ∧ b' = 10 then splitLoop text rest (i + 2) (i + 2) lines
        else splitLoop text (b' :: rest) (i + 1) (i + 1) lines
    else splitLoop text (b' :: rest) start (i + 1) lines

def splitLines (text : List Char) : Parsed (List (List Char)) :=
  splitLoop caps text (encodeUtf8 text) 0 0 []

/-! ### Numbers -/

def checkedU32 (n : ℕ) : Option ℕ := if n < 2 ^ 32 then some n else none

def checkedU64 (n : ℕ) : Option ℕ := if n < 2 ^ 64 then some n else none

/-- The value of decimal digits. -/
def digitsValue (s : List Char) : ℕ := s.foldl (fun n c => n * 10 + (c.toNat - 48)) 0

def parseDigits (s : List Char) : Option ℕ :=
  if s = [] ∨ maxTimestampDigits < byteLen s then none
  else if s.all Char.isDigit then checkedU32 (digitsValue s)
  else none

def fracToMs (s : List Char) : Option ℕ :=
  (parseDigits s).bind fun value =>
    match byteLen s with
    | 1 => checkedU32 (value * 100)
    | 2 => checkedU32 (value * 10)
    | 3 => checkedU32 (value * 1)
    | _ => none

def msPerHour : ℕ := 3600000

def msPerMinute : ℕ := 60000

def msPerSecond : ℕ := 1000

/-- The sum of the fields, with checked arithmetic. -/
def timestampTotal (hours minutes seconds ms : ℕ) : Option ℕ :=
  (checkedU64 (hours * msPerHour)).bind fun h =>
    ((checkedU64 (minutes * msPerMinute)).bind fun m => checkedU64 (h + m)).bind fun hm =>
      ((checkedU64 (seconds * msPerSecond)).bind fun s => checkedU64 (hm + s)).bind fun hms =>
        checkedU64 (hms + ms)

/-- A total that is a `u32` and within the cap. -/
def withinCap (line : ℕ) : Option ℕ → Parsed ℕ
  | some t => if t ≤ caps.maxTimestampMs then .ok t else reject (.timestampTooLarge line)
  | none => reject (.timestampTooLarge line)

def timestampToMs (line hours minutes seconds ms : ℕ) : Parsed ℕ :=
  withinCap caps line ((timestampTotal hours minutes seconds ms).bind checkedU32)

def checkOrder (line startMs endMs : ℕ) : Parsed Unit :=
  if endMs < startMs then reject (.timestampOrder line) else .ok ()

/-- `check_cue_count`: the count includes the cue about to be pushed. -/
def checkCueCount (count : ℕ) : Parsed Unit :=
  if 2 ^ 32 ≤ count ∨ caps.maxCues < count then reject (.tooManyCues caps.maxCues) else .ok ()

/-! ### Cue text -/

def isDroppedChar (c : Char) : Bool :=
  let n := c.toNat
  (n < 0x20 && c ≠ '\n') || (0x202A ≤ n && n ≤ 0x202E) || (0x2066 ≤ n && n ≤ 0x2069)

def pushCueChar (buf : List Char) (c : Char) (line : ℕ) : Except SubtitleError (List Char) :=
  if isDroppedChar c then .ok buf
  else if byteLen buf + c.utf8Size ≤ caps.maxCueTextBytes then .ok (buf ++ [c])
  else .error (.cueTooLong line)

def pushCueText (buf : List Char) : List Char → ℕ → Except SubtitleError (List Char)
  | [], _ => .ok buf
  | c :: piece, line => pushCueChar caps buf c line >>= fun buf => pushCueText buf piece line

end Locast.Subtitles

import Locast.Library.LibraryPath
import Locast.Library.Range

/-!
# Parts of a file (`library/protocol.rs`)

`serve_path` answers a range with at most one window of the file and says in its headers which bytes
they are; `stream_range` copies them.  A player that asks on from where it is gets the whole file.
-/

namespace Locast.Library

open Locast.Lib

/-! ### Responses -/

/-- `MAX_RANGE_BYTES`. -/
def maxRangeBytes : ℕ := 8 * 1024 * 1024

/-- The errors of `ProtocolError` that serving a file has. -/
inductive ProtocolError where
  | badUrl (message : String)
  | notFound (message : String)
  | outOfLibrary (message : String)
  | io (message : String)
  | paths (message : String)
  deriving DecidableEq

inductive ResponseBody where
  | full (bytes : List UInt8)
  | range (path : String) (start length : ℕ)
  | file (path : String)
  deriving DecidableEq

structure ProtocolResponse where
  status : ℕ
  headers : List (String × String)
  body : ResponseBody
  deriving DecidableEq

/-- `mime_for_ext`, in any case. -/
def mimeForExt (ext : List Char) : String :=
  match String.ofList (ext.map Char.toLower) with
  | "mp4" | "m4v" => "video/mp4"
  | "mkv" => "video/x-matroska"
  | "webm" => "video/webm"
  | "mov" => "video/quicktime"
  | "avi" => "video/x-msvideo"
  | "ogv" => "video/ogg"
  | "mp3" => "audio/mpeg"
  | "m4a" => "audio/mp4"
  | "ogg" | "opus" => "audio/ogg"
  | "flac" => "audio/flac"
  | "wav" => "audio/wav"
  | "srt" => "application/x-subrip"
  | "vtt" | "webvtt" => "text/vtt"
  | "ass" | "ssa" => "text/x-ssa"
  | "jpg" | "jpeg" => "image/jpeg"
  | "png" => "image/png"
  | "webp" => "image/webp"
  | "gif" => "image/gif"
  | "json" => "application/json"
  | _ => "application/octet-stream"

/-- `Path::extension` of a file name: what follows its last dot, if anything stands before that. -/
def extension (name : List Char) : List Char :=
  let ext := name.rtakeWhile (· ≠ '.')
  if name.length ≤ ext.length + 1 then [] else ext

/-- What serving a file asks of its surroundings. -/
structure Surroundings where
  nfc : List Char → List Char
  disk : PathDisk
  /-- whether the path is a regular file, and its length -/
  metadata : String → Except String (Bool × ℕ)
  /-- how a text is written in a message -/
  debug : List Char → String

def PathError.display (debug : List Char → String) : PathError → String
  | invalidSha sha => "invalid sha256 " ++ debug sha.toList ++ ": expected 64 lowercase hex chars"

/-- Only what the validator refuses is forbidden. -/
def ProtocolError.ofPath (relPath : String) : LibraryPathError → ProtocolError
  | .notFound => .notFound ("file not on disk: " ++ relPath)
  | .ioError message => .io message
  | .notAFile => .badUrl ("not a regular file: " ++ relPath)
  | e => .outOfLibrary e.display

def baseHeaders (filename : String) : List (String × String) :=
  [("Content-Type", mimeForExt (extension filename.toList)), ("Accept-Ranges", "bytes"),
    ("Cache-Control", "no-store")]

/-- `u64` addition that stops at the bound. -/
def saturatingAdd (a b : ℕ) : ℕ := min (a + b) (2 ^ 64 - 1)

/-- `u64` addition; there is none beyond the bound. -/
def checkedAdd (a b : ℕ) : Option ℕ := if a + b < 2 ^ 64 then some (a + b) else none

/-- `Content-Range`. -/
def contentRange (start last size : ℕ) : String :=
  "bytes " ++ toString start ++ "-" ++ toString last ++ "/" ++ toString size

/-- The 206 for the first window of a range. -/
def answerPart (path filename : String) (size start last : ℕ) : Option ProtocolResponse := do
  let last := min last (saturatingAdd start (maxRangeBytes - 1))
  let steps ← checkedSub last start
  let length ← checkedAdd steps 1
  return ⟨206, baseHeaders filename ++ [("Content-Length", toString length),
    ("Content-Range", contentRange start last size)], .range path start length⟩

/-- What is answered once the file is found. -/
def answerFile (debug : List Char → String) (path filename : String) (size : ℕ)
    (rangeHeader : Option (List Char)) : Option ProtocolResponse :=
  match rangeHeader with
  | none =>
    -- a file that does not fit into memory is answered as `bytes=0-` is
    if maxRangeBytes < size then do
      let last ← checkedSub size 1
      answerPart path filename size 0 last
    else some ⟨200, baseHeaders filename ++ [("Content-Length", toString size)], .file path⟩
  | some header => do
    match ← parseSingleRange header size with
    | .ok (start, last) => answerPart path filename size start last
    | .error e =>
      return ⟨416, baseHeaders filename ++ [("Content-Range", "bytes */" ++ toString size)],
        .full (encodeUtf8 (e.message debug).toList)⟩

/-- `serve_path`.  Arithmetic that leaves the `u64` has no result. -/
def servePath (around : Surroundings) (relPath sha filename : String)
    (rangeHeader : Option (List Char)) : Option (Except ProtocolError ProtocolResponse) :=
  match validateLibraryPath around.nfc around.disk relPath.toList with
  | .error e => some (.error (.ofPath relPath e))
  | .ok canonical =>
    match validateSha sha with
    | .error e => some (.error (.paths (e.display around.debug)))
    | .ok () =>
      match around.metadata canonical with
      | .error message => some (.error (.io message))
      | .ok (false, _) => some (.error (.badUrl ("not a regular file: " ++ canonical)))
      | .ok (true, size) => (answerFile around.debug canonical filename size rangeHeader).map .ok

/-! ### What is copied -/

/-- The buffer of `stream_range`. -/
def bufferBytes : ℕ := 1024 * 1024

/-- A read returns at least one byte while there is one, and may return fewer than there is room
for: at most `short` and one more. -/
def readSome (content : List UInt8) (short : ℕ → ℕ) (pos room : ℕ) : List UInt8 :=
  (content.drop pos).take (min (short pos + 1) room)

/-- `stream_range`: reads until the length is copied or the file ends. -/
def streamRange (content : List UInt8) (short : ℕ → ℕ) (pos remaining : ℕ) : List UInt8 :=
  if _h : remaining = 0 then []
  else if _hend : readSome content short pos (min bufferBytes remaining) = [] then []
  else
    readSome content short pos (min bufferBytes remaining) ++
      streamRange content short
        (pos + (readSome content short pos (min bufferBytes remaining)).length)
        (remaining - (readSome content short pos (min bufferBytes remaining)).length)
termination_by remaining
decreasing_by
  have := List.length_pos_iff.2 _hend
  omega

lemma take_length_take (l : List UInt8) (n : ℕ) : l.take (l.take n).length = l.take n := by
  rw [List.length_take, ← List.take_eq_take_min]

/-- What was read and what is still to come. -/
lemma take_append_rest {l : List UInt8} {n k : ℕ} (h : n ≤ k) :
    l.take n ++ (l.drop (l.take n).length).take (k - (l.take n).length) = l.take k := by
  have hle : (l.take n).length ≤ k := (List.length_take_le _ _).trans h
  calc l.take n ++ (l.drop (l.take n).length).take (k - (l.take n).length)
      = l.take (l.take n).length ++ (l.drop (l.take n).length).take (k - (l.take n).length) := by
        rw [take_length_take]
    _ = l.take ((l.take n).length + (k - (l.take n).length)) := List.take_add.symm
    _ = l.take k := by rw [Nat.add_sub_cancel' hle]

/-- A short read is followed by another. -/
lemma streamRange_eq (content : List UInt8) (short : ℕ → ℕ) (pos remaining : ℕ) :
    streamRange content short pos remaining = (content.drop pos).take remaining := by
  induction remaining using Nat.strong_induction_on generalizing pos with
  | _ remaining ih =>
    have hbuffer : 0 < bufferBytes := by decide
    obtain ⟨n, hn⟩ : ∃ n, n = min (short pos + 1) (min bufferBytes remaining) := ⟨_, rfl⟩
    have hread : readSome content short pos (min bufferBytes remaining) =
        (content.drop pos).take n := by
      rw [hn, readSome]
    rw [streamRange]
    split_ifs with hzero hend
    · rw [hzero, List.take_zero]
    · rw [hread] at hend
      rcases List.take_eq_nil_iff.1 hend with h | h
      · omega
      · rw [h, List.take_nil]
    · have hlen := List.length_pos_iff.2 hend
      rw [hread] at hlen ⊢
      rw [ih _ (by omega), ← List.drop_drop]
      exact take_append_rest (by omega)

/-! ### Every window -/

/-- What a request for a file that is there finds. -/
structure Present (around : Surroundings) (relPath sha canonical : String) (content : List UInt8) :
    Prop where
  path : validateLibraryPath around.nfc around.disk relPath.toList = .ok canonical
  sha : validateSha sha = .ok ()
  metadata : around.metadata canonical = .ok (true, content.length)
  small : content.length < 2 ^ 64

/-- **A response that is the first window of a range**: its headers say which bytes are copied,
however the reads fall. -/
def IsPart (canonical : String) (content : List UInt8) (a b : ℕ) (response : ProtocolResponse) :
    Prop :=
  ∃ last, a ≤ last ∧ last = min b (a + (maxRangeBytes - 1)) ∧ last - a + 1 ≤ maxRangeBytes ∧
    response.status = 206 ∧
    response.body = .range canonical a (last - a + 1) ∧
    response.headers.lookup "Content-Length" = some (toString (last - a + 1)) ∧
    response.headers.lookup "Content-Range" = some (contentRange a last content.length) ∧
    ∀ short, (streamRange content short a (last - a + 1)).length = last - a + 1 ∧
      streamRange content short a (last - a + 1) = (content.drop a).take (last - a + 1)

lemma answerPart_isPart (canonical filename : String) {content : List UInt8} {a b : ℕ} (hab : a ≤ b)
    (hb : b < content.length) (hsmall : content.length < 2 ^ 64) :
    ∃ response, answerPart canonical filename content.length a b = some response ∧
      IsPart canonical content a b response := by
  have hwindow : 0 < maxRangeBytes := by decide
  obtain ⟨last, hlast⟩ : ∃ last, last = min b (saturatingAdd a (maxRangeBytes - 1)) := ⟨_, rfl⟩
  have hle : a ≤ last ∧ last = min b (a + (maxRangeBytes - 1)) ∧ last - a + 1 ≤ maxRangeBytes := by
    rw [hlast, saturatingAdd]
    omega
  have hlength : checkedAdd (last - a) 1 = some (last - a + 1) := if_pos (by omega)
  refine ⟨⟨206, baseHeaders filename ++ [("Content-Length", toString (last - a + 1)),
    ("Content-Range", contentRange a last content.length)], .range canonical a (last - a + 1)⟩, ?_,
      last,
    hle.1, hle.2.1, hle.2.2, rfl, rfl, rfl, rfl, fun short => ?_⟩
  · rw [answerPart, ← hlast]
    rw [checkedSub_eq hle.1, Option.bind_eq_bind, Option.bind_some, hlength]
    rfl
  · rw [streamRange_eq, List.length_take, List.length_drop]
    exact ⟨by omega, rfl⟩

section

variable {around : Surroundings} {relPath sha filename canonical : String} {content : List UInt8}

lemma Present.servePath_eq (h : Present around relPath sha canonical content)
    (rangeHeader : Option (List Char)) : servePath around relPath sha filename rangeHeader =
      (answerFile around.debug canonical filename content.length rangeHeader).map .ok := by
  rw [servePath, h.path]
  dsimp only
  rw [h.sha]
  dsimp only
  rw [h.metadata]

variable (filename) in
/-- What a range that is read is answered with. -/
lemma Present.isPart (h : Present around relPath sha canonical content)
    {header : List Char} {a b : ℕ}
    (hread : parseSingleRange header content.length = some (.ok (a, b))) :
    ∃ response, servePath around relPath sha filename (some header) = some (.ok response) ∧
      IsPart canonical content a b response := by
  obtain ⟨spec, -, -, his⟩ := parseSingleRange_eq_ok.1 hread
  obtain ⟨response, hanswer, hpart⟩ := answerPart_isPart canonical filename his.le his.lt h.small
  refine ⟨response, ?_, hpart⟩
  rw [h.servePath_eq, answerFile, hread, Option.bind_eq_bind, Option.bind_some]
  dsimp only
  rw [hanswer]
  rfl

/-- Every request has an answer. -/
lemma Present.servePath_ne_none (h : Present around relPath sha canonical content)
    (rangeHeader : Option (List Char)) :
    servePath around relPath sha filename rangeHeader ≠ none := by
  cases rangeHeader with
  | none =>
    rw [h.servePath_eq, answerFile]
    split_ifs with hbig
    · obtain ⟨response, hanswer, -⟩ := answerPart_isPart canonical filename
        (Nat.zero_le (content.length - 1)) (by omega) h.small
      rw [checkedSub_eq (by omega : 1 ≤ content.length), Option.bind_eq_bind,
        Option.bind_some, hanswer]
      exact Option.some_ne_none _
    · exact Option.some_ne_none _
  | some header =>
    cases hread : parseSingleRange header content.length with
    | none => exact absurd hread (parseSingleRange_ne_none _ _)
    | some result =>
      cases result with
      | error e =>
        rw [h.servePath_eq, answerFile, hread]
        exact Option.some_ne_none _
      | ok range =>
        obtain ⟨response, hserve, -⟩ := h.isPart filename hread
        rw [hserve]
        exact Option.some_ne_none _

/-! ### The whole file -/

/-- `bytes=<next>-`. -/
def openRange (next : ℕ) : List Char := "bytes=".toList ++ (Nat.toDigits 10 next ++ ['-'])

/-- The bytes of a 206, copied from the file that it names. -/
def copied (content : List UInt8) (short : ℕ → ℕ) : Option (Except ProtocolError ProtocolResponse) →
    Option (List UInt8)
  | some (.ok ⟨206, _, .range _ start length⟩) => some (streamRange content short start length)
  | _ => none

/-- A player that asks on from where it is, until it is refused. -/
def fetchFrom (ask : List Char → Option (List UInt8)) : ℕ → ℕ → List (List UInt8)
  | 0, _ => []
  | fuel + 1, next =>
    match ask (openRange next) with
    | none => []
    | some bytes => bytes :: fetchFrom ask fuel (next + bytes.length)

lemma isNumber_toDigits {n : ℕ} (h : n < 2 ^ 64) : IsNumber (Nat.toDigits 10 n) :=
  ⟨Nat.toDigits_ne_nil, fun _ hc => Nat.isDigit_of_mem_toDigits (by decide) (by decide) hc, by
    rwa [value, Nat.ofDigitChars_ten_toDigits]⟩

/-- The request of a player is as it is written: it has no blanks at its ends. -/
lemma trim_openRange (n : ℕ) :
    trimWith Rooms.isWhitespace (openRange n) = openRange n := by
  have hconcat : openRange n = ("bytes=".toList ++ Nat.toDigits 10 n) ++ ['-'] :=
    (List.append_assoc _ _ _).symm
  have hends : trimWith Rooms.isWhitespace ([] ++ openRange n ++ []) = openRange n :=
    trimWith_append (by simp) (by simp) (fun c hc => by obtain rfl := Option.some.inj hc; decide)
      fun c hc => by
        rw [hconcat, List.getLast?_concat] at hc
        obtain rfl := Option.some.inj hc
        decide
  rwa [List.nil_append, List.append_nil] at hends

/-- A player that has not got everything asks for what is left. -/
lemma parse_openRange {next size : ℕ} (hnext : next < size) (hsize : size < 2 ^ 64) :
    parseSingleRange (openRange next) size = some (.ok (next, size - 1)) := by
  have hwell : (RangeSpec.onward (Nat.toDigits 10 next)).WellFormed :=
    List.forall_mem_singleton.2 (isNumber_toDigits (hnext.trans hsize))
  have hsame := RangeSpec.unsigned_eq_self hwell
  refine parseSingleRange_eq_ok.2 ⟨.onward (Nat.toDigits 10 next), trim_openRange next,
    hsame.symm ▸ hwell, hsame.symm ▸ ⟨by omega, by omega, fun i => ?_⟩⟩
  rw [RangeSpec.Selects, value, Nat.ofDigitChars_ten_toDigits]
  omega

/-- One that has everything is refused. -/
lemma parse_openRange_end {size a b : ℕ} (hsize : size < 2 ^ 64) :
    parseSingleRange (openRange size) size ≠ some (.ok (a, b)) := by
  intro hread
  obtain ⟨spec, htext, hwell, his⟩ := parseSingleRange_eq_ok.1 hread
  have hown : (RangeSpec.onward (Nat.toDigits 10 size)).WellFormed :=
    List.forall_mem_singleton.2 (isNumber_toDigits hsize)
  rw [trim_openRange] at htext
  obtain rfl : RangeSpec.onward (Nat.toDigits 10 size) = spec := RangeSpec.text_injective
    ((RangeSpec.unsigned_eq_self hown).symm ▸ hown) hwell (List.append_cancel_left htext)
  rw [RangeSpec.unsigned_eq_self hown] at his
  have hfirst := (his.selects a).2 ⟨le_rfl, his.le⟩
  rw [RangeSpec.Selects, value, Nat.ofDigitChars_ten_toDigits] at hfirst
  omega

/-- What is copied for one request of a player. -/
lemma Present.copied_openRange (h : Present around relPath sha canonical content) (short : ℕ → ℕ)
    {next : ℕ} (hnext : next < content.length) :
    copied content short (servePath around relPath sha filename (some (openRange next))) =
      some ((content.drop next).take maxRangeBytes) := by
  obtain ⟨⟨status, headers, body⟩, hserve, last, hle, hlast, -, hstatus, hbody, -, -, hcopied⟩ :=
    h.isPart filename (parse_openRange hnext h.small)
  obtain rfl : status = 206 := hstatus
  obtain rfl : body = .range canonical next (last - next + 1) := hbody
  have hwindow : 0 < maxRangeBytes := by decide
  rw [hserve, copied, (hcopied short).2, Option.some.injEq, List.take_eq_take_iff, List.length_drop]
  omega

lemma Present.copied_end (h : Present around relPath sha canonical content) (short : ℕ → ℕ) :
    copied content short (servePath around relPath sha filename (some (openRange content.length))) =
      none := by
  rw [h.servePath_eq, answerFile]
  cases hread : parseSingleRange (openRange content.length) content.length with
  | none => exact absurd hread (parseSingleRange_ne_none _ _)
  | some result =>
    cases result with
    | error e => rfl
    | ok range => exact absurd hread (parse_openRange_end h.small)

/-- **A player gets what is left of a file**, each byte in one piece and in order. -/
lemma Present.fetchFrom_flatten (h : Present around relPath sha canonical content) (short : ℕ → ℕ)
    {fuel next : ℕ} (hnext : next ≤ content.length)
    (hfuel : content.length ≤ next + fuel * maxRangeBytes) :
    (fetchFrom (fun header => copied content short
      (servePath around relPath sha filename (some header))) fuel next).flatten =
        content.drop next := by
  induction fuel generalizing next with
  | zero =>
    rw [fetchFrom, List.flatten_nil, List.drop_eq_nil_of_le (by omega)]
  | succ fuel ih =>
    rw [fetchFrom]
    by_cases hmore : next < content.length
    · rw [h.copied_openRange short hmore]
      dsimp only
      have hlen := List.length_take (i := maxRangeBytes) (l := content.drop next)
      rw [List.length_drop] at hlen
      rw [List.flatten_cons, ih (by omega) (by rw [Nat.succ_mul] at hfuel; omega), ← List.drop_drop]
      nth_rewrite 1 [← take_length_take]
      rw [List.take_append_drop]
    · obtain rfl : next = content.length := by omega
      rw [h.copied_end]
      dsimp only
      rw [List.flatten_nil, List.drop_length]

/-! ### Range serving -/

variable (around) (relPath sha filename) in
/-- **What range serving promises**: a header is accepted exactly when RFC 9110 selects something by
it, and as what it selects; what is accepted is answered by its first window, whose headers agree
with what is copied; no arithmetic leaves the `u64`; and a player that asks on gets every byte
once. -/
structure RangeServed (canonical : String) (content : List UInt8) (header : List Char) : Prop where
  accepted : ∀ a b, parseSingleRange header content.length = some (.ok (a, b)) ↔
    Requests header content.length a b
  answered : ∀ a b, parseSingleRange header content.length = some (.ok (a, b)) →
    ∃ response, servePath around relPath sha filename (some header) = some (.ok response) ∧
      IsPart canonical content a b response
  parsed : parseSingleRange header content.length ≠ none
  served : servePath around relPath sha filename (some header) ≠ none
  whole : ∀ short fuel, content.length ≤ fuel * maxRangeBytes →
    (fetchFrom (fun header => copied content short
      (servePath around relPath sha filename (some header))) fuel 0).flatten = content

/-- **Ranges are served as promised, unless a plus sign stands before a number.** -/
theorem range_served_iff (h : Present around relPath sha canonical content) (header : List Char) :
    RangeServed around relPath sha filename canonical content header ↔
      ¬PlusSigned header content.length := by
  constructor
  · intro hserved
    exact parse_exact_iff.1 hserved.accepted
  · intro hplain
    refine ⟨parse_exact_iff.2 hplain, fun a b hread => h.isPart _ hread,
      parseSingleRange_ne_none _ _, h.servePath_ne_none _, fun short fuel hfuel => ?_⟩
    rw [h.fetchFrom_flatten short (Nat.zero_le _) (by omega), List.drop_zero]

end

/-! ### A plus sign -/

/-- A header without a plus sign. -/
lemma not_plusSigned {header : List Char} {size : ℕ}
    (h : '+' ∉ trimWith Rooms.isWhitespace header) :
    ¬PlusSigned header size := by
  rintro ⟨spec, htext, hsigned, -⟩
  have hfree : '+' ∉ spec.text := fun hmem => h (htext ▸ List.mem_append_right _ hmem)
  have hsame : ∀ {t : List Char}, '+' ∉ t → unsign t = t := fun ht =>
    unsign_of_ne fun hhead => ht (List.mem_of_mem_head? hhead)
  apply hsigned
  cases spec with
  | between first last =>
    rw [RangeSpec.text, List.mem_append, List.mem_cons, not_or, not_or] at hfree
    rw [RangeSpec.unsigned, hsame hfree.1, hsame hfree.2.2]
  | onward first =>
    rw [RangeSpec.text, List.mem_append, not_or] at hfree
    rw [RangeSpec.unsigned, hsame hfree.1]
  | suffix length =>
    rw [RangeSpec.text, List.mem_cons, not_or] at hfree
    rw [RangeSpec.unsigned, hsame hfree.2]

/-- A library with one file of a byte. -/
def oneFile : Surroundings where
  nfc := id
  disk := ⟨.ok "/library", fun _ => .ok "/library/film.mkv", fun _ _ => true, fun _ => .ok true⟩
  metadata _ := .ok (true, 1)
  debug := String.ofList

lemma present_oneFile : Present oneFile "film.mkv" (String.ofList (List.replicate 64 'a'))
    "/library/film.mkv" [7] :=
  ⟨by decide, validateSha_replicate (by decide), rfl, by decide⟩

/-- **`bytes=+0-` is served** as if it were a range. -/
theorem not_range_served : parseSingleRange "bytes=+0-".toList 1 = some (.ok (0, 0)) ∧
    ¬RangeServed oneFile "film.mkv" (String.ofList (List.replicate 64 'a')) "film.mkv"
      "/library/film.mkv" [7] "bytes=+0-".toList := by
  have hread : parseSingleRange "bytes=+0-".toList 1 = some (.ok (0, 0)) := by decide
  refine ⟨hread, fun hserved => parse_exact_iff.1 hserved.accepted ?_⟩
  exact ⟨.onward ['+', '0'], by decide, by decide,
    List.forall_mem_singleton.2 ⟨by decide, List.forall_mem_singleton.2 rfl, by decide⟩,
      0, by decide,
    by decide⟩

theorem range_served_film : RangeServed oneFile "film.mkv" (String.ofList (List.replicate 64 'a'))
    "film.mkv" "/library/film.mkv" [7] "bytes=-5".toList :=
  (range_served_iff present_oneFile _).2 (not_plusSigned (by decide))

end Locast.Library

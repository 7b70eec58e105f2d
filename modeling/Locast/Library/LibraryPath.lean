import Locast.Lib.Base64
import Locast.Lib.StrSlice
import Locast.Lib.Unicode
import Locast.Library.MediaItems
import Locast.Rooms.Validation
import Mathlib.Tactic.IntervalCases

/-!
# Library paths (`core/paths.rs`)

The importer stores a file under the name that the sanitizer made of it, and every read goes through
`validate_library_path`, which has its own rules for names.  The two agree on everything but device
names: the validator knows two more, and drops white space before it compares.
-/

namespace Locast.Library

open Locast.Lib

/-! ### The validator -/

inductive LibraryPathError where
  | empty
  | absolutePath
  | parentTraversal
  | backslashSeparator
  | reservedName (segment : String)
  | nulByte
  | segmentTooLong (segment : String)
  | pathTooLong
  | controlCharacter (path : String)
  | notNfc (path : String)
  | escapesLibraryRoot
  | notAFile
  | ioError (message : String)
  | notFound
  deriving DecidableEq

def LibraryPathError.display : LibraryPathError → String
  | empty => "path is empty"
  | absolutePath => "path is absolute"
  | parentTraversal => "path contains parent traversal (..)"
  | backslashSeparator => "path contains backslash separator"
  | reservedName s => "path contains reserved name: " ++ s
  | nulByte => "path contains NUL byte"
  | segmentTooLong s => "path segment too long: " ++ s
  | pathTooLong => "total path too long (>4096 bytes)"
  | controlCharacter s => "path contains control character: " ++ s
  | notNfc s => "path not NFC normalized: " ++ s
  | escapesLibraryRoot => "resolved path escapes library root"
  | notAFile => "path is not a regular file"
  | ioError s => "I/O error: " ++ s
  | notFound => "file not found"

/-- `base`: the name before its first dot, in capitals and without white space at its end. -/
def deviceBase (segment : List Char) : List Char :=
  ((segment.map Char.toUpper).takeWhile (· != '.')).rdropWhile Rooms.isWhitespace

/-- The segment names a device. -/
def isDeviceSegment (segment : List Char) : Bool :=
  (reservedNames ++ ["CONIN$", "CONOUT$"]).any fun r => r.toList == deviceBase segment

/-- What the validator asks of one segment. -/
def checkSegment (segment : List Char) : Except LibraryPathError Unit :=
  if segment = [] then .error .absolutePath
  else if 255 < byteLen segment then .error (.segmentTooLong (.ofList segment))
  else if segment = ['.'] ∨ segment = ['.', '.'] then .error .parentTraversal
  else if isDeviceSegment segment then .error (.reservedName (.ofList segment))
  else if ':' ∈ segment ∨ segment.getLast? = some '.' ∨ segment.getLast? = some ' ' then
    .error (.reservedName (.ofList segment))
  else if segment.any isControl then .error (.controlCharacter (.ofList segment))
  else .ok ()

/-- The first segment that is refused. -/
def checkSegments : List (List Char) → Except LibraryPathError Unit
  | [] => .ok ()
  | segment :: segments =>
    match checkSegment segment with
    | .error e => .error e
    | .ok () => checkSegments segments

/-- The checks of `validate_library_path` that look at the path alone, and its segments. -/
def lexicalChecks (nfc : List Char → List Char) (path : List Char) :
    Except LibraryPathError (List (List Char)) :=
  if path = [] then .error .empty
  else if 4096 < byteLen path then .error .pathTooLong
  else if path.head? = some '/' ∨ path.head? = some '\\' ∨ (encodeUtf8 path)[1]? = some 58 then
    .error .absolutePath
  else if '\\' ∈ path then .error .backslashSeparator
  else if '\x00' ∈ path then .error .nulByte
  else if path.any isControl then .error (.controlCharacter (.ofList path))
  else if path ≠ nfc path then .error (.notNfc (.ofList path))
  else
    let segments := path.splitOn '/'
    if segments.isEmpty then .error .empty
    else
      match checkSegments segments with
      | .error e => .error e
      | .ok () =>
        -- the length once more, of what the segments are put together to
        if 4096 < (segments.map byteLen).sum + (segments.length - 1) then .error .pathTooLong
        else .ok segments

/-- What the file system answers: the library root and a file below it in their canonical forms,
whether the one contains the other, and whether it is a regular file. -/
structure PathDisk where
  canonicalRoot : Except String String
  /-- no message: the file is not there -/
  canonicalize : List (List Char) → Except (Option String) String
  startsWith : String → String → Bool
  isFile : List (List Char) → Except String Bool

/-- `validate_library_path`. -/
def validateLibraryPath (nfc : List Char → List Char) (disk : PathDisk) (path : List Char) :
    Except LibraryPathError String :=
  match lexicalChecks nfc path with
  | .error e => .error e
  | .ok segments =>
    match disk.canonicalRoot with
    | .error message => .error (.ioError message)
    | .ok root =>
      match disk.canonicalize segments with
      | .error none => .error .notFound
      | .error (some message) => .error (.ioError message)
      | .ok canonical =>
        if !disk.startsWith canonical root then .error .escapesLibraryRoot
        else
          match disk.isFile segments with
          | .error message => .error (.ioError message)
          | .ok false => .error .notAFile
          | .ok true => .ok canonical

inductive PathError where
  | invalidSha (sha : String)
  deriving DecidableEq

/-- `validate_sha`. -/
def validateSha (sha : String) : Except PathError Unit :=
  if sha.utf8ByteSize ≠ 64 then .error (.invalidSha sha)
  else if !sha.toList.all (fun c => c.isDigit || ('a' ≤ c && c ≤ 'f') || ('A' ≤ c && c ≤ 'F')) then
    .error (.invalidSha sha)
  else if sha.toList.any Char.isUpper then .error (.invalidSha sha)
  else .ok ()

/-! ### Composition -/

/-- Characters that a stored name never has. -/
def isUnsafe (c : Char) : Bool := isControl c || forbiddenChars.contains c || c == '/' || c == '\\'

/-- What Unicode says of its canonical composition: it is done after one round, it leaves what
begins a composed text and what is ASCII as it is, nothing composes with a slash, and it makes no
separator, control character or character that Windows forbids. -/
structure IsNfc (nfc : List Char → List Char) : Prop where
  idempotent : ∀ s, nfc (nfc s) = nfc s
  beginning : ∀ p s, p <+: nfc s → nfc p = p
  ascii : ∀ s : List Char, (∀ c ∈ s, c.toNat < 128) → nfc s = s
  slash : ∀ p s, nfc (p ++ '/' :: s) = nfc p ++ '/' :: nfc s
  safe : ∀ s, ∀ c ∈ nfc s, isUnsafe c = true → c ∈ s

/-! ### The sanitizer's name -/

/-- The name as the sanitizer keeps it, before it looks at it for the last time. -/
def keptName (nfc : List Char → List Char) (name : List Char) : List Char :=
  truncateBytes maxBytes (nfc (trimEnd ((lastComponent name).map replaceChar)))

lemma sanitizeChars_eq_ok {nfc : List Char → List Char} {name out : List Char}
    (h : sanitizeChars nfc name = .ok out) :
    out = trimEnd (keptName nfc name) ∧ out ≠ [] ∧ isReservedName out = false := by
  unfold sanitizeChars at h
  dsimp only at h
  split_ifs at h with h₁ h₂ h₃ h₄
  obtain rfl := Except.ok.inj h
  rw [not_or] at h₄
  exact ⟨rfl, h₄.1, by simpa using h₄.2⟩

lemma truncateBytes_prefixed (budget : ℕ) (name : List Char) :
    truncateBytes budget name <+: name := by
  induction name generalizing budget with
  | nil => exact List.prefix_rfl
  | cons c rest ih =>
    rw [truncateBytes]
    split
    · exact List.nil_prefix
    · exact (List.prefix_cons_inj c).2 (ih _)

lemma byteLen_truncateBytes (budget : ℕ) (name : List Char) :
    byteLen (truncateBytes budget name) ≤ budget := by
  induction name generalizing budget with
  | nil => exact Nat.zero_le _
  | cons c rest ih =>
    rw [truncateBytes]
    split
    · exact Nat.zero_le _
    · rename_i hfit
      have := ih (budget - c.utf8Size)
      rw [byteLen_cons]
      omega

lemma truncateBytes_eq_self {budget : ℕ} {name : List Char} (h : byteLen name ≤ budget) :
    truncateBytes budget name = name := by
  induction name generalizing budget with
  | nil => rfl
  | cons c rest ih =>
    rw [byteLen_cons] at h
    rw [truncateBytes, if_neg (by omega), ih (by omega)]

lemma byteLen_le_of_isPrefix {s t : List Char} (h : s <+: t) : byteLen s ≤ byteLen t := by
  obtain ⟨u, rfl⟩ := h
  rw [byteLen_append]
  exact Nat.le_add_right _ _

lemma replaceChar_eq_self {c : Char} (h : isUnsafe c = false) : replaceChar c = c := by
  unfold isUnsafe at h
  simp only [Bool.or_eq_false_iff, List.contains_eq_mem, decide_eq_false_iff_not] at h
  rw [replaceChar, if_neg]
  rw [not_or]
  exact ⟨by simp [h.1.1.1], h.1.1.2⟩

/-- Nothing unsafe is left. -/
lemma isUnsafe_replaceChar {name : List Char} {c : Char} (h : c ∈ lastComponent name) :
    isUnsafe (replaceChar c) = false := by
  have hsep : c ≠ '\\' ∧ c ≠ '/' := by simpa using List.mem_rtakeWhile_imp h
  unfold replaceChar
  split
  · decide
  · rename_i hno
    rw [not_or] at hno
    simp [isUnsafe, hno, hsep]

variable {nfc : List Char → List Char} {name out : List Char}

/-- **What the sanitizer promises of a name.** -/
structure Stored (nfc : List Char → List Char) (out : List Char) : Prop where
  nonempty : out ≠ []
  small : byteLen out ≤ maxBytes
  safe : ∀ c ∈ out, isUnsafe c = false
  composed : nfc out = out
  trimmed : trimEnd out = out
  free : isReservedName out = false

lemma stored_of_sanitizeChars (hnfc : IsNfc nfc) (h : sanitizeChars nfc name = .ok out) :
    Stored nfc out := by
  obtain ⟨rfl, hne, hfree⟩ := sanitizeChars_eq_ok h
  have hkept : keptName nfc name <+: nfc (trimEnd ((lastComponent name).map replaceChar)) :=
    truncateBytes_prefixed _ _
  have hpre : trimEnd (keptName nfc name) <+: keptName nfc name := List.rdropWhile_prefix _ _
  refine ⟨hne, (byteLen_le_of_isPrefix hpre).trans (byteLen_truncateBytes _ _), fun c hc => ?_,
    hnfc.beginning _ _ (hpre.trans hkept), List.rdropWhile_idempotent _ _, hfree⟩
  by_contra hunsafe
  have hmem := hnfc.safe _ c (hkept.subset (hpre.subset hc)) (by simpa using hunsafe)
  obtain ⟨d, hd, rfl⟩ := List.mem_map.1 (mem_trimEnd hmem)
  exact hunsafe (isUnsafe_replaceChar hd)

/-- A stored name does not end on a dot or a space. -/
lemma Stored.getLast?_ne (h : Stored nfc out) :
    out.getLast? ≠ some '.' ∧ out.getLast? ≠ some ' ' := by
  have hlast : ¬decide (out.getLast h.nonempty = '.' ∨ out.getLast h.nonempty = ' ') = true :=
    List.rdropWhile_eq_self_iff.1 h.trimmed h.nonempty
  rw [decide_eq_true_eq, not_or] at hlast
  rw [List.getLast?_eq_some_getLast h.nonempty]
  simpa using hlast

lemma Stored.ne_dots (h : Stored nfc out) : out ≠ ['.'] ∧ out ≠ ['.', '.'] := by
  refine ⟨?_, ?_⟩ <;> rintro rfl <;> exact h.getLast?_ne.1 rfl

/-- It is what the sanitizer makes of it. -/
lemma Stored.sanitizeChars_eq (h : Stored nfc out) : sanitizeChars nfc out = .ok out := by
  have hlast : lastComponent out = out := by
    rw [lastComponent, List.rtakeWhile_eq_self_iff]
    intro c hc
    have hsafe := h.safe c hc
    simp only [isUnsafe, Bool.or_eq_false_iff, beq_eq_false_iff_ne] at hsafe
    simp [hsafe]
  have hmap : out.map replaceChar = out := by
    conv_rhs => rw [← List.map_id out]
    exact List.map_congr_left fun c hc => replaceChar_eq_self (h.safe c hc)
  obtain ⟨hdot, hdots⟩ := h.ne_dots
  unfold sanitizeChars
  dsimp only
  rw [hlast, if_neg (by simp [h.nonempty, hdot, hdots]), hmap, h.trimmed,
    if_neg h.nonempty, h.composed, truncateBytes_eq_self h.small, h.trimmed,
    if_neg (by simp [h.free]),
    if_neg (by simp [h.nonempty, h.free])]

/-! ### Device names -/

/-- Dots and spaces at the end of a name do not change the device that it names. -/
lemma deviceBase_trimEnd (name : List Char) : deviceBase (trimEnd name) = deviceBase name := by
  have hsplit : trimEnd name ++ name.rtakeWhile (fun c => c = '.' ∨ c = ' ') = name :=
    List.rdropWhile_append_rtakeWhile
  have htail : ∀ c ∈ (name.rtakeWhile fun c => c = '.' ∨ c = ' ').map Char.toUpper,
      c = '.' ∨ c = ' ' := by
    intro c hc
    obtain ⟨d, hd, rfl⟩ := List.mem_map.1 hc
    have hor : d = '.' ∨ d = ' ' := by simpa using List.mem_rtakeWhile_imp hd
    rcases hor with rfl | rfl
    · exact .inl (by decide)
    · exact .inr (by decide)
  conv_rhs => rw [← hsplit]
  unfold deviceBase
  rw [List.map_append, List.takeWhile_append]
  split
  · -- no dot before: only spaces of the tail count, and they go
    rename_i hall
    rw [(List.takeWhile_prefix _).eq_of_length hall]
    refine (rdropWhile_append_of_forall _ fun c hc => ?_).symm
    have hne : c ≠ '.' := by simpa using List.mem_takeWhile_imp hc
    rw [(htail c ((List.takeWhile_prefix _).subset hc)).resolve_left hne]
    decide
  · rfl

/-- **What the validator says of a stored name.** -/
lemma Stored.checkSegment_eq (h : Stored nfc out) : checkSegment out =
    if isDeviceSegment out then .error (.reservedName (.ofList out)) else .ok () := by
  have hcolon : ':' ∉ out := fun hmem => absurd (h.safe _ hmem) (by decide)
  have hcontrol : out.any isControl = false := by
    rw [List.any_eq_false]
    intro c hc hctl
    have hsafe := h.safe c hc
    simp [isUnsafe, hctl] at hsafe
  obtain ⟨hdot, hdots⟩ := h.ne_dots
  obtain ⟨hlastdot, hlastspace⟩ := h.getLast?_ne
  have hsmall : ¬255 < byteLen out := Nat.not_lt.2 h.small
  rw [checkSegment, if_neg h.nonempty, if_neg hsmall, if_neg (by simp [hdot, hdots]), hcontrol]
  by_cases hdevice : isDeviceSegment out = true
  · rw [if_pos hdevice, if_pos hdevice]
  · rw [if_neg hdevice, if_neg hdevice, if_neg (by simp [hcolon, hlastdot, hlastspace]),
      if_neg Bool.false_ne_true]

/-! ### The place of a file -/

/-- The digits of a digest. -/
def hexDigits : List Char := "0123456789abcdef".toList

lemma mem_hexDigits {c : Char} (h : c.isDigit = true ∨ ('a' ≤ c ∧ c ≤ 'f')) : c ∈ hexDigits := by
  rw [← Char.ofNat_toNat c]
  have hrange : (48 ≤ c.toNat ∧ c.toNat ≤ 57) ∨ (97 ≤ c.toNat ∧ c.toNat ≤ 102) := by
    rcases h with h | h
    · left
      simpa [Char.isDigit, UInt32.le_iff_toNat_le] using h
    · right
      simpa [Char.le_def, UInt32.le_iff_toNat_le] using h
  generalize c.toNat = n at hrange
  rcases hrange with ⟨hlow, hhigh⟩ | ⟨hlow, hhigh⟩ <;> interval_cases n <;> decide

lemma hex_of_validateSha {sha : String} (h : validateSha sha = .ok ()) :
    sha.utf8ByteSize = 64 ∧ ∀ c ∈ sha.toList, c ∈ hexDigits := by
  unfold validateSha at h
  split_ifs at h with h₁ h₂ h₃
  rw [Bool.not_eq_true', Bool.not_eq_false] at h₂
  rw [Bool.not_eq_true] at h₃
  refine ⟨not_not.1 h₁, fun c hc => mem_hexDigits ?_⟩
  have hhex : (c.isDigit = true ∨ ('a' ≤ c ∧ c ≤ 'f')) ∨ ('A' ≤ c ∧ c ≤ 'F') := by
    simpa using List.all_eq_true.1 h₂ c hc
  refine hhex.resolve_right fun hcapital => List.any_eq_false.1 h₃ c hc ?_
  rw [isUpper_eq, decide_eq_true_eq]
  exact ⟨hcapital.1, UInt32.le_trans hcapital.2 (by decide)⟩

lemma validateSha_ofList {l : List Char} (hlen : l.length = 64)
    (hhex : l.all hexDigits.contains = true) : validateSha (String.ofList l) = .ok () := by
  have hall : hexDigits.all (fun c => decide (c.toNat ≤ 127 ∧
      (c.isDigit || ('a' ≤ c && c ≤ 'f') || ('A' ≤ c && c ≤ 'F')) = true ∧
        c.isUpper = false)) = true := by decide
  have hdigit := fun c hc => of_decide_eq_true
    (List.all_eq_true.1 hall c (List.contains_iff_mem.1 (List.all_eq_true.1 hhex c hc)))
  have hsize := Base64.utf8ByteSize_ofList_ascii fun c hc => (hdigit c hc).1
  have hdigits := List.all_eq_true.2 fun c hc => (hdigit c hc).2.1
  have hlower := List.any_eq_false.2 fun c hc => Bool.eq_false_iff.1 (hdigit c hc).2.2
  rw [validateSha, if_neg (not_not.2 (hsize.trans hlen)), String.toList_ofList, hdigits, hlower]
  rfl

lemma validateSha_replicate {c : Char} (h : c ∈ hexDigits) :
    validateSha (String.ofList (List.replicate 64 c)) = .ok () :=
  validateSha_ofList List.length_replicate (List.all_eq_true.2 fun d hd => by
    rwa [List.eq_of_mem_replicate hd, List.contains_iff_mem])

/-- A directory named by digits of a digest is accepted. -/
lemma checkSegment_hex {l : List Char} (hhex : ∀ c ∈ l, c ∈ hexDigits) (hne : l ≠ [])
    (hlen : byteLen l ≤ 64) : checkSegment l = .ok () := by
  have hall : hexDigits.all (fun c => decide (c.toUpper.toNat < 71 ∧ c ≠ '.' ∧ c ≠ ':' ∧ c ≠ ' ' ∧
      isControl c = false)) = true := by decide
  have hdigit : ∀ c ∈ hexDigits, c.toUpper.toNat < 71 ∧ c ≠ '.' ∧ c ≠ ':' ∧ c ≠ ' ' ∧
      isControl c = false := fun c hc => of_decide_eq_true (List.all_eq_true.1 hall c hc)
  have hdevice : isDeviceSegment l = false := by
    rw [isDeviceSegment, List.any_eq_false]
    intro r hr heq
    have hbase : deviceBase l <+: l.map Char.toUpper :=
      (List.rdropWhile_prefix _ _).trans (List.takeWhile_prefix _)
    have hlow : ∀ c ∈ r.toList, c.toNat < 71 := by
      intro c hc
      rw [eq_of_beq heq] at hc
      obtain ⟨d, hd, rfl⟩ := List.mem_map.1 (hbase.subset hc)
      exact (hdigit d (hhex d hd)).1
    have hsome : ∀ r ∈ reservedNames ++ ["CONIN$", "CONOUT$"],
        (r.toList.all fun c => c.toNat < 71) = false := by decide
    have hno := hsome r hr
    rw [List.all_eq_true.2 (by simpa using hlow)] at hno
    cases hno
  have hlast : ∀ c ∈ l.getLast?, c ≠ '.' ∧ c ≠ ' ' := fun c hc =>
    ⟨(hdigit c (hhex c (List.mem_of_getLast? hc))).2.1,
      (hdigit c (hhex c (List.mem_of_getLast? hc))).2.2.2.1⟩
  have hcolon : ':' ∉ l := fun hmem => (hdigit _ (hhex _ hmem)).2.2.1 rfl
  have hcontrol : l.any isControl = false := by
    rw [List.any_eq_false]
    intro c hc
    simp [(hdigit c (hhex c hc)).2.2.2.2]
  have hdot : ¬(l = ['.'] ∨ l = ['.', '.']) := by
    rintro (rfl | rfl) <;> exact (hlast '.' rfl).1 rfl
  have hends : ¬(':' ∈ l ∨ l.getLast? = some '.' ∨ l.getLast? = some ' ') := by
    rintro (h | h | h)
    · exact hcolon h
    · exact (hlast '.' h).1 rfl
    · exact (hlast ' ' h).2 rfl
  rw [checkSegment, if_neg hne, if_neg (by omega), if_neg hdot, hdevice, if_neg Bool.false_ne_true,
    if_neg hends, hcontrol, if_neg Bool.false_ne_true]

lemma byteLen_toList (s : String) : byteLen s.toList = s.utf8ByteSize := by
  conv_rhs => rw [← String.ofList_toList (s := s)]
  exact (Base64.utf8ByteSize_ofList _).symm

lemma byteLen_hex {l : List Char} (h : ∀ c ∈ l, c ∈ hexDigits) : byteLen l = l.length := by
  have hall : hexDigits.all (fun c => decide (c.utf8Size = 1)) = true := by decide
  have hone : ∀ c ∈ hexDigits, c.utf8Size = 1 := fun c hc =>
    of_decide_eq_true (List.all_eq_true.1 hall c hc)
  induction l with
  | nil => rfl
  | cons c l ih =>
    rw [byteLen_cons, hone c (h c List.mem_cons_self), ih fun d hd =>
      h d (List.mem_cons_of_mem _ hd), List.length_cons, Nat.add_comm]

def libraryName : List Char := ['l', 'i', 'b', 'r', 'a', 'r', 'y']

/-- The components of a stored path. -/
def components (sha out : List Char) : List (List Char) :=
  [libraryName, sha.take 2, (sha.drop 2).take 2, sha, out]

variable {sha : String}

lemma length_of_hex (hlen : sha.utf8ByteSize = 64) (hhex : ∀ c ∈ sha.toList, c ∈ hexDigits) :
    sha.toList.length = 64 := by
  rw [← byteLen_hex hhex, byteLen_toList, hlen]

/-- The directories are accepted; so the first answer is the one about the name. -/
lemma checkSegments_components (hsha : validateSha sha = .ok ()) :
    checkSegments (components sha.toList out) = checkSegments [out] := by
  obtain ⟨hlen, hhex⟩ := hex_of_validateSha hsha
  have hcount := length_of_hex hlen hhex
  have hdir : ∀ l : List Char, l <:+: sha.toList → l ≠ [] → checkSegment l = .ok () := by
    intro l hl hne
    have hl' : ∀ c ∈ l, c ∈ hexDigits := fun c hc => hhex c (hl.subset hc)
    refine checkSegment_hex hl' hne ?_
    rw [byteLen_hex hl', ← hcount]
    exact hl.length_le
  have h₁ : checkSegment (sha.toList.take 2) = .ok () :=
    hdir _ (List.take_prefix _ _).isInfix (List.ne_nil_of_length_pos (by simp [hcount]))
  have h₂ : checkSegment ((sha.toList.drop 2).take 2) = .ok () :=
    hdir _ ((List.take_prefix _ _).isInfix.trans (List.drop_suffix _ _).isInfix)
      (List.ne_nil_of_length_pos (by simp [hcount]))
  have h₃ : checkSegment sha.toList = .ok () :=
    hdir _ List.infix_rfl (List.ne_nil_of_length_pos (by simp [hcount]))
  have h₀ : checkSegment libraryName = .ok () := by decide
  unfold components
  rw [checkSegments, h₀, checkSegments, h₁, checkSegments, h₂, checkSegments, h₃]

/-- The path of the directory. -/
def directory (sha : List Char) : List Char :=
  libraryName ++ '/' :: (sha.take 2 ++ '/' :: ((sha.drop 2).take 2 ++ '/' :: sha))

lemma intercalate_components (sha out : List Char) :
    ['/'].intercalate (components sha out) = directory sha ++ '/' :: out := by
  simp [components, directory, List.intercalate]

/-- The characters of a directory. -/
def directoryChars : List Char := '/' :: libraryName ++ hexDigits

lemma mem_directory {sha : List Char} (hhex : ∀ c ∈ sha, c ∈ hexDigits) {c : Char}
    (hc : c ∈ directory sha) : c ∈ directoryChars := by
  have hslash : '/' ∈ directoryChars := List.mem_cons_self
  have hname : ∀ c ∈ libraryName, c ∈ directoryChars := fun c hc =>
    List.mem_append_left _ (List.mem_cons_of_mem _ hc)
  have hdigit : ∀ c ∈ sha, c ∈ directoryChars := fun c hc => List.mem_append_right _ (hhex c hc)
  simp only [directory, List.mem_append, List.mem_cons] at hc
  rcases hc with hc | rfl | hc | rfl | hc | rfl | hc
  · exact hname c hc
  · exact hslash
  · exact hdigit c (List.mem_of_mem_take hc)
  · exact hslash
  · exact hdigit c (List.mem_of_mem_drop (List.mem_of_mem_take hc))
  · exact hslash
  · exact hdigit c hc

/-- **The validator reads the path of a stored name as its components**, and asks of the name
alone. -/
lemma Stored.lexicalChecks_eq (hnfc : IsNfc nfc) (h : Stored nfc out)
    (hsha : validateSha sha = .ok ()) :
    lexicalChecks nfc (['/'].intercalate (components sha.toList out)) =
      match checkSegments [out] with
      | .error e => .error e
      | .ok () => .ok (components sha.toList out) := by
  obtain ⟨hlen, hhex⟩ := hex_of_validateSha hsha
  have hcount := length_of_hex hlen hhex
  have hall : directoryChars.all (fun c => decide (c.toNat < 128 ∧ isControl c = false ∧ c ≠ '\\' ∧
      c ≠ '\x00')) = true := by decide
  have hchars : ∀ c ∈ directoryChars, c.toNat < 128 ∧ isControl c = false ∧ c ≠ '\\' ∧ c ≠ '\x00' :=
    fun c hc => of_decide_eq_true (List.all_eq_true.1 hall c hc)
  have hdir : ∀ c ∈ directory sha.toList, c ∈ directoryChars := fun c hc => mem_directory hhex hc
  have hsafe : ∀ c ∈ directory sha.toList ++ '/' :: out,
      isControl c = false ∧ c ≠ '\\' ∧ c ≠ '\x00' := by
    intro c hc
    rcases List.mem_append.1 hc with hc | hc
    · exact ⟨(hchars c (hdir c hc)).2.1, (hchars c (hdir c hc)).2.2.1, (hchars c (hdir c hc)).2.2.2⟩
    · rcases List.mem_cons.1 hc with rfl | hc
      · decide
      · have hfree := h.safe c hc
        simp only [isUnsafe, Bool.or_eq_false_iff, beq_eq_false_iff_ne] at hfree
        refine ⟨hfree.1.1.1, hfree.2, ?_⟩
        rintro rfl
        exact absurd hfree.1.1.1 (by decide)
  have hsmall : byteLen out ≤ 255 := h.small
  have hsep : ('/' : Char).utf8Size = 1 := by decide
  have htake : ∀ n, ∀ c ∈ sha.toList.take n, c ∈ hexDigits := fun n c hc =>
    hhex c (List.mem_of_mem_take hc)
  have hdrop : ∀ c ∈ (sha.toList.drop 2).take 2, c ∈ hexDigits := fun c hc =>
    hhex c (List.mem_of_mem_drop (List.mem_of_mem_take hc))
  have hbytes : byteLen (directory sha.toList) = 78 := by
    have hname : byteLen libraryName = 7 := by decide
    simp only [directory, byteLen_append, byteLen_cons, byteLen_hex (htake 2), byteLen_hex hdrop,
      byteLen_hex hhex, List.length_take, List.length_drop, hcount, hname, hsep]
    rfl
  have hnfcPath : nfc (directory sha.toList ++ '/' :: out) = directory sha.toList ++
      '/' :: out := by
    rw [hnfc.slash, h.composed, hnfc.ascii _ fun c hc => (hchars c (hdir c hc)).1]
  have hhead : ∃ rest, directory sha.toList ++ '/' :: out = 'l' :: 'i' :: rest := ⟨_, rfl⟩
  have hslash : ∀ l ∈ components sha.toList out, '/' ∉ l := by
    have hno : '/' ∉ sha.toList := fun hmem => absurd (hhex _ hmem) (by decide)
    have hout : '/' ∉ out := fun hmem => absurd (h.safe _ hmem) (by decide)
    simp only [components, List.forall_mem_cons]
    exact ⟨by decide, fun hmem => hno (List.mem_of_mem_take hmem),
      fun hmem => hno (List.mem_of_mem_drop (List.mem_of_mem_take hmem)), hno, hout,
      fun l hl => (List.not_mem_nil hl).elim⟩
  have hsplit : (directory sha.toList ++ '/' :: out).splitOn '/' = components sha.toList out := by
    rw [← intercalate_components, List.splitOn_intercalate _ hslash (List.cons_ne_nil _ _)]
  rw [intercalate_components]
  have hnil : directory sha.toList ++ '/' :: out ≠ [] := by simp
  have hshort : ¬4096 < byteLen (directory sha.toList ++ '/' :: out) := by
    rw [byteLen_append, byteLen_cons, hbytes, hsep]
    omega
  have hrelative : ¬((directory sha.toList ++ '/' :: out).head? = some '/' ∨
      (directory sha.toList ++ '/' :: out).head? = some '\\' ∨
      (encodeUtf8 (directory sha.toList ++ '/' :: out))[1]? = some 58) := by
    obtain ⟨rest, hrest⟩ := hhead
    have hsecond : (encodeUtf8 ('l' :: 'i' :: rest))[1]? = some 105 := rfl
    rw [hrest, hsecond]
    simp
  have hcontrol : ¬(directory sha.toList ++ '/' :: out).any isControl = true := by
    rw [Bool.not_eq_true, List.any_eq_false]
    exact fun c hc => by simp [(hsafe c hc).1]
  have htotal : ¬4096 < ((components sha.toList out).map byteLen).sum +
      ((components sha.toList out).length - 1) := by
    have hname : byteLen libraryName = 7 := by decide
    simp only [components, List.map_cons, List.map_nil, List.sum_cons, List.sum_nil,
      List.length_cons, List.length_nil, byteLen_hex (htake 2), byteLen_hex hdrop, byteLen_hex hhex,
      List.length_take,
      List.length_drop, hcount, hname]
    omega
  rw [lexicalChecks, if_neg hnil, if_neg hshort, if_neg hrelative,
    if_neg fun hmem => (hsafe _ hmem).2.1 rfl, if_neg fun hmem => (hsafe _ hmem).2.2 rfl,
    if_neg hcontrol, if_neg (not_not.2 hnfcPath.symm)]
  dsimp only
  rw [hsplit, checkSegments_components hsha, if_neg htotal]
  rfl

/-! ### The two agree -/

/-- What the importer and the downloader rely on once a name is stored. -/
structure Agrees (nfc : List Char → List Char) (out : String) : Prop where
  nonempty : out ≠ ""
  small : out.utf8ByteSize ≤ 255
  again : sanitize nfc out = .ok out
  readable : ∀ sha, validateSha sha = .ok () →
    ∃ segments, lexicalChecks nfc (relPath sha out).toList = .ok segments

/-- The path of a row is the path of its components. -/
lemma relPath_components (sha name : String) :
    (relPath sha name).toList = ['/'].intercalate (components sha.toList name.toList) := by
  have hname : "library".toList = libraryName := by decide
  rw [relPath_toList, hname]
  rfl

lemma sanitize_eq_ok {nfc : List Char → List Char} {name out : String} :
    sanitize nfc name = .ok out ↔ sanitizeChars nfc name.toList = .ok out.toList := by
  unfold sanitize
  cases sanitizeChars nfc name.toList with
  | error e => exact ⟨by rintro ⟨⟩, by rintro ⟨⟩⟩
  | ok chars =>
    simp only [Except.map, Except.ok.injEq]
    exact ⟨fun h => h ▸ String.toList_ofList.symm, fun h => h ▸ String.ofList_toList⟩

/-- **A stored name is readable exactly when the validator takes it for no device**: the name as the
sanitizer keeps it, up to its first dot and without white space at its end. -/
theorem sanitized_agrees_iff (hnfc : IsNfc nfc) {name out : String}
    (h : sanitize nfc name = .ok out) :
    Agrees nfc out ↔ isDeviceSegment (keptName nfc name.toList) = false := by
  have hchars := sanitize_eq_ok.1 h
  have hstored := stored_of_sanitizeChars hnfc hchars
  have hdevice : isDeviceSegment out.toList = isDeviceSegment (keptName nfc name.toList) := by
    rw [(sanitizeChars_eq_ok hchars).1, isDeviceSegment, deviceBase_trimEnd, isDeviceSegment]
  have hread : ∀ sha, validateSha sha = .ok () → lexicalChecks nfc (relPath sha out).toList =
      if isDeviceSegment out.toList then .error (.reservedName out)
      else .ok (components sha.toList out.toList) := by
    intro sha hsha
    rw [relPath_components, hstored.lexicalChecks_eq hnfc hsha, checkSegments,
      hstored.checkSegment_eq, String.ofList_toList]
    by_cases hdev : isDeviceSegment out.toList = true
    · rw [if_pos hdev, if_pos hdev]
    · rw [if_neg hdev, if_neg hdev]
      rfl
  rw [← hdevice]
  constructor
  · intro hagrees
    by_contra hdev
    rw [Bool.not_eq_false] at hdev
    have hzeros := validateSha_replicate (c := '0') (by decide)
    obtain ⟨segments, hok⟩ := hagrees.readable _ hzeros
    rw [hread _ hzeros, if_pos hdev] at hok
    cases hok
  · intro hdev
    refine ⟨?_, ?_, sanitize_eq_ok.2 hstored.sanitizeChars_eq, fun sha hsha => ?_⟩
    · rintro rfl
      exact hstored.nonempty rfl
    · rw [← byteLen_toList]
      exact hstored.small
    · rw [hread sha hsha, hdev, if_neg Bool.false_ne_true]
      exact ⟨_, rfl⟩

/-! ### A device with a space -/

lemma isNfc_id : IsNfc id := ⟨fun _ => rfl, fun _ _ _ => rfl, fun _ _ => rfl, fun _ _ => rfl,
  fun _ _ hc _ => hc⟩

/-- **`CON .txt` is stored and cannot be read**: the sanitizer compares the name before the dot as
it is, the validator without the space. -/
theorem not_sanitized_agrees : sanitize id "CON .txt" = .ok "CON .txt" ∧
    validateSha (String.ofList (List.replicate 64 'a')) = .ok () ∧
    lexicalChecks id (relPath (String.ofList (List.replicate 64 'a')) "CON .txt").toList =
      .error (.reservedName "CON .txt") ∧
    ¬Agrees id "CON .txt" := by
  have hsha := validateSha_replicate (c := 'a') (by decide)
  have hread :
      lexicalChecks id (relPath (String.ofList (List.replicate 64 'a')) "CON .txt").toList =
      .error (.reservedName "CON .txt") := by
    rw [relPath_toList, String.toList_ofList]
    decide
  refine ⟨by decide, hsha, hread, fun hagrees => ?_⟩
  obtain ⟨segments, hok⟩ := hagrees.readable _ hsha
  rw [hread] at hok
  cases hok

theorem sanitized_agrees_film : Agrees id "film.mkv" := by
  have h : sanitize id "shows/film.mkv" = .ok "film.mkv" := by decide
  exact (sanitized_agrees_iff isNfc_id h).2 (by decide)

end Locast.Library

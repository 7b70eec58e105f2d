import Mathlib.Data.List.DropRight
import Mathlib.Tactic.SplitIfs

/-!
# File names (`core/library/sanitize.rs`)

The sanitizer keeps the last component of a path and makes of it a name that every platform can
hold, or refuses it.  Unicode's canonical composition is a parameter.
-/

namespace Locast.Library

/-- `MAX_BYTES`. -/
def maxBytes : ℕ := 255

/-- `FORBIDDEN_CHARS`. -/
def forbiddenChars : List Char := ['<', '>', ':', '"', '|', '?', '*']

/-- `RESERVED_NAMES`. -/
def reservedNames : List String :=
  ["CON", "PRN", "AUX", "NUL", "COM1", "COM2", "COM3", "COM4", "COM5", "COM6", "COM7", "COM8",
    "COM9", "LPT1", "LPT2", "LPT3", "LPT4", "LPT5", "LPT6", "LPT7", "LPT8", "LPT9"]

/-- The only way a name is refused. -/
inductive InvalidFilename where
  | invalidFilename
  deriving DecidableEq

def InvalidFilename.display : InvalidFilename → String
  | invalidFilename => "invalid filename"

/-- What stands after the last separator. -/
def lastComponent (name : List Char) : List Char := name.rtakeWhile fun c => c ≠ '\\' ∧ c ≠ '/'

def isControl (c : Char) : Bool := c.toNat < 0x20 || (0x7F ≤ c.toNat && c.toNat ≤ 0x9F)

/-- Control characters and those that Windows forbids become `_`. -/
def replaceChar (c : Char) : Char := if isControl c ∨ c ∈ forbiddenChars then '_' else c

/-- The dots and spaces at the end go. -/
def trimEnd (name : List Char) : List Char := name.rdropWhile fun c => c = '.' ∨ c = ' '

/-- The part before the first dot is a device name, in any case. -/
def isReservedName (name : List Char) : Bool :=
  reservedNames.any fun r => r.toList == (name.takeWhile (· != '.')).map Char.toUpper

/-- As many whole characters as fit. -/
def truncateBytes : ℕ → List Char → List Char
  | _, [] => []
  | budget, c :: rest =>
    if budget < c.utf8Size then [] else c :: truncateBytes (budget - c.utf8Size) rest

/-- `sanitize`, on characters. -/
def sanitizeChars (nfc : List Char → List Char) (name : List Char) :
    Except InvalidFilename (List Char) :=
  let last := lastComponent name
  if last = [] ∨ last = ['.'] ∨ last = ['.', '.'] then .error .invalidFilename
  else
    let stripped := trimEnd (last.map replaceChar)
    if stripped = [] then .error .invalidFilename
    else
      let composed := nfc stripped
      if isReservedName composed then .error .invalidFilename
      else
        -- the cut may end on a dot or leave a device name, so both are looked at again
        let out := trimEnd (truncateBytes maxBytes composed)
        if out = [] ∨ isReservedName out then .error .invalidFilename else .ok out

/-- `sanitize`. -/
def sanitize (nfc : List Char → List Char) (name : String) : Except InvalidFilename String :=
  (sanitizeChars nfc name.toList).map String.ofList

/-- A name whose characters are kept is kept. -/
lemma sanitize_of_chars {nfc : List Char → List Char} {name : String}
    (h : sanitizeChars nfc name.toList = .ok name.toList) : sanitize nfc name = .ok name := by
  rw [sanitize, h, Except.map, String.ofList_toList]

lemma sanitize_film : sanitize id "film.mkv" = .ok "film.mkv" := sanitize_of_chars (by decide)

/-! ### What a sanitized name is -/

lemma slash_not_mem_lastComponent (name : List Char) : '/' ∉ lastComponent name := fun h => by
  have := List.mem_rtakeWhile_imp h
  simp at this

lemma slash_ne_replaceChar {c : Char} (h : c ≠ '/') : replaceChar c ≠ '/' := by
  unfold replaceChar
  split
  · decide
  · exact h

lemma mem_trimEnd {name : List Char} {c : Char} (h : c ∈ trimEnd name) : c ∈ name :=
  (List.rdropWhile_prefix _ _).subset h

lemma mem_truncateBytes {budget : ℕ} {name : List Char} {c : Char}
    (h : c ∈ truncateBytes budget name) : c ∈ name := by
  induction name generalizing budget with
  | nil => simp [truncateBytes] at h
  | cons d rest ih =>
    rw [truncateBytes] at h
    split at h
    · simp at h
    · rcases List.mem_cons.1 h with rfl | h
      · exact List.mem_cons_self
      · exact List.mem_cons_of_mem _ (ih h)

/-- Trimmed names do not end on a dot. -/
lemma trimEnd_ne {name l : List Char} : trimEnd name ≠ l ++ ['.'] := fun h => by
  have hne : trimEnd name ≠ [] := by rw [h]; simp
  have hlast : ¬decide ((trimEnd name).getLast hne = '.' ∨ (trimEnd name).getLast hne = ' ') =
      true :=
    List.rdropWhile_last_not (fun c => decide (c = '.' ∨ c = ' ')) name hne
  have hdot : (trimEnd name).getLast hne = '.' := by simp [h]
  exact hlast (by simp [hdot])

/-- **A sanitized name** is one component of a path: not empty, no separator in it, and not one of
the two that lead elsewhere.  Composition must not make a separator. -/
theorem component_of_sanitize {nfc : List Char → List Char} (hnfc : ∀ l, '/' ∈ nfc l → '/' ∈ l)
    {name out : String} (h : sanitize nfc name = .ok out) :
    out.toList ≠ [] ∧ out.toList ≠ ['.'] ∧ out.toList ≠ ['.', '.'] ∧ '/' ∉ out.toList := by
  unfold sanitize at h
  cases hchars : sanitizeChars nfc name.toList with
  | error e =>
    rw [hchars] at h
    cases h
  | ok chars =>
    rw [hchars] at h
    obtain rfl := Except.ok.inj h
    rw [String.toList_ofList]
    unfold sanitizeChars at hchars
    dsimp only at hchars
    split_ifs at hchars with h₁ h₂ h₃ h₄
    obtain rfl := Except.ok.inj hchars
    rw [not_or] at h₄
    refine ⟨h₄.1, fun heq => trimEnd_ne (l := []) heq, fun heq => trimEnd_ne (l := ['.']) heq,
      fun hmem => ?_⟩
    have hcomposed := mem_trimEnd (hnfc _ (mem_truncateBytes (mem_trimEnd hmem)))
    obtain ⟨c, hc, hslash⟩ := List.mem_map.1 hcomposed
    refine slash_ne_replaceChar ?_ hslash
    rintro rfl
    exact slash_not_mem_lastComponent _ hc

end Locast.Library

import Locast.Rooms.Events

/-!
# Room codes, names and titles (`rooms/codes.rs`, `rooms/validation.rs`)
-/

namespace Locast.Rooms

open Locast.Protocol

/-- `ALPHABET`. -/
def codeAlphabet : List Char := "ABCDEFGHJKLMNPQRSTUVWXYZ23456789".toList

/-- `CODE_LEN`. -/
def codeLen : ℕ := 6

def isValidCode (s : String) : Bool := s.utf8ByteSize = codeLen && s.toList.all (· ∈ codeAlphabet)

/-- `normalize`: the code in upper case, if it is one. -/
def normalizeCode (s : String) : Option String :=
  let upper := s.map Char.toUpper
  if isValidCode upper then some upper else none

def maxDisplayNameChars : ℕ := 32
def maxRoomTitleChars : ℕ := 80

def isDeceptiveFormatChar (c : Char) : Bool :=
  let n := c.toNat
  n = 0x061C || n = 0x200B || n = 0x200E || n = 0x200F ||
    (0x202A ≤ n && n ≤ 0x202E) || n = 0x2060 ||
    (0x2066 ≤ n && n ≤ 0x2069) || n = 0xFEFF

/-- A C0 or C1 control character, or one that hides or reorders text. -/
def isForbiddenChar (c : Char) : Bool :=
  let n := c.toNat
  n < 0x20 || (0x7F ≤ n && n ≤ 0x9F) || isDeceptiveFormatChar c

def validateRoomTitle (title : String) : Except RoomError Unit :=
  if maxRoomTitleChars < title.toList.length then .error .invalidState
  else if title.toList.any isForbiddenChar then .error .invalidState
  else .ok ()

/-- Unicode `White_Space`, which `str::trim` removes. -/
def isWhitespace (c : Char) : Bool :=
  let n := c.toNat
  (0x09 ≤ n && n ≤ 0x0D) || n = 0x20 || n = 0x85 || n = 0xA0 || n = 0x1680 ||
    (0x2000 ≤ n && n ≤ 0x200A) || n = 0x2028 || n = 0x2029 || n = 0x202F || n = 0x205F || n = 0x3000

/-- `name == name.trim()`. -/
def isTrimmed (name : String) : Bool :=
  !name.toList.head?.any isWhitespace && !name.toList.getLast?.any isWhitespace

/-- A trimmed name is its own `trim_ascii`. -/
def validateDisplayName (name : String) : Except RoomError Unit :=
  if name.isEmpty then .error .invalidState
  else if !isTrimmed name then .error .invalidState
  else if maxDisplayNameChars < name.toList.length then .error .invalidState
  else if name.toList.any isForbiddenChar then .error .invalidState
  else .ok ()

end Locast.Rooms

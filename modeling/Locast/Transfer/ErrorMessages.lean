import Locast.Lib.StrSlice
import Locast.Library.LibraryPath

/-!
# Error messages (`transfer/events.rs`)

What a peer or the system said is shown to the user without paths, long tokens and control
characters, and not at length.  Three passes take out what they find, one after the other, and what
is left is cut.

The passes look at characters, which may carry more with them, such as where they stood.
-/

namespace Locast.Transfer.Messages

open Locast.Lib

/-- `SANITIZE_MAX_BYTES`. -/
def sanitizeMaxBytes : ℕ := 256

/-- `SANITIZE_LONG_TOKEN_MIN`. -/
def longTokenMin : ℕ := 40

section

variable {α : Type} (ch : α → Char)

/-! ### The passes -/

/-- `u8::is_ascii_whitespace`. -/
def isAsciiWhitespace (c : Char) : Bool :=
  c == ' ' || c == '\t' || c == '\n' || c == '\x0c' || c == '\r'

/-- A path goes on. -/
def isPathChar (c : Char) : Bool := !isAsciiWhitespace c && c != '"' && c != ':'

def isSlash (c : Char) : Bool := c == '\\' || c == '/'

/-- The first pass: after the start of a path, of one of three kinds, its characters are skipped. -/
def stripPaths : Bool → List α → List α
  | _, [] => []
  | skipping, a :: rest =>
    if skipping && isPathChar (ch a) then stripPaths true rest
    else
      match rest with
      | b :: c :: rest' =>
        if (ch a).isAlpha && ch b == ':' && isSlash (ch c) then stripPaths true rest'
        else if ch a == '/' then stripPaths true (b :: c :: rest')
        else if ch a == '\\' && ch b == '\\' then stripPaths true (c :: rest')
        else a :: stripPaths false (b :: c :: rest')
      | [b] =>
        if ch a == '/' then stripPaths true [b]
        else if ch a == '\\' && ch b == '\\' then []
        else a :: stripPaths false [b]
      | [] => if ch a == '/' then [] else [a]

/-- `is_tok_char`. -/
def isTokenChar (c : Char) : Bool :=
  c.isAlphanum || c == '_' || c == '-' || c == '+' || c == '/' || c == '=' || c == '.'

/-- A run is kept if it is short. -/
def keepRun (run : List α) : List α := if longTokenMin ≤ run.length then [] else run

/-- The second pass; `run` is what has been read of a token. -/
def stripTokens : List α → List α → List α
  | run, [] => keepRun run
  | run, a :: rest =>
    if isTokenChar (ch a) then stripTokens (run ++ [a]) rest
    else keepRun run ++ a :: stripTokens [] rest

/-- The third pass. -/
def stripControls (l : List α) : List α := l.filter fun a => !Library.isControl (ch a)

/-- What the three passes leave. -/
def kept (l : List α) : List α := stripControls ch (stripTokens ch [] (stripPaths ch false l))

end

/-! ### The cut -/

def isCharBoundary (s : List Char) (k : ℕ) : Bool := (getTo s k).isSome

/-- The last end of a character up to an offset. -/
def cutAt (s : List Char) : ℕ → ℕ
  | 0 => 0
  | k + 1 => if isCharBoundary s (k + 1) then k + 1 else cutAt s k

def endsWithWhitespace (s : List Char) : Bool := s.getLast?.any Rooms.isWhitespace

/-- Back from an offset to white space, not below the bound.  A slice that ends inside a character
has no result: the code panics. -/
def walkBack (s : List Char) (bound : ℕ) : ℕ → Option ℕ
  | 0 => some 0
  | k + 1 =>
    if bound < k + 1 then
      (getTo s (k + 1)).bind fun t =>
        if endsWithWhitespace t then some (k + 1) else walkBack s bound k
    else some (k + 1)

def truncate (s : List Char) : Option (List Char) :=
  if sanitizeMaxBytes < byteLen s then do
    let cut := cutAt s sanitizeMaxBytes
    let boundary ← walkBack s (cut - 32) cut
    let t ← getTo s boundary
    return t ++ "...".toList
  else some s

/-- `sanitize_error_message`. -/
def sanitizeErrorMessage (input : List Char) : Option (List Char) := truncate (kept id input)

/-! ### What the cut leaves -/

/-- What stands after the last white space. -/
def lastWord (s : List Char) : List Char := s.rtakeWhile fun c => !Rooms.isWhitespace c

/-- As much as is shown: all, or what fits, back to white space or by 32 characters. -/
def shown (s : List Char) : List Char :=
  if sanitizeMaxBytes < byteLen s then
    (Library.truncateBytes sanitizeMaxBytes s).rdrop
      (min 32 (lastWord (Library.truncateBytes sanitizeMaxBytes s)).length)
  else s

/-- **The walk back meets no character of several bytes.** -/
def AsciiEnd (s : List Char) : Prop :=
  ∀ c ∈ (lastWord (Library.truncateBytes sanitizeMaxBytes s)).reverse.take 32, c.utf8Size = 1

instance (s : List Char) : Decidable (AsciiEnd s) :=
  inferInstanceAs (Decidable (∀ c ∈ (lastWord _).reverse.take 32, c.utf8Size = 1))

lemma isCharBoundary_iff {s : List Char} {k : ℕ} :
    isCharBoundary s k = true ↔ ∃ t, t <+: s ∧ byteLen t = k := by
  unfold isCharBoundary
  rw [Option.isSome_iff_exists]
  constructor
  · rintro ⟨t, ht⟩
    exact ⟨t, getTo_eq_some ht⟩
  · rintro ⟨t, ⟨u, rfl⟩, rfl⟩
    exact ⟨t, getTo_append t u⟩

lemma prefix_truncateBytes {s t : List Char} {n : ℕ} (h : t <+: s) (hlen : byteLen t ≤ n) :
    t <+: Library.truncateBytes n s := by
  induction s generalizing t n with
  | nil =>
    rw [List.prefix_nil.1 h]
    exact List.nil_prefix
  | cons c s ih =>
    cases t with
    | nil => exact List.nil_prefix
    | cons d t =>
      obtain ⟨rfl, ht⟩ := List.cons_prefix_cons.1 h
      rw [byteLen_cons] at hlen
      rw [Library.truncateBytes, if_neg (by omega)]
      exact List.cons_prefix_cons.2 ⟨rfl, ih ht (by omega)⟩

/-- The cut is behind the last character that fits. -/
lemma cutAt_eq (s : List Char) (n : ℕ) : cutAt s n = byteLen (Library.truncateBytes n s) := by
  have hpre : ∀ m, Library.truncateBytes m s <+: s := fun m => Library.truncateBytes_prefixed m s
  have hfit : ∀ m, byteLen (Library.truncateBytes m s) ≤ m := fun m =>
    Library.byteLen_truncateBytes m s
  induction n with
  | zero =>
    have := hfit 0
    rw [cutAt]
    omega
  | succ n ih =>
    have hle := hfit (n + 1)
    rw [cutAt]
    split_ifs with hboundary
    · obtain ⟨t, ht, hlen⟩ := isCharBoundary_iff.1 hboundary
      have := Library.byteLen_le_of_isPrefix (prefix_truncateBytes ht hlen.le)
      omega
    · have hne : byteLen (Library.truncateBytes (n + 1) s) ≠ n + 1 := fun heq =>
        hboundary (isCharBoundary_iff.2 ⟨_, hpre _, heq⟩)
      have hup := Library.byteLen_le_of_isPrefix
        (prefix_truncateBytes (hpre (n + 1)) (by omega : _ ≤ n))
      have hdown := Library.byteLen_le_of_isPrefix
        (prefix_truncateBytes (n := n + 1) (hpre n) ((hfit n).trans (Nat.le_succ n)))
      omega

/-- **The walk back**, and what it leaves: one character at a step, if the characters have one
byte. -/
lemma walkBack_bind {s : List Char} (bound : ℕ) {t : List Char} (ht : t <+: s)
    (hbound : bound ≤ byteLen t) :
    (walkBack s bound (byteLen t)).bind (getTo s) =
      if ((lastWord t).reverse.take (byteLen t - bound)).all (·.utf8Size == 1) then
        some (t.rdrop (min (byteLen t - bound) (lastWord t).length))
      else none := by
  induction t using List.reverseRecOn with
  | nil =>
    rw [byteLen_nil, walkBack, Option.bind_some, getTo_zero, Nat.zero_sub, List.take_zero,
      Nat.zero_min, List.rdrop_zero, if_pos (by simp)]
  | append_singleton t c ih =>
    have hself : getTo s (byteLen (t ++ [c])) = some (t ++ [c]) := by
      obtain ⟨u, rfl⟩ := ht
      exact getTo_append _ u
    have hwhole : byteLen (t ++ [c]) = byteLen t + c.utf8Size := byteLen_append t [c]
    obtain ⟨n, hn⟩ : ∃ n, byteLen (t ++ [c]) = n + 1 :=
      Nat.exists_eq_succ_of_ne_zero (by have := c.utf8Size_pos; omega)
    by_cases hstop : bound < n + 1
    swap
    · have hzero : byteLen (t ++ [c]) - bound = 0 := by omega
      rw [hzero, List.take_zero, Nat.zero_min, List.rdrop_zero, if_pos (by simp), hn, walkBack,
        if_neg hstop, Option.bind_some, ← hn, hself]
    have hlast : endsWithWhitespace (t ++ [c]) = Rooms.isWhitespace c := by
      rw [endsWithWhitespace, List.getLast?_concat, Option.any_some]
    rw [hn, walkBack, if_pos hstop, ← hn, hself, Option.bind_some, hlast]
    by_cases hblank : Rooms.isWhitespace c = true
    · have hword : lastWord (t ++ [c]) = [] := List.rtakeWhile_concat_neg _ _ _ (by simp [hblank])
      rw [if_pos hblank, Option.bind_some, hself, hword, List.reverse_nil, List.take_nil,
        List.length_nil, Nat.min_zero, List.rdrop_zero, if_pos (by simp)]
    rw [if_neg hblank]
    rw [Bool.not_eq_true] at hblank
    have hword : lastWord (t ++ [c]) = lastWord t ++ [c] :=
      List.rtakeWhile_concat_pos _ _ _ (by simp [hblank])
    obtain ⟨k, hk⟩ : ∃ k, byteLen (t ++ [c]) - bound = k + 1 := ⟨n - bound, by omega⟩
    rw [hword, List.reverse_append, List.reverse_singleton, List.singleton_append, hk,
      List.take_succ_cons, List.length_append, List.length_singleton]
    by_cases hone : c.utf8Size = 1
    · have hn' : n = byteLen t := by omega
      have hk' : byteLen t - bound = k := by omega
      rw [hn', ih ((List.prefix_append t [c]).trans ht) (by omega), hk', Nat.add_min_add_right,
        List.rdrop_concat_succ]
      simp only [List.all_cons, hone, beq_self_eq_true, Bool.true_and]
    · have hpos := c.utf8Size_pos
      have hinside : getTo s n = none := getTo_eq_none ht (by omega) (by omega)
      rw [if_neg (by simp [hone])]
      obtain ⟨m, rfl⟩ : ∃ m, n = m + 1 := ⟨n - 1, by omega⟩
      rw [walkBack]
      split_ifs
      · rw [hinside]
        rfl
      · rw [Option.bind_some, hinside]

lemma length_le_byteLen (s : List Char) : s.length ≤ byteLen s := by
  induction s with
  | nil => exact le_rfl
  | cons c s ih =>
    have := c.utf8Size_pos
    rw [List.length_cons, byteLen_cons]
    omega

lemma truncate_of_long {s : List Char} (hlong : sanitizeMaxBytes < byteLen s) : truncate s =
    ((walkBack s (cutAt s sanitizeMaxBytes - 32) (cutAt s sanitizeMaxBytes)).bind (getTo s)).map
      (· ++ "...".toList) := by
  rw [truncate, if_pos hlong]
  dsimp only
  cases walkBack s (cutAt s sanitizeMaxBytes - 32) (cutAt s sanitizeMaxBytes) with
  | none => rfl
  | some boundary =>
    rw [Option.bind_eq_bind, Option.bind_some, Option.bind_some]
    cases getTo s boundary <;> rfl

/-- **What a message is cut to.** -/
lemma truncate_eq (s : List Char) : truncate s =
    if sanitizeMaxBytes < byteLen s then
      if AsciiEnd s then some (shown s ++ "...".toList) else none
    else some (shown s) := by
  by_cases hlong : sanitizeMaxBytes < byteLen s
  swap
  · rw [if_neg hlong, truncate, if_neg hlong, shown, if_neg hlong]
  obtain ⟨t, ht⟩ : ∃ t, t = Library.truncateBytes sanitizeMaxBytes s := ⟨_, rfl⟩
  have hpre : t <+: s := ht ▸ Library.truncateBytes_prefixed sanitizeMaxBytes s
  have hword : (lastWord t).length ≤ byteLen t :=
    (List.rtakeWhile_suffix _ t).length_le.trans (length_le_byteLen t)
  have htake : (lastWord t).reverse.take (byteLen t - (byteLen t - 32)) =
      (lastWord t).reverse.take 32 := by
    rw [List.take_eq_take_iff, List.length_reverse]
    omega
  have hmin : min (byteLen t - (byteLen t - 32)) (lastWord t).length =
      min 32 (lastWord t).length := by
    omega
  have hwalk := walkBack_bind (byteLen t - 32) hpre (Nat.sub_le _ _)
  rw [htake, hmin] at hwalk
  have hascii : AsciiEnd s ↔ ((lastWord t).reverse.take 32).all (·.utf8Size == 1) = true := by
    rw [ht, List.all_eq_true]
    exact forall₂_congr fun c _ => beq_iff_eq.symm
  rw [truncate_of_long hlong, if_pos hlong, cutAt_eq, shown, if_pos hlong, ← ht, hwalk]
  by_cases hone : AsciiEnd s
  · rw [if_pos hone, if_pos (hascii.1 hone)]
    rfl
  · rw [if_neg hone, if_neg (mt hascii.2 hone)]
    rfl

/-- What is shown is the beginning of the message. -/
lemma shown_isPrefix (s : List Char) : shown s <+: s := by
  unfold shown
  split_ifs
  · exact (List.take_prefix _ _).trans (Library.truncateBytes_prefixed sanitizeMaxBytes s)
  · exact List.prefix_rfl

lemma byteLen_shown (s : List Char) : byteLen (shown s) ≤ sanitizeMaxBytes := by
  unfold shown
  split_ifs with hlong
  · exact (Library.byteLen_le_of_isPrefix (List.take_prefix _ _)).trans
      (Library.byteLen_truncateBytes sanitizeMaxBytes s)
  · exact not_lt.1 hlong

end Locast.Transfer.Messages

import Locast.Lib.Loop
import Locast.Subtitles.Gate

/-!
# Where the scans stand

The scans for tags, for entities and for override blocks are loops over one line, and jump behind
what they have found.  Here they are turn by turn: a scan stands at the end of a character whenever
it looks, it jumps to the end of a character, and every turn takes it on.
-/

namespace Locast.Subtitles

open Locast.Lib

/-- A place between two characters of the line, or at one of its ends. -/
def IsBoundary (line : List Char) (pos : ℕ) : Prop :=
  ∃ before rest, line = before ++ rest ∧ byteLen before = pos

lemma isBoundary_iff {line : List Char} {pos : ℕ} :
    IsBoundary line pos ↔ ∃ rest, getFrom line pos = some rest := by
  constructor
  · rintro ⟨before, rest, rfl, rfl⟩
    exact ⟨rest, getFrom_append before rest⟩
  · rintro ⟨rest, hrest⟩
    obtain ⟨before, rfl, rfl⟩ := getFrom_eq_some hrest
    exact ⟨before, rest, rfl, rfl⟩

/-- A place of what is behind a place. -/
lemma getFrom_add {line s t : List Char} {i j : ℕ} (h : getFrom line i = some s)
    (ht : getFrom s j = some t) :
    getFrom line (i + j) = some t := by
  obtain ⟨before, rfl, rfl⟩ := getFrom_eq_some h
  obtain ⟨eaten, rfl, rfl⟩ := getFrom_eq_some ht
  rw [← List.append_assoc, ← byteLen_append, getFrom_append]

lemma getFrom_cons (c : Char) (rest : List Char) : getFrom (c :: rest) c.utf8Size = some rest := by
  simpa using getFrom_append [c] rest

/-- The place behind what was found, if that is one byte long. -/
lemma getFrom_behind_found {p : Char} {s : List Char} {off : ℕ} (hsize : p.utf8Size = 1)
    (h : find p s = some off) : getFrom s (off + 1) = some (behind p s) := by
  have hmem : p ∈ s := by
    by_contra hno
    rw [find_eq, if_neg hno] at h
    cases h
  rw [find_eq, if_pos hmem] at h
  have hparts := ahead_append_behind hmem
  have hlen : byteLen (ahead p s ++ [p]) = off + 1 := by
    rw [byteLen_append, byteLen_cons, byteLen_nil, hsize, Option.some.inj h]
  have := getFrom_append (ahead p s ++ [p]) (behind p s)
  rwa [hlen, List.append_assoc, List.singleton_append, hparts] at this

/-- **A scan of a line**: a loop that stands between two characters at every turn, jumps to such
places only, and comes further with every turn. -/
structure IsScan {σ α : Type} (line : List Char) (pos skipUntil : σ → ℕ) (turn : σ → σ ⊕ Parsed α)
    (f : σ → Parsed α) (start : σ) : Prop where
  loop : IsLoop turn f
  stands : ∀ s, ComesTo turn start s → IsBoundary line (pos s)
  jumps : ∀ s, ComesTo turn start s → IsBoundary line (skipUntil s)
  onward : ∀ s t, turn s = .inl t → pos s < pos t

/-! ### Tags -/

/-- The variables of `strip_tags`, and the characters that are left of its iterator. -/
structure TagScan where
  rest : List Char
  i : ℕ
  skipUntil : ℕ
  gaveUp : List Char
  out : List Char

namespace TagScan

variable (closerOf : Char → Option Char) (line : List Char)

def run (s : TagScan) : Parsed (List Char) :=
  scanTags closerOf line s.rest s.i s.skipUntil s.gaveUp s.out

/-- One turn of the `for` loop. -/
def turn (s : TagScan) : TagScan ⊕ Parsed (List Char) :=
  match s.rest with
  | [] => .inr (.ok s.out)
  | c :: rest =>
    if s.i < s.skipUntil then .inl { s with rest := rest, i := s.i + c.utf8Size }
    else match closerOf c with
      | none =>
        .inl { s with rest := rest, i := s.i + c.utf8Size, out := if isDroppedChar c then s.out
          else s.out ++ [c] }
      | some closer =>
        if closer ∈ s.gaveUp then .inl
          { s with rest := rest, i := s.i + c.utf8Size, out := s.out ++ [c] }
        else match getFrom line (s.i + 1) with
          | none => .inr (.error .badSlice)
          | some after =>
            match find closer after with
            | some off =>
              .inl { s with rest := rest, i := s.i + c.utf8Size, skipUntil := s.i + 1 + off + 1 }
            | none =>
              .inl { s with rest := rest, i := s.i + c.utf8Size, gaveUp :=
                closer :: s.gaveUp, out := s.out ++ [c] }

def start : TagScan := ⟨line, 0, 0, [], []⟩

variable {closerOf line}

lemma isLoop : IsLoop (turn closerOf line) (run closerOf line) := by
  rintro ⟨rest, i, skipUntil, gaveUp, out⟩
  cases rest with
  | nil => rfl
  | cons c rest =>
    rw [run, turn, scanTags]
    dsimp only
    by_cases hskip : i < skipUntil
    · rw [if_pos hskip, if_pos hskip]
      rfl
    rw [if_neg hskip, if_neg hskip]
    cases closerOf c with
    | none => rfl
    | some closer =>
      dsimp only
      split_ifs
      · rfl
      cases getFrom line (i + 1) with
      | none => rfl
      | some after =>
        rw [sliced_some_bind]
        dsimp only
        cases find closer after <;> rfl

/-- What one turn takes on: the iterator by a character, and a jump to where the line goes on. -/
lemma turn_cases {s t : TagScan} (h : turn closerOf line s = .inl t) :
    ∃ c, s.rest = c :: t.rest ∧ t.i = s.i + c.utf8Size ∧ (t.skipUntil = s.skipUntil ∨
      ∃ closer after off, closerOf c = some closer ∧ getFrom line (s.i + 1) = some after ∧
        find closer after = some off ∧ t.skipUntil = s.i + 1 + off + 1) := by
  obtain ⟨rest, i, skipUntil, gaveUp, out⟩ := s
  cases rest with
  | nil => cases h
  | cons c rest =>
    refine ⟨c, ?_⟩
    rw [turn] at h
    dsimp only at h ⊢
    by_cases hskip : i < skipUntil
    · rw [if_pos hskip] at h
      cases h
      exact ⟨rfl, rfl, .inl rfl⟩
    rw [if_neg hskip] at h
    cases hcloser : closerOf c with
    | none =>
      rw [hcloser] at h
      cases h
      exact ⟨rfl, rfl, .inl rfl⟩
    | some closer =>
      rw [hcloser] at h
      dsimp only at h
      split_ifs at h
      · cases h
        exact ⟨rfl, rfl, .inl rfl⟩
      cases hafter : getFrom line (i + 1) with
      | none =>
        rw [hafter] at h
        cases h
      | some after =>
        rw [hafter] at h
        dsimp only at h
        cases hfind : find closer after with
        | none =>
          rw [hfind] at h
          cases h
          exact ⟨rfl, rfl, .inl rfl⟩
        | some off =>
          rw [hfind] at h
          cases h
          exact ⟨rfl, rfl, .inr ⟨closer, after, off, rfl, rfl, hfind, rfl⟩⟩

/-- **The scan for tags.** -/
lemma isScan (hclose : ∀ c p, closerOf c = some p → p.utf8Size = 1) :
    IsScan line i skipUntil (turn closerOf line) (run closerOf line) (start line) := by
  have hinv (s : TagScan) (r : ComesTo (turn closerOf line) (start line) s) :
      getFrom line s.i = some s.rest ∧ ∃ rest, getFrom line s.skipUntil = some rest := by
    refine r.invariant (I := fun s => getFrom line s.i = some s.rest ∧
      ∃ rest, getFrom line s.skipUntil = some rest) ⟨getFrom_zero line, line, getFrom_zero line⟩ ?_
    rintro s t ⟨hrest, hjump⟩ hturn
    obtain ⟨c, hc, hi, hskip⟩ := turn_cases hturn
    rw [hc] at hrest
    refine ⟨by rw [hi]; exact getFrom_add hrest (getFrom_cons c t.rest), ?_⟩
    obtain hsame | ⟨closer, after, off, hcloser, hafter, hfind, hskip⟩ := hskip
    · rw [hsame]
      exact hjump
    · rw [hskip, Nat.add_assoc]
      exact ⟨_, getFrom_add hafter (getFrom_behind_found (hclose c closer hcloser) hfind)⟩
  refine ⟨isLoop, fun s r => isBoundary_iff.2 ⟨_, (hinv s r).1⟩, fun s r =>
    isBoundary_iff.2 (hinv s r).2, fun s t hturn => ?_⟩
  obtain ⟨c, -, hi, -⟩ := turn_cases hturn
  rw [hi]
  exact Nat.lt_add_of_pos_right c.utf8Size_pos

end TagScan

/-! ### Entities -/

/-- The variables of `decode_entities`, and the characters that are left of its iterator. -/
structure EntityScan where
  rest : List Char
  i : ℕ
  skipUntil : ℕ
  out : List Char

namespace EntityScan

variable (line : List Char)

def run (s : EntityScan) : Parsed (List Char) := Vtt.scanEntities line s.rest s.i s.skipUntil s.out

/-- One turn of the `for` loop. -/
def turn (s : EntityScan) : EntityScan ⊕ Parsed (List Char) :=
  match s.rest with
  | [] => .inr (.ok s.out)
  | c :: rest =>
    if s.i < s.skipUntil then .inl { s with rest := rest, i := s.i + c.utf8Size }
    else if c = '&' then
      match getFrom line s.i with
      | none => .inr (.error .badSlice)
      | some suffix =>
        match Vtt.matchEntity suffix with
        | some (len, replacement) =>
          .inl ⟨rest, s.i + c.utf8Size, s.i + len, s.out ++ replacement⟩
        | none => .inl { s with rest := rest, i := s.i + c.utf8Size, out := s.out ++ [c] }
    else .inl { s with rest := rest, i := s.i + c.utf8Size, out := s.out ++ [c] }

def start : EntityScan := ⟨line, 0, 0, []⟩

variable {line}

lemma isLoop : IsLoop (turn line) (run line) := by
  rintro ⟨rest, i, skipUntil, out⟩
  cases rest with
  | nil => rfl
  | cons c rest =>
    rw [run, turn, Vtt.scanEntities]
    dsimp only
    split_ifs
    · rfl
    · cases getFrom line i with
      | none => rfl
      | some suffix =>
        rw [sliced_some_bind]
        dsimp only
        cases Vtt.matchEntity suffix <;> rfl
    · rfl

/-- An entity that is found is there. -/
lemma getFrom_of_matchEntity {s replacement : List Char} {len : ℕ}
    (h : Vtt.matchEntity s = some (len, replacement)) : ∃ rest, getFrom s len = some rest := by
  obtain ⟨entity, hfound, heq⟩ := Option.map_eq_some_iff.1 h
  have hthere : entity.1.isPrefixOf s = true :=
    List.find?_some (p := fun e : List Char × List Char => e.1.isPrefixOf s) hfound
  obtain ⟨rest, rfl⟩ := List.isPrefixOf_iff_prefix.1 hthere
  cases heq
  exact ⟨rest, getFrom_append entity.1 rest⟩

/-- What one turn takes on. -/
lemma turn_cases {s t : EntityScan} (h : turn line s = .inl t) :
    ∃ c, s.rest = c :: t.rest ∧ t.i = s.i + c.utf8Size ∧ (t.skipUntil = s.skipUntil ∨
      ∃ suffix len replacement, getFrom line s.i = some suffix ∧
        Vtt.matchEntity suffix = some (len, replacement) ∧ t.skipUntil = s.i + len) := by
  obtain ⟨rest, i, skipUntil, out⟩ := s
  cases rest with
  | nil => cases h
  | cons c rest =>
    refine ⟨c, ?_⟩
    rw [turn] at h
    dsimp only at h
    split_ifs at h
    · cases h
      exact ⟨rfl, rfl, .inl rfl⟩
    · cases hsuffix : getFrom line i with
      | none =>
        rw [hsuffix] at h
        cases h
      | some suffix =>
        rw [hsuffix] at h
        dsimp only at h
        cases hmatch : Vtt.matchEntity suffix with
        | none =>
          rw [hmatch] at h
          cases h
          exact ⟨rfl, rfl, .inl rfl⟩
        | some found =>
          rw [hmatch] at h
          cases h
          exact ⟨rfl, rfl, .inr ⟨suffix, found.1, found.2, rfl, hmatch, rfl⟩⟩
    · cases h
      exact ⟨rfl, rfl, .inl rfl⟩

/-- **The scan for entities.** -/
lemma isScan : IsScan line i skipUntil (turn line) (run line) (start line) := by
  have hinv (s : EntityScan) (r : ComesTo (turn line) (start line) s) :
      getFrom line s.i = some s.rest ∧ ∃ rest, getFrom line s.skipUntil = some rest := by
    refine r.invariant (I := fun s => getFrom line s.i = some s.rest ∧
      ∃ rest, getFrom line s.skipUntil = some rest) ⟨getFrom_zero line, line, getFrom_zero line⟩ ?_
    rintro s t ⟨hrest, hjump⟩ hturn
    obtain ⟨c, hc, hi, hskip⟩ := turn_cases hturn
    have hnext : getFrom line t.i = some t.rest := by
      rw [hi]
      exact getFrom_add (hc ▸ hrest) (getFrom_cons c t.rest)
    refine ⟨hnext, ?_⟩
    obtain hsame | ⟨suffix, len, replacement, hsuffix, hmatch, hskip⟩ := hskip
    · rw [hsame]
      exact hjump
    · obtain ⟨after, hafter⟩ := getFrom_of_matchEntity hmatch
      rw [hskip]
      exact ⟨after, getFrom_add hsuffix hafter⟩
  refine ⟨isLoop, fun s r => isBoundary_iff.2 ⟨_, (hinv s r).1⟩, fun s r =>
    isBoundary_iff.2 (hinv s r).2, fun s t hturn => ?_⟩
  obtain ⟨c, -, hi, -⟩ := turn_cases hturn
  rw [hi]
  exact Nat.lt_add_of_pos_right c.utf8Size_pos

end EntityScan

/-! ### Override blocks -/

/-- The variables of `clean_text`. -/
structure CleanScan where
  pos : ℕ
  out : List Char × Option SubtitleError

namespace CleanScan

variable (caps : Caps) (raw : List Char) (line : ℕ)

def run (s : CleanScan) : Parsed (Option (List Char)) := Ass.cleanLoop caps raw line s.pos s.out

/-- The block at the opener: whether it draws, and how long it is if it is closed. -/
def block (inner : List Char) : Parsed (Bool × Option ℕ) :=
  match find '}' inner with
  | some off => (sliced (getTo inner off) >>= Ass.enablesDrawing) >>= fun draws =>
    .ok (draws, some (off + 2))
  | none => Ass.enablesDrawing inner >>= fun draws => .ok (draws, none)

/-- One turn of the `while` loop. -/
def turn (s : CleanScan) : CleanScan ⊕ Parsed (Option (List Char)) :=
  match getFrom raw s.pos with
  | none => .inr (.error .badSlice)
  | some [] => .inr (Ass.cleaned s.out)
  | some (c :: rest) =>
    if c = '{' then
      match sliced (getFrom (c :: rest) 1) >>= block with
      | .error e => .inr (.error e)
      | .ok (true, _) => .inr (.ok none)
      | .ok (false, some len) => .inl ⟨s.pos + len, s.out⟩
      | .ok (false, none) => .inr (Ass.cleaned s.out)
    else if c = '\\' then
      match getFrom (c :: rest) 1 with
      | none => .inr (.error .badSlice)
      | some after => .inl ⟨s.pos + (Ass.escapeOf after).2,
          Ass.note s.out.1 s.out.2 (pushCueChar caps s.out.1 (Ass.escapeOf after).1 line)⟩
    else
      match getTo (c :: rest) c.utf8Size with
      | none => .inr (.error .badSlice)
      | some piece =>
        .inl ⟨s.pos + c.utf8Size, Ass.note s.out.1 s.out.2 (pushCueText caps s.out.1 piece line)⟩

def start : CleanScan := ⟨0, [], none⟩

variable {caps raw line}

lemma isLoop : IsLoop (turn caps raw line) (run caps raw line) := by
  rintro ⟨pos, out⟩
  rw [run, turn]
  dsimp only
  rcases hhere : getFrom raw pos with _ | _ | ⟨c, rest⟩
  · unfold Ass.cleanLoop
    split
    · rfl
    · rename_i heq
      cases hhere.symm.trans heq
    · rename_i heq
      cases hhere.symm.trans heq
  · exact Ass.cleanLoop_nil hhere
  · rw [Ass.cleanLoop_cons hhere]
    dsimp only
    split_ifs
    · cases getFrom (c :: rest) 1 with
      | none => rfl
      | some inner =>
        rw [sliced_some_bind, sliced_some_bind, block]
        cases find '}' inner with
        | none =>
          dsimp only
          cases Ass.enablesDrawing inner with
          | error e => rfl
          | ok draws => cases draws <;> rfl
        | some off =>
          dsimp only
          cases sliced (getTo inner off) >>= Ass.enablesDrawing with
          | error e => rfl
          | ok draws => cases draws <;> rfl
    · cases getFrom (c :: rest) 1 <;> rfl
    · cases getTo (c :: rest) c.utf8Size <;> rfl

/-- One turn takes the scan on by something that is there. -/
lemma turn_cases {s t : CleanScan} (h : turn caps raw line s = .inl t) :
    ∃ rest after n, getFrom raw s.pos = some rest ∧ 0 < n ∧ getFrom rest n = some after ∧
      t.pos = s.pos + n := by
  obtain ⟨pos, out⟩ := s
  rw [turn] at h
  dsimp only at h
  rcases hhere : getFrom raw pos with _ | _ | ⟨c, rest⟩
  · rw [hhere] at h
    cases h
  · rw [hhere] at h
    cases h
  rw [hhere] at h
  dsimp only at h
  split_ifs at h with hopen hescape
  · subst hopen
    have hinner : getFrom ('{' :: rest) 1 = some rest := getFrom_cons '{' rest
    rw [hinner, sliced_some_bind, block] at h
    cases hfind : find '}' rest with
    | none =>
      rw [hfind] at h
      dsimp only at h
      cases hdraws : Ass.enablesDrawing rest with
      | error e =>
        rw [hdraws] at h
        cases h
      | ok draws =>
        rw [hdraws] at h
        cases draws <;> cases h
    | some off =>
      rw [hfind] at h
      dsimp only at h
      cases hdraws : sliced (getTo rest off) >>= Ass.enablesDrawing with
      | error e =>
        rw [hdraws] at h
        cases h
      | ok draws =>
        rw [hdraws] at h
        cases draws with
        | true => cases h
        | false =>
          cases h
          refine ⟨_, behind '}' rest, off + 2, rfl, Nat.succ_pos _, ?_, rfl⟩
          have hlen : off + 2 = 1 + (off + 1) := by omega
          rw [hlen]
          exact getFrom_add hinner (getFrom_behind_found rfl hfind)
  · subst hescape
    have hafter : getFrom ('\\' :: rest) 1 = some rest := getFrom_cons '\\' rest
    rw [hafter] at h
    cases h
    obtain ⟨eaten, hrest, -, hlen⟩ := Ass.escapeOf_spec rest
    refine ⟨_, (Ass.escaped rest).2, _, rfl, Ass.escapeOf_pos rest, ?_, rfl⟩
    rw [hlen]
    refine getFrom_add hafter ?_
    have := getFrom_append eaten (Ass.escaped rest).2
    rwa [← hrest] at this
  · cases hpiece : getTo (c :: rest) c.utf8Size with
    | none =>
      rw [hpiece] at h
      cases h
    | some piece =>
      rw [hpiece] at h
      cases h
      exact ⟨_, rest, _, rfl, c.utf8Size_pos, getFrom_cons c rest, rfl⟩

/-- **The scan for override blocks.** -/
lemma isScan : IsScan raw pos pos (turn caps raw line) (run caps raw line) start := by
  have hinv (s : CleanScan) (r : ComesTo (turn caps raw line) start s) : IsBoundary raw s.pos := by
    refine r.invariant (I := fun s => IsBoundary raw s.pos)
      (isBoundary_iff.2 ⟨raw, getFrom_zero raw⟩) ?_
    rintro s t - hturn
    obtain ⟨rest, after, n, hrest, -, hafter, hpos⟩ := turn_cases hturn
    rw [hpos]
    exact isBoundary_iff.2 ⟨after, getFrom_add hrest hafter⟩
  refine ⟨isLoop, hinv, hinv, fun s t hturn => ?_⟩
  obtain ⟨rest, after, n, -, hn, -, hpos⟩ := turn_cases hturn
  rw [hpos]
  exact Nat.lt_add_of_pos_right hn

end CleanScan

end Locast.Subtitles

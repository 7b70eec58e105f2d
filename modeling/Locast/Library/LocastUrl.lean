import Locast.Lib.PercentCoding
import Locast.Library.LibraryPath

/-!
# The URLs of the library (`library/protocol.rs`)

A file is addressed by the first digits of its digest and its name.  A webview sends that URL in one
of four forms; whatever it sends, the segments that are looked up name one file and no path.
-/

namespace Locast.Library

open Locast.Lib

/-! ### URLs -/

/-- Why a URL is refused: the reasons of `ProtocolError::BadUrl`. -/
inductive BadUrl where
  | notLocast (url : List Char)
  | emptyHost
  | missingFirst
  | missingFilename
  | notUtf8
  | emptySegment
  | traversal
  | separator
  | unknownHost (host : List Char)
  deriving DecidableEq

inductive LocastUrl where
  | media (shaPrefix filename : List Char)
  | subtitle (subId filename : List Char)
  | metadata (mediaId name : List Char)
  deriving DecidableEq

/-- The two segments that are looked up. -/
def LocastUrl.segments : LocastUrl → List (List Char)
  | media shaPrefix filename => [shaPrefix, filename]
  | subtitle subId filename => [subId, filename]
  | metadata mediaId name => [mediaId, name]

/-- What `strip_scheme` removes, in its order. -/
def schemes : List (List Char) :=
  ["locast://localhost/".toList, "http://locast.localhost/".toList,
    "https://locast.localhost/".toList, "locast://".toList]

/-- `str::strip_prefix`. -/
def stripFront (front s : List Char) : Option (List Char) :=
  if front <+: s then some (s.drop front.length) else none

def stripScheme (url : List Char) : Option (List Char) := schemes.findSome? (stripFront · url)

/-- Percent-decodes a segment and refuses what could change which file is addressed. -/
def decodeSegment (decode : List Char → Option (List Char)) (raw : List Char) :
    Except BadUrl (List Char) :=
  match decode raw with
  | none => .error .notUtf8
  | some decoded =>
    if decoded = [] then .error .emptySegment
    else if decoded = ['.'] ∨ decoded = ['.', '.'] then .error .traversal
    else if '/' ∈ decoded ∨ '\\' ∈ decoded ∨ '\x00' ∈ decoded then .error .separator
    else .ok decoded

/-- The host decides what the segments are. -/
def locastUrlOf (host first second : List Char) : Except BadUrl LocastUrl :=
  if host = "media".toList then .ok (.media first second)
  else if host = "subtitles".toList then .ok (.subtitle first second)
  else if host = "meta".toList then .ok (.metadata first second)
  else .error (.unknownHost host)

/-- `LocastUrl::parse`. -/
def parseLocastUrl (decode : List Char → Option (List Char)) (url : List Char) :
    Except BadUrl LocastUrl :=
  match stripScheme url with
  | none => .error (.notLocast url)
  | some rest =>
    match splitn (· = '/') 3
        ((rest.takeWhile fun c => c ≠ '?' ∧ c ≠ '#').dropWhile (· = '/')) with
    | [] => .error .emptyHost
    | [_] => .error .missingFirst
    | [_, _] => .error .missingFilename
    | host :: first :: second :: _ =>
      match decodeSegment decode first with
      | .error e => .error e
      | .ok first' =>
        match decodeSegment decode second with
        | .error e => .error e
        | .ok second' => locastUrlOf host first' second'

/-- The part of a media URL after the scheme. -/
def mediaPath (encode : List Char → List Char) (shaPrefix filename : List Char) : List Char :=
  "media".toList ++ '/' :: (shaPrefix ++ '/' :: encode filename)

/-- `resolve_media_url`: the URL of a row's digits and name. -/
def resolveMediaUrl (encode : List Char → List Char) (shaPrefix filename : List Char) : List Char :=
  "locast://".toList ++ mediaPath encode shaPrefix filename

/-! ### What is parsed -/

/-- A segment that names one thing. -/
structure SafeSegment (s : List Char) : Prop where
  nonempty : s ≠ []
  dot : s ≠ ['.']
  dots : s ≠ ['.', '.']
  slash : '/' ∉ s
  backslash : '\\' ∉ s
  nul : '\x00' ∉ s

variable {encode : List Char → List Char} {decode : List Char → Option (List Char)}

lemma decodeSegment_eq_ok {raw s : List Char} :
    decodeSegment decode raw = .ok s ↔ decode raw = some s ∧ SafeSegment s := by
  unfold decodeSegment
  constructor
  · intro h
    split at h
    · cases h
    rename_i decoded hdecode
    split_ifs at h with h₁ h₂ h₃
    obtain rfl := Except.ok.inj h
    rw [not_or] at h₂
    rw [not_or, not_or] at h₃
    exact ⟨hdecode, h₁, h₂.1, h₂.2, h₃.1, h₃.2.1, h₃.2.2⟩
  · rintro ⟨hdecode, hs⟩
    rw [hdecode]
    dsimp only
    rw [if_neg hs.nonempty, if_neg (by simp [hs.dot, hs.dots]),
      if_neg (by simp [hs.slash, hs.backslash, hs.nul])]

lemma segments_of_locastUrlOf {host first second : List Char} {u : LocastUrl}
    (h : locastUrlOf host first second = .ok u) : u.segments = [first, second] := by
  unfold locastUrlOf at h
  split_ifs at h <;> obtain rfl := Except.ok.inj h <;> rfl

/-- **Every segment of a parsed URL names one thing**, however the URL was written and decoded. -/
lemma safe_of_parseLocastUrl {url : List Char} {u : LocastUrl}
    (h : parseLocastUrl decode url = .ok u) : ∀ s ∈ u.segments, SafeSegment s := by
  unfold parseLocastUrl at h
  split at h
  · cases h
  split at h
  · cases h
  · cases h
  · cases h
  split at h
  · cases h
  rename_i first' hfirst
  split at h
  · cases h
  rename_i second' hsecond
  rw [segments_of_locastUrlOf h, List.forall_mem_cons, List.forall_mem_singleton]
  exact ⟨(decodeSegment_eq_ok.1 hfirst).2, (decodeSegment_eq_ok.1 hsecond).2⟩

/-! ### What is sent -/

/-- The digits of a URL: sixteen, as `serve_media` asks. -/
structure IsShaPrefix (s : List Char) : Prop where
  length : s.length = 16
  hex : ∀ c ∈ s, c ∈ hexDigits ∨ c ∈ "ABCDEF".toList

/-- The forms in which webviews send a URL of the scheme. -/
inductive UrlForm where
  | custom
  | localhost
  | http
  | https

/-- What stands before the path. -/
def UrlForm.origin : UrlForm → List Char
  | custom => "locast://".toList
  | localhost => "locast://localhost/".toList
  | http => "http://locast.localhost/".toList
  | https => "https://locast.localhost/".toList

/-- **What a webview sends for a URL**: in any of the forms, with slashes before the path and a
query or a fragment after it. -/
def Sends (url sent : List Char) : Prop :=
  ∃ (rest : List Char) (form : UrlForm) (slashes : ℕ) (tail : List Char),
    url = "locast://".toList ++ rest ∧ (tail = [] ∨ tail.head? = some '?' ∨ tail.head? = some '#') ∧
    sent = form.origin ++ (List.replicate slashes '/' ++ (rest ++ tail))

lemma unreserved_of_shaPrefix {s : List Char} (h : IsShaPrefix s) :
    ∀ c ∈ s, isUnreserved c = true := by
  have hlow : hexDigits.all isUnreserved = true := by decide
  have hhigh : "ABCDEF".toList.all isUnreserved = true := by decide
  intro c hc
  rcases h.hex c hc with h | h
  · exact List.all_eq_true.1 hlow c h
  · exact List.all_eq_true.1 hhigh c h

lemma IsShaPrefix.safeSegment {s : List Char} (h : IsShaPrefix s) : SafeSegment s := by
  have hlen := h.length
  have hfree : ∀ {c : Char}, isUnreserved c = false → c ∉ s := fun hc hmem => by
    rw [unreserved_of_shaPrefix h _ hmem] at hc
    cases hc
  refine ⟨?_, ?_, ?_, hfree (by decide), hfree (by decide), hfree (by decide)⟩
  all_goals
    rintro rfl
    exact absurd hlen (by decide)

/-- Unreserved characters and escapes do not end a path. -/
lemma plain_ne {c : Char} (h : isUnreserved c = true ∨ c = '%') : c ≠ '/' ∧ c ≠ '?' ∧ c ≠ '#' := by
  rcases h with h | rfl
  · refine ⟨?_, ?_, ?_⟩ <;> rintro rfl <;> exact absurd h (by decide)
  · decide

lemma mediaPath_ne (hcoding : PercentCoding encode decode) {shaPrefix : List Char}
    (hsha : IsShaPrefix shaPrefix) (filename : List Char) :
    ∀ c ∈ mediaPath encode shaPrefix filename, c ≠ '?' ∧ c ≠ '#' := by
  have hname : "media".toList.all (fun c => c ≠ '?' ∧ c ≠ '#') = true := by decide
  intro c hc
  unfold mediaPath at hc
  simp only [List.mem_append, List.mem_cons] at hc
  rcases hc with hc | rfl | hc | rfl | hc
  · simpa using List.all_eq_true.1 hname c hc
  · decide
  · exact (plain_ne (.inl (unreserved_of_shaPrefix hsha c hc))).2
  · decide
  · exact (plain_ne (hcoding.plain _ c hc)).2

lemma stripFront_append (front s : List Char) : stripFront front (front ++ s) = some s := by
  rw [stripFront, if_pos (List.prefix_append _ _), List.drop_left]

/-- Texts that part somewhere. -/
lemma stripFront_eq_none {common front s f t : List Char} {c d : Char}
    (hfront : front = common ++ c :: f) (hs : s = common ++ d :: t) (hne : c ≠ d) :
    stripFront front s = none := by
  subst hfront hs
  rw [stripFront, if_neg]
  rw [List.prefix_append_right_inj]
  exact fun h => hne (List.cons_prefix_cons.1 h).1

/-- The scheme that was sent is the first that matches: no path begins like `localhost`. -/
lemma stripScheme_append {scheme path : List Char} (hscheme : scheme ∈ schemes) {c : Char}
    (hpath : path.head? = some c) (hc : c ≠ 'l') : stripScheme (scheme ++ path) = some path := by
  obtain ⟨t, rfl⟩ : ∃ t, path = c :: t := by
    cases path with
    | nil => cases hpath
    | cons d t => exact ⟨t, by rw [Option.some.inj hpath]⟩
  have hlocal : "locast://localhost/".toList = "locast://".toList ++ 'l' :: "ocalhost/".toList := by
    decide
  have hhttp : "http://locast.localhost/".toList = [] ++
      'h' :: "ttp://locast.localhost/".toList := by
    decide
  have hhttps : "https://locast.localhost/".toList = [] ++
      'h' :: "ttps://locast.localhost/".toList := by
    decide
  have hplain : "http://locast.localhost/".toList = "http".toList ++
      ':' :: "//locast.localhost/".toList := by
    decide
  have hsecure : "https://locast.localhost/".toList =
      "http".toList ++ 's' :: "://locast.localhost/".toList := by
    decide
  have hcustom : "locast://".toList = [] ++ 'l' :: "ocast://".toList := by
    decide
  have hother : stripFront "locast://localhost/".toList ("locast://".toList ++ c :: t) = none :=
    stripFront_eq_none hlocal rfl hc.symm
  have hthird : stripFront "http://locast.localhost/".toList
      ("https://locast.localhost/".toList ++ c :: t) = none :=
    stripFront_eq_none (t := "://locast.localhost/".toList ++ c :: t) hplain
      (by rw [hsecure, List.append_assoc]; rfl) (by decide)
  have hhead : ∀ {front s f u : List Char} {x y : Char}, front = [] ++ x :: f →
      s = [] ++ y :: u → x ≠ y → stripFront front (s ++ c :: t) = none := by
    rintro front s f u x y rfl rfl hne
    exact @stripFront_eq_none [] _ _ _ _ _ _ rfl rfl hne
  have hfirst : "locast://localhost/".toList = [] ++ 'l' :: "ocast://localhost/".toList := by decide
  unfold stripScheme
  simp only [schemes, List.mem_cons, List.not_mem_nil, or_false] at hscheme
  rw [schemes, List.findSome?_cons, List.findSome?_cons, List.findSome?_cons, List.findSome?_cons]
  rcases hscheme with rfl | rfl | rfl | rfl
  · rw [stripFront_append]
  · rw [hhead hfirst hhttp (by decide), stripFront_append]
  · rw [hhead hfirst hhttps (by decide), hthird, stripFront_append]
  · rw [hother, hhead hhttp hcustom (by decide), hhead hhttps hcustom (by decide),
      stripFront_append]

/-- Each form is one that is stripped. -/
lemma UrlForm.origin_mem (form : UrlForm) : form.origin ∈ schemes := by
  cases form <;> decide

lemma intercalate_three (x : Char) (f g h : List Char) :
    [x].intercalate [f, g, h] = f ++ x :: (g ++ x :: h) := by
  simp [List.intercalate]

lemma splitn_mediaPath {shaPrefix : List Char}
    (hsha : IsShaPrefix shaPrefix) (filename : List Char) :
    splitn (· = '/') 3 (mediaPath encode shaPrefix filename) =
      ["media".toList, shaPrefix, encode filename] := by
  have hfields : ∀ f ∈ ["media".toList, shaPrefix], '/' ∉ f := by
    rw [List.forall_mem_cons, List.forall_mem_singleton]
    exact ⟨by decide, fun hmem => (plain_ne (.inl (unreserved_of_shaPrefix hsha _ hmem))).1 rfl⟩
  have hpath : mediaPath encode shaPrefix filename =
      ['/'].intercalate ["media".toList, shaPrefix, encode filename] :=
    (intercalate_three '/' _ _ _).symm
  rw [hpath]
  exact splitn_intercalate hfields (encode filename)

/-- **A media URL is parsed back**, in every form that is sent. -/
lemma parseLocastUrl_media (hcoding : PercentCoding encode decode)
    {shaPrefix filename sent : List Char} (hsha : IsShaPrefix shaPrefix)
    (hname : SafeSegment filename)
    (hsent : Sends (resolveMediaUrl encode shaPrefix filename) sent) :
    parseLocastUrl decode sent = .ok (.media shaPrefix filename) := by
  obtain ⟨rest, form, slashes, tail, hurl, htail, rfl⟩ := hsent
  obtain rfl : mediaPath encode shaPrefix filename = rest := List.append_cancel_left hurl
  have hstrip : stripScheme (form.origin ++ (List.replicate slashes '/' ++
      (mediaPath encode shaPrefix filename ++ tail))) =
      some (List.replicate slashes '/' ++ (mediaPath encode shaPrefix filename ++ tail)) := by
    cases slashes with
    | zero => exact stripScheme_append form.origin_mem (c := 'm') rfl (by decide)
    | succ n => exact stripScheme_append form.origin_mem (c := '/') rfl (by decide)
  have htail' : tail.takeWhile (fun c => c ≠ '?' ∧ c ≠ '#') = [] := by
    rcases htail with rfl | htail | htail
    · rfl
    · obtain ⟨t, rfl⟩ := List.head?_eq_some_iff.1 htail
      rfl
    · obtain ⟨t, rfl⟩ := List.head?_eq_some_iff.1 htail
      rfl
  have hcut :
    (List.replicate slashes '/' ++ (mediaPath encode shaPrefix filename ++ tail)).takeWhile
      (fun c => c ≠ '?' ∧ c ≠ '#') = List.replicate slashes '/' ++
        mediaPath encode shaPrefix filename := by
    rw [← List.append_assoc, List.takeWhile_append_of_pos, htail', List.append_nil]
    intro c hc
    rcases List.mem_append.1 hc with hc | hc
    · rw [List.eq_of_mem_replicate hc]
      decide
    · exact decide_eq_true (mediaPath_ne hcoding hsha filename c hc)
  have htrim : (List.replicate slashes '/' ++ mediaPath encode shaPrefix filename).dropWhile
      (· = '/') = mediaPath encode shaPrefix filename := by
    rw [List.dropWhile_append_of_pos fun c hc => decide_eq_true (List.eq_of_mem_replicate hc)]
    rfl
  have hdigits : decodeSegment decode shaPrefix = .ok shaPrefix := by
    have hdecode := hcoding.decode_encode shaPrefix
    rw [hcoding.unreserved _ (unreserved_of_shaPrefix hsha)] at hdecode
    exact decodeSegment_eq_ok.2 ⟨hdecode, hsha.safeSegment⟩
  have hfile : decodeSegment decode (encode filename) = .ok filename :=
    decodeSegment_eq_ok.2 ⟨hcoding.decode_encode _, hname⟩
  rw [parseLocastUrl, hstrip]
  dsimp only
  rw [hcut, htrim, splitn_mediaPath hsha]
  dsimp only
  rw [hdigits, hfile]
  rfl

/-! ### What a URL names -/

lemma Stored.safeSegment {nfc : List Char → List Char} {out : List Char} (h : Stored nfc out) :
    SafeSegment out := by
  have hfree : ∀ {c : Char}, isUnsafe c = true → c ∉ out := fun hc hmem => by
    rw [h.safe _ hmem] at hc
    cases hc
  exact ⟨h.nonempty, h.ne_dots.1, h.ne_dots.2, hfree (by decide), hfree (by decide),
    hfree (by decide)⟩

/-- What is sent when nothing is rewritten. -/
lemma sends_self (encode : List Char → List Char) (shaPrefix filename : List Char) :
    Sends (resolveMediaUrl encode shaPrefix filename) (resolveMediaUrl encode shaPrefix filename) :=
  ⟨mediaPath encode shaPrefix filename, .custom, 0, [], rfl, .inl rfl, by
    rw [List.append_nil]
    rfl⟩

/-- **A URL addresses what it names.**  The URL of a digest and of a name that the sanitizer
returned is parsed, in every form in which a webview sends it, as that digest and that name; the
URLs of two pairs differ; and no URL is parsed as a segment that is empty, that leads elsewhere or
that is a path. -/
theorem urls_address (nfc : List Char → List Char) (hnfc : IsNfc nfc)
    (hcoding : PercentCoding encode decode) :
    (∀ name out shaPrefix sent, sanitize nfc name = .ok out → IsShaPrefix shaPrefix →
      Sends (resolveMediaUrl encode shaPrefix out.toList) sent →
      parseLocastUrl decode sent = .ok (.media shaPrefix out.toList)) ∧
    (∀ name out shaPrefix name' out' shaPrefix', sanitize nfc name = .ok out →
      sanitize nfc name' = .ok out' → IsShaPrefix shaPrefix → IsShaPrefix shaPrefix' →
      (shaPrefix, out) ≠ (shaPrefix', out') →
      resolveMediaUrl encode shaPrefix out.toList ≠ resolveMediaUrl encode shaPrefix' out'.toList) ∧
    ∀ url u, parseLocastUrl decode url = .ok u → ∀ s ∈ u.segments, SafeSegment s := by
  have hparse : ∀ name out shaPrefix sent, sanitize nfc name = .ok out → IsShaPrefix shaPrefix →
      Sends (resolveMediaUrl encode shaPrefix out.toList) sent →
      parseLocastUrl decode sent = .ok (.media shaPrefix out.toList) :=
    fun _ _ _ _ h hsha =>
      parseLocastUrl_media hcoding hsha
        (stored_of_sanitizeChars hnfc (sanitize_eq_ok.1 h)).safeSegment
  refine ⟨hparse, ?_, fun url u h => safe_of_parseLocastUrl h⟩
  intro name out shaPrefix name' out' shaPrefix' h h' hsha hsha' hne heq
  have hone := hparse _ _ _ _ h hsha (sends_self encode shaPrefix out.toList)
  have hother := hparse _ _ _ _ h' hsha' (sends_self encode shaPrefix' out'.toList)
  rw [heq, hother, Except.ok.injEq, LocastUrl.media.injEq, String.toList_inj] at hone
  exact hne (by rw [hone.1, hone.2])

namespace Film

/-- The digits of a file, and a name with what ends a path. -/
def digits : List Char := "0123456789abcdef".toList

def name : String := "50%..é#.mkv"

lemma isShaPrefix_digits : IsShaPrefix digits := by
  have hhex : digits.all (fun c => c ∈ hexDigits ∨ c ∈ "ABCDEF".toList) = true := by decide
  exact ⟨by decide, fun c hc => of_decide_eq_true (List.all_eq_true.1 hhex c hc)⟩

/-- The four forms, of which some have slashes, a query or a fragment; and another file. -/
theorem urls_address_film :
    parseLocastUrl PercentCoding.decodeChars
      "locast://media/0123456789abcdef/50%25..%C3%A9%23.mkv".toList =
        .ok (.media digits name.toList) ∧
    parseLocastUrl PercentCoding.decodeChars
      "locast://localhost/media/0123456789abcdef/50%25..%C3%A9%23.mkv#end".toList =
        .ok (.media digits name.toList) ∧
    parseLocastUrl PercentCoding.decodeChars
      "http://locast.localhost//media/0123456789abcdef/50%25..%C3%A9%23.mkv?t=3#end".toList =
        .ok (.media digits name.toList) ∧
    parseLocastUrl PercentCoding.decodeChars
      "https://locast.localhost/media/0123456789abcdef/50%25..%C3%A9%23.mkv?a/b".toList =
        .ok (.media digits name.toList) ∧
    resolveMediaUrl PercentCoding.encodeChars digits name.toList ≠
      resolveMediaUrl PercentCoding.encodeChars digits "50%..è#.mkv".toList := by
  obtain ⟨hparse, hdiffer, -⟩ := urls_address id isNfc_id PercentCoding.chars
  have hname : sanitize id name = .ok name := by decide
  have hother : sanitize id "50%..è#.mkv" = .ok "50%..è#.mkv" := by decide
  have hforms := fun sent => hparse name name digits sent hname isShaPrefix_digits
  exact ⟨hforms _ ⟨_, .custom, 0, [], rfl, .inl rfl, by decide⟩,
    hforms _ ⟨_, .localhost, 0, "#end".toList, rfl, .inr (.inr rfl), by decide⟩,
    hforms _ ⟨_, .http, 1, "?t=3#end".toList, rfl, .inr (.inl rfl), by decide⟩,
    hforms _ ⟨_, .https, 0, "?a/b".toList, rfl, .inr (.inl rfl), by decide⟩,
    hdiffer _ _ _ _ _ _ hname hother isShaPrefix_digits isShaPrefix_digits (by decide)⟩

end Film

end Locast.Library

import Locast.Lib.JsonValue
import Locast.Lib.MsgPack
import Locast.Protocol.Room
import Mathlib.Data.String.Basic

/-!
# What an identity key signs (`shared/crypto`, `shared/manifest`)

Four kinds of byte strings: the nonce of the handshake, a signal and the beginning of a stroke
behind their domain tags, and the canonical form of a manifest.  No two of them are the same bytes,
and equal bytes are of equal payloads, a manifest up to the normal form of its strings and without
its signature.
-/

namespace Locast.Protocol

open Locast.Lib Locast.Lib.JsonText
open Locast.Lib.MsgPack (Bytes)

/-! ### The formats -/

/-- The encoders of the crates the signer links: MessagePack, JSON, and the normal form NFC. -/
structure Encoders where
  rmp : MsgPack.Value → Option Bytes
  json : Json → Option Bytes
  nfc : String → String

/-- What the formats promise: bytes are the bytes of one value and hold its strings in full, and an
object opens with its brace. -/
structure Encoders.Sound (enc : Encoders) : Prop where
  rmp_inj : ∀ v w b, enc.rmp v = some b → enc.rmp w = some b → v = w
  rmp_text : ∀ v b, enc.rmp v = some b → MsgPack.textBytes v ≤ b.length
  json_inj : ∀ v w b, enc.json v = some b → enc.json w = some b → v = w
  json_text : ∀ v b, enc.json v = some b → v.textBytes ≤ b.length
  json_brace : ∀ entries b, enc.json (.object entries) = some b → b.head? = some 123

/-! ### The payloads behind a tag -/

namespace DomainTag

def prefixBytes : Bytes := utf8 "locast/v"

/-- `domain_tag::build`. -/
def build (messageType : String) : Bytes :=
  let typeBytes := (utf8 messageType).take 8
  prefixBytes ++ (typeBytes ++ List.replicate (8 - typeBytes.length) 0)

lemma length_build (messageType : String) : (build messageType).length = 16 := by
  have hlen : ((utf8 messageType).take 8).length ≤ 8 := List.length_take_le _ _
  have hprefix : prefixBytes.length = 8 := rfl
  simp only [build, List.length_append, List.length_replicate, hprefix]
  omega

end DomainTag

/-- A field that is left out where it has no value. -/
def optionalField (key : String) (value : Option MsgPack.Value) : List (String × MsgPack.Value) :=
  (value.map fun v => (key, v)).toList

def SignalKind.name : SignalKind → String
  | .offer => "offer"
  | .answer => "answer"
  | .ice => "ice"

def StrokeTool.name : StrokeTool → String
  | .pen => "pen"
  | .arrow => "arrow"
  | .rect => "rect"
  | .circle => "circle"
  | .text => "text"
  | .eraser => "eraser"

def SignalCandidate.value (c : SignalCandidate) : MsgPack.Value :=
  .map (("candidate", .text c.candidate) ::
    (optionalField "sdp_mid" (c.sdpMid.map .text) ++
      optionalField "sdp_m_line_index" (c.sdpMLineIndex.map fun (n : ℕ) => .int n)))

def SignalPayload.value (p : SignalPayload) : MsgPack.Value :=
  .map (("to_user_id", .bin 16 p.toUserId) :: ("kind", .text p.kind.name) ::
    (optionalField "sdp" (p.sdp.map .text) ++
      optionalField "candidates" (p.candidates.map fun l => .seq (l.map SignalCandidate.value))))

def StrokeBeginPayload.value (p : StrokeBeginPayload) : MsgPack.Value :=
  .map [("stroke_id", .bin 16 p.strokeId), ("tool", .text p.tool.name), ("color", .text p.color),
    ("width", .float32 p.width), ("x", .float32 p.x), ("y", .float32 p.y),
    ("pressure", .float32 p.pressure), ("ts_ms", .int p.tsMs)]

def signalSignedBytes (enc : Encoders) (p : SignalPayload) : Option Bytes :=
  (enc.rmp p.value).map (DomainTag.build "SIGNAL" ++ ·)

def drawingSignedBytes (enc : Encoders) (p : StrokeBeginPayload) : Option Bytes :=
  (enc.rmp p.value).map (DomainTag.build "DRAW_START" ++ ·)

lemma SignalKind.name_inj {k k' : SignalKind} (h : k.name = k'.name) : k = k' := by
  cases k <;> cases k' <;> simp_all [SignalKind.name]

lemma StrokeTool.name_inj {t t' : StrokeTool} (h : t.name = t'.name) : t = t' := by
  cases t <;> cases t' <;> simp_all [StrokeTool.name]

/-- Where two fields follow each other, what the list says of one is not said of the other. -/
lemma optionalField_append_inj {key key' : String} (hne : key ≠ key')
    {v w v' w' : Option MsgPack.Value} (h : optionalField key v ++ optionalField key' v' =
      optionalField key w ++ optionalField key' w') :
    v = w ∧ v' = w' := by
  cases v <;> cases w <;> cases v' <;> cases w' <;> simp_all [optionalField]

lemma map_inj {f : α → MsgPack.Value} (hf : ∀ a b, f a = f b → a = b) {v w : Option α}
    (h : v.map f = w.map f) : v = w :=
  Option.map_injective (fun a b => hf a b) h

lemma SignalCandidate.value_inj {c c' : SignalCandidate} (h : c.value = c'.value) : c = c' := by
  obtain ⟨hhead, htail⟩ := List.cons.inj (MsgPack.Value.map.inj h)
  obtain ⟨hmid, hindex⟩ := optionalField_append_inj (by decide) htail
  have hmid := map_inj (fun _ _ => MsgPack.Value.text.inj) hmid
  have hindex := map_inj (fun _ _ h => Int.ofNat.inj (MsgPack.Value.int.inj h)) hindex
  have hcandidate := MsgPack.Value.text.inj (Prod.mk.inj hhead).2
  cases c
  cases c'
  congr

lemma SignalPayload.value_inj {p p' : SignalPayload} (h : p.value = p'.value) : p = p' := by
  obtain ⟨htarget, hrest⟩ := List.cons.inj (MsgPack.Value.map.inj h)
  obtain ⟨hkind, htail⟩ := List.cons.inj hrest
  obtain ⟨hsdp, hcandidates⟩ := optionalField_append_inj (by decide) htail
  have htarget := (MsgPack.Value.bin.inj (Prod.mk.inj htarget).2).2
  have hkind := SignalKind.name_inj (MsgPack.Value.text.inj (Prod.mk.inj hkind).2)
  have hsdp := map_inj (fun _ _ => MsgPack.Value.text.inj) hsdp
  have hcandidates := map_inj (fun _ _ h => List.map_injective_iff.2
    (fun _ _ => SignalCandidate.value_inj) (MsgPack.Value.seq.inj h)) hcandidates
  cases p
  cases p'
  congr

lemma StrokeBeginPayload.value_inj {p p' : StrokeBeginPayload} (h : p.value = p'.value) :
    p = p' := by
  simp only [StrokeBeginPayload.value, MsgPack.Value.map.injEq, List.cons.injEq, Prod.mk.injEq,
    MsgPack.Value.bin.injEq, MsgPack.Value.text.injEq, MsgPack.Value.float32.injEq,
    MsgPack.Value.int.injEq, true_and, and_true] at h
  obtain ⟨hid, htool, hcolor, hwidth, hx, hy, hpressure, hts⟩ := h
  have htool := StrokeTool.name_inj htool
  cases p
  cases p'
  congr

/-! ### The canonical manifest -/

namespace Canonical

/-- `BTreeMap::insert`. -/
def insertKey (key : String) (node : Json) : List (String × Json) → List (String × Json)
  | [] => [(key, node)]
  | (key', node') :: rest =>
    if key < key' then (key, node) :: (key', node') :: rest
    else if key = key' then (key, node) :: rest
    else (key', node') :: insertKey key node rest

/-- The collected fields of a struct. -/
def structNode (fields : List (String × Json)) : Json :=
  .object (fields.foldl (fun entries field => insertKey field.1 field.2 entries) [])

/-- A field that is left out where it has no value. -/
def optionalNode (key : String) (node : Option Json) : List (String × Json) :=
  (node.map fun n => (key, n)).toList

end Canonical

open Canonical

section Collect

variable (nfc : String → String)

def Dimensions.node (d : Dimensions) : Json :=
  structNode [("width", .number d.width), ("height", .number d.height)]

def Codecs.node (c : Codecs) : Json :=
  structNode (optionalNode "video" (c.video.map fun s => .string (nfc s)) ++
    (optionalNode "audio" (c.audio.map fun s => .string (nfc s)) ++
      optionalNode "container" (c.container.map fun s => .string (nfc s))))

def Source.node (s : Source) : Json :=
  structNode [("peer_id", .string (nfc s.peerId)),
    ("url_hint", (s.urlHint.map fun hint => Json.string (nfc hint)).getD .null),
    ("priority", .number s.priority), ("chunk_size", .number s.chunkSize),
    ("total_chunks", .number s.totalChunks),
    ("chunk_hashes", .array (s.chunkHashes.map fun h => .string (nfc h)))]

def MediaEntry.node (e : MediaEntry) : Json :=
  structNode ([("id", .string (nfc e.id)), ("filename", .string (nfc e.filename)),
    ("sha256", .string (nfc e.sha256)), ("blake3", .string (nfc e.blake3)),
    ("size_bytes", .number e.sizeBytes), ("mime", .string (nfc e.mime)),
    ("duration_ms", .number e.durationMs)] ++
    (optionalNode "dimensions" (e.dimensions.map Dimensions.node) ++
      (optionalNode "codecs" (e.codecs.map (Codecs.node nfc)) ++
        [("sources", .array (e.sources.map (Source.node nfc)))])))

def SubtitleEntry.node (e : SubtitleEntry) : Json :=
  structNode [("id", .string (nfc e.id)), ("language", .string (nfc e.language)),
    ("label", .string (nfc e.label)), ("filename", .string (nfc e.filename)),
    ("sha256", .string (nfc e.sha256)), ("size_bytes", .number e.sizeBytes),
    ("codec", .string (nfc e.codec)), ("sources", .array (e.sources.map (Source.node nfc)))]

def HostSignature.node (s : HostSignature) : Json :=
  structNode [("public_key", .string (nfc s.publicKey)), ("algorithm", .string (nfc s.algorithm)),
    ("value", .string (nfc s.value))]

/-- `collect_value`. -/
def MediaManifest.node (m : MediaManifest) : Json :=
  structNode [("manifest_version", .number m.manifestVersion), ("room_id", .string (nfc m.roomId)),
    ("media", .array (m.media.map (MediaEntry.node nfc))),
    ("subtitles", .array (m.subtitles.map (SubtitleEntry.node nfc))),
    ("created_at", .number m.createdAt),
    ("host_signature", (m.hostSignature.map (HostSignature.node nfc)).getD .null)]

end Collect

/-! ### Manifests in their normal form -/

section Normal

variable (nfc : String → String)

def Codecs.normal (c : Codecs) : Codecs where
  video := c.video.map nfc
  audio := c.audio.map nfc
  container := c.container.map nfc

def Source.normal (s : Source) : Source :=
  { s with
    peerId := nfc s.peerId
    urlHint := s.urlHint.map nfc
    chunkHashes := s.chunkHashes.map nfc }

def MediaEntry.normal (e : MediaEntry) : MediaEntry :=
  { e with
    id := nfc e.id
    filename := nfc e.filename
    sha256 := nfc e.sha256
    blake3 := nfc e.blake3
    mime := nfc e.mime
    codecs := e.codecs.map (Codecs.normal nfc)
    sources := e.sources.map (Source.normal nfc) }

def SubtitleEntry.normal (e : SubtitleEntry) : SubtitleEntry :=
  { e with
    id := nfc e.id
    language := nfc e.language
    label := nfc e.label
    filename := nfc e.filename
    sha256 := nfc e.sha256
    codec := nfc e.codec
    sources := e.sources.map (Source.normal nfc) }

def HostSignature.normal (s : HostSignature) : HostSignature where
  publicKey := nfc s.publicKey
  algorithm := nfc s.algorithm
  value := nfc s.value

/-- A manifest with its strings in their normal form. -/
def MediaManifest.normal (m : MediaManifest) : MediaManifest :=
  { m with
    roomId := nfc m.roomId
    media := m.media.map (MediaEntry.normal nfc)
    subtitles := m.subtitles.map (SubtitleEntry.normal nfc)
    hostSignature := m.hostSignature.map (HostSignature.normal nfc) }

end Normal

def MediaManifest.unsigned (m : MediaManifest) : MediaManifest := { m with hostSignature := none }

namespace Canonical

def stripHostSignature : Json → Json
  | .object entries => .object (insertKey "host_signature" .null entries)
  | other => other

/-- `canonical::serialize`. -/
def serialize (enc : Encoders) (m : MediaManifest) : Option Bytes :=
  (enc.json (stripHostSignature (m.node enc.nfc))).map (· ++ [10])

/-! ### What a tree says of its manifest -/

/-- The entry under a key. -/
def entry (key : String) : List (String × Json) → Option Json
  | [] => none
  | (k, node) :: rest => if k = key then some node else entry key rest

/-- A member of a node. -/
def property (key : String) : Json → Option Json
  | .object entries => entry key entries
  | _ => none

lemma entry_insertKey (key key' : String) (node : Json) (entries : List (String × Json)) :
    entry key (insertKey key' node entries) = if key' = key then some node
      else entry key entries := by
  induction entries with
  | nil => rfl
  | cons e rest ih =>
    obtain ⟨k, n⟩ := e
    simp only [insertKey]
    by_cases hlt : key' < k
    · rw [if_pos hlt]
      rfl
    rw [if_neg hlt]
    by_cases heq : key' = k
    · subst heq
      rw [if_pos rfl]
      simp only [entry]
      split_ifs <;> rfl
    · rw [if_neg heq]
      simp only [entry, ih]
      split_ifs with hk hkey <;> first | rfl | exact absurd (hkey.trans hk.symm) heq

/-- The last field of a name is the one that stands. -/
lemma property_structNode (key : String) (fields : List (String × Json)) :
    property key (structNode fields) = entry key fields.reverse := by
  have hfold : ∀ entries : List (String × Json),
      entry key (fields.foldl (fun entries field => insertKey field.1 field.2 entries) entries) =
        entry key (fields.reverse ++ entries) := by
    induction fields with
    | nil => exact fun _ => rfl
    | cons field rest ih =>
      intro entries
      rw [List.foldl_cons, ih, List.reverse_cons, List.append_assoc, List.singleton_append]
      generalize rest.reverse = front
      induction front with
      | nil => exact entry_insertKey key field.1 field.2 entries
      | cons e front ih =>
        simp only [List.cons_append, entry]
        rw [ih]
  simpa [structNode, property] using hfold []

lemma entry_append (key : String) (l m : List (String × Json)) :
    entry key (l ++ m) = (entry key l).or (entry key m) := by
  induction l with
  | nil => simp [entry]
  | cons e l ih =>
    simp only [List.cons_append, entry, ih]
    split_ifs <;> simp

lemma entry_optionalNode (key key' : String) (node : Option Json) :
    entry key (optionalNode key' node).reverse = if key' = key then node else none := by
  cases node <;> simp [optionalNode, entry]

end Canonical

variable {nfc : String → String}

lemma map_node_inj {f : α → Json} {g : α → β} (hf : ∀ a b, f a = f b → g a = g b) {l m : List α}
    (h : l.map f = m.map f) : l.map g = m.map g := by
  induction l generalizing m with
  | nil =>
    cases m with
    | nil => rfl
    | cons b m => cases h
  | cons a l ih =>
    cases m with
    | nil => cases h
    | cons b m =>
      obtain ⟨hhead, htail⟩ := List.cons.inj h
      rw [List.map_cons, List.map_cons, hf a b hhead, ih htail]

lemma option_node_inj {f : α → Json} {g : α → β} (hf : ∀ a b, f a = f b → g a = g b)
    {v w : Option α} (h : v.map f = w.map f) : v.map g = w.map g := by
  cases v <;> cases w <;> first | rfl | cases h | exact congrArg some (hf _ _ (Option.some.inj h))

lemma string_inj {s t : String} (h : Json.string (nfc s) = Json.string (nfc t)) : nfc s = nfc t :=
  Json.string.inj h

lemma Dimensions.node_inj {d d' : Dimensions} (h : d.node = d'.node) : d = d' := by
  have hread (key : String) := congrArg (property key) h
  simp only [Dimensions.node, property_structNode] at hread
  have hwidth := hread "width"
  have hheight := hread "height"
  simp [entry] at hwidth hheight
  cases d
  cases d'
  congr

lemma Codecs.node_inj {c c' : Codecs} (h : c.node nfc = c'.node nfc) :
    c.normal nfc = c'.normal nfc := by
  have hread (key : String) := congrArg (property key) h
  simp only [Codecs.node, property_structNode, List.reverse_append, entry_append,
    entry_optionalNode] at hread
  have hvideo := hread "video"
  have haudio := hread "audio"
  have hcontainer := hread "container"
  simp at hvideo haudio hcontainer
  simp only [Codecs.normal, Codecs.mk.injEq]
  exact ⟨option_node_inj (fun _ _ => string_inj) hvideo,
    option_node_inj (fun _ _ => string_inj) haudio,
    option_node_inj (fun _ _ => string_inj) hcontainer⟩

lemma hint_inj {v w : Option String}
    (h : (v.map fun hint => Json.string (nfc hint)).getD .null =
      (w.map fun hint => Json.string (nfc hint)).getD .null) : v.map nfc = w.map nfc := by
  cases v <;> cases w <;> first | rfl | cases h | exact congrArg some (Json.string.inj h)

lemma Source.node_inj {s s' : Source} (h : s.node nfc = s'.node nfc) :
    s.normal nfc = s'.normal nfc := by
  have hread (key : String) := congrArg (property key) h
  simp only [Source.node, property_structNode] at hread
  have hpeer := hread "peer_id"
  have hhint := hread "url_hint"
  have hpriority := hread "priority"
  have hsize := hread "chunk_size"
  have htotal := hread "total_chunks"
  have hhashes := hread "chunk_hashes"
  simp [entry] at hpeer hhint hpriority hsize htotal hhashes
  simp only [Source.normal, Source.mk.injEq]
  exact ⟨hpeer, hint_inj hhint, hpriority, hsize, htotal,
    map_node_inj (fun _ _ => string_inj) hhashes⟩

lemma MediaEntry.node_inj {e e' : MediaEntry} (h : e.node nfc = e'.node nfc) :
    e.normal nfc = e'.normal nfc := by
  have hread (key : String) := congrArg (property key) h
  simp only [MediaEntry.node, property_structNode, List.reverse_append, entry_append,
    entry_optionalNode] at hread
  have hid := hread "id"
  have hfilename := hread "filename"
  have hsha := hread "sha256"
  have hblake := hread "blake3"
  have hsize := hread "size_bytes"
  have hmime := hread "mime"
  have hduration := hread "duration_ms"
  have hdimensions := hread "dimensions"
  have hcodecs := hread "codecs"
  have hsources := hread "sources"
  simp [entry] at hid hfilename hsha hblake hsize hmime hduration hdimensions hcodecs hsources
  have hdimensions : e.dimensions = e'.dimensions :=
    Option.map_injective (fun _ _ => Dimensions.node_inj) hdimensions
  simp only [MediaEntry.normal, MediaEntry.mk.injEq]
  exact ⟨hid, hfilename, hsha, hblake, hsize, hmime, hduration, hdimensions,
    option_node_inj (fun _ _ => Codecs.node_inj) hcodecs,
    map_node_inj (fun _ _ => Source.node_inj) hsources⟩

lemma SubtitleEntry.node_inj {e e' : SubtitleEntry} (h : e.node nfc = e'.node nfc) :
    e.normal nfc = e'.normal nfc := by
  have hread (key : String) := congrArg (property key) h
  simp only [SubtitleEntry.node, property_structNode] at hread
  have hid := hread "id"
  have hlanguage := hread "language"
  have hlabel := hread "label"
  have hfilename := hread "filename"
  have hsha := hread "sha256"
  have hsize := hread "size_bytes"
  have hcodec := hread "codec"
  have hsources := hread "sources"
  simp [entry] at hid hlanguage hlabel hfilename hsha hsize hcodec hsources
  simp only [SubtitleEntry.normal, SubtitleEntry.mk.injEq]
  exact ⟨hid, hlanguage, hlabel, hfilename, hsha, hsize, hcodec,
    map_node_inj (fun _ _ => Source.node_inj) hsources⟩

/-- The tree that is written. -/
def MediaManifest.canonicalTree (nfc : String → String) (m : MediaManifest) : Json :=
  stripHostSignature (m.node nfc)

/-- The keys come in their order, and the signature is not among the values. -/
lemma MediaManifest.canonicalTree_eq (m : MediaManifest) :
    m.canonicalTree nfc = .object
      [("created_at", .number m.createdAt), ("host_signature", .null),
        ("manifest_version", .number m.manifestVersion),
        ("media", .array (m.media.map (MediaEntry.node nfc))), ("room_id", .string (nfc m.roomId)),
        ("subtitles", .array (m.subtitles.map (SubtitleEntry.node nfc)))] := by
  simp [canonicalTree, stripHostSignature, node, structNode, insertKey, -String.lt_iff_ltb]

/-- **The tree determines the manifest**, but for its signature and the form of its strings. -/
theorem MediaManifest.canonicalTree_inj {m m' : MediaManifest}
    (h : m.canonicalTree nfc = m'.canonicalTree nfc) :
    m.unsigned.normal nfc = m'.unsigned.normal nfc := by
  simp only [canonicalTree_eq, Json.object.injEq, List.cons.injEq, Prod.mk.injEq,
    Json.number.injEq, Json.array.injEq, Json.string.injEq, true_and, and_true] at h
  obtain ⟨hcreated, hversion, hmedia, hroom, hsubtitles⟩ := h
  simp only [normal, unsigned, MediaManifest.mk.injEq]
  exact ⟨Int.ofNat.inj hversion, hroom, map_node_inj (fun _ _ => MediaEntry.node_inj) hmedia,
    map_node_inj (fun _ _ => SubtitleEntry.node_inj) hsubtitles, hcreated, trivial⟩

/-! ### The four kinds -/

/-- What the key signs. -/
inductive Signable where
  | nonce (n : Vector UInt8 32)
  | signal (p : SignalPayload)
  | drawing (p : StrokeBeginPayload)
  | manifest (m : MediaManifest)

def Signable.bytes (enc : Encoders) : Signable → Option Bytes
  | .nonce n => some n.toList
  | .signal p => signalSignedBytes enc p
  | .drawing p => drawingSignedBytes enc p
  | .manifest m => serialize enc m

/-- One purpose, and one payload as far as `view` looks at manifests. -/
def Signable.Same (view : MediaManifest → MediaManifest) : Signable → Signable → Prop
  | .nonce n, .nonce n' => n = n'
  | .signal p, .signal p' => p = p'
  | .drawing p, .drawing p' => p = p'
  | .manifest m, .manifest m' => view m = view m'
  | _, _ => False

/-- Equal bytes are of one purpose and one payload. -/
def Separates (enc : Encoders) (view : MediaManifest → MediaManifest) : Prop :=
  ∀ x y b, Signable.bytes enc x = some b → Signable.bytes enc y = some b → Signable.Same view x y

abbrev Signature : Type := Vector UInt8 64

/-- A signature that verifies for one message under a key verifies for no other. -/
def Binding (verifies : PubKey → Bytes → Signature → Prop) : Prop :=
  ∀ key b b' sig, verifies key b sig → verifies key b' sig → b = b'

variable {enc : Encoders}

lemma length_tagged {tag : String} {v : MsgPack.Value} {b : Bytes} (henc : enc.Sound)
    (h : (enc.rmp v).map (DomainTag.build tag ++ ·) = some b) :
    16 + MsgPack.textBytes v ≤ b.length := by
  obtain ⟨body, hbody, rfl⟩ := Option.map_eq_some_iff.1 h
  have htext := henc.rmp_text v body hbody
  rw [List.length_append, DomainTag.length_build]
  omega

lemma tagged_inj {tag tag' : String} {v v' : MsgPack.Value} {b : Bytes} (henc : enc.Sound)
    (h : (enc.rmp v).map (DomainTag.build tag ++ ·) = some b)
    (h' : (enc.rmp v').map (DomainTag.build tag' ++ ·) = some b) :
    DomainTag.build tag = DomainTag.build tag' ∧ v = v' := by
  obtain ⟨body, hbody, rfl⟩ := Option.map_eq_some_iff.1 h
  obtain ⟨body', hbody', heq⟩ := Option.map_eq_some_iff.1 h'
  obtain ⟨htag, rfl⟩ := List.append_inj heq
    ((DomainTag.length_build tag').trans (DomainTag.length_build tag).symm)
  exact ⟨htag.symm, henc.rmp_inj v v' body' hbody hbody'⟩

lemma head_tagged {tag : String} {v : MsgPack.Value} {b : Bytes}
    (h : (enc.rmp v).map (DomainTag.build tag ++ ·) = some b) : b.head? = some 108 := by
  obtain ⟨body, -, rfl⟩ := Option.map_eq_some_iff.1 h
  rfl

lemma length_signal {p : SignalPayload} {b : Bytes} (henc : enc.Sound)
    (h : signalSignedBytes enc p = some b) : 32 < b.length := by
  have hlen := length_tagged henc h
  have htext : 30 ≤ MsgPack.textBytes p.value := by
    simp only [SignalPayload.value, MsgPack.textBytes, MsgPack.fieldsTextBytes]
    have hid : "to_user_id".utf8ByteSize = 10 := rfl
    have hkind : "kind".utf8ByteSize = 4 := rfl
    omega
  omega

lemma length_drawing {p : StrokeBeginPayload} {b : Bytes} (henc : enc.Sound)
    (h : drawingSignedBytes enc p = some b) : 32 < b.length := by
  have hlen := length_tagged henc h
  have htext : 25 ≤ MsgPack.textBytes p.value := by
    simp only [StrokeBeginPayload.value, MsgPack.textBytes, MsgPack.fieldsTextBytes]
    have hid : "stroke_id".utf8ByteSize = 9 := rfl
    omega
  omega

lemma serialize_spec {m : MediaManifest} {b : Bytes} (henc : enc.Sound)
    (h : serialize enc m = some b) :
    32 < b.length ∧ b.head? = some 123 ∧
      ∃ body, enc.json (m.canonicalTree enc.nfc) = some body ∧ b = body ++ [10] := by
  obtain ⟨body, hbody, rfl⟩ := Option.map_eq_some_iff.1 h
  have hhead : body.head? = some 123 := henc.json_brace _ body hbody
  have hkeys : 32 ≤ (m.canonicalTree enc.nfc).textBytes := by
    rw [MediaManifest.canonicalTree_eq]
    simp only [Json.textBytes, entriesTextBytes]
    have hsignature : "host_signature".utf8ByteSize = 14 := rfl
    have hversion : "manifest_version".utf8ByteSize = 16 := rfl
    have hmedia : "media".utf8ByteSize = 5 := rfl
    omega
  have htext := henc.json_text _ body hbody
  rw [← MediaManifest.canonicalTree] at htext
  refine ⟨?_, ?_, body, hbody, rfl⟩
  · simp only [List.length_append, List.length_singleton]
    omega
  · obtain ⟨rest, rfl⟩ := List.head?_eq_some_iff.1 hhead
    rfl

/-- The bytes of a manifest do not depend on its signature. -/
lemma serialize_unsigned (m : MediaManifest) : serialize enc m = serialize enc m.unsigned := by
  have htree : m.canonicalTree enc.nfc = m.unsigned.canonicalTree enc.nfc := by
    rw [MediaManifest.canonicalTree_eq, MediaManifest.canonicalTree_eq]
    rfl
  exact congrArg (fun tree => (enc.json tree).map (· ++ [10])) htree

/-- The purposes do not meet: a nonce is shorter than the others, the tags differ in their ninth
byte, and a manifest opens with a brace. -/
lemma same_of_bytes {x y : Signable} {b : Bytes} (henc : enc.Sound) (hx : x.bytes enc = some b)
    (hy : y.bytes enc = some b) : Signable.Same (fun m => m.unsigned.normal enc.nfc) x y := by
  have hnonce {n : Vector UInt8 32} (h : Signable.bytes enc (.nonce n) = some b) :
      b.length = 32 := by
    cases h
    simp
  have htags : DomainTag.build "SIGNAL" ≠ DomainTag.build "DRAW_START" := by decide
  cases x with
  | nonce n =>
    have hlen := hnonce hx
    cases y with
    | nonce n' =>
      cases hx
      exact Vector.toList_inj.1 (Option.some.inj hy).symm
    | signal p => exact absurd hlen (length_signal henc hy).ne'
    | drawing p => exact absurd hlen (length_drawing henc hy).ne'
    | manifest m => exact absurd hlen (serialize_spec henc hy).1.ne'
  | signal p =>
    cases y with
    | nonce n => exact absurd (hnonce hy) (length_signal henc hx).ne'
    | signal p' => exact SignalPayload.value_inj (tagged_inj henc hx hy).2
    | drawing p' => exact absurd (tagged_inj henc hx hy).1 htags
    | manifest m => cases (head_tagged hx).symm.trans (serialize_spec henc hy).2.1
  | drawing p =>
    cases y with
    | nonce n => exact absurd (hnonce hy) (length_drawing henc hx).ne'
    | signal p' => exact absurd (tagged_inj henc hy hx).1 htags
    | drawing p' => exact StrokeBeginPayload.value_inj (tagged_inj henc hx hy).2
    | manifest m => cases (head_tagged hx).symm.trans (serialize_spec henc hy).2.1
  | manifest m =>
    obtain ⟨hlen, hbrace, body, hbody, rfl⟩ := serialize_spec henc hx
    cases y with
    | nonce n => exact absurd (hnonce hy) hlen.ne'
    | signal p => cases (head_tagged hy).symm.trans hbrace
    | drawing p => cases (head_tagged hy).symm.trans hbrace
    | manifest m' =>
      obtain ⟨-, -, body', hbody', heq⟩ := serialize_spec henc hy
      obtain rfl := List.append_cancel_right heq
      exact MediaManifest.canonicalTree_inj (henc.json_inj _ _ _ hbody hbody')

/-- **Signatures do not cross purposes.**  Equal bytes are of one purpose and one payload, a
manifest up to the normal form of its strings and without its signature; so where a signature
verifies for one message only, one that was made for a payload verifies for no other. -/
theorem signatures_separate (enc : Encoders) (henc : enc.Sound) :
    Separates enc (fun m => m.unsigned.normal enc.nfc) ∧
      ∀ verifies, Binding verifies → ∀ key sig x y b b', Signable.bytes enc x = some b →
        Signable.bytes enc y = some b' → verifies key b sig → verifies key b' sig →
          Signable.Same (fun m => m.unsigned.normal enc.nfc) x y := by
  refine ⟨fun x y b hx hy => same_of_bytes henc hx hy, ?_⟩
  intro verifies hbinding key sig x y b b' hx hy hverifies hverifies'
  obtain rfl := hbinding key b b' sig hverifies hverifies'
  exact same_of_bytes henc hx hy

/-! ### The formats themselves -/

/-- The encoders as the formats describe them; on text that is in its normal form already. -/
def Encoders.reference : Encoders where
  rmp := MsgPack.write
  json v := some (write v)
  nfc := id

lemma Encoders.sound_reference : Encoders.reference.Sound where
  rmp_inj _ _ _ hv hw := MsgPack.write_inj hv hw
  rmp_text _ _ h := MsgPack.textBytes_le_write h
  json_inj v w b hv hw := by
    have hstops : Stops [] := fun _ h => by cases h
    obtain rfl := Option.some.inj hv
    have heq : write v ++ [] = write w ++ [] := by rw [Option.some.inj hw]
    exact (write_append_inj hstops hstops heq).1
  json_text v b h := by
    obtain rfl := Option.some.inj h
    exact textBytes_le_write v
  json_brace entries b h := by
    obtain rfl := Option.some.inj h
    rfl

namespace Signing

/-- An offer for peer 2. -/
def offer : SignalPayload := ⟨2, .offer, some "v=0", none⟩

/-- The first point of a stroke. -/
def dot : StrokeBeginPayload :=
  ⟨7, .pen, "#fff", 0x3F800000, 0x3F000000, 0x3F000000, 0, 1700000000000⟩

def manifest (signature : Option HostSignature) : MediaManifest := ⟨1, "room", [], [], 5, signature⟩

/-- Both are signed, and not as the same bytes. -/
theorem signatures_separate_dot :
    (Signable.bytes .reference (.signal offer)).isSome = true ∧
      ∀ b, Signable.bytes .reference (.drawing dot) = some b →
        Signable.bytes .reference (.signal offer) ≠ some b :=
  ⟨by decide, fun b hdot hoffer =>
    (signatures_separate .reference Encoders.sound_reference).1 _ _ b hoffer hdot⟩

/-- Two manifests that differ in their signature have the same bytes. -/
theorem not_separates_signed :
    Encoders.reference.Sound ∧
      ¬Separates .reference (fun m => m.normal Encoders.reference.nfc) := by
  refine ⟨Encoders.sound_reference, fun h => ?_⟩
  have hsame := h (.manifest (manifest none))
    (.manifest (manifest (some ⟨"k", "ed25519", "s"⟩))) _ rfl
    (serialize_unsigned _)
  cases congrArg MediaManifest.hostSignature hsame

end Signing

end Locast.Protocol

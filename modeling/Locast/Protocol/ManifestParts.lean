import Locast.Lib.Base64
import Locast.Lib.Least
import Locast.Lib.SwapRemove
import Locast.Protocol.Room

/-!
# Manifests in pieces (`shared/protocol/src/manifest_parts.rs`)

A manifest too large for one frame travels as pieces of its serialized form, and a `PartAssembler`
puts them together again.  JSON and SHA-256 are the functions of `PartCrates`; base64 is the
library's. `none` is a panic: an index or a slice out of range.

A `push` is cut at `ByteBudget::reserve`, where other assemblers may be at work: `offer` is what
comes before and `PartAssembler.accept` what comes after.
-/

namespace Locast.Protocol

open Locast.Lib

def maxPartBytes : ℕ := 512 * 1024

def maxAssembledBytes : ℕ := 32 * 1024 * 1024

def maxParts : ℕ := 1024

def frameOverheadBytes : ℕ := 4096

inductive PartError where
  | badHeader (why : String)
  | tooLarge (bytes limit : ℕ)
  | outOfOrder (expected got : ℕ)
  | conflict (index : ℕ)
  | badPiece (index : ℕ)
  | lengthMismatch
  | digestMismatch
  | badManifest (why : String)
  | budgetExhausted
  | frameCapTooSmall (cap : ℕ)
  deriving DecidableEq, Repr

/-- `serde_json` on manifests, and `sha256_hex`. -/
structure PartCrates where
  toVec : MediaManifest → Except String (List UInt8)
  fromSlice : List UInt8 → Except String MediaManifest
  sha256Hex : List UInt8 → String

/-! ### Splitting -/

/-- `usize::div_ceil`. -/
def divCeil (n d : ℕ) : ℕ := (n + d - 1) / d

def encodeManifest (crates : PartCrates) (manifest : MediaManifest) :
    Except PartError (List UInt8) :=
  match crates.toVec manifest with
  | .error e => .error (.badManifest e)
  | .ok bytes =>
    if maxAssembledBytes < bytes.length then .error (.tooLarge bytes.length maxAssembledBytes)
    else .ok bytes

def partSizeForFrameCap (frameCap : ℕ) : Except PartError ℕ :=
  let room := frameCap - frameOverheadBytes
  let size := min (room / 4 * 3) maxPartBytes
  if size < divCeil maxAssembledBytes maxParts then .error (.frameCapTooSmall frameCap)
  else .ok size

/-- The `i`-th of `bytes.chunks(size)`. -/
def chunk (bytes : List UInt8) (size i : ℕ) : List UInt8 := (bytes.drop (i * size)).take size

/-- The `i`-th piece of a manifest. -/
def pieceOf (crates : PartCrates) (bytes : List UInt8) (kind : ManifestPartKind)
    (version publishedAtMs : ℤ) (assemblyId : Uuid) (partSize i : ℕ) : ManifestPartPayload where
  assemblyId
  kind
  index := i
  total := divCeil bytes.length partSize
  totalBytes := bytes.length
  digest := crates.sha256Hex bytes
  version
  publishedAtMs
  data := Base64.encode (chunk bytes partSize i)

def splitManifestBytes (crates : PartCrates) (bytes : List UInt8) (kind : ManifestPartKind)
    (version publishedAtMs : ℤ) (assemblyId : Uuid) (partSize : ℕ) :
    Except PartError (List ManifestPartPayload) :=
  if bytes = [] ∨ partSize = 0 ∨ maxPartBytes < partSize then
    .error (.badHeader "empty manifest or bad piece size")
  else if maxAssembledBytes < bytes.length then .error (.tooLarge bytes.length maxAssembledBytes)
  else if maxParts < divCeil bytes.length partSize then
    .error (.tooLarge bytes.length (partSize * maxParts))
  else .ok ((List.range (divCeil bytes.length partSize)).map
    (pieceOf crates bytes kind version publishedAtMs assemblyId partSize))

/-! ### Headers -/

/-- Whether a digest is 64 lowercase hexadecimal digits. -/
def isDigest (digest : String) : Bool :=
  digest.utf8ByteSize = 64 && digest.toList.all fun c =>
    ('0' ≤ c && c ≤ '9') || ('a' ≤ c && c ≤ 'f')

def validateHeader (part : ManifestPartPayload) : Except PartError Unit :=
  if part.total = 0 ∨ maxParts < part.total then .error (.badHeader "piece count out of range")
  else if part.total ≤ part.index then .error (.badHeader "piece index out of range")
  else if part.totalBytes = 0 ∨ maxAssembledBytes < part.totalBytes then
    .error (.tooLarge part.totalBytes maxAssembledBytes)
  else if part.total * maxPartBytes < part.totalBytes ∨ part.totalBytes < part.total then
    .error (.badHeader "piece count does not fit the length")
  else if !isDigest part.digest then .error (.badHeader "digest is not 64 lowercase hex")
  else if part.kind = .publish ∧ (part.version ≠ 0 ∨ part.publishedAtMs ≠ 0) then
    .error (.badHeader "a publish carries no version")
  else .ok ()

/-- `from_base64`: the empty string is refused. -/
def fromBase64 (data : String) : Option (List UInt8) :=
  if data = "" then none else Base64.decode data

/-! ### Assembling -/

structure AssembledManifest where
  roomId : Uuid
  kind : ManifestPartKind
  version : ℤ
  publishedAtMs : ℤ
  manifest : MediaManifest
  deriving DecidableEq, Repr

/-- An assembly in flight; `ends` are the end offsets in `buf` of the pieces taken so far, and its
reservation is of `totalBytes`. -/
structure Entry where
  roomId : Uuid
  assemblyId : Uuid
  kind : ManifestPartKind
  total : ℕ
  totalBytes : ℕ
  digest : String
  version : ℤ
  publishedAtMs : ℤ
  ends : List ℕ
  buf : List UInt8
  lastActivity : ℕ
  deriving DecidableEq, Repr

/-- A `PartAssembler`.  `dropped` are the reservations of the entries that a call has removed, in
the order in which they are dropped. -/
structure PartAssembler where
  maxConcurrent : ℕ
  ttl : ℕ
  entries : List Entry
  dropped : List ℕ
  deriving Repr

/-- What a `push` returns. -/
abbrev Pushed : Type := Except PartError (Option AssembledManifest)

namespace PartAssembler

def new (maxConcurrent ttl : ℕ) : PartAssembler where
  maxConcurrent := max maxConcurrent 1
  ttl
  entries := []
  dropped := []

/-- `Vec::retain`. -/
def retain (a : PartAssembler) (keep : Entry → Bool) : PartAssembler :=
  { a with
    entries := a.entries.filter keep
    dropped := a.dropped ++ (a.entries.filter (!keep ·)).map (·.totalBytes) }

/-- `Vec::swap_remove`. -/
def swapRemove (a : PartAssembler) (pos : ℕ) : PartAssembler :=
  { a with
    entries := Lib.swapRemove a.entries pos
    dropped := a.dropped ++ (a.entries[pos]?.map (·.totalBytes)).toList }

def clear (a : PartAssembler) : PartAssembler := a.retain fun _ => false

def expire (a : PartAssembler) (now : ℕ) : PartAssembler :=
  a.retain fun e => now - e.lastActivity < a.ttl

def dropAssembly (a : PartAssembler) (roomId assemblyId : Uuid) : PartAssembler :=
  a.retain fun e => !(e.roomId = roomId && e.assemblyId = assemblyId)

/-- The position of the entry whose last piece came first. -/
def oldest (entries : List Entry) : ℕ :=
  ((least (fun a b => a.1.lastActivity < b.1.lastActivity) entries.zipIdx).map (·.2)).getD 0

/-- The evictions of `begin`, at most `n` of them. -/
def evict : ℕ → PartAssembler → PartAssembler
  | 0, a => a
  | n + 1, a =>
    if a.maxConcurrent ≤ a.entries.length then evict n (a.swapRemove (oldest a.entries)) else a

/-- `begin` up to the reservation: a newer manifest of the same kind replaces one of the room, and
the oldest assemblies make room. -/
def makeRoom (a : PartAssembler) (roomId : Uuid) (kind : ManifestPartKind) : PartAssembler :=
  let a := a.retain fun e => !(e.roomId = roomId && e.kind = kind)
  a.evict a.entries.length

end PartAssembler

/-- The new entry of `begin`. -/
def Entry.new (roomId : Uuid) (part : ManifestPartPayload) (now : ℕ) : Entry where
  roomId
  assemblyId := part.assemblyId
  kind := part.kind
  total := part.total
  totalBytes := part.totalBytes
  digest := part.digest
  version := part.version
  publishedAtMs := part.publishedAtMs
  ends := []
  buf := []
  lastActivity := now

/-- `&e.buf[start..end]` of the piece `index`. -/
def Entry.slice (e : Entry) (index : ℕ) : Option (List UInt8) :=
  match if index = 0 then some 0 else e.ends[index - 1]?, e.ends[index]? with
  | some s, some t => if s ≤ t ∧ t ≤ e.buf.length then some ((e.buf.take t).drop s) else none
  | _, _ => none

/-- `take` on the entry at its position. -/
def Entry.take (crates : PartCrates) (e : Entry) (part : ManifestPartPayload) (piece : List UInt8)
    (now : ℕ) : Option (Entry × Pushed) :=
  if e.kind ≠ part.kind ∨ e.total ≠ part.total ∨ e.totalBytes ≠ part.totalBytes ∨
      e.digest ≠ part.digest ∨ e.version ≠ part.version ∨ e.publishedAtMs ≠ part.publishedAtMs then
    some (e, .error (.badHeader "header changed within an assembly"))
  else if part.index < e.ends.length then
    (e.slice part.index).map fun taken =>
      if taken = piece then (e, .ok none) else (e, .error (.conflict part.index))
  else if part.index ≠ e.ends.length then some (e, .error (.outOfOrder e.ends.length part.index))
  else if e.totalBytes < e.buf.length + piece.length then some (e, .error .lengthMismatch)
  else
    let buf := e.buf ++ piece
    let e := { e with buf, ends := e.ends ++ [buf.length], lastActivity := now }
    if part.index + 1 < e.total then some (e, .ok none)
    else if e.buf.length ≠ e.totalBytes then some (e, .error .lengthMismatch)
    else if crates.sha256Hex e.buf ≠ e.digest then some (e, .error .digestMismatch)
    else match crates.fromSlice e.buf with
      | .error err => some (e, .error (.badManifest err))
      | .ok manifest => some (e, .ok (some
          { roomId := e.roomId, kind := e.kind, version := e.version,
            publishedAtMs := e.publishedAtMs, manifest }))

namespace PartAssembler

/-- The end of `push`, with the entry's position. -/
def finish (crates : PartCrates) (a : PartAssembler) (pos : ℕ) (part : ManifestPartPayload)
    (piece : List UInt8) (now : ℕ) : Option (PartAssembler × Pushed) :=
  match a.entries[pos]? with
  | none => none
  | some e =>
    (e.take crates part piece now).map fun out =>
      let a := { a with entries := a.entries.set pos out.1 }
      match out.2 with
      | .ok none => (a, .ok none)
      | .ok (some done) => (a.swapRemove pos, .ok (some done))
      | .error e => (a.swapRemove pos, .error e)

/-- Where the pieces of the assembly go. -/
def position (a : PartAssembler) (roomId assemblyId : Uuid) : Option ℕ :=
  a.entries.findIdx? fun e => e.roomId = roomId && e.assemblyId = assemblyId

end PartAssembler

/-- What `push` has come to: it is done, or it is about to reserve the bytes of a new assembly. -/
inductive Offered where
  | done (a : PartAssembler) (result : Pushed)
  | reserve (a : PartAssembler) (piece : List UInt8)

namespace PartAssembler

/-- `push` up to the reservation. -/
def offer (crates : PartCrates) (a : PartAssembler) (roomId : Uuid) (part : ManifestPartPayload)
    (now : ℕ) : Option Offered :=
  let a := a.expire now
  let refused :=
    some (.done (a.dropAssembly roomId part.assemblyId) (.error (.badPiece part.index)))
  match validateHeader part with
  | .error e => some (.done a (.error e))
  | .ok () =>
    if divCeil maxPartBytes 3 * 4 < part.data.utf8ByteSize then refused
    else match fromBase64 part.data with
    | none => refused
    | some piece =>
      if maxPartBytes < piece.length then refused
      else match a.position roomId part.assemblyId with
      | some pos => (a.finish crates pos part piece now).map fun out => .done out.1 out.2
      | none =>
        if part.index ≠ 0 then some (.done a (.error (.outOfOrder 0 part.index)))
        else some (.reserve (a.makeRoom roomId part.kind) piece)

/-- `push` from the reservation on. -/
def accept (crates : PartCrates) (a : PartAssembler) (roomId : Uuid) (part : ManifestPartPayload)
    (piece : List UInt8) (now : ℕ) : Option (PartAssembler × Pushed) :=
  let begun := { a with entries := a.entries ++ [Entry.new roomId part now] }
  begun.finish crates a.entries.length part piece now

/-- **`push`**, with the budget's answer to a reservation. -/
def push (crates : PartCrates) (reserved : Except PartError Unit) (a : PartAssembler)
    (roomId : Uuid) (part : ManifestPartPayload) (now : ℕ) : Option (PartAssembler × Pushed) :=
  match a.offer crates roomId part now with
  | none => none
  | some (.done a result) => some (a, result)
  | some (.reserve a piece) =>
    match reserved with
    | .error e => some (a, .error e)
    | .ok () => a.accept crates roomId part piece now

end PartAssembler

/-! ### A small manifest -/

namespace SmallManifest

def manifest : MediaManifest := ⟨1, "", [], [], 0, none⟩

/-- Its serialized form. -/
def json : List UInt8 :=
  ("\x7b\"manifest_version\":1,\"room_id\":\"\",\"media\":[],\"subtitles\":[]," ++
    "\"created_at\":0,\"host_signature\":null\x7d").toList.map fun c => UInt8.ofNat c.toNat

/-- JSON on this manifest, and the digest of its serialized form. -/
def serde : PartCrates where
  toVec m := if m = manifest then .ok json else .error "unknown"
  fromSlice bytes := if bytes = json then .ok manifest else .error "expected value"
  sha256Hex _ := "b0154fabd798425dee543b3188d7256b9b52716599cc81f48da964998db85abd"

/-- A piece, in the assembly `1` of the room `1`. -/
def piece (i : ℕ) : ManifestPartPayload := pieceOf serde json .published 3 99 1 50 i

end SmallManifest

end Locast.Protocol

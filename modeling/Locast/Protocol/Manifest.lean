import Mathlib.Data.Int.Notation
import Mathlib.Data.Nat.Notation

/-!
# The manifest data model (`shared/manifest/src/model.rs`)

The room server relays manifests; it reads only `roomId` and `hostSignature`.
-/

namespace Locast.Protocol

structure Dimensions where
  width : ℕ
  height : ℕ
  deriving DecidableEq, Repr

structure Codecs where
  video : Option String
  audio : Option String
  container : Option String
  deriving DecidableEq, Repr

/-- A download source.  The host is always the first entry in v1. -/
structure Source where
  peerId : String
  urlHint : Option String
  priority : ℤ
  chunkSize : ℕ
  totalChunks : ℕ
  chunkHashes : List String
  deriving DecidableEq, Repr

/-- A media entry inside a manifest's `media` array. -/
structure MediaEntry where
  id : String
  filename : String
  sha256 : String
  blake3 : String
  sizeBytes : ℕ
  mime : String
  durationMs : ℕ
  dimensions : Option Dimensions
  codecs : Option Codecs
  sources : List Source
  deriving DecidableEq, Repr

structure SubtitleEntry where
  id : String
  language : String
  label : String
  filename : String
  sha256 : String
  sizeBytes : ℕ
  codec : String
  sources : List Source
  deriving DecidableEq, Repr

structure HostSignature where
  publicKey : String
  algorithm : String
  value : String
  deriving DecidableEq, Repr

structure MediaManifest where
  manifestVersion : ℕ
  roomId : String
  media : List MediaEntry
  subtitles : List SubtitleEntry
  createdAt : ℤ
  hostSignature : Option HostSignature
  deriving DecidableEq, Repr

end Locast.Protocol

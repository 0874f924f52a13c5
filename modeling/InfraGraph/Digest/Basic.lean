import InfraGraph.Digest.Blake3
import InfraGraph.Text.Hex

/-!
# Content digests

The digest of some contents is their BLAKE3 hash, 32 bytes long.  It is written in lower case
hexadecimal, and shown with the name of the hash in front.
-/

namespace InfraGraph

/-- The digest that stands for some contents. -/
structure ContentDigest where
  /-- The bytes of the hash. -/
  bytes : List UInt8
  deriving DecidableEq, Repr

namespace ContentDigest

/-- The number of bytes of a digest. -/
def size : Nat := 32

/-- Why something is not a digest. -/
inductive Fault where
  /-- There are `length` bytes instead of 32. -/
  | length (length : Nat)
  /-- The text is not hexadecimal. -/
  | text (error : Text.HexError)
  deriving DecidableEq, Repr

/-- The wording of a fault. -/
def Fault.message : Fault → String
  | .length n => "invalid digest length: " ++ toString n
  | .text error => "invalid digest encoding: " ++ error.message

/-- The digest of some contents. -/
def of (contents : ByteArray) : ContentDigest :=
  ⟨Digest.Blake3.hash contents⟩

/-- The digest with given bytes. -/
def ofBytes (bytes : List UInt8) : Except Fault ContentDigest :=
  if bytes.length = size then .ok ⟨bytes⟩ else .error (.length bytes.length)

/-- The hexadecimal form of a digest. -/
def toHex (digest : ContentDigest) : String :=
  Text.hexOfBytes digest.bytes

/-- Reads the hexadecimal form of a digest. -/
def ofHex (text : String) : Except Fault ContentDigest :=
  match Text.bytesOfHex text with
  | .ok bytes => ofBytes bytes
  | .error e => .error (.text e)

/-- A digest as it is shown in messages. -/
def display (digest : ContentDigest) : String :=
  "b3:" ++ digest.toHex

end ContentDigest

end InfraGraph

import InfraGraph.Archive.Basic
import InfraGraph.Archive.Checksum

/-!
# Archives as zip files

A zip file has a record with the contents of every entry, then a directory that repeats the records
without contents, and an end that says where the directory lies.  Times and access rights are the
same for all entries, so equal archives give equal bytes.  The contents of files are in the deflate
format, in blocks that hold them as they are.

Sizes and places are below 4 GiB, the lengths of names and the number of entries below 65536.
-/

namespace InfraGraph.Archive.Zip

/-- A number in some bytes, the lowest one first. -/
def littleEndian : (width : Nat) → Nat → List UInt8
  | 0, _ => []
  | width + 1, n => UInt8.ofNat (n % 256) :: littleEndian width (n / 256)

/-- The number in some bytes, the lowest one first. -/
def numberOf : List UInt8 → Nat
  | [] => 0
  | byte :: rest => byte.toNat + 256 * numberOf rest

/-! ### Contents -/

/-- The most bytes of a block. -/
def blockLimit : Nat := 65535

/-- A block with bytes as they are, behind a byte that says whether it is the last one, their number
and its complement. -/
def block (last : Bool) (bytes : List UInt8) : List UInt8 :=
  (if last then 1 else 0) :: littleEndian 2 bytes.length ++
    littleEndian 2 (blockLimit - bytes.length) ++ bytes

/-- Some bytes as a list of blocks, `blocks` of them before the last one at most. -/
def storeBlocks : (blocks : Nat) → List UInt8 → List UInt8
  | 0, bytes => block true bytes
  | blocks + 1, bytes =>
    if bytes.length ≤ blockLimit then block true bytes
    else block false (bytes.take blockLimit) ++ storeBlocks blocks (bytes.drop blockLimit)

/-- The contents of a file in the deflate format. -/
def deflate (bytes : List UInt8) : List UInt8 :=
  storeBlocks (bytes.length / blockLimit) bytes

/-- Reads blocks that hold their bytes as they are, `fuel` of them at most. -/
def readBlocks : (fuel : Nat) → List UInt8 → Option (List UInt8)
  | 0, _ => none
  | fuel + 1, kind :: low :: high :: _ :: _ :: rest =>
    let length := numberOf [low, high]
    if rest.length < length then none
    else if kind = 1 then some (rest.take length)
    else if kind = 0 then (readBlocks fuel (rest.drop length)).map (rest.take length ++ ·)
    else none
  | _ + 1, _ => none

/-! ### Entries -/

/-- How an entry is kept: directories as they are, files in the deflate format. -/
inductive Method where
  | stored
  | deflated
  deriving DecidableEq, Repr

/-- The number of a method. -/
def Method.code : Method → Nat
  | stored => 0
  | deflated => 8

/-- The name of a method. -/
def Method.name : Method → String
  | stored => "Stored"
  | deflated => "Deflated"

/-- The method of an entry. -/
def methodOf (e : ArchiveEntry) : Method :=
  if e.contents.isSome then .deflated else .stored

/-- The type and the access rights of an entry: a plain file that its owner may change, or a
directory that its owner may change and everyone may enter. -/
def modeOf (e : ArchiveEntry) : Nat :=
  if e.contents.isSome then 0o100644 else 0o40755

/-- The year, month and day of all entries. -/
def date : Nat × Nat × Nat := (1980, 1, 1)

/-- The date of all entries as a number of sixteen bits.  The time of day is zero. -/
def dateCode : Nat := (date.1 - 1980) * 512 + date.2.1 * 32 + date.2.2

/-- Names that aren't plain ASCII are marked as such. -/
def nameFlag (name : String) : Nat :=
  if name.toList.all fun c => c.toNat < 128 then 0 else 2048

/-- The bytes of an entry's contents. -/
def plainBytes (e : ArchiveEntry) : List UInt8 :=
  match e.contents with
  | some contents => contents.toList
  | none => []

/-- The bytes that stand for an entry's contents. -/
def keptBytes (e : ArchiveEntry) : List UInt8 :=
  match e.contents with
  | some contents => deflate contents.toList
  | none => []

/-- What the record of an entry and its place in the directory have in common. -/
def commonFields (e : ArchiveEntry) : List UInt8 :=
  littleEndian 2 20 ++ littleEndian 2 (nameFlag e.name) ++ littleEndian 2 (methodOf e).code ++
    littleEndian 2 0 ++ littleEndian 2 dateCode ++
    littleEndian 4 (Checksum.ofBytes (plainBytes e)).toNat ++
    littleEndian 4 (keptBytes e).length ++ littleEndian 4 (plainBytes e).length ++
    littleEndian 2 e.name.toUTF8.size ++ littleEndian 2 0

/-- The number that a record starts with. -/
def recordMark : List UInt8 := [0x50, 0x4b, 0x03, 0x04]

/-- The record of an entry. -/
def record (e : ArchiveEntry) : List UInt8 :=
  recordMark ++ commonFields e ++ e.name.toUTF8.toList ++ keptBytes e

/-- The place of an entry in the directory, given where its record starts. -/
def directoryRecord (start : Nat) (e : ArchiveEntry) : List UInt8 :=
  [0x50, 0x4b, 0x01, 0x02] ++ littleEndian 2 (3 * 256 + 20) ++ commonFields e ++ littleEndian 2 0 ++
    littleEndian 2 0 ++ littleEndian 2 0 ++ littleEndian 4 (modeOf e * 65536) ++
    littleEndian 4 start ++ e.name.toUTF8.toList

/-- The directory of entries whose records follow one another. -/
def directory : (start : Nat) → List ArchiveEntry → List UInt8
  | _, [] => []
  | start, e :: rest => directoryRecord start e ++ directory (start + (record e).length) rest

/-- The end of a zip file. -/
def ending (count size start : Nat) : List UInt8 :=
  [0x50, 0x4b, 0x05, 0x06] ++ littleEndian 2 0 ++ littleEndian 2 0 ++ littleEndian 2 count ++
    littleEndian 2 count ++ littleEndian 4 size ++ littleEndian 4 start ++ littleEndian 2 0

/-- The zip file of some entries. -/
def ofEntries (entries : List ArchiveEntry) : List UInt8 :=
  let records := entries.flatMap record
  let directory := directory 0 entries
  records ++ directory ++ ending entries.length directory.length records.length

/-! ### Reading back -/

/-- The number in `width` bytes behind the first `start` ones. -/
def fieldAt (start width : Nat) (bytes : List UInt8) : Nat :=
  numberOf ((bytes.drop start).take width)

/-- Reads a record, with what follows it. -/
def readRecord? (bytes : List UInt8) : Option (ArchiveEntry × List UInt8) := do
  let kept := fieldAt 18 4 bytes
  let nameSize := fieldAt 26 2 bytes
  let behind := bytes.drop 30
  let name ← String.fromUTF8? ⟨(behind.take nameSize).toArray⟩
  let content := (behind.drop nameSize).take kept
  let after := (behind.drop nameSize).drop kept
  if fieldAt 8 2 bytes = Method.deflated.code then
    let plain ← readBlocks (content.length + 1) content
    return (⟨name, some ⟨plain.toArray⟩⟩, after)
  else return (⟨name, none⟩, after)

/-- Reads records as long as there are any. -/
def readRecords? : (fuel : Nat) → List UInt8 → Option (List ArchiveEntry)
  | 0, _ => none
  | fuel + 1, bytes =>
    if recordMark.isPrefixOf bytes then do
      let (entry, after) ← readRecord? bytes
      let entries ← readRecords? fuel after
      return entry :: entries
    else some []

/-- The entries that a zip file was made of, if it is one that is made here. -/
def entries? (bytes : List UInt8) : Option (List ArchiveEntry) :=
  (readRecords? (bytes.length + 1) bytes).filter fun entries => ofEntries entries = bytes

end InfraGraph.Archive.Zip

namespace InfraGraph

/-- The zip file of an archive. -/
def Archive.toZip (a : Archive) : ByteArray :=
  ⟨(Archive.Zip.ofEntries a.entries).toArray⟩

end InfraGraph

import Openlia.Lib.FixedFields
import Openlia.Workspace.Service

/-! # The archive of an export

Every file is written after a header of its own, then come the headers of the central directory
and the end record. A reader starts from the end record.
-/

namespace Openlia.Export

open Lib
open Workspace (Bytes utf8 ofUtf8)

/-! ## Writing -/

/-- A `Date` in local time. -/
structure LocalTime where
  year : Int
  month : Nat
  day : Nat
  hours : Nat
  minutes : Nat
  seconds : Nat

structure DosDateTime where
  date : Nat
  time : Nat

/-- `dateInput` is absent for an invalid date, too. -/
def toDosDateTime (now : LocalTime) (dateInput : Option LocalTime) : DosDateTime :=
  let d := dateInput.getD now
  let year := (max 1980 (min 2099 d.year) - 1980).toNat
  let seconds := d.seconds / 2
  ⟨year <<< 9 ||| d.month <<< 5 ||| d.day, d.hours <<< 11 ||| d.minutes <<< 5 ||| seconds⟩

structure ZipArchiveEntry where
  path : String
  data : Bytes
  mtime : Option LocalTime

/-- `entry.path.replaceAll("\\", "/").replace(/^\/+/, "")` -/
def normalizedPath (path : String) : String :=
  String.ofList ((path.toList.map fun c => if c = '\\' then '/' else c).dropWhile (· = '/'))

def nameBytes (entry : ZipArchiveEntry) : Bytes := utf8 (normalizedPath entry.path)

section Writer

variable (deflateRawSync : Bytes → Bytes) (crc32 : Bytes → UInt32) (now : LocalTime)

/-- The method and the bytes of a file: it is stored where compression does not save space. -/
def compressed (dataBytes : Bytes) : Nat × Bytes :=
  if dataBytes.length = 0 then (0, dataBytes)
  else
    let deflated := deflateRawSync dataBytes
    if deflated.length ≥ dataBytes.length then (0, dataBytes) else (8, deflated)

/-- The fields of a local header, with their widths. -/
def localHeader (entry : ZipArchiveEntry) : List (Nat × Nat) :=
  let dos := toDosDateTime now entry.mtime
  let body := compressed deflateRawSync entry.data
  [(4, 0x04034b50), (2, 20), (2, 0x0800), (2, body.1), (2, dos.time), (2, dos.date),
    (4, (crc32 entry.data).toNat), (4, body.2.length), (4, entry.data.length),
    (2, (nameBytes entry).length), (2, 0)]

/-- The fields of a header of the central directory. -/
def cdHeader (currentOffset : Nat) (entry : ZipArchiveEntry) : List (Nat × Nat) :=
  let dos := toDosDateTime now entry.mtime
  let body := compressed deflateRawSync entry.data
  [(4, 0x02014b50), (2, 20), (2, 20), (2, 0x0800), (2, body.1), (2, dos.time), (2, dos.date),
    (4, (crc32 entry.data).toNat), (4, body.2.length), (4, entry.data.length),
    (2, (nameBytes entry).length), (2, 0), (2, 0), (2, 0), (2, 0), (4, 0o100644 <<< 16),
    (4, currentOffset)]

/-- The fields of the end record. -/
def eocd (count cdSize cdOffset : Nat) : List (Nat × Nat) :=
  [(4, 0x06054b50), (2, 0), (2, 0), (2, count), (2, count), (4, cdSize), (4, cdOffset), (2, 0)]

/-- The variables of the loop over the entries. -/
structure ZipState where
  parts : List Bytes
  centralDirectoryHeaders : List Bytes
  currentOffset : Nat

def addEntry (s : ZipState) (entry : ZipArchiveEntry) : ZipState :=
  let header := writeFields (localHeader deflateRawSync crc32 now entry)
  let compressedBytes := (compressed deflateRawSync entry.data).2
  { parts := s.parts ++ [header, nameBytes entry, compressedBytes]
    centralDirectoryHeaders := s.centralDirectoryHeaders ++
      [writeFields (cdHeader deflateRawSync crc32 now s.currentOffset entry), nameBytes entry]
    currentOffset := s.currentOffset +
      (header.length + (nameBytes entry).length + compressedBytes.length) }

def createZipArchive (entries : List ZipArchiveEntry) : Bytes :=
  let s := entries.foldl (addEntry deflateRawSync crc32 now) ⟨[], [], 0⟩
  let cdOffset := s.currentOffset
  let cdSize := (s.centralDirectoryHeaders.map List.length).sum
  (s.parts ++ s.centralDirectoryHeaders ++
    [writeFields (eocd entries.length cdSize cdOffset)]).flatten

end Writer

/-! ## Reading -/

structure EndRecord where
  position : Nat
  count : Nat
  cdSize : Nat
  cdOffset : Nat

/-- The end record in front of a comment of some length. -/
def endRecordBefore (bytes : Bytes) (comment : Nat) : Option EndRecord :=
  if 22 + comment ≤ bytes.length then
    let position := bytes.length - (22 + comment)
    match readFields [4, 2, 2, 2, 2, 4, 4, 2] (bytes.drop position) with
    | some ([signature, disk, cdDisk, diskCount, count, cdSize, cdOffset, commentLength], _) =>
        if signature = 0x06054b50 ∧ disk = 0 ∧ cdDisk = 0 ∧ diskCount = count ∧
            commentLength = comment then
          some ⟨position, count, cdSize, cdOffset⟩
        else none
    | _ => none
  else none

/-- The end record, looked for from the end. -/
def endRecord (bytes : Bytes) : Option EndRecord :=
  (List.range (2 ^ 16)).findSome? (endRecordBefore bytes)

structure CentralRecord where
  name : Bytes
  method : Nat
  crc : Nat
  compressedSize : Nat
  size : Nat
  offset : Nat

def readCentral (bytes : Bytes) : Option (CentralRecord × Bytes) :=
  match readFields [4, 2, 2, 2, 2, 2, 2, 4, 4, 4, 2, 2, 2, 2, 2, 4, 4] bytes with
  | some ([signature, _, _, _, method, _, _, crc, compressedSize, size, nameLength, extraLength,
      commentLength, _, _, _, offset], rest) =>
      if signature = 0x02014b50 ∧ nameLength + extraLength + commentLength ≤ rest.length then
        some (⟨rest.take nameLength, method, crc, compressedSize, size, offset⟩,
          rest.drop (nameLength + extraLength + commentLength))
      else none
  | _ => none

/-- The records of the central directory, which they fill. -/
def readDirectory : Nat → Bytes → Option (List CentralRecord)
  | 0, bytes => if bytes = [] then some [] else none
  | count + 1, bytes => do
      let (record, rest) ← readCentral bytes
      let records ← readDirectory count rest
      some (record :: records)

section Reader

variable (inflateRaw : Bytes → Option Bytes) (crc32 : Bytes → UInt32)

def unpack (method : Nat) (raw : Bytes) : Option Bytes :=
  if method = 0 then some raw else if method = 8 then inflateRaw raw else none

/-- The name and the contents at the offset of a record, with a local header that agrees with it. -/
def readLocal (bytes : Bytes) (record : CentralRecord) : Option (String × Bytes) :=
  match readFields [4, 2, 2, 2, 2, 2, 4, 4, 4, 2, 2] (bytes.drop record.offset) with
  | some ([signature, _, _, method, _, _, crc, compressedSize, size, nameLength, extraLength],
      rest) =>
      if signature = 0x04034b50 ∧ method = record.method ∧ crc = record.crc ∧
          compressedSize = record.compressedSize ∧ size = record.size ∧
          rest.take nameLength = record.name ∧
          nameLength + extraLength + compressedSize ≤ rest.length then do
        let name ← ofUtf8 record.name
        let contents ← unpack inflateRaw method
          ((rest.drop (nameLength + extraLength)).take compressedSize)
        if contents.length = size ∧ (crc32 contents).toNat = crc then some (name, contents)
        else none
      else none
  | _ => none

/-- The names and contents of an archive: the directory ends where the end record starts. -/
def readZip (bytes : Bytes) : Option (List (String × Bytes)) := do
  let e ← endRecord bytes
  if e.cdOffset + e.cdSize = e.position then
    let records ← readDirectory e.count ((bytes.drop e.cdOffset).take e.cdSize)
    records.mapM (readLocal inflateRaw crc32 bytes)
  else none

end Reader

end Openlia.Export

import Openlia.Export.Zip
import Mathlib.Data.List.Forall2

/-! # What a reader finds in an archive

The layout of an archive is stated without the loop that writes it. Where every number fits its
field, the end record leads to the directory and every record to the file it was written for.
-/

namespace Openlia.Export

open Lib
open Workspace (Bytes utf8 ofUtf8 ofUtf8_utf8)

section Layout

variable (deflateRawSync : Bytes → Bytes) (crc32 : Bytes → UInt32) (now : LocalTime)

/-! ## The layout -/

/-- A file with its header. -/
def localPart (entry : ZipArchiveEntry) : Bytes :=
  writeFields (localHeader deflateRawSync crc32 now entry) ++
    (nameBytes entry ++ (compressed deflateRawSync entry.data).2)

/-- The headers of files that start at an offset. -/
def directoryFrom : Nat → List ZipArchiveEntry → Bytes
  | _, [] => []
  | offset, entry :: entries =>
      writeFields (cdHeader deflateRawSync crc32 now offset entry) ++ (nameBytes entry ++
        directoryFrom (offset + (localPart deflateRawSync crc32 now entry).length) entries)

def localSize (entry : ZipArchiveEntry) : Nat :=
  30 + (nameBytes entry).length + (compressed deflateRawSync entry.data).2.length

def centralSize (entry : ZipArchiveEntry) : Nat := 46 + (nameBytes entry).length

theorem length_localPart (entry : ZipArchiveEntry) :
    (localPart deflateRawSync crc32 now entry).length = localSize deflateRawSync entry := by
  unfold localPart localSize
  rw [List.length_append, List.length_append, length_writeFields, Nat.add_assoc]
  rfl

theorem length_localParts (entries : List ZipArchiveEntry) :
    (entries.flatMap (localPart deflateRawSync crc32 now)).length =
      (entries.map (localSize deflateRawSync)).sum := by
  rw [List.length_flatMap]
  simp only [length_localPart]

theorem length_directoryFrom (offset : Nat) (entries : List ZipArchiveEntry) :
    (directoryFrom deflateRawSync crc32 now offset entries).length =
      (entries.map centralSize).sum := by
  induction entries generalizing offset with
  | nil => rfl
  | cons entry entries ih =>
      rw [directoryFrom, List.length_append, List.length_append, length_writeFields, ih,
        List.map_cons, List.sum_cons, centralSize, Nat.add_assoc]
      rfl

/-- The loop lays one file after the other, and one header. -/
theorem foldl_addEntry (entries : List ZipArchiveEntry) (s : ZipState) :
    let s' := entries.foldl (addEntry deflateRawSync crc32 now) s
    s'.parts.flatten =
        s.parts.flatten ++ entries.flatMap (localPart deflateRawSync crc32 now) ∧
      s'.centralDirectoryHeaders.flatten = s.centralDirectoryHeaders.flatten ++
        directoryFrom deflateRawSync crc32 now s.currentOffset entries ∧
      s'.currentOffset =
        s.currentOffset + (entries.flatMap (localPart deflateRawSync crc32 now)).length := by
  induction entries generalizing s with
  | nil => simp [directoryFrom]
  | cons entry entries ih =>
      have hoffset : (addEntry deflateRawSync crc32 now s entry).currentOffset =
          s.currentOffset + (localPart deflateRawSync crc32 now entry).length := by
        rw [addEntry, localPart, List.length_append, List.length_append, Nat.add_assoc]
      obtain ⟨hparts, hheaders, hlast⟩ := ih (addEntry deflateRawSync crc32 now s entry)
      rw [hoffset] at hheaders hlast
      refine ⟨hparts.trans ?_, hheaders.trans ?_, hlast.trans ?_⟩
      · simp [addEntry, localPart]
      · simp [addEntry, directoryFrom]
      · rw [List.flatMap_cons, List.length_append, Nat.add_assoc]

theorem createZipArchive_eq (entries : List ZipArchiveEntry) :
    createZipArchive deflateRawSync crc32 now entries =
      entries.flatMap (localPart deflateRawSync crc32 now) ++
        (directoryFrom deflateRawSync crc32 now 0 entries ++
          writeFields (eocd entries.length (entries.map centralSize).sum
            (entries.map (localSize deflateRawSync)).sum)) := by
  obtain ⟨hparts, hheaders, hlast⟩ := foldl_addEntry deflateRawSync crc32 now entries ⟨[], [], 0⟩
  unfold createZipArchive
  dsimp only
  rw [← List.length_flatten, List.flatten_append, List.flatten_append, hparts, hheaders, hlast,
    List.flatten_nil, List.nil_append, List.nil_append, length_directoryFrom, length_localParts,
    Nat.zero_add, List.flatten_cons, List.flatten_nil, List.append_nil, List.append_assoc]

end Layout

/-! ## The end record -/

theorem readFields_end (count cdSize cdOffset : Nat) :
    readFields [4, 2, 2, 2, 2, 4, 4, 2] (writeFields (eocd count cdSize cdOffset)) =
      some ([0x06054b50, 0, 0, count % 2 ^ 16, count % 2 ^ 16, cdSize % 2 ^ 32, cdOffset % 2 ^ 32, 0],
        []) := by
  have h := readFields_writeFields (eocd count cdSize cdOffset) []
  rw [List.append_nil] at h
  exact h

theorem endRecord_append (front : Bytes) (count cdSize cdOffset : Nat) :
    endRecord (front ++ writeFields (eocd count cdSize cdOffset)) =
      some ⟨front.length, count % 2 ^ 16, cdSize % 2 ^ 32, cdOffset % 2 ^ 32⟩ := by
  have hlength : (writeFields (eocd count cdSize cdOffset)).length = 22 := by
    rw [length_writeFields]
    rfl
  have hfirst : endRecordBefore (front ++ writeFields (eocd count cdSize cdOffset)) 0 =
      some ⟨front.length, count % 2 ^ 16, cdSize % 2 ^ 32, cdOffset % 2 ^ 32⟩ := by
    unfold endRecordBefore
    rw [List.length_append, hlength, if_pos (by omega), Nat.add_zero, Nat.add_sub_cancel]
    dsimp only
    rw [List.drop_left, readFields_end]
    exact if_pos ⟨rfl, rfl, rfl, rfl, rfl⟩
  unfold endRecord
  have hrange : List.range (2 ^ 16) = 0 :: (List.range 65535).map Nat.succ :=
    List.range_succ_eq_map
  rw [hrange, List.findSome?_cons, hfirst]

/-! ## The directory -/

section Reading

variable {deflateRawSync : Bytes → Bytes} {inflateRaw : Bytes → Option Bytes}
  {crc32 : Bytes → UInt32} {now : LocalTime} {entry : ZipArchiveEntry} {entries : List ZipArchiveEntry}

theorem compressed_length_le (data : Bytes) :
    (compressed deflateRawSync data).2.length ≤ data.length := by
  unfold compressed
  split
  · exact le_rfl
  · dsimp only
    split
    · exact le_rfl
    · rename_i h
      exact (Nat.lt_of_not_le h).le

theorem compressed_method (data : Bytes) :
    (compressed deflateRawSync data).1 % 256 ^ 2 = (compressed deflateRawSync data).1 := by
  unfold compressed
  split
  · rfl
  · dsimp only
    split <;> rfl

theorem unpack_compressed (hinflate : ∀ data, inflateRaw (deflateRawSync data) = some data)
    (data : Bytes) :
    unpack inflateRaw (compressed deflateRawSync data).1 (compressed deflateRawSync data).2 =
      some data := by
  unfold compressed
  split
  · rfl
  · dsimp only
    split
    · rfl
    · exact hinflate data

theorem crc_fits (data : Bytes) : (crc32 data).toNat % 256 ^ 4 = (crc32 data).toNat :=
  Nat.mod_eq_of_lt (crc32 data).toNat_lt

variable (deflateRawSync crc32) in
/-- What the directory says of a file at an offset. -/
def recordAt (offset : Nat) (entry : ZipArchiveEntry) : CentralRecord :=
  ⟨nameBytes entry, (compressed deflateRawSync entry.data).1, (crc32 entry.data).toNat,
    (compressed deflateRawSync entry.data).2.length % 2 ^ 32, entry.data.length % 2 ^ 32,
    offset % 2 ^ 32⟩

variable (deflateRawSync crc32 now) in
def recordsFrom : Nat → List ZipArchiveEntry → List CentralRecord
  | _, [] => []
  | offset, entry :: entries =>
      recordAt deflateRawSync crc32 offset entry ::
        recordsFrom (offset + (localPart deflateRawSync crc32 now entry).length) entries

theorem readCentral_cdHeader (offset : Nat) (rest : Bytes)
    (hname : (nameBytes entry).length < 2 ^ 16) :
    readCentral (writeFields (cdHeader deflateRawSync crc32 now offset entry) ++
        (nameBytes entry ++ rest)) =
      some (recordAt deflateRawSync crc32 offset entry, rest) := by
  have hfields := readFields_writeFields (cdHeader deflateRawSync crc32 now offset entry)
    (nameBytes entry ++ rest)
  unfold readCentral
  rw [show [4, 2, 2, 2, 2, 2, 2, 4, 4, 4, 2, 2, 2, 2, 2, 4, 4] =
    (cdHeader deflateRawSync crc32 now offset entry).map (·.1) from rfl, hfields]
  unfold cdHeader
  dsimp only [List.map]
  rw [compressed_method, crc_fits, Nat.mod_eq_of_lt (b := 256 ^ 2) hname]
  refine (if_pos ⟨rfl, ?_⟩).trans (congrArg some (Prod.ext ?_ (List.drop_left' rfl)))
  · dsimp only
    rw [List.take_left' rfl]
    rfl
  · rw [List.length_append]
    exact Nat.le_add_right _ _

/-- As many headers are read as there are files, and nothing is left. -/
theorem readDirectory_directoryFrom (offset : Nat)
    (hnames : ∀ entry ∈ entries, (nameBytes entry).length < 2 ^ 16) :
    readDirectory entries.length (directoryFrom deflateRawSync crc32 now offset entries) =
      some (recordsFrom deflateRawSync crc32 now offset entries) := by
  induction entries generalizing offset with
  | nil => rfl
  | cons entry entries ih =>
      obtain ⟨hname, hnames⟩ := List.forall_mem_cons.mp hnames
      rw [List.length_cons, readDirectory, directoryFrom, readCentral_cdHeader offset _ hname]
      dsimp only [bind, Option.bind]
      rw [ih _ hnames]
      rfl

theorem readDirectory_length {count : Nat} {bytes : Bytes} {records : List CentralRecord}
    (h : readDirectory count bytes = some records) : records.length = count := by
  induction count generalizing bytes records with
  | zero =>
      rw [readDirectory] at h
      split at h
      · cases h
        rfl
      · cases h
  | succ count ih =>
      obtain ⟨⟨record, rest⟩, -, h⟩ := Option.bind_eq_some_iff.mp h
      obtain ⟨tail, htail, h⟩ := Option.bind_eq_some_iff.mp h
      cases h
      rw [List.length_cons, ih htail]

/-! ## The files -/

/-- The file at an offset, with anything before and after it. -/
theorem readLocal_localPart (hinflate : ∀ data, inflateRaw (deflateRawSync data) = some data)
    (front rest : Bytes) (hname : (nameBytes entry).length < 2 ^ 16)
    (hdata : entry.data.length < 2 ^ 32) (hoffset : front.length < 2 ^ 32) :
    readLocal inflateRaw crc32
        (front ++ (localPart deflateRawSync crc32 now entry ++ rest))
        (recordAt deflateRawSync crc32 front.length entry) =
      some (normalizedPath entry.path, entry.data) := by
  have hbody : (compressed deflateRawSync entry.data).2.length < 2 ^ 32 :=
    lt_of_le_of_lt (compressed_length_le entry.data) hdata
  have hfields := readFields_writeFields (localHeader deflateRawSync crc32 now entry)
    (nameBytes entry ++ ((compressed deflateRawSync entry.data).2 ++ rest))
  unfold readLocal recordAt localPart
  rw [Nat.mod_eq_of_lt hoffset, Nat.mod_eq_of_lt hbody, Nat.mod_eq_of_lt hdata, List.drop_left,
    List.append_assoc, List.append_assoc,
    show [4, 2, 2, 2, 2, 2, 4, 4, 4, 2, 2] =
      (localHeader deflateRawSync crc32 now entry).map (·.1) from rfl, hfields]
  unfold localHeader
  dsimp only [List.map]
  rw [compressed_method, crc_fits, Nat.mod_eq_of_lt (b := 256 ^ 2) hname,
    Nat.mod_eq_of_lt (show (compressed deflateRawSync entry.data).2.length < 256 ^ 4 from hbody),
    Nat.mod_eq_of_lt (show entry.data.length < 256 ^ 4 from hdata)]
  refine (if_pos ⟨rfl, rfl, rfl, rfl, rfl, List.take_left' rfl, ?_⟩).trans ?_
  · rw [show (0 : Nat) % 256 ^ 2 = 0 from rfl, Nat.add_zero, List.drop_left' rfl,
      List.take_left' rfl, unpack_compressed hinflate, nameBytes, ofUtf8_utf8]
    exact if_pos ⟨rfl, rfl⟩
  · rw [List.length_append, List.length_append]
    omega

/-- Every file of the directory is found. -/
theorem mapM_readLocal (hinflate : ∀ data, inflateRaw (deflateRawSync data) = some data)
    (hnames : ∀ entry ∈ entries, (nameBytes entry).length < 2 ^ 16)
    (hdata : ∀ entry ∈ entries, entry.data.length < 2 ^ 32) (front rest : Bytes)
    (hoffset : front.length + (entries.map (localSize deflateRawSync)).sum < 2 ^ 32) :
    (recordsFrom deflateRawSync crc32 now front.length entries).mapM (readLocal inflateRaw crc32
        (front ++ (entries.flatMap (localPart deflateRawSync crc32 now) ++ rest))) =
      some (entries.map fun entry => (normalizedPath entry.path, entry.data)) := by
  induction entries generalizing front with
  | nil => rfl
  | cons entry entries ih =>
      obtain ⟨hname, hnames⟩ := List.forall_mem_cons.mp hnames
      obtain ⟨hdata, htail⟩ := List.forall_mem_cons.mp hdata
      rw [List.map_cons, List.sum_cons] at hoffset
      have hnext := ih hnames htail (front ++ localPart deflateRawSync crc32 now entry) (by
        rw [List.length_append, length_localPart, Nat.add_assoc]
        exact hoffset)
      rw [List.length_append, List.append_assoc, ← List.append_assoc (localPart _ _ _ _)] at hnext
      rw [recordsFrom, List.mapM_cons, List.flatMap_cons, List.append_assoc,
        readLocal_localPart hinflate front _ hname hdata (by omega), ← List.append_assoc (localPart _ _ _ _), hnext]
      rfl

/-- The contents that are read have a size that fits its field. -/
theorem readLocal_length_lt {bytes contents : Bytes} {record : CentralRecord} {name : String}
    (h : readLocal inflateRaw crc32 bytes record = some (name, contents)) :
    contents.length < 2 ^ 32 := by
  unfold readLocal at h
  split at h
  · rename_i hfields
    have hlt := readFields_lt hfields
    split at h
    · obtain ⟨name', -, h⟩ := Option.bind_eq_some_iff.mp h
      obtain ⟨contents', -, h⟩ := Option.bind_eq_some_iff.mp h
      split at h
      · rename_i hsize
        cases h
        rw [hsize.1]
        exact hlt.get (i := 8) (by simp) (by simp)
      · cases h
    · cases h
  · cases h

theorem mapM_some {α β : Type} {f : α → Option β} {xs : List α} {ys : List β}
    (h : xs.mapM f = some ys) : ys.length = xs.length ∧ ∀ y ∈ ys, ∃ x, f x = some y := by
  induction xs generalizing ys with
  | nil =>
      cases h
      exact ⟨rfl, List.forall_mem_nil _⟩
  | cons x xs ih =>
      rw [List.mapM_cons] at h
      obtain ⟨y, hy, h⟩ := Option.bind_eq_some_iff.mp h
      obtain ⟨ys', hys, h⟩ := Option.bind_eq_some_iff.mp h
      cases h
      obtain ⟨hlength, hmem⟩ := ih hys
      exact ⟨congrArg (· + 1) hlength, List.forall_mem_cons.mpr ⟨⟨x, hy⟩, hmem⟩⟩

/-! ## The archive -/

variable (deflateRawSync) in
/-- Every number of the archive fits its field. -/
structure Fits (entries : List ZipArchiveEntry) : Prop where
  count : entries.length < 2 ^ 16
  contents : ∀ entry ∈ entries, entry.data.length < 2 ^ 32
  cdOffset : (entries.map (localSize deflateRawSync)).sum < 2 ^ 32
  cdSize : (entries.map centralSize).sum < 2 ^ 32

/-- What is read has the count of the end record, and its offset and size are not cut. -/
theorem readZip_createZipArchive {files : List (String × Bytes)}
    (h : readZip inflateRaw crc32 (createZipArchive deflateRawSync crc32 now entries) = some files) :
    files.length = entries.length % 2 ^ 16 ∧ (∀ file ∈ files, file.2.length < 2 ^ 32) ∧
      (entries.map (localSize deflateRawSync)).sum < 2 ^ 32 ∧
      (entries.map centralSize).sum < 2 ^ 32 := by
  unfold readZip at h
  rw [createZipArchive_eq, ← List.append_assoc, endRecord_append] at h
  dsimp only [bind, Option.bind] at h
  split at h
  · rename_i hend
    rw [List.length_append, length_localParts, length_directoryFrom] at hend
    have hoffset := Nat.mod_le (entries.map (localSize deflateRawSync)).sum (2 ^ 32)
    have hsize := Nat.mod_le (entries.map centralSize).sum (2 ^ 32)
    have hoffset' := Nat.mod_lt (entries.map (localSize deflateRawSync)).sum (Nat.two_pow_pos 32)
    have hsize' := Nat.mod_lt (entries.map centralSize).sum (Nat.two_pow_pos 32)
    obtain ⟨records, hrecords, h⟩ := Option.bind_eq_some_iff.mp h
    obtain ⟨hlength, hfiles⟩ := mapM_some h
    refine ⟨hlength.trans (readDirectory_length hrecords), fun file hfile => ?_, by omega, by omega⟩
    obtain ⟨record, hread⟩ := hfiles file hfile
    exact readLocal_length_lt hread
  · cases h

/-- An archive is read as the files it was made of, in order, if and only if every number fits. -/
theorem zip_decodable (hinflate : ∀ data, inflateRaw (deflateRawSync data) = some data)
    (hnames : ∀ entry ∈ entries, (nameBytes entry).length < 2 ^ 16) :
    readZip inflateRaw crc32 (createZipArchive deflateRawSync crc32 now entries) =
        some (entries.map fun entry => (normalizedPath entry.path, entry.data)) ↔
      Fits deflateRawSync entries := by
  constructor
  · intro h
    obtain ⟨hcount, hcontents, hoffset, hsize⟩ := readZip_createZipArchive h
    rw [List.length_map] at hcount
    refine ⟨hcount ▸ Nat.mod_lt _ (Nat.two_pow_pos 16), fun entry hentry => ?_, hoffset, hsize⟩
    exact hcontents _ (List.mem_map_of_mem hentry)
  · rintro ⟨hcount, hcontents, hoffset, hsize⟩
    have hfiles := @mapM_readLocal deflateRawSync inflateRaw crc32 now entries hinflate hnames hcontents []
      (directoryFrom deflateRawSync crc32 now 0 entries ++ writeFields (eocd entries.length
        (entries.map centralSize).sum (entries.map (localSize deflateRawSync)).sum))
      (by rwa [List.length_nil, Nat.zero_add])
    unfold readZip
    rw [createZipArchive_eq, ← List.append_assoc, endRecord_append, Nat.mod_eq_of_lt hcount,
      Nat.mod_eq_of_lt hoffset, Nat.mod_eq_of_lt hsize, List.append_assoc]
    dsimp only [bind, Option.bind]
    rw [List.length_append, length_localParts, length_directoryFrom, if_pos rfl,
      List.drop_left' (length_localParts deflateRawSync crc32 now entries),
      List.take_left' (length_directoryFrom deflateRawSync crc32 now 0 entries),
      readDirectory_directoryFrom 0 hnames]
    exact hfiles

end Reading

/-- Raw deflate of a short text: one block that is stored. -/
def storedBlock (data : Bytes) : Bytes :=
  writeFields [(1, 1), (2, data.length), (2, 65535 - data.length)] ++ data

def noon : LocalTime := ⟨2026, 1, 1, 12, 0, 0⟩

theorem zip_decodable_two_files :
    readZip (fun raw => some (raw.drop 5)) (fun data => if data = [97] then 0xe8b7be43 else 0)
        (createZipArchive storedBlock (fun data => if data = [97] then 0xe8b7be43 else 0) noon
          [⟨"\\notes/a.md", [97], none⟩, ⟨"notes\\b.md", [], some noon⟩]) =
        some ([⟨"\\notes/a.md", [97], none⟩, ⟨"notes\\b.md", [], some noon⟩].map
          fun entry : ZipArchiveEntry => (normalizedPath entry.path, entry.data)) ↔
      Fits storedBlock [⟨"\\notes/a.md", [97], none⟩, ⟨"notes\\b.md", [], some noon⟩] :=
  zip_decodable (fun _ => rfl) (by decide)

/-- Empty files of a workspace, more than the end record can count. -/
def manyFiles : List ZipArchiveEntry :=
  (List.range 65536).map fun i => ⟨"workspace/" ++ toString i, [], some noon⟩

theorem many_files_unreadable :
    readZip (fun raw => some (raw.drop 5)) (fun _ => 0)
        (createZipArchive storedBlock (fun _ => 0) noon manyFiles) ≠
      some (manyFiles.map fun entry => (normalizedPath entry.path, entry.data)) := by
  intro h
  have hcount := (readZip_createZipArchive h).1
  rw [List.length_map, manyFiles, List.length_map, List.length_range] at hcount
  exact absurd hcount (by decide)

end Openlia.Export

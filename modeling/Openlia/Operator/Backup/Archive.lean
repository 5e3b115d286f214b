import Mathlib.Data.List.Infix
import Openlia.Lib.Crash
import Openlia.Lib.Namei
import Openlia.Operator.Skills.CleanPath

/-! # Restore archives

An archive is inspected before it is extracted. Names and the targets of links are
checked as texts, against the name that the member has in the archive; the
extraction then makes directories, links and files through the file system.
-/

namespace Openlia.Backup

open Lib Crash
open Skills (FileName Path Bytes Leaf Dir filepathClean fileName pathOf)

inductive Typeflag where
  | dir
  | reg
  | symlink
  | other
  deriving DecidableEq

structure TarHeader where
  Name : String
  Typeflag : Typeflag
  Linkname : String
  Size : Int
  Contents : Bytes

structure BackupManifest where
  Schema : Int
  Kind : String
  Components : List String
  deriving DecidableEq

def maxArchiveMembers : Nat := 100000

def maxArchiveMemberSize : Int := 1073741824

def maxArchiveTotalSize : Int := 8589934592

def maxArchivePathDepth : Nat := 32

/-! ## Names -/

/-- `strings.TrimSuffix(name, "/")` -/
def trimSlash (name : String) : String :=
  if name.toList.getLast? = some '/' then String.ofList name.toList.dropLast else name

def controlCharacter (c : Char) : Bool := c = '\x00' || c = '\r' || c = '\n'

def archivePathDepth (name : List Char) : Nat :=
  let trimmed := ((name.dropWhile (· = '/')).reverse.dropWhile (· = '/')).reverse
  (trimmed.splitOn '/').length

def safeArchiveMember (name : String) : Bool :=
  let n := name.toList
  !(['/'].isPrefixOf n) && !n.any controlCharacter && n != ['.', '.'] &&
    !("../".toList.isPrefixOf n) && !decide ("/../".toList <:+: n) && filepathClean n == n &&
    decide (archivePathDepth n ≤ maxArchivePathDepth)

/-- The name of a root or of something below it. -/
def underRoot (name root : String) : Bool :=
  name = root || (root.toList ++ ['/']).isPrefixOf name.toList

def allowedArchiveMember (name : String) : Bool :=
  safeArchiveMember name && ["hermes", "meta", "locho"].any (underRoot name)

def allowedArchiveMemberForManifest (name : String) (manifest : BackupManifest) : Bool :=
  if manifest.Schema = 1 then allowedArchiveMember name
  else safeArchiveMember name && manifest.Components.any (underRoot name)

/-- `filepath.Dir` of a path that is not absolute. -/
def filepathDir (name : List Char) : List Char :=
  filepathClean (name.reverse.dropWhile (· ≠ '/')).reverse

def safeRelativeSymlink (name target : String) : Bool :=
  if target = "" ∨ target.toList.head? = some '/' ∨ target.toList.any controlCharacter then false
  else
    let joined := filepathClean (filepathDir name.toList ++ '/' :: target.toList)
    let root := ((name.toList.splitOn '/').head?).getD []
    joined = root || (root ++ ['/']).isPrefixOf joined

/-! ## Inspection -/

structure Inspection where
  manifest : BackupManifest
  manifestFound : Bool
  dataBeforeManifest : Bool
  members : Nat
  totalSize : Int

def unsafeMember : String := "restore archive contains an unsupported or unsafe member"

def exceedsLimits (members : Nat) (totalSize : Int) (header : TarHeader) : Bool :=
  members > maxArchiveMembers || header.Size > maxArchiveMemberSize ||
    totalSize > maxArchiveTotalSize - header.Size

def unsupportedType (header : TarHeader) : Bool :=
  (header.Typeflag != .dir && header.Typeflag != .reg && header.Typeflag != .symlink) ||
    header.Size < 0

section Inspect

variable (unmarshal : Bytes → Option BackupManifest)

def inspectManifest (s : Inspection) (header : TarHeader) : Except String Inspection :=
  if s.manifestFound then .error "restore archive contains duplicate manifest"
  else if header.Typeflag ≠ .reg ∨ header.Size < 0 ∨ header.Size > 64 * 1024 ∨
      header.Contents.length ≠ header.Size then
    .error "restore archive manifest is invalid"
  else match unmarshal header.Contents with
    | none => .error "restore archive manifest is invalid"
    | some manifest => .ok { s with manifest, manifestFound := true }

def inspectMember (s : Inspection) (header : TarHeader) : Except String Inspection :=
  let name := trimSlash header.Name
  if name = "" then .ok s
  else if name = "manifest.json" then inspectManifest unmarshal s header
  else if exceedsLimits (s.members + 1) s.totalSize header then
    .error "restore archive exceeds safety limits"
  else if (if s.manifestFound then allowedArchiveMemberForManifest name s.manifest
      else allowedArchiveMember name) = false then
    .error unsafeMember
  else if unsupportedType header then .error unsafeMember
  else if header.Typeflag = .symlink ∧ safeRelativeSymlink name header.Linkname = false then
    .error "restore archive contains an unsafe symlink"
  else .ok { s with
    members := s.members + 1, totalSize := s.totalSize + header.Size,
    dataBeforeManifest := s.dataBeforeManifest || !s.manifestFound }

def inspectRestoreArchive (archive : List TarHeader) : Except String BackupManifest :=
  match archive.foldlM (inspectMember unmarshal) ⟨⟨0, "", []⟩, false, false, 0, 0⟩ with
  | .error e => .error e
  | .ok s =>
      if s.manifestFound = false ∨ (s.manifest.Schema ≠ 1 ∧ s.manifest.Schema ≠ 2) then
        .error "restore archive manifest is unsupported"
      else if s.manifest.Schema ≥ 2 ∧ s.manifest.Kind ≠ "durable" ∧
          s.manifest.Kind ≠ "rollback" then
        .error "restore archive kind is unsupported"
      else if s.manifest.Schema ≥ 2 ∧ s.dataBeforeManifest then
        .error "restore archive manifest must precede data"
      else .ok s.manifest

end Inspect

/-! ## The file system -/

/-- The file system, and the real paths that were created or written. -/
structure Disk where
  tree : Dir
  written : List Path

/-- The steps of a link's text. -/
def linkSteps (target : String) : List (Step FileName) :=
  (target.toList.splitOn '/').filterMap fun s =>
    if s = [] ∨ s = ['.'] then none
    else if s = ['.', '.'] then some .up
    else (fileName s).map .name

def linkTarget : Leaf → Option (Target FileName)
  | .regular _ => none
  | .link target => some ⟨target.toList.head? = some '/', linkSteps target⟩

/-- The number of links that one path may pass. -/
def maxLinks : Nat := 40

/-- Where a name below the destination really is. -/
def realPath (t : Dir) (destination p : Path) : Except Errno Path :=
  t.walk linkTarget maxLinks destination (p.map .name)

abbrev DiskAction := Prog Disk String

/-- Put an entry at a real path. -/
def putAt (q : Path) (n : Node Leaf) : DiskAction Unit := do
  let d ← Prog.get
  match d.tree.put q n with
  | .error e => Prog.fail e.text
  | .ok t => Prog.write fun d => ⟨t, d.written ++ [q]⟩

/-- Create an entry that is not there, in the directory that the name leads to. -/
def createAt (destination p : Path) (n : Node Leaf) : DiskAction Path := do
  let d ← Prog.get
  match realPath d.tree destination p.dropLast, p.getLast? with
  | .error e, _ => Prog.fail e.text
  -- the destination itself
  | .ok _, none => Prog.fail "file exists"
  | .ok dir, some c =>
      match d.tree.node (dir ++ [c]) with
      | some _ => Prog.fail "file exists"
      | none => do
          putAt (dir ++ [c]) n
          pure (dir ++ [c])

/-- `os.MkdirAll` of the first components of a name; the destination is there. -/
def mkdirAll (destination p : Path) : Nat → DiskAction Unit
  | 0 => pure ()
  | k + 1 => do
      let d ← Prog.get
      match realPath d.tree destination (p.take (k + 1)) with
      | .ok q =>
          if d.tree.node q = some .dir then pure () else Prog.fail Errno.notDir.text
      | .error _ => do
          mkdirAll destination p k
          let _ ← createAt destination (p.take (k + 1)) .dir
          pure ()

/-- The mode is written where the name leads to. -/
def chmod (destination p : Path) : DiskAction Unit := do
  let d ← Prog.get
  match realPath d.tree destination p with
  | .error e => Prog.fail e.text
  | .ok q => Prog.write fun d => { d with written := d.written ++ [q] }

/-! ## Extraction -/

/-- The components of a safe name. -/
def memberPath (name : String) : Option Path := if name = "." then some [] else pathOf name

def extractMember (destination : Path) (name : String) (header : TarHeader) : DiskAction Unit :=
  match memberPath name with
  | none => Prog.fail "invalid argument"
  | some p =>
      match header.Typeflag with
      | .dir => do
          mkdirAll destination p p.length
          chmod destination p
      | .symlink => do
          let _ ← createAt destination p (.file (.link header.Linkname))
          pure ()
      | .reg => do
          mkdirAll destination p.dropLast p.dropLast.length
          let q ← createAt destination p (.file (.regular []))
          putAt q (.file (.regular header.Contents))
          chmod destination p
      | .other => pure ()

def refusedMember (name : String) (manifest : BackupManifest) (header : TarHeader) : Bool :=
  !allowedArchiveMemberForManifest name manifest || unsupportedType header ||
    (header.Typeflag == .symlink && !safeRelativeSymlink name header.Linkname)

def extractMembers (destination : Path) (manifest : BackupManifest) :
    Nat → Int → List TarHeader → DiskAction Unit
  | _, _, [] => pure ()
  | members, totalSize, header :: rest =>
      let name := trimSlash header.Name
      if name = "" ∨ name = "manifest.json" then
        extractMembers destination manifest members totalSize rest
      else if exceedsLimits (members + 1) totalSize header then
        Prog.fail "restore archive exceeds safety limits"
      else if refusedMember name manifest header then Prog.fail unsafeMember
      else do
        extractMember destination name header
        extractMembers destination manifest (members + 1) (totalSize + header.Size) rest

def extractRestoreArchive (archive : List TarHeader) (destination : Path)
    (manifest : BackupManifest) : DiskAction Unit :=
  extractMembers destination manifest 0 0 archive

end Openlia.Backup

import Mathlib.Algebra.Group.Nat.Defs
import Mathlib.Algebra.GroupWithZero.Nat
import Openlia.Lib.Results
import Openlia.Operator.Backup.Archive

/-! # Extracting an intake archive

The entries are extracted in the order of the archive, each into its final place. A name
is checked as a text and against the links that are there when its turn comes.
-/

namespace Openlia.Intake

open Lib Crash
open Skills (FileName Path Bytes Leaf Dir filepathClean pathOf)
open Backup (Disk DiskAction linkTarget maxLinks realPath putAt mkdirAll)

inductive Typeflag where
  | dir
  | reg
  | symlink
  | link
  | other
  deriving DecidableEq

structure TarEntry where
  Name : String
  Typeflag : Typeflag
  Size : Nat
  /-- What the reader gives of the entry, read by read. -/
  chunks : List Bytes
  /-- The error of the reader after them. -/
  broken : Option String

/-- What the readers give of an archive file. -/
structure TarStream where
  /-- The archive cannot be opened. -/
  unreadable : Option String
  entries : List TarEntry
  /-- The error of the reader after the last entry; none at the end of the file. -/
  ending : Option String

def maxArchiveDecompressedBytes : Nat := 2 * 1024 * 1024 * 1024

def maxArchiveFileCount : Nat := 50000

def maxArchiveSingleFileBytes : Nat := 250 * 1024 * 1024

/-! ## Names -/

def trimPrefix (start s : List Char) : List Char :=
  if start.isPrefixOf s then s.drop start.length else s

def protectedPaths : List String :=
  [".git", ".openlia", "sources/document-passwords.toml", "AGENTS.md", "SOUL.md",
    "workspace.yaml", "assistant-policy.yaml", "permissions.yaml"]

def isProtectedWorkspacePath (relPath : List Char) : Bool :=
  let clean := trimPrefix ['/'] (trimPrefix "./".toList (filepathClean relPath))
  clean = [] || clean = ['.'] || protectedPaths.any fun p =>
    clean = p.toList || (p.toList ++ ['/']).isPrefixOf clean

/-- `CheckNoSymlinksInPath` from `pre` on: it ends at a component that is not there. -/
def checkNoSymlinksFrom (t : Dir) (pre : Path) : Path → Except String Unit
  | [] => .ok ()
  | c :: rest =>
      match t.lstat (pre ++ [c]) with
      | .error .notExist => .ok ()
      | .error e => .error e.text
      | .ok (.file (.link _)) | .ok .symlink => .error "symlink encountered in path"
      | .ok _ => checkNoSymlinksFrom t (pre ++ [c]) rest

/-- The components of a name that is clean and stays below the destination. -/
def cleanRel (name : String) : List Char := trimPrefix "./".toList (filepathClean name.toList)

def validateSafeWorkspacePath (t : Dir) (destination : Path) (relPath : String) :
    Except String Unit :=
  if relPath = "" then .error "empty path"
  else if relPath.toList.head? = some '/' ∨ relPath.toList.head? = some '\\' then
    .error ("absolute path is not allowed: " ++ relPath)
  else if cleanRel relPath = ['.', '.'] ∨ "../".toList.isPrefixOf (cleanRel relPath) then
    .error ("path escapes workspace: " ++ relPath)
  else if isProtectedWorkspacePath (cleanRel relPath) then
    .error ("path is protected and cannot be modified by migrations: " ++
      String.ofList (cleanRel relPath))
  -- Below the root of the file system the prefix of the root is never found.
  else if destination = [] then .error ("path escapes workspace root /: " ++ relPath)
  else
    match pathOf (String.ofList (cleanRel relPath)) with
    | none => .error "invalid argument"
    | some p => checkNoSymlinksFrom t destination p

/-! ## Writing a file -/

/-- Where `open` with `O_CREATE` puts a file: a link at the end is followed, even to nothing. -/
def openPath (t : Dir) : Nat → Path → List (Step FileName) → Except Errno Path
  | 0, _, _ => .error .link
  | links + 1, pos, steps =>
      match steps.getLast? with
      | some (.name c) =>
          match t.walk linkTarget maxLinks pos steps.dropLast with
          | .error e => .error e
          | .ok dir =>
              match t.node (dir ++ [c]) with
              | some (.file leaf) =>
                  match linkTarget leaf with
                  | some dest => openPath t links (if dest.absolute then [] else dir) dest.steps
                  | none => .ok (dir ++ [c])
              | _ => .ok (dir ++ [c])
      | _ => t.walk linkTarget maxLinks pos steps

/-- `os.OpenFile` with `O_CREATE` and `O_TRUNC`. -/
def openTruncated (destination p : Path) : DiskAction Path := do
  let d ← Prog.get
  match openPath d.tree (maxLinks + 1) destination (p.map .name) with
  | .error e => Prog.fail e.text
  | .ok q => do
      putAt q (.file (.regular []))
      pure q

/-- What a limited reader gives. -/
def limited : Nat → List Bytes → List Bytes
  | _, [] => []
  | 0, _ => []
  | n + 1, chunk :: rest =>
      chunk.take (n + 1) :: limited (n + 1 - chunk.length) rest

/-- `io.Copy`, each read followed by a write. -/
def copy (q : Path) (written : Bytes) : List Bytes → DiskAction Bytes
  | [] => pure written
  | chunk :: rest => do
      putAt q (.file (.regular (written ++ chunk)))
      copy q (written ++ chunk) rest

/-- `os.Remove`, which takes a link away and not what it leads to. -/
def removeAt (destination p : Path) : DiskAction Unit := do
  let d ← Prog.get
  match realPath d.tree destination p.dropLast, p.getLast? with
  | .ok dir, some c =>
      match d.tree.remove (dir ++ [c]) with
      | .ok t => Prog.write fun d => ⟨t, d.written ++ [dir ++ [c]]⟩
      | .error e => Prog.fail e.text
  | .ok _, none => Prog.fail "directory not empty"
  | .error e, _ => Prog.fail e.text

/-! ## Extraction -/

def singleFileError (name : String) : String :=
  "tarball entry " ++ name ++ " exceeds maximum file size (262144000 bytes)"

/-- A regular file; the bytes of the whole archive are counted. -/
def extractRegular (destination p : Path) (total : Nat) (entry : TarEntry) : DiskAction Nat :=
  if entry.Size > maxArchiveSingleFileBytes then Prog.fail (singleFileError entry.Name)
  else do
    mkdirAll destination p.dropLast p.dropLast.length
    let q ← openTruncated destination p
    let contents ← copy q [] (limited (maxArchiveSingleFileBytes + 1) entry.chunks)
    if contents.length > maxArchiveSingleFileBytes then do
      Prog.ignore (removeAt destination p)
      Prog.fail ("tarball entry " ++ entry.Name ++
        " exceeded maximum file size during extraction")
    else do
      Prog.refuse entry.broken
      if total + contents.length > maxArchiveDecompressedBytes then do
        Prog.ignore (removeAt destination p)
        Prog.fail "tarball exceeded maximum decompressed archive size (2147483648 bytes)"
      else pure (total + contents.length)

def extractEntry (destination : Path) (fileCount total : Nat) (entry : TarEntry) :
    DiskAction Nat :=
  if fileCount + 1 > maxArchiveFileCount then
    Prog.fail "archive exceeds maximum file count limit (50000 files)"
  else if entry.Typeflag = .symlink ∨ entry.Typeflag = .link then
    Prog.fail ("tarball contains disallowed link entry: " ++ entry.Name)
  else do
    let d ← Prog.get
    match validateSafeWorkspacePath d.tree destination entry.Name,
        pathOf (String.ofList (filepathClean entry.Name.toList)) with
    | .error e, _ => Prog.fail ("illegal path traversal in tarball: " ++ entry.Name ++ ": " ++ e)
    | .ok _, none => Prog.fail "invalid argument"
    | .ok _, some p =>
        match entry.Typeflag with
        | .dir => do
            mkdirAll destination p p.length
            pure total
        | .reg => extractRegular destination p total entry
        | _ => pure total

def extractEntries (destination : Path) (ending : Option String) :
    Nat → Nat → List TarEntry → DiskAction Unit
  | _, _, [] => Prog.refuse ending
  | fileCount, total, entry :: rest => do
      let total ← extractEntry destination fileCount total entry
      extractEntries destination ending (fileCount + 1) total rest

def extractTarball (stream : TarStream) (destination : Path) : DiskAction Unit := do
  Prog.refuse stream.unreadable
  extractEntries destination stream.ending 0 0 stream.entries

end Openlia.Intake

import Mathlib.Data.Char
import Mathlib.Data.List.Lex
import Mathlib.Data.List.Nodup
import Mathlib.Data.List.Sort
import Mathlib.Data.Prod.Lex
import Openlia.Lib.Budget
import Openlia.Lib.Results

/-! # Pruning the backup directory

Archives, rollbacks and the other files of the backup directory are told apart by their
names. Archives that cannot be verified go, the others go by count and then by bytes; of
every other kind the newest stay.
-/

namespace Openlia.Backup.Prune

open Lib

abbrev Name := List Char

variable {Data : Type}

/-! ## The directory -/

/-- An entry of the backup directory: what `Lstat` says and what reading it gives. -/
structure File (Data : Type) where
  regular : Bool
  modTime : Int
  size : Nat
  data : Option Data

/-- The entries of the backup directory, told apart by their names. -/
structure Directory (Data : Type) where
  entries : List (Name × File Data)
  distinct : (entries.map Prod.fst).Nodup

namespace Directory

def find? (dir : Directory Data) (name : Name) : Option (File Data) :=
  (dir.entries.find? (·.1 = name)).map Prod.snd

/-- The directory when names have gone. -/
def without (dir : Directory Data) (names : List Name) : Directory Data :=
  ⟨dir.entries.filter (·.1 ∉ names), dir.distinct.sublist (List.filter_sublist.map _)⟩

theorem without_nil (dir : Directory Data) : dir.without [] = dir := by
  cases dir
  simp [without]

theorem without_without (dir : Directory Data) (xs ys : List Name) :
    (dir.without xs).without ys = dir.without (xs ++ ys) := by
  simp [without, List.filter_filter, Bool.and_comm]

theorem mem_without {dir : Directory Data} {names : List Name} {entry : Name × File Data} :
    entry ∈ (dir.without names).entries ↔ entry ∈ dir.entries ∧ entry.1 ∉ names := by
  simp [without]

theorem find?_without {dir : Directory Data} {names : List Name} {name : Name}
    (h : name ∉ names) : (dir.without names).find? name = dir.find? name := by
  unfold find? without
  rw [List.find?_filter]
  congr 2
  funext entry
  by_cases hentry : entry.1 = name
  · simp [hentry, h]
  · simp [hentry]

/-- Entries of one name are one entry. -/
theorem eq_of_name {dir : Directory Data} {a b : Name × File Data} (ha : a ∈ dir.entries)
    (hb : b ∈ dir.entries) (h : a.1 = b.1) : a = b :=
  List.inj_on_of_nodup_map dir.distinct ha hb h

end Directory

/-! ## The kinds of entries -/

inductive Kind where
  | archive
  | rollback
  | compose
  | auxiliary
  | preRestore
  | other
  deriving DecidableEq

def hasPrefix (name : Name) (start : String) : Bool := start.toList.isPrefixOf name

def hasSuffix (name : Name) (ending : String) : Bool := ending.toList.isSuffixOf name

def kindOf (name : Name) (regular : Bool) : Kind :=
  if regular && hasPrefix name "openlia-" && hasSuffix name ".tar.gz.age" then .archive
  else if regular && hasPrefix name "rollback-" && hasSuffix name ".tar.gz" then .rollback
  else if regular && hasPrefix name "compose-generated-" then .compose
  else if regular && (hasPrefix name "auth-secret-" || hasPrefix name "locho-") then .auxiliary
  else if hasPrefix name "pre-restore-" then .preRestore
  else .other

/-- The name of the metadata beside an archive. -/
def metadataOf (name : Name) : Name := name ++ ".json".toList

/-- `strings.TrimSuffix(name, ".json")`. -/
def trimJson (name : Name) : Name :=
  if hasSuffix name ".json" then name.take (name.length - 5) else name

structure backupMetadata where
  kind : List Char
  archive : List Char
  sha256 : List Char
  encrypted : Bool
  createdAt : List Char

/-- What the code uses of the standard library, and the entries the host refuses to
remove. -/
structure Host (Data : Type) where
  unmarshal : Data → Option backupMetadata
  parseTime : List Char → Option Int
  fileSHA256 : Data → List Char
  refuses : Name → Bool

structure FileItem where
  name : Name
  createdAt : Int
  size : Nat
  corrupt : Bool
  deriving DecidableEq

/-- `json.Unmarshal` on the metadata beside an archive. -/
def readMetadata (host : Host Data) (dir : Directory Data) (name : Name) :
    Option backupMetadata := do
  host.unmarshal (← (← dir.find? (metadataOf name)).data)

def durableBackupCreatedAt (host : Host Data) (dir : Directory Data) (name : Name)
    (fallback : Int) : Int :=
  ((readMetadata host dir name).bind fun metadata => host.parseTime metadata.createdAt).getD
    fallback

def backupPairSize (dir : Directory Data) (name : Name) (archiveSize : Nat) : Nat :=
  archiveSize + ((dir.find? (metadataOf name)).map File.size).getD 0

def fileItem (host : Host Data) (dir : Directory Data) (entry : Name × File Data) : FileItem :=
  match kindOf entry.1 entry.2.regular with
  | .archive =>
      { name := entry.1
        createdAt := durableBackupCreatedAt host dir entry.1 entry.2.modTime
        size := backupPairSize dir entry.1 entry.2.size
        corrupt := false }
  | _ => { name := entry.1, createdAt := entry.2.modTime, size := 0, corrupt := false }

/-- Newer items come first, of equally old ones the one with the greater name. -/
def newer (a b : FileItem) : Bool :=
  if a.createdAt = b.createdAt then b.name < a.name else b.createdAt < a.createdAt

def notOlder (a b : FileItem) : Bool := !newer b a

/-- Names differ, so that every way of sorting gives the same list. -/
def sortByNewest (items : List FileItem) : List FileItem :=
  items.insertionSort fun a b => notOlder a b = true

/-- The entries of one kind, newest first. -/
def itemsOf (host : Host Data) (dir : Directory Data) (kind : Kind) : List FileItem :=
  sortByNewest ((dir.entries.filter fun entry => kindOf entry.1 entry.2.regular = kind).map
    (fileItem host dir))

def archives (host : Host Data) (dir : Directory Data) := itemsOf host dir .archive
def rollbacks (host : Host Data) (dir : Directory Data) := itemsOf host dir .rollback
def composeFiles (host : Host Data) (dir : Directory Data) := itemsOf host dir .compose
def auxiliary (host : Host Data) (dir : Directory Data) := itemsOf host dir .auxiliary
def preRestores (host : Host Data) (dir : Directory Data) := itemsOf host dir .preRestore

def isArchive (dir : Directory Data) (name : Name) : Bool :=
  dir.entries.any fun entry => entry.1 = name && kindOf entry.1 entry.2.regular = .archive

def isOrphan (dir : Directory Data) (entry : Name × File Data) : Bool :=
  entry.2.regular && hasPrefix entry.1 "openlia-" && hasSuffix entry.1 ".tar.gz.age.json" &&
    !isArchive dir (trimJson entry.1)

def orphanMetadata (dir : Directory Data) : List FileItem :=
  sortByNewest ((dir.entries.filter (isOrphan dir)).map fun entry =>
    { name := entry.1, createdAt := entry.2.modTime, size := entry.2.size, corrupt := false })

/-! ## Verification -/

def verifyBackupDigest (host : Host Data) (dir : Directory Data) (name : Name) : Bool :=
  match dir.find? (metadataOf name) with
  | none => true
  | some file =>
      match file.data.bind host.unmarshal with
      | none => false
      | some metadata =>
          metadata.sha256 ≠ [] &&
            ((dir.find? name).bind File.data).map host.fileSHA256 = some metadata.sha256

def verifyDurableBackupArchive (host : Host Data) (dir : Directory Data) (name : Name) : Bool :=
  match dir.find? name with
  | none => false
  | some file =>
      file.regular &&
        match readMetadata host dir name with
        | none => false
        | some metadata =>
            metadata.kind = "durable".toList && metadata.encrypted && metadata.archive = name &&
              metadata.sha256 ≠ [] && verifyBackupDigest host dir name

/-- The loop that looks for the newest verified archive: those before it are marked. -/
def markCorrupt (verify : Name → Bool) : List FileItem → List FileItem × Option Nat
  | [] => ([], none)
  | item :: items =>
      if verify item.name then (item :: items, some 0)
      else
        let (marked, found) := markCorrupt verify items
        ({ item with corrupt := true } :: marked, found.map (· + 1))

/-! ## Pruning -/

inductive Error where
  | remove (name : Name)
  | unverified
  deriving DecidableEq

structure State (Data : Type) where
  directory : Directory Data
  removed : List Name

abbrev PruneM (Data : Type) := ExceptT Error (StateM (State Data))

/-- `os.Remove`, where a missing file is no error. -/
def remove (host : Host Data) (name : Name) : PruneM Data Unit := do
  let s ← get
  if (s.directory.find? name).isSome && host.refuses name then
    throw (.remove name)
  set { s with directory := s.directory.without [name] }

def removeBackupItem (host : Host Data) (removeMetadata : Bool) (name : Name) :
    PruneM Data Unit := do
  remove host name
  if removeMetadata then
    remove host (metadataOf name)

/-- A loop that removes items and lists them. -/
def removeItems (host : Host Data) (removeMetadata : Bool) : List FileItem → PruneM Data Unit
  | [] => pure ()
  | item :: items => do
      removeBackupItem host removeMetadata item.name
      modify fun s => { s with removed := s.removed ++ [item.name] }
      removeItems host removeMetadata items

/-- The archives to remove by count: positions are those in the list of all archives. -/
def beyondCount (keepCount : Nat) (protectedIndex : Option Nat) (archives : List FileItem) :
    List FileItem :=
  (archives.zipIdx.filter fun (item, index) =>
    !(some index = protectedIndex || (!item.corrupt && index < keepCount))).map Prod.fst

def retainedArchives (keepCount : Nat) (protectedIndex : Option Nat)
    (archives : List FileItem) : List FileItem :=
  (archives.zipIdx.filter fun (item, index) =>
    !item.corrupt && (index < keepCount || some index = protectedIndex)).map Prod.fst

/-- The loop over the retained archives, oldest first. -/
def removeOverBudget (host : Host Data) (protectedName : Option Name) (maxBytes : Nat) :
    List FileItem → Nat → PruneM Data Unit
  | [], _ => pure ()
  | item :: items, archiveBytes =>
      if archiveBytes ≤ maxBytes then pure ()
      else if some item.name = protectedName then
        removeOverBudget host protectedName maxBytes items archiveBytes
      else do
        removeBackupItem host true item.name
        modify fun s => { s with removed := s.removed ++ [item.name] }
        removeOverBudget host protectedName maxBytes items (archiveBytes - item.size)

def defaultBackupRetention : Nat := 5

def defaultBackupMaxBytes : Nat := 10 <<< 30

def retention (keepCount : Int) : Nat :=
  if keepCount ≤ 0 then defaultBackupRetention else keepCount.toNat

def budgetOf (backupMaxBytes : Int) : Nat :=
  if backupMaxBytes ≤ 0 then defaultBackupMaxBytes else backupMaxBytes.toNat

/-- The source reads the directory once, and verifies when the orphans have gone. -/
def prune (host : Host Data) (maxBytes keepCount : Nat) (dir : Directory Data) :
    PruneM Data Unit := do
  removeItems host false (orphanMetadata dir)
  let s ← get
  let (marked, protectedIndex) :=
    markCorrupt (verifyDurableBackupArchive host s.directory) (archives host dir)
  if marked ≠ [] ∧ protectedIndex = none then
    throw .unverified
  removeItems host true (beyondCount keepCount protectedIndex marked)
  let retained := retainedArchives keepCount protectedIndex marked
  let protectedName := (protectedIndex.bind fun index => marked[index]?).map FileItem.name
  removeOverBudget host protectedName maxBytes retained.reverse (load FileItem.size retained)
  removeItems host true ((rollbacks host dir).drop keepCount)
  removeItems host false ((composeFiles host dir).drop keepCount)
  removeItems host false ((auxiliary host dir).drop keepCount)
  removeItems host false ((preRestores host dir).drop keepCount)

/-- The result of pruning with the directory it leaves. -/
def pruneBackups (host : Host Data) (backupMaxBytes keepCount : Int) (dir : Directory Data) :
    Except Error Unit × State Data :=
  ((prune host (budgetOf backupMaxBytes) (retention keepCount) dir).run).run ⟨dir, []⟩

end Openlia.Backup.Prune

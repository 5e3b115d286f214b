import Openlia.Lib.Crash
import Openlia.Lib.Runs
import Openlia.Operator.Skills.Trees

/-! # Activating a templates catalog

The new catalog is staged beside the cache. A journal names the stage and the
place of the old catalog before either is renamed, and recovery goes on from
whatever the directories and the journal say.
-/

namespace Openlia.Skills

open Lib Crash

structure CatalogActivation where
  Schema : Nat
  Stage : String
  Previous : String
  NewHash : String
  OldHash : String
  deriving DecidableEq

structure CatalogUIRefresh where
  Schema : Nat
  Required : Bool
  ContentSHA256 : String
  Previous : String
  deriving DecidableEq

/-- What `Lstat` finds in the metadata directory. -/
inductive MetaEntry where
  | tree (t : Dir)
  | other

/-- The metadata directory. A journal that is no JSON of one is `some none`. -/
structure MetaRoot where
  dirs : String → Option MetaEntry
  activation : Option (Option CatalogActivation)
  uiRefresh : Option CatalogUIRefresh

abbrev CatalogAction := Prog MetaRoot String

def templatesCache : String := "templates-cache"

namespace MetaRoot

def set (m : MetaRoot) (name : String) (e : Option MetaEntry) : MetaRoot :=
  { m with dirs := Function.update m.dirs name e }

def move (m : MetaRoot) (source destination : String) : MetaRoot :=
  (m.set destination (m.dirs source)).set source none

def journal (m : MetaRoot) (j : Option CatalogActivation) : MetaRoot :=
  { m with activation := j.map some }

def refresh (m : MetaRoot) (r : CatalogUIRefresh) : MetaRoot := { m with uiRefresh := some r }

end MetaRoot

/-! ## Calls -/

/-- What a recursive removal leaves on its way, and the error that ends it. -/
structure Removal where
  partials : List Dir
  error : Option String

def removePartly (name : String) : List Dir → CatalogAction Unit
  | [] => pure ()
  | t :: rest => do
      Prog.write (·.set name (some (.tree t)))
      removePartly name rest

def removeAll (name : String) (removal : Removal) : CatalogAction Unit := do
  removePartly name removal.partials
  Prog.refuse removal.error
  Prog.write (·.set name none)

def rename (fault : Option String) (source destination : String) : CatalogAction Unit := do
  Prog.refuse fault
  let m ← Prog.get
  match m.dirs source with
  | none => Prog.fail "no such file or directory"
  | some _ => Prog.write (·.move source destination)

/-- The errors of the write and of the sync of the directory. -/
structure StateCalls where
  write : Option String
  sync : Option String

def writeCatalogState (calls : StateCalls) (write : MetaRoot → MetaRoot) : CatalogAction Unit := do
  Prog.refuse calls.write
  Prog.write write
  Prog.refuse calls.sync

/-- The hash of a directory, if there is one. -/
def catalogDirectoryHash (sha256 : Bytes → String) (fault : Option String) :
    Option MetaEntry → Except String (Option String)
  | none =>
      match fault with
      | some e => .error e
      | none => .ok none
  | some .other => .error "catalog activation path must be a real directory"
  | some (.tree t) =>
      match fault with
      | some e => .error e
      | none => (templatesTreeHash sha256 t).map some

/-- The last element of a path. -/
def filepathBase (path : String) : String :=
  if path = "" then "."
  else match path.toList.reverse.dropWhile (· = '/') with
    | [] => "/"
    | s => String.ofList (s.takeWhile (· ≠ '/')).reverse

def hasPrefix (s start : String) : Bool := start.toList.isPrefixOf s.toList

/-! ## Recovery -/

structure RecoveryCalls where
  readJournal : Option String
  hashCache : Option String
  hashStage : Option String
  hashPrevious : Option String
  moveBack : Option String
  moveIn : Option String
  removal : Removal
  refresh : StateCalls
  removeJournal : Option String
  syncJournal : Option String

def clearCatalogActivation (calls : RecoveryCalls) : CatalogAction Unit := do
  Prog.refuse calls.removeJournal
  Prog.write (·.journal none)
  Prog.refuse calls.syncJournal

def finishCatalogActivation (calls : RecoveryCalls) (journal : CatalogActivation) :
    CatalogAction Unit := do
  writeCatalogState calls.refresh
    (·.refresh ⟨1, journal.Previous ≠ "", journal.NewHash, journal.Previous⟩)
  clearCatalogActivation calls

/-- The stage is removed, and the journal after it. -/
def dropStage (calls : RecoveryCalls) (journal : CatalogActivation) (stageHash : Option String) :
    CatalogAction Unit := do
  let removeStage : CatalogAction Unit :=
    if stageHash.isSome then removeAll journal.Stage calls.removal else pure ()
  removeStage
  clearCatalogActivation calls

/-- Recovery once the journal is read. -/
def resumeActivation (sha256 : Bytes → String) (calls : RecoveryCalls)
    (journal : CatalogActivation) : CatalogAction Unit := do
  let m ← Prog.get
  let cacheHash ← Prog.lift (catalogDirectoryHash sha256 calls.hashCache (m.dirs templatesCache))
  let stageHash ← Prog.lift (catalogDirectoryHash sha256 calls.hashStage (m.dirs journal.Stage))
  if stageHash.any (· ≠ journal.NewHash) then
    Prog.fail "catalog activation stage changed; leaving all directories intact"
  else match cacheHash with
    | some cacheHash =>
        if cacheHash = journal.NewHash ∧ stageHash = none then
          finishCatalogActivation calls journal
        else if cacheHash ≠ journal.OldHash ∨ journal.Previous = "" then
          Prog.fail "ambiguous catalog activation; leaving all directories intact"
        else match catalogDirectoryHash sha256 calls.hashPrevious (m.dirs journal.Previous) with
          | .ok none => dropStage calls journal stageHash
          | _ => Prog.fail "ambiguous previous catalog directory; leaving all directories intact"
    | none =>
        if journal.Previous ≠ "" then do
          let hash ← Prog.lift
            (catalogDirectoryHash sha256 calls.hashPrevious (m.dirs journal.Previous))
          if hash ≠ some journal.OldHash then
            Prog.fail
              "previous catalog is missing or changed; leaving activation journal intact"
          else do
            rename calls.moveBack journal.Previous templatesCache
            dropStage calls journal stageHash
        else if stageHash = none then
          Prog.fail "initial catalog activation stage is missing"
        else do
          rename calls.moveIn journal.Stage templatesCache
          finishCatalogActivation calls journal

def recoverCatalogActivation (sha256 : Bytes → String) (calls : RecoveryCalls) :
    CatalogAction Unit := do
  Prog.refuse calls.readJournal
  let m ← Prog.get
  match m.activation with
  | none => pure ()
  | some none =>
      Prog.fail "invalid catalog activation journal; retained directories were not changed"
  | some (some journal) =>
      if journal.Schema ≠ 1 ∨ journal.NewHash.utf8ByteSize ≠ 64 then
        Prog.fail "invalid catalog activation journal; retained directories were not changed"
      else if filepathBase journal.Stage ≠ journal.Stage ∨
          hasPrefix journal.Stage ".templates-stage-" = false then
        Prog.fail "unsafe catalog activation stage path"
      else if journal.Previous ≠ "" ∧ (filepathBase journal.Previous ≠ journal.Previous ∨
          hasPrefix journal.Previous ".templates-previous-" = false) then
        Prog.fail "unsafe catalog activation previous path"
      else resumeActivation sha256 calls journal

/-! ## Activation -/

structure ActivationCalls where
  hashCache : Option String
  /-- The name that `MkdirTemp` finds unused. -/
  previous : String
  makeTemp : Option String
  removeTemp : Option String
  journal : StateCalls
  moveAside : Option String
  syncAside : Option String
  moveIn : Option String
  syncIn : Option String
  recovery : RecoveryCalls

/-- A name for the old catalog: a directory is made and removed again. -/
def reservePrevious (calls : ActivationCalls) (oldHash : Option String) : CatalogAction String :=
  match oldHash with
  | none => pure ""
  | some _ => do
      Prog.refuse calls.makeTemp
      Prog.write (·.set calls.previous (some (.tree .empty)))
      Prog.refuse calls.removeTemp
      Prog.write (·.set calls.previous none)
      pure calls.previous

def moveAside (calls : ActivationCalls) (previous : String) (oldHash : Option String) :
    CatalogAction Unit :=
  match oldHash with
  | none => pure ()
  | some _ => do
      rename calls.moveAside templatesCache previous
      Prog.refuse calls.syncAside

/-- Activates the catalog in `stage`, which has the hash `contentSHA256`. -/
def activateTemplatesCatalog (sha256 : Bytes → String) (calls : ActivationCalls)
    (stage contentSHA256 : String) : CatalogAction String := do
  let m ← Prog.get
  let oldHash ← Prog.lift (catalogDirectoryHash sha256 calls.hashCache (m.dirs templatesCache))
  let previous ← reservePrevious calls oldHash
  let journal : CatalogActivation := ⟨1, stage, previous, contentSHA256, oldHash.getD ""⟩
  writeCatalogState calls.journal (·.journal (some journal))
  moveAside calls previous oldHash
  match ← Prog.attempt (rename calls.moveIn stage templatesCache) with
  | .error e => do
      match ← Prog.attempt (recoverCatalogActivation sha256 calls.recovery) with
      | .error e' => Prog.fail ("activate catalog: " ++ e ++ "; recovery: " ++ e')
      | .ok () => Prog.fail e
  | .ok () => do
      Prog.refuse calls.syncIn
      finishCatalogActivation calls.recovery journal
      pure previous

/-- The deferred removal of the stage after an activation that returned. -/
def cleanStage (stage : String) (removal : Removal) : CatalogAction Unit := do
  let m ← Prog.get
  match m.dirs stage with
  | none => pure ()
  | some _ => removeAll stage removal

/-! ## Runs -/

/-- One recovery, with the number of its writes when it crashes. -/
structure Recovery where
  calls : RecoveryCalls
  crash : Option Nat

def MetaRoot.recovers (sha256 : Bytes → String) (m : MetaRoot) (a : Recovery) (m' : MetaRoot) :
    Prop :=
  (recoverCatalogActivation sha256 a.calls).halt m a.crash = some m'

end Openlia.Skills

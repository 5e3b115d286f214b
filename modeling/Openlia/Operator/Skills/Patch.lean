import Mathlib.Data.List.Infix
import Openlia.Operator.Skills.CleanPath
import Openlia.Operator.Skills.Overlay

/-! # Skill patches

A patch records how the files of a skill differ from those of its base, as
operations on sorted paths that are applied to a copy of the base in that order.
-/

namespace Openlia.Skills

open Lib

/-- 64 lowercase hexadecimal digits. -/
def Sha256 := { s : String // s.toList.length = 64 ∧
  ∀ c ∈ s.toList, ('0' ≤ c ∧ c ≤ '9') ∨ ('a' ≤ c ∧ c ≤ 'f') }

/-- Sixty-four zeros are a checksum. -/
theorem zeros_hex : (String.ofList (List.replicate 64 '0')).toList.length = 64 ∧
    ∀ c ∈ (String.ofList (List.replicate 64 '0')).toList,
      ('0' ≤ c ∧ c ≤ '9') ∨ ('a' ≤ c ∧ c ≤ 'f') := by
  rw [String.toList_ofList]
  refine ⟨List.length_replicate, fun c hc => ?_⟩
  rw [List.eq_of_mem_replicate hc]
  decide

structure SkillPatchOperation where
  Path : String
  Action : String
  BaseHash : String
  NewHash : String
  Content : Bytes
  deriving DecidableEq

structure SkillPatch where
  Schema : Nat
  Format : String
  Skill : String
  BaseHash : String
  Operations : List SkillPatchOperation
  deriving DecidableEq

def skillPatchFormat : String := "openlia-filepatch-v1"

section Patches

variable (sha256 : Bytes → Sha256)

def bytesHash (contents : Bytes) : String := "sha256:" ++ (sha256 contents).1

def directoryHash (t : Dir) : String := DirectorySHA256 (fun b => (sha256 b).1) t

/-! ## Reading -/

def ignoredName (c : FileName) : Bool :=
  c.1 = "__pycache__" || c.hasSuffix ".pyc" || c.hasSuffix ".pyo"

/-- The walk comes to the path: it and the directories above it are not ignored. -/
def Visited (p : Path) : Prop := ∀ c ∈ p, ignoredName c = false

instance : DecidablePred Visited := fun p =>
  inferInstanceAs (Decidable (∀ c ∈ p, ignoredName c = false))

/-- A file that the walk reads. -/
def skillFile (t : Dir) (p : Path) : Option Bytes :=
  if Visited p then (t.node p).bind regular else none

def isLink (t : Dir) (p : Path) : Bool :=
  match t.node p with
  | some (.file (.link _)) | some .symlink => true
  | _ => false

/-- The paths of the files; a link is an error. -/
def readSkillFiles (t : Dir) : Except String (List Path) :=
  match (sortedPaths t).find? fun p => decide (Visited p) && isLink t p with
  | some p => .error ("read skill files: skill contains unsupported entry: " ++ relPath p)
  | none => .ok ((sortedPaths t).filter fun p => (skillFile t p).isSome)

/-! ## Generating -/

def patchOperation (base current : Dir) (p : Path) : Option SkillPatchOperation :=
  match skillFile base p, skillFile current p with
  | some old, none => some ⟨relPath p, "delete", bytesHash sha256 old, "", []⟩
  | none, some new => some ⟨relPath p, "add", "", bytesHash sha256 new, new⟩
  | some old, some new =>
      if old = new then none
      else some ⟨relPath p, "modify", bytesHash sha256 old, bytesHash sha256 new, new⟩
  | none, none => none

/-- The paths of both, by name. -/
def patchPaths (baseFiles currentFiles : List Path) : List Path :=
  (baseFiles ++ currentFiles.filter fun p => decide (p ∉ baseFiles)).mergeSort byName

def GenerateSkillPatch (base current : Dir) (skill : String) : Except String SkillPatch :=
  match readSkillFiles base with
  | .error e => .error e
  | .ok baseFiles =>
      match readSkillFiles current with
      | .error e => .error e
      | .ok currentFiles =>
          let operations :=
            (patchPaths baseFiles currentFiles).filterMap (patchOperation sha256 base current)
          let patch : SkillPatch :=
            ⟨1, skillPatchFormat, skill, "sha256:" ++ directoryHash sha256 base, operations⟩
          if directoryHash sha256 current = directoryHash sha256 base then
            .ok { patch with Operations := [] }
          else if operations = [] then
            .error "skill change cannot be represented by a file patch"
          else .ok patch

/-! ## Checking -/

def safeCharacter (c : Char) : Bool :=
  ('a' ≤ c && c ≤ 'z') || ('A' ≤ c && c ≤ 'Z') || ('0' ≤ c && c ≤ '9') || c = '_' || c = '-'

def validateSafeComponent (value label : String) : Except String Unit :=
  if value = "" ∨ value = "." ∨ value = ".." ∨ ['.'].isPrefixOf value.toList then
    .error ("invalid " ++ label)
  else if value.toList.all safeCharacter then .ok ()
  else .error ("invalid " ++ label)

/-- `^sha256:[0-9a-f]{64}$` -/
def contentHashPattern (s : String) : Bool :=
  s.toList.take 7 == "sha256:".toList && (s.toList.drop 7).length == 64 &&
    (s.toList.drop 7).all fun c => ('0' ≤ c && c ≤ '9') || ('a' ≤ c && c ≤ 'f')

def unsafeCharacter (c : Char) : Bool := c = '\\' || c = '\r' || c = '\n' || c = '\t'

def validatePatchPath (path : String) : Except String Unit :=
  let p := path.toList
  if p = [] ∨ p.head? = some '/' ∨ p.any unsafeCharacter then .error "invalid skill patch path"
  else
    let clean := filepathClean p
    if clean ≠ p ∨ clean = ['.'] ∨ "../".toList.isPrefixOf clean ∨
        "/../".toList <:+: clean then
      .error ("invalid skill patch path: " ++ path)
    else .ok ()

def validUtf8 (contents : Bytes) : Bool := ByteArray.validateUTF8 ⟨contents.toArray⟩

def validateOperation (previous : List Char) (op : SkillPatchOperation) : Except String Unit :=
  match validatePatchPath op.Path with
  | .error e => .error e
  | .ok () =>
      if (compare op.Path.toList previous).isLE then
        .error "skill patch operations are not sorted or contain duplicates"
      else if op.Action = "add" then
        if op.BaseHash ≠ "" ∨ contentHashPattern op.NewHash = false ∨ validUtf8 op.Content = false ∨
            bytesHash sha256 op.Content ≠ op.NewHash then
          .error ("invalid skill patch add operation: " ++ op.Path)
        else .ok ()
      else if op.Action = "modify" then
        if contentHashPattern op.BaseHash = false ∨ contentHashPattern op.NewHash = false ∨
            validUtf8 op.Content = false ∨ bytesHash sha256 op.Content ≠ op.NewHash then
          .error ("invalid skill patch modify operation: " ++ op.Path)
        else .ok ()
      else if op.Action = "delete" then
        if contentHashPattern op.BaseHash = false ∨ op.NewHash ≠ "" ∨ op.Content ≠ [] then
          .error ("invalid skill patch delete operation: " ++ op.Path)
        else .ok ()
      else .error ("invalid skill patch action: " ++ op.Action)

def validateOperations (previous : List Char) : List SkillPatchOperation → Except String Unit
  | [] => .ok ()
  | op :: rest =>
      match validateOperation sha256 previous op with
      | .error e => .error e
      | .ok () => validateOperations op.Path.toList rest

def validateSkillPatch (patch : SkillPatch) : Except String Unit :=
  if patch.Schema ≠ 1 ∨ patch.Format ≠ skillPatchFormat then .error "invalid skill patch format"
  else match validateSafeComponent patch.Skill "skill" with
    | .error e => .error e
    | .ok () =>
        if contentHashPattern patch.BaseHash = false then .error "invalid skill patch base hash"
        else validateOperations sha256 [] patch.Operations

/-! ## Applying -/

/-- The error of a call on a path that names no entry. -/
def invalidArgument : String := "invalid argument"

def readRegular (t : Dir) (p : Path) : Except String Bytes :=
  match t.readFile p with
  | .ok (.regular contents) => .ok contents
  -- a link is never in a copy of files
  | .ok (.link _) => .error Errno.link.text
  | .error e => .error e.text

def writePatchedFile (t : Dir) (p : Path) (contents : Bytes) : Except String Dir :=
  if validUtf8 contents = false then .error "skill patch contains non-UTF-8 content"
  else match t.mkdirAll p.dropLast with
    | .error e => .error ("create directory: " ++ e.text)
    | .ok t =>
        match t.writeFile p (.regular contents) with
        | .error e => .error e.text
        | .ok t => .ok t

def applyAdd (t : Dir) (op : SkillPatchOperation) (p : Path) : Except String Dir :=
  if bytesHash sha256 op.Content ≠ op.NewHash then
    .error ("patch add content hash mismatch: " ++ op.Path)
  else match t.lstat p with
    | .ok _ => .error ("patch add target already exists: " ++ op.Path)
    | .error .notExist => writePatchedFile t p op.Content
    | .error e => .error e.text

def applyModify (t : Dir) (op : SkillPatchOperation) (p : Path) : Except String Dir :=
  if bytesHash sha256 op.Content ≠ op.NewHash then
    .error ("patch modify content hash mismatch: " ++ op.Path)
  else match readRegular t p with
    | .error e => .error ("read patch target " ++ op.Path ++ ": " ++ e)
    | .ok contents =>
        if bytesHash sha256 contents ≠ op.BaseHash then
          .error ("patch target hash mismatch: " ++ op.Path)
        else writePatchedFile t p op.Content

def applyDelete (t : Dir) (op : SkillPatchOperation) (p : Path) : Except String Dir :=
  match readRegular t p with
  | .error e => .error ("read patch target " ++ op.Path ++ ": " ++ e)
  | .ok contents =>
      if bytesHash sha256 contents ≠ op.BaseHash then
        .error ("patch target hash mismatch: " ++ op.Path)
      else match t.remove p with
        | .error e => .error ("delete patch target " ++ op.Path ++ ": " ++ e.text)
        | .ok t => .ok t

def applyOperation (t : Dir) (op : SkillPatchOperation) : Except String Dir :=
  match pathOf op.Path with
  | none => .error invalidArgument
  | some p =>
      if op.Action = "add" then applyAdd sha256 t op p
      else if op.Action = "modify" then applyModify sha256 t op p
      else if op.Action = "delete" then applyDelete sha256 t op p
      else .error ("unsupported skill patch action " ++ op.Action)

def applyOperations (t : Dir) : List SkillPatchOperation → Except String Dir
  | [] => .ok t
  | op :: rest =>
      match applyOperation sha256 t op with
      | .error e => .error e
      | .ok t => applyOperations t rest

/-- The destination after `CopyDir` and the operations. -/
def ApplySkillPatch (base : Dir) (destination : Option Dir) (patch : SkillPatch) :
    Except String Dir :=
  match validateSkillPatch sha256 patch with
  | .error e => .error e
  | .ok () =>
      if "sha256:" ++ directoryHash sha256 base ≠ patch.BaseHash then
        .error "skill patch base hash mismatch"
      else match destination with
        | some _ => .error "patch destination already exists"
        | none => applyOperations sha256 base patch.Operations

end Patches

end Openlia.Skills

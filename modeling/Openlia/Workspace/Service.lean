import Openlia.Lib.FileTree
import Openlia.Workspace.Paths

/-! # Reading the workspace

A file is read after its path and its size are checked. Text is decoded strictly, and
the decoder takes a byte-order mark at the start for no part of the text.
-/

namespace Openlia.Workspace

open Lib

/-! ## Text -/

/-- `TextEncoder.encode`. -/
def utf8 (s : String) : Bytes := s.toUTF8.data.toList

/-- The text of well-formed UTF-8. -/
def ofUtf8 (bytes : Bytes) : Option String := String.fromUTF8? ⟨bytes.toArray⟩

def byteOrderMark : Bytes := [0xEF, 0xBB, 0xBF]

/-- The bytes without a mark at their start. -/
def unmarked (bytes : Bytes) : Bytes :=
  if byteOrderMark.isPrefixOf bytes then bytes.drop 3 else bytes

/-- `new TextDecoder("utf-8", { fatal: true }).decode`. -/
def decodeFatal (bytes : Bytes) : Option String := ofUtf8 (unmarked bytes)

theorem ofUtf8_eq_some {bytes : Bytes} {s : String} : ofUtf8 bytes = some s ↔ utf8 s = bytes := by
  have harray : ∀ b : ByteArray, b.data.toList = bytes ↔ b = ⟨bytes.toArray⟩ := by
    intro b
    constructor
    · rintro rfl
      rfl
    · rintro rfl
      rfl
  unfold ofUtf8 utf8 String.fromUTF8?
  rw [harray]
  constructor
  · intro h
    split at h
    · cases h
      rfl
    · cases h
  · intro h
    rw [← h]
    split
    · rename_i hvalid
      exact congrArg some (String.toByteArray_inj.mp rfl)
    · rename_i hinvalid
      exact absurd s.isValidUTF8 hinvalid

@[simp] theorem ofUtf8_utf8 (s : String) : ofUtf8 (utf8 s) = some s := ofUtf8_eq_some.mpr rfl

theorem utf8_injective {s t : String} (h : utf8 s = utf8 t) : s = t :=
  Option.some.inj ((ofUtf8_utf8 s).symm.trans ((congrArg ofUtf8 h).trans (ofUtf8_utf8 t)))

theorem utf8_ofList (l : List Char) : utf8 (String.ofList l) = l.utf8Encode.data.toList := by
  rw [utf8, String.toUTF8, String.toByteArray_ofList]

theorem utf8Encode_mark : ['\uFEFF'].utf8Encode.data.toList = byteOrderMark := by decide

theorem utf8_mark (cs : List Char) :
    utf8 (String.ofList ('\uFEFF' :: cs)) = byteOrderMark ++ utf8 (String.ofList cs) := by
  rw [utf8_ofList, utf8_ofList, List.utf8Encode_cons, ByteArray.data_append, Array.toList_append,
    utf8Encode_mark]

/-- Encoded text is still text without the mark at its start. -/
theorem decodeFatal_utf8 (s : String) : ∃ t, decodeFatal (utf8 s) = some t := by
  unfold decodeFatal unmarked
  by_cases hmark : byteOrderMark.isPrefixOf (utf8 s) = true
  · rw [if_pos hmark]
    obtain ⟨rest, hrest⟩ := List.isPrefixOf_iff_prefix.mp hmark
    have hbytes : ['\uFEFF'].utf8Encode ++ ⟨rest.toArray⟩ = s.toList.utf8Encode := by
      apply ByteArray.ext
      apply Array.toList_inj.mp
      rw [ByteArray.data_append, Array.toList_append, utf8Encode_mark, ← utf8_ofList,
        String.ofList_toList, ← hrest]
    obtain ⟨cs, hcs⟩ := List.isPrefix_of_utf8Encode_append_eq_utf8Encode _ hbytes
    refine ⟨String.ofList cs, ofUtf8_eq_some.mpr ?_⟩
    rw [← String.ofList_toList (s := s), ← hcs, List.singleton_append, utf8_mark]
    rfl
  · exact ⟨s, by rw [if_neg hmark, ofUtf8_utf8]⟩

/-! ## The disk -/

/-- An entry that is no directory and no link to one. A link gives the bytes it leads to. -/
inductive Entry where
  | regular (bytes : Bytes)
  | link (bytes : Option Bytes)
  | special

/-- What is below the root of the workspace. -/
abbrev Disk := Tree String Entry

/-- The components of a valid path. -/
def components (path : String) : List String := splitSlash path

/-- `existsSync`, which follows a link. -/
def existsSync (disk : Disk) (p : List String) : Bool :=
  match disk.node p with
  | none => false
  | some (.file (.link bytes)) => bytes.isSome
  | some _ => true

/-- A link that leads somewhere. -/
def leads (disk : Disk) (p : List String) : Bool :=
  match disk.node p with
  | some .symlink => true
  | some (.file (.link bytes)) => bytes.isSome
  | _ => false

/-- The error code where nothing is found. -/
def missingCode (disk : Disk) (pre : List String) : List String → String
  | [] => "ENOENT"
  | c :: rest =>
      match disk.node (pre ++ [c]) with
      | some .dir => missingCode disk (pre ++ [c]) rest
      | some (.file (.regular _)) | some (.file .special) => "ENOTDIR"
      | _ => "ENOENT"

def lstatSync (disk : Disk) (p : List String) : Except String (Node Entry) :=
  match disk.node p with
  | some n => .ok n
  | none => .error (missingCode disk [] p)

/-- An error of the file system that is thrown as it is. -/
def systemError (code : String) : WorkspaceError := refusal code 500 "request_failed"

def mapFilesystemError (code fallback : String) : WorkspaceError :=
  if code = "ENOENT" then refusal fallback 404 "not_found"
  else if code = "EACCES" ∨ code = "EPERM" then
    refusal "workspace access denied" 403 "access_denied"
  else refusal "workspace operation failed" 500 "workspace_operation_failed"

section Service

variable (rt : Runtime)

def revision (contents : Bytes) : String := "sha256:" ++ rt.sha256 contents

def settingsOf (parsed : Json) : Option WorkspaceSettings :=
  match parsed with
  | .obj values =>
      match values.lookup "schema", values.lookup "hide_template_schema_files",
        values.lookup "hide_configuration_files" with
      | some (.num (.finite ['1'] _ _)), some (.bool template), some (.bool configuration) =>
          some ⟨(values.lookup "enable_memory_editing").any (fun
            | .bool b => b
            | _ => false), configuration, template, 1⟩
      | _, _, _ => none
  | _ => none

def settings (disk : Disk) : WorkspaceSettings :=
  let contents :=
    match disk.node [workspaceSettingsFile] with
    | some (.file (.regular bytes)) => some bytes
    | some (.file (.link bytes)) => bytes
    | _ => none
  ((contents.bind rt.parseYaml).bind settingsOf).getD defaultWorkspaceSettings

/-- Every component on the way may be a link. -/
def assertNoSymlink (disk : Disk) (relativePath : String) : Except WorkspaceError Unit :=
  if (components relativePath).inits.any (leads disk) then
    .error (refusal "workspace symlinks are not supported" 403 "symlink_not_allowed")
  else .ok ()

/-- The limits of the service. -/
structure Limits where
  maxEditableBytes : Nat
  maxDownloadBytes : Nat

def defaultLimits : Limits := ⟨2 * 1024 * 1024, 100 * 1024 * 1024⟩

structure WorkspaceFileMetadata where
  path : String
  size : Nat
  editable : Bool
  revision : String
  deriving DecidableEq

structure WorkspaceFile extends WorkspaceFileMetadata where
  content : String
  deriving DecidableEq

variable (limits : Limits)

def editable (path : String) (size : Nat) : Bool :=
  isEditablePath rt path && decide (size ≤ limits.maxEditableBytes)

/-- The regular file at a path that passes every check. -/
def regularFile (disk : Disk) (pathValue : String) : Except WorkspaceError Bytes := do
  let path ← validateRelativePath rt pathValue (settings rt disk)
  assertNoSymlink disk path
  match lstatSync disk (components path) with
  | .error code => .error (mapFilesystemError code "workspace file was not found")
  | .ok (.file (.regular bytes)) => .ok bytes
  | .ok _ => .error (refusal "workspace path is not a file" 400 "not_a_file")

def read (disk : Disk) (pathValue : String) : Except WorkspaceError WorkspaceFile := do
  let contents ← regularFile rt disk pathValue
  if limits.maxEditableBytes < contents.length then
    .error (refusal "file is too large to edit" 413 "file_too_large")
  else if contents.contains 0 then
    .error (refusal "binary files are not editable" 415 "binary_file")
  else
    match decodeFatal contents with
    | none => .error (refusal "file is not valid UTF-8" 415 "invalid_utf8")
    | some text =>
        .ok ⟨⟨pathValue, contents.length, editable rt limits pathValue contents.length,
          revision rt contents⟩, text⟩

/-- The bytes of a file that may be downloaded; its size is their number. -/
def download (disk : Disk) (pathValue : String) : Except WorkspaceError Bytes := do
  let contents ← regularFile rt disk pathValue
  if limits.maxDownloadBytes < contents.length then
    .error (refusal "file is too large to download" 413 "download_too_large")
  else .ok contents

def metadata (disk : Disk) (pathValue : String) : Except WorkspaceError WorkspaceFileMetadata := do
  let contents ← download rt limits disk pathValue
  .ok ⟨pathValue, contents.length, editable rt limits pathValue contents.length,
    revision rt contents⟩

end Service

end Openlia.Workspace

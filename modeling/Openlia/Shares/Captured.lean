import Openlia.Lib.Results
import Openlia.Shares.Capture

/-! # The captured files

Every file of a capture has the bytes of its source: as they are, or decoded to text.
-/

namespace Openlia.Shares

open Lib Workspace
open Browser (trim)

/-! ## Files that are read -/

section Reading

variable {rt : Runtime} {limits : Limits} {disk : Disk} {path : String}

/-- The bytes of a regular file. -/
def fileBytes (disk : Disk) (path : String) : Option Bytes :=
  match disk.node (components path) with
  | some (.file (.regular bytes)) => some bytes
  | _ => none

theorem regularFile_bytes {bytes : Bytes} (h : regularFile rt disk path = .ok bytes) :
    fileBytes disk path = some bytes := by
  unfold regularFile at h
  obtain ⟨valid, hvalid, h⟩ := except_bind_ok h
  obtain ⟨_, _, h⟩ := except_bind_ok h
  rw [validateRelativePath_ok hvalid] at h
  unfold lstatSync at h
  unfold fileBytes
  cases hnode : disk.node (components path) with
  | none => simp [hnode] at h
  | some n =>
      rw [hnode] at h
      dsimp only at h
      split at h
      · cases ‹Except.ok n = Except.error _›
      · rename_i found hfound
        cases h
        cases hfound
        rfl
      · cases h

theorem download_ok {bytes : Bytes} (h : download rt limits disk path = .ok bytes) :
    regularFile rt disk path = .ok bytes ∧ bytes.length ≤ limits.maxDownloadBytes := by
  unfold download at h
  obtain ⟨contents, hcontents, h⟩ := except_bind_ok h
  split_ifs at h with hlarge
  obtain rfl := Except.ok.inj h
  exact ⟨hcontents, Nat.not_lt.mp hlarge⟩

theorem metadata_ok {info : WorkspaceFileMetadata}
    (h : Workspace.metadata rt limits disk path = .ok info) :
    ∃ bytes, download rt limits disk path = .ok bytes ∧
      info = ⟨path, bytes.length, editable rt limits path bytes.length, revision rt bytes⟩ := by
  unfold Workspace.metadata at h
  obtain ⟨bytes, hbytes, h⟩ := except_bind_ok h
  exact ⟨bytes, hbytes, (Except.ok.inj h).symm⟩

theorem read_ok {file : WorkspaceFile} (h : read rt limits disk path = .ok file) :
    ∃ bytes, regularFile rt disk path = .ok bytes ∧ file.path = path ∧ file.size = bytes.length ∧
      bytes.length ≤ limits.maxEditableBytes ∧ decodeFatal bytes = some file.content := by
  unfold Workspace.read at h
  obtain ⟨contents, hcontents, h⟩ := except_bind_ok h
  split_ifs at h with hlarge hbinary
  cases htext : decodeFatal contents with
  | none => simp [htext] at h
  | some text =>
      rw [htext] at h
      obtain rfl := Except.ok.inj h
      exact ⟨contents, hcontents, rfl, rfl, Nat.not_lt.mp hlarge, htext⟩

end Reading

/-! ## Included files -/

section Included

variable {rt : Runtime} {limits : Limits} {disk : Disk}

theorem readCandidate_some {visited candidates : List String} {file : WorkspaceFile}
    (h : readCandidate rt limits disk visited candidates = some file) :
    file.path ∉ visited ∧ read rt limits disk file.path = .ok file := by
  induction candidates with
  | nil => cases h
  | cons candidate rest ih =>
      rw [readCandidate] at h
      split_ifs at h with hvisited hprotected
      · exact ih h
      · split at h
        · rename_i found hread
          obtain rfl := Option.some.inj h
          obtain ⟨_, _, hpath, _⟩ := read_ok hread
          rw [hpath]
          exact ⟨by simpa using hvisited, hread⟩
        · exact ih h

theorem nextInclude_some {visited : List String} {queue rest : List IncludeRef}
    {file : WorkspaceFile} (h : nextInclude rt limits disk visited queue = some (file, rest)) :
    file.path ∉ visited ∧ read rt limits disk file.path = .ok file := by
  induction queue with
  | nil => cases h
  | cons item queue ih =>
      rw [nextInclude] at h
      split at h
      · rename_i found hfound
        cases h
        exact readCandidate_some hfound
      · exact ih h

/-- An included file is no file that was there, and it is what can be read now. -/
theorem mem_includedFiles {allowed : Nat} {visited : List String} {queue : List IncludeRef}
    {file : WorkspaceFile} (h : file ∈ includedFiles rt limits disk allowed visited queue) :
    file.path ∉ visited ∧ read rt limits disk file.path = .ok file := by
  induction allowed generalizing visited queue with
  | zero => cases h
  | succ allowed ih =>
      rw [includedFiles] at h
      split at h
      · cases h
      · rename_i incFile rest hnext
        rcases List.mem_cons.mp h with rfl | h
        · exact nextInclude_some hnext
        · obtain ⟨hvisited, hread⟩ := ih h
          exact ⟨fun hmem => hvisited (List.mem_append_left _ hmem), hread⟩

theorem mem_workspaceFiles {path : String} {file found : WorkspaceFile}
    (hfile : read rt limits disk path = .ok file)
    (h : found ∈ workspaceFiles rt limits disk file) :
    read rt limits disk found.path = .ok found := by
  rcases List.mem_cons.mp h with rfl | h
  · obtain ⟨_, _, hpath, _⟩ := read_ok hfile
    rw [hpath]
    exact hfile
  · split_ifs at h
    · exact (mem_includedFiles h).2
    · cases h

end Included

/-! ## What a capture has -/

section Capturing

variable {rt : Runtime} {limits : Limits} {services : Services} {w : World}
  {snapshot : CapturedSnapshot}

/-- The files of a workspace capture. -/
def workspaceCapture (rt : Runtime) (limits : Limits) (disk : Disk) (path : String)
    (bytes : Bytes) : Except WorkspaceError (List CapturedShareFile) :=
  if editable rt limits path bytes.length then do
    let file ← read rt limits disk path
    .ok ((workspaceFiles rt limits disk file).map (textFile rt))
  else
    .ok [⟨path, none, some bytes, inferMediaType rt path false, bytes.length, false⟩]

theorem captureWorkspace_ok {disk : Disk} {raw : String}
    (h : captureWorkspaceSnapshot rt limits disk raw = .ok snapshot) :
    ∃ bytes, download rt limits disk (cleanTarget raw) = .ok bytes ∧
      workspaceCapture rt limits disk (cleanTarget raw) bytes = .ok snapshot.files ∧
      (snapshot.files.map (·.sizeBytes)).sum ≤ limits.maxDownloadBytes ∧
      snapshot.kind = .workspace ∧ snapshot.targetPath = cleanTarget raw ∧
      snapshot.snapshotRevision = revision rt bytes := by
  unfold captureWorkspaceSnapshot at h
  dsimp only at h
  obtain ⟨_, h⟩ := guard_ok h
  obtain ⟨info, hinfo, h⟩ := except_bind_ok h
  obtain ⟨bytes, hbytes, h⟩ := except_bind_ok h
  have heditable : info.editable = editable rt limits (cleanTarget raw) bytes.length := by
    obtain ⟨contents, hcontents, rfl⟩ := metadata_ok hinfo
    rw [hbytes] at hcontents
    rw [Except.ok.inj hcontents]
  rw [heditable] at h
  refine ⟨bytes, hbytes, ?_⟩
  unfold workspaceCapture
  by_cases hedit : editable rt limits (cleanTarget raw) bytes.length = true
  · rw [if_pos hedit] at h ⊢
    obtain ⟨file, hfile, h⟩ := except_bind_ok h
    rw [ok_bind] at h
    obtain ⟨htotal, h⟩ := guard_ok h
    rw [← Except.ok.inj h, hfile]
    exact ⟨rfl, Nat.not_lt.mp htotal, rfl, rfl, rfl⟩
  · rw [if_neg hedit] at h ⊢
    rw [ok_bind] at h
    obtain ⟨htotal, h⟩ := guard_ok h
    rw [← Except.ok.inj h]
    exact ⟨rfl, Nat.not_lt.mp htotal, rfl, rfl, rfl⟩

/-- The files of a package, as they are read. -/
def packageFiles (rt : Runtime) (services : Services) (w : World) :
    ShareKind → String → Except WorkspaceError (List PackageFile)
  | .workspace, _ => .ok []
  | .skill, id => do
      let skill ← services.skillDetail w id
      readSkillFiles w (fun totalBytes _ => .ok totalBytes) id 0 (sortedFiles rt skill)
  | .feature, id => do
      let captured ← services.captureFeatureFiles w id
      .ok captured.files

theorem addBytes_ok {what : String} {totalBytes total : Nat} {data : Bytes}
    (h : addBytes limits what totalBytes data = .ok total) :
    total = totalBytes + data.length ∧ total ≤ limits.maxDownloadBytes := by
  unfold addBytes at h
  split_ifs at h with hlarge
  obtain rfl := Except.ok.inj h
  exact ⟨rfl, Nat.not_lt.mp hlarge⟩

/-- A skill whose files fit is read as one without a limit. -/
theorem readSkillFiles_fit {id what : String} {totalBytes start : Nat} {paths : List String}
    {files : List PackageFile}
    (h : readSkillFiles w (addBytes limits what) id totalBytes paths = .ok files) :
    readSkillFiles w (fun n _ => .ok n) id start paths = .ok files := by
  induction paths generalizing totalBytes files with
  | nil => exact h
  | cons path rest ih =>
      rw [readSkillFiles] at h ⊢
      obtain ⟨bytes, hbytes, h⟩ := except_bind_ok h
      obtain ⟨total, _, h⟩ := except_bind_ok h
      obtain ⟨more, hmore, h⟩ := except_bind_ok h
      rw [hbytes, ok_bind, ok_bind, ih hmore]
      exact h

theorem captureSkill_ok {raw : String}
    (h : captureSkillSnapshot rt limits services w raw = .ok snapshot) :
    snapshot.kind = .skill ∧ ∃ files,
      packageFiles rt services w .skill snapshot.targetPath = .ok files ∧
        snapshot.snapshotRevision = compositeRevision rt files ∧
        snapshot.files = files.map (packageFile rt limits) := by
  unfold captureSkillSnapshot at h
  obtain ⟨skillId, _, h⟩ := except_bind_ok h
  obtain ⟨skill, hskill, h⟩ := except_bind_ok h
  obtain ⟨files, hfiles, h⟩ := except_bind_ok h
  rw [← Except.ok.inj h]
  refine ⟨rfl, files, ?_, rfl, rfl⟩
  rw [packageFiles, packageSnapshot, hskill, ok_bind]
  exact readSkillFiles_fit hfiles

theorem captureFeature_ok {raw : String}
    (h : captureFeatureSnapshot rt limits services w raw = .ok snapshot) :
    snapshot.kind = .feature ∧ ∃ files,
      packageFiles rt services w .feature snapshot.targetPath = .ok files ∧
        snapshot.snapshotRevision = compositeRevision rt files ∧
        snapshot.files = files.map (packageFile rt limits) := by
  unfold captureFeatureSnapshot at h
  obtain ⟨featureId, _, h⟩ := except_bind_ok h
  obtain ⟨captured, hcaptured, h⟩ := except_bind_ok h
  obtain ⟨_, _, h⟩ := except_bind_ok h
  rw [← Except.ok.inj h]
  refine ⟨rfl, captured.files, ?_, rfl, rfl⟩
  rw [packageFiles, packageSnapshot, hcaptured, ok_bind]

/-- A package is captured with the files that are read. -/
theorem capturePackage_ok {kind : ShareKind} {target : String} (hkind : kind ≠ .workspace)
    (h : capture rt limits services w kind target = .ok snapshot) :
    snapshot.kind = kind ∧ ∃ files,
      packageFiles rt services w kind snapshot.targetPath = .ok files ∧
        snapshot.snapshotRevision = compositeRevision rt files ∧
        snapshot.files = files.map (packageFile rt limits) := by
  cases kind with
  | workspace => exact absurd rfl hkind
  | skill => exact captureSkill_ok h
  | feature => exact captureFeature_ok h

theorem capture_kind {kind : ShareKind} {target : String}
    (h : capture rt limits services w kind target = .ok snapshot) : snapshot.kind = kind := by
  by_cases hworkspace : kind = .workspace
  · rw [hworkspace, capture] at h
    obtain ⟨_, _, _, _, hkind, _⟩ := captureWorkspace_ok h
    rw [hkind, hworkspace]
  · exact (capturePackage_ok hworkspace h).1

end Capturing

end Openlia.Shares

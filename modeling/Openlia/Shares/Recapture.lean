import Openlia.Shares.Captured
import Openlia.Shares.Served

/-! # Capturing again

What a capture has is decided by bytes: those of the shared file and what it reaches, or
those of the files of a package. So a second capture has the same files exactly where
these are the same but for byte-order marks of texts.
-/

namespace Openlia.Shares

open Lib Workspace
open Browser (trim isSpace)

/-! ## Files as they are stored -/

/-- The path of a captured file and its content in either column. -/
def CapturedShareFile.columns (f : CapturedShareFile) : String × Option String × Option Bytes :=
  (f.path, f.contentText, f.contentBlob)

/-- The same paths with the same contents. -/
def SameFiles (a b : List CapturedShareFile) : Prop :=
  ∀ x, x ∈ a.map (·.columns) ↔ x ∈ b.map (·.columns)

/-- The first elements are the only ones with their key. -/
theorem same_cons_iff {α κ : Type} {key : α → κ} {a b : α} {as bs : List α} (hkey : key a = key b)
    (has : ∀ x ∈ as, key x ≠ key a) (hbs : ∀ x ∈ bs, key x ≠ key a) :
    (∀ x, x ∈ a :: as ↔ x ∈ b :: bs) ↔ a = b ∧ ∀ x, x ∈ as ↔ x ∈ bs := by
  constructor
  · intro h
    have hab : a = b := by
      rcases List.mem_cons.mp ((h a).mp List.mem_cons_self) with hab | hmem
      · exact hab
      · exact absurd rfl (hbs a hmem)
    refine ⟨hab, fun x => ⟨fun hx => ?_, fun hx => ?_⟩⟩
    · rcases List.mem_cons.mp ((h x).mp (List.mem_cons_of_mem _ hx)) with rfl | hmem
      · exact absurd hkey.symm (has _ hx)
      · exact hmem
    · rcases List.mem_cons.mp ((h x).mpr (List.mem_cons_of_mem _ hx)) with rfl | hmem
      · exact absurd rfl (hbs _ hx)
      · exact hmem
  · rintro ⟨rfl, h⟩ x
    rw [List.mem_cons, List.mem_cons, h x]

/-! ## Bytes of a file -/

section Reading

variable (rt : Runtime) (limits : Limits) (path : String)

/-- What `read` makes of the bytes that it finds. -/
def readBytes (contents : Bytes) : Except WorkspaceError WorkspaceFile :=
  if limits.maxEditableBytes < contents.length then
    .error (refusal "file is too large to edit" 413 "file_too_large")
  else if contents.contains 0 then
    .error (refusal "binary files are not editable" 415 "binary_file")
  else
    match decodeFatal contents with
    | none => .error (refusal "file is not valid UTF-8" 415 "invalid_utf8")
    | some text =>
        .ok ⟨⟨path, contents.length, editable rt limits path contents.length,
          revision rt contents⟩, text⟩

/-- The same bytes, or texts that are the same without a mark. -/
def SameText (bytes₁ bytes₀ : Bytes) : Prop :=
  bytes₁ = bytes₀ ∨ editable rt limits path bytes₁.length = true ∧
    editable rt limits path bytes₀.length = true ∧ unmarked bytes₁ = unmarked bytes₀

end Reading

section ReadingAgain

variable {rt : Runtime} {limits : Limits} {disk : Disk} {path : String} {bytes : Bytes}
  {file : WorkspaceFile}

theorem read_of_regular (h : regularFile rt disk path = .ok bytes) :
    read rt limits disk path = readBytes rt limits path bytes := by
  unfold Workspace.read
  rw [h]
  rfl

theorem readBytes_ok :
    readBytes rt limits path bytes = .ok file ↔ bytes.length ≤ limits.maxEditableBytes ∧
      bytes.contains 0 = false ∧ ∃ text, decodeFatal bytes = some text ∧
        file = ⟨⟨path, bytes.length, editable rt limits path bytes.length, revision rt bytes⟩,
          text⟩ := by
  unfold readBytes
  constructor
  · intro h
    obtain ⟨hlarge, h⟩ := guard_ok h
    obtain ⟨hbinary, h⟩ := guard_ok h
    cases htext : decodeFatal bytes with
    | none => simp [htext] at h
    | some text =>
        rw [htext] at h
        exact ⟨Nat.not_lt.mp hlarge, Bool.eq_false_iff.mpr hbinary, text, rfl,
          (Except.ok.inj h).symm⟩
  · rintro ⟨hlarge, hbinary, text, htext, rfl⟩
    rw [if_neg (Nat.not_lt.mpr hlarge), if_neg (Bool.eq_false_iff.mp hbinary), htext]

theorem contains_zero_unmarked : (unmarked bytes).contains 0 = bytes.contains 0 := by
  unfold unmarked
  by_cases hmark : byteOrderMark.isPrefixOf bytes = true
  · rw [if_pos hmark]
    obtain ⟨rest, rfl⟩ := List.isPrefixOf_iff_prefix.mp hmark
    simp [byteOrderMark]
  · rw [if_neg hmark]

/-- The same text can be read again. -/
theorem SameText.read_again {bytes₁ bytes₀ : Bytes} (h : SameText rt limits path bytes₁ bytes₀)
    (hread : readBytes rt limits path bytes₀ = .ok file) :
    ∃ file₁, readBytes rt limits path bytes₁ = .ok file₁ ∧ file₁.path = file.path ∧
      file₁.content = file.content := by
  rcases h with rfl | ⟨hedit, -, hsame⟩
  · exact ⟨file, hread, rfl, rfl⟩
  · obtain ⟨-, hbinary, text, htext, rfl⟩ := readBytes_ok.mp hread
    refine ⟨_, readBytes_ok.mpr ⟨?_, ?_, text, ?_, rfl⟩, rfl, rfl⟩
    · simp only [editable, Bool.and_eq_true, decide_eq_true_eq] at hedit
      exact hedit.2
    · rw [← contains_zero_unmarked, hsame, contains_zero_unmarked, hbinary]
    · rw [decodeFatal, hsame]
      exact htext

end ReadingAgain

/-! ## Workspace files -/

section Reached

variable (rt : Runtime) (limits : Limits) (disk : Disk) (path : String) (bytes : Bytes)

/-- The files that a shared file of these bytes reaches through include lines. -/
def reached : List WorkspaceFile :=
  if editable rt limits path bytes.length then
    match readBytes rt limits path bytes with
    | .ok file => (workspaceFiles rt limits disk file).tail
    | .error _ => []
  else []

/-- A capture is as large as it may be. -/
def Fits : Prop :=
  bytes.length + ((reached rt limits disk path bytes).map (·.size)).sum ≤ limits.maxDownloadBytes

instance : Decidable (Fits rt limits disk path bytes) := inferInstanceAs (Decidable (_ ≤ _))

/-- The same files are reached, with the same texts. -/
def SameReached (rt : Runtime) (limits : Limits) (path : String) (disk₁ disk₀ : Disk)
    (bytes₁ bytes₀ : Bytes) : Prop :=
  ∀ x : String × String,
    x ∈ (reached rt limits disk₁ path bytes₁).map (fun f => (f.path, f.content)) ↔
      x ∈ (reached rt limits disk₀ path bytes₀).map fun f => (f.path, f.content)

end Reached

section Workspaces

variable {rt : Runtime} {limits : Limits} {disk disk₁ disk₀ : Disk} {path : String}
  {bytes bytes₁ bytes₀ : Bytes} {files files₁ files₀ : List CapturedShareFile}

theorem path_of_reached {file : WorkspaceFile} (h : file ∈ reached rt limits disk path bytes) :
    file.path ≠ path := by
  unfold reached at h
  split_ifs at h
  · split at h
    · rename_i main hmain
      obtain ⟨-, -, text, -, rfl⟩ := readBytes_ok.mp hmain
      rw [workspaceFiles, List.tail_cons] at h
      split_ifs at h
      · simpa using (mem_includedFiles h).1
      · cases h
    · cases h
  · cases h

/-- What a capture of these bytes has: the file as text with what it reaches, or its bytes. -/
theorem workspaceCapture_ok (hbytes : regularFile rt disk path = .ok bytes) :
    workspaceCapture rt limits disk path bytes = .ok files ↔
      if editable rt limits path bytes.length then
        ∃ file, readBytes rt limits path bytes = .ok file ∧
          files = textFile rt file :: (reached rt limits disk path bytes).map (textFile rt)
      else files =
        [⟨path, none, some bytes, inferMediaType rt path false, bytes.length, false⟩] := by
  unfold workspaceCapture
  rw [read_of_regular hbytes]
  by_cases hedit : editable rt limits path bytes.length = true
  · rw [if_pos hedit, if_pos hedit]
    cases hread : readBytes rt limits path bytes with
    | error e => simp [error_bind]
    | ok file =>
        rw [ok_bind, Except.ok.injEq]
        have hreached : reached rt limits disk path bytes =
            (workspaceFiles rt limits disk file).tail := by
          rw [reached, if_pos hedit, hread]
        rw [hreached]
        constructor
        · rintro rfl
          exact ⟨file, rfl, rfl⟩
        · rintro ⟨_, hfile, rfl⟩
          rw [← Except.ok.inj hfile]
          rfl
  · rw [if_neg hedit, if_neg hedit, Except.ok.injEq]
    exact eq_comm

theorem workspaceCapture_total (hbytes : regularFile rt disk path = .ok bytes)
    (h : workspaceCapture rt limits disk path bytes = .ok files) :
    (files.map (·.sizeBytes)).sum =
      bytes.length + ((reached rt limits disk path bytes).map (·.size)).sum := by
  have hfiles := (workspaceCapture_ok hbytes).mp h
  by_cases hedit : editable rt limits path bytes.length = true
  · rw [if_pos hedit] at hfiles
    obtain ⟨file, hfile, rfl⟩ := hfiles
    obtain ⟨-, -, text, -, rfl⟩ := readBytes_ok.mp hfile
    simp [textFile, Function.comp_def]
  · rw [if_neg hedit] at hfiles
    rw [hfiles, reached, if_neg hedit]
    rfl

theorem text_columns {file : WorkspaceFile} :
    (textFile rt file).columns = (file.path, some file.content, none) := rfl

theorem mem_columns {x : String × Option String × Option Bytes} {l : List WorkspaceFile} :
    x ∈ (l.map (textFile rt)).map (·.columns) ↔
      ∃ y ∈ l.map fun f => (f.path, f.content), x = (y.1, some y.2, none) := by
  rw [List.map_map]
  constructor
  · intro hx
    obtain ⟨f, hf, rfl⟩ := List.mem_map.mp hx
    exact ⟨_, List.mem_map_of_mem hf, rfl⟩
  · rintro ⟨y, hy, rfl⟩
    obtain ⟨f, hf, rfl⟩ := List.mem_map.mp hy
    exact List.mem_map.mpr ⟨f, hf, rfl⟩

theorem mem_texts {y : String × String} {l : List WorkspaceFile} :
    y ∈ l.map (fun f => (f.path, f.content)) ↔
      (y.1, some y.2, none) ∈ (l.map (textFile rt)).map (·.columns) := by
  rw [mem_columns]
  constructor
  · exact fun hy => ⟨y, hy, rfl⟩
  · rintro ⟨z, hz, he⟩
    simp only [Prod.mk.injEq, Option.some.injEq, and_true] at he
    obtain rfl : y = z := Prod.ext he.1 he.2
    exact hz

theorem sameReached_iff : SameReached rt limits path disk₁ disk₀ bytes₁ bytes₀ ↔
    SameFiles ((reached rt limits disk₁ path bytes₁).map (textFile rt))
      ((reached rt limits disk₀ path bytes₀).map (textFile rt)) := by
  unfold SameReached SameFiles
  constructor
  · intro h x
    simp only [mem_columns, h]
  · intro h x
    rw [@mem_texts rt, @mem_texts rt]
    exact h _

theorem utf8_content {file : WorkspaceFile} (h : readBytes rt limits path bytes = .ok file) :
    utf8 file.content = unmarked bytes := by
  obtain ⟨-, -, text, htext, rfl⟩ := readBytes_ok.mp h
  exact ofUtf8_eq_some.mp htext

theorem reached_apart {x : String × Option String × Option Bytes}
    (h : x ∈ ((reached rt limits disk path bytes).map (textFile rt)).map (·.columns)) :
    x.1 ≠ path := by
  obtain ⟨y, hy, rfl⟩ := mem_columns.mp h
  obtain ⟨f, hf, rfl⟩ := List.mem_map.mp hy
  exact path_of_reached hf

/-- A capture of two texts has the same files where the texts are the same and they reach
the same files. -/
theorem sameFiles_text_iff {file₁ file₀ : WorkspaceFile}
    (h₁ : readBytes rt limits path bytes₁ = .ok file₁)
    (h₀ : readBytes rt limits path bytes₀ = .ok file₀) :
    SameFiles (textFile rt file₁ :: (reached rt limits disk₁ path bytes₁).map (textFile rt))
        (textFile rt file₀ :: (reached rt limits disk₀ path bytes₀).map (textFile rt)) ↔
      unmarked bytes₁ = unmarked bytes₀ ∧
        SameReached rt limits path disk₁ disk₀ bytes₁ bytes₀ := by
  have hpath₁ : file₁.path = path := by
    obtain ⟨-, -, text, -, rfl⟩ := readBytes_ok.mp h₁
    rfl
  have hpath₀ : file₀.path = path := by
    obtain ⟨-, -, text, -, rfl⟩ := readBytes_ok.mp h₀
    rfl
  have hkey : (textFile rt file₁).columns.1 = path := hpath₁
  unfold SameFiles
  simp only [List.map_cons]
  rw [@same_cons_iff _ _ Prod.fst _ _ _ _ (hpath₁.trans hpath₀.symm)
    (fun x hx => hkey ▸ reached_apart hx) (fun x hx => hkey ▸ reached_apart hx), sameReached_iff]
  refine and_congr_left fun _ => ?_
  rw [← utf8_content h₁, ← utf8_content h₀, text_columns, text_columns, hpath₁, hpath₀]
  simp only [Prod.mk.injEq, Option.some.injEq, true_and, and_true]
  exact ⟨fun h => h ▸ rfl, utf8_injective⟩

/-- Text is never stored as bytes are. -/
theorem not_same_columns {main blob : CapturedShareFile} {others : List CapturedShareFile}
    (htext : main.contentText.isSome) (hblob : blob.contentText = none) :
    ¬ SameFiles (main :: others) [blob] := by
  intro h
  have hmem := (h main.columns).mp (List.mem_map_of_mem List.mem_cons_self)
  rw [List.map_singleton, List.mem_singleton] at hmem
  have hcolumn : main.contentText = blob.contentText := congrArg (·.2.1) hmem
  rw [hcolumn, hblob] at htext
  cases htext

theorem SameFiles.symm {a b : List CapturedShareFile} (h : SameFiles a b) : SameFiles b a :=
  fun x => (h x).symm

/-- A second capture of the workspace has the same files where the shared file is the same
but for marks and reaches the same files. -/
theorem sameFiles_workspace_iff (hbytes₁ : regularFile rt disk₁ path = .ok bytes₁)
    (hbytes₀ : regularFile rt disk₀ path = .ok bytes₀)
    (h₀ : workspaceCapture rt limits disk₀ path bytes₀ = .ok files₀) :
    (∃ files₁, workspaceCapture rt limits disk₁ path bytes₁ = .ok files₁ ∧
        SameFiles files₁ files₀) ↔
      SameText rt limits path bytes₁ bytes₀ ∧
        SameReached rt limits path disk₁ disk₀ bytes₁ bytes₀ := by
  have hfiles₀ := (workspaceCapture_ok hbytes₀).mp h₀
  simp only [workspaceCapture_ok hbytes₁]
  by_cases hedit₁ : editable rt limits path bytes₁.length = true <;>
    by_cases hedit₀ : editable rt limits path bytes₀.length = true
  · rw [if_pos hedit₀] at hfiles₀
    obtain ⟨file₀, hfile₀, rfl⟩ := hfiles₀
    simp only [if_pos hedit₁]
    constructor
    · rintro ⟨_, ⟨file₁, hfile₁, rfl⟩, hsame⟩
      obtain ⟨htext, hreached⟩ := (sameFiles_text_iff hfile₁ hfile₀).mp hsame
      exact ⟨.inr ⟨hedit₁, hedit₀, htext⟩, hreached⟩
    · rintro ⟨htext, hreached⟩
      obtain ⟨file₁, hfile₁, -, -⟩ := htext.read_again hfile₀
      refine ⟨_, ⟨file₁, hfile₁, rfl⟩, (sameFiles_text_iff hfile₁ hfile₀).mpr ⟨?_, hreached⟩⟩
      rcases htext with rfl | ⟨-, -, hunmarked⟩
      · rfl
      · exact hunmarked
  · rw [if_neg hedit₀] at hfiles₀
    subst hfiles₀
    simp only [if_pos hedit₁]
    refine iff_of_false ?_ ?_
    · rintro ⟨_, ⟨file₁, -, rfl⟩, hsame⟩
      exact not_same_columns rfl rfl hsame
    · rintro ⟨rfl | ⟨-, hedit, -⟩, -⟩
      · exact hedit₀ hedit₁
      · exact hedit₀ hedit
  · rw [if_pos hedit₀] at hfiles₀
    obtain ⟨file₀, -, rfl⟩ := hfiles₀
    simp only [if_neg hedit₁]
    refine iff_of_false ?_ ?_
    · rintro ⟨_, rfl, hsame⟩
      exact not_same_columns rfl rfl hsame.symm
    · rintro ⟨rfl | ⟨hedit, -, -⟩, -⟩
      · exact hedit₁ hedit₀
      · exact hedit₁ hedit
  · rw [if_neg hedit₀] at hfiles₀
    subst hfiles₀
    simp only [if_neg hedit₁]
    have hreached : SameReached rt limits path disk₁ disk₀ bytes₁ bytes₀ := by
      intro x
      rw [reached, reached, if_neg hedit₁, if_neg hedit₀]
    constructor
    · rintro ⟨_, rfl, hsame⟩
      have hmem := (hsame (path, none, some bytes₁)).mp (by simp [CapturedShareFile.columns])
      simp only [CapturedShareFile.columns, List.map_cons, List.map_nil, List.mem_singleton,
        Prod.mk.injEq, Option.some.injEq, true_and] at hmem
      exact ⟨.inl hmem, hreached⟩
    · rintro ⟨rfl | ⟨hedit, -, -⟩, -⟩
      · exact ⟨_, rfl, fun _ => Iff.rfl⟩
      · exact absurd hedit hedit₁

theorem captureWorkspace_allowed {raw : String} {snapshot : CapturedSnapshot}
    (h : captureWorkspaceSnapshot rt limits disk raw = .ok snapshot) :
    ¬ (cleanTarget raw = "" ∨ isMemoryDocument (cleanTarget raw) = true ∨
        protectedPath rt (cleanTarget raw) = true) := by
  unfold captureWorkspaceSnapshot at h
  exact (guard_ok h).1

/-- A path that may be shared is captured with its files where they fit. -/
theorem captureWorkspace_of {raw : String} (hallowed : ¬ (cleanTarget raw = "" ∨
      isMemoryDocument (cleanTarget raw) = true ∨ protectedPath rt (cleanTarget raw) = true))
    (hbytes : download rt limits disk (cleanTarget raw) = .ok bytes)
    (hfiles : workspaceCapture rt limits disk (cleanTarget raw) bytes = .ok files)
    (hfits : (files.map (·.sizeBytes)).sum ≤ limits.maxDownloadBytes) :
    ∃ snapshot, captureWorkspaceSnapshot rt limits disk raw = .ok snapshot ∧
      snapshot.files = files := by
  unfold captureWorkspaceSnapshot
  dsimp only
  rw [if_neg hallowed, Workspace.metadata, hbytes, ok_bind, ok_bind, ok_bind]
  unfold workspaceCapture at hfiles
  by_cases hedit : editable rt limits (cleanTarget raw) bytes.length = true
  · rw [if_pos hedit] at hfiles ⊢
    obtain ⟨file, hfile, hfiles⟩ := except_bind_ok hfiles
    obtain rfl := Except.ok.inj hfiles
    rw [hfile, ok_bind, ok_bind, if_neg (Nat.not_lt.mpr hfits)]
    exact ⟨_, rfl, rfl⟩
  · rw [if_neg hedit] at hfiles ⊢
    obtain rfl := Except.ok.inj hfiles
    rw [ok_bind, if_neg (Nat.not_lt.mpr hfits)]
    exact ⟨_, rfl, rfl⟩

theorem includedFiles_nodup (allowed : Nat) (visited : List String) (queue : List IncludeRef) :
    ((includedFiles rt limits disk allowed visited queue).map (·.path)).Nodup := by
  induction allowed generalizing visited queue with
  | zero => exact List.nodup_nil
  | succ allowed ih =>
      rw [includedFiles]
      split
      · exact List.nodup_nil
      · rename_i incFile rest hnext
        refine List.nodup_cons.mpr ⟨fun hmem => ?_, ih _ _⟩
        obtain ⟨file, hfile, hpath⟩ := List.mem_map.mp hmem
        refine (mem_includedFiles hfile).1 (List.mem_append_right _ ?_)
        rw [hpath]
        exact List.mem_singleton_self _

theorem workspaceCapture_nodup (h : workspaceCapture rt limits disk path bytes = .ok files) :
    (files.map (·.path)).Nodup := by
  unfold workspaceCapture at h
  split_ifs at h
  · obtain ⟨file, -, h⟩ := except_bind_ok h
    rw [← Except.ok.inj h, List.map_map]
    have hpaths : (fun f : CapturedShareFile => f.path) ∘ textFile rt = fun f => f.path := rfl
    rw [hpaths, workspaceFiles]
    split_ifs
    · refine List.nodup_cons.mpr ⟨fun hmem => ?_, includedFiles_nodup _ _ _⟩
      obtain ⟨included, hincluded, hpath⟩ := List.mem_map.mp hmem
      exact (mem_includedFiles hincluded).1 (hpath ▸ List.mem_singleton_self _)
    · exact List.nodup_singleton _
  · rw [← Except.ok.inj h]
    exact List.nodup_singleton _

/-- A workspace path captured before is captured again with the same files where the shared
file is the same but for marks, reaches the same files, and these fit. -/
theorem recapture_workspace_iff {raw : String} {snapshot₀ : CapturedSnapshot}
    (h₀ : captureWorkspaceSnapshot rt limits disk₀ raw = .ok snapshot₀)
    (hbytes₀ : download rt limits disk₀ (cleanTarget raw) = .ok bytes₀) :
    (∃ snapshot, captureWorkspaceSnapshot rt limits disk₁ raw = .ok snapshot ∧
        (snapshot.files.map (·.path)).Nodup ∧ SameFiles snapshot.files snapshot₀.files) ↔
      ∃ bytes, download rt limits disk₁ (cleanTarget raw) = .ok bytes ∧
        SameText rt limits (cleanTarget raw) bytes bytes₀ ∧
        SameReached rt limits (cleanTarget raw) disk₁ disk₀ bytes bytes₀ ∧
        Fits rt limits disk₁ (cleanTarget raw) bytes := by
  obtain ⟨bytes, hbytes, hfiles₀, -⟩ := captureWorkspace_ok h₀
  obtain rfl := Except.ok.inj (hbytes.symm.trans hbytes₀)
  have hregular₀ := (download_ok hbytes).1
  constructor
  · rintro ⟨snapshot, h, -, hsame⟩
    obtain ⟨bytes₁, hbytes₁, hfiles, htotal, -⟩ := captureWorkspace_ok h
    have hregular₁ := (download_ok hbytes₁).1
    obtain ⟨htext, hreached⟩ :=
      (sameFiles_workspace_iff hregular₁ hregular₀ hfiles₀).mp ⟨_, hfiles, hsame⟩
    refine ⟨bytes₁, hbytes₁, htext, hreached, ?_⟩
    rw [Fits, ← workspaceCapture_total hregular₁ hfiles]
    exact htotal
  · rintro ⟨bytes₁, hbytes₁, htext, hreached, hfits⟩
    have hregular₁ := (download_ok hbytes₁).1
    obtain ⟨files, hfiles, hsame⟩ :=
      (sameFiles_workspace_iff hregular₁ hregular₀ hfiles₀).mpr ⟨htext, hreached⟩
    rw [Fits, ← workspaceCapture_total hregular₁ hfiles] at hfits
    obtain ⟨snapshot, hsnapshot, rfl⟩ :=
      captureWorkspace_of (captureWorkspace_allowed h₀) hbytes₁ hfiles hfits
    exact ⟨snapshot, hsnapshot, workspaceCapture_nodup hfiles, hsame⟩

end Workspaces

/-! ## Packages -/

section Packages

variable {rt : Runtime} {limits : Limits} {services : Services} {w w₁ w₀ : World}
  {kind : ShareKind} {target : String} {files files₁ files₀ : List PackageFile}

/-- One path, with the same bytes or with texts that are the same without a mark. -/
def MarkOnly (limits : Limits) (a b : PackageFile) : Prop :=
  a.path = b.path ∧ (a.data = b.data ∨ (editableText limits a.data).isSome ∧
    (editableText limits b.data).isSome ∧ unmarked a.data = unmarked b.data)

/-- The same files in any order, but for the marks of texts. -/
def SameButMarks (limits : Limits) (files₁ files₀ : List PackageFile) : Prop :=
  (∀ a ∈ files₁, ∃ b ∈ files₀, MarkOnly limits a b) ∧
    ∀ b ∈ files₀, ∃ a ∈ files₁, MarkOnly limits a b

theorem editableText_some {data : Bytes} {text : String}
    (h : editableText limits data = some text) :
    utf8 text = unmarked data := by
  unfold editableText at h
  split_ifs at h
  exact ofUtf8_eq_some.mp h

theorem package_columns (f : PackageFile) : (packageFile rt limits f).columns =
    (f.path, editableText limits f.data,
      if (editableText limits f.data).isSome then none else some f.data) := by
  unfold packageFile
  cases editableText limits f.data <;> rfl

/-- Two files are stored alike where they are one file but for a mark. -/
theorem markOnly_iff {a b : PackageFile} :
    MarkOnly limits a b ↔
      (packageFile rt limits a).columns = (packageFile rt limits b).columns := by
  rw [package_columns, package_columns, MarkOnly, Prod.mk.injEq, Prod.mk.injEq]
  refine and_congr_right fun _ => ?_
  cases ha : editableText limits a.data with
  | none =>
      cases hb : editableText limits b.data with
      | none => simp
      | some text =>
          have hne : a.data ≠ b.data := by
            intro he
            rw [he, hb] at ha
            cases ha
          simp [hne]
  | some text =>
      cases hb : editableText limits b.data with
      | none =>
          have hne : a.data ≠ b.data := by
            intro he
            rw [he, hb] at ha
            cases ha
          simp [hne]
      | some other =>
          simp only [Option.isSome_some, true_and, Option.some.injEq, if_true, and_true]
          rw [← editableText_some ha, ← editableText_some hb]
          constructor
          · rintro (he | he)
            · rw [he, hb] at ha
              exact (Option.some.inj ha).symm
            · exact utf8_injective he
          · rintro rfl
            exact .inr rfl

theorem sameFiles_package_iff :
    SameFiles (files₁.map (packageFile rt limits)) (files₀.map (packageFile rt limits)) ↔
      SameButMarks limits files₁ files₀ := by
  simp only [SameFiles, SameButMarks, @markOnly_iff rt, List.map_map, List.mem_map,
    Function.comp_apply]
  constructor
  · intro h
    constructor
    · intro a ha
      obtain ⟨b, hb, he⟩ := (h _).mp ⟨a, ha, rfl⟩
      exact ⟨b, hb, he.symm⟩
    · intro b hb
      exact (h _).mpr ⟨b, hb, rfl⟩
  · rintro ⟨hforth, hback⟩ x
    constructor
    · rintro ⟨a, ha, rfl⟩
      obtain ⟨b, hb, he⟩ := hforth a ha
      exact ⟨b, hb, he.symm⟩
    · rintro ⟨b, hb, rfl⟩
      exact hback b hb

theorem addBytes_of {what : String} {totalBytes : Nat} {data : Bytes}
    (h : totalBytes + data.length ≤ limits.maxDownloadBytes) :
    addBytes limits what totalBytes data = .ok (totalBytes + data.length) :=
  if_neg (Nat.not_lt.mpr h)

/-- The files of a skill are read where they fit. -/
theorem readSkillFiles_iff {id what : String} {totalBytes start : Nat} {paths : List String}
    (htotal : totalBytes ≤ limits.maxDownloadBytes) :
    readSkillFiles w (addBytes limits what) id totalBytes paths = .ok files ↔
      readSkillFiles w (fun n _ => .ok n) id start paths = .ok files ∧
        totalBytes + (files.map (·.data.length)).sum ≤ limits.maxDownloadBytes := by
  constructor
  · intro h
    refine ⟨readSkillFiles_fit h, ?_⟩
    induction paths generalizing totalBytes files with
    | nil =>
        cases h
        exact htotal
    | cons path rest ih =>
        rw [readSkillFiles] at h
        obtain ⟨bytes, -, h⟩ := except_bind_ok h
        obtain ⟨total, htotal, h⟩ := except_bind_ok h
        obtain ⟨rfl, hle⟩ := addBytes_ok htotal
        obtain ⟨more, hmore, h⟩ := except_bind_ok h
        have hsum := ih hle hmore
        rw [← Except.ok.inj h, List.map_cons, List.sum_cons, ← Nat.add_assoc]
        exact hsum
  · rintro ⟨h, hsum⟩
    induction paths generalizing totalBytes files with
    | nil => exact h
    | cons path rest ih =>
        rw [readSkillFiles] at h ⊢
        obtain ⟨bytes, hbytes, h⟩ := except_bind_ok h
        rw [ok_bind] at h
        obtain ⟨more, hmore, h⟩ := except_bind_ok h
        obtain rfl := Except.ok.inj h
        rw [List.map_cons, List.sum_cons, ← Nat.add_assoc] at hsum
        have hle : totalBytes + bytes.length ≤ limits.maxDownloadBytes :=
          (Nat.le_add_right _ _).trans hsum
        rw [hbytes, ok_bind, addBytes_of hle, ok_bind, ih hle hmore hsum]
        rfl

theorem checkTotal_iff {what : String} {totalBytes : Nat}
    (htotal : totalBytes ≤ limits.maxDownloadBytes) :
    checkTotal limits what totalBytes files = .ok () ↔
      totalBytes + (files.map (·.data.length)).sum ≤ limits.maxDownloadBytes := by
  induction files generalizing totalBytes with
  | nil => simpa [checkTotal] using htotal
  | cons file rest ih =>
      rw [checkTotal, List.map_cons, List.sum_cons, ← Nat.add_assoc]
      by_cases hle : totalBytes + file.data.length ≤ limits.maxDownloadBytes
      · rw [addBytes_of hle, ok_bind]
        exact ih hle
      · rw [addBytes, if_pos (Nat.lt_of_not_le hle), error_bind]
        simp only [reduceCtorEq, false_iff]
        omega

/-! ## Names of packages -/

theorem mem_of_mem_trim {s : String} {c : Char} (h : c ∈ (trim s).toList) : c ∈ s.toList := by
  rw [trim, String.toList_ofList, List.mem_reverse] at h
  have hstart := (List.dropWhile_suffix _).subset h
  rw [List.mem_reverse] at hstart
  exact (List.dropWhile_suffix _).subset hstart

theorem replaceAll_of_not_mem {s : String} {old new : Char} (h : old ∉ s.toList) :
    replaceAll s old new = s := by
  have hmap : (s.toList.map fun c => if c = old then new else c) = s.toList := by
    conv_rhs => rw [← List.map_id s.toList]
    refine List.map_congr_left fun c hc => if_neg ?_
    rintro rfl
    exact h hc
  rw [replaceAll, hmap, String.ofList_toList]

theorem not_mem_replaceAll {s : String} {old new : Char} (h : new ≠ old) :
    old ∉ (replaceAll s old new).toList := by
  rw [replaceAll, String.toList_ofList, List.mem_map]
  rintro ⟨c, -, hc⟩
  by_cases hold : c = old
  · rw [if_pos hold] at hc
    exact h hc
  · rw [if_neg hold] at hc
    exact hold hc

theorem validateSkillId_again {raw id : String} (h : validateSkillId raw = .ok id) :
    validateSkillId id = .ok id := by
  unfold validateSkillId at h
  obtain ⟨-, h⟩ := guard_ok h
  dsimp only at h
  obtain ⟨hparts, h⟩ := guard_ok h
  obtain rfl := Except.ok.inj h
  have hclean : '\\' ∉ (trim (replaceAll raw '\\' '/')).toList :=
    fun hmem => not_mem_replaceAll (by decide) (mem_of_mem_trim hmem)
  have hnonempty : trim (replaceAll raw '\\' '/') ≠ "" := by
    intro hempty
    rw [hempty] at hparts
    exact hparts (.inr (by decide))
  unfold validateSkillId
  dsimp only
  rw [replaceAll_of_not_mem hclean, trim_trim, if_neg hnonempty, if_neg hparts]

theorem validateFeatureId_again {raw id : String} (h : validateFeatureId raw = .ok id) :
    validateFeatureId id = .ok id := by
  unfold validateFeatureId at h
  obtain ⟨hnonempty, h⟩ := guard_ok h
  split_ifs at h with hid
  obtain rfl := Except.ok.inj h
  unfold validateFeatureId
  rw [trim_trim, if_neg hnonempty, if_pos hid]

/-- A target path as a share keeps it. -/
def ValidTarget : ShareKind → String → Prop
  | .workspace, target => cleanTarget target = target
  | .skill, target => validateSkillId target = .ok target
  | .feature, target => validateFeatureId target = .ok target

/-- The target of a captured package is valid. -/
theorem capture_target {snapshot : CapturedSnapshot} {raw : String} (hkind : kind ≠ .workspace)
    (h : capture rt limits services w kind raw = .ok snapshot) :
    ValidTarget kind snapshot.targetPath := by
  cases kind with
  | workspace => exact absurd rfl hkind
  | skill =>
      unfold capture captureSkillSnapshot at h
      obtain ⟨skillId, hid, h⟩ := except_bind_ok h
      obtain ⟨skill, -, h⟩ := except_bind_ok h
      obtain ⟨files, -, h⟩ := except_bind_ok h
      rw [← Except.ok.inj h]
      exact validateSkillId_again hid
  | feature =>
      unfold capture captureFeatureSnapshot at h
      obtain ⟨featureId, hid, h⟩ := except_bind_ok h
      obtain ⟨captured, -, h⟩ := except_bind_ok h
      obtain ⟨-, -, h⟩ := except_bind_ok h
      rw [← Except.ok.inj h]
      exact validateFeatureId_again hid

theorem capture_valid {snapshot : CapturedSnapshot} (hkind : kind ≠ .workspace)
    (htarget : ValidTarget kind target)
    (h : capture rt limits services w kind target = .ok snapshot) :
    snapshot.targetPath = target := by
  cases kind with
  | workspace => exact absurd rfl hkind
  | skill =>
      have hvalid : validateSkillId target = .ok target := htarget
      unfold capture captureSkillSnapshot at h
      rw [hvalid, ok_bind] at h
      obtain ⟨skill, -, h⟩ := except_bind_ok h
      obtain ⟨files, -, h⟩ := except_bind_ok h
      rw [← Except.ok.inj h]
      rfl
  | feature =>
      have hvalid : validateFeatureId target = .ok target := htarget
      unfold capture captureFeatureSnapshot at h
      rw [hvalid, ok_bind] at h
      obtain ⟨captured, -, h⟩ := except_bind_ok h
      obtain ⟨-, -, h⟩ := except_bind_ok h
      rw [← Except.ok.inj h]
      rfl

/-- A valid package is captured with the files that are read, where they fit. -/
theorem capturePackage_iff (hkind : kind ≠ .workspace) (htarget : ValidTarget kind target)
    {P : List CapturedShareFile → Prop} :
    (∃ snapshot, capture rt limits services w kind target = .ok snapshot ∧ P snapshot.files) ↔
      ∃ files, packageFiles rt services w kind target = .ok files ∧
        (files.map (·.data.length)).sum ≤ limits.maxDownloadBytes ∧
        P (files.map (packageFile rt limits)) := by
  cases kind with
  | workspace => exact absurd rfl hkind
  | skill =>
      have hvalid : validateSkillId target = .ok target := htarget
      rw [packageFiles]
      unfold capture captureSkillSnapshot
      rw [hvalid, ok_bind]
      cases services.skillDetail w target with
      | error e => simp [error_bind]
      | ok skill =>
          simp only [ok_bind]
          have hskill := fun files => @readSkillFiles_iff limits w files target "skill" 0 0
            (sortedFiles rt skill) (Nat.zero_le _)
          simp only [Nat.zero_add] at hskill
          constructor
          · rintro ⟨snapshot, h, hP⟩
            obtain ⟨files, hfiles, h⟩ := except_bind_ok h
            have hread := (hskill files).mp hfiles
            rw [← Except.ok.inj h] at hP
            exact ⟨files, hread.1, hread.2, hP⟩
          · rintro ⟨files, hread, hsum, hP⟩
            rw [(hskill files).mpr ⟨hread, hsum⟩, ok_bind]
            exact ⟨_, rfl, hP⟩
  | feature =>
      have hvalid : validateFeatureId target = .ok target := htarget
      rw [packageFiles]
      unfold capture captureFeatureSnapshot
      rw [hvalid, ok_bind]
      cases services.captureFeatureFiles w target with
      | error e => simp [error_bind]
      | ok captured =>
          simp only [ok_bind, Except.ok.injEq, exists_eq_left']
          have htotal := @checkTotal_iff limits captured.files "feature" 0 (Nat.zero_le _)
          rw [Nat.zero_add] at htotal
          constructor
          · rintro ⟨snapshot, h, hP⟩
            obtain ⟨_, hcheck, h⟩ := except_bind_ok h
            rw [← Except.ok.inj h] at hP
            exact ⟨htotal.mp hcheck, hP⟩
          · rintro ⟨hsum, hP⟩
            rw [htotal.mpr hsum, ok_bind]
            exact ⟨_, rfl, hP⟩

/-- The revision of a package as it is now. -/
theorem currentRevision_package (hkind : kind ≠ .workspace) (htarget : ValidTarget kind target)
    (revision : String) :
    currentRevision rt limits services w kind target = some revision ↔
      ∃ files, packageFiles rt services w kind target = .ok files ∧
        compositeRevision rt files = revision := by
  cases kind with
  | workspace => exact absurd rfl hkind
  | skill =>
      have hvalid : validateSkillId target = .ok target := htarget
      rw [currentRevision, computeLiveSkillRevision, packageFiles, hvalid, ok_bind]
      split
      · rename_i files hfiles
        simp [hfiles]
      · rename_i e he
        simp [he]
  | feature =>
      have hvalid : validateFeatureId target = .ok target := htarget
      rw [currentRevision, computeLiveFeatureRevision, packageFiles, hvalid, ok_bind]
      cases services.captureFeatureFiles w target with
      | error e => simp [error_bind]
      | ok captured => simp [ok_bind]

end Packages

end Openlia.Shares

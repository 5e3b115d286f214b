import Mathlib.Data.List.DropRight
import Openlia.Shares.Captured
import Openlia.Shares.Stored

/-! # What a share serves

A stored file is served with the bytes that it had when it was captured, with two
exceptions: text loses a byte-order mark, and a path with white space around it cannot be
asked for.
-/

namespace Openlia.Shares

open Lib Workspace
open Browser (trim isSpace)

/-! ## Sources -/

section Sources

variable (rt : Runtime) (limits : Limits) (services : Services) (w : World)

/-- The bytes of the source of a captured file. -/
def sourceBytes (kind : ShareKind) (target path : String) : Option Bytes :=
  match kind with
  | .workspace => fileBytes w.workspace path
  | kind =>
      match packageFiles rt services w kind target with
      | .ok files => (files.find? (·.path = path)).map (·.data)
      | .error _ => none

/-- A capture of these bytes is text. -/
def storedAsText (kind : ShareKind) (target path : String) (bytes : Bytes) : Bool :=
  match kind with
  | .workspace => path ≠ target || editable rt limits path bytes.length
  | _ => (editableText limits bytes).isSome

/-- A captured file of these bytes. -/
structure CapturedShareFile.Holds (file : CapturedShareFile) (bytes : Bytes) (asText : Bool) :
    Prop where
  size : file.sizeBytes = bytes.length
  text : asText = true → file.contentBlob = none ∧
    ∃ text, decodeFatal bytes = some text ∧ file.contentText = some text
  blob : asText = false → file.contentText = none ∧ file.contentBlob = some bytes

end Sources

section Capturing

variable {rt : Runtime} {limits : Limits} {services : Services} {w : World}
  {snapshot : CapturedSnapshot} {file : CapturedShareFile}

theorem textFile_holds {disk : Disk} {path : String} {found : WorkspaceFile}
    (h : read rt limits disk path = .ok found) :
    ∃ bytes, fileBytes disk path = some bytes ∧ (textFile rt found).path = path ∧
      (textFile rt found).Holds bytes true := by
  obtain ⟨bytes, hbytes, hpath, hsize, _, htext⟩ := read_ok h
  refine ⟨bytes, regularFile_bytes hbytes, hpath, ⟨hsize, ?_, ?_⟩⟩
  · exact fun _ => ⟨rfl, _, htext, rfl⟩
  · exact fun h => nomatch h

theorem packageFile_holds (file : PackageFile) :
    (packageFile rt limits file).path = file.path ∧
      (packageFile rt limits file).Holds file.data (editableText limits file.data).isSome := by
  unfold packageFile
  cases htext : editableText limits file.data with
  | none => exact ⟨rfl, rfl, (nomatch ·), fun _ => ⟨rfl, rfl⟩⟩
  | some text =>
      refine ⟨rfl, rfl, fun _ => ⟨rfl, text, ?_, rfl⟩, (nomatch ·)⟩
      unfold editableText at htext
      split_ifs at htext
      exact htext

theorem workspace_holds {disk : Disk} {target : String} {bytes : Bytes}
    {files : List CapturedShareFile} (hbytes : download rt limits disk target = .ok bytes)
    (h : workspaceCapture rt limits disk target bytes = .ok files) (hfile : file ∈ files) :
    ∃ data, fileBytes disk file.path = some data ∧
      file.Holds data (file.path ≠ target || editable rt limits file.path data.length) := by
  have hregular := regularFile_bytes (download_ok hbytes).1
  unfold workspaceCapture at h
  by_cases hedit : editable rt limits target bytes.length = true
  · rw [if_pos hedit] at h
    obtain ⟨main, hmain, h⟩ := except_bind_ok h
    rw [← Except.ok.inj h] at hfile
    obtain ⟨found, hfound, rfl⟩ := List.mem_map.mp hfile
    have hread := mem_workspaceFiles hmain hfound
    obtain ⟨data, hdata, hpath, hholds⟩ := textFile_holds hread
    refine ⟨data, hdata, ?_⟩
    have hastext : ((textFile rt found).path ≠ target ||
        editable rt limits (textFile rt found).path data.length) = true := by
      by_cases htarget : (textFile rt found).path = target
      · rw [hpath] at htarget
        rw [htarget, hregular] at hdata
        rw [hpath, htarget, ← Option.some.inj hdata, hedit, Bool.or_true]
      · simp [htarget]
    rw [hastext]
    exact hholds
  · rw [if_neg hedit] at h
    rw [← Except.ok.inj h, List.mem_singleton] at hfile
    subst hfile
    refine ⟨bytes, hregular, rfl, fun h => ?_, fun _ => ⟨rfl, rfl⟩⟩
    simp [hedit] at h

/-- Every captured file has the bytes of its source. -/
theorem captured_holds {kind : ShareKind} {target : String}
    (h : capture rt limits services w kind target = .ok snapshot)
    (hnodup : (snapshot.files.map (·.path)).Nodup) (hfile : file ∈ snapshot.files) :
    ∃ bytes, sourceBytes rt services w snapshot.kind snapshot.targetPath file.path = some bytes ∧
      file.Holds bytes
        (storedAsText rt limits snapshot.kind snapshot.targetPath file.path bytes) := by
  by_cases hkind : kind = .workspace
  · subst hkind
    rw [capture] at h
    obtain ⟨bytes, hbytes, hfiles, -, hkind, htarget, -⟩ := captureWorkspace_ok h
    have hholds := workspace_holds hbytes hfiles hfile
    rw [hkind, htarget]
    simpa only [sourceBytes, storedAsText] using hholds
  · obtain ⟨hsame, files, hpackage, -, hfiles⟩ := capturePackage_ok hkind h
    rw [hfiles] at hnodup hfile
    obtain ⟨source, hsource, rfl⟩ := List.mem_map.mp hfile
    obtain ⟨hpath, hholds⟩ := @packageFile_holds rt limits source
    have hpaths : (files.map (packageFile rt limits)).map (·.path) = files.map (·.path) := by
      rw [List.map_map]
      exact List.map_congr_left fun f _ => (@packageFile_holds rt limits f).1
    have hfind : files.find? (·.path = source.path) = some source := by
      rw [hpaths] at hnodup
      exact Table.get_of_mem (t := ⟨files, hnodup⟩) hsource
    refine ⟨source.data, ?_, ?_⟩
    · rw [hsame, hpath]
      cases kind with
      | workspace => exact absurd rfl hkind
      | _ => simp only [sourceBytes, hpackage, hfind, Option.map_some]
    · rw [hsame]
      cases kind with
      | workspace => exact absurd rfl hkind
      | _ => exact hholds

/-! ## Bytes of a stored file -/

theorem unmarked_eq_self {bytes : Bytes} : unmarked bytes = bytes ↔ ¬ byteOrderMark <+: bytes := by
  unfold unmarked
  by_cases hmark : byteOrderMark <+: bytes
  · rw [if_pos (List.isPrefixOf_iff_prefix.mpr hmark)]
    refine iff_of_false (fun h => ?_) (fun h => h hmark)
    have hlength := congrArg List.length h
    have hthree := hmark.length_le
    rw [List.length_drop] at hlength
    simp only [byteOrderMark, List.length_cons, List.length_nil] at hthree
    omega
  · rw [if_neg fun h => hmark (List.isPrefixOf_iff_prefix.mp h)]
    exact iff_of_true rfl hmark

/-- A stored file is served without a change where it is no text that begins with a mark. -/
theorem served_iff {shareId : String} {bytes : Bytes} {asText : Bool}
    (h : file.Holds bytes asText) :
    (fileRow shareId file).served.bytes = bytes ↔ ¬ (asText = true ∧ byteOrderMark <+: bytes) := by
  cases asText with
  | false =>
      obtain ⟨htext, hblob⟩ := h.blob rfl
      simp [ShareFileRow.served, fileRow, hblob]
  | true =>
      obtain ⟨hblob, text, hdecode, htext⟩ := h.text rfl
      have hutf8 : utf8 text = unmarked bytes := ofUtf8_eq_some.mp hdecode
      simp only [ShareFileRow.served, fileRow, hblob, htext, Option.getD_some, hutf8, true_and]
      exact unmarked_eq_self

theorem text_unaltered {shareId text : String} {bytes : Bytes} {asText : Bool}
    (h : file.Holds bytes asText) (htext : (fileRow shareId file).content_text = some text)
    (hserved : (fileRow shareId file).served.bytes = bytes) : utf8 text = bytes := by
  cases asText with
  | false =>
      rw [fileRow, (h.blob rfl).1] at htext
      cases htext
  | true =>
      rw [← hserved]
      rw [fileRow] at htext
      simp [ShareFileRow.served, fileRow, (h.text rfl).1, htext]

end Capturing

/-! ## Requests for a file -/

/-- A path that a request can name, the path of the share itself, or the first one. -/
def Requestable (paths : List String) (target path : String) : Prop :=
  path ≠ "" ∧ trim path = path ∨ path = target ∨
    target ∉ paths ∧ ∀ other ∈ paths, (compare (utf8 path) (utf8 other)).isLE

instance (paths : List String) (target path : String) :
    Decidable (Requestable paths target path) :=
  inferInstanceAs (Decidable (_ ∨ _ ∨ _))

theorem dropWhile_of_prefix {α : Type} {p : α → Bool} {l m : List α} (h : m <+: l.dropWhile p) :
    m.dropWhile p = m := by
  cases m with
  | nil => rfl
  | cons a m =>
      obtain ⟨rest, hrest⟩ := h
      have hhead := List.head?_dropWhile_not p l
      rw [← hrest] at hhead
      exact List.dropWhile_cons_of_neg (Bool.eq_false_iff.mp hhead)

theorem trim_trim (s : String) : trim (trim s) = trim s := by
  unfold trim
  rw [String.toList_ofList]
  have hkept := List.rdropWhile_prefix isSpace (s.toList.dropWhile isSpace)
  have hstart := dropWhile_of_prefix hkept
  rw [List.rdropWhile] at hstart
  rw [hstart, List.reverse_reverse, List.dropWhile_idempotent]

section Requests

variable {s : ShareStore} {row : ShareRow} {f : ShareFileRow}

theorem get_file {id path : String} :
    s.files.get (id, path) = some f ↔ f ∈ s.filesOf id ∧ f.path = path := by
  rw [Table.get_eq_some_iff, ShareStore.mem_filesOf, Prod.mk.injEq, and_assoc]

/-- The order of the paths. -/
def pathLE (a b : ShareFileRow) : Bool := (compare (utf8 a.path) (utf8 b.path)).isLE

theorem sorted_files (files : List ShareFileRow) :
    (files.mergeSort pathLE).Pairwise fun a b => pathLE a b := by
  refine List.pairwise_mergeSort ?_ ?_ files
  · exact fun a b c hab hbc => Std.TransCmp.isLE_trans hab hbc
  · intro a b
    by_cases hab : pathLE a b = true
    · simp [hab]
    · have hba : pathLE b a = true :=
        Ordering.isLE_of_eq_lt (Std.OrientedCmp.lt_of_not_isLE hab)
      simp [hba]

/-- The first file has the least path. -/
theorem first_iff {files : List ShareFileRow}
    (hunique : ∀ a ∈ files, ∀ b ∈ files, a.path = b.path → a = b) :
    (files.mergeSort pathLE).head? = some f ↔ f ∈ files ∧ ∀ g ∈ files, pathLE f g := by
  have hsorted := sorted_files files
  cases hsort : files.mergeSort pathLE with
  | nil =>
      have hperm := List.mergeSort_perm files pathLE
      rw [hsort] at hperm
      simp [hperm.symm.eq_nil]
  | cons first rest =>
      rw [hsort, List.pairwise_cons] at hsorted
      have hmem : ∀ g, g ∈ files ↔ g = first ∨ g ∈ rest := by
        intro g
        rw [← @List.mem_mergeSort _ pathLE g files, hsort, List.mem_cons]
      have hfirst : ∀ g ∈ files, pathLE first g := by
        intro g hg
        rcases (hmem g).mp hg with rfl | hg
        · simp [pathLE]
        · exact hsorted.1 g hg
      constructor
      · intro h
        obtain rfl := Option.some.inj h
        exact ⟨(hmem _).mpr (.inl rfl), hfirst⟩
      · rintro ⟨hf, hle⟩
        have hfiles := (hmem first).mpr (.inl rfl)
        have heq : compare (utf8 f.path) (utf8 first.path) = .eq :=
          Std.OrientedCmp.isLE_antisymm (hle first hfiles) (hfirst f hf)
        have hpath := utf8_injective (Std.LawfulEqCmp.eq_of_compare heq)
        rw [List.head?_cons, hunique f hf first hfiles hpath]

theorem unique_path {id : String} :
    ∀ a ∈ s.filesOf id, ∀ b ∈ s.filesOf id, a.path = b.path → a = b := by
  intro a ha b hb h
  have hget := get_file.mpr ⟨ha, h⟩
  rw [get_file.mpr ⟨hb, rfl⟩] at hget
  exact (Option.some.inj hget).symm

theorem no_target_iff {id target : String} :
    s.files.get (id, target) = none ↔ target ∉ (s.filesOf id).map (·.path) := by
  rw [Option.eq_none_iff_forall_not_mem]
  simp only [Option.mem_def, get_file, List.mem_map, not_and, not_exists]

/-- A file that a request finds. -/
theorem requestable_of_requested {requestedPath : Option String}
    (h : requestedFile s row requestedPath = some f) :
    Requestable ((s.filesOf row.id).map (·.path)) row.target_path f.path := by
  unfold requestedFile at h
  dsimp only at h
  cases hfilter : (requestedPath.map trim).filter (· ≠ "") with
  | some path =>
      rw [hfilter, Option.getD_some] at h
      obtain ⟨hsome, hpath⟩ := Option.filter_eq_some_iff.mp hfilter
      obtain ⟨asked, rfl, rfl⟩ := Option.map_eq_some_iff.mp hsome
      have hne : asked ≠ "" := by
        rintro rfl
        simp [trim] at hpath
      cases hget : s.files.get (row.id, trim asked) with
      | none => simp [hget, hne] at h
      | some g =>
          rw [hget, Option.some_or] at h
          obtain rfl := Option.some.inj h
          have hg := (get_file.mp hget).2
          rw [hg]
          exact .inl ⟨by simpa using hpath, trim_trim asked⟩
  | none =>
      rw [hfilter, Option.getD_none] at h
      cases hget : s.files.get (row.id, row.target_path) with
      | some g =>
          rw [hget, Option.some_or] at h
          obtain rfl := Option.some.inj h
          exact .inr (.inl (get_file.mp hget).2)
      | none =>
          rw [hget, Option.none_or] at h
          split_ifs at h
          obtain ⟨-, hleast⟩ := (first_iff unique_path).mp h
          exact .inr (.inr ⟨no_target_iff.mp hget, by simpa [pathLE] using hleast⟩)

theorem requested_of_requestable (hf : f ∈ s.filesOf row.id)
    (h : Requestable ((s.filesOf row.id).map (·.path)) row.target_path f.path) :
    ∃ requestedPath, requestedFile s row requestedPath = some f := by
  rcases h with ⟨hne, hpath⟩ | hpath | ⟨hnone, hleast⟩
  · have hget := get_file.mpr ⟨hf, rfl⟩
    exact ⟨some f.path, by simp [requestedFile, Option.filter, hpath, hne, hget]⟩
  · have hget := get_file.mpr ⟨hf, hpath⟩
    exact ⟨none, by simp [requestedFile, hget]⟩
  · have hleast : ∀ g ∈ s.filesOf row.id, pathLE f g := by simpa [pathLE] using hleast
    have hfirst := (first_iff unique_path).mpr ⟨hf, hleast⟩
    refine ⟨none, ?_⟩
    simp only [requestedFile, Option.map_none, Option.filter_none, Option.getD_none,
      no_target_iff.mpr hnone, Option.none_or, Option.any_none]
    exact hfirst

end Requests

/-! ## Shares of a run -/

section Serving

variable {rt : Runtime} {limits : Limits} {services : Services} {lookups : LookupLimits}
  {w : World} {nowMs time : Nat} {id shareId clientKey : String} {request : ShareCreateRequest}
  {summary : ShareSummary} {row : ShareRow} {s s' s'' looked : ShareStore}

/-- A lookup finds the share with the files that it captured. -/
theorem lookup_kept {files : List ShareFileRow} {found : ShareRow} (hkept : Kept row files s)
    (hid : trim shareId = row.id)
    (h : lookupActivePublicShareRow lookups shareId clientKey time s = .ok found looked) :
    found.id = row.id ∧ found.target_path = row.target_path ∧ looked.filesOf row.id = files := by
  rcases @lookup_cases lookups clientKey time s shareId with
    ⟨e, s₁, he, -⟩ | ⟨found', s₁, hok, hsame, hget⟩
  · rw [he] at h
    cases h
  · rw [hok] at h
    obtain ⟨rfl, rfl⟩ := EStateM.Result.ok.inj h
    rw [hid] at hget
    have hpruned : Kept row files (pruned time s) := hkept.pruned
    rcases hpruned with hnone | ⟨row', hrow', -, htarget, -, hfiles⟩
    · rw [hnone] at hget
      cases hget
    · obtain rfl := Option.some.inj (hrow'.symm.trans hget)
      refine ⟨Table.key_of_get hget, htarget, ?_⟩
      rw [← hfiles, ShareStore.filesOf, ShareStore.filesOf, hsame.2]

theorem download_found {found : ShareRow} {f : ShareFileRow} {requestedPath : Option String}
    (h : lookupActivePublicShareRow lookups shareId clientKey time s = .ok found looked)
    (hfile : requestedFile looked found requestedPath = some f) :
    getPublicShareBinaryFile lookups shareId requestedPath clientKey time s =
      .ok f.served looked := by
  unfold getPublicShareBinaryFile
  rw [run_bind, h]
  dsimp only
  rw [get_bind, hfile]
  rfl

theorem Stores.nodup {snapshot : CapturedSnapshot} (h : Stores id row snapshot s) :
    (snapshot.files.map (·.path)).Nodup := by
  have hfiles : ((s.filesOf id).map fun f => (f.share_id, f.path)).Nodup :=
    s.files.keys_nodup.sublist (List.filter_sublist.map _)
  rw [h.files, List.map_map] at hfiles
  refine List.Nodup.of_map (fun path => (id, path)) ?_
  rw [List.map_map]
  exact hfiles

theorem Stores.kept {snapshot : CapturedSnapshot} (h : Stores id row snapshot s) :
    Kept row (s.filesOf id) s :=
  .inr ⟨row, h.id_eq ▸ h.get, rfl, rfl, rfl, by rw [h.id_eq]⟩

/-- A share that can be looked up gives every file that it captured with the bytes of its
source exactly where these are no text that begins with a byte-order mark and a request can
name its path. -/
theorem captured_file_served {before later : List (Taken ShareStore ShareOp)}
    (hreach : Run (Serves rt limits services lookups) ShareStore.empty before s)
    (hcreate : createShare rt limits services w nowMs id request s = .ok summary s')
    (hrun : Run (Serves rt limits services lookups) s' later s'')
    (hlater : ∀ x ∈ later, ¬ x.action.Touches id) (hid : trim shareId = id)
    (hlookup : lookupActivePublicShareRow lookups shareId clientKey time s'' = .ok row looked)
    {f : ShareFileRow} (hf : f ∈ s'.filesOf id) :
    ∃ bytes, sourceBytes rt services w summary.row.kind summary.row.target_path f.path =
        some bytes ∧
      ((f.size_bytes = bytes.length ∧ (∀ text, f.content_text = some text → utf8 text = bytes) ∧
          ∃ requestedPath served, requestedFile looked row requestedPath = some f ∧
            getPublicShareBinaryFile lookups shareId requestedPath clientKey time s'' =
              .ok served looked ∧ served.bytes = bytes) ↔
        ¬ (storedAsText rt limits summary.row.kind summary.row.target_path f.path bytes = true ∧
            byteOrderMark <+: bytes) ∧
          Requestable ((s'.filesOf id).map (·.path)) summary.row.target_path f.path) := by
  obtain ⟨kind, target, snapshot, hcapture, hstores⟩ := create_stores (owned_run hreach) hcreate
  have hkept : Kept summary.row (s'.filesOf id) s'' :=
    Preserved.run (fun op hop => kept_preserved summary.row (s'.filesOf id) hop) hstores.kept hrun
      (hstores.id_eq ▸ hlater)
  obtain ⟨hrow, htarget, hfiles⟩ := lookup_kept hkept (hid.trans hstores.id_eq.symm) hlookup
  rw [hstores.id_eq] at hrow hfiles
  have hmem := hf
  rw [hstores.files] at hmem
  obtain ⟨file, hfile, rfl⟩ := List.mem_map.mp hmem
  obtain ⟨bytes, hsource, hholds⟩ := captured_holds hcapture hstores.nodup hfile
  rw [← hstores.kind, ← hstores.target_path] at hsource hholds
  have hlooked : fileRow id file ∈ looked.filesOf row.id := by
    rw [hrow, hfiles]
    exact hf
  have hpaths : Requestable ((looked.filesOf row.id).map (·.path)) row.target_path file.path ↔
      Requestable ((s'.filesOf id).map (·.path)) summary.row.target_path file.path := by
    rw [hrow, hfiles, htarget]
  refine ⟨bytes, hsource, ?_⟩
  constructor
  · rintro ⟨-, -, requestedPath, served, hrequested, hserved, hbytes⟩
    rw [download_found hlookup hrequested] at hserved
    obtain ⟨rfl, -⟩ := EStateM.Result.ok.inj hserved
    exact ⟨(served_iff hholds).mp hbytes, hpaths.mp (requestable_of_requested hrequested)⟩
  · rintro ⟨hmark, hrequestable⟩
    obtain ⟨requestedPath, hrequested⟩ :=
      requested_of_requestable hlooked (hpaths.mpr hrequestable)
    have hbytes : (fileRow id file).served.bytes = bytes := (served_iff hholds).mpr hmark
    exact ⟨hholds.size, fun text htext => text_unaltered hholds htext hbytes, requestedPath, _,
      hrequested, download_found hlookup hrequested, hbytes⟩

end Serving

/-! ## A mark that is lost -/

/-- A workspace of files in its root. -/
def diskOf (files : List (String × Bytes)) : Disk :=
  files.foldl (fun disk file =>
    match disk.put [file.1] (.file (.regular file.2)) with
    | .ok disk => disk
    | .error _ => disk) Tree.empty

/-- No skills and no features. -/
def workspaceOnly (disk : Disk) : World where
  workspace := disk
  skillsRoot := ["skills"]
  skills := ⟨fun _ => false, fun _ => .error "ENOENT", fun _ => .error "ENOENT"⟩
  catalogs := ⟨fun _ => false, fun _ => .error "ENOENT", fun _ => .error "ENOENT"⟩

def noServices : Services where
  skillDetail _ _ := .error (refusal "skill not found" 404 "skill_not_found")
  captureFeatureFiles _ id :=
    .error (refusal ("feature not found or has no domains/skills: " ++ id) 404 "feature_not_found")

/-- What the runtime gives for names and texts of ASCII. -/
def asciiRuntime (sha256 : Bytes → String) : Runtime where
  toLowerCase s := String.ofList (s.toList.map Char.toLower)
  localeCompare a b := compare (utf8 a) (utf8 b)
  sha256 := sha256
  parseYaml _ := none

/-- The result of an action that succeeds. -/
def resultOf {α : Type} (action : ShareAction α) (s : ShareStore) : Option α :=
  match action s with
  | .ok a _ => some a
  | .error _ _ => none

theorem resultOf_some {α : Type} {action : ShareAction α} {s : ShareStore}
    (h : (resultOf action s).isSome) : ∃ a, action s = .ok a (after action s) := by
  unfold resultOf at h
  unfold after
  cases hrun : action s with
  | ok a s' => exact ⟨a, rfl⟩
  | error e s' => simp [hrun] at h

def notesWorld (bytes : Bytes) : World := workspaceOnly (diskOf [("notes.md", bytes)])

def notesRequest : ShareCreateRequest := ⟨some "workspace", some "notes.md", none⟩

/-- The runtime where all that is hashed is an `a`. -/
def plainRuntime : Runtime :=
  asciiRuntime fun _ => "ca978112ca1bbdcafac231b39a23dc4da786eff8147c4e72b9807785afee48bb"

def createPlain : ShareAction ShareSummary :=
  createShare plainRuntime defaultLimits noServices (notesWorld [0x61]) 0 "share" notesRequest

theorem captured_file_served_plain :
    ∃ (summary : ShareSummary) (f : ShareFileRow) (row : ShareRow) (looked : ShareStore)
      (bytes : Bytes),
      f ∈ (after createPlain ShareStore.empty).filesOf "share" ∧
        sourceBytes plainRuntime noServices (notesWorld [0x61]) summary.row.kind
          summary.row.target_path f.path = some bytes ∧
        ((f.size_bytes = bytes.length ∧
            (∀ text, f.content_text = some text → utf8 text = bytes) ∧
            ∃ requestedPath served, requestedFile looked row requestedPath = some f ∧
              getPublicShareBinaryFile defaultLookupLimits "share" requestedPath "client" 1
                (after createPlain ShareStore.empty) = .ok served looked ∧ served.bytes = bytes) ↔
          ¬ (storedAsText plainRuntime defaultLimits summary.row.kind summary.row.target_path f.path
                bytes = true ∧ byteOrderMark <+: bytes) ∧
            Requestable (((after createPlain ShareStore.empty).filesOf "share").map (·.path))
              summary.row.target_path f.path) := by
  obtain ⟨summary, hcreate⟩ := resultOf_some
    (show (resultOf createPlain ShareStore.empty).isSome by decide +kernel)
  obtain ⟨row, hlookup⟩ := resultOf_some
    (show (resultOf (lookupActivePublicShareRow defaultLookupLimits "share" "client" 1)
      (after createPlain ShareStore.empty)).isSome by decide +kernel)
  obtain ⟨f, hf⟩ := List.exists_mem_of_ne_nil ((after createPlain ShareStore.empty).filesOf "share")
    (by decide +kernel)
  rw [createPlain] at hcreate
  obtain ⟨bytes, hsource, hserved⟩ :=
    captured_file_served .start hcreate .start (fun _ hx => nomatch hx) (by decide) hlookup hf
  exact ⟨summary, f, row, _, bytes, hf, hsource, hserved⟩

/-- `a` after a byte-order mark. -/
def markedBytes : Bytes := [0xEF, 0xBB, 0xBF, 0x61]

def markedRuntime : Runtime :=
  asciiRuntime fun _ => "1951c7860e968e742658b3af34e60741eb4aaf2a8d2ecc3993727016b12e81e8"

def createMarked : ShareAction ShareSummary :=
  createShare markedRuntime defaultLimits noServices (notesWorld markedBytes) 0 "share" notesRequest

/-- A text file that begins with a byte-order mark is served without it. -/
theorem mark_not_served :
    (resultOf createMarked ShareStore.empty).isSome ∧
      fileBytes (notesWorld markedBytes).workspace "notes.md" = some markedBytes ∧
      (resultOf (getPublicShareBinaryFile defaultLookupLimits "share" (some "notes.md") "client" 1)
        (after createMarked ShareStore.empty)).map (·.bytes) = some [0x61] := by
  decide +kernel

end Openlia.Shares

import Openlia.Workspace.Rejected

/-! # Requests that fail

Which requests that fail leave the workspace as it was, for every request that changes it.
-/

namespace Openlia.Workspace

open Lib

section Requests

variable {rt : Runtime} {limits : Limits} {faults : Faults} {disk disk₁ disk' : Disk}

theorem lstatSync_ok {p : List String} {n : Node Entry} (h : lstatSync disk p = .ok n) :
    disk.node p = some n := by
  unfold lstatSync at h
  split at h
  · rename_i n' hn
    rw [hn, Except.ok.inj h]
  · cases h

/-! ## Deleting -/

/-- A deletion that passes its checks removes nothing, or the maintainer follows it. -/
def DeleteSafe (rt : Runtime) (faults : Faults) (disk : Disk) (path : String)
    (expected : Option String) : Prop :=
  checkDelete rt faults disk path expected = .ok () →
    (faults.fails .unlink).isSome ∨ faults.fails .markFileDeleted = none

theorem checkDelete_ok {path : String} {expected : Option String}
    (h : checkDelete rt faults disk path expected = .ok ()) :
    ∃ bytes, disk.node (components path) = some (.file (.regular bytes)) := by
  unfold checkDelete at h
  obtain ⟨path', hpath, h⟩ := except_bind_ok h
  rw [validateRelativePath_ok hpath] at h
  obtain ⟨-, h⟩ := guard_ok h
  obtain ⟨-, -, h⟩ := except_bind_ok h
  obtain ⟨-, -, h⟩ := except_bind_ok h
  split at h
  · cases h
  · rename_i bytes hnode
    exact ⟨bytes, lstatSync_ok hnode⟩
  · cases h

/-- What a deletion does once its checks are passed. -/
theorem delete_checked {bytes : Bytes} {path : String}
    (hnode : disk.node (components path) = some (.file (.regular bytes))) :
    AllOrNothing (do
      sysCall (mapFilesystemError · "workspace file was not found") (faults.fails .unlink)
        (unlinkSync (components path))
      checked (noFault systemError (faults.fails .markFileDeleted))
      pure path) disk ↔ (faults.fails .unlink).isSome ∨ faults.fails .markFileDeleted = none := by
  cases hunlink : faults.fails .unlink with
  | some code =>
      refine iff_of_true ?_ (Or.inl rfl)
      rw [allOrNothing_error (by rw [change_bind, sysCall_fault])]
      exact SameTree.refl disk
  | none =>
      obtain ⟨disk₁, hunlinked, hplaced⟩ := unlinkSync_ok hnode
      cases hmark : faults.fails .markFileDeleted with
      | none =>
          refine iff_of_true ?_ (Or.inr rfl)
          refine @allOrNothing_of_ok disk disk₁ _ _ path ?_
          simp only [change_bind, sysCall_ok hunlinked, checked_noFault]
          rfl
      | some code =>
          have hrun : ∀ toError, sysCall toError none (unlinkSync (components path)) disk =
              .ok () disk₁ := fun _ => sysCall_ok hunlinked
          refine iff_of_false ?_ (by simp)
          rw [@allOrNothing_error disk disk₁ _ _ (systemError code)
            (by simp only [change_bind, hrun, checked_noFault])]
          intro hsame
          have hgone := hplaced.at
          rw [hsame, hnode] at hgone
          cases hgone

theorem delete_allOrNothing (path : String) (expected : Option String) :
    AllOrNothing (delete rt faults path expected) disk ↔
      DeleteSafe rt faults disk path expected := by
  unfold delete
  rw [allOrNothing_get, allOrNothing_checked]
  constructor
  · intro h hcheck
    obtain ⟨bytes, hnode⟩ := checkDelete_ok hcheck
    exact (delete_checked hnode).mp (h () hcheck)
  · intro h u hcheck
    obtain ⟨bytes, hnode⟩ := checkDelete_ok hcheck
    exact (delete_checked hnode).mpr (h hcheck)

/-! ## Moving -/

/-- Every call after the parent directory was made succeeds. -/
def MoveDone (faults : Faults) : Prop :=
  ∀ call ∈ [Call.reread, .rename, .markFileDeleted, .validate, .stat], faults.fails call = none

/-- A call before the file was moved fails. -/
def MoveTraceless (faults : Faults) : Prop :=
  (faults.fails .reread).isSome ∨ (faults.fails .rename).isSome

/-- A move that passes its checks completes, or found its directories made and stops before the
file is moved. -/
def MoveSafe (rt : Runtime) (faults : Faults) (disk : Disk) (source destination : String)
    (expected : Option String) : Prop :=
  ∀ contents, checkMove rt faults disk source destination expected = .ok contents →
    ¬ (Made faults disk (components destination).dropLast ∧ MoveDone faults) →
    Settled faults disk (components destination).dropLast ∧
      (Made faults disk (components destination).dropLast → MoveTraceless faults)

theorem checkMove_ok {source destination : String} {expected : Option String} {bytes : Bytes}
    (h : checkMove rt faults disk source destination expected = .ok bytes) :
    disk.node (components source) = some (.file (.regular bytes)) ∧
      existsSync disk (components destination) = false := by
  unfold checkMove at h
  obtain ⟨-, -, h⟩ := except_bind_ok h
  obtain ⟨-, -, h⟩ := except_bind_ok h
  obtain ⟨-, -, h⟩ := except_bind_ok h
  split at h
  · cases h
  · rename_i bytes' hnode
    obtain ⟨hexists, h⟩ := guard_ok h
    obtain ⟨-, -, h⟩ := except_bind_ok h
    obtain ⟨-, -, h⟩ := except_bind_ok h
    rw [← Except.ok.inj h]
    exact ⟨lstatSync_ok hnode, Bool.eq_false_iff.mpr hexists⟩
  · cases h

/-- A move whose parent directory is there. -/
def moveBelow (rt : Runtime) (limits : Limits) (faults : Faults) (source destination : String)
    (contents : Bytes) : Change WorkspaceFileMetadata := do
  checked (noFault (mapFilesystemError · "operation failed") (faults.fails .reread))
  sysCall (mapFilesystemError · "operation failed") (faults.fails .rename)
    (renameSync (components source) (components destination))
  checked (noFault systemError (faults.fails .markFileDeleted))
  checked (noFault systemError (faults.fails .validate))
  checked (fileMetadata rt limits faults destination contents)

theorem moveBelow_stopped (source destination : String) (contents : Bytes) (disk : Disk)
    (h : MoveTraceless faults) :
    ∃ e, moveBelow rt limits faults source destination contents disk = .error e disk := by
  unfold moveBelow
  cases hreread : faults.fails .reread with
  | some code =>
      refine ⟨mapFilesystemError code "operation failed", ?_⟩
      simp only [change_bind, checked_noFault]
  | none =>
      obtain ⟨code, hrename⟩ :=
        Option.isSome_iff_exists.mp (h.resolve_left (by simp [hreread]))
      refine ⟨mapFilesystemError code "operation failed", ?_⟩
      simp only [change_bind, checked_noFault, hrename, sysCall_fault]

theorem moveBelow_moved {source destination : String} {contents : Bytes}
    (hrename : renameSync (components source) (components destination) disk = .ok disk')
    (h : ¬ MoveTraceless faults) :
    (MoveDone faults → ∃ a, moveBelow rt limits faults source destination contents disk =
      .ok a disk') ∧
    (¬ MoveDone faults → ∃ e, moveBelow rt limits faults source destination contents disk =
      .error e disk') := by
  unfold MoveTraceless at h
  rw [not_or, Option.not_isSome_iff_eq_none, Option.not_isSome_iff_eq_none] at h
  have hdone : MoveDone faults ↔ faults.fails .markFileDeleted = none ∧
      faults.fails .validate = none ∧ faults.fails .stat = none := by
    simp [MoveDone, h.1, h.2]
  rw [hdone]
  have hrenamed : ∀ toError, sysCall toError none
      (renameSync (components source) (components destination)) disk = .ok () disk' :=
    fun _ => sysCall_ok hrename
  simp only [moveBelow, change_bind, checked_noFault, h.1, h.2, hrenamed]
  cases faults.fails .markFileDeleted with
  | some code => simp
  | none =>
      cases faults.fails .validate with
      | some code => simp
      | none =>
          cases hstat : faults.fails .stat with
          | some code => simp [fileMetadata, hstat, noFault, error_bind, checked]
          | none => simp [fileMetadata, hstat, noFault, ok_bind, checked]

theorem executeMoveOrRename_allOrNothing (source destination : String)
    (expected : Option String) :
    AllOrNothing (executeMoveOrRename rt limits faults source destination expected) disk ↔
      MoveSafe rt faults disk source destination expected := by
  unfold executeMoveOrRename
  rw [allOrNothing_get, allOrNothing_checked]
  refine forall_congr' fun contents => imp_congr_ctx Iff.rfl fun hcheck => ?_
  obtain ⟨hsource, hdestination⟩ := checkMove_ok hcheck
  have hne : components destination ≠ components source := by
    intro h
    rw [h, existsSync, hsource] at hdestination
    cases hdestination
  -- The file is moved where no call before it fails.
  have hmoved : ∀ {disk₁ : Disk}, disk.mkdirAll (components destination).dropLast = .ok disk₁ →
      ∃ disk', renameSync (components source) (components destination) disk₁ = .ok disk' ∧
        disk'.node (components source) = none := by
    intro disk₁ hall
    have hsource₁ : disk₁.node (components source) = some (.file (.regular contents)) := by
      rcases (Tree.mkdirAll_node hall).2 (components source) with hsame | ⟨hnone, -, -⟩
      · rw [hsame, hsource]
      · rw [hsource] at hnone
        cases hnone
    have hfile : disk₁.node (components destination) ≠ some .dir := by
      rw [mkdirAll_child hall (components_ne_nil destination) rfl]
      intro hdir
      rw [existsSync, hdir] at hdestination
      cases hdestination
    obtain ⟨disk₂, disk', hrename, hgone, hthere⟩ := renameSync_ok hsource₁
      (components_ne_nil destination) (Tree.mkdirAll_node hall).1 hfile hne
    refine ⟨disk', hrename, ?_⟩
    rw [hthere.ne hne.symm, hgone.at]
  apply allOrNothing_mkdir (k := moveBelow rt limits faults source destination contents)
  · intro disk₁ hall hdone
    obtain ⟨disk', hrename, -⟩ := hmoved hall
    have htrace : ¬ MoveTraceless faults := by
      simp [MoveTraceless, hdone .reread, hdone .rename]
    obtain ⟨a, hrun⟩ := (moveBelow_moved hrename htrace).1 hdone
    exact ⟨a, disk', hrun⟩
  · intro disk₁ hall hdone
    by_cases htrace : MoveTraceless faults
    · obtain ⟨e, hrun⟩ := moveBelow_stopped source destination contents disk₁ htrace
      exact ⟨e, disk₁, hrun, (mkdirAll_same_iff hall).trans (and_iff_left htrace).symm⟩
    · obtain ⟨disk', hrename, hgone⟩ := hmoved hall
      obtain ⟨e, hrun⟩ := (moveBelow_moved hrename htrace).2 hdone
      refine ⟨e, disk', hrun, iff_of_false ?_ fun h => htrace h.2⟩
      intro hsame
      rw [hsame, hsource] at hgone
      cases hgone

/-! ## Creating -/

/-- Every call that reads the new file succeeds. -/
def Readable (readFaults : Faults) : Prop :=
  ∀ call ∈ [Call.inspect, .lstat, .readFile, .validate, .stat], readFaults.fails call = none

/-- A new file is written safely, and read if it was written. -/
def CreateSafe (rt : Runtime) (limits : Limits) (faults readFaults : Faults) (disk : Disk)
    (uuid : String) (compose : Composer) (domain name : Option String) : Prop :=
  ∀ path, createdPath rt domain name = .ok path → existsSync disk (components path) = false →
    ∀ content, compose disk path = .ok content →
      WriteSafe rt limits faults disk uuid path (some content) (some (revision rt [])) false ∧
      (WriteCompletes rt limits faults disk uuid path (some content) (some (revision rt [])) false →
        Readable readFaults)

/-- What `checkWrite` has seen. -/
theorem checkWrite_ok {path : String} {content : Option String} {contents : Bytes}
    (h : checkWrite rt limits faults disk path content = .ok contents) :
    ∃ text, content = some text ∧ contents = utf8 text ∧
      validateRelativePath rt path (settings rt disk) = .ok path ∧
      contents.length ≤ limits.maxEditableBytes ∧ contents.contains 0 = false := by
  unfold checkWrite at h
  obtain ⟨path', hpath, h⟩ := except_bind_ok h
  rw [validateRelativePath_ok hpath] at h hpath
  cases content with
  | none => cases h
  | some text =>
      obtain ⟨hsize, h⟩ := guard_ok h
      obtain ⟨hbinary, h⟩ := guard_ok h
      obtain ⟨-, h⟩ := guard_ok h
      obtain ⟨-, -, h⟩ := except_bind_ok h
      rw [← Except.ok.inj h]
      exact ⟨text, rfl, rfl, hpath, Nat.le_of_not_lt hsize, Bool.eq_false_iff.mpr hbinary⟩

/-- The settings are those of a file that is no directory. -/
theorem settings_congr (h : disk'.node [workspaceSettingsFile] = disk.node [workspaceSettingsFile] ∨
    disk.node [workspaceSettingsFile] = none ∧
      disk'.node [workspaceSettingsFile] = some .dir) : settings rt disk' = settings rt disk := by
  rcases h with hsame | ⟨hnone, hdir⟩
  · rw [settings, settings, hsame]
  · rw [settings, settings, hnone, hdir]

theorem splitSlash_slash (s t : String) : 2 ≤ (splitSlash (s ++ "/" ++ t)).length := by
  have hchars : (s ++ "/" ++ t).toList = s.toList ++ '/' :: t.toList := by
    simp [String.toList_append]
  have hs := List.length_pos_iff.mpr (List.splitOn_ne_nil '/' s.toList)
  have ht := List.length_pos_iff.mpr (List.splitOn_ne_nil '/' t.toList)
  rw [splitSlash, hchars, List.splitOn_append_cons_self, List.length_map, List.length_append]
  omega

theorem createdPath_length {domain name : Option String} {path : String}
    (h : createdPath rt domain name = .ok path) : 2 ≤ (components path).length := by
  unfold createdPath at h
  obtain ⟨d, -, h⟩ := except_bind_ok h
  obtain ⟨f, -, h⟩ := except_bind_ok h
  rw [← Except.ok.inj h]
  exact splitSlash_slash d f

/-- A file that is there, below directories only, is read unless a call fails. -/
theorem readBack_spec (limits : Limits) (readFaults : Faults) {path text : String}
    (hvalid : validateRelativePath rt path (settings rt disk) = .ok path)
    (hnode : disk.node (components path) = some (.file (.regular (utf8 text))))
    (hsize : (utf8 text).length ≤ limits.maxEditableBytes)
    (hbinary : (utf8 text).contains 0 = false) :
    (Readable readFaults → ∃ file, readBack rt limits readFaults disk path = .ok file) ∧
    (¬ Readable readFaults → ∃ e, readBack rt limits readFaults disk path = .error e) := by
  have hexists : (components path).inits.tail.any (existsSync disk) = true := by
    rw [List.any_eq_true]
    refine ⟨components path, ?_, by rw [existsSync, hnode]⟩
    obtain ⟨c, rest, hc⟩ := List.exists_cons_of_ne_nil (components_ne_nil path)
    rw [hc, List.inits_cons, List.tail_cons]
    exact List.mem_map_of_mem ((List.mem_inits _ _).mpr (List.prefix_refl rest))
  have hlinks : assertNoSymlink disk path = .ok () := by
    rw [assertNoSymlink, if_neg]
    rw [List.any_eq_true]
    rintro ⟨q, hq, hleads⟩
    rw [List.mem_inits] at hq
    by_cases hqp : q = components path
    · rw [leads, hqp, hnode] at hleads
      cases hleads
    · rw [leads, Tree.node_of_above (by rw [hnode]; simp) hq hqp] at hleads
      cases hleads
  obtain ⟨text', hdecode⟩ := decodeFatal_utf8 text
  have hlstat : lstatSync disk (components path) = .ok (.file (.regular (utf8 text))) := by
    rw [lstatSync, hnode]
  have hreadable : Readable readFaults ↔ readFaults.fails .inspect = none ∧
      readFaults.fails .lstat = none ∧ readFaults.fails .readFile = none ∧
      readFaults.fails .validate = none ∧ readFaults.fails .stat = none := by
    simp [Readable]
  rw [hreadable]
  unfold readBack inspectPath
  rw [hvalid, ok_bind, if_pos hexists, hlinks]
  cases readFaults.fails .inspect with
  | some code => simp [noFault, error_bind]
  | none =>
      cases readFaults.fails .lstat with
      | some code => simp [noFault, error_bind, ok_bind]
      | none =>
          simp only [noFault, ok_bind, hlstat, if_neg (Nat.not_lt.mpr hsize)]
          cases readFaults.fails .readFile with
          | some code => simp [error_bind]
          | none =>
              simp only [ok_bind, hbinary, hdecode]
              cases readFaults.fails .validate with
              | some code => simp [error_bind]
              | none =>
                  cases hstat : readFaults.fails .stat <;>
                    simp [fileMetadata, hstat, noFault, error_bind, ok_bind]

/-- A new file changes nothing that the settings are read from. -/
theorem settings_written (rt : Runtime) {temp target : List String} {contents : Bytes}
    {left : Remains}
    (hall : disk.mkdirAll target.dropLast = .ok disk₁)
    (hleaves : Leaves disk' disk₁ temp target contents left) (hlength : 2 ≤ target.length)
    (htemp : temp.length = target.length) : settings rt disk' = settings rt disk := by
  have hne : ∀ {p : List String}, 2 ≤ p.length → [workspaceSettingsFile] ≠ p := by
    rintro p hp rfl
    simp at hp
  apply settings_congr
  rw [hleaves.rest _ (hne (htemp ▸ hlength)) (hne hlength)]
  rcases (Tree.mkdirAll_node hall).2 [workspaceSettingsFile] with hsame | ⟨hnone, hdir, -⟩
  · exact Or.inl hsame
  · exact Or.inr ⟨hnone, hdir⟩

theorem temporary_length (uuid : String) {target : List String} (htarget : target ≠ []) :
    (temporary uuid target).length = target.length := by
  have hpos := List.length_pos_iff.mpr htarget
  simp only [temporary, List.length_append, List.length_dropLast, List.length_singleton]
  omega

/-- What is written and then read back is there; an error of the reading shows it. -/
theorem create_written {readFaults : Faults} {uuid path content : String}
    {expected : Option String} (hlength : 2 ≤ (components path).length)
    (hfree : existsSync disk (components path) = false)
    (hcompletes : WriteCompletes rt limits faults disk uuid path (some content) expected false) :
    AllOrNothing (do
      let _ ← write rt limits faults uuid path (some content) expected false
      let disk ← get
      checked (readBack rt limits readFaults disk path)) disk ↔ Readable readFaults := by
  obtain ⟨contents, a, disk₁, disk', hcheck, hall, hwrite, hleaves⟩ := write_completes hcompletes
  obtain ⟨text, htext, hcontents, hvalid, hsize, hbinary⟩ := checkWrite_ok hcheck
  have hnode : disk'.node (components path) = some (.file (.regular (utf8 text))) := by
    rw [hleaves.target, if_pos rfl, hcontents]
  have hsettings := settings_written rt hall hleaves hlength
    (temporary_length uuid (components_ne_nil path))
  rw [← hsettings] at hvalid
  obtain ⟨hread, hunread⟩ := readBack_spec limits readFaults hvalid
    hnode (hcontents ▸ hsize) (hcontents ▸ hbinary)
  have hrun : (do
      let _ ← write rt limits faults uuid path (some content) expected false
      let disk ← get
      checked (readBack rt limits readFaults disk path) : Change WorkspaceFile) disk =
      checked (readBack rt limits readFaults disk' path) disk' := by
    rw [change_bind, hwrite]
    rfl
  by_cases hreadable : Readable readFaults
  · obtain ⟨file, hfile⟩ := hread hreadable
    rw [hfile] at hrun
    exact iff_of_true (allOrNothing_of_ok hrun) hreadable
  · obtain ⟨e, he⟩ := hunread hreadable
    rw [he] at hrun
    refine iff_of_false ?_ hreadable
    rw [allOrNothing_error hrun]
    intro hsame
    rw [hsame] at hnode
    rw [existsSync, hnode] at hfree
    cases hfree

theorem createFile_allOrNothing (readFaults : Faults) (uuid : String) (compose : Composer)
    (domain name : Option String) :
    AllOrNothing (createFile rt limits faults readFaults uuid compose domain name) disk ↔
      CreateSafe rt limits faults readFaults disk uuid compose domain name := by
  unfold createFile
  rw [allOrNothing_get, allOrNothing_checked]
  refine forall_congr' fun path => imp_congr_ctx Iff.rfl fun hpath => ?_
  cases hexists : existsSync disk (components path) with
  | true =>
      refine iff_of_true ?_ (by simp)
      rw [if_pos rfl]
      exact (@allOrNothing_error disk disk _ _ _ rfl).mpr (SameTree.refl disk)
  | false =>
      rw [if_neg (by simp), allOrNothing_checked]
      simp only [true_implies]
      refine forall_congr' fun content => imp_congr_right fun _ => ?_
      by_cases hcompletes : WriteCompletes rt limits faults disk uuid path (some content)
          (some (revision rt [])) false
      · rw [create_written (createdPath_length hpath) hexists hcompletes]
        constructor
        · intro hreadable
          refine ⟨write_allOrNothing uuid path _ _ false |>.mp ?_, fun _ => hreadable⟩
          obtain ⟨_, a, _, disk', -, -, hwrite, -⟩ := write_completes hcompletes
          exact allOrNothing_of_ok hwrite
        · exact fun h => h.2 hcompletes
      · obtain ⟨e, disk', hwrite⟩ := write_fails hcompletes
        rw [@allOrNothing_error disk disk' _ _ e (by rw [change_bind, hwrite]),
          and_iff_left fun h => absurd h hcompletes, ← write_allOrNothing,
          allOrNothing_error hwrite]

/-! ## Every request -/

/-- A request that changes the workspace, with the calls that fail in it. -/
inductive Request where
  | write (faults : Faults) (uuid path : String) (content expected : Option String)
      (createOnly : Bool)
  | createFile (faults readFaults : Faults) (uuid : String) (compose : Composer)
      (domain name : Option String)
  | delete (faults : Faults) (path : String) (expected : Option String)
  | rename (faults : Faults) (path : String) (newName expected : Option String)
  | move (faults : Faults) (source destination : String) (expected : Option String)

def Request.run (rt : Runtime) (limits : Limits) : Request → Change Unit
  | .write faults uuid path content expected createOnly => do
      let _ ← Workspace.write rt limits faults uuid path content expected createOnly
  | .createFile faults readFaults uuid compose domain name => do
      let _ ← Workspace.createFile rt limits faults readFaults uuid compose domain name
  | .delete faults path expected => do
      let _ ← Workspace.delete rt faults path expected
  | .rename faults path newName expected => do
      let _ ← Workspace.rename rt limits faults path newName expected
  | .move faults source destination expected => do
      let _ ← Workspace.move rt limits faults source destination expected

/-- A request is refused by its first checks or completes, or it found its directories made and
leaves no trace where it stops. -/
def Request.Safe (rt : Runtime) (limits : Limits) (disk : Disk) : Request → Prop
  | .write faults uuid path content expected createOnly =>
      WriteSafe rt limits faults disk uuid path content expected createOnly
  | .createFile faults readFaults uuid compose domain name =>
      CreateSafe rt limits faults readFaults disk uuid compose domain name
  | .delete faults path expected => DeleteSafe rt faults disk path expected
  | .rename faults path newName expected =>
      ∀ destination, renamedPath rt disk path newName = .ok destination →
        MoveSafe rt faults disk path destination expected
  | .move faults source destination expected =>
      movedPaths rt disk source destination = .ok () →
        MoveSafe rt faults disk source destination expected

/-- The result of a change does not matter to what it leaves. -/
theorem allOrNothing_discard {α : Type} {change : Change α} :
    AllOrNothing (do let _ ← change) disk ↔ AllOrNothing change disk := by
  rw [allOrNothing_iff, allOrNothing_iff]
  refine forall₂_congr fun e disk' => imp_congr_left ?_
  rw [change_bind]
  cases change disk with
  | ok a disk₁ => exact iff_of_false (nomatch ·) (nomatch ·)
  | error e₁ disk₁ => simp

/-- A request that fails leaves the workspace as it was, and one that changes it succeeds,
exactly where it is safe. -/
theorem request_allOrNothing (rt : Runtime) (limits : Limits) (request : Request) (disk : Disk) :
    AllOrNothing (request.run rt limits) disk ↔ request.Safe rt limits disk := by
  cases request with
  | write faults uuid path content expected createOnly =>
      exact allOrNothing_discard.trans (write_allOrNothing uuid path content expected createOnly)
  | createFile faults readFaults uuid compose domain name =>
      exact allOrNothing_discard.trans
        (createFile_allOrNothing readFaults uuid compose domain name)
  | delete faults path expected =>
      exact allOrNothing_discard.trans (delete_allOrNothing path expected)
  | rename faults path newName expected =>
      refine allOrNothing_discard.trans ?_
      unfold Workspace.rename
      rw [allOrNothing_get, allOrNothing_checked]
      exact forall_congr' fun destination => imp_congr_right fun _ =>
        executeMoveOrRename_allOrNothing path destination expected
  | move faults source destination expected =>
      refine allOrNothing_discard.trans ?_
      unfold Workspace.move
      rw [allOrNothing_get, allOrNothing_checked]
      constructor
      · exact fun h hpaths =>
          (executeMoveOrRename_allOrNothing source destination expected).mp (h () hpaths)
      · exact fun h u hpaths =>
          (executeMoveOrRename_allOrNothing source destination expected).mpr (h hpaths)

end Requests

/-! ## A stale revision -/

/-- What the runtime gives for names of ASCII and for a file that is not there. -/
def emptyRuntime : Runtime where
  toLowerCase s := String.ofList (s.toList.map Char.toLower)
  localeCompare a b := compare (utf8 a) (utf8 b)
  sha256 _ := "e3b0c44298fc1c149afbf4c8996fb92427ae41e4649b934ca495991b7852b855"
  parseYaml _ := none

/-- A file is written as it was read, but its directory is gone. -/
def staleWrite : Request :=
  .write noFaults "0a4cba57-8f6f-4b0c-9f2d-3a6d1c6f1f11" "projects/plan.md" (some "a")
    (some "sha256:ca978112ca1bbdcafac231b39a23dc4da786eff8147c4e72b9807785afee48bb") false

/-- The outcome is this refusal, over a disk with the directory. -/
def staleWriteFails : EStateM.Result WorkspaceError Disk Unit → Bool
  | .ok _ _ => false
  | .error e disk' => decide (e.code = "revision_conflict") && disk'.isDir ["projects"]

/-- A write that is refused for its revision leaves a new directory. -/
theorem refused_write_leaves_directory :
    (∃ e disk', staleWrite.run emptyRuntime defaultLimits Tree.empty = .error e disk' ∧
      e.code = "revision_conflict" ∧ disk'.node ["projects"] = some .dir) ∧
    ¬ AllOrNothing (staleWrite.run emptyRuntime defaultLimits) Tree.empty := by
  have hrun : ∃ e disk', staleWrite.run emptyRuntime defaultLimits Tree.empty = .error e disk' ∧
      e.code = "revision_conflict" ∧ disk'.node ["projects"] = some .dir := by
    have hfails : staleWriteFails (staleWrite.run emptyRuntime defaultLimits Tree.empty) = true := by
      decide +kernel
    cases hresult : staleWrite.run emptyRuntime defaultLimits Tree.empty with
    | ok _ _ =>
        rw [hresult] at hfails
        cases hfails
    | error e disk' =>
        rw [hresult, staleWriteFails, Bool.and_eq_true, decide_eq_true_eq,
          Tree.isDir_eq_true] at hfails
        exact ⟨e, disk', rfl, hfails⟩
  refine ⟨hrun, ?_⟩
  obtain ⟨e, disk', hresult, -, hdir⟩ := hrun
  rw [allOrNothing_error hresult]
  intro hsame
  rw [hsame] at hdir
  cases hdir

end Openlia.Workspace

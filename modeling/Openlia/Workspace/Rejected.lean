import Openlia.Workspace.Written

/-! # Writes that fail

Which writes that fail leave the workspace as it was. Parent directories stay once they were
made, and a file stays changed where the maintainer's records cannot follow.
-/

namespace Openlia.Workspace

open Lib

section Steps

variable {disk disk₁ disk' : Disk} {faults : Faults} {dir p target temp : List String}
  {contents current : Bytes} {createOnly : Bool} {rt : Runtime} {limits : Limits}

/-! ## The parent directory -/

/-- The parent directory is there once `mkdirSync` is done. -/
def Made (faults : Faults) (disk : Disk) (dir : List String) : Prop :=
  faults.mkdir = none ∧ ¬ Blocked disk dir

/-- `mkdirSync` has nothing to make on its way. -/
def Settled (faults : Faults) (disk : Disk) (dir : List String) : Prop :=
  match faults.mkdir with
  | some (made, _) => disk.node (dir.take made) = some .dir ∨ Blocked disk (dir.take made)
  | none => disk.node dir = some .dir ∨ Blocked disk dir

theorem Made.mkdirSync (h : Made faults disk dir) :
    ∃ disk₁, mkdirSync faults dir disk = .ok () disk₁ ∧ disk.mkdirAll dir = .ok disk₁ := by
  obtain ⟨disk₁, hmade⟩ := mkdirAll_isOk_iff.mpr h.2
  exact ⟨disk₁, by simp only [Workspace.mkdirSync, h.1, hmade], hmade⟩

theorem Made.settled_iff (h : Made faults disk dir) :
    Settled faults disk dir ↔ disk.node dir = some .dir := by
  simp only [Settled, h.1]
  exact or_iff_left h.2

theorem mkdirSync_error (h : ¬ Made faults disk dir) :
    ∃ e disk₁, Workspace.mkdirSync faults dir disk = .error e disk₁ ∧
      (SameTree disk₁ disk ↔ Settled faults disk dir) := by
  unfold Made at h
  unfold Workspace.mkdirSync Settled
  cases hfault : faults.mkdir with
  | none =>
      have hblocked : Blocked disk dir := by
        by_contra hnot
        exact h ⟨hfault, hnot⟩
      cases hmade : disk.mkdirAll dir with
      | ok disk₁ => exact absurd hblocked (mkdirAll_isOk_iff.mp ⟨disk₁, hmade⟩)
      | error errno => exact ⟨_, disk, rfl, iff_of_true (SameTree.refl disk) (Or.inr hblocked)⟩
  | some fault =>
      obtain ⟨made, code⟩ := fault
      cases hmade : disk.mkdirAll (dir.take made) with
      | ok disk₁ =>
          refine ⟨systemError code, disk₁, by simp only [hmade],
            (mkdirAll_same_iff hmade).trans ?_⟩
          exact (or_iff_left (mkdirAll_isOk_iff.mp ⟨disk₁, hmade⟩)).symm
      | error errno =>
          have hblocked : Blocked disk (dir.take made) := by
            by_contra hnot
            obtain ⟨disk₁, hok⟩ := mkdirAll_isOk_iff.mpr hnot
            rw [hmade] at hok
            cases hok
          exact ⟨systemError code, disk, by simp only [hmade],
            iff_of_true (SameTree.refl disk) (Or.inr hblocked)⟩

/-- A change after the parent directory was made: it is done, or its failure shows. -/
theorem allOrNothing_mkdir {α : Type} {k : Change α} {done harmless : Prop}
    (hdone : ∀ disk₁, disk.mkdirAll dir = .ok disk₁ → done → ∃ a disk', k disk₁ = .ok a disk')
    (hfailed : ∀ disk₁, disk.mkdirAll dir = .ok disk₁ → ¬ done → ∃ e disk',
      k disk₁ = .error e disk' ∧
        (SameTree disk' disk ↔ disk.node dir = some .dir ∧ harmless)) :
    AllOrNothing (Workspace.mkdirSync faults dir >>= fun _ => k) disk ↔
      (¬ (Made faults disk dir ∧ done) →
        Settled faults disk dir ∧ (Made faults disk dir → harmless)) := by
  by_cases hmade : Made faults disk dir
  · obtain ⟨disk₁, hmkdir, hall⟩ := hmade.mkdirSync
    have hrun : (Workspace.mkdirSync faults dir >>= fun _ => k) disk = k disk₁ := by
      rw [change_bind, hmkdir]
    by_cases hd : done
    · obtain ⟨a, disk', hk⟩ := hdone disk₁ hall hd
      exact iff_of_true (allOrNothing_of_ok (hrun.trans hk)) fun h => absurd ⟨hmade, hd⟩ h
    · obtain ⟨e, disk', hk, hsame⟩ := hfailed disk₁ hall hd
      rw [allOrNothing_error (hrun.trans hk), hsame, hmade.settled_iff]
      constructor
      · exact fun h _ => ⟨h.1, fun _ => h.2⟩
      · intro h
        obtain ⟨hdir, hharmless⟩ := h fun hboth => hd hboth.2
        exact ⟨hdir, hharmless hmade⟩
  · obtain ⟨e, disk₁, hmkdir, hsame⟩ := mkdirSync_error hmade
    have hrun : (Workspace.mkdirSync faults dir >>= fun _ => k) disk = .error e disk₁ := by
      rw [change_bind, hmkdir]
    rw [allOrNothing_error hrun, hsame]
    constructor
    · exact fun h _ => ⟨h, fun hmade' => absurd hmade' hmade⟩
    · exact fun h => (h fun hboth => hmade hboth.1).1

theorem allOrNothing_get {α : Type} {k : Disk → Change α} :
    AllOrNothing (get >>= k) disk ↔ AllOrNothing (k disk) disk := by
  rw [allOrNothing_iff, allOrNothing_iff, get_change_bind]

theorem allOrNothing_checked {α β : Type} {x : Except WorkspaceError α} {k : α → Change β} :
    AllOrNothing (checked x >>= k) disk ↔ ∀ a, x = .ok a → AllOrNothing (k a) disk := by
  cases x with
  | error e =>
      refine iff_of_true ?_ (by simp)
      rw [allOrNothing_error (e := e) (checked_bind _ k disk)]
      exact SameTree.refl disk
  | ok a =>
      rw [allOrNothing_iff, checked_bind]
      simp only [Except.ok.injEq, forall_eq', allOrNothing_iff]

/-! ## Writing -/

/-- What the file has that an accepted write replaces. -/
def accepted (rt : Runtime) (limits : Limits) (faults : Faults) (disk : Disk)
    (target : List String) (createOnly : Bool) (expected : Option String) :
    Except WorkspaceError Bytes := do
  let current ← currentContents limits faults disk target createOnly
  checkRevision rt expected current
  .ok current

/-- A call after the file was written fails. -/
def unfollowed (rt : Runtime) (faults : Faults) (path : String) : Bool :=
  (faults.fails .validate).isSome ||
    isTemplateOrSchemaPath rt path && (faults.fails .reconcile).isSome ||
    (faults.fails .stat).isSome

/-- What an accepted write leaves that fails; nothing is said of one that does not. -/
def remains (rt : Runtime) (faults : Faults) (disk : Disk) (uuid path : String)
    (createOnly : Bool) : Option Remains :=
  let fails (call : Call) : Bool := (faults.fails call).isSome
  let target := components path
  if (disk.node (temporary uuid target)).isSome || fails .openFile then some ⟨false, false⟩
  else
    match unfinished faults with
    | some left => some ⟨left, false⟩
    | none =>
        if refused faults disk target createOnly then some ⟨fails .unlinkUnpublished, false⟩
        else if createOnly && fails .unlinkLinked then some ⟨fails .unlinkUnpublished, true⟩
        else if unfollowed rt faults path then some ⟨false, true⟩
        else none

theorem currentContents_congr (h : disk'.node target = disk.node target) :
    currentContents limits faults disk' target createOnly =
      currentContents limits faults disk target createOnly := by
  simp only [currentContents, existsSync_congr h, h]

theorem accepted_congr {expected : Option String} (h : disk'.node target = disk.node target) :
    accepted rt limits faults disk' target createOnly expected =
      accepted rt limits faults disk target createOnly expected := by
  rw [accepted, accepted, currentContents_congr h]

theorem remains_congr {uuid path : String}
    (htemp : disk'.node (temporary uuid (components path)) =
      disk.node (temporary uuid (components path)))
    (h : disk'.node (components path) = disk.node (components path)) :
    remains rt faults disk' uuid path createOnly = remains rt faults disk uuid path createOnly := by
  simp only [remains, htemp, refused, existsSync_congr h, h]

theorem currentContents_ok (h : currentContents limits faults disk target createOnly =
    .ok current) : disk.node target ≠ some .dir ∧ beforeReplace disk target = current := by
  unfold currentContents at h
  by_cases hexists : existsSync disk target = true
  · rw [if_pos hexists] at h
    cases createOnly with
    | true => cases h
    | false =>
        rw [if_neg (by simp)] at h
        obtain ⟨-, -, h⟩ := except_bind_ok h
        split at h
        · rename_i bytes hnode
          obtain ⟨-, h⟩ := guard_ok h
          obtain ⟨-, -, h⟩ := except_bind_ok h
          refine ⟨by rw [hnode]; simp, ?_⟩
          rw [beforeReplace, hnode]
          exact Except.ok.inj h
        · cases h
  · rw [if_neg hexists] at h
    rw [← Except.ok.inj h]
    cases hnode : disk.node target with
    | none => exact ⟨by simp, by rw [beforeReplace, hnode]⟩
    | some n =>
        rcases n with (bytes | bytes | _) | _ | _
        · simp [existsSync, hnode] at hexists
        · exact ⟨by simp, by rw [beforeReplace, hnode]⟩
        all_goals simp [existsSync, hnode] at hexists

theorem components_ne_nil (path : String) : components path ≠ [] := by
  unfold components splitSlash
  simp [List.splitOn_ne_nil]

theorem temporary_ne_nil (uuid : String) (target : List String) : temporary uuid target ≠ [] := by
  simp [temporary]

theorem temporary_dropLast (uuid : String) (target : List String) :
    (temporary uuid target).dropLast = target.dropLast := by
  simp [temporary]

/-- The name of the temporary file is longer. -/
theorem temporary_ne (uuid : String) (htarget : target ≠ []) : temporary uuid target ≠ target := by
  intro h
  have hlast := congrArg List.getLast? h
  rw [temporary, List.getLast?_concat, List.getLast?_eq_some_getLast htarget,
    Option.getD_some] at hlast
  have hlength := congrArg String.length (Option.some.inj hlast)
  simp only [String.length_append] at hlength
  have hdot : ".".length = 1 := rfl
  omega

/-- The maintainer follows a file that was written. -/
def followed (rt : Runtime) (limits : Limits) (faults : Faults) (path : String)
    (contents : Bytes) : Change WorkspaceFileMetadata := do
  checked (noFault systemError (faults.fails .validate))
  if isTemplateOrSchemaPath rt path then
    checked (noFault systemError (faults.fails .reconcile))
  checked (fileMetadata rt limits faults path contents)

theorem followed_spec (rt : Runtime) (limits : Limits) (faults : Faults) (path : String)
    (contents : Bytes) (disk : Disk) :
    if unfollowed rt faults path then ∃ e, followed rt limits faults path contents disk =
      .error e disk
    else ∃ a, followed rt limits faults path contents disk = .ok a disk := by
  unfold followed unfollowed fileMetadata
  cases faults.fails .validate with
  | some code => simp [change_bind, checked_noFault]
  | none =>
      cases isTemplateOrSchemaPath rt path with
      | false =>
          cases faults.fails .stat <;>
            simp [change_bind, checked, noFault, error_bind, ok_bind]
      | true =>
          cases faults.fails .reconcile <;> cases faults.fails .stat <;>
            simp [change_bind, checked, noFault, error_bind, ok_bind]

/-- The steps of a write that was accepted. -/
def finishWrite (rt : Runtime) (limits : Limits) (faults : Faults) (uuid path : String)
    (contents current : Bytes) (createOnly : Bool) : Change WorkspaceFileMetadata := do
  writeTemporary faults (temporary uuid (components path)) contents
  publish rt faults (temporary uuid (components path)) (components path) createOnly current
  followed rt limits faults path contents

/-- A write completes, or fails and leaves what is named. -/
def Ends (change : Change WorkspaceFileMetadata) (disk : Disk) (temp target : List String)
    (contents : Bytes) : Option Remains → Prop
  | none => ∃ a disk', change disk = .ok a disk' ∧
      Leaves disk' disk temp target contents ⟨false, true⟩
  | some left => ∃ e disk', change disk = .error e disk' ∧
      Leaves disk' disk temp target contents left

/-- What an accepted write does once the parent directory is there. -/
theorem accepted_write (rt : Runtime) (uuid : String) (contents : Bytes) {path : String}
    (hparent : disk.node (components path).dropLast = some .dir)
    (hcontents : currentContents limits faults disk (components path) createOnly = .ok current) :
    Ends (finishWrite rt limits faults uuid path contents current createOnly) disk
      (temporary uuid (components path)) (components path) contents
      (remains rt faults disk uuid path createOnly) := by
  obtain ⟨hfile, hcurrent⟩ := currentContents_ok hcontents
  unfold remains finishWrite
  by_cases htaken : ((disk.node (temporary uuid (components path))).isSome ||
      (faults.fails .openFile).isSome) = true
  · obtain ⟨e, he⟩ := writeTemporary_taken contents
      (by simpa [Option.isSome_iff_ne_none] using htaken)
    rw [if_pos htaken]
    exact ⟨e, disk, by rw [change_bind, he], leaves_unchanged⟩
  rw [if_neg htaken]
  rw [Bool.or_eq_true, not_or, Option.not_isSome_iff_eq_none, Option.not_isSome_iff_eq_none]
    at htaken
  have hbeside : Beside disk (temporary uuid (components path)) (components path) :=
    ⟨hparent, temporary_dropLast uuid _, temporary_ne uuid (components_ne_nil path),
      temporary_ne_nil uuid _, components_ne_nil path, htaken.1, hfile⟩
  obtain ⟨hopened, hunfinished⟩ := writeTemporary_opened contents hbeside htaken.2
  cases hleft : unfinished faults with
  | some left =>
      obtain ⟨e, disk', n, he, hplaced, hn⟩ := hunfinished left hleft
      exact ⟨e, disk', by rw [change_bind, he], hplaced.leaves hbeside hn⟩
  | none =>
      obtain ⟨disk₁, he, hplaced⟩ := hopened hleft
      by_cases hrefused : refused faults disk (components path) createOnly = true
      · obtain ⟨e, disk', hpublish, hleaves⟩ := publish_refused rt hbeside hplaced
          hcurrent hrefused
        simp only [if_pos hrefused]
        exact ⟨e, disk', by simp only [change_bind, he, hpublish], hleaves⟩
      have haccept := publish_accepted rt hbeside hplaced hcurrent
        (Bool.eq_false_iff.mpr hrefused)
      simp only [if_neg hrefused, Bool.and_eq_true]
      by_cases hlinked : createOnly = true ∧ (faults.fails .unlinkLinked).isSome = true
      · rw [if_pos hlinked] at haccept ⊢
        obtain ⟨e, disk', hpublish, hleaves⟩ := haccept
        exact ⟨e, disk', by simp only [change_bind, he, hpublish], hleaves⟩
      rw [if_neg hlinked] at haccept ⊢
      obtain ⟨disk', hpublish, hleaves⟩ := haccept
      have hfollowed := followed_spec rt limits faults path
        contents disk'
      by_cases hstop : unfollowed rt faults path = true
      · rw [if_pos hstop] at hfollowed ⊢
        obtain ⟨e, hstopped⟩ := hfollowed
        exact ⟨e, disk', by simp only [change_bind, he, hpublish, hstopped], hleaves⟩
      · rw [if_neg hstop] at hfollowed ⊢
        obtain ⟨a, hdone⟩ := hfollowed
        exact ⟨a, disk', by simp only [change_bind, he, hpublish, hdone], hleaves⟩

/-- Nothing of a directory is on the way to it. -/
theorem not_prefix_parent {dir : List String} (hp : p ≠ []) (hdrop : p.dropLast = dir) :
    ¬ p <+: dir := by
  intro hprefix
  rw [← hdrop] at hprefix
  exact ((prefix_dropLast hp).mp hprefix).2 rfl

/-- What is in a directory stays when the way to it is made. -/
theorem mkdirAll_child {dir : List String} (hall : disk.mkdirAll dir = .ok disk₁) (hp : p ≠ [])
    (hdrop : p.dropLast = dir) : disk₁.node p = disk.node p :=
  mkdirAll_frame hall (not_prefix_parent hp hdrop)

/-- What is left is the tree before, if its directory was there. -/
theorem Leaves.sameTree_iff {left : Remains} (h : Leaves disk' disk₁ temp target contents left)
    (hall : disk.mkdirAll target.dropLast = .ok disk₁) (htarget : target ≠ [])
    (htemp : temp.dropLast = target.dropLast) (htempne : temp ≠ []) :
    SameTree disk' disk ↔ disk.node target.dropLast = some .dir ∧ left.temporary = false ∧
      (left.written = true → disk.node target = some (.file (.regular contents))) := by
  have hne : ∀ {p : List String}, p ≠ [] → p.dropLast = target.dropLast →
      target.dropLast ≠ p :=
    fun hp hdrop heq => not_prefix_parent hp hdrop (heq ▸ List.prefix_refl _)
  constructor
  · intro hsame
    refine ⟨?_, ?_, fun hwritten => ?_⟩
    · rw [← hsame, h.rest _ (hne htempne htemp) (hne htarget rfl)]
      exact (Tree.mkdirAll_node hall).1
    · rw [← h.temporary, hsame, mkdirAll_child hall htempne htemp]
    · have htargetNode := h.target
      rw [hwritten, if_pos rfl] at htargetNode
      rw [← hsame, htargetNode]
  · rintro ⟨hdir, hleft, hwritten⟩ q
    have hmade := (mkdirAll_same_iff hall).mpr hdir
    by_cases hqtemp : q = temp
    · rw [hqtemp, h.temporary.mpr hleft, hmade]
    by_cases hqtarget : q = target
    · rw [hqtarget, h.target]
      split
      · rename_i htrue
        exact (hwritten htrue).symm
      · exact hmade target
    · rw [h.rest q hqtemp hqtarget, hmade]

/-- A write that was accepted and completes. -/
def WriteDone (rt : Runtime) (limits : Limits) (faults : Faults) (disk : Disk)
    (uuid path : String) (createOnly : Bool) (expected : Option String) : Prop :=
  (∃ current, accepted rt limits faults disk (components path) createOnly expected = .ok current) ∧
    remains rt faults disk uuid path createOnly = none

/-- An accepted write that fails leaves no temporary file and no new contents. -/
def WriteTraceless (rt : Runtime) (limits : Limits) (faults : Faults) (disk : Disk)
    (uuid path : String) (contents : Bytes) (createOnly : Bool) (expected : Option String) : Prop :=
  ∀ current, accepted rt limits faults disk (components path) createOnly expected = .ok current →
    ∀ left, remains rt faults disk uuid path createOnly = some left →
      left.temporary = false ∧ (left.written = true →
        disk.node (components path) = some (.file (.regular contents)))

/-- A write whose request passes the first checks completes, or found its directories made and
leaves no trace. -/
def WriteSafe (rt : Runtime) (limits : Limits) (faults : Faults) (disk : Disk)
    (uuid path : String) (content expected : Option String) (createOnly : Bool) : Prop :=
  ∀ contents, checkWrite rt limits faults disk path content = .ok contents →
    ¬ (Made faults disk (components path).dropLast ∧
      WriteDone rt limits faults disk uuid path createOnly expected) →
    Settled faults disk (components path).dropLast ∧
      (Made faults disk (components path).dropLast →
        WriteTraceless rt limits faults disk uuid path contents createOnly expected)

theorem checked_accepted {α : Type} {expected : Option String} {k : Bytes → Change α} :
    (do
      let current ← checked (currentContents limits faults disk target createOnly)
      checked (checkRevision rt expected current)
      k current) =
      (checked (accepted rt limits faults disk target createOnly expected) >>= k) := by
  funext disk'
  simp only [accepted, checked_bind]
  cases currentContents limits faults disk target createOnly with
  | error e => rfl
  | ok current =>
      simp only [ok_bind]
      cases checkRevision rt expected current <;> rfl

/-- A write whose parent directory is there. -/
def writeBelow (rt : Runtime) (limits : Limits) (faults : Faults) (uuid path : String)
    (contents : Bytes) (createOnly : Bool) (expected : Option String) :
    Change WorkspaceFileMetadata := do
  let disk ← get
  let current ← checked (accepted rt limits faults disk (components path) createOnly expected)
  finishWrite rt limits faults uuid path contents current createOnly

theorem write_eq (uuid path : String) (content expected : Option String) (createOnly : Bool) :
    write rt limits faults uuid path content expected createOnly = (do
      let disk ← get
      let contents ← checked (checkWrite rt limits faults disk path content)
      mkdirSync faults (components path).dropLast
      writeBelow rt limits faults uuid path contents createOnly expected) := by
  simp only [write, checked_accepted]
  rfl

section Below

variable {uuid path : String} {expected : Option String}
  (hall : disk.mkdirAll (components path).dropLast = .ok disk₁)

include hall

/-- The check of the revision does not see the new directories. -/
theorem accepted_below : accepted rt limits faults disk₁ (components path) createOnly expected =
    accepted rt limits faults disk (components path) createOnly expected :=
  accepted_congr (mkdirAll_child hall (components_ne_nil path) rfl)

theorem writeBelow_rejected {e : WorkspaceError}
    (h : accepted rt limits faults disk (components path) createOnly expected = .error e) :
    writeBelow rt limits faults uuid path contents createOnly expected disk₁ = .error e disk₁ := by
  rw [writeBelow, get_change_bind, checked_bind, accepted_below hall, h]

theorem writeBelow_ends (uuid : String) (contents : Bytes)
    (h : accepted rt limits faults disk (components path) createOnly expected = .ok current) :
    Ends (writeBelow rt limits faults uuid path contents createOnly expected) disk₁
      (temporary uuid (components path)) (components path) contents
      (remains rt faults disk uuid path createOnly) := by
  have htarget := mkdirAll_child hall (components_ne_nil path) rfl
  have htemp := mkdirAll_child hall (temporary_ne_nil uuid _) (temporary_dropLast uuid _)
  rw [← accepted_below hall] at h
  obtain ⟨current', hcontents, hrevision⟩ := except_bind_ok h
  obtain ⟨-, -, hrevision⟩ := except_bind_ok hrevision
  rw [Except.ok.inj hrevision] at hcontents
  have hends := accepted_write rt uuid contents
    (Tree.mkdirAll_node hall).1 hcontents
  rw [remains_congr htemp htarget] at hends
  have hrun : writeBelow rt limits faults uuid path contents createOnly expected disk₁ =
      finishWrite rt limits faults uuid path contents current createOnly disk₁ := by
    rw [writeBelow, get_change_bind, checked_bind, h]
  cases hremains : remains rt faults disk uuid path createOnly with
  | none =>
      rw [hremains] at hends
      obtain ⟨a, disk', hfinish, hleaves⟩ := hends
      exact ⟨a, disk', hrun.trans hfinish, hleaves⟩
  | some left =>
      rw [hremains] at hends
      obtain ⟨e, disk', hfinish, hleaves⟩ := hends
      exact ⟨e, disk', hrun.trans hfinish, hleaves⟩

theorem writeBelow_done (contents : Bytes)
    (h : WriteDone rt limits faults disk uuid path createOnly expected) :
    ∃ a disk', writeBelow rt limits faults uuid path contents createOnly expected disk₁ =
        .ok a disk' ∧
      Leaves disk' disk₁ (temporary uuid (components path)) (components path) contents
        ⟨false, true⟩ := by
  obtain ⟨⟨current, haccepted⟩, hremains⟩ := h
  have hends := writeBelow_ends hall uuid contents haccepted
  rwa [hremains] at hends

theorem writeBelow_failed (contents : Bytes)
    (h : ¬ WriteDone rt limits faults disk uuid path createOnly expected) :
    ∃ e disk', writeBelow rt limits faults uuid path contents createOnly expected disk₁ =
        .error e disk' ∧
      (SameTree disk' disk ↔ disk.node (components path).dropLast = some .dir ∧
        WriteTraceless rt limits faults disk uuid path contents createOnly expected) := by
  unfold WriteTraceless
  cases haccepted : accepted rt limits faults disk (components path) createOnly expected with
  | error e =>
      refine ⟨e, disk₁, writeBelow_rejected hall haccepted, ?_⟩
      rw [mkdirAll_same_iff hall]
      simp
  | ok current =>
      cases hremains : remains rt faults disk uuid path createOnly with
      | none => exact absurd ⟨⟨current, haccepted⟩, hremains⟩ h
      | some left =>
          have hends := writeBelow_ends hall uuid contents haccepted
          rw [hremains] at hends
          obtain ⟨e, disk', hrun, hleaves⟩ := hends
          refine ⟨e, disk', hrun, ?_⟩
          rw [hleaves.sameTree_iff hall (components_ne_nil path) (temporary_dropLast uuid _)
            (temporary_ne_nil uuid _)]
          simp only [Except.ok.injEq, forall_eq', Option.some.injEq]

end Below

/-- When a write that fails leaves the workspace as it was. -/
theorem write_allOrNothing (uuid path : String) (content expected : Option String)
    (createOnly : Bool) :
    AllOrNothing (write rt limits faults uuid path content expected createOnly) disk ↔
      WriteSafe rt limits faults disk uuid path content expected createOnly := by
  rw [write_eq, allOrNothing_get, allOrNothing_checked]
  refine forall_congr' fun contents => imp_congr_right fun _ => ?_
  apply allOrNothing_mkdir
  · intro disk₁ hall hdone
    obtain ⟨a, disk', hrun, -⟩ := writeBelow_done hall contents hdone
    exact ⟨a, disk', hrun⟩
  · exact fun disk₁ hall hdone => writeBelow_failed hall contents hdone

/-- A write passes every check and every call succeeds. -/
def WriteCompletes (rt : Runtime) (limits : Limits) (faults : Faults) (disk : Disk)
    (uuid path : String) (content expected : Option String) (createOnly : Bool) : Prop :=
  (∃ contents, checkWrite rt limits faults disk path content = .ok contents) ∧
    Made faults disk (components path).dropLast ∧
    WriteDone rt limits faults disk uuid path createOnly expected

theorem write_completes {uuid path : String} {content expected : Option String}
    (h : WriteCompletes rt limits faults disk uuid path content expected createOnly) :
    ∃ contents a disk₁ disk', checkWrite rt limits faults disk path content = .ok contents ∧
      disk.mkdirAll (components path).dropLast = .ok disk₁ ∧
      write rt limits faults uuid path content expected createOnly disk = .ok a disk' ∧
      Leaves disk' disk₁ (temporary uuid (components path)) (components path) contents
        ⟨false, true⟩ := by
  obtain ⟨⟨contents, hcheck⟩, hmade, hdone⟩ := h
  obtain ⟨disk₁, hmkdir, hall⟩ := hmade.mkdirSync
  obtain ⟨a, disk', hrun, hleaves⟩ := writeBelow_done hall contents hdone
  refine ⟨contents, a, disk₁, disk', hcheck, hall, ?_, hleaves⟩
  rw [write_eq, get_change_bind, checked_bind, hcheck]
  simp only [change_bind, hmkdir]
  exact hrun

theorem write_fails {uuid path : String} {content expected : Option String}
    (h : ¬ WriteCompletes rt limits faults disk uuid path content expected createOnly) :
    ∃ e disk', write rt limits faults uuid path content expected createOnly disk =
      .error e disk' := by
  rw [write_eq, get_change_bind, checked_bind]
  cases hcheck : checkWrite rt limits faults disk path content with
  | error e => exact ⟨e, disk, rfl⟩
  | ok contents =>
      by_cases hmade : Made faults disk (components path).dropLast
      · obtain ⟨disk₁, hmkdir, hall⟩ := hmade.mkdirSync
        have hdone : ¬ WriteDone rt limits faults disk uuid path createOnly expected :=
          fun hdone => h ⟨⟨contents, hcheck⟩, hmade, hdone⟩
        obtain ⟨e, disk', hrun, -⟩ := writeBelow_failed hall contents hdone
        refine ⟨e, disk', ?_⟩
        simp only [change_bind, hmkdir]
        exact hrun
      · obtain ⟨e, disk₁, hmkdir, -⟩ := mkdirSync_error hmade
        exact ⟨e, disk₁, by simp only [change_bind, hmkdir]⟩

end Steps

end Openlia.Workspace

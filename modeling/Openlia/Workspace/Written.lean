import Openlia.Workspace.AllOrNothing

/-! # What a write leaves

A write that was accepted makes a temporary file and puts it in the place of the old one. Where
it stops decides what is left of the one and of the other.
-/

namespace Openlia.Workspace

open Lib

/-! ## System calls on one path -/

section Calls

variable {disk disk' : Disk} {p q : List String} {α : Type}

/-- One path has another node, or none. -/
def Placed (disk' disk : Disk) (p : List String) (n : Option (Node Entry)) : Prop :=
  ∀ q, disk'.node q = if q = p then n else disk.node q

theorem Placed.at {n : Option (Node Entry)} (h : Placed disk' disk p n) : disk'.node p = n := by
  rw [h p, if_pos rfl]

theorem Placed.ne {n : Option (Node Entry)} (h : Placed disk' disk p n) (hq : q ≠ p) :
    disk'.node q = disk.node q := by
  rw [h q, if_neg hq]

/-- Only the last change of a path counts. -/
theorem Placed.trans {disk'' : Disk} {m n : Option (Node Entry)} (h : Placed disk' disk p m)
    (h' : Placed disk'' disk' p n) : Placed disk'' disk p n := by
  intro q
  by_cases hq : q = p
  · rw [if_pos hq, hq, h'.at]
  · rw [if_neg hq, h'.ne hq, h.ne hq]

theorem put_ok (entry : Entry) (hp : p ≠ []) (hparent : disk.node p.dropLast = some .dir)
    (hfile : disk.node p ≠ some .dir) :
    ∃ disk', coded (disk.put p (.file entry)) = .ok disk' ∧
      Placed disk' disk p (some (.file entry)) := by
  obtain ⟨disk', h⟩ := Tree.put_isOk.mpr ⟨hp, hparent, hfile⟩
  exact ⟨disk', by rw [h, coded], Tree.put_node h⟩

theorem createExclusive_ok (hp : p ≠ []) (hparent : disk.node p.dropLast = some .dir)
    (hfree : disk.node p = none) :
    ∃ disk', createExclusive p disk = .ok disk' ∧
      Placed disk' disk p (some (.file (.regular []))) := by
  obtain ⟨disk', h, hplaced⟩ := put_ok (.regular []) hp hparent (by rw [hfree]; simp)
  exact ⟨disk', by rw [createExclusive, hfree, if_neg (by simp), h], hplaced⟩

theorem fill_ok {entry : Entry} (contents : Bytes) (hp : p ≠ [])
    (hentry : disk.node p = some (.file entry)) :
    ∃ disk', fill p contents disk = .ok disk' ∧
      Placed disk' disk p (some (.file (.regular contents))) :=
  put_ok _ hp (Tree.node_dropLast (by rw [hentry]; simp)) (by rw [hentry]; simp)

theorem unlinkSync_ok {entry : Entry} (hentry : disk.node p = some (.file entry)) :
    ∃ disk', unlinkSync p disk = .ok disk' ∧ Placed disk' disk p none := by
  have hdir : disk.isDir p = false := by
    rw [← Bool.not_eq_true, Tree.isDir_eq_true, hentry]
    simp
  obtain ⟨disk', h⟩ := Tree.remove_isOk (t := disk) (p := p) (by rw [hentry]; simp)
    (by rw [hentry]; simp)
  refine ⟨disk', ?_, Tree.remove_node h⟩
  rw [unlinkSync, hdir, if_neg (by simp), h, coded]

theorem linkSync_ok {entry : Entry} (hentry : disk.node p = some (.file entry)) (hq : q ≠ [])
    (hparent : disk.node q.dropLast = some .dir) (hfree : disk.node q = none) :
    ∃ disk', linkSync p q disk = .ok disk' ∧ Placed disk' disk q (some (.file entry)) := by
  obtain ⟨disk', h, hplaced⟩ := put_ok entry hq hparent (by rw [hfree]; simp)
  refine ⟨disk', ?_, hplaced⟩
  simp only [linkSync, hentry, hfree, Option.isSome_none, Bool.false_eq_true, if_false]
  exact h

theorem linkSync_error {entry : Entry} (hentry : disk.node p = some (.file entry))
    (htaken : disk.node q ≠ none) : linkSync p q disk = .error "EEXIST" := by
  simp only [linkSync, hentry, Option.isSome_iff_ne_none.mpr htaken, if_true]

theorem renameSync_ok {entry : Entry} (hentry : disk.node p = some (.file entry)) (hq : q ≠ [])
    (hparent : disk.node q.dropLast = some .dir) (hfile : disk.node q ≠ some .dir) (hne : q ≠ p) :
    ∃ disk₁ disk', renameSync p q disk = .ok disk' ∧ Placed disk₁ disk p none ∧
      Placed disk' disk₁ q (some (.file entry)) := by
  have hsome : disk.node p ≠ none := by rw [hentry]; simp
  have hnotdir : disk.node p ≠ some .dir := by rw [hentry]; simp
  obtain ⟨disk₁, hremove⟩ := Tree.remove_isOk hsome hnotdir
  have hplaced : Placed disk₁ disk p none := Tree.remove_node hremove
  have hparent₁ : disk₁.node q.dropLast = some .dir := by
    rw [hplaced.ne, hparent]
    rintro rfl
    exact hnotdir hparent
  obtain ⟨disk', hput, hplaced'⟩ := put_ok entry hq hparent₁ (by rwa [hplaced.ne hne])
  refine ⟨disk₁, disk', ?_, hplaced, hplaced'⟩
  simp only [renameSync, hentry, hremove]
  exact hput

theorem sysCall_ok {toError : String → WorkspaceError} {f : Disk → Except String Disk}
    (h : f disk = .ok disk') : sysCall toError none f disk = .ok () disk' := by
  simp only [sysCall, h]

theorem sysCall_fault (toError : String → WorkspaceError) (code : String)
    (f : Disk → Except String Disk) :
    sysCall toError (some code) f disk = .error (toError code) disk := rfl

theorem sysCall_error {toError : String → WorkspaceError} {f : Disk → Except String Disk}
    {code : String} (h : f disk = .error code) :
    sysCall toError none f disk = .error (toError code) disk := by
  simp only [sysCall, h]

/-- A call that changes nothing fails where a fault is set. -/
theorem checked_noFault {toError : String → WorkspaceError} {fault : Option String} :
    checked (noFault toError fault) disk =
      match fault with
      | none => .ok () disk
      | some code => .error (toError code) disk := by
  cases fault <;> rfl

end Calls

/-! ## The temporary file -/

section Temporary

variable {faults : Faults} {disk disk' : Disk} {temp target : List String} {contents : Bytes}

/-- The tree that a change leaves, whether it fails or not. -/
def endState {α : Type} : EStateM.Result WorkspaceError Disk α → Disk
  | .ok _ disk => disk
  | .error _ disk => disk

theorem removeTemporary_after {call : Call} {bytes : Bytes}
    (htemp : disk.node temp = some (.file (.regular bytes))) :
    Placed (endState (removeTemporary faults call temp disk)) disk temp
      (if (faults.fails call).isSome then disk.node temp else none) := by
  have hexists : existsSync disk temp = true := by simp [existsSync, htemp]
  rw [removeTemporary, if_pos hexists]
  cases hfault : faults.fails call with
  | some code =>
      intro q
      by_cases hq : q = temp
      · rw [if_pos hq, hq]
        rfl
      · rw [if_neg hq]
        rfl
  | none =>
      obtain ⟨disk', hunlink, hplaced⟩ := unlinkSync_ok htemp
      rw [sysCall_ok hunlink]
      exact hplaced

/-- Two paths of one directory. Nothing is at the first, and no directory at the second. -/
structure Beside (disk : Disk) (temp target : List String) : Prop where
  parent : disk.node target.dropLast = some .dir
  dropLast : temp.dropLast = target.dropLast
  ne : temp ≠ target
  temp_ne : temp ≠ []
  target_ne : target ≠ []
  free : disk.node temp = none
  file : disk.node target ≠ some .dir

/-- What the temporary file is left as where it is not finished. -/
def unfinished (faults : Faults) : Option Bool :=
  if (faults.fails .writeSync).isSome || (faults.fails .fsync).isSome then
    some (faults.fails .unlinkUnwritten).isSome
  else if (faults.fails .close).isSome then some true
  else none

theorem writeTemporary_taken (contents : Bytes)
    (h : disk.node temp ≠ none ∨ (faults.fails .openFile).isSome) :
    ∃ e, writeTemporary faults temp contents disk = .error e disk := by
  cases hfault : faults.fails .openFile with
  | some code =>
      refine ⟨systemError code, ?_⟩
      simp only [writeTemporary, hfault, sysCall_fault]
  | none =>
      rw [hfault] at h
      have htaken : createExclusive temp disk = .error "EEXIST" := by
        rw [createExclusive, if_pos (Option.isSome_iff_ne_none.mpr (h.resolve_right (by simp)))]
      refine ⟨systemError "EEXIST", ?_⟩
      simp only [writeTemporary, hfault, sysCall_error htaken]

/-- A file that could not be written is removed again, if that is possible. -/
theorem writeTemporary_failed (contents : Bytes) {disk₁ disk₂ : Disk} {bytes : Bytes}
    {e : WorkspaceError}
    (hopen : sysCall systemError (faults.fails .openFile) (createExclusive temp) disk =
      .ok () disk₁)
    (hwritten : (do
      sysCall systemError (faults.fails .writeSync) (fill temp contents)
      checked (noFault systemError (faults.fails .fsync)) : Change Unit) disk₁ = .error e disk₂)
    (hplaced : Placed disk₂ disk temp (some (.file (.regular bytes)))) :
    ∃ e' disk' n, writeTemporary faults temp contents disk = .error e' disk' ∧
      Placed disk' disk temp n ∧ (n = none ↔ (faults.fails .unlinkUnwritten).isSome = false) := by
  have hafter : ∃ e', writeTemporary faults temp contents disk =
      .error e' (endState (removeTemporary faults .unlinkUnwritten temp disk₂)) := by
    simp only [writeTemporary, hopen, hwritten]
    cases removeTemporary faults .unlinkUnwritten temp disk₂ <;> cases faults.fails .close <;>
      exact ⟨_, rfl⟩
  obtain ⟨e', he⟩ := hafter
  refine ⟨e', _, _, he, hplaced.trans (removeTemporary_after hplaced.at), ?_⟩
  rw [hplaced.at]
  cases faults.fails .unlinkUnwritten <;> simp

theorem writeTemporary_opened (contents : Bytes) (hbeside : Beside disk temp target)
    (hopen : faults.fails .openFile = none) :
    (unfinished faults = none → ∃ disk', writeTemporary faults temp contents disk = .ok () disk' ∧
      Placed disk' disk temp (some (.file (.regular contents)))) ∧
    ∀ left, unfinished faults = some left →
      ∃ e disk' n, writeTemporary faults temp contents disk = .error e disk' ∧
        Placed disk' disk temp n ∧ (n = none ↔ left = false) := by
  obtain ⟨disk₁, hcreate, hcreated⟩ := createExclusive_ok hbeside.temp_ne
    (hbeside.dropLast ▸ hbeside.parent) hbeside.free
  obtain ⟨disk₂, hfill, hfilled⟩ := fill_ok contents hbeside.temp_ne hcreated.at
  have hok : sysCall systemError (faults.fails .openFile) (createExclusive temp) disk =
      .ok () disk₁ := by rw [hopen, sysCall_ok hcreate]
  unfold unfinished
  cases hwrite : faults.fails .writeSync with
  | some code =>
      have hfailed := writeTemporary_failed contents (e := systemError code) hok
        (by simp only [change_bind, hwrite, sysCall_fault]) hcreated
      simpa using hfailed
  | none =>
      cases hfsync : faults.fails .fsync with
      | some code =>
          have hfailed := writeTemporary_failed contents (e := systemError code) hok
            (by simp only [change_bind, hwrite, hfsync, sysCall_ok hfill, checked_noFault])
            (hcreated.trans hfilled)
          simpa using hfailed
      | none =>
          cases hclose : faults.fails .close with
          | none =>
              refine ⟨fun _ => ⟨disk₂, ?_, hcreated.trans hfilled⟩, by simp⟩
              simp only [writeTemporary, hok, change_bind, hwrite, hfsync, hclose,
                sysCall_ok hfill, checked_noFault]
          | some code =>
              have hleft : writeTemporary faults temp contents disk =
                  .error (systemError code) disk₂ := by
                simp only [writeTemporary, hok, change_bind, hwrite, hfsync, hclose,
                  sysCall_ok hfill, checked_noFault]
              refine ⟨by simp, fun left hunfinished =>
                ⟨_, disk₂, _, hleft, hcreated.trans hfilled, ?_⟩⟩
              simp at hunfinished
              simp [← hunfinished]

end Temporary

/-! ## Its place -/

section Place

variable {rt : Runtime} {faults : Faults} {disk disk₁ disk₂ disk' : Disk}
  {temp target : List String}
  {contents current : Bytes} {createOnly : Bool}

/-- What is left where a write fails: the temporary file, the new contents. -/
structure Remains where
  temporary : Bool
  written : Bool

/-- The tree has what is left and is as it was otherwise. -/
structure Leaves (disk' disk : Disk) (temp target : List String) (contents : Bytes)
    (left : Remains) : Prop where
  rest : ∀ q, q ≠ temp → q ≠ target → disk'.node q = disk.node q
  temporary : disk'.node temp = disk.node temp ↔ left.temporary = false
  target : disk'.node target =
    if left.written then some (.file (.regular contents)) else disk.node target

theorem leaves_unchanged : Leaves disk disk temp target contents ⟨false, false⟩ :=
  ⟨fun _ _ _ => rfl, by simp, rfl⟩

theorem Placed.leaves {n : Option (Node Entry)} {left : Bool} (h : Placed disk' disk temp n)
    (hbeside : Beside disk temp target) (hn : n = none ↔ left = false) :
    Leaves disk' disk temp target contents ⟨left, false⟩ := by
  refine ⟨fun q hq _ => h.ne hq, ?_, h.ne hbeside.ne.symm⟩
  rw [h.at, hbeside.free, hn]

/-- The new contents in their place, with what became of the temporary file. -/
theorem Placed.leaves_written {left : Bool} {n : Option (Node Entry)}
    (htemp : ∀ q, q ≠ target → disk'.node q = if q = temp then n else disk.node q)
    (htarget : disk'.node target = some (.file (.regular contents)))
    (hbeside : Beside disk temp target) (hn : n = none ↔ left = false) :
    Leaves disk' disk temp target contents ⟨left, true⟩ := by
  refine ⟨fun q hq hq' => by rw [htemp q hq', if_neg hq], ?_, htarget⟩
  rw [htemp temp hbeside.ne, if_pos rfl, hbeside.free, hn]

theorem beforeReplace_congr {p : List String} (h : disk'.node p = disk.node p) :
    beforeReplace disk' p = beforeReplace disk p := by
  rw [beforeReplace, beforeReplace, h]

/-- The new file cannot take its place. -/
def refused (faults : Faults) (disk : Disk) (target : List String) (createOnly : Bool) : Bool :=
  existsSync disk target && (faults.fails .reread).isSome ||
    if createOnly then (faults.fails .link).isSome || (disk.node target).isSome
    else (faults.fails .rename).isSome

theorem existsSync_congr {p : List String} (h : disk'.node p = disk.node p) :
    existsSync disk' p = existsSync disk p := by
  rw [existsSync, existsSync, h]

theorem publish_failed {bytes : Bytes} {e : WorkspaceError}
    (hreplace : replace rt faults temp target createOnly current disk₁ = .error e disk₂)
    (htemp : disk₂.node temp = some (.file (.regular bytes))) :
    ∃ e' disk' n, publish rt faults temp target createOnly current disk₁ = .error e' disk' ∧
      Placed disk' disk₂ temp n ∧
      (n = none ↔ (faults.fails .unlinkUnpublished).isSome = false) := by
  have hafter : ∃ e', publish rt faults temp target createOnly current disk₁ =
      .error e' (endState (removeTemporary faults .unlinkUnpublished temp disk₂)) := by
    simp only [publish, hreplace]
    cases removeTemporary faults .unlinkUnpublished temp disk₂ <;> exact ⟨_, rfl⟩
  obtain ⟨e', he⟩ := hafter
  refine ⟨e', _, _, he, removeTemporary_after htemp, ?_⟩
  rw [htemp]
  cases faults.fails .unlinkUnpublished <;> simp

theorem replace_eq (hcurrent : beforeReplace disk₁ target = current) :
    replace rt faults temp target createOnly current disk₁ =
      if existsSync disk₁ target = true ∧ (faults.fails .reread).isSome = true then
        .error (systemError ((faults.fails .reread).getD "")) disk₁
      else
        (if createOnly then do
          sysCall systemError (faults.fails .link) (linkSync temp target)
          sysCall systemError (faults.fails .unlinkLinked) (unlinkSync temp)
        else sysCall systemError (faults.fails .rename) (renameSync temp target) : Change Unit)
          disk₁ := by
  have hrevision : checkRevision rt (some (revision rt current)) (beforeReplace disk₁ target) =
      .ok () := by rw [hcurrent, checkRevision, if_pos rfl]
  unfold replace
  rw [get_change_bind, hrevision]
  cases hexists : existsSync disk₁ target with
  | false => simp [change_bind, checked]
  | true =>
      cases hreread : faults.fails .reread with
      | none => simp [change_bind, checked, noFault]
      | some code => simp [change_bind, checked, noFault]

/-- Where the new file was refused, at most the temporary file is left. -/
theorem publish_refused (rt : Runtime) (hbeside : Beside disk temp target)
    (hplaced : Placed disk₁ disk temp (some (.file (.regular contents))))
    (hcurrent : beforeReplace disk target = current)
    (hrefused : refused faults disk target createOnly = true) :
    ∃ e disk', publish rt faults temp target createOnly current disk₁ = .error e disk' ∧
      Leaves disk' disk temp target contents ⟨(faults.fails .unlinkUnpublished).isSome, false⟩ := by
  have hsame := hplaced.ne hbeside.ne.symm
  have hreplace : ∃ e, replace rt faults temp target createOnly current disk₁ =
      .error e disk₁ := by
    rw [replace_eq ((beforeReplace_congr hsame).trans hcurrent), existsSync_congr hsame]
    by_cases hreread : existsSync disk target = true ∧ (faults.fails .reread).isSome = true
    · rw [if_pos hreread]
      exact ⟨_, rfl⟩
    · rw [if_neg hreread]
      unfold refused at hrefused
      rw [Bool.or_eq_true, Bool.and_eq_true, or_iff_right hreread] at hrefused
      cases createOnly with
      | false =>
          obtain ⟨code, hrename⟩ := Option.isSome_iff_exists.mp hrefused
          exact ⟨systemError code, by simp [sysCall, hrename]⟩
      | true =>
          cases hlink : faults.fails .link with
          | some code => exact ⟨systemError code, by simp [sysCall, change_bind]⟩
          | none =>
              have htaken : disk₁.node target ≠ none := by
                rw [hsame]
                simpa [hlink, Option.isSome_iff_ne_none] using hrefused
              exact ⟨systemError "EEXIST", by
                simp [sysCall, change_bind, linkSync_error hplaced.at htaken]⟩
  obtain ⟨e, he⟩ := hreplace
  obtain ⟨e', disk', n, hpublish, hn, hleft⟩ := publish_failed he hplaced.at
  exact ⟨e', disk', hpublish, (hplaced.trans hn).leaves hbeside hleft⟩

/-- Where the new file took its place, it is there. -/
theorem publish_accepted (rt : Runtime) (hbeside : Beside disk temp target)
    (hplaced : Placed disk₁ disk temp (some (.file (.regular contents))))
    (hcurrent : beforeReplace disk target = current)
    (hrefused : refused faults disk target createOnly = false) :
    if createOnly = true ∧ (faults.fails .unlinkLinked).isSome = true then
      ∃ e disk', publish rt faults temp target createOnly current disk₁ = .error e disk' ∧
        Leaves disk' disk temp target contents ⟨(faults.fails .unlinkUnpublished).isSome, true⟩
    else
      ∃ disk', publish rt faults temp target createOnly current disk₁ = .ok () disk' ∧
        Leaves disk' disk temp target contents ⟨false, true⟩ := by
  have hsame := hplaced.ne hbeside.ne.symm
  have hparent : disk₁.node target.dropLast = some .dir := by
    rw [hplaced.ne, hbeside.parent]
    intro h
    have hdir := hbeside.parent
    rw [h, hbeside.free] at hdir
    cases hdir
  unfold refused at hrefused
  rw [Bool.or_eq_false_iff, Bool.and_eq_false_iff, ← Bool.not_eq_true, ← Bool.not_eq_true,
    ← not_and_or] at hrefused
  have hreplace : replace rt faults temp target createOnly current disk₁ = _ :=
    replace_eq ((beforeReplace_congr hsame).trans hcurrent)
  rw [existsSync_congr hsame, if_neg hrefused.1] at hreplace
  cases createOnly with
  | false =>
      have hrename : faults.fails .rename = none := by simpa using hrefused.2
      obtain ⟨disk₂, disk', hrenamed, hgone, hthere⟩ := renameSync_ok hplaced.at hbeside.target_ne
        hparent (hsame ▸ hbeside.file) hbeside.ne.symm
      rw [if_neg (by simp)]
      refine ⟨disk', ?_, ?_⟩
      · simp [publish, hreplace, hrename, sysCall_ok hrenamed]
      · exact Placed.leaves_written (n := none)
          (fun q hq => by rw [hthere.ne hq, hplaced.trans hgone q]) hthere.at hbeside (by simp)
  | true =>
      simp only [if_true, Bool.or_eq_false_iff, Option.isSome_eq_false_iff,
        Option.isNone_iff_eq_none] at hrefused
      obtain ⟨disk₂, hlinked, hthere⟩ := linkSync_ok hplaced.at hbeside.target_ne hparent
        (hsame.trans hrefused.2.2)
      have htemp : disk₂.node temp = some (.file (.regular contents)) := by
        rw [hthere.ne hbeside.ne, hplaced.at]
      cases hunlink : faults.fails .unlinkLinked with
      | none =>
          obtain ⟨disk', hunlinked, hgone⟩ := unlinkSync_ok htemp
          rw [if_neg (by simp)]
          refine ⟨disk', ?_, ?_⟩
          · simp [publish, hreplace, change_bind, hrefused.2.1, hunlink, sysCall_ok hlinked,
              sysCall_ok hunlinked]
          · refine Placed.leaves_written (n := none) (fun q hq => ?_) ?_ hbeside (by simp)
            · rw [hgone q, hthere.ne hq, hplaced q]
              split <;> rfl
            · rw [hgone.ne hbeside.ne.symm, hthere.at]
      | some code =>
          have hfailed : replace rt faults temp target true current disk₁ =
              .error (systemError code) disk₂ := by
            rw [hreplace, if_pos rfl]
            simp [change_bind, hrefused.2.1, hunlink, sysCall_ok hlinked, sysCall_fault]
          obtain ⟨e', disk', n, hpublish, hn, hleft⟩ := publish_failed hfailed htemp
          rw [if_pos (by simp)]
          refine ⟨e', disk', hpublish, Placed.leaves_written (fun q hq => ?_) ?_ hbeside hleft⟩
          · rw [hn q, hthere.ne hq, hplaced q]
            split <;> rfl
          · rw [hn.ne hbeside.ne.symm, hthere.at]

end Place

end Openlia.Workspace

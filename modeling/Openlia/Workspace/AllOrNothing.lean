import Openlia.Lib.Results
import Openlia.Workspace.Changes

/-! # What a failed change leaves

A change that fails should leave the workspace as it was. It does so where nothing was made
before the failure: no parent directory, no temporary file and no new file.
-/

namespace Openlia.Workspace

open Lib

/-- The same entries, with the same contents. -/
def SameTree (disk' disk : Disk) : Prop := ∀ p, disk'.node p = disk.node p

/-- A change that fails leaves the tree as it was, and one that changes a file succeeds. -/
structure AllOrNothing {α : Type} (change : Change α) (disk : Disk) : Prop where
  failed : ∀ e disk', change disk = .error e disk' → SameTree disk' disk
  changed : ∀ disk', (∃ e, change disk = .error e disk') →
    ∀ p, disk'.content p = disk.content p

section Tree

variable {disk disk' : Disk} {p q : List String} {α : Type} {change : Change α}

theorem SameTree.refl (disk : Disk) : SameTree disk disk := fun _ => rfl

theorem allOrNothing_iff : AllOrNothing change disk ↔
    ∀ e disk', change disk = .error e disk' → SameTree disk' disk := by
  constructor
  · exact AllOrNothing.failed
  · intro h
    refine ⟨h, ?_⟩
    rintro disk' ⟨e, he⟩ p
    exact Tree.content_eq_of_node_eq (h e disk' he p)

theorem allOrNothing_of_ok {a : α} (h : change disk = .ok a disk') : AllOrNothing change disk := by
  rw [allOrNothing_iff]
  intro e disk'' he
  rw [h] at he
  cases he

theorem allOrNothing_error {e : WorkspaceError} (h : change disk = .error e disk') :
    AllOrNothing change disk ↔ SameTree disk' disk := by
  rw [allOrNothing_iff]
  constructor
  · exact fun hall => hall e disk' h
  · intro hsame e' disk'' he
    rw [h] at he
    cases he
    exact hsame

/-! ## Directories -/

/-- Something that is no directory is on the way. -/
def Blocked (disk : Disk) (p : List String) : Prop :=
  ∃ q, q <+: p ∧ disk.node q ≠ none ∧ disk.node q ≠ some .dir

theorem mkdirAll_isOk_iff : (∃ disk', disk.mkdirAll p = .ok disk') ↔ ¬ Blocked disk p := by
  constructor
  · rintro ⟨disk', h⟩ ⟨q, hq, hsome, hdir⟩
    obtain ⟨hlast, hnodes⟩ := Tree.mkdirAll_node h
    have hq' : disk'.node q = some .dir := by
      by_cases hqp : q = p
      · rw [hqp, hlast]
      · exact Tree.node_of_above (by rw [hlast]; simp) hq hqp
    rcases hnodes q with hsame | ⟨hnone, -, -⟩
    · exact hdir (hsame ▸ hq')
    · exact hsome hnone
  · intro h
    refine Tree.mkdirAll_isOk fun q hq => ?_
    by_contra hne
    rw [not_or] at hne
    exact h ⟨q, hq, hne.1, hne.2⟩

/-- Directories are made unless the last one is there. -/
theorem mkdirAll_same_iff (h : disk.mkdirAll p = .ok disk') :
    SameTree disk' disk ↔ disk.node p = some .dir := by
  obtain ⟨hlast, hnodes⟩ := Tree.mkdirAll_node h
  constructor
  · intro hsame
    rw [← hsame p, hlast]
  · intro hdir q
    rcases hnodes q with hsame | ⟨hnone, -, hq⟩
    · exact hsame
    · by_cases hqp : q = p
      · rw [hqp, hdir] at hnone
        cases hnone
      · rw [Tree.node_of_above (by rw [hdir]; simp) hq hqp] at hnone
        cases hnone

theorem mkdirAll_frame (h : disk.mkdirAll p = .ok disk') (hq : ¬ q <+: p) :
    disk'.node q = disk.node q := by
  rcases (Tree.mkdirAll_node h).2 q with hsame | ⟨-, -, hprefix⟩
  · exact hsame
  · exact absurd hprefix hq

end Tree

/-! ## Running a change -/

section Running

variable {α β : Type} {disk : Disk}

theorem change_bind (p : Change α) (k : α → Change β) (disk : Disk) :
    (p >>= k) disk =
      match p disk with
      | .ok a disk' => k a disk'
      | .error e disk' => .error e disk' := by
  cases h : p disk <;> simp [bind, EStateM.bind, h]

theorem get_change_bind (k : Disk → Change β) (disk : Disk) : (get >>= k) disk = k disk disk := rfl

theorem checked_bind (x : Except WorkspaceError α) (k : α → Change β) (disk : Disk) :
    (checked x >>= k) disk =
      match x with
      | .ok a => k a disk
      | .error e => .error e disk := by
  cases x <;> rfl

end Running

end Openlia.Workspace

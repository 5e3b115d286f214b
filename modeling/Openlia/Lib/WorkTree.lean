import Mathlib.Data.List.Dedup
import Mathlib.Tactic.Common

/-! # Commits, an index and a working tree

A repository has a history of commits, newest first, an index and a working tree. Files
are listed with their contents; the first entry of a path counts. Which untracked files
are left out of an index is a function of the working tree.
-/

namespace Openlia.Lib

abbrev Files (P B : Type) := List (P × B)

namespace Files

variable {P B : Type} [DecidableEq P]

/-- Two lists have the same files. -/
def Same (a b : Files P B) : Prop := ∀ p, a.lookup p = b.lookup p

theorem Same.symm {a b : Files P B} (h : Same a b) : Same b a := fun p => (h p).symm

theorem Same.trans {a b c : Files P B} (h : Same a b) (h' : Same b c) : Same a c :=
  fun p => (h p).trans (h' p)

theorem lookup_filter (a : Files P B) (q : P → Bool) (p : P) :
    List.lookup p (a.filter fun e => q e.1) = if q p then a.lookup p else none := by
  induction a with
  | nil => simp
  | cons e a ih =>
      obtain ⟨k, v⟩ := e
      rw [List.filter_cons]
      by_cases hp : p = k
      · subst hp
        by_cases hq : q p = true
        · simp [hq]
        · simp [hq] at ih ⊢
          exact ih
      · have hlookup : ∀ l : Files P B, List.lookup p ((k, v) :: l) = l.lookup p := fun l => by
          rw [List.lookup_cons, beq_eq_false_iff_ne.mpr hp]
        split
        · rw [hlookup, hlookup, ih]
        · rw [hlookup, ih]

variable [DecidableEq B]

/-- The paths whose contents differ. -/
def changed (a b : Files P B) : List P :=
  ((a ++ b).map Prod.fst).dedup.filter fun p => a.lookup p ≠ b.lookup p

theorem mem_changed {a b : Files P B} {p : P} :
    p ∈ changed a b ↔ a.lookup p ≠ b.lookup p := by
  simp only [changed, List.mem_filter, List.mem_dedup, decide_eq_true_eq, and_iff_right_iff_imp]
  intro h
  by_contra hmem
  have hnone : ∀ l : Files P B, p ∉ l.map Prod.fst → l.lookup p = none := by
    intro l hl
    rw [List.lookup_eq_none_iff]
    intro e he
    rw [bne_iff_ne]
    rintro rfl
    exact hl (List.mem_map_of_mem he)
  rw [List.map_append, List.mem_append, not_or] at hmem
  exact h ((hnone a hmem.1).trans (hnone b hmem.2).symm)

theorem changed_eq_nil {a b : Files P B} : changed a b = [] ↔ Same a b := by
  rw [List.eq_nil_iff_forall_not_mem]
  exact forall_congr' fun p => by rw [mem_changed, not_not]

end Files

structure Commit (P B L : Type) where
  label : L
  tree : Files P B

/-- Commits, newest first. -/
abbrev History (P B L : Type) := List (Commit P B L)

/-- The tree of the newest commit. -/
def History.headTree {P B L : Type} (h : History P B L) : Files P B :=
  match h with
  | [] => []
  | c :: _ => c.tree

structure Repo (P B L : Type) where
  history : History P B L
  index : Files P B
  work : Files P B

namespace Repo

variable {P B L : Type} [DecidableEq P] (ignored : Files P B → P → Bool)

/-- Stage the tracked files and the untracked ones that are not ignored. -/
def addAll (r : Repo P B L) : Repo P B L :=
  { r with index := r.work.filter fun e =>
      (r.index.lookup e.1).isSome || !ignored r.work e.1 }

/-- Nothing is staged, and nothing could be. -/
def statusEmpty [DecidableEq B] (r : Repo P B L) : Bool :=
  (Files.changed r.index r.history.headTree).isEmpty &&
    (Files.changed (r.addAll ignored).index r.index).isEmpty

def commit (label : L) (r : Repo P B L) : Repo P B L :=
  { r with history := ⟨label, r.index⟩ :: r.history }

/-- Tracked files become those of the target; untracked files stay. -/
def resetHard (target : History P B L) (r : Repo P B L) : Repo P B L :=
  ⟨target, target.headTree, target.headTree ++ r.work.filter fun e =>
    (r.index.lookup e.1).isNone && (target.headTree.lookup e.1).isNone⟩

/-- Remove the untracked files that are not ignored. -/
def clean (r : Repo P B L) : Repo P B L :=
  { r with work := r.work.filter fun e => (r.index.lookup e.1).isSome || ignored r.work e.1 }

/-- The index and the working tree are those of the newest commit. -/
structure AtHead (r : Repo P B L) : Prop where
  index : Files.Same r.index r.history.headTree
  work : Files.Same r.work r.history.headTree

/-- No untracked file is ignored. -/
def Visible (r : Repo P B L) : Prop :=
  ∀ p, r.work.lookup p ≠ none → r.index.lookup p = none → ignored r.work p = false

variable {ignored} {r : Repo P B L} {target : History P B L}

theorem addAll_index (r : Repo P B L) (p : P) :
    (r.addAll ignored).index.lookup p =
      if (r.index.lookup p).isSome || !ignored r.work p then r.work.lookup p else none :=
  Files.lookup_filter r.work (fun p => (r.index.lookup p).isSome || !ignored r.work p) p

/-- Everything is staged when nothing is ignored. -/
theorem addAll_same (h : r.Visible ignored) : Files.Same (r.addAll ignored).index r.work := by
  intro p
  rw [addAll_index]
  split
  · rfl
  · rename_i hcond
    simp only [Bool.or_eq_true, not_or, Bool.not_eq_true, Option.isSome_eq_false_iff,
      Option.isNone_iff_eq_none, Bool.not_eq_false'] at hcond
    by_contra hne
    exact absurd (h p (Ne.symm hne) hcond.1) (by simp [hcond.2])

theorem statusEmpty_same [DecidableEq B] (h : r.statusEmpty ignored = true) :
    Files.Same r.index r.history.headTree := by
  simp only [statusEmpty, Bool.and_eq_true, List.isEmpty_iff] at h
  exact Files.changed_eq_nil.mp h.1

theorem resetHard_work (target : History P B L) (r : Repo P B L) (p : P) :
    (r.resetHard target).work.lookup p =
      (target.headTree.lookup p).or
        (if (r.index.lookup p).isNone && (target.headTree.lookup p).isNone
          then r.work.lookup p else none) := by
  rw [resetHard, List.lookup_append]
  exact congrArg _ (Files.lookup_filter r.work
    (fun p => (r.index.lookup p).isNone && (target.headTree.lookup p).isNone) p)

theorem clean_work (r : Repo P B L) (p : P) :
    (r.clean ignored).work.lookup p =
      if (r.index.lookup p).isSome || ignored r.work p then r.work.lookup p else none :=
  Files.lookup_filter r.work (fun p => (r.index.lookup p).isSome || ignored r.work p) p

/-- The tracked files are those of the newest commit. -/
structure Reset (r : Repo P B L) : Prop where
  index : Files.Same r.index r.history.headTree
  work : ∀ p, r.history.headTree.lookup p ≠ none →
    r.work.lookup p = r.history.headTree.lookup p

theorem resetHard_reset (target : History P B L) (r : Repo P B L) :
    (r.resetHard target).Reset := by
  refine ⟨fun _ => rfl, fun p hp => ?_⟩
  obtain ⟨b, hb⟩ := Option.ne_none_iff_exists'.mp hp
  have htarget : target.headTree.lookup p = some b := hb
  rw [resetHard_work, htarget, Option.some_or]
  exact hb.symm

/-- A clean that overlooks nothing leaves the newest commit. -/
theorem Reset.clean_atHead (h : r.Reset) (hvisible : r.Visible ignored) :
    (r.clean ignored).AtHead := by
  refine ⟨h.index, fun p => ?_⟩
  have hhead : (r.clean ignored).history.headTree.lookup p = r.history.headTree.lookup p := rfl
  rw [clean_work, hhead]
  by_cases hp : r.history.headTree.lookup p = none
  · have hindex : r.index.lookup p = none := (h.index p).trans hp
    rw [hindex, hp]
    by_cases hwork : r.work.lookup p = none
    · simp [hwork]
    · simp [hvisible p hwork hindex]
  · have hindex : (r.index.lookup p).isSome = true := by
      rw [h.index p]
      exact Option.isSome_iff_ne_none.mpr hp
    rw [hindex, Bool.true_or, if_pos rfl]
    exact h.work p hp

theorem AtHead.visible (h : r.AtHead) : r.Visible ignored := by
  intro p hwork hindex
  rw [h.work p, ← h.index p] at hwork
  exact absurd hindex hwork

end Repo

end Openlia.Lib

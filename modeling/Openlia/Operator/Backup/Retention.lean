import Openlia.Operator.Backup.Pruned

/-! # What retention promises

The newest verified archive always stays, and of the other kinds the newest. Of the
archives after the newest verified one those stay that stand early enough in the list of
all archives and that the budget affords with all that is between.
-/

namespace Openlia.Backup.Prune

open Lib

variable {Data : Type}

/-! ## Counting archives -/

theorem zipIdx_lt (xs : List FileItem) (start n : Nat) :
    ((xs.zipIdx start).filter fun x => decide (x.2 < n)).map Prod.fst = xs.take (n - start) := by
  induction xs generalizing start with
  | nil => simp
  | cons x xs ih =>
      rw [List.zipIdx_cons, List.filter_cons]
      by_cases hstart : start < n
      · rw [if_pos (decide_eq_true hstart), List.map_cons, ih,
          show n - start = (n - (start + 1)) + 1 by omega, List.take_succ_cons]
      · rw [if_neg (by simpa using hstart), ih, show n - start = 0 by omega,
          show n - (start + 1) = 0 by omega, List.take_zero, List.take_zero]

theorem zipIdx_ge (xs : List FileItem) (start n : Nat) :
    ((xs.zipIdx start).filter fun x => !decide (x.2 < n)).map Prod.fst =
      xs.drop (n - start) := by
  induction xs generalizing start with
  | nil => simp
  | cons x xs ih =>
      rw [List.zipIdx_cons, List.filter_cons]
      by_cases hstart : start < n
      · rw [if_neg (by simpa using hstart), ih,
          show n - start = (n - (start + 1)) + 1 by omega, List.drop_succ_cons]
      · rw [if_pos (by simpa using hstart), List.map_cons, ih, show n - start = 0 by omega,
          show n - (start + 1) = 0 by omega, List.drop_zero, List.drop_zero]

def marked (item : FileItem) : FileItem := { item with corrupt := true }

/-- The search ends at the first archive that can be verified. -/
theorem markCorrupt_cases (verify : Name → Bool) (items : List FileItem) :
    ((∀ a ∈ items, verify a.name = false) ∧
      markCorrupt verify items = (items.map marked, none)) ∨
    ∃ before newest after, items = before ++ newest :: after ∧
      (∀ a ∈ before, verify a.name = false) ∧ verify newest.name = true ∧
      markCorrupt verify items =
        (before.map marked ++ newest :: after, some before.length) := by
  induction items with
  | nil => exact .inl ⟨fun _ h => absurd h List.not_mem_nil, rfl⟩
  | cons item items ih =>
      by_cases hitem : verify item.name = true
      · refine .inr ⟨[], item, items, rfl, fun _ h => absurd h List.not_mem_nil, hitem, ?_⟩
        rw [markCorrupt, if_pos hitem]
        rfl
      · rw [markCorrupt, if_neg hitem]
        rw [Bool.not_eq_true] at hitem
        rcases ih with ⟨hnone, hmark⟩ | ⟨before, newest, after, rfl, hbefore, hnewest, hmark⟩
        · refine .inl ⟨List.forall_mem_cons.mpr ⟨hitem, hnone⟩, ?_⟩
          rw [hmark]
          rfl
        · refine .inr ⟨item :: before, newest, after, rfl,
            List.forall_mem_cons.mpr ⟨hitem, hbefore⟩, hnewest, ?_⟩
          rw [hmark]
          rfl

section Counted

variable {before after : List FileItem} {newest : FileItem}
  (hfresh : ∀ a ∈ newest :: after, a.corrupt = false)

include hfresh

theorem beyondCount_eq (keepCount : Nat) :
    beyondCount keepCount (some before.length) (before.map marked ++ newest :: after) =
      before.map marked ++ after.drop (keepCount - (before.length + 1)) := by
  rw [beyondCount, List.zipIdx_append, List.filter_append, List.map_append, List.zipIdx_cons,
    List.length_map, Nat.zero_add]
  congr 1
  · rw [List.filter_eq_self.mpr]
    · exact List.zipIdx_map_fst 0 _
    · rintro ⟨item, index⟩ hitem
      obtain ⟨hlt, hget⟩ := List.mk_mem_zipIdx_iff_getElem?.mp hitem |> List.getElem?_eq_some_iff.mp
      rw [List.length_map] at hlt
      rw [List.getElem_map] at hget
      simp [← hget, marked, Nat.ne_of_lt hlt]
  · rw [List.filter_cons, if_neg (by simp), ← zipIdx_ge]
    congr 1
    refine List.filter_congr ?_
    rintro ⟨item, index⟩ hitem
    have hmem := List.fst_mem_of_mem_zipIdx hitem
    have hindex := List.le_snd_of_mem_zipIdx hitem
    have hitem := hfresh item (List.mem_cons_of_mem _ hmem)
    have hne : index ≠ before.length := fun h => absurd hindex (by simp [h])
    simp [hitem, hne]

theorem retainedArchives_eq (keepCount : Nat) :
    retainedArchives keepCount (some before.length) (before.map marked ++ newest :: after) =
      newest :: after.take (keepCount - (before.length + 1)) := by
  rw [retainedArchives, List.zipIdx_append, List.filter_append, List.map_append,
    List.zipIdx_cons, List.length_map, Nat.zero_add, List.filter_eq_nil_iff.mpr, List.map_nil,
    List.nil_append, List.filter_cons, if_pos, List.map_cons, ← zipIdx_lt]
  · congr 2
    refine List.filter_congr ?_
    rintro ⟨item, index⟩ hitem
    have hmem := List.fst_mem_of_mem_zipIdx hitem
    have hindex := List.le_snd_of_mem_zipIdx hitem
    have hitem := hfresh item (List.mem_cons_of_mem _ hmem)
    have hne : index ≠ before.length := fun h => absurd hindex (by simp [h])
    simp [hitem, hne]
  · simp [hfresh newest List.mem_cons_self]
  · rintro ⟨item, index⟩ hitem
    obtain ⟨a, -, ha⟩ := List.mem_map.mp (List.fst_mem_of_mem_zipIdx hitem)
    have hitem : item.corrupt = true := (congrArg FileItem.corrupt ha).symm
    simp [hitem]

end Counted

/-! ## The names that go -/

/-- Items of one kind, by their names. -/
def FromKind (dir : Directory Data) (kind : Kind) (items : List FileItem) : Prop :=
  ∀ item ∈ items, ∃ entry ∈ dir.entries,
    entry.1 = item.name ∧ kindOf entry.1 entry.2.regular = kind

/-- The kinds whose items take metadata with them. -/
def Takes (metadata : Bool) (kind : Kind) : Prop :=
  kind ≠ .other ∧ (metadata = true → kind = .archive ∨ kind = .rollback)

theorem takes_archive : Takes true .archive := ⟨by decide, fun _ => .inl rfl⟩

theorem takes_rollback : Takes true .rollback := ⟨by decide, fun _ => .inr rfl⟩

theorem takes_alone {kind : Kind} (h : kind ≠ .other) : Takes false kind := ⟨h, nofun⟩

theorem fromKind_of_subset {host : Host Data} {dir : Directory Data} {kind : Kind}
    {items : List FileItem} (h : items ⊆ itemsOf host dir kind) : FromKind dir kind items := by
  intro item hitem
  obtain ⟨entry, hentry, hkind, rfl⟩ := mem_itemsOf.mp (h hitem)
  exact ⟨entry, hentry, (fileItem_name host dir entry).symm, hkind⟩

theorem kindOf_metadataOf_of_takes {dir : Directory Data} {kind : Kind} {regular : Bool}
    {items : List FileItem} {item : FileItem} (hitems : FromKind dir kind items)
    (hitem : item ∈ items) (hkind : kind = .archive ∨ kind = .rollback) :
    kindOf (metadataOf item.name) regular = .other := by
  obtain ⟨entry, -, hname, hentry⟩ := hitems item hitem
  rw [hname] at hentry
  rw [← hentry] at hkind
  exact kindOf_metadataOf ((hasPrefix_of_kind hkind).imp hasPrefix_metadataOf
    hasPrefix_metadataOf)

theorem mem_doomed_iff {dir : Directory Data} {kind : Kind} {metadata : Bool}
    {items : List FileItem} {entry : Name × File Data} (hitems : FromKind dir kind items)
    (htakes : Takes metadata kind) (hentry : entry ∈ dir.entries)
    (hother : kindOf entry.1 entry.2.regular ≠ .other) :
    entry.1 ∈ doomed metadata items ↔
      kindOf entry.1 entry.2.regular = kind ∧ entry.1 ∈ items.map FileItem.name := by
  rw [mem_doomed]
  constructor
  · rintro ⟨item, hitem, hname | ⟨hmetadata, hname⟩⟩
    · obtain ⟨entry', hentry', hname', hkind⟩ := hitems item hitem
      rw [Directory.eq_of_name hentry hentry' (hname.trans hname'.symm)]
      exact ⟨hkind, List.mem_map.mpr ⟨item, hitem, hname'.symm⟩⟩
    · rw [hname] at hother
      exact absurd (kindOf_metadataOf_of_takes hitems hitem (htakes.2 hmetadata)) hother
  · rintro ⟨-, hmem⟩
    obtain ⟨item, hitem, hname⟩ := List.mem_map.mp hmem
    exact ⟨item, hitem, .inl hname.symm⟩

/-- The metadata of an archive goes only with the archive. -/
theorem metadataOf_notMem_doomed {dir : Directory Data} {kind : Kind} {metadata : Bool}
    {items : List FileItem} {entry : Name × File Data} (hitems : FromKind dir kind items)
    (htakes : Takes metadata kind) (hentry : entry ∈ dir.entries)
    (harchive : kindOf entry.1 entry.2.regular = .archive)
    (hstays : kind = .archive → entry.1 ∉ items.map FileItem.name) :
    metadataOf entry.1 ∉ doomed metadata items := by
  rw [mem_doomed]
  rintro ⟨item, hitem, hname | ⟨-, hname⟩⟩
  · obtain ⟨entry', -, hname', hkind⟩ := hitems item hitem
    rw [hname', ← hname, kindOf_metadataOf ((hasPrefix_of_kind (.inl harchive)).imp
      hasPrefix_metadataOf hasPrefix_metadataOf)] at hkind
    exact htakes.1 hkind.symm
  · obtain ⟨entry', hentry', hname', hkind⟩ := hitems item hitem
    have hsame := metadataOf_injective hname
    rw [← Directory.eq_of_name hentry hentry' (hsame.trans hname'.symm), harchive] at hkind
    exact hstays hkind.symm (List.mem_map.mpr ⟨item, hitem, hsame.symm⟩)

theorem notMem_orphans {dir : Directory Data} {entry : Name × File Data}
    (hother : kindOf entry.1 entry.2.regular ≠ .other) :
    entry.1 ∉ doomed false (orphanMetadata dir) := by
  rw [mem_doomed]
  rintro ⟨item, hitem, hname | ⟨hfalse, -⟩⟩
  · obtain ⟨orphan, -, horphan, horphanName⟩ :=
      mem_orphanMetadata.mp (List.mem_map_of_mem hitem)
    obtain ⟨name, hmetadata, hstart, -⟩ := isOrphan_name horphan
    rw [hname, ← horphanName, hmetadata] at hother
    exact hother (kindOf_metadataOf (.inl hstart))
  · cases hfalse

theorem metadataOf_notMem_orphans {dir : Directory Data} {entry : Name × File Data}
    (hentry : entry ∈ dir.entries) (harchive : kindOf entry.1 entry.2.regular = .archive) :
    metadataOf entry.1 ∉ doomed false (orphanMetadata dir) := by
  rw [mem_doomed]
  rintro ⟨item, hitem, hname | ⟨hfalse, -⟩⟩
  · obtain ⟨orphan, -, horphan, horphanName⟩ :=
      mem_orphanMetadata.mp (List.mem_map_of_mem hitem)
    obtain ⟨name, hmetadata, -, hnone⟩ := isOrphan_name horphan
    have hsame : entry.1 = name :=
      metadataOf_injective (hname.trans (horphanName.symm.trans hmetadata))
    rw [← hsame, isArchive_iff.mpr ⟨entry, hentry, rfl, harchive⟩] at hnone
    cases hnone
  · cases hfalse

/-- All names that go when the archives `gone` do. -/
def removedNames (host : Host Data) (dir : Directory Data) (keepCount : Nat)
    (gone : List FileItem) : List Name :=
  doomed false (orphanMetadata dir) ++ (doomed true gone ++
    (doomed true ((rollbacks host dir).drop keepCount) ++
      (doomed false ((composeFiles host dir).drop keepCount) ++
        (doomed false ((auxiliary host dir).drop keepCount) ++
          doomed false ((preRestores host dir).drop keepCount)))))

section Names

variable {host : Host Data} {dir : Directory Data} {keepCount : Nat} {gone : List FileItem}
  {entry : Name × File Data}

theorem fromKind_drop (kind : Kind) :
    FromKind dir kind ((itemsOf host dir kind).drop keepCount) :=
  fromKind_of_subset (List.drop_subset _ _)

theorem mem_removedNames (hgone : FromKind dir .archive gone) (hentry : entry ∈ dir.entries)
    (hother : kindOf entry.1 entry.2.regular ≠ .other) :
    entry.1 ∈ removedNames host dir keepCount gone ↔
      entry.1 ∈ ((if kindOf entry.1 entry.2.regular = .archive then gone else
        (itemsOf host dir (kindOf entry.1 entry.2.regular)).drop keepCount).map
          FileItem.name) := by
  have hrest : ∀ kind metadata, Takes metadata kind →
      (entry.1 ∈ doomed metadata ((itemsOf host dir kind).drop keepCount) ↔
        kindOf entry.1 entry.2.regular = kind ∧
          entry.1 ∈ ((itemsOf host dir kind).drop keepCount).map FileItem.name) :=
    fun kind metadata htakes => mem_doomed_iff (fromKind_drop kind) htakes hentry hother
  simp only [removedNames, rollbacks, composeFiles, auxiliary, preRestores, List.mem_append,
    notMem_orphans hother, mem_doomed_iff hgone takes_archive hentry hother, false_or,
    hrest _ _ takes_rollback, hrest .compose false (takes_alone (by decide)),
    hrest .auxiliary false (takes_alone (by decide)),
    hrest .preRestore false (takes_alone (by decide))]
  cases hkind : kindOf entry.1 entry.2.regular with
  | other => exact absurd hkind hother
  | archive => simp
  | rollback => simp
  | compose => simp
  | auxiliary => simp
  | preRestore => simp

theorem metadataOf_notMem_removedNames (hgone : FromKind dir .archive gone)
    (hentry : entry ∈ dir.entries) (harchive : kindOf entry.1 entry.2.regular = .archive)
    (hstays : entry.1 ∉ gone.map FileItem.name) :
    metadataOf entry.1 ∉ removedNames host dir keepCount gone := by
  have hrest : ∀ kind metadata, kind ≠ .archive → Takes metadata kind →
      metadataOf entry.1 ∉ doomed metadata ((itemsOf host dir kind).drop keepCount) :=
    fun kind metadata hkind htakes => metadataOf_notMem_doomed (fromKind_drop kind) htakes hentry
      harchive fun h => absurd h hkind
  simp only [removedNames, List.mem_append, not_or]
  exact ⟨metadataOf_notMem_orphans hentry harchive,
    metadataOf_notMem_doomed hgone takes_archive hentry harchive fun _ => hstays,
    hrest .rollback true (by decide) takes_rollback,
    hrest .compose false (by decide) (takes_alone (by decide)),
    hrest .auxiliary false (by decide) (takes_alone (by decide)),
    hrest .preRestore false (by decide) (takes_alone (by decide))⟩

end Names

end Openlia.Backup.Prune

import Openlia.Operator.Backup.Retention

/-! # What is left after pruning

The directory that a successful run leaves, kind by kind, and the condition under which
it holds all the archives that retention promises.
-/

namespace Openlia.Backup.Prune

open Lib

variable {Data : Type}

/-! ## The directory that is left -/

theorem fileItem_of_ne {host : Host Data} {dir dir' : Directory Data}
    {entry : Name × File Data} (h : kindOf entry.1 entry.2.regular ≠ .archive) :
    fileItem host dir entry = fileItem host dir' entry := by
  unfold fileItem
  split
  · rename_i hkind
    exact absurd hkind h
  · rfl

theorem fileItem_without {host : Host Data} {dir : Directory Data} {names : List Name}
    {entry : Name × File Data} (h : metadataOf entry.1 ∉ names) :
    fileItem host (dir.without names) entry = fileItem host dir entry := by
  unfold fileItem durableBackupCreatedAt readMetadata backupPairSize
  rw [Directory.find?_without h]

theorem verify_without {host : Host Data} {dir : Directory Data} {names : List Name}
    {name : Name} (h : name ∉ names) (hmetadata : metadataOf name ∉ names) :
    verifyDurableBackupArchive host (dir.without names) name =
      verifyDurableBackupArchive host dir name := by
  unfold verifyDurableBackupArchive verifyBackupDigest readMetadata
  rw [Directory.find?_without h, Directory.find?_without hmetadata]

theorem corrupt_of_mem {host : Host Data} {dir : Directory Data} {kind : Kind}
    {item : FileItem} (h : item ∈ itemsOf host dir kind) : item.corrupt = false := by
  obtain ⟨entry, -, -, rfl⟩ := mem_itemsOf.mp h
  unfold fileItem
  split <;> rfl

section Left

variable {host : Host Data} {dir : Directory Data} {keepCount : Nat} {gone : List FileItem}

theorem archives_left (hgone : FromKind dir .archive gone) :
    archives host (dir.without (removedNames host dir keepCount gone)) =
      (archives host dir).filter fun item => item.name ∉ gone.map FileItem.name := by
  have hmem : ∀ entry ∈ dir.entries, kindOf entry.1 entry.2.regular = .archive →
      (entry.1 ∈ removedNames host dir keepCount gone ↔ entry.1 ∈ gone.map FileItem.name) := by
    intro entry hentry hkind
    rw [mem_removedNames hgone hentry (by rw [hkind]; decide), if_pos hkind]
  rw [archives, archives, itemsOf_without]
  · refine List.filter_congr fun item hitem => ?_
    obtain ⟨entry, hentry, hkind, rfl⟩ := mem_itemsOf.mp hitem
    rw [fileItem_name, decide_eq_decide, hmem entry hentry hkind]
  · intro entry hentry hkind hstays
    rw [hmem entry hentry hkind] at hstays
    exact fileItem_without (metadataOf_notMem_removedNames hgone hentry hkind hstays)

theorem itemsOf_left (hgone : FromKind dir .archive gone) {kind : Kind}
    (harchive : kind ≠ .archive) (hother : kind ≠ .other) :
    itemsOf host (dir.without (removedNames host dir keepCount gone)) kind =
      (itemsOf host dir kind).take keepCount := by
  rw [itemsOf_without, ← filter_notMem_drop (nodup_itemsOf host dir kind)]
  · refine List.filter_congr fun item hitem => ?_
    obtain ⟨entry, hentry, rfl, rfl⟩ := mem_itemsOf.mp hitem
    rw [fileItem_name, decide_eq_decide, mem_removedNames hgone hentry hother,
      if_neg harchive]
  · rintro entry - rfl -
    exact fileItem_of_ne harchive

theorem orphans_left (hgone : FromKind dir .archive gone) :
    orphanMetadata (dir.without (removedNames host dir keepCount gone)) = [] := by
  refine List.eq_nil_iff_forall_not_mem.mpr fun item hitem => ?_
  obtain ⟨entry, hentry, horphan, -⟩ := mem_orphanMetadata.mp (List.mem_map_of_mem hitem)
  obtain ⟨hmem, hstays⟩ := Directory.mem_without.mp hentry
  obtain ⟨archive, hmetadata, -, hnone⟩ := isOrphan_name horphan
  simp only [removedNames, List.mem_append, not_or] at hstays
  obtain ⟨hnotOrphan, hnotGone, -⟩ := hstays
  have hwas : isOrphan dir entry = false := by
    refine Bool.eq_false_iff.mpr fun h => hnotOrphan (mem_doomed.mpr ?_)
    obtain ⟨item, hitem, hitemName⟩ :=
      List.mem_map.mp (mem_orphanMetadata.mpr ⟨entry, hmem, h, rfl⟩)
    exact ⟨item, hitem, .inl hitemName.symm⟩
  have harchive : isArchive dir archive = true := by
    simp only [isOrphan, Bool.and_eq_true] at horphan
    rw [isOrphan, horphan.1.1.1, horphan.1.1.2, horphan.1.2, hmetadata, trimJson_metadataOf]
      at hwas
    simpa using hwas
  -- The archive was there and has gone, and its metadata with it.
  obtain ⟨file, hfile, hname', hkind⟩ := isArchive_iff.mp harchive
  have hfileGone : file.1 ∈ gone.map FileItem.name := by
    by_contra hnot
    refine Bool.eq_false_iff.mp hnone (isArchive_iff.mpr ⟨file, Directory.mem_without.mpr
      ⟨hfile, ?_⟩, hname', hkind⟩)
    rwa [mem_removedNames hgone hfile (by rw [hkind]; decide), if_pos hkind]
  obtain ⟨item, hitem, hitemName⟩ := List.mem_map.mp hfileGone
  refine hnotGone (mem_doomed.mpr ⟨item, hitem, .inr ⟨rfl, ?_⟩⟩)
  rw [hmetadata, hitemName, hname']

end Left

/-! ## A run that succeeds -/

/-- The archives after the newest verified one that the count leaves. -/
def counted (keepCount : Nat) (before after : List FileItem) : List FileItem :=
  after.take (keepCount - (before.length + 1))

/-- Of these, those that the budget leaves beside the newest verified one. -/
def keptAfter (maxBytes keepCount : Nat) (before : List FileItem) (newest : FileItem)
    (after : List FileItem) : List FileItem :=
  affordable FileItem.size maxBytes newest.size (counted keepCount before after)

/-- The archives that go, around those that stay. -/
def goneAfter (maxBytes keepCount : Nat) (before : List FileItem) (newest : FileItem)
    (after : List FileItem) : List FileItem :=
  after.drop (keptAfter maxBytes keepCount before newest after).length

theorem prefix_keptAfter (maxBytes keepCount : Nat) (before : List FileItem)
    (newest : FileItem) (after : List FileItem) :
    keptAfter maxBytes keepCount before newest after <+: after :=
  (prefix_affordable _ _).trans (List.take_prefix _ _)

/-- The archives are all unverified, or there is a newest verified one. -/
def Unverified (host : Host Data) (dir : Directory Data) (items : List FileItem) : Prop :=
  ∀ a ∈ items, verifyDurableBackupArchive host dir a.name = false

/-- Removing the orphans changes nothing about an archive. -/
theorem verify_without_orphans {host : Host Data} {dir : Directory Data} {item : FileItem}
    (h : item ∈ archives host dir) :
    verifyDurableBackupArchive host (dir.without (doomed false (orphanMetadata dir))) item.name =
      verifyDurableBackupArchive host dir item.name := by
  obtain ⟨entry, hentry, hkind, rfl⟩ := mem_itemsOf.mp h
  rw [fileItem_name]
  exact verify_without (notMem_orphans (by rw [hkind]; decide))
    (metadataOf_notMem_orphans hentry hkind)

/-- The loops after those over the archives. -/
theorem others_ok {host : Host Data} {dir : Directory Data} {keepCount : Nat}
    {s s' : State Data}
    (h : (do
      removeItems host true ((rollbacks host dir).drop keepCount)
      removeItems host false ((composeFiles host dir).drop keepCount)
      removeItems host false ((auxiliary host dir).drop keepCount)
      removeItems host false ((preRestores host dir).drop keepCount) :
        PruneM Data Unit).run.run s = (.ok (), s')) :
    s'.directory = s.directory.without
      (doomed true ((rollbacks host dir).drop keepCount) ++
        (doomed false ((composeFiles host dir).drop keepCount) ++
          (doomed false ((auxiliary host dir).drop keepCount) ++
            doomed false ((preRestores host dir).drop keepCount)))) := by
  obtain ⟨⟨⟩, s₁, hrollbacks, h⟩ := bind_ok h
  obtain ⟨⟨⟩, s₂, hcompose, h⟩ := bind_ok h
  obtain ⟨⟨⟩, s₃, hauxiliary, hrestores⟩ := bind_ok h
  rw [removeItems_ok hrestores, removeItems_ok hauxiliary, removeItems_ok hcompose,
    removeItems_ok hrollbacks]
  simp only [Directory.without_without, List.append_assoc]

theorem prune_ok {host : Host Data} {dir : Directory Data} {maxBytes keepCount : Nat}
    {s' : State Data}
    (h : (prune host maxBytes keepCount dir).run.run ⟨dir, []⟩ = (.ok (), s')) :
    ∃ gone, s'.directory = dir.without (removedNames host dir keepCount gone) ∧
      ((archives host dir = [] ∧ gone = []) ∨
        ∃ before newest after, archives host dir = before ++ newest :: after ∧
          Unverified host dir before ∧
          verifyDurableBackupArchive host dir newest.name = true ∧
          gone = before.map marked ++
            (after.drop (keepCount - (before.length + 1)) ++
              ((counted keepCount before after).drop
                (keptAfter maxBytes keepCount before newest after).length).reverse)) := by
  obtain ⟨⟨⟩, s, horphans, h⟩ := bind_ok h
  obtain ⟨s₁, s₂, hget, h⟩ := bind_ok h
  cases hget
  have hdir := removeItems_ok horphans
  have hverify : ∀ items ⊆ archives host dir, ∀ a ∈ items,
      verifyDurableBackupArchive host s.directory a.name =
        verifyDurableBackupArchive host dir a.name := by
    intro items hitems a ha
    rw [hdir]
    exact verify_without_orphans (hitems ha)
  rcases markCorrupt_cases (verifyDurableBackupArchive host s.directory) (archives host dir) with
    ⟨hnone, hmark⟩ | ⟨before, newest, after, hsplit, hbefore, hnewest, hmark⟩
  · rw [hmark] at h
    by_cases hempty : archives host dir = []
    · refine ⟨[], ?_, .inl ⟨hempty, rfl⟩⟩
      rw [hempty] at h
      have hothers := others_ok h
      rw [hothers, hdir, Directory.without_without]
      rfl
    · have hfail : (archives host dir).map marked ≠ [] ∧ (none : Option Nat) = none :=
        ⟨fun hnil => hempty (List.map_eq_nil_iff.mp hnil), rfl⟩
      dsimp only at h
      rw [if_pos hfail] at h
      cases h
  · rw [hmark] at h
    have hfresh : ∀ a ∈ newest :: after, a.corrupt = false := fun a ha =>
      @corrupt_of_mem _ host dir .archive _ (by
        rw [← archives, hsplit]
        exact List.mem_append_right _ ha)
    have hnames : newest.name ∉ (counted keepCount before after).map FileItem.name := by
      have hnodup := nodup_itemsOf host dir .archive
      rw [← archives, hsplit, List.map_append, List.map_cons] at hnodup
      intro hmem
      exact (List.nodup_cons.mp (List.nodup_append.mp hnodup).2.1).1
        (List.map_subset _ (List.take_subset _ _) hmem)
    have hprotected : ((some before.length).bind fun index =>
        (before.map marked ++ newest :: after)[index]?).map FileItem.name = some newest.name := by
      simp
    simp only [beyondCount_eq hfresh, retainedArchives_eq hfresh, hprotected] at h
    rw [if_neg (fun hboth => by cases hboth.2)] at h
    obtain ⟨⟨⟩, s₃, hcount, h⟩ := bind_ok h
    obtain ⟨⟨⟩, s₄, hbudget, h⟩ := bind_ok h
    rw [List.reverse_cons] at hbudget
    refine ⟨_, ?_, .inr ⟨before, newest, after, hsplit, fun a ha => ?_, ?_, rfl⟩⟩
    · rw [others_ok h, removeOverBudget_ok hnames hbudget, removeItems_ok hcount, hdir]
      simp only [Directory.without_without, List.append_assoc, removedNames, doomed,
        List.flatMap_append]
      rfl
    · rw [← hverify before (by rw [hsplit]; exact List.subset_append_left _ _) a ha]
      exact hbefore a ha
    · rw [← hverify [newest] (by simp [hsplit]) newest (List.mem_singleton_self _)]
      exact hnewest

/-- The archives that go, by name, are those around the ones that stay. -/
theorem mem_gone {maxBytes keepCount : Nat} {before after : List FileItem} {newest : FileItem}
    {name : Name} :
    name ∈ (before.map marked ++ (after.drop (keepCount - (before.length + 1)) ++
        ((counted keepCount before after).drop
          (keptAfter maxBytes keepCount before newest after).length).reverse)).map FileItem.name ↔
      name ∈ (before ++ goneAfter maxBytes keepCount before newest after).map FileItem.name := by
  have hmarked : (before.map marked).map FileItem.name = before.map FileItem.name := by
    rw [List.map_map]
    rfl
  have hlength : (keptAfter maxBytes keepCount before newest after).length ≤
      (counted keepCount before after).length := (prefix_affordable _ _).length_le
  have hdrop : goneAfter maxBytes keepCount before newest after =
      (counted keepCount before after).drop
          (keptAfter maxBytes keepCount before newest after).length ++
        after.drop (keepCount - (before.length + 1)) := by
    rw [← List.drop_append_of_le_length hlength, counted, List.take_append_drop, goneAfter]
  simp only [hdrop, List.map_append, List.map_reverse, List.mem_append, List.mem_reverse,
    hmarked]
  tauto

/-- A successful run leaves the newest verified archive and those after it that the count
and the budget leave, and of every other kind the newest. -/
theorem left_of_ok {host : Host Data} {dir : Directory Data} {maxBytes keepCount : Nat}
    {s' : State Data}
    (h : (prune host maxBytes keepCount dir).run.run ⟨dir, []⟩ = (.ok (), s')) :
    (∀ kind, kind ≠ .archive → kind ≠ .other →
      itemsOf host s'.directory kind = (itemsOf host dir kind).take keepCount) ∧
    orphanMetadata s'.directory = [] ∧
    ((archives host dir = [] ∧ archives host s'.directory = []) ∨
      ∃ before newest after, archives host dir = before ++ newest :: after ∧
        Unverified host dir before ∧
        verifyDurableBackupArchive host dir newest.name = true ∧
        verifyDurableBackupArchive host s'.directory newest.name = true ∧
        archives host s'.directory =
          newest :: keptAfter maxBytes keepCount before newest after) := by
  obtain ⟨gone, hdir, hcase⟩ := prune_ok h
  have hgone : FromKind dir .archive gone := by
    rcases hcase with ⟨-, rfl⟩ | ⟨before, newest, after, hsplit, -, -, rfl⟩
    · exact fun _ hmem => absurd hmem List.not_mem_nil
    · intro item hitem
      obtain ⟨archive, harchive, hname⟩ := List.mem_map.mp
        (mem_gone.mp (List.mem_map_of_mem (f := FileItem.name) hitem))
      have hmem : archive ∈ itemsOf host dir .archive := by
        rw [← archives, hsplit]
        rcases List.mem_append.mp harchive with hbefore | hafter
        · exact List.mem_append_left _ hbefore
        · exact List.mem_append_right _ (List.mem_cons_of_mem _ (List.drop_subset _ _ hafter))
      obtain ⟨entry, hentry, hkind, rfl⟩ := mem_itemsOf.mp hmem
      exact ⟨entry, hentry, (fileItem_name host dir entry).symm.trans hname, hkind⟩
  rw [hdir]
  refine ⟨fun kind => itemsOf_left hgone, orphans_left hgone, ?_⟩
  rcases hcase with ⟨hempty, rfl⟩ | ⟨before, newest, after, hsplit, hbefore, hnewest, hnames⟩
  · refine .inl ⟨hempty, ?_⟩
    rw [archives_left hgone, hempty]
    rfl
  · refine .inr ⟨before, newest, after, hsplit, hbefore, hnewest, ?_⟩
    have hparts : before ++ newest :: keptAfter maxBytes keepCount before newest after ++
        goneAfter maxBytes keepCount before newest after = archives host dir := by
      rw [goneAfter, hsplit, List.append_assoc, List.cons_append,
        List.prefix_iff_eq_append.mp (prefix_keptAfter maxBytes keepCount before newest after)]
    have hleft : archives host (dir.without (removedNames host dir keepCount gone)) =
        newest :: keptAfter maxBytes keepCount before newest after := by
      have hnodup := nodup_itemsOf host dir .archive
      rw [← archives, ← hparts] at hnodup
      rw [archives_left hgone, ← filter_around hnodup, hparts]
      refine List.filter_congr fun item _ => ?_
      rw [decide_eq_decide, hnames, mem_gone]
    refine ⟨?_, hleft⟩
    have hmem : newest ∈ archives host (dir.without (removedNames host dir keepCount gone)) := by
      rw [hleft]
      exact List.mem_cons_self
    obtain ⟨entry, hentry, hkind, hitem⟩ := mem_itemsOf.mp hmem
    obtain ⟨hentry, hstays⟩ := Directory.mem_without.mp hentry
    have hname : entry.1 = newest.name := by
      rw [← hitem, fileItem_name]
    rw [← hname] at hnewest ⊢
    refine (verify_without hstays (metadataOf_notMem_removedNames hgone hentry hkind ?_)).trans
      hnewest
    rwa [mem_removedNames hgone hentry (by rw [hkind]; decide), if_pos hkind] at hstays

/-! ## The promise -/

/-- The verified archives, newest first. -/
def verified (host : Host Data) (dir : Directory Data) : List FileItem :=
  (archives host dir).filter fun item => verifyDurableBackupArchive host dir item.name

/-- What retention promises of the directory `left` after a run over `dir`. -/
structure Promised (host : Host Data) (backupMaxBytes keepCount : Int)
    (dir left : Directory Data) : Prop where
  newest : ∀ a, (verified host dir).head? = some a →
    a ∈ archives host left ∧ verifyDurableBackupArchive host left a.name = true
  count : load FileItem.size ((verified host dir).take (retention keepCount)) ≤
      budgetOf backupMaxBytes →
    ∀ a ∈ (verified host dir).take (retention keepCount), a ∈ archives host left
  budget : load FileItem.size (archives host left) ≤ budgetOf backupMaxBytes ∨
    ∃ a, (verified host dir).head? = some a ∧ archives host left = [a]
  others : ∀ kind, kind ≠ .archive → kind ≠ .other →
    itemsOf host left kind = (itemsOf host dir kind).take (retention keepCount)
  orphans : orphanMetadata left = []
  again : pruneBackups host backupMaxBytes keepCount left = (.ok (), ⟨left, []⟩)

/-- Where the newest verified archives fit the budget: each after the newest is early
enough among all archives, and fits together with all between. -/
def Reached (host : Host Data) (backupMaxBytes keepCount : Int) (dir : Directory Data) : Prop :=
  load FileItem.size ((verified host dir).take (retention keepCount)) ≤
      budgetOf backupMaxBytes →
    ∀ before newest between a rest,
      archives host dir = before ++ newest :: (between ++ a :: rest) →
      Unverified host dir before → verifyDurableBackupArchive host dir newest.name = true →
      a ∈ (verified host dir).take (retention keepCount) →
      before.length + between.length + 1 < retention keepCount ∧
        newest.size + load FileItem.size (between ++ [a]) ≤ budgetOf backupMaxBytes

theorem retention_pos (keepCount : Int) : 0 < retention keepCount := by
  unfold retention defaultBackupRetention
  split <;> omega

theorem verified_eq {host : Host Data} {dir : Directory Data} {before after : List FileItem}
    {newest : FileItem} (hsplit : archives host dir = before ++ newest :: after)
    (hbefore : Unverified host dir before)
    (hnewest : verifyDurableBackupArchive host dir newest.name = true) :
    verified host dir = newest ::
      after.filter fun item => verifyDurableBackupArchive host dir item.name := by
  rw [verified, hsplit, List.filter_append, List.filter_cons, if_pos hnewest,
    List.filter_eq_nil_iff.mpr, List.nil_append]
  intro a ha
  rw [hbefore a ha]
  exact Bool.false_ne_true

/-- There is one newest verified archive. -/
theorem newest_unique {host : Host Data} {dir : Directory Data}
    {before before' after after' : List FileItem} {newest newest' : FileItem}
    (h : before ++ newest :: after = before' ++ newest' :: after')
    (hbefore : Unverified host dir before) (hbefore' : Unverified host dir before')
    (hnewest : verifyDurableBackupArchive host dir newest.name = true)
    (hnewest' : verifyDurableBackupArchive host dir newest'.name = true) :
    before = before' ∧ newest = newest' ∧ after = after' := by
  have hwhile : ∀ (xs : List FileItem) (a : FileItem) (ys : List FileItem),
      Unverified host dir xs → verifyDurableBackupArchive host dir a.name = true →
      (xs ++ a :: ys).takeWhile (fun b => !verifyDurableBackupArchive host dir b.name) = xs := by
    intro xs a ys hxs ha
    rw [List.takeWhile_append_of_pos fun b hb => by rw [hxs b hb]; rfl,
      List.takeWhile_cons_of_neg (by rw [ha]; exact Bool.false_ne_true), List.append_nil]
  have heq : before = before' := by
    rw [← hwhile before newest after hbefore hnewest, h, hwhile before' newest' after' hbefore'
      hnewest']
  subst heq
  obtain ⟨hhead, htail⟩ := List.cons.inj (List.append_cancel_left h)
  exact ⟨rfl, hhead, htail⟩

/-- An archive after the newest verified one stays exactly where it is early enough and
the budget affords it. -/
theorem mem_keptAfter {maxBytes keepCount : Nat} {before between rest : List FileItem}
    {newest a : FileItem} (h : (between ++ a :: rest).Nodup) :
    a ∈ keptAfter maxBytes keepCount before newest (between ++ a :: rest) ↔
      before.length + between.length + 1 < keepCount ∧
        newest.size + load FileItem.size (between ++ [a]) ≤ maxBytes := by
  constructor
  · intro hmem
    obtain ⟨between', rest', hcounted, hfits⟩ := exists_of_mem_affordable hmem
    have hlength := congrArg List.length hcounted
    rw [counted, List.length_take, List.length_append, List.length_append, List.length_cons,
      List.length_cons] at hlength
    have hwhole : between' ++ a :: (rest' ++
        (between ++ a :: rest).drop (keepCount - (before.length + 1))) =
          between ++ a :: rest := by
      rw [← List.cons_append, ← List.append_assoc, ← hcounted, counted, List.take_append_drop]
    obtain ⟨-, hnotRest, hnotBetween⟩ := List.nodup_append.mp h
    obtain ⟨heq, -, -⟩ := (List.append_cons_inj_of_notMem
      (fun hmem => hnotBetween a hmem a List.mem_cons_self rfl)
      (List.nodup_cons.mp hnotRest).1).mp hwhole.symm
    subst heq
    exact ⟨by omega, hfits⟩
  · rintro ⟨hcount, hfits⟩
    have hcounted : counted keepCount before (between ++ a :: rest) =
        between ++ a :: rest.take (keepCount - (before.length + 1) - between.length - 1) := by
      rw [counted, List.take_append, List.take_of_length_le (by omega),
        List.take_cons (by omega)]
    rw [keptAfter, hcounted]
    exact mem_affordable_of_le hfits

/-- Pruning the directory that a run left finds nothing to do. -/
theorem again_of_left {host : Host Data} {left : Directory Data} {maxBytes keepCount : Nat}
    (hothers : ∀ kind, kind ≠ .archive → kind ≠ .other →
      (itemsOf host left kind).drop keepCount = [])
    (horphans : orphanMetadata left = [])
    (harchives : archives host left = [] ∨ ∃ newest after, archives host left = newest :: after ∧
      verifyDurableBackupArchive host left newest.name = true ∧
      after.length < keepCount ∧
      (after = [] ∨ load FileItem.size (newest :: after) ≤ maxBytes)) :
    (prune host maxBytes keepCount left).run.run ⟨left, []⟩ = (.ok (), ⟨left, []⟩) := by
  have hrollbacks := hothers .rollback (by decide) (by decide)
  have hcompose := hothers .compose (by decide) (by decide)
  have hauxiliary := hothers .auxiliary (by decide) (by decide)
  have hrestores := hothers .preRestore (by decide) (by decide)
  simp only [prune, horphans, rollbacks, composeFiles, auxiliary, preRestores, hrollbacks,
    hcompose, hauxiliary, hrestores]
  rcases harchives with hempty | ⟨newest, after, hsplit, hnewest, hcount, hbudget⟩
  · rw [hempty]
    rfl
  · have hfresh : ∀ a ∈ newest :: after, a.corrupt = false := fun a ha =>
      @corrupt_of_mem _ host left .archive _ (by rwa [← archives, hsplit])
    have hmark : markCorrupt (verifyDurableBackupArchive host left) (archives host left) =
        (newest :: after, some 0) := by
      rw [hsplit, markCorrupt, if_pos hnewest]
    have hbeyond : beyondCount keepCount (some 0) (newest :: after) = [] := by
      refine (@beyondCount_eq [] after newest hfresh keepCount).trans ?_
      rw [List.map_nil, List.nil_append, List.drop_eq_nil_iff, List.length_nil]
      omega
    have hretained : retainedArchives keepCount (some 0) (newest :: after) =
        newest :: after := by
      refine (@retainedArchives_eq [] after newest hfresh keepCount).trans ?_
      rw [List.length_nil, List.take_of_length_le (by omega)]
    have hname : ((some 0).bind fun index : Nat => (newest :: after)[index]?).map
        FileItem.name = some newest.name := rfl
    have hloop : removeOverBudget host (some newest.name) maxBytes (newest :: after).reverse
        (load FileItem.size (newest :: after)) = pure () := by
      rcases hbudget with rfl | hfits
      · rw [List.reverse_singleton, removeOverBudget]
        split
        · rfl
        · rw [if_pos rfl]
          rfl
      · cases hreverse : (newest :: after).reverse with
        | nil => rfl
        | cons item items => rw [removeOverBudget, if_pos hfits]
    have hget : (get : PruneM Data (State Data)).run.run ⟨left, []⟩ =
        (.ok ⟨left, []⟩, ⟨left, []⟩) := rfl
    simp only [removeItems, pure_bind]
    rw [run_bind, hget]
    dsimp only
    rw [hmark]
    dsimp only
    rw [if_neg (fun hboth => by cases hboth.2), hbeyond, hretained, hname, hloop]
    rfl

/-- Where no archive can be verified, only orphan metadata goes, and the run fails. -/
theorem unverified_fails {host : Host Data} {dir : Directory Data} {maxBytes keepCount : Nat}
    (hsome : archives host dir ≠ []) (hnone : Unverified host dir (archives host dir)) :
    ((prune host maxBytes keepCount dir).run.run ⟨dir, []⟩).1 ≠ .ok () ∧
      ∀ entry ∈ dir.entries, isOrphan dir entry = false →
        entry ∈ ((prune host maxBytes keepCount dir).run.run ⟨dir, []⟩).2.directory.entries := by
  have hfails : ∀ s', (prune host maxBytes keepCount dir).run.run ⟨dir, []⟩ ≠ (.ok (), s') := by
    intro s' h
    obtain ⟨gone, -, ⟨hempty, -⟩ | ⟨before, newest, after, hsplit, -, hnewest, -⟩⟩ := prune_ok h
    · exact hsome hempty
    · have hmem : newest ∈ archives host dir := by simp [hsplit]
      rw [hnone newest hmem] at hnewest
      cases hnewest
  refine ⟨fun h => hfails _ (Prod.ext h rfl), fun entry hentry horphan => ?_⟩
  have honly := @only_removeItems _ host (orphanMetadata dir)
    ((orphanMetadata dir).map FileItem.name) fun item hitem => List.mem_map_of_mem hitem
  have hname : entry.1 ∉ (orphanMetadata dir).map FileItem.name := by
    intro hmem
    obtain ⟨orphan, horphanMem, hisOrphan, hname⟩ := mem_orphanMetadata.mp hmem
    rw [Directory.eq_of_name horphanMem hentry hname, horphan] at hisOrphan
    cases hisOrphan
  have hstays := honly ⟨dir, []⟩ entry hentry hname
  rw [prune, run_bind]
  cases horphans : (removeItems host false (orphanMetadata dir)).run.run ⟨dir, []⟩ with
  | mk r s =>
      rw [horphans] at hstays
      cases r with
      | error e => exact hstays
      | ok a =>
          have hget : (get : PruneM Data (State Data)).run.run s = (.ok s, s) := rfl
          have hdir := removeItems_ok horphans
          have hmark : markCorrupt (verifyDurableBackupArchive host s.directory)
              (archives host dir) = ((archives host dir).map marked, none) := by
            rcases markCorrupt_cases (verifyDurableBackupArchive host s.directory)
              (archives host dir) with ⟨-, hmark⟩ | ⟨before, newest, after, hsplit, -, hnewest, -⟩
            · exact hmark
            · have hmem : newest ∈ archives host dir := by simp [hsplit]
              rw [hdir, verify_without_orphans hmem, hnone newest hmem] at hnewest
              cases hnewest
          have hfail : (archives host dir).map marked ≠ [] ∧ (none : Option Nat) = none :=
            ⟨fun hnil => hsome (List.map_eq_nil_iff.mp hnil), rfl⟩
          dsimp only
          rw [run_bind, hget]
          dsimp only
          rw [hmark]
          dsimp only
          rw [if_pos hfail]
          exact hstays

/-- What a successful run leaves keeps every promise but that of the count. -/
theorem promised_iff {host : Host Data} {dir left : Directory Data}
    {backupMaxBytes keepCount : Int} {removed : List Name}
    (h : pruneBackups host backupMaxBytes keepCount dir = (.ok (), ⟨left, removed⟩)) :
    Promised host backupMaxBytes keepCount dir left ↔
      (load FileItem.size ((verified host dir).take (retention keepCount)) ≤
          budgetOf backupMaxBytes →
        ∀ a ∈ (verified host dir).take (retention keepCount), a ∈ archives host left) := by
  refine ⟨Promised.count, fun hcount => ?_⟩
  obtain ⟨hothers, horphans, hcase⟩ := left_of_ok h
  have hrest : ∀ kind, kind ≠ .archive → kind ≠ .other →
      (itemsOf host left kind).drop (retention keepCount) = [] := by
    intro kind harchive hother
    rw [hothers kind harchive hother, List.drop_eq_nil_iff]
    exact List.length_take_le _ _
  rcases hcase with ⟨hempty, hleft⟩ |
    ⟨before, newest, after, hsplit, hbefore, hnewest, hstill, hleft⟩
  · have hnone : verified host dir = [] := by rw [verified, hempty]; rfl
    exact
      { newest := fun a ha => by rw [hnone] at ha; cases ha
        count := hcount
        budget := .inl (by dsimp only at hleft; rw [hleft]; exact Nat.zero_le _)
        others := hothers
        orphans := horphans
        again := again_of_left hrest horphans (.inl hleft) }
  · dsimp only at hleft hstill
    have hhead : (verified host dir).head? = some newest := by
      rw [verified_eq hsplit hbefore hnewest]
      rfl
    have hbudget := @load_affordable _ FileItem.size (budgetOf backupMaxBytes)
      newest.size (counted (retention keepCount) before after)
    rw [← keptAfter] at hbudget
    refine
      { newest := fun a ha => ?_
        count := hcount
        budget := ?_
        others := hothers
        orphans := horphans
        again := again_of_left hrest horphans (.inr ⟨newest, _, hleft, hstill, ?_, hbudget⟩) }
    · obtain rfl := Option.some.inj (hhead.symm.trans ha)
      rw [hleft]
      exact ⟨List.mem_cons_self, hstill⟩
    · rw [hleft]
      rcases hbudget with hnil | hfits
      · exact .inr ⟨newest, hhead, by rw [hnil]⟩
      · exact .inl hfits
    · have hlength := (@prefix_affordable _ FileItem.size (budgetOf backupMaxBytes)
        newest.size (counted (retention keepCount) before after)).length_le
      have hpos := retention_pos keepCount
      rw [← keptAfter, counted, List.length_take] at hlength
      omega

theorem nodup_archives {host : Host Data} {dir : Directory Data} {before after : List FileItem}
    {newest : FileItem} (h : archives host dir = before ++ newest :: after) :
    (newest :: after).Nodup := by
  have hnodup := (nodup_itemsOf host dir .archive).of_map
  rw [← archives, h] at hnodup
  exact (List.nodup_append.mp hnodup).2.1

/-- A host whose archives and metadata are read as they are; every time is that of the file. -/
def plainHost : Host backupMetadata where
  unmarshal := some
  parseTime := fun _ => none
  fileSHA256 := backupMetadata.sha256
  refuses := fun _ => false

/-- An archive of a day, with metadata that names its digest. -/
def archiveOf (day : Nat) (digest : String) : List (Name × File backupMetadata) :=
  let name := ("openlia-" ++ toString day ++ ".tar.gz.age").toList
  [(name, ⟨true, day, 10, some ⟨[], [], "found".toList, false, []⟩⟩),
    (metadataOf name,
      ⟨true, day, 1, some ⟨"durable".toList, name, digest.toList, true, []⟩⟩)]

/-- Three archives of which the newest has another digest than its metadata says. -/
def threeArchives : Directory backupMetadata where
  entries := archiveOf 3 "other" ++ archiveOf 2 "found" ++ archiveOf 1 "found"
  distinct := by decide

end Openlia.Backup.Prune

import Mathlib.Data.List.Flatten
import Openlia.Operator.Backup.Remote

/-! # What remote retention keeps

The promise is about the archives of the destination itself: those directly in it with a timestamp
in the name. Both listings find more than these. The retention keeps its promise at every time just
when nothing else that is found carries a time, but for the first in the order.
-/

namespace Openlia.Backup.Remote

open Lib

/-! ## The promise -/

/-- An archive of the destination: directly in it, of one line, dated by its name. -/
def isArchive (name : Name) : Bool :=
  decide ('/' ∉ name) && decide ('\n' ∉ name) && hasArchiveName name && (backupTimestamp name).isSome

def withMetadata (names : List Name) : List Name := names.flatMap fun name => [name, metadataOf name]

namespace Destination

def archives (D : Destination) : List Name := D.keys.filter isArchive

/-- An archive is newer by its timestamp, or by its name in the same second. -/
def HasNewer (D : Destination) (a : Name) : Prop :=
  ∃ b ∈ D.archives, rank rsyncTime a < rank rsyncTime b

instance (D : Destination) (a : Name) : Decidable (D.HasNewer a) :=
  inferInstanceAs (Decidable (∃ b ∈ D.archives, rank rsyncTime a < rank rsyncTime b))

/-- The archives before a time, but the newest of all. -/
def outdated (D : Destination) (limit : Int) : List Name :=
  D.archives.filter fun a => rsyncTime a < limit ∧ D.HasNewer a

/-- What the retention promises: the outdated archives go with their metadata, nothing else. -/
def kept (D : Destination) (limit : Int) : Destination := D.without (withMetadata (D.outdated limit))

end Destination

/-! ## Removals -/

section Without

variable {D : Destination} {ks ks' : List Name} {k : Name}

theorem Destination.ext {D D' : Destination} (h : D.objects = D'.objects) : D = D' := by
  cases D
  cases D'
  cases h
  rfl

theorem keys_without : (D.without ks).keys = D.keys.filter fun k => !ks.contains k := by
  rw [Destination.keys, Destination.keys, List.filter_map]
  rfl

theorem mem_keys_without : k ∈ (D.without ks).keys ↔ k ∈ D.keys ∧ k ∉ ks := by
  simp [keys_without]

theorem without_without : (D.without ks).without ks' = D.without (ks ++ ks') := by
  apply Destination.ext
  simp only [Destination.without, List.filter_filter]
  refine List.filter_congr fun o _ => ?_
  simp [Bool.and_comm]

theorem without_nil : D.without [] = D := by
  apply Destination.ext
  simp [Destination.without]

/-- Removals are the same when they are of the same keys. -/
theorem without_eq_iff : D.without ks = D.without ks' ↔ ∀ k ∈ D.keys, k ∈ ks ↔ k ∈ ks' := by
  constructor
  · intro h k hk
    have hmem : k ∈ (D.without ks).keys ↔ k ∈ (D.without ks').keys := by rw [h]
    rw [mem_keys_without, mem_keys_without] at hmem
    rwa [and_iff_right hk, and_iff_right hk, not_iff_not] at hmem
  · intro h
    apply Destination.ext
    refine List.filter_congr fun o ho => ?_
    have hkey := h o.key (List.mem_map_of_mem ho)
    rw [Bool.eq_iff_iff, Bool.not_eq_true', Bool.not_eq_true', ← Bool.not_eq_true,
      ← Bool.not_eq_true, List.contains_iff_mem, List.contains_iff_mem, hkey]

theorem without_of_notMem (h : ∀ k ∈ ks, k ∉ D.keys) : D.without ks = D := by
  rw [← @without_nil D, without_without, List.nil_append, without_eq_iff]
  exact fun k hk => ⟨fun hks => absurd hk (h k hks), fun hnil => by cases hnil⟩

theorem mem_withMetadata {names : List Name} :
    k ∈ withMetadata names ↔ ∃ x ∈ names, k = x ∨ k = metadataOf x := by
  simp [withMetadata]

theorem foldl_without (items : List Name) (D : Destination) :
    items.foldl (fun D key => D.without [key, metadataOf key]) D = D.without (withMetadata items) := by
  induction items generalizing D with
  | nil => exact without_nil.symm
  | cons x items ih => rw [List.foldl_cons, ih, without_without, withMetadata, withMetadata,
      List.flatMap_cons]

theorem isDirectory_without (h : ∀ k ∈ ks, '/' ∉ k) (name : Name) :
    (D.without ks).isDirectory name = D.isDirectory name := by
  rw [Bool.eq_iff_iff, Destination.isDirectory, Destination.isDirectory, List.any_eq_true,
    List.any_eq_true]
  constructor
  · rintro ⟨k, hk, hinside⟩
    exact ⟨k, (mem_keys_without.mp hk).1, hinside⟩
  · rintro ⟨k, hk, hinside⟩
    refine ⟨k, mem_keys_without.mpr ⟨hk, fun hks => h k hks ?_⟩, hinside⟩
    exact (List.isPrefixOf_iff_prefix.mp hinside).subset (by simp)

/-- A run over another host's files ends well when it comes to no directory. -/
theorem foldlM_rm {items : List Name} (hitems : ∀ x ∈ items, '/' ∉ x) (D : Destination) :
    items.foldlM (fun D item => do rm (← rm D item) (metadataOf item)) D =
      if ∀ x ∈ items, D.isDirectory x = false ∧ D.isDirectory (metadataOf x) = false then
        some (D.without (withMetadata items)) else none := by
  induction items generalizing D with
  | nil => simpa [withMetadata] using without_nil.symm
  | cons x items ih =>
      obtain ⟨hx, hitems⟩ := List.forall_mem_cons.mp hitems
      have hmeta : '/' ∉ metadataOf x := by
        simpa [metadataOf] using hx
      have hsingle : ∀ name, (D.without [x]).isDirectory name = D.isDirectory name :=
        isDirectory_without (by simpa using hx)
      have hpair : ∀ name, (D.without [x, metadataOf x]).isDirectory name = D.isDirectory name :=
        isDirectory_without (by simpa using ⟨hx, hmeta⟩)
      rw [List.foldlM_cons]
      by_cases hdir : D.isDirectory x = true
      · have hnot : ¬ ∀ y ∈ x :: items, D.isDirectory y = false ∧
            D.isDirectory (metadataOf y) = false := fun h => by
          simp [(h x List.mem_cons_self).1] at hdir
        rw [if_neg hnot, rm, if_pos hdir]
        rfl
      by_cases hdir' : D.isDirectory (metadataOf x) = true
      · have hnot : ¬ ∀ y ∈ x :: items, D.isDirectory y = false ∧
            D.isDirectory (metadataOf y) = false := fun h => by
          simp [(h x List.mem_cons_self).2] at hdir'
        rw [if_neg hnot, rm, if_neg hdir]
        show ((rm (D.without [x]) (metadataOf x)).bind _) = _
        rw [rm, hsingle, if_pos hdir']
        rfl
      have hstep : (do rm (← rm D x) (metadataOf x) : Option Destination) =
          some (D.without [x, metadataOf x]) := by
        rw [rm, if_neg hdir]
        show rm (D.without [x]) (metadataOf x) = _
        rw [rm, hsingle, if_neg hdir', without_without]
        rfl
      rw [hstep]
      show items.foldlM _ (D.without [x, metadataOf x]) = _
      rw [ih hitems, without_without]
      simp only [hpair, List.forall_mem_cons]
      rw [Bool.not_eq_true] at hdir hdir'
      simp [hdir, hdir', withMetadata]

end Without

/-! ## A listing -/

/-- Something listed comes before it, or it is listed twice. -/
def Behind (time : Name → Int) (items : List Name) (x : Name) : Prop :=
  (∃ b ∈ items, rank time x < rank time b) ∨ 2 ≤ items.count x

/-- Behind the first of the list only archives of the destination carry a time, and not the newest;
all others of them do. -/
structure Unmixed (D : Destination) (time : Name → Int) (items : List Name) : Prop where
  strays : ∀ x ∈ items, x ∉ D.archives → time x ≠ 0 → Behind time items x →
    x ∉ D.keys ∧ metadataOf x ∉ D.keys
  newest : ∀ a ∈ D.archives, ¬ D.HasNewer a → rsyncTime a ≠ 0 → ¬ Behind time items a
  dated : ∀ a ∈ D.archives, D.HasNewer a → rsyncTime a ≠ 0

section Listing

variable {D : Destination} {time : Name → Int} {items : List Name} {x a : Name} {limit : Int}

theorem rank_injective : Function.Injective (rank time) := fun _ _ h => congrArg (·.2) h

theorem mem_targets : x ∈ targets time limit items ↔
    x ∈ items ∧ time x ≠ 0 ∧ time x < limit ∧ Behind time items x := by
  rw [targets, List.mem_filter, mem_tail_newestFirst rank_injective, expiredAt, Bool.and_eq_true,
    decide_eq_true_eq, decide_eq_true_eq]
  exact ⟨fun h => ⟨h.1.1, h.2.1, h.2.2, h.1.2⟩, fun h => ⟨⟨h.1, h.2.2.2⟩, h.2.1, h.2.2.1⟩⟩

theorem mem_outdated : a ∈ D.outdated limit ↔ a ∈ D.archives ∧ rsyncTime a < limit ∧ D.HasNewer a := by
  rw [Destination.outdated, List.mem_filter, decide_eq_true_eq]

theorem metadataOf_inj (h : metadataOf x = metadataOf a) : x = a := List.append_cancel_right h

theorem metadataOf_ne (hx : ".tar.gz.age".toList <:+ x) : x ≠ metadataOf a := by
  intro h
  obtain ⟨start, rfl⟩ := hx
  have hlast := congrArg List.getLast? h
  simp [metadataOf] at hlast

/-- The retention keeps its promise at every time just when the listing is not mixed up. -/
theorem agrees_iff (harchives : ∀ a ∈ D.archives, a ∈ items ∧ time a = rsyncTime a)
    (hitems : ∀ x ∈ items, ".tar.gz.age".toList <:+ x) :
    (∀ limit, D.without (withMetadata (targets time limit items)) = D.kept limit) ↔
      Unmixed D time items := by
  have hkey : ∀ a ∈ D.archives, a ∈ D.keys := fun a ha => (List.mem_filter.mp ha).1
  constructor
  · intro h
    have hagree : ∀ limit, ∀ k ∈ D.keys, (∃ x ∈ targets time limit items, k = x ∨ k = metadataOf x) →
        ∃ a ∈ D.outdated limit, k = a ∨ k = metadataOf a := fun limit k hk hx =>
      mem_withMetadata.mp ((without_eq_iff.mp (h limit) k hk).mp (mem_withMetadata.mpr hx))
    have htarget : ∀ x ∈ items, time x ≠ 0 → Behind time items x →
        x ∈ targets time (time x + 1) items := fun x hx htime hbehind =>
      mem_targets.mpr ⟨hx, htime, by omega, hbehind⟩
    constructor
    · intro x hx hstray htime hbehind
      refine ⟨fun hk => ?_, fun hk => ?_⟩
      · obtain ⟨a, ha, rfl | heq⟩ := hagree _ x hk ⟨x, htarget x hx htime hbehind, Or.inl rfl⟩
        · exact hstray (mem_outdated.mp ha).1
        · exact metadataOf_ne (hitems x hx) heq
      · obtain ⟨a, ha, heq | heq⟩ := hagree _ _ hk ⟨x, htarget x hx htime hbehind, Or.inr rfl⟩
        · exact metadataOf_ne (hitems a (harchives a (mem_outdated.mp ha).1).1) heq.symm
        · exact hstray (metadataOf_inj heq ▸ (mem_outdated.mp ha).1)
    · intro a ha hnewest htime hbehind
      obtain ⟨hmem, heq⟩ := harchives a ha
      obtain ⟨b, hb, rfl | hmeta⟩ := hagree _ a (hkey a ha)
        ⟨a, htarget a hmem (heq ▸ htime) hbehind, Or.inl rfl⟩
      · exact hnewest (mem_outdated.mp hb).2.2
      · exact metadataOf_ne (hitems a hmem) hmeta
    · intro a ha hnewer
      have hout : a ∈ D.outdated (rsyncTime a + 1) := mem_outdated.mpr ⟨ha, by omega, hnewer⟩
      have hk := (without_eq_iff.mp (h (rsyncTime a + 1)) a (hkey a ha)).mpr
        (mem_withMetadata.mpr ⟨a, hout, Or.inl rfl⟩)
      obtain ⟨x, hx, rfl | hmeta⟩ := mem_withMetadata.mp hk
      · rw [← (harchives a ha).2]
        exact (mem_targets.mp hx).2.1
      · exact absurd hmeta (metadataOf_ne (hitems a (harchives a ha).1))
  · intro h limit
    refine without_eq_iff.mpr fun k hk => ?_
    rw [mem_withMetadata, mem_withMetadata]
    constructor
    · rintro ⟨x, hx, hkx⟩
      obtain ⟨hmem, htime, hlt, hbehind⟩ := mem_targets.mp hx
      by_cases harch : x ∈ D.archives
      · have heq := (harchives x harch).2
        by_cases hnewer : D.HasNewer x
        · exact ⟨x, mem_outdated.mpr ⟨harch, heq ▸ hlt, hnewer⟩, hkx⟩
        · exact absurd hbehind (h.newest x harch hnewer (heq ▸ htime))
      · obtain ⟨hx', hmeta⟩ := h.strays x hmem harch htime hbehind
        rcases hkx with rfl | rfl
        · exact absurd hk hx'
        · exact absurd hk hmeta
    · rintro ⟨a, ha, hka⟩
      obtain ⟨harch, hlt, hnewer⟩ := mem_outdated.mp ha
      obtain ⟨hmem, heq⟩ := harchives a harch
      have hbehind : Behind time items a := by
        obtain ⟨b, hb, hrank⟩ := hnewer
        refine Or.inl ⟨b, (harchives b hb).1, ?_⟩
        rwa [rank, rank, heq, (harchives b hb).2]
      exact ⟨a, mem_targets.mpr ⟨hmem, heq ▸ h.dated a harch hnewer, heq ▸ hlt, hbehind⟩, hka⟩

/-- Fewer items with the same times have fewer targets. -/
theorem targets_mono {time' : Name → Int} {items' : List Name} (hsub : items'.Sublist items)
    (htime : ∀ y ∈ items', time' y = time y) (hx : x ∈ targets time' limit items') :
    x ∈ targets time limit items := by
  obtain ⟨hmem, hne, hlt, hbehind⟩ := mem_targets.mp hx
  rw [htime x hmem] at hne hlt
  refine mem_targets.mpr ⟨hsub.subset hmem, hne, hlt, ?_⟩
  rcases hbehind with ⟨b, hb, hrank⟩ | htwice
  · rw [rank, rank, htime x hmem, htime b hb] at hrank
    exact Or.inl ⟨b, hsub.subset hb, hrank⟩
  · exact Or.inr (htwice.trans (hsub.count_le x))

end Listing

/-! ## Both destinations -/

section Destinations

variable {D : Destination} {a x : Name} {ks : List Name} {days now limit : Int}

theorem base_of_notMem (h : '/' ∉ a) : base a = a := by
  rw [base, takeWhile_ne_eq_self (by simpa using h), List.reverse_reverse]

theorem notMem_base (key : Name) : '/' ∉ base key := by
  rw [base, List.mem_reverse]
  intro h
  simpa using List.mem_takeWhile_imp h

theorem hasArchiveName_iff : hasArchiveName x = true ↔
    "openlia-".toList <+: x ∧ ".tar.gz.age".toList <:+ x := by
  rw [hasArchiveName, Bool.and_eq_true, List.isPrefixOf_iff_prefix, List.isSuffixOf_iff_suffix]

theorem mem_archives : a ∈ D.archives ↔ a ∈ D.keys ∧ '/' ∉ a ∧ '\n' ∉ a ∧
    hasArchiveName a = true ∧ (backupTimestamp a).isSome = true := by
  simp only [Destination.archives, List.mem_filter, isArchive, Bool.and_eq_true, decide_eq_true_eq,
    and_assoc]

theorem mem_s3Objects : x ∈ s3Objects D ↔
    x ∈ D.keys ∧ "openlia-".toList <+: base x ∧ ".tar.gz.age".toList <:+ x := by
  simp only [s3Objects, List.mem_map, List.mem_filter, Bool.and_eq_true,
    List.isPrefixOf_iff_prefix, List.isSuffixOf_iff_suffix, Destination.keys]
  constructor
  · rintro ⟨o, ⟨ho, hname⟩, rfl⟩
    exact ⟨⟨o, ho, rfl⟩, hname⟩
  · rintro ⟨⟨o, ho, rfl⟩, hname⟩
    exact ⟨o, ⟨ho, hname⟩, rfl⟩

theorem s3_archives (ha : a ∈ D.archives) : a ∈ s3Objects D ∧ s3Time D a = rsyncTime a := by
  obtain ⟨hkey, hslash, -, hname, hdated⟩ := mem_archives.mp ha
  obtain ⟨hstart, hend⟩ := hasArchiveName_iff.mp hname
  obtain ⟨t, ht⟩ := Option.isSome_iff_exists.mp hdated
  rw [mem_s3Objects, s3Time, rsyncTime, backupObjectTime, backupObjectTime, base_of_notMem hslash, ht]
  exact ⟨⟨hkey, hstart, hend⟩, rfl⟩

theorem trimSpace_archive (h : hasArchiveName a = true) : trimSpace a = a := by
  obtain ⟨⟨rest, rfl⟩, hend⟩ := hasArchiveName_iff.mp h
  obtain ⟨start, hend⟩ := hend
  have hfirst : ("openlia-".toList ++ rest).dropWhile isSpace = "openlia-".toList ++ rest := rfl
  rw [trimSpace, hfirst, ← hend, List.reverse_append]
  have hlast : (".tar.gz.age".toList.reverse ++ start.reverse).dropWhile isSpace =
      ".tar.gz.age".toList.reverse ++ start.reverse := rfl
  rw [hlast, List.reverse_append, List.reverse_reverse, List.reverse_reverse]

theorem rsync_archives (ha : a ∈ D.archives) : a ∈ rsyncItems D ∧ rsyncTime a = rsyncTime a := by
  obtain ⟨hkey, hslash, hline, hname, -⟩ := mem_archives.mp ha
  refine ⟨List.mem_filter.mpr ⟨List.mem_map.mpr ⟨a, ?_, trimSpace_archive hname⟩, hname⟩, rfl⟩
  refine List.mem_flatMap.mpr ⟨a, List.mem_filter.mpr ⟨?_, hname⟩, ?_⟩
  · exact List.mem_map.mpr ⟨a, hkey, base_of_notMem hslash⟩
  · rw [List.splitOn_eq_singleton hline]
    exact List.mem_singleton_self a

theorem mem_trimSpace {c : Char} (h : c ∈ trimSpace x) : c ∈ x := by
  rw [trimSpace, List.mem_reverse] at h
  have h' := (List.dropWhile_suffix _).subset h
  exact (List.dropWhile_suffix _).subset (List.mem_reverse.mp h')

theorem notMem_rsyncItems (hx : x ∈ rsyncItems D) : '/' ∉ x := by
  obtain ⟨line, hline, rfl⟩ := List.mem_map.mp (List.mem_of_mem_filter hx)
  obtain ⟨name, hname, hpiece⟩ := List.mem_flatMap.mp hline
  obtain ⟨key, -, rfl⟩ := List.mem_map.mp (List.mem_of_mem_filter hname)
  intro hslash
  exact notMem_base key ((of_mem_splitOn hpiece).2 _ (mem_trimSpace hslash))

theorem pruneS3_eq : pruneS3BackupsAt D days now =
    D.without (withMetadata (targets (s3Time D) (cutoff now days) (s3Objects D))) :=
  foldl_without _ _

theorem pruneRsync_eq : pruneRsyncBackupsAt D days now =
    if ∀ x ∈ targets rsyncTime (cutoff now days) (rsyncItems D),
        D.isDirectory x = false ∧ D.isDirectory (metadataOf x) = false then
      some (D.without (withMetadata (targets rsyncTime (cutoff now days) (rsyncItems D))))
    else none :=
  foldlM_rm (fun _ hx => notMem_rsyncItems (mem_targets.mp hx).1) D

/-! ### A second run -/

theorem keys_sublist : (D.without ks).keys.Sublist D.keys := by
  rw [keys_without]
  exact List.filter_sublist

theorem lastModified_without (hx : x ∈ (D.without ks).keys) :
    lastModified (D.without ks) x = lastModified D x := by
  have hks : x ∉ ks := (mem_keys_without.mp hx).2
  unfold lastModified Destination.without
  rw [List.find?_filter]
  congr 3
  funext o
  by_cases ho : o.key = x
  · simp [ho, hks]
  · simp [ho]

theorem pruneS3_again : pruneS3BackupsAt (pruneS3BackupsAt D days now) days now =
    pruneS3BackupsAt D days now := by
  rw [@pruneS3_eq (pruneS3BackupsAt D days now)]
  refine without_of_notMem fun k hk => ?_
  rw [pruneS3_eq] at hk ⊢
  obtain ⟨x, hx, hkx⟩ := mem_withMetadata.mp hk
  have hx' : x ∈ targets (s3Time D) (cutoff now days) (s3Objects D) := by
    refine targets_mono ?_ (fun y hy => ?_) hx
    · exact (List.filter_sublist.filter _).map _
    · rw [s3Time, s3Time, lastModified_without (mem_s3Objects.mp hy).1]
  rw [mem_keys_without]
  exact fun h => h.2 (mem_withMetadata.mpr ⟨x, hx', hkx⟩)

theorem rsyncItems_sublist : (rsyncItems (D.without ks)).Sublist (rsyncItems D) := by
  have hnames : ((D.without ks).keys.map base).Sublist (D.keys.map base) := keys_sublist.map base
  exact (((hnames.filter _).flatMap _).map _).filter _

theorem pruneRsync_again {D' : Destination} (h : pruneRsyncBackupsAt D days now = some D') :
    pruneRsyncBackupsAt D' days now = some D' := by
  rw [pruneRsync_eq] at h
  split at h
  · rename_i hdirs
    obtain rfl := Option.some.inj h
    have hsub : ∀ x ∈ targets rsyncTime (cutoff now days) (rsyncItems (D.without
        (withMetadata (targets rsyncTime (cutoff now days) (rsyncItems D))))),
        x ∈ targets rsyncTime (cutoff now days) (rsyncItems D) :=
      fun x hx => targets_mono rsyncItems_sublist (fun _ _ => rfl) hx
    rw [pruneRsync_eq, if_pos, without_of_notMem]
    · intro k hk
      obtain ⟨x, hx, hkx⟩ := mem_withMetadata.mp hk
      rw [mem_keys_without]
      exact fun h => h.2 (mem_withMetadata.mpr ⟨x, hsub x hx, hkx⟩)
    · intro x hx
      have hfalse : ∀ name, D.isDirectory name = false → (D.without
          (withMetadata (targets rsyncTime (cutoff now days) (rsyncItems D)))).isDirectory name =
            false := by
        intro name hname
        rw [Destination.isDirectory, List.any_eq_false] at hname ⊢
        exact fun k hk => hname k (keys_sublist.subset hk)
      exact (hdirs x (hsub x hx)).imp (hfalse x) (hfalse _)
  · cases h

/-! ### The condition -/

/-- Neither listing is mixed up, and no directory has the name of what is removed. -/
structure Tidy (D : Destination) : Prop where
  s3 : Unmixed D (s3Time D) (s3Objects D)
  rsync : Unmixed D rsyncTime (rsyncItems D)
  files : ∀ x ∈ rsyncItems D, rsyncTime x ≠ 0 → Behind rsyncTime (rsyncItems D) x →
    D.isDirectory x = false ∧ D.isDirectory (metadataOf x) = false

theorem cutoff_one (limit : Int) : cutoff (limit + 24 * hour) 1 = limit := by
  have hmax : maxBackupRemoteRetentionDays = 106751 := by decide
  simp [cutoff, hmax]

theorem s3_agrees : (∀ limit, D.without (withMetadata (targets (s3Time D) limit (s3Objects D))) =
    D.kept limit) ↔ Unmixed D (s3Time D) (s3Objects D) :=
  agrees_iff (fun _ ha => s3_archives ha) fun _ hx => (mem_s3Objects.mp hx).2.2

theorem rsync_agrees : (∀ limit, D.without (withMetadata (targets rsyncTime limit (rsyncItems D))) =
    D.kept limit) ↔ Unmixed D rsyncTime (rsyncItems D) :=
  agrees_iff (fun _ ha => rsync_archives ha) fun _ hx =>
    (hasArchiveName_iff.mp (List.mem_filter.mp hx).2).2

/-- At every retention and time both destinations keep the promise, and a second run removes
nothing, just when the destination is tidy. -/
theorem retention_kept_iff (D : Destination) :
    (∀ days now, 1 ≤ days → days ≤ maxBackupRemoteRetentionDays →
      pruneS3BackupsAt D days now = D.kept (cutoff now days) ∧
      pruneRsyncBackupsAt D days now = some (D.kept (cutoff now days)) ∧
      pruneS3BackupsAt (D.kept (cutoff now days)) days now = D.kept (cutoff now days) ∧
      pruneRsyncBackupsAt (D.kept (cutoff now days)) days now = some (D.kept (cutoff now days))) ↔
      Tidy D := by
  constructor
  · intro h
    have hlimit : ∀ limit, pruneS3BackupsAt D 1 (limit + 24 * hour) = D.kept limit ∧
        pruneRsyncBackupsAt D 1 (limit + 24 * hour) = some (D.kept limit) := by
      intro limit
      obtain ⟨hs3, hrsync, -, -⟩ := h 1 (limit + 24 * hour) (le_refl 1) (by decide)
      rw [cutoff_one] at hs3 hrsync
      exact ⟨hs3, hrsync⟩
    have hrsync : ∀ limit, (∀ x ∈ targets rsyncTime limit (rsyncItems D),
        D.isDirectory x = false ∧ D.isDirectory (metadataOf x) = false) ∧
        D.without (withMetadata (targets rsyncTime limit (rsyncItems D))) = D.kept limit := by
      intro limit
      have heq := (hlimit limit).2
      rw [pruneRsync_eq, cutoff_one] at heq
      split at heq
      · rename_i hdirs
        exact ⟨hdirs, Option.some.inj heq⟩
      · cases heq
    refine ⟨s3_agrees.mp fun limit => ?_, rsync_agrees.mp fun limit => (hrsync limit).2, ?_⟩
    · have heq := (hlimit limit).1
      rwa [pruneS3_eq, cutoff_one] at heq
    · intro x hx htime hbehind
      exact (hrsync (rsyncTime x + 1)).1 x (mem_targets.mpr ⟨hx, htime, by omega, hbehind⟩)
  · intro h days now _ _
    have hs3 : pruneS3BackupsAt D days now = D.kept (cutoff now days) := by
      rw [pruneS3_eq]
      exact s3_agrees.mpr h.s3 _
    have hrsync : pruneRsyncBackupsAt D days now = some (D.kept (cutoff now days)) := by
      rw [pruneRsync_eq, if_pos, rsync_agrees.mpr h.rsync]
      intro x hx
      obtain ⟨hmem, htime, -, hbehind⟩ := mem_targets.mp hx
      exact h.files x hmem htime hbehind
    refine ⟨hs3, hrsync, ?_, pruneRsync_again hrsync⟩
    have hagain : pruneS3BackupsAt (pruneS3BackupsAt D days now) days now =
        pruneS3BackupsAt D days now := pruneS3_again
    rwa [hs3] at hagain

end Destinations

/-! ### A copy in a sub-directory -/

/-- An archive of 2024, and a later one that was put aside. -/
def asideNewer : Destination where
  objects := [⟨"openlia-20240101T000000Z-1.tar.gz.age".toList, 1⟩,
    ⟨"aside/openlia-20250101T000000Z-1.tar.gz.age".toList, 1⟩]
  distinct := by decide

/-- The bucket then loses its only archive, 30 days after 2025 began. -/
theorem retention_loses_newest :
    ¬ ∀ days now, 1 ≤ days → days ≤ maxBackupRemoteRetentionDays →
      pruneS3BackupsAt asideNewer days now = asideNewer.kept (cutoff now days) ∧
      pruneRsyncBackupsAt asideNewer days now = some (asideNewer.kept (cutoff now days)) ∧
      pruneS3BackupsAt (asideNewer.kept (cutoff now days)) days now =
        asideNewer.kept (cutoff now days) ∧
      pruneRsyncBackupsAt (asideNewer.kept (cutoff now days)) days now =
        some (asideNewer.kept (cutoff now days)) := by
  intro h
  have hs3 := (h 30 (daysTo 2025 1 31 * (24 * hour)) (by decide) (by decide)).1
  have hkeys := congrArg Destination.keys hs3
  revert hkeys
  decide +kernel

end Openlia.Backup.Remote

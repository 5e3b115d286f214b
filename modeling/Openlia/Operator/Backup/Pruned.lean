import Openlia.Operator.Backup.Prune

/-! # What pruning removes

A run that succeeds leaves the directory without certain names; the names of one kind
are never those of another, nor those of the metadata that goes with an archive.
-/

namespace Openlia.Backup.Prune

open Lib

variable {Data : Type}

/-! ## Sorting -/

/-- The order of the items, as one order of their keys. -/
def key (item : FileItem) : ℤ ×ₗ List Char := toLex (item.createdAt, item.name)

theorem notOlder_iff (a b : FileItem) : notOlder a b = true ↔ key b ≤ key a := by
  rw [← not_lt, key, key, Prod.Lex.toLex_lt_toLex, notOlder, newer, Bool.not_eq_true']
  split
  · rename_i hage
    simp [hage]
  · rename_i hage
    simp [Ne.symm hage]

instance : IsTrans FileItem fun a b => notOlder a b = true where
  trans a b c hab hbc := by
    rw [notOlder_iff] at hab hbc ⊢
    exact le_trans hbc hab

instance : Std.Total fun a b : FileItem => notOlder a b = true where
  total a b := by
    rw [notOlder_iff, notOlder_iff]
    exact le_total _ _

theorem mem_sortByNewest {items : List FileItem} {item : FileItem} :
    item ∈ sortByNewest items ↔ item ∈ items :=
  List.mem_insertionSort _

/-- Items that are told apart by their names stand in one order only. -/
theorem sortByNewest_filter (p : FileItem → Bool) {items : List FileItem}
    (h : (items.map FileItem.name).Nodup) :
    sortByNewest (items.filter p) = (sortByNewest items).filter p := by
  have hsorted : ∀ xs, (sortByNewest xs).Pairwise fun a b => notOlder a b = true :=
    fun xs => List.pairwise_insertionSort _ xs
  refine List.Perm.eq_of_pairwise ?_ (hsorted _) ((hsorted items).filter p)
    ((List.perm_insertionSort _ _).trans ((List.perm_insertionSort _ _).filter p).symm)
  intro a b ha hb hab hba
  have ha' := (List.mem_filter.mp (mem_sortByNewest.mp ha)).1
  have hb' := mem_sortByNewest.mp (List.mem_filter.mp hb).1
  rw [notOlder_iff] at hab hba
  have hkey : key a = key b := le_antisymm hba hab
  exact List.inj_on_of_nodup_map h ha' hb' (congrArg Prod.snd hkey)

/-! ## The items of one kind -/

@[simp] theorem fileItem_name (host : Host Data) (dir : Directory Data)
    (entry : Name × File Data) : (fileItem host dir entry).name = entry.1 := by
  unfold fileItem
  split <;> rfl

theorem mem_itemsOf {host : Host Data} {dir : Directory Data} {kind : Kind} {item : FileItem} :
    item ∈ itemsOf host dir kind ↔ ∃ entry ∈ dir.entries,
      kindOf entry.1 entry.2.regular = kind ∧ fileItem host dir entry = item := by
  rw [itemsOf, mem_sortByNewest, List.mem_map]
  constructor
  · rintro ⟨entry, hentry, hitem⟩
    obtain ⟨hmem, hkind⟩ := List.mem_filter.mp hentry
    exact ⟨entry, hmem, of_decide_eq_true hkind, hitem⟩
  · rintro ⟨entry, hmem, hkind, hitem⟩
    exact ⟨entry, List.mem_filter.mpr ⟨hmem, decide_eq_true hkind⟩, hitem⟩

theorem nodup_names (host : Host Data) (dir : Directory Data)
    (p : Name × File Data → Bool) :
    (((dir.entries.filter p).map (fileItem host dir)).map FileItem.name).Nodup := by
  have hnames : FileItem.name ∘ fileItem host dir = Prod.fst :=
    funext fun entry => fileItem_name host dir entry
  rw [List.map_map, hnames]
  exact dir.distinct.sublist (List.filter_sublist.map _)

theorem nodup_itemsOf (host : Host Data) (dir : Directory Data) (kind : Kind) :
    ((itemsOf host dir kind).map FileItem.name).Nodup :=
  ((List.perm_insertionSort _ _).map _).nodup_iff.mpr (nodup_names host dir _)

/-- The items of a kind that stay are those whose names have not gone. -/
theorem itemsOf_without {host : Host Data} {dir : Directory Data} {names : List Name}
    {kind : Kind} (h : ∀ entry ∈ dir.entries, kindOf entry.1 entry.2.regular = kind →
      entry.1 ∉ names → fileItem host (dir.without names) entry = fileItem host dir entry) :
    itemsOf host (dir.without names) kind =
      (itemsOf host dir kind).filter fun item => item.name ∉ names := by
  rw [itemsOf, itemsOf, ← sortByNewest_filter _ (nodup_names host dir _), List.filter_map]
  congr 1
  have hentries : (dir.without names).entries.filter
        (fun entry => kindOf entry.1 entry.2.regular = kind) =
      (dir.entries.filter fun entry => kindOf entry.1 entry.2.regular = kind).filter
        ((fun item => decide (item.name ∉ names)) ∘ fileItem host dir) := by
    simp only [Directory.without, List.filter_filter, Function.comp_def, fileItem_name]
    congr 1
    funext entry
    rw [Bool.and_comm]
  rw [hentries]
  refine List.map_congr_left fun entry hentry => ?_
  obtain ⟨hkind, hstay⟩ := List.mem_filter.mp hentry
  obtain ⟨hmem, hkind⟩ := List.mem_filter.mp hkind
  refine h entry hmem (of_decide_eq_true hkind) ?_
  simpa using hstay

/-! ## Names and kinds -/

theorem hasPrefix_iff {name : Name} {start : String} :
    hasPrefix name start = true ↔ ∃ t, start.toList ++ t = name :=
  List.isPrefixOf_iff_prefix

theorem hasSuffix_iff {name : Name} {ending : String} :
    hasSuffix name ending = true ↔ ∃ t, t ++ ending.toList = name :=
  List.isSuffixOf_iff_suffix

theorem metadataOf_injective {a b : Name} (h : metadataOf a = metadataOf b) : a = b :=
  List.append_cancel_right h

theorem trimJson_metadataOf (name : Name) : trimJson (metadataOf name) = name := by
  have hend : hasSuffix (metadataOf name) ".json" = true := hasSuffix_iff.mpr ⟨name, rfl⟩
  rw [trimJson, if_pos hend, metadataOf, List.length_append]
  exact List.take_left' rfl

/-- No archive ends the way metadata does. -/
theorem hasSuffix_metadataOf {name : Name} {ending : String} {t : List Char} {c : Char}
    (hending : ending.toList = t ++ [c]) (hc : c ≠ 'n') :
    hasSuffix (metadataOf name) ending = false := by
  refine Bool.eq_false_iff.mpr fun h => ?_
  obtain ⟨u, hu⟩ := hasSuffix_iff.mp h
  have hlast := congrArg List.getLast? hu
  rw [hending, ← List.append_assoc, List.getLast?_concat, metadataOf] at hlast
  have hn : (name ++ ".json".toList).getLast? = some 'n' := by
    rw [show ".json".toList = ['.', 'j', 's', 'o'] ++ ['n'] from rfl, ← List.append_assoc,
      List.getLast?_concat]
  rw [hn] at hlast
  exact hc (Option.some.inj hlast)

/-- Metadata of an archive or of a rollback is of no kind. -/
theorem kindOf_metadataOf {name : Name} {regular : Bool}
    (h : hasPrefix (metadataOf name) "openlia-" = true ∨
      hasPrefix (metadataOf name) "rollback-" = true) :
    kindOf (metadataOf name) regular = .other := by
  have hage : hasSuffix (metadataOf name) ".tar.gz.age" = false :=
    @hasSuffix_metadataOf _ ".tar.gz.age" ".tar.gz.ag".toList 'e' rfl (by decide)
  have hgz : hasSuffix (metadataOf name) ".tar.gz" = false :=
    @hasSuffix_metadataOf _ ".tar.gz" ".tar.g".toList 'z' rfl (by decide)
  have hstart : hasPrefix (metadataOf name) "compose-generated-" = false ∧
      hasPrefix (metadataOf name) "auth-secret-" = false ∧
      hasPrefix (metadataOf name) "locho-" = false ∧
      hasPrefix (metadataOf name) "pre-restore-" = false := by
    rcases h with h | h
    all_goals
      obtain ⟨t, ht⟩ := hasPrefix_iff.mp h
      rw [← ht]
      exact ⟨rfl, rfl, rfl, rfl⟩
  obtain ⟨hcompose, hauth, hlocho, hrestore⟩ := hstart
  simp only [kindOf, hage, hgz, hcompose, hauth, hlocho, hrestore, Bool.and_false, Bool.or_false,
    Bool.false_eq_true, if_false]

theorem hasPrefix_metadataOf {name : Name} {start : String} (h : hasPrefix name start = true) :
    hasPrefix (metadataOf name) start = true := by
  obtain ⟨t, ht⟩ := hasPrefix_iff.mp h
  refine hasPrefix_iff.mpr ⟨t ++ ".json".toList, ?_⟩
  rw [← List.append_assoc, ht, metadataOf]

/-- The kinds whose files have metadata beside them. -/
theorem hasPrefix_of_kind {name : Name} {regular : Bool}
    (h : kindOf name regular = .archive ∨ kindOf name regular = .rollback) :
    hasPrefix name "openlia-" = true ∨ hasPrefix name "rollback-" = true := by
  unfold kindOf at h
  split at h
  · rename_i hname
    simp only [Bool.and_eq_true] at hname
    exact .inl hname.1.2
  · split at h
    · rename_i hname
      simp only [Bool.and_eq_true] at hname
      exact .inr hname.1.2
    · split at h
      · simp at h
      · split at h
        · simp at h
        · split at h <;> simp at h

theorem isArchive_iff {dir : Directory Data} {name : Name} :
    isArchive dir name = true ↔
      ∃ entry ∈ dir.entries, entry.1 = name ∧ kindOf entry.1 entry.2.regular = .archive := by
  simp only [isArchive, List.any_eq_true, Bool.and_eq_true, decide_eq_true_eq]

theorem mem_orphanMetadata {dir : Directory Data} {name : Name} :
    name ∈ (orphanMetadata dir).map FileItem.name ↔
      ∃ entry ∈ dir.entries, isOrphan dir entry = true ∧ entry.1 = name := by
  simp only [orphanMetadata, List.mem_map, mem_sortByNewest, List.mem_filter]
  constructor
  · rintro ⟨item, ⟨entry, ⟨hmem, horphan⟩, rfl⟩, rfl⟩
    exact ⟨entry, hmem, horphan, rfl⟩
  · rintro ⟨entry, hmem, horphan, rfl⟩
    exact ⟨_, ⟨entry, ⟨hmem, horphan⟩, rfl⟩, rfl⟩

/-- The name of an orphan is that of metadata, of an archive that is not there. -/
theorem isOrphan_name {dir : Directory Data} {entry : Name × File Data}
    (h : isOrphan dir entry = true) : ∃ name, entry.1 = metadataOf name ∧
      hasPrefix (metadataOf name) "openlia-" = true ∧ isArchive dir name = false := by
  simp only [isOrphan, Bool.and_eq_true, Bool.not_eq_true'] at h
  obtain ⟨⟨⟨-, hstart⟩, hend⟩, hnone⟩ := h
  obtain ⟨t, ht⟩ := hasSuffix_iff.mp hend
  have hname : entry.1 = metadataOf (t ++ ".tar.gz.age".toList) := by
    rw [← ht, metadataOf, List.append_assoc]
    rfl
  rw [hname] at hstart hnone
  rw [trimJson_metadataOf] at hnone
  exact ⟨_, hname, hstart, hnone⟩

/-! ## What the loops remove -/

/-- The names that go with items. -/
def doomed (metadata : Bool) (items : List FileItem) : List Name :=
  items.flatMap fun item => if metadata then [item.name, metadataOf item.name] else [item.name]

theorem mem_doomed {metadata : Bool} {items : List FileItem} {name : Name} :
    name ∈ doomed metadata items ↔ ∃ item ∈ items,
      name = item.name ∨ (metadata = true ∧ name = metadataOf item.name) := by
  rw [doomed, List.mem_flatMap]
  refine exists_congr fun item => and_congr_right fun _ => ?_
  cases metadata <;> simp

theorem remove_run (host : Host Data) (name : Name) (s : State Data) :
    (remove host name).run.run s =
      if (s.directory.find? name).isSome && host.refuses name then (.error (.remove name), s)
      else (.ok (), { s with directory := s.directory.without [name] }) := by
  rw [remove, run_bind]
  show (if _ then _ else _ : PruneM Data Unit).run.run s = _
  split <;> rfl

theorem remove_ok {host : Host Data} {name : Name} {s s' : State Data}
    (h : (remove host name).run.run s = (.ok (), s')) :
    s' = { s with directory := s.directory.without [name] } := by
  rw [remove_run] at h
  split at h
  · cases h
  · exact (congrArg Prod.snd h).symm

theorem removeBackupItem_ok {host : Host Data} {metadata : Bool} {item : FileItem}
    {s s' : State Data}
    (h : (removeBackupItem host metadata item.name).run.run s = (.ok (), s')) :
    s' = { s with directory := s.directory.without (doomed metadata [item]) } := by
  obtain ⟨⟨⟩, s₁, hfile, hmetadata⟩ := bind_ok h
  have hs₁ := remove_ok hfile
  subst hs₁
  cases metadata with
  | false => exact (congrArg Prod.snd hmetadata).symm
  | true =>
      have hs' := remove_ok hmetadata
      rw [Directory.without_without] at hs'
      exact hs'

/-- A step of a loop: the item goes and is listed. -/
theorem step_ok {host : Host Data} {metadata : Bool} {item : FileItem} {s s' : State Data}
    {rest : PruneM Data Unit}
    (h : (do
      removeBackupItem host metadata item.name
      modify fun s => { s with removed := s.removed ++ [item.name] }
      rest : PruneM Data Unit).run.run s = (.ok (), s')) :
    rest.run.run ⟨s.directory.without (doomed metadata [item]), s.removed ++ [item.name]⟩ =
      (.ok (), s') := by
  obtain ⟨⟨⟩, s₁, hitem, h⟩ := bind_ok h
  have hs₁ := removeBackupItem_ok hitem
  subst hs₁
  obtain ⟨⟨⟩, s₂, hlisted, hrest⟩ := bind_ok h
  have hs₂ := (congrArg Prod.snd hlisted).symm
  subst hs₂
  exact hrest

theorem removeItems_ok {host : Host Data} {metadata : Bool} {items : List FileItem}
    {s s' : State Data} (h : (removeItems host metadata items).run.run s = (.ok (), s')) :
    s'.directory = s.directory.without (doomed metadata items) := by
  induction items generalizing s with
  | nil =>
      have hs' := (congrArg Prod.snd h).symm
      subst hs'
      exact (Directory.without_nil _).symm
  | cons item items ih =>
      rw [ih (step_ok h), Directory.without_without, doomed, doomed, doomed,
        ← List.flatMap_append]
      rfl

/-- The loop over the retained archives removes those that the budget does not afford
beside the protected one. -/
theorem removeOverBudget_ok {host : Host Data} {maxBytes : Nat} {newest : FileItem}
    {rest : List FileItem} {s s' : State Data} (hnewest : newest.name ∉ rest.map FileItem.name)
    (h : (removeOverBudget host (some newest.name) maxBytes (rest.reverse ++ [newest])
      (load FileItem.size (newest :: rest))).run.run s = (.ok (), s')) :
    s'.directory = s.directory.without (doomed true (rest.drop
      (affordable FileItem.size maxBytes newest.size rest).length).reverse) := by
  induction rest using List.reverseRecOn generalizing s with
  | nil =>
      have hs' : s' = s := by
        rw [List.reverse_nil, List.nil_append, removeOverBudget] at h
        split at h
        · exact (congrArg Prod.snd h).symm
        · rw [if_pos rfl] at h
          exact (congrArg Prod.snd h).symm
      subst hs'
      exact (Directory.without_nil _).symm
  | append_singleton rest item ih =>
      rw [List.map_append, List.mem_append, not_or] at hnewest
      rw [List.reverse_append, List.reverse_singleton, List.singleton_append, List.cons_append,
        removeOverBudget] at h
      split at h
      · rename_i hfits
        have hs' := (congrArg Prod.snd h).symm
        subst hs'
        rw [load_cons] at hfits
        rw [affordable_eq_self hfits, List.drop_length]
        exact (Directory.without_nil _).symm
      · rename_i hover
        have hitem : some item.name ≠ some newest.name := fun heq =>
          hnewest.2 (List.mem_map.mpr ⟨item, List.mem_singleton_self _, Option.some.inj heq⟩)
        rw [load_cons, not_le] at hover
        have hbytes : load FileItem.size (newest :: (rest ++ [item])) - item.size =
            load FileItem.size (newest :: rest) := by
          simp only [load_cons, load_append, load_nil]
          omega
        rw [if_neg hitem, hbytes] at h
        have hlength := (@prefix_affordable _ FileItem.size maxBytes
          newest.size rest).length_le
        rw [ih hnewest.1 (step_ok h), Directory.without_without, affordable_concat hover,
          List.drop_append_of_le_length hlength, List.reverse_append, List.reverse_singleton,
          doomed, doomed, doomed, ← List.flatMap_append]

/-! ## Loops over nothing, and what a loop never touches -/

/-- A computation that removes no other names than those given, even when it fails. -/
def Only (names : List Name) (m : PruneM Data Unit) : Prop :=
  ∀ s : State Data, ∀ entry ∈ s.directory.entries,
    entry.1 ∉ names → entry ∈ (m.run.run s).2.directory.entries

theorem Only.bind {names : List Name} {m : PruneM Data Unit} {k : Unit → PruneM Data Unit}
    (hm : Only names m) (hk : Only names (k ())) : Only names (m >>= k) := by
  intro s entry hentry hname
  have hafter := hm s entry hentry hname
  rw [run_bind]
  cases h : m.run.run s with
  | mk r s₁ =>
      rw [h] at hafter
      cases r with
      | error e => exact hafter
      | ok a => exact hk s₁ entry hafter hname

theorem only_remove {host : Host Data} {names : List Name} {name : Name} (h : name ∈ names) :
    Only names (remove host name) := by
  intro s entry hentry hname
  rw [remove_run]
  split
  · exact hentry
  · refine Directory.mem_without.mpr ⟨hentry, fun hmem => hname ?_⟩
    rwa [List.mem_singleton.mp hmem]

theorem only_removeItems {host : Host Data} {items : List FileItem} {names : List Name}
    (h : ∀ item ∈ items, item.name ∈ names) : Only names (removeItems host false items) := by
  induction items with
  | nil => exact fun s entry hentry _ => hentry
  | cons item items ih =>
      obtain ⟨hitem, hitems⟩ := List.forall_mem_cons.mp h
      have hremove : Only names (removeBackupItem host false item.name) :=
        (only_remove hitem).bind fun s entry hentry _ => hentry
      have hlist : Only names (modify fun s : State Data =>
          { s with removed := s.removed ++ [item.name] } : PruneM Data Unit) :=
        fun s entry hentry _ => hentry
      exact hremove.bind (hlist.bind (ih hitems))

end Openlia.Backup.Prune

import Openlia.Operator.Backup.Confined
import Openlia.Operator.Migration.Intake

/-! # An intake archive stays in its destination

An entry whose name passed the checks meets no link on its way. What it makes and writes is
below the destination, under its own name.
-/

namespace Openlia.Intake

open Lib Crash
open Skills (FileName Path Bytes Leaf Dir filepathClean pathOf)
open Backup (Disk DiskAction linkTarget maxLinks realPath putAt mkdirAll createAt)

section Entries

variable {destination p r : Path} {d₀ d : Disk} {t : Dir} {entry : TarEntry}

/-! ## Ways without links -/

/-- No link is on the way from the destination. -/
def Clear (t : Dir) (destination p : Path) : Prop :=
  ∀ q, q <+: p → ∀ data, t.node (destination ++ q) = some (.file data) → linkTarget data = none

theorem Clear.above (h : Clear t destination p) (hr : r <+: p) : Clear t destination r :=
  fun q hq => h q (hq.trans hr)

theorem Clear.realPath {q : Path} (h : Clear t destination p)
    (hw : realPath t destination p = .ok q) : q = destination ++ p :=
  walk_names h hw

theorem checkNoSymlinks_clear {pre : Path} (h : checkNoSymlinksFrom t pre p = .ok ())
    (hpre : ∀ data, t.node pre = some (.file data) → linkTarget data = none) :
    Clear t pre p := by
  induction p generalizing pre with
  | nil =>
      intro q hq data hnode
      rw [List.prefix_nil.mp hq, List.append_nil] at hnode
      exact hpre data hnode
  | cons c p ih =>
      intro q hq data hnode
      cases q with
      | nil =>
          rw [List.append_nil] at hnode
          exact hpre data hnode
      | cons x q =>
          obtain ⟨rfl, hrest⟩ := List.cons_prefix_cons.mp hq
          have happ : pre ++ x :: q = pre ++ [x] ++ q := by simp
          rw [happ] at hnode
          unfold checkNoSymlinksFrom at h
          cases hstep : t.node (pre ++ [x]) with
          | none =>
              by_cases hq0 : q = []
              · rw [hq0, List.append_nil, hstep] at hnode
                cases hnode
              · rw [Tree.node_below_eq_none (by rw [hstep]; simp) (List.prefix_append _ _)
                  (by simpa using hq0)] at hnode
                cases hnode
          | some n =>
              rw [Tree.lstat_eq_ok.mpr hstep] at h
              rcases n with (contents | target) | _ | _
              · refine ih h (fun data' hdata => ?_) q hrest data hnode
                rw [hstep] at hdata
                cases hdata
                rfl
              · cases h
              · refine ih h (fun data' hdata => ?_) q hrest data hnode
                rw [hstep] at hdata
                cases hdata
              · cases h

/-- A name with components does not begin with a dot that is trimmed. -/
theorem cleanRel_eq {name : String}
    (hp : pathOf (String.ofList (filepathClean name.toList)) = some p) :
    cleanRel name = filepathClean name.toList := by
  unfold cleanRel trimPrefix
  rw [if_neg]
  intro hdot
  obtain ⟨rest, hrest⟩ := List.isPrefixOf_iff_prefix.mp hdot
  have hchars : "./".toList ++ rest = ['.'] ++ '/' :: rest := rfl
  have hname : Skills.fileName ['.'] = none := by decide
  rw [pathOf, String.toList_ofList, ← hrest, hchars, List.splitOn_append_cons_self,
    List.splitOn_eq_singleton (by decide), List.singleton_append, List.mapM_cons, hname] at hp
  cases hp

theorem validate_clear {name : String} (hdir : t.node destination = some .dir)
    (h : validateSafeWorkspacePath t destination name = .ok ())
    (hp : pathOf (String.ofList (filepathClean name.toList)) = some p) :
    Clear t destination p := by
  unfold validateSafeWorkspacePath at h
  split_ifs at h
  rw [cleanRel_eq hp, hp] at h
  exact checkNoSymlinks_clear h fun data hdata => by
    rw [hdir] at hdata
    cases hdata

/-! ## What an entry changes -/

/-- Directories were made on the way to a name, and nothing else. -/
structure Grown (destination p : Path) (d₀ d : Disk) : Prop where
  node : ∀ q, d.tree.node q = d₀.tree.node q ∨
    d₀.tree.node q = none ∧ d.tree.node q = some .dir ∧ ∃ r, r <+: p ∧ q = destination ++ r
  written : ∀ q ∈ d.written, q ∈ d₀.written ∨ destination <+: q

/-- Directories were made on the way to a name, and what is at the name was written. -/
structure Own (destination p : Path) (d₀ d : Disk) : Prop where
  node : ∀ q, d.tree.node q = d₀.tree.node q ∨ q = destination ++ p ∨
    d₀.tree.node q = none ∧ d.tree.node q = some .dir ∧ ∃ r, r <+: p ∧ q = destination ++ r
  written : ∀ q ∈ d.written, q ∈ d₀.written ∨ destination <+: q

theorem Grown.refl (destination p : Path) (d : Disk) : Grown destination p d d :=
  ⟨fun _ => Or.inl rfl, fun _ h => Or.inl h⟩

theorem Grown.own (h : Grown destination p d₀ d) : Own destination p d₀ d := by
  refine ⟨fun q => ?_, h.written⟩
  rcases h.node q with hsame | hmade
  · exact Or.inl hsame
  · exact Or.inr (Or.inr hmade)

/-- New directories hide no link. -/
theorem Grown.clear (h : Grown destination p d₀ d) (hclear : Clear d₀.tree destination r) :
    Clear d.tree destination r := by
  intro q hq data hnode
  rcases h.node (destination ++ q) with hsame | ⟨-, hdir, -⟩
  · rw [hsame] at hnode
    exact hclear q hq data hnode
  · rw [hdir] at hnode
    cases hnode

theorem Own.clear (h : Own destination p d₀ d) (hclear : Clear d₀.tree destination r)
    (hne : ¬ p <+: r) : Clear d.tree destination r := by
  intro q hq data hnode
  rcases h.node (destination ++ q) with hsame | hself | ⟨-, hdir, -⟩
  · rw [hsame] at hnode
    exact hclear q hq data hnode
  · exact absurd (List.append_cancel_left hself ▸ hq) hne
  · rw [hdir] at hnode
    cases hnode

/-- One more write below the destination. -/
theorem written_concat {q : Path} {n : Dir} (hq : destination <+: q)
    (h : ∀ q ∈ d.written, q ∈ d₀.written ∨ destination <+: q) :
    ∀ q' ∈ (⟨n, d.written ++ [q]⟩ : Disk).written, q' ∈ d₀.written ∨ destination <+: q' := by
  intro q' hq'
  rcases List.mem_append.mp hq' with hq' | hq'
  · exact h q' hq'
  · rw [List.mem_singleton.mp hq']
    exact Or.inr hq

theorem Grown.put {q : Path} (h : Grown destination p d₀ d) (hr : r <+: p)
    (hq : q = destination ++ r) (hnone : d.tree.node q = none) (hput : d.tree.put q .dir = .ok t) :
    Grown destination p d₀ ⟨t, d.written ++ [q]⟩ := by
  refine ⟨fun q' => ?_, written_concat (hq ▸ List.prefix_append _ _) h.written⟩
  have hnode := Tree.put_node hput q'
  by_cases hqq : q' = q
  · rw [if_pos hqq] at hnode
    rcases h.node q' with hsame | ⟨-, hdir, -⟩
    · exact Or.inr ⟨by rw [← hsame, hqq, hnone], hnode, r, hr, hqq.trans hq⟩
    · rw [hqq, hnone] at hdir
      cases hdir
  · rw [if_neg hqq] at hnode
    rw [hnode]
    exact h.node q'

theorem Own.at {t : Dir} (h : Own destination p d₀ d)
    (hnode : ∀ q, q ≠ destination ++ p → t.node q = d.tree.node q) :
    Own destination p d₀ ⟨t, d.written ++ [destination ++ p]⟩ := by
  refine ⟨fun q => ?_, written_concat (List.prefix_append _ _) h.written⟩
  by_cases hq : q = destination ++ p
  · exact Or.inr (Or.inl hq)
  · rw [hnode q hq]
    exact h.node q

theorem putAt_own {n : Node Leaf} :
    Spec (Own destination p d₀) (putAt (destination ++ p) n) (Own destination p d₀)
      fun r d => Own destination p d₀ d ∧
        (r = .ok () → d.tree.node (destination ++ p) = some n) := by
  refine Spec.get_bind fun d hd => ?_
  cases hput : d.tree.put (destination ++ p) n with
  | error e => exact Spec.fail fun _ h => ⟨h ▸ hd, nofun⟩
  | ok t =>
      have hnext : Own destination p d₀ ⟨t, d.written ++ [destination ++ p]⟩ :=
        hd.at fun q hq => by rw [Tree.put_node hput, if_neg hq]
      have hnode : t.node (destination ++ p) = some n := by rw [Tree.put_node hput, if_pos rfl]
      exact Spec.write (fun x hx => hx ▸ hnext) fun x hx => ⟨hx ▸ hnext, fun _ => hnode⟩

theorem createAt_grown (hclear : Clear d₀.tree destination p) (hr : r <+: p) :
    Spec (Grown destination p d₀) (createAt destination r .dir) (Grown destination p d₀)
      fun res d => Grown destination p d₀ d ∧
        ∀ q, res = .ok q → d.tree.node (destination ++ r) = some .dir := by
  refine Spec.get_bind fun d hd => ?_
  split
  · exact Spec.fail fun _ h => ⟨h ▸ hd, nofun⟩
  · exact Spec.fail fun _ h => ⟨h ▸ hd, nofun⟩
  · rename_i dir c hdir hlast
    have hr0 : r ≠ [] := by
      rintro rfl
      cases hlast
    have hsplit : r.dropLast ++ [c] = r := by
      rw [List.getLast?_eq_some_getLast hr0] at hlast
      rw [← Option.some.inj hlast, List.dropLast_append_getLast]
    obtain rfl : dir = destination ++ r.dropLast :=
      ((hd.clear hclear).above ((List.dropLast_prefix r).trans hr)).realPath hdir
    have hq : destination ++ r.dropLast ++ [c] = destination ++ r := by
      rw [List.append_assoc, hsplit]
    rw [hq]
    split
    · exact Spec.fail fun _ h => ⟨h ▸ hd, nofun⟩
    · rename_i hnone
      refine Spec.bind (Q := fun res d => Grown destination p d₀ d ∧
          (res = .ok () → d.tree.node (destination ++ r) = some .dir)) ?_
        (fun _ => Spec.pure fun _ h => ⟨h.1, fun _ _ => h.2 rfl⟩) fun _ _ h => ⟨h.1, nofun⟩
      refine Spec.get_bind fun x hx => ?_
      subst hx
      cases hput : x.tree.put (destination ++ r) .dir with
      | error e => exact Spec.fail fun _ h => ⟨h ▸ hd, nofun⟩
      | ok t =>
          have hnext := hd.put hr rfl hnone hput
          have hnode : t.node (destination ++ r) = some .dir := by
            rw [Tree.put_node hput, if_pos rfl]
          exact Spec.write (fun y hy => hy ▸ hnext) fun y hy => ⟨hy ▸ hnext, fun _ => hnode⟩

theorem mkdirAll_grown (hclear : Clear d₀.tree destination p) (hr : r <+: p) (k : Nat) :
    Spec (Grown destination p d₀) (mkdirAll destination r k) (Grown destination p d₀)
      fun res d => Grown destination p d₀ d ∧
        (res = .ok () → 0 < k → d.tree.node (destination ++ r.take k) = some .dir) := by
  induction k with
  | zero => exact Spec.pure fun _ h => ⟨h, fun _ hk => absurd hk (Nat.lt_irrefl 0)⟩
  | succ k ih =>
      have htake : r.take (k + 1) <+: p := (List.take_prefix (k + 1) r).trans hr
      refine Spec.get_bind fun d hd => ?_
      split
      · rename_i q hq
        obtain rfl := ((hd.clear hclear).above htake).realPath hq
        split
        · rename_i hdir
          exact Spec.pure fun _ h => ⟨h ▸ hd, fun _ _ => h ▸ hdir⟩
        · exact Spec.fail fun _ h => ⟨h ▸ hd, nofun⟩
      · refine Spec.bind (ih.conseq (fun x hx => hx ▸ hd) (fun _ h => h) fun _ _ h => h)
          (fun _ => ?_) fun _ _ h => ⟨h.1, nofun⟩
        refine Spec.bind ((createAt_grown hclear htake).conseq (fun _ h => h.1) (fun _ h => h)
          fun _ _ h => h) (fun q => ?_) fun _ _ h => ⟨h.1, nofun⟩
        exact Spec.pure fun _ h => ⟨h.1, fun _ _ => h.2 q rfl⟩

/-! ## Writing a file -/

/-- Without a link on its way a file is opened at its own name. -/
theorem openPath_clear {q : Path} {links : Nat} (h : Clear t destination p)
    (ho : openPath t (links + 1) destination (p.map .name) = .ok q) : q = destination ++ p := by
  unfold openPath at ho
  rcases List.eq_nil_or_concat p with rfl | ⟨dir, c, rfl⟩
  · exact walk_names h ho
  rw [List.concat_eq_append] at h ho ⊢
  rw [List.map_append, List.map_singleton, List.getLast?_concat, List.dropLast_concat] at ho
  simp only at ho
  split at ho
  · cases ho
  rename_i pos hdir
  obtain rfl : pos = destination ++ dir := walk_names (h.above (List.prefix_append _ _)) hdir
  rw [List.append_assoc] at ho
  split at ho
  · rename_i leaf hleaf
    rw [h _ (List.prefix_refl _) leaf hleaf] at ho
    cases ho
    rfl
  · cases ho
    rfl

/-- A file that is open, with what was written to it; a directory is never opened so. -/
structure Opened (destination p : Path) (d₀ : Disk) (contents : Bytes) (d : Disk) : Prop where
  own : Own destination p d₀ d
  fresh : d₀.tree.node (destination ++ p) ≠ some .dir
  node : d.tree.node (destination ++ p) = some (.file (.regular contents))

theorem openTruncated_spec (hclear : Clear d₀.tree destination p) :
    Spec (Grown destination p d₀) (openTruncated destination p) (Own destination p d₀)
      fun r d => Own destination p d₀ d ∧
        ∀ q, r = .ok q → q = destination ++ p ∧ Opened destination p d₀ [] d := by
  refine Spec.get_bind fun d hd => ?_
  split
  · exact Spec.fail fun _ h => ⟨h ▸ hd.own, nofun⟩
  · rename_i q hq
    obtain rfl : q = destination ++ p := openPath_clear (hd.clear hclear) hq
    refine Spec.bind (Q := fun r y => Own destination p d₀ y ∧
        (r = .ok () → Opened destination p d₀ [] y)) ?_ (fun _ => Spec.pure fun _ h => ⟨h.1,
      fun q hq => ⟨(Except.ok.inj hq).symm, h.2 rfl⟩⟩) fun _ _ h => ⟨h.1, nofun⟩
    refine Spec.get_bind fun x hx => ?_
    subst hx
    cases hput : x.tree.put (destination ++ p) (.file (.regular [])) with
    | error e => exact Spec.fail fun _ h => ⟨h ▸ hd.own, nofun⟩
    | ok t =>
        have hnext : Own destination p d₀ ⟨t, x.written ++ [destination ++ p]⟩ :=
          hd.own.at fun q hq => by rw [Tree.put_node hput, if_neg hq]
        have hnode : t.node (destination ++ p) = some (.file (.regular [])) := by
          rw [Tree.put_node hput, if_pos rfl]
        have hfresh : d₀.tree.node (destination ++ p) ≠ some .dir := by
          intro hdir
          refine (Tree.put_isOk.mp ⟨t, hput⟩).2.2 ?_
          rcases hd.node (destination ++ p) with hsame | ⟨-, hmade, -⟩
          · rw [hsame, hdir]
          · exact hmade
        exact Spec.write (fun y hy => hy ▸ hnext) fun y hy =>
          ⟨hy ▸ hnext, fun _ => ⟨hy ▸ hnext, hfresh, hy ▸ hnode⟩⟩

/-- The whole of the chunks is written behind what is there. -/
theorem copy_spec (written : Bytes) (chunks : List Bytes) :
    Spec (Opened destination p d₀ written) (copy (destination ++ p) written chunks)
      (Own destination p d₀) fun r d => Own destination p d₀ d ∧
        ∀ contents, r = .ok contents →
          contents = written ++ chunks.flatten ∧ Opened destination p d₀ contents d := by
  induction chunks generalizing written with
  | nil =>
      refine Spec.pure fun d h => ⟨h.own, fun contents hc => ?_⟩
      cases hc
      exact ⟨by simp, h⟩
  | cons chunk rest ih =>
      refine Spec.of_pre fun d hd => ?_
      have hput := @putAt_own destination p d₀ (.file (.regular (written ++ chunk)))
      refine Spec.bind (hput.conseq (fun _ h => h ▸ hd.own) (fun _ h => h) fun _ _ h => h)
        (fun _ => ?_) fun _ _ h => ⟨h.1, nofun⟩
      refine (ih (written ++ chunk)).conseq (fun x hx => ⟨hx.1, hd.fresh, hx.2 rfl⟩)
        (fun _ h => h) fun r x hx => ⟨hx.1, fun contents hc => ?_⟩
      obtain ⟨hcontents, hopened⟩ := hx.2 contents hc
      refine ⟨?_, hopened⟩
      rw [hcontents, List.append_assoc, List.flatten_cons]

theorem limited_flatten (n : Nat) (chunks : List Bytes) :
    (limited n chunks).flatten = chunks.flatten.take n := by
  induction chunks generalizing n with
  | nil => simp [limited]
  | cons chunk rest ih =>
      cases n with
      | zero => simp [limited]
      | succ n => rw [limited, List.flatten_cons, List.flatten_cons, ih, List.take_append]

theorem removeAt_own (hclear : Clear d₀.tree destination p) :
    Preserves (Own destination p d₀) (removeAt destination p) := by
  refine Preserves.get_bind fun d hd => ?_
  split
  · rename_i dir c hdir hlast
    have hp : p ≠ [] := by
      rintro rfl
      cases hlast
    have hne : ¬ p <+: p.dropLast := by
      intro h
      have hle := h.length_le
      have hpos := List.length_pos_iff.mpr hp
      rw [List.length_dropLast] at hle
      omega
    have hdrop : Clear d.tree destination p.dropLast :=
      hd.clear (hclear.above (List.dropLast_prefix p)) hne
    obtain rfl : dir = destination ++ p.dropLast := hdrop.realPath hdir
    have hself : destination ++ p.dropLast ++ [c] = destination ++ p := by
      rw [List.getLast?_eq_some_getLast hp] at hlast
      rw [List.append_assoc, ← Option.some.inj hlast, List.dropLast_append_getLast]
    rw [hself]
    split
    · rename_i t ht
      have hnext : Own destination p d₀ ⟨t, d.written ++ [destination ++ p]⟩ :=
        hd.at fun q hq => by rw [Tree.remove_node ht, if_neg hq]
      exact Spec.write (fun x hx => hx ▸ hnext) fun x hx => hx ▸ hnext
    · exact Spec.fail fun _ h => h ▸ hd
  · exact Spec.fail fun _ h => h ▸ hd
  · exact Spec.fail fun _ h => h ▸ hd

/-- A regular entry that is within the limits and was read to its end. -/
structure Whole (entry : TarEntry) : Prop where
  size : entry.Size ≤ maxArchiveSingleFileBytes
  length : entry.chunks.flatten.length ≤ maxArchiveSingleFileBytes
  read : entry.broken = none

theorem extractRegular_spec (hclear : Clear d₀.tree destination p) (total : Nat) :
    Spec (Grown destination p d₀) (extractRegular destination p total entry)
      (Own destination p d₀) fun r d => Own destination p d₀ d ∧
        ∀ n, r = .ok n → Whole entry ∧ Opened destination p d₀ entry.chunks.flatten d ∧
          n = total + entry.chunks.flatten.length ∧ n ≤ maxArchiveDecompressedBytes := by
  unfold extractRegular
  refine Spec.ite (fun _ => Spec.fail fun _ h => ⟨h.own, nofun⟩) fun hsize => ?_
  have hdirs := mkdirAll_grown hclear (List.dropLast_prefix p) p.dropLast.length
  refine Spec.bind (hdirs.conseq (fun _ h => h) (fun _ h => h.own) fun _ _ h => h.1) (fun _ => ?_)
    fun _ _ h => ⟨h.own, nofun⟩
  refine Spec.bind (openTruncated_spec hclear) (fun q => ?_) fun _ _ h => ⟨h.1, nofun⟩
  refine Spec.of_pre fun d hd => ?_
  obtain ⟨rfl, hopened⟩ := hd.2 q rfl
  refine Spec.bind ((copy_spec [] _).conseq (fun _ h => h ▸ hopened) (fun _ h => h)
    fun _ _ h => h) (fun contents => ?_) fun _ _ h => ⟨h.1, nofun⟩
  have hremove : ∀ e : String, Spec (Own destination p d₀) (do
      Prog.ignore (removeAt destination p)
      Prog.fail e : DiskAction Nat) (Own destination p d₀) fun r d => Own destination p d₀ d ∧
        ∀ n, r = .ok n → Whole entry ∧ Opened destination p d₀ entry.chunks.flatten d ∧
          n = total + entry.chunks.flatten.length ∧ n ≤ maxArchiveDecompressedBytes := by
    intro e
    refine Spec.bind (Preserves.ignore (removeAt_own hclear)) (fun _ => ?_) fun _ _ h => ⟨h, nofun⟩
    exact Spec.fail fun _ h => ⟨h, nofun⟩
  refine Spec.ite (fun _ => (hremove _).conseq (fun _ h => h.1) (fun _ h => h) fun _ _ h => h)
    fun hlength => ?_
  refine Spec.bind Spec.refuse (fun _ => ?_) fun _ _ h => ⟨h.1.1, nofun⟩
  refine Spec.ite (fun _ => (hremove _).conseq (fun _ h => h.1.1) (fun _ h => h) fun _ _ h => h)
    fun htotal => Spec.pure fun x hx => ⟨hx.1.1, fun n hn => ?_⟩
  obtain ⟨hcontents, hopened'⟩ := hx.1.2 contents rfl
  -- within the limit nothing was cut off
  rw [List.nil_append, limited_flatten] at hcontents
  have hall : entry.chunks.flatten.length ≤ maxArchiveSingleFileBytes := by
    rw [hcontents, List.length_take] at hlength
    omega
  rw [List.take_of_length_le (by omega)] at hcontents
  subst hcontents
  cases hn
  exact ⟨⟨by omega, hall, hx.2.mp rfl⟩, hopened', rfl, by omega⟩

/-! ## One entry -/

/-- The components of an entry's name. -/
def entryPath (entry : TarEntry) : Option Path :=
  pathOf (String.ofList (filepathClean entry.Name.toList))

theorem entryPath_ne_nil (hp : entryPath entry = some p) : p ≠ [] := by
  rintro rfl
  unfold entryPath pathOf at hp
  obtain ⟨s, rest, hsplit⟩ := List.exists_cons_of_ne_nil (List.splitOn_ne_nil '/'
    (String.ofList (filepathClean entry.Name.toList)).toList)
  rw [hsplit, List.mapM_cons] at hp
  cases hs : Skills.fileName s with
  | none => rw [hs] at hp; cases hp
  | some c =>
      rw [hs] at hp
      cases hrest : rest.mapM Skills.fileName with
      | none => rw [hrest] at hp; cases hp
      | some l => rw [hrest] at hp; cases hp

/-- What an entry may change: a file of its own name, and directories that were not there. -/
structure Changed (destination : Path) (entry : TarEntry) (d₀ d : Disk) : Prop where
  node : ∀ q, d.tree.node q = d₀.tree.node q ∨
    (d₀.tree.node q = none ∧ d.tree.node q = some .dir ∧
      (entry.Typeflag = .dir ∨ entry.Typeflag = .reg) ∧
      ∃ p r, entryPath entry = some p ∧ r <+: p ∧ q = destination ++ r) ∨
    entry.Typeflag = .reg ∧ ∃ p, entryPath entry = some p ∧ q = destination ++ p
  written : ∀ q ∈ d.written, q ∈ d₀.written ∨ destination <+: q

theorem Changed.refl (destination : Path) (entry : TarEntry) (d : Disk) :
    Changed destination entry d d :=
  ⟨fun _ => Or.inl rfl, fun _ h => Or.inl h⟩

theorem Grown.changed (h : Grown destination p d₀ d) (hp : entryPath entry = some p)
    (hdir : entry.Typeflag = .dir) : Changed destination entry d₀ d := by
  refine ⟨fun q => ?_, h.written⟩
  rcases h.node q with hsame | ⟨hnone, hmade, r, hr, hq⟩
  · exact Or.inl hsame
  · exact Or.inr (Or.inl ⟨hnone, hmade, Or.inl hdir, p, r, hp, hr, hq⟩)

theorem Own.changed (h : Own destination p d₀ d) (hp : entryPath entry = some p)
    (hreg : entry.Typeflag = .reg) : Changed destination entry d₀ d := by
  refine ⟨fun q => ?_, h.written⟩
  rcases h.node q with hsame | hself | ⟨hnone, hdir, r, hr, hq⟩
  · exact Or.inl hsame
  · exact Or.inr (Or.inr ⟨hreg, p, hp, hself⟩)
  · exact Or.inr (Or.inl ⟨hnone, hdir, Or.inr hreg, p, r, hp, hr, hq⟩)

/-- The bytes of an entry that are counted. -/
def entryBytes (entry : TarEntry) : Nat :=
  if entry.Typeflag = .reg then entry.chunks.flatten.length else 0

/-- What an entry that was extracted has passed and left. -/
structure Extracted (destination : Path) (entry : TarEntry) (d₀ d : Disk) : Prop where
  notLink : entry.Typeflag ≠ .symlink ∧ entry.Typeflag ≠ .link
  valid : validateSafeWorkspacePath d₀.tree destination entry.Name = .ok ()
  dir : entry.Typeflag = .dir → ∃ p, entryPath entry = some p ∧
    d.tree.node (destination ++ p) = some .dir
  reg : entry.Typeflag = .reg → ∃ p, entryPath entry = some p ∧ Whole entry ∧
    Opened destination p d₀ entry.chunks.flatten d

/-- The counters stay within the limits. -/
structure Counted (fileCount total n : Nat) (entry : TarEntry) : Prop where
  files : fileCount + 1 ≤ maxArchiveFileCount
  sum : n = total + entryBytes entry
  bytes : total ≤ maxArchiveDecompressedBytes → n ≤ maxArchiveDecompressedBytes

theorem Counted.skipped {fileCount total : Nat} (hcount : fileCount + 1 ≤ maxArchiveFileCount)
    (h : entry.Typeflag ≠ .reg) : Counted fileCount total total entry :=
  ⟨hcount, by rw [entryBytes, if_neg h, Nat.add_zero], id⟩

theorem extractEntry_spec (hdir : d₀.tree.node destination = some .dir) (fileCount total : Nat) :
    Spec (· = d₀) (extractEntry destination fileCount total entry) (Changed destination entry d₀)
      fun r d => Changed destination entry d₀ d ∧ ∀ n, r = .ok n →
        Counted fileCount total n entry ∧ Extracted destination entry d₀ d := by
  have hfail : ∀ e : String, Spec (· = d₀) (Prog.fail e : DiskAction Nat)
      (Changed destination entry d₀) fun r d => Changed destination entry d₀ d ∧
        ∀ n, r = .ok n → Counted fileCount total n entry ∧ Extracted destination entry d₀ d :=
    fun e => Spec.fail fun d hd => ⟨hd ▸ Changed.refl destination entry d, nofun⟩
  unfold extractEntry
  refine Spec.ite (fun _ => hfail _) fun hcount => ?_
  refine Spec.ite (fun _ => hfail _) fun hlink => ?_
  rw [not_or] at hlink
  have hcount' : fileCount + 1 ≤ maxArchiveFileCount := Nat.le_of_not_lt hcount
  refine Spec.get_bind fun d hd => ?_
  subst hd
  split
  · exact hfail _
  · exact hfail _
  · rename_i p hvalid hp
    have hclear := validate_clear hdir hvalid hp
    have hgrown : ∀ x, x = d → Grown destination p d x :=
      fun x hx => hx ▸ Grown.refl destination p x
    split
    · rename_i htype
      have hreg : entry.Typeflag ≠ .reg := by
        rw [htype]
        decide
      have hmake := mkdirAll_grown hclear (List.prefix_refl p) p.length
      refine Spec.bind (hmake.conseq hgrown (fun _ h => h.changed hp htype) fun _ _ h => h)
        (fun _ => ?_) fun _ _ h => ⟨h.1.changed hp htype, nofun⟩
      refine Spec.pure fun x hx => ⟨hx.1.changed hp htype, fun n hn => ?_⟩
      cases hn
      refine ⟨Counted.skipped hcount' hreg, hlink, hvalid, fun _ => ⟨p, hp, ?_⟩,
        fun h => absurd h hreg⟩
      have hnode := hx.2 rfl (List.length_pos_iff.mpr (entryPath_ne_nil hp))
      rwa [List.take_length] at hnode
    · rename_i htype
      refine (extractRegular_spec hclear total).conseq hgrown (fun _ h => h.changed hp htype)
        fun r x hx => ⟨hx.1.changed hp htype, fun n hn => ?_⟩
      obtain ⟨hwhole, hopened, hsum, hbytes⟩ := hx.2 n hn
      refine ⟨⟨hcount', by rw [hsum, entryBytes, if_pos htype], fun _ => hbytes⟩, hlink, hvalid,
        fun hd => ?_, fun _ => ⟨p, hp, hwhole, hopened⟩⟩
      rw [htype] at hd
      cases hd
    · rename_i hnotDir hnotReg
      refine Spec.pure fun x hx => ⟨hx ▸ Changed.refl destination entry x, fun n hn => ?_⟩
      cases hn
      exact ⟨Counted.skipped hcount' hnotReg, hlink, hvalid, fun h => absurd h hnotDir,
        fun h => absurd h hnotReg⟩

/-! ## Whole archives -/

/-- The destination is there, and what was written is below it. -/
structure Inside (destination : Path) (d₀ d : Disk) : Prop where
  dir : d.tree.node destination = some .dir
  written : ∀ q ∈ d.written, q ∈ d₀.written ∨ destination <+: q

theorem Changed.inside {d₁ : Disk} (h : Changed destination entry d₁ d)
    (h₁ : Inside destination d₀ d₁) : Inside destination d₀ d := by
  refine ⟨?_, fun q hq => ?_⟩
  · rcases h.node destination with hsame | ⟨hnone, -, -⟩ | ⟨-, p, hp, hself⟩
    · rw [hsame, h₁.dir]
    · rw [h₁.dir] at hnone
      cases hnone
    · exact absurd (List.self_eq_append_right.mp hself) (entryPath_ne_nil hp)
  · rcases h.written q hq with hq | hq
    · exact h₁.written q hq
    · exact Or.inr hq

theorem extractEntry_inside (fileCount total : Nat) :
    Preserves (Inside destination d₀) (extractEntry destination fileCount total entry) :=
  Spec.of_pre fun _ hd => (extractEntry_spec hd.dir fileCount total).conseq (fun _ h => h)
    (fun _ h => h.inside hd) fun _ _ h => h.1.inside hd

theorem extractEntries_inside (ending : Option String) (entries : List TarEntry)
    (fileCount total : Nat) :
    Preserves (Inside destination d₀)
      (extractEntries destination ending fileCount total entries) := by
  induction entries generalizing fileCount total with
  | nil => exact Preserves.refuse
  | cons entry rest ih =>
      exact Preserves.bind (extractEntry_inside fileCount total) fun total => ih _ total

/-- The first entries are extracted, and these are the disk and the bytes they leave. -/
def Reaches (destination : Path) (d : Disk) (before : List TarEntry) (d₁ : Disk) : Prop :=
  ((extractEntries destination none 0 0 before).run d).result = .ok () ∧
    ((extractEntries destination none 0 0 before).run d).final = d₁

/-- An archive that is extracted reaches each of its entries and extracts it. -/
theorem extractEntries_split {ending : Option String} {before rest : List TarEntry}
    {fileCount total : Nat}
    (h : ((extractEntries destination ending fileCount total (before ++ rest)).run d).result =
      .ok ()) :
    ((extractEntries destination none fileCount total before).run d).result = .ok () ∧
      ∃ n, ((extractEntries destination ending (fileCount + before.length) n rest).run
        ((extractEntries destination none fileCount total before).run d).final).result = .ok () ∧
        ((extractEntries destination ending fileCount total (before ++ rest)).run d).final =
          ((extractEntries destination ending (fileCount + before.length) n rest).run
            ((extractEntries destination none fileCount total before).run d).final).final := by
  induction before generalizing fileCount total d with
  | nil => exact ⟨rfl, total, h, rfl⟩
  | cons entry before ih =>
      rw [List.cons_append, extractEntries] at h
      obtain ⟨n, hentry, hrest, hfinal, -⟩ := Prog.run_bind_eq_ok h
      obtain ⟨hbefore, m, hafter, hend⟩ := ih hrest
      obtain ⟨hf, hr, -⟩ := Prog.run_bind_of_ok
        (k := fun n => extractEntries destination none (fileCount + 1) n before) hentry rfl
      rw [List.length_cons, ← Nat.add_assoc, Nat.add_right_comm, List.cons_append, extractEntries,
        extractEntries, hf, hr]
      exact ⟨hbefore, m, hafter, hfinal.trans hend⟩

/-- An entry that is refused in the state that its turn comes in. -/
def Rejected (destination : Path) (d : Disk) (entry : TarEntry) : Prop :=
  entry.Typeflag = .symlink ∨ entry.Typeflag = .link ∨
    validateSafeWorkspacePath d.tree destination entry.Name ≠ .ok () ∨
    entry.Typeflag = .reg ∧ ¬ Whole entry

theorem Extracted.not_rejected {d₁ : Disk} (h : Extracted destination entry d₁ d) :
    ¬ Rejected destination d₁ entry := by
  rintro (hlink | hlink | hvalid | ⟨hreg, hwhole⟩)
  · exact h.notLink.1 hlink
  · exact h.notLink.2 hlink
  · exact hvalid h.valid
  · obtain ⟨p, -, hw, -⟩ := h.reg hreg
    exact hwhole hw

/-- The counters at the end of an archive. -/
theorem extractEntries_counted {ending : Option String} {entries : List TarEntry}
    {fileCount total : Nat} (hdir : d.tree.node destination = some .dir)
    (hcount : fileCount ≤ maxArchiveFileCount) (htotal : total ≤ maxArchiveDecompressedBytes)
    (h : ((extractEntries destination ending fileCount total entries).run d).result = .ok ()) :
    ending = none ∧ fileCount + entries.length ≤ maxArchiveFileCount ∧
      total + (entries.map entryBytes).sum ≤ maxArchiveDecompressedBytes := by
  induction entries generalizing fileCount total d with
  | nil =>
      refine ⟨?_, by simpa using hcount, by simpa using htotal⟩
      cases ending with
      | none => rfl
      | some e => cases h
  | cons entry rest ih =>
      obtain ⟨n, hentry, hrest, -⟩ := Prog.run_bind_eq_ok h
      obtain ⟨-, hchanged, hok⟩ := @extractEntry_spec _ _ entry hdir fileCount total d rfl
      obtain ⟨hcounted, -⟩ := hok n hentry
      have hdir' := (hchanged.inside ⟨hdir, fun _ h => Or.inl h⟩).dir
      obtain ⟨hending, hfiles, hbytes⟩ := ih hdir' hcounted.files (hcounted.bytes htotal) hrest
      rw [hcounted.sum] at hbytes
      rw [List.length_cons, List.map_cons, List.sum_cons]
      exact ⟨hending, by omega, by omega⟩

end Entries

/-- Every path that is written is below the destination, an entry changes no file but its own,
and an archive that is extracted has no entry that is refused. -/
theorem extractTarball_confined (stream : TarStream) (destination : Path) (d : Disk)
    (hdir : d.tree.node destination = some .dir) :
    (∀ crash t, (extractTarball stream destination).halt d crash = some t →
      ∀ q ∈ t.written, q ∈ d.written ∨ destination <+: q) ∧
    (∀ before entry after d₁, stream.entries = before ++ entry :: after →
      Reaches destination d before d₁ → ∀ total crash t,
        (extractEntry destination before.length total entry).halt d₁ crash = some t →
        ∀ q, t.tree.node q = d₁.tree.node q ∨
          (d₁.tree.node q = none ∧ t.tree.node q = some .dir ∧ destination <+: q) ∨
          entry.Typeflag = .reg ∧ ∃ p, entryPath entry = some p ∧ q = destination ++ p) ∧
    (((extractTarball stream destination).run d).result = .ok () →
      stream.unreadable = none ∧ stream.ending = none ∧
        stream.entries.length ≤ maxArchiveFileCount ∧
        (stream.entries.map entryBytes).sum ≤ maxArchiveDecompressedBytes ∧
        ∀ before entry after, stream.entries = before ++ entry :: after →
          ∃ d₁, Reaches destination d before d₁ ∧ ¬ Rejected destination d₁ entry) := by
  have hinside : Inside destination d d := ⟨hdir, fun _ h => Or.inl h⟩
  refine ⟨fun crash t ht => ?_, fun before entry after d₁ _ hreach total crash t ht q => ?_,
    fun hok => ?_⟩
  · have hspec : Preserves (Inside destination d) (extractTarball stream destination) :=
      Preserves.bind Preserves.refuse fun _ => extractEntries_inside _ _ _ _
    exact (Spec.halt (hspec.conseq (fun _ h => h ▸ hinside) (fun _ h => h) fun _ _ h => h)
      hinside (fun _ _ h => h) ht).written
  · have hd₁ := (extractEntries_inside none before 0 0).final hinside
    rw [hreach.2] at hd₁
    have hchanged := Spec.halt (extractEntry_spec hd₁.dir before.length total)
      (Changed.refl destination entry d₁) (fun _ _ h => h.1) ht
    rcases hchanged.node q with hsame | ⟨hnone, hmade, -, p, r, -, -, hq⟩ | hself
    · exact Or.inl hsame
    · exact Or.inr (Or.inl ⟨hnone, hmade, hq ▸ List.prefix_append _ _⟩)
    · exact Or.inr (Or.inr hself)
  · obtain ⟨_, hread, hentries, -⟩ := Prog.run_bind_eq_ok hok
    have hunreadable : stream.unreadable = none := by
      cases hu : stream.unreadable with
      | none => rfl
      | some e => rw [hu] at hread; cases hread
    rw [hunreadable] at hentries
    obtain ⟨hending, hfiles, hbytes⟩ := extractEntries_counted (d := d) hdir (Nat.zero_le _)
      (Nat.zero_le _) hentries
    refine ⟨hunreadable, hending, by omega, by omega, fun before entry after hsplit => ?_⟩
    rw [hsplit] at hentries
    obtain ⟨hbefore, n, hrest, -⟩ := extractEntries_split (d := d) hentries
    have hd₁ := (extractEntries_inside none before 0 0).final hinside
    obtain ⟨m, hentry, -⟩ := Prog.run_bind_eq_ok hrest
    obtain ⟨-, -, hdone⟩ := @extractEntry_spec _ _ entry hd₁.dir (0 + before.length) n _ rfl
    exact ⟨_, ⟨hbefore, rfl⟩, (hdone m hentry).2.not_rejected⟩

def source : FileName := ⟨"source", by decide⟩

/-- An empty source directory. -/
def emptySource : Disk := ⟨(Tree.empty.put [source] .dir).toOption.getD Tree.empty, []⟩

def noteArchive : TarStream :=
  ⟨none, [⟨"notes/", .dir, 0, [], none⟩, ⟨"./notes/a.md", .reg, 2, [[104], [105]], none⟩], none⟩

theorem extractTarball_confined_noteArchive :
    ((extractTarball noteArchive [source]).run emptySource).final.written ≠ [] ∧
    ∀ q ∈ ((extractTarball noteArchive [source]).run emptySource).final.written,
      q ∈ emptySource.written ∨ [source] <+: q :=
  ⟨by decide +kernel,
    (extractTarball_confined noteArchive [source] emptySource (by decide +kernel)).1 none _ rfl⟩

end Openlia.Intake

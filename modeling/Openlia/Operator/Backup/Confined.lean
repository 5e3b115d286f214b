import Mathlib.Data.List.Infix
import Openlia.Operator.Backup.Archive

/-! # Extraction stays in its destination

The checks compare texts, the file system follows links. A text says where a path
leads as long as nothing climbs out of a link: then every link inside the
destination is tame, and every walk of the extraction stays inside.
-/

namespace Openlia.Backup

open Lib Crash
open Skills (FileName Path Bytes Leaf Dir pathText relPath filepathClean fileName pathOf cleanStep)

/-! ## What the checks of a link say -/

/-- Leading parents stay where they are. -/
theorem foldl_cleanStep_parents (l : List (List Char)) (out : List (List Char)) :
    ∃ r, l.foldl cleanStep (['.', '.'] :: out) = ['.', '.'] :: r := by
  induction l generalizing out with
  | nil => exact ⟨out, rfl⟩
  | cons s l ih =>
      rw [List.foldl_cons]
      have hstep : ∃ r, cleanStep (['.', '.'] :: out) s = ['.', '.'] :: r := by
        unfold cleanStep
        split
        · exact ⟨out, rfl⟩
        · split
          · rename_i hlast
            cases out with
            | nil => simp at hlast
            | cons x out => exact ⟨(x :: out).dropLast, rfl⟩
          · exact ⟨out ++ [s], rfl⟩
      obtain ⟨r, hr⟩ := hstep
      rw [hr]
      exact ih r

theorem fileName_of_notMem {s : List Char} (hs : s ≠ []) (hdot : s ≠ ['.'])
    (hdots : s ≠ ['.', '.']) (hslash : '/' ∉ s) (hzero : '\x00' ∉ s) :
    ∃ c : FileName, fileName s = some c ∧ c.1.toList = s := by
  have htext : (String.ofList s).toList = s := String.toList_ofList
  have hne : ∀ u : String, u.toList ≠ s → String.ofList s ≠ u := by
    rintro u hu rfl
    exact hu htext
  refine ⟨_, dif_pos ⟨hne _ (Ne.symm hs), hne _ (Ne.symm hdot), hne _ (Ne.symm hdots), ?_, ?_⟩,
    htext⟩
  · rwa [htext]
  · rwa [htext]

/-- The steps of a part of a target. -/
def partSteps (parts : List (List Char)) : List (Step FileName) :=
  parts.filterMap fun s =>
    if s = [] ∨ s = ['.'] then none
    else if s = ['.', '.'] then some .up
    else (fileName s).map .name

/-- Cleaning that ends without a leading parent has not climbed too high. -/
theorem low_of_clean (parts : List (List Char)) (dir : Path)
    (hparts : ∀ s ∈ parts, '/' ∉ s ∧ '\x00' ∉ s)
    (h : (parts.foldl cleanStep (dir.map fun c => c.1.toList)).head? ≠ some ['.', '.']) :
    Low dir.length (partSteps parts) := by
  induction parts generalizing dir with
  | nil => exact trivial
  | cons s parts ih =>
      obtain ⟨hs, hrest⟩ := List.forall_mem_cons.mp hparts
      rw [List.foldl_cons] at h
      by_cases hskip : s = [] ∨ s = ['.']
      · have hsteps : partSteps (s :: parts) = partSteps parts := by
          simp [partSteps, hskip]
        rw [hsteps]
        exact ih dir hrest (by rwa [cleanStep, if_pos hskip] at h)
      · by_cases hup : s = ['.', '.']
        · subst hup
          have hsteps : partSteps (['.', '.'] :: parts) = .up :: partSteps parts := by
            simp [partSteps]
          rw [hsteps]
          rcases List.eq_nil_or_concat dir with rfl | ⟨dir, c, rfl⟩
          · obtain ⟨r, hr⟩ := foldl_cleanStep_parents parts []
            refine absurd ?_ h
            have hstep : cleanStep (List.map (fun c : FileName => c.1.toList) []) ['.', '.'] =
                [['.', '.']] := by decide
            rw [hstep, hr]
            rfl
          · rw [List.concat_eq_append, List.length_append, List.length_singleton]
            refine ih dir hrest ?_
            have hlast : c.1.toList ≠ ['.', '.'] := fun hc =>
              c.2.2.2.1 (String.toList_injective hc)
            have hstep : cleanStep ((dir ++ [c]).map fun c => c.1.toList) ['.', '.'] =
                dir.map fun c => c.1.toList := by
              simp [cleanStep, hlast]
            rwa [List.concat_eq_append, hstep] at h
        · rw [not_or] at hskip
          obtain ⟨c, hc, htext⟩ := fileName_of_notMem hskip.1 hskip.2 hup hs.1 hs.2
          have hsteps : partSteps (s :: parts) = .name c :: partSteps parts := by
            simp [partSteps, hskip, hup, hc]
          have hstep : cleanStep (dir.map fun c => c.1.toList) s =
              (dir ++ [c]).map fun c => c.1.toList := by
            rw [← htext, Skills.cleanStep_name]
            simp
          rw [hsteps]
          rw [hstep] at h
          have hlow := ih (dir ++ [c]) hrest h
          rw [List.length_append, List.length_singleton] at hlow
          cases hdir : dir.length <;> rw [hdir] at hlow <;> exact hlow

theorem linkSteps_eq (target : String) : linkSteps target = partSteps (target.toList.splitOn '/') :=
  rfl

/-- The components of a name are its parts. -/
theorem memberPath_parts {name : String} {p : Path} (h : memberPath name = some p) (hp : p ≠ []) :
    name.toList.splitOn '/' = p.map fun c => c.1.toList := by
  unfold memberPath at h
  split at h
  · exact absurd (Option.some.inj h).symm hp
  · have hname : ∀ (s : List Char) (c : FileName), fileName s = some c → c.1.toList = s := by
      intro s c hc
      unfold fileName at hc
      split at hc
      · rw [← Option.some.inj hc]
        exact String.toList_ofList
      · cases hc
    have hall : ∀ (l : List (List Char)) (q : Path), l.mapM fileName = some q →
        l = q.map fun c => c.1.toList := by
      intro l
      induction l with
      | nil =>
          intro q hq
          cases hq
          rfl
      | cons s l ih =>
          intro q hq
          simp only [List.mapM_cons, Option.bind_eq_bind, Option.bind_eq_some_iff] at hq
          obtain ⟨c, hc, r, hr, heq⟩ := hq
          cases heq
          rw [List.map_cons, hname s c hc, ← ih r hr]
    exact hall _ p h

theorem memberPath_text {name : String} {p : Path} (h : memberPath name = some p) (hp : p ≠ []) :
    name.toList = pathText p := by
  rw [pathText, ← memberPath_parts h hp, List.intercalate_splitOn]

/-- What is cleaned when a link is checked: its directory, then the parts of its target. -/
theorem clean_joined (dir : Path) (c : FileName) (target : List Char) :
    filepathClean (filepathDir (pathText (dir ++ [c])) ++ '/' :: target) =
      match (target.splitOn '/').foldl cleanStep (dir.map fun c => c.1.toList) with
      | [] => ['.']
      | out => List.intercalate ['/'] out := by
  have hc : '/' ∉ c.1.toList := c.2.2.2.2.1
  have hdrop : ∀ l : List Char, '/' ∉ l → ∀ r, (l ++ r).dropWhile (· ≠ '/') =
      r.dropWhile (· ≠ '/') := by
    intro l hl r
    refine List.dropWhile_append_of_pos fun x hx => ?_
    have hne : x ≠ '/' := by
      rintro rfl
      exact hl hx
    simpa using hne
  have hsplit : ((filepathDir (pathText (dir ++ [c]))).splitOn '/').foldl cleanStep [] =
      dir.map fun c => c.1.toList := by
    by_cases hdir : dir = []
    · subst hdir
      have htext : pathText ([] ++ [c]) = c.1.toList := by simp [pathText]
      have hnil : (c.1.toList.reverse.dropWhile (· ≠ '/')).reverse = [] := by
        have hr := hdrop c.1.toList.reverse (by simpa using hc) []
        rw [List.append_nil] at hr
        rw [hr]
        rfl
      rw [filepathDir, htext, hnil]
      decide
    · have htext := Skills.pathText_append hdir (q := [c]) (by simp)
      have hcut : ((pathText (dir ++ [c])).reverse.dropWhile (· ≠ '/')).reverse =
          pathText dir ++ ['/'] := by
        have hlast : pathText [c] = c.1.toList := by simp [pathText]
        rw [htext, hlast, List.reverse_append, List.reverse_cons, List.append_assoc,
          hdrop _ (by simpa using hc)]
        simp
      have hclean : filepathClean (pathText dir ++ ['/']) = pathText dir := by
        rw [filepathClean, List.splitOn_append_cons_self, Skills.splitOn_pathText hdir,
          List.splitOn_nil, List.foldl_append, Skills.foldl_cleanStep_names, List.nil_append,
          List.foldl_cons, List.foldl_nil, cleanStep, if_pos (.inl rfl)]
        split
        · rename_i h
          exact absurd (List.map_eq_nil_iff.mp h) hdir
        · rfl
      rw [filepathDir, hcut, hclean, Skills.splitOn_pathText hdir, Skills.foldl_cleanStep_names,
        List.nil_append]
  have hfold : ((filepathDir (pathText (dir ++ [c])) ++ '/' :: target).splitOn '/').foldl
      cleanStep [] = (target.splitOn '/').foldl cleanStep (dir.map fun c => c.1.toList) := by
    rw [List.splitOn_append_cons_self, List.foldl_append, hsplit]
  exact congrArg (fun parts : List (List Char) =>
    match parts with
    | [] => ['.']
    | out => List.intercalate ['/'] out) hfold

theorem split_intercalate_head (s : List Char) (r : List (List Char)) (hs : '/' ∉ s) :
    ((List.intercalate ['/'] (s :: r)).splitOn '/').head? = some s := by
  cases r with
  | nil => simp [List.splitOn_eq_singleton hs]
  | cons x r =>
      rw [List.intercalate_cons_cons, List.append_assoc, List.singleton_append,
        List.splitOn_append_cons_self, List.splitOn_eq_singleton hs]
      rfl

/-- An accepted link does not climb above the destination. -/
theorem low_of_safe {name target : String} {p : Path} (hname : memberPath name = some p)
    (hp : p ≠ []) (h : safeRelativeSymlink name target = true) :
    target.toList.head? ≠ some '/' ∧ Low p.dropLast.length (linkSteps target) := by
  unfold safeRelativeSymlink at h
  split at h
  · cases h
  rename_i hbad
  simp only [not_or] at hbad
  obtain ⟨-, hrel, hcontrol⟩ := hbad
  refine ⟨hrel, ?_⟩
  obtain ⟨dir, c, rfl⟩ := (List.eq_nil_or_concat p).resolve_left hp
  rw [List.concat_eq_append] at hname hp ⊢
  rw [List.dropLast_concat, linkSteps_eq]
  refine low_of_clean _ dir (fun s hs => ?_) fun hup => ?_
  · obtain ⟨hslash, hmem⟩ := of_mem_splitOn hs
    refine ⟨hslash, fun hzero => hcontrol ?_⟩
    exact List.any_eq_true.mpr ⟨_, hmem _ hzero, by decide⟩
  · obtain ⟨first, rest, hfirst⟩ := List.exists_cons_of_ne_nil hp
    have hroot : ((name.toList.splitOn '/').head?).getD [] = first.1.toList := by
      rw [memberPath_parts hname hp, hfirst]
      rfl
    have hslash : '/' ∉ first.1.toList := first.2.2.2.2.1
    rw [hroot, memberPath_text hname hp, clean_joined] at h
    obtain ⟨r, hout⟩ := List.head?_eq_some_iff.mp hup
    rw [hout] at h
    simp only at h
    have hhead := split_intercalate_head ['.', '.'] r (by decide)
    have hdots : first.1.toList ≠ ['.', '.'] := fun hc =>
      first.2.2.2.1 (String.toList_injective hc)
    simp only [Bool.or_eq_true, decide_eq_true_eq] at h
    rcases h with h | h
    · rw [h, List.splitOn_eq_singleton hslash] at hhead
      exact hdots (Option.some.inj hhead)
    · obtain ⟨x, hx⟩ := List.isPrefixOf_iff_prefix.mp h
      rw [← hx, List.append_assoc, List.singleton_append, List.splitOn_append_cons_self,
        List.splitOn_eq_singleton hslash] at hhead
      exact hdots (Option.some.inj hhead)

/-! ## Every write stays inside -/

/-- The destination, what was written and the links below the destination. -/
structure Enclosed (destination : Path) (d : Disk) : Prop where
  dir : d.tree.node destination = some .dir
  written : ∀ q ∈ d.written, destination <+: q
  links : TameLinks d.tree linkTarget destination

section Extraction

variable {destination p q : Path} {d : Disk} {n : Node Leaf} {name : String} {header : TarHeader}
  {manifest : BackupManifest}

theorem Enclosed.realPath (h : Enclosed destination d)
    (hw : realPath d.tree destination p = .ok q) : destination <+: q :=
  walk_inside h.links (List.prefix_refl _) (tame_names p) hw

theorem Enclosed.put {t : Dir} (h : Enclosed destination d) (hq : destination <+: q)
    (hput : d.tree.put q n = .ok t)
    (hn : ∀ data dest, n = .file data → linkTarget data = some dest →
      dest.absolute = false ∧ Tame d.tree destination q.dropLast dest.steps) :
    Enclosed destination ⟨t, d.written ++ [q]⟩ := by
  have hnode := Tree.put_node hput
  have hdirs : ∀ r, d.tree.node r = some .dir → t.node r = some .dir := by
    intro r hr
    rw [hnode, if_neg]
    · exact hr
    · rintro rfl
      exact (Tree.put_isOk.mp ⟨t, hput⟩).2.2 hr
  refine ⟨hdirs _ h.dir, fun r hr => ?_, fun r data dest hr hne hfile hdest => ?_⟩
  · rcases List.mem_append.mp hr with hr | hr
    · exact h.written r hr
    · rw [List.mem_singleton.mp hr]
      exact hq
  · rw [hnode] at hfile
    split at hfile
    · rename_i heq
      subst heq
      obtain ⟨habs, htame⟩ := hn data dest (Option.some.inj hfile) hdest
      exact ⟨habs, htame.mono hdirs⟩
    · obtain ⟨habs, htame⟩ := h.links r data dest hr hne hfile hdest
      exact ⟨habs, htame.mono hdirs⟩

/-- An entry that is no link. -/
def NoLink (n : Node Leaf) : Prop := ∀ data, n = .file data → linkTarget data = none

theorem noLink_dir : NoLink .dir := fun _ h => nomatch h

theorem noLink_regular (contents : Bytes) : NoLink (.file (.regular contents)) := by
  intro data h
  cases h
  rfl

theorem putAt_preserves (hq : destination <+: q) (hn : NoLink n) :
    Preserves (Enclosed destination) (putAt q n) := by
  refine Preserves.get_bind fun d hd => ?_
  cases hput : d.tree.put q n with
  | error e => exact Spec.fail fun _ h => h ▸ hd
  | ok t =>
      refine Spec.write (fun x hx => ?_) fun x hx => ?_
      all_goals
        subst hx
        exact hd.put hq hput fun data dest hdata hdest => nomatch (hn data hdata).symm.trans hdest

/-- What is created is inside. -/
theorem createAt_spec (hn : NoLink n) :
    Spec (Enclosed destination) (createAt destination p n) (Enclosed destination)
      fun r d => Enclosed destination d ∧ ∀ q, r = .ok q → destination <+: q := by
  refine Spec.get_bind fun d hd => ?_
  split
  · exact Spec.fail fun _ h => ⟨h ▸ hd, nofun⟩
  · exact Spec.fail fun _ h => ⟨h ▸ hd, nofun⟩
  · rename_i dir c hdir _
    have hinside : destination <+: dir ++ [c] :=
      (hd.realPath hdir).trans (List.prefix_append _ _)
    split
    · exact Spec.fail fun _ h => ⟨h ▸ hd, nofun⟩
    · refine Spec.bind ((putAt_preserves hinside hn).conseq (fun _ h => h ▸ hd) (fun _ h => h)
        fun _ _ h => h) (fun _ => Spec.pure fun _ h => ⟨h, fun q hq => ?_⟩) fun _ _ h => ⟨h, nofun⟩
      cases hq
      exact hinside

theorem mkdirAll_preserves (k : Nat) :
    Preserves (Enclosed destination) (mkdirAll destination p k) := by
  induction k with
  | zero => exact Preserves.pure ()
  | succ k ih =>
      refine Preserves.get_bind fun d hd => ?_
      have hstart : ∀ x, x = d → Enclosed destination x := fun x hx => hx ▸ hd
      split
      · split
        · exact Spec.pure hstart
        · exact Spec.fail hstart
      · refine Spec.bind (ih.conseq hstart (fun _ h => h) fun _ _ h => h) (fun _ => ?_)
          fun _ _ h => h
        exact Spec.bind (createAt_spec noLink_dir) (fun _ => Spec.pure fun _ h => h.1)
          fun _ _ h => h.1

theorem chmod_preserves : Preserves (Enclosed destination) (chmod destination p) := by
  refine Preserves.get_bind fun d hd => ?_
  split
  · exact Spec.fail fun _ h => h ▸ hd
  · rename_i q hq
    have hnext : Enclosed destination { d with written := d.written ++ [q] } := by
      refine ⟨hd.dir, fun r hr => ?_, hd.links⟩
      rcases List.mem_append.mp hr with hr | hr
      · exact hd.written r hr
      · rw [List.mem_singleton.mp hr]
        exact hd.realPath hq
    exact Spec.write (fun x hx => hx ▸ hnext) fun x hx => hx ▸ hnext

/-! ## Links that climb out of directories only -/

/-- No link lies on the way to the link's directory, and each name of the target that is
climbed out of is a directory there. -/
def Straight (t : Dir) (destination p : Path) (target : String) : Prop :=
  (∀ q, q <+: p.dropLast → ∀ data, t.node (destination ++ q) = some (.file data) →
    linkTarget data = none) ∧
    Grounded t (destination ++ p.dropLast) (linkSteps target)

def StraightMember (destination : Path) (header : TarHeader) (d : Disk) : Prop :=
  header.Typeflag = .symlink → ∀ p, memberPath (trimSlash header.Name) = some p →
    Straight d.tree destination p header.Linkname

/-- A straight link that the checks accept is tame. -/
theorem createLink_spec (hname : memberPath name = some p)
    (hsafe : safeRelativeSymlink name header.Linkname = true) :
    Spec (fun d => Enclosed destination d ∧ Straight d.tree destination p header.Linkname)
      (createAt destination p (.file (.link header.Linkname))) (Enclosed destination)
      fun _ d => Enclosed destination d := by
  refine Spec.get_bind fun d hd => ?_
  obtain ⟨hd, hlinks, hground⟩ := hd
  split
  · exact Spec.fail fun _ h => h ▸ hd
  · exact Spec.fail fun _ h => h ▸ hd
  · rename_i dir c hdir hlast
    have hp : p ≠ [] := by
      rintro rfl
      cases hlast
    obtain ⟨hrel, hlow⟩ := low_of_safe hname hp hsafe
    obtain rfl : dir = destination ++ p.dropLast := walk_names hlinks hdir
    have hinside : destination <+: destination ++ p.dropLast := List.prefix_append _ _
    split
    · exact Spec.fail fun _ h => h ▸ hd
    refine Spec.bind (Q := fun _ d => Enclosed destination d) ?_
      (fun _ => Spec.pure fun _ h => h) fun _ _ h => h
    refine Spec.get_bind fun x hx => ?_
    subst hx
    cases hput : x.tree.put (destination ++ p.dropLast ++ [c])
        (.file (.link header.Linkname)) with
    | error e => exact Spec.fail fun _ h => h ▸ hd
    | ok t =>
        have hnext : Enclosed destination
            ⟨t, x.written ++ [destination ++ p.dropLast ++ [c]]⟩ := by
          refine hd.put (hinside.trans (List.prefix_append _ _)) hput
            fun data dest hdata hdest => ?_
          cases hdata
          cases hdest
          refine ⟨decide_eq_false hrel, ?_⟩
          rw [List.dropLast_concat]
          refine tame_of_low hinside ?_ hlow hground
          rw [List.length_append]
        exact Spec.write (fun y hy => hy ▸ hnext) fun y hy => hy ▸ hnext

theorem extractMember_spec
    (hsafe : header.Typeflag = .symlink → safeRelativeSymlink name header.Linkname = true)
    (hname : name = trimSlash header.Name) :
    Spec (fun d => Enclosed destination d ∧ StraightMember destination header d)
      (extractMember destination name header) (Enclosed destination)
      fun _ d => Enclosed destination d := by
  have hall : ∀ {α : Type} {prog : DiskAction α}, Preserves (Enclosed destination) prog →
      Spec (fun d => Enclosed destination d ∧ StraightMember destination header d) prog
        (Enclosed destination) fun _ d => Enclosed destination d :=
    fun h => h.conseq (fun _ h => h.1) (fun _ h => h) fun _ _ h => h
  unfold extractMember
  split
  · exact hall (Preserves.fail _)
  · rename_i p hp
    split
    · exact hall (Preserves.bind (mkdirAll_preserves _) fun _ => chmod_preserves)
    · rename_i htype
      have hlink := @createLink_spec destination _ _ _ hp (hsafe htype)
      refine Spec.bind (hlink.conseq (fun d h => ⟨h.1, h.2 htype p (hname ▸ hp)⟩) (fun _ h => h)
        fun _ _ h => h) (fun _ => Spec.pure fun _ h => h) fun _ _ h => h
    · refine hall (Preserves.bind (mkdirAll_preserves _) fun _ => ?_)
      refine Spec.bind (createAt_spec (noLink_regular [])) (fun q => ?_) fun _ _ h => h.1
      refine Spec.of_pre fun x hx => ?_
      have hrest : Preserves (Enclosed destination) (do
          putAt q (.file (.regular header.Contents))
          chmod destination p) :=
        Preserves.bind (putAt_preserves (hx.2 q rfl) (noLink_regular _)) fun _ => chmod_preserves
      exact hrest.conseq (fun y hy => hy ▸ hx.1) (fun _ h => h) fun _ _ h => h
    · exact hall (Preserves.pure ())

/-! ## Whole archives -/

/-- Every link is straight in the state that its extraction starts from. -/
def StraightFrom (destination : Path) (manifest : BackupManifest) (members : Nat)
    (totalSize : Int) (archive : List TarHeader) (d : Disk) : Prop :=
  ∀ before header after, archive = before ++ header :: after →
    ((extractMembers destination manifest members totalSize before).run d).result = .ok () →
      StraightMember destination header
        ((extractMembers destination manifest members totalSize before).run d).final

theorem extractMembers_spec (archive : List TarHeader) (members : Nat) (totalSize : Int) :
    Spec (fun d => Enclosed destination d ∧
        StraightFrom destination manifest members totalSize archive d)
      (extractMembers destination manifest members totalSize archive) (Enclosed destination)
      fun _ d => Enclosed destination d := by
  induction archive generalizing members totalSize with
  | nil => exact Spec.pure fun _ h => h.1
  | cons header rest ih =>
      have hstart : ∀ (e : String), Spec (fun d => Enclosed destination d ∧
            StraightFrom destination manifest members totalSize (header :: rest) d)
          (Prog.fail e : DiskAction Unit) (Enclosed destination)
          fun _ d => Enclosed destination d := fun e => Spec.fail fun _ h => h.1
      rw [extractMembers]
      by_cases hskip : trimSlash header.Name = "" ∨ trimSlash header.Name = "manifest.json"
      · rw [if_pos hskip]
        refine (ih members totalSize).conseq
          (fun d hd => ⟨hd.1, fun before h after harch hrun => ?_⟩) (fun _ h => h) fun _ _ h => h
        have heq : extractMembers destination manifest members totalSize (header :: before) =
            extractMembers destination manifest members totalSize before := if_pos hskip
        have hstraight := hd.2 (header :: before) h after (by rw [harch]; rfl)
        rw [heq] at hstraight
        exact hstraight hrun
      rw [if_neg hskip]
      by_cases hlimits : exceedsLimits (members + 1) totalSize header = true
      · rw [if_pos hlimits]
        exact hstart _
      rw [if_neg hlimits]
      by_cases hrefused : refusedMember (trimSlash header.Name) manifest header = true
      · rw [if_pos hrefused]
        exact hstart _
      rw [if_neg hrefused]
      have hsafe : header.Typeflag = .symlink →
          safeRelativeSymlink (trimSlash header.Name) header.Linkname = true := by
        intro htype
        simp only [refusedMember, htype, Bool.or_eq_true, not_or] at hrefused
        simpa using hrefused.2
      intro d hd
      have hmember := @extractMember_spec destination _ _ hsafe rfl d
        ⟨hd.1, hd.2 [] header rest rfl rfl⟩
      cases hrun : ((extractMember destination (trimSlash header.Name) header).run d).result with
      | error e =>
          rw [Prog.run_bind_error hrun]
          exact hmember
      | ok u =>
          have hrest := ih (members + 1) (totalSize + header.Size)
            ((extractMember destination (trimSlash header.Name) header).run d).final
            ⟨hmember.2, fun before h after harch hok => ?_⟩
          · rw [Prog.run_bind_ok hrun]
            refine ⟨fun x hx => ?_, hrest.2⟩
            rcases List.mem_append.mp hx with hx | hx
            · exact hmember.1 x hx
            · exact hrest.1 x hx
          · have hstraight := hd.2 (header :: before) h after (by rw [harch]; rfl)
            rw [extractMembers, if_neg hskip, if_neg hlimits, if_neg hrefused,
              Prog.run_bind_ok hrun] at hstraight
            exact hstraight hok

/-- The destination is an empty directory, and nothing was written. -/
def Fresh (destination : Path) (d : Disk) : Prop :=
  d.tree.node destination = some .dir ∧
    (∀ q, destination <+: q → destination ≠ q → d.tree.node q = none) ∧ d.written = []

theorem Fresh.enclosed (h : Fresh destination d) : Enclosed destination d := by
  refine ⟨h.1, fun q hq => ?_, fun q data dest hq hne hnode => ?_⟩
  · rw [h.2.2] at hq
    cases hq
  · cases (h.2.1 q hq hne).symm.trans hnode

/-- Wherever an extraction stops, what it created and wrote lies in the destination, if
every link climbs out of directories only. -/
theorem extraction_confined {archive : List TarHeader} {crash : Option Nat} {d' : Disk}
    (hfresh : Fresh destination d)
    (hstraight : StraightFrom destination manifest 0 0 archive d)
    (hstop : (extractRestoreArchive archive destination manifest).halt d crash = some d') :
    ∀ q ∈ d'.written, destination <+: q := by
  have hspec : Spec (· = d) (extractRestoreArchive archive destination manifest)
      (Enclosed destination) fun _ d => Enclosed destination d :=
    (extractMembers_spec archive 0 0).conseq (fun x hx => hx ▸ ⟨hfresh.enclosed, hstraight⟩)
      (fun _ h => h) fun _ _ h => h
  exact (Spec.halt hspec hfresh.enclosed (fun _ _ h => h) hstop).written

end Extraction

/-! ## Two archives -/

section Archives

def srv : FileName := ⟨"srv", by decide⟩
def staging : FileName := ⟨"staging", by decide⟩
def hermes : FileName := ⟨"hermes", by decide⟩

def stagingDir : Disk := ⟨((Tree.empty.mkdirAll [srv, staging]).toOption).getD .empty, []⟩

def dirHeader (name : String) : TarHeader := ⟨name, .dir, "", 0, []⟩

def linkHeader (name target : String) : TarHeader := ⟨name, .symlink, target, 0, []⟩

def fileHeader (name : String) : TarHeader := ⟨name, .reg, "", 1, [49]⟩

/-- The manifest `1` is a backup of the first schema. -/
def unmarshalOne (contents : Bytes) : Option BackupManifest :=
  if contents = [49] then some ⟨1, "", []⟩ else none

/-- A file is written through a link that climbs out of a directory. -/
def linkedArchive : List TarHeader :=
  [dirHeader "hermes/", dirHeader "hermes/d/", linkHeader "hermes/in" "d/../d",
    fileHeader "hermes/in/notes"]

theorem stagingDir_fresh : Fresh [srv, staging] stagingDir := by
  refine ⟨by decide +kernel, fun q hq hne => ?_, rfl⟩
  have hkeys : ∀ r ∈ stagingDir.tree.entries.keys, ¬ [srv, staging] <+: r ∨ [srv, staging] = r := by
    decide +kernel
  have hq0 : q ≠ [] := by
    rintro rfl
    exact absurd (List.prefix_nil.mp hq) (by simp)
  rw [Lib.Tree.node, nodeAt, if_neg hq0, AList.lookup_eq_none]
  intro hmem
  exact (hkeys q hmem).elim (fun h => h hq) hne

theorem linkedArchive_straight :
    StraightFrom [srv, staging] ⟨1, "", []⟩ 0 0 linkedArchive stagingDir := by
  intro before header after harch _ htype p hp
  match before, harch with
  | [], harch => cases harch; cases htype
  | [_], harch => cases harch; cases htype
  | [_, _, _], harch => cases harch; cases htype
  | [_, _, _, _], harch => cases harch
  | [_, _], harch =>
    cases harch
    have hpath : memberPath (trimSlash "hermes/in") = some [hermes, ⟨"in", by decide⟩] := by
      decide +kernel
    cases hpath.symm.trans hp
    have hdirs : ∀ q ∈ [hermes].inits, ((extractMembers [srv, staging] ⟨1, "", []⟩ 0 0
        [dirHeader "hermes/", dirHeader "hermes/d/"]).run stagingDir).final.tree.isDir
          ([srv, staging] ++ q) = true := by decide +kernel
    have hsteps : linkSteps (linkHeader "hermes/in" "d/../d").Linkname =
        [.name ⟨"d", by decide⟩, .up, .name ⟨"d", by decide⟩] := by decide +kernel
    refine ⟨fun q hq data hdata => ?_, ?_⟩
    · have hdir := Tree.isDir_eq_true.mp (hdirs q ((List.mem_inits q [hermes]).mpr hq))
      cases hdata.symm.trans hdir
    · refine hsteps.symm ▸
        ⟨fun _ => Tree.isDir_eq_true.mp (by decide +kernel), fun h => ?_, trivial⟩
      cases h

theorem extraction_confined_linkedArchive :
    [srv, staging, hermes] ∈ ((extractRestoreArchive linkedArchive [srv, staging]
      ⟨1, "", []⟩).run stagingDir).final.written ∧
    ∀ q ∈ ((extractRestoreArchive linkedArchive [srv, staging]
      ⟨1, "", []⟩).run stagingDir).final.written, [srv, staging] <+: q :=
  ⟨by decide +kernel,
    @extraction_confined _ _ _ _ none _ stagingDir_fresh linkedArchive_straight rfl⟩

/-- The target of `hermes/out` climbs out of the link `hermes/d/up`. -/
def escapingArchive : List TarHeader :=
  [⟨"manifest.json", .reg, "", 1, [49]⟩, dirHeader "hermes/", dirHeader "hermes/d/",
    linkHeader "hermes/d/up" "..", linkHeader "hermes/out" "d/up/../..",
    fileHeader "hermes/out/evil"]

/-- The inspection accepts the archive, and its extraction writes beside the destination. -/
theorem extraction_escapes :
    inspectRestoreArchive unmarshalOne escapingArchive = .ok ⟨1, "", []⟩ ∧
    Fresh [srv, staging] stagingDir ∧
    ((extractRestoreArchive escapingArchive [srv, staging] ⟨1, "", []⟩).run
      stagingDir).result = .ok () ∧
    ∃ q ∈ ((extractRestoreArchive escapingArchive [srv, staging] ⟨1, "", []⟩).run
      stagingDir).final.written, ¬ [srv, staging] <+: q :=
  ⟨by decide +kernel, stagingDir_fresh, by decide +kernel, [srv, ⟨"evil", by decide⟩],
    by decide +kernel, by decide +kernel⟩

end Archives

end Openlia.Backup

import Openlia.Lib.Results
import Openlia.Workspace.SkillFiles

/-! # Where the files of a skill are

A path of a skill leads to a directory, or to one that is made for it; the target is
an entry of that directory. What a request reads, writes and leaves behind is said in
terms of that directory.
-/

namespace Openlia.SkillService

open Lib
open Workspace (Bytes Runtime WorkspaceError refusal splitSlash revision systemError decodeFatal)

/-! ## Paths -/

section Paths

variable {disk disk' : Disk} {p above rest d a q : List String} {c : String}

theorem real_nil (disk : Disk) : real disk [] = .ok [] := rfl

theorem real_append (h : real disk p = .ok d) (hd : disk.node d = some .dir) :
    ∃ links, ∀ c, real disk (p ++ [c]) = disk.walk Entry.target links d [.name c] := by
  obtain ⟨links, hlinks⟩ := walk_append h hd
  refine ⟨links, fun c => ?_⟩
  rw [real, List.map_append]
  exact hlinks _

/-- A file that is no link is at its name in the directory. -/
theorem real_of_node {n : Node Entry} (h : real disk p = .ok d) (hd : disk.node d = some .dir)
    (hn : disk.node (d ++ [c]) = some n) (hsym : n ≠ .symlink)
    (hlink : ∀ dest, n ≠ .file (.link dest)) : real disk (p ++ [c]) = .ok (d ++ [c]) := by
  obtain ⟨links, hlinks⟩ := real_append h hd
  rw [hlinks]
  refine walk_name hn hsym fun data hdata => ?_
  cases data with
  | regular bytes => rfl
  | link dest => exact absurd hdata (hlink dest)
  | special => rfl

theorem real_of_none (h : real disk p = .ok d) (hd : disk.node d = some .dir)
    (hn : disk.node (d ++ [c]) = none) : real disk (p ++ [c]) = .error .notExist := by
  obtain ⟨links, hlinks⟩ := real_append h hd
  rw [hlinks]
  exact walk_name_none hn

theorem real_dir_of_append (h : real disk (p ++ [c]) = .ok q) :
    ∃ d, real disk p = .ok d ∧ disk.node d = some .dir := by
  rw [real, List.map_append] at h
  exact walk_dir_of_append h

theorem real_mono (hmono : ∀ q n, disk.node q = some n → disk'.node q = some n)
    (h : real disk p = .ok d) : real disk' p = .ok d :=
  walk_mono (fun q n hn => .inl (hmono q n hn)) h

theorem node_of_real (h : real disk p = .ok d) : disk.node d ≠ none := by
  refine node_of_walk ?_ h
  rw [Tree.node_nil]
  exact Option.some_ne_none _

theorem existsSync_eq_true : existsSync disk p = true ↔ ∃ d, real disk p = .ok d := by
  unfold existsSync
  cases real disk p with
  | ok d => simp
  | error e => simp

/-! ## Making directories -/

/-- Where a path leads when the directories that it lacks are made. -/
def landing (disk : Disk) (above : List String) : List String → Except Errno (List String)
  | [] => real disk above
  | c :: rest =>
      match real disk (above ++ [c]) with
      | .ok d => if disk.isDir d then landing disk (above ++ [c]) rest else .error .notDir
      | .error e =>
          match real disk above with
          | .error e => .error e
          | .ok d =>
              match disk.node (d ++ [c]) with
              | some _ => .error e
              | none => .ok (d ++ c :: rest)

/-- The disk has the directory `d` and those above it, and is otherwise as before. -/
structure Made (disk : Disk) (d : List String) (disk' : Disk) : Prop where
  dir : disk'.node d = some .dir
  fills : ∀ q, disk'.node q = (disk.node q).or (if q <+: d then some .dir else none)

theorem Made.mono (h : Made disk d disk') {n : Node Entry} (hn : disk.node q = some n) :
    disk'.node q = some n := by
  rw [h.fills, hn, Option.some_or]

theorem dir_of_initial (hd : disk.node d = some .dir) (hq : q <+: d) :
    disk.node q = some .dir := by
  by_cases hqd : q = d
  · rw [hqd, hd]
  · exact Tree.node_of_above (by rw [hd]; exact Option.some_ne_none _) hq hqd

theorem made_refl (hd : disk.node d = some .dir) : Made disk d disk := by
  refine ⟨hd, fun q => ?_⟩
  split
  · rename_i hq
    rw [dir_of_initial hd hq, Option.some_or]
  · rw [Option.or_none]

/-- Below a name that is missing every directory is made. -/
theorem mkdirFrom_missing (hreal : real disk above = .ok a) (hd : disk.node a = some .dir)
    (hnew : ∀ c ∈ rest.head?, disk.node (a ++ [c]) = none) :
    ∃ disk', mkdirFrom disk above rest = .ok disk' ∧
      real disk' (above ++ rest) = .ok (a ++ rest) ∧ Made disk (a ++ rest) disk' := by
  induction rest generalizing disk above a with
  | nil =>
      rw [List.append_nil, List.append_nil]
      exact ⟨disk, rfl, hreal, made_refl hd⟩
  | cons c rest ih =>
      have hnone := hnew c rfl
      obtain ⟨disk₁, hput⟩ : ∃ disk₁, disk.put (a ++ [c]) .dir = .ok disk₁ := by
        refine Tree.put_isOk.mpr ⟨by simp, ?_, by rw [hnone]; exact nofun⟩
        rw [List.dropLast_concat]
        exact hd
      have hnode := Tree.put_node hput
      have hdir₁ : disk₁.node (a ++ [c]) = some .dir := by
        rw [hnode, if_pos rfl]
      have hmono : ∀ q n, disk.node q = some n → disk₁.node q = some n := by
        intro q n hn
        rw [hnode, if_neg, hn]
        rintro rfl
        cases hnone.symm.trans hn
      have hreal₁ : real disk₁ (above ++ [c]) = .ok (a ++ [c]) :=
        real_of_node (real_mono hmono hreal) (hmono _ _ hd) hdir₁ nofun nofun
      obtain ⟨disk', hrun, hreal', hmade⟩ := ih hreal₁ hdir₁ fun c' _ => by
        rw [hnode, if_neg (by simp)]
        refine Tree.node_below_eq_none (p := a ++ [c]) ?_ (List.prefix_append _ _) (by simp)
        rw [hnone]
        exact nofun
      refine ⟨disk', ?_, ?_, ?_, fun q => ?_⟩
      · rw [mkdirFrom, real_of_none hreal hd hnone]
        dsimp only
        rw [hreal]
        dsimp only
        rw [hnone]
        dsimp only
        rw [hput]
        exact hrun
      · simpa using hreal'
      · simpa using hmade.dir
      · have hfills := hmade.fills q
        rw [List.append_assoc, List.singleton_append] at hfills
        rw [hfills, hnode]
        by_cases hq : q = a ++ [c]
        · subst hq
          rw [if_pos rfl, hnone, if_pos ⟨rest, by simp⟩]
          rfl
        · rw [if_neg hq]

/-- `mkdirSync` makes the directory that the path leads to. -/
theorem mkdirFrom_landing (hreal : real disk above = .ok a) (hd : disk.node a = some .dir) :
    (∀ d, landing disk above rest = .ok d →
      ∃ disk', mkdirFrom disk above rest = .ok disk' ∧
        real disk' (above ++ rest) = .ok d ∧ Made disk d disk') ∧
    ∀ e, landing disk above rest = .error e → ∃ e', mkdirFrom disk above rest = .error e' := by
  induction rest generalizing above a with
  | nil =>
      rw [landing, mkdirFrom, hreal]
      refine ⟨fun d h => ?_, nofun⟩
      cases h
      rw [List.append_nil]
      exact ⟨disk, rfl, hreal, made_refl hd⟩
  | cons c rest ih =>
      rw [landing, mkdirFrom]
      cases hnext : real disk (above ++ [c]) with
      | ok b =>
          dsimp only
          by_cases hb : disk.isDir b = true
          · rw [if_pos hb, if_pos hb]
            have happ : above ++ c :: rest = above ++ [c] ++ rest := by simp
            rw [happ]
            exact ih hnext (Tree.isDir_eq_true.mp hb)
          · rw [if_neg hb, if_neg hb]
            exact ⟨nofun, fun _ _ => ⟨_, rfl⟩⟩
      | error e =>
          dsimp only
          rw [hreal]
          dsimp only
          cases hn : disk.node (a ++ [c]) with
          | some n => exact ⟨nofun, fun _ _ => ⟨_, rfl⟩⟩
          | none =>
              refine ⟨fun d h => ?_, nofun⟩
              cases h
              obtain ⟨disk', hrun, hreal', hmade⟩ :=
                @mkdirFrom_missing disk above (c :: rest) a hreal hd fun c' hc => by
                  cases hc
                  exact hn
              rw [mkdirFrom, hnext] at hrun
              dsimp only at hrun
              rw [hreal] at hrun
              dsimp only at hrun
              rw [hn] at hrun
              exact ⟨disk', hrun, hreal', hmade⟩

theorem Made.node_eq (h : Made disk d disk') (hd : disk.node d ≠ none) (q : List String) :
    disk'.node q = disk.node q := by
  obtain ⟨n, hn⟩ := Option.ne_none_iff_exists'.mp hd
  have hdir : disk.node d = some .dir := hn.trans ((h.mono hn).symm.trans h.dir)
  rw [h.fills]
  split
  · rename_i hq
    rw [dir_of_initial hdir hq, Option.some_or]
  · rw [Option.or_none]

theorem real_congr (h : ∀ q, disk'.node q = disk.node q) (hreal : real disk' p = .ok d) :
    real disk p = .ok d :=
  real_mono (fun q _ hn => (h q).symm.trans hn) hreal

end Paths

/-! ## The target -/

section Target

variable {disk disk' : Disk} {l : Located} {d : List String} {rt : Runtime}
  {options : SkillServiceOptions} {faults : Faults} {uuid temporary name : String}
  {contents : Bytes} {expected : Option String}

/-- What stands at the target's name in the directory `d`, as a write sees it. -/
def found (disk : Disk) (l : Located) (d : List String) : Option Bytes :=
  match disk.node (d ++ [l.name]) with
  | none => some []
  | some (.file (.regular contents)) => some contents
  | some (.file (.link _)) | some .symlink =>
      if existsSync disk l.target then none else some []
  | some .dir | some (.file .special) => none

theorem lstatSync_eq (h : real disk l.parent = .ok d) :
    lstatSync disk l.parent l.name = disk.node (d ++ [l.name]) := by
  rw [lstatSync, h]

/-- The file that a target without a link at its name is. -/
theorem regularFile_eq_ok (h : real disk l.parent = .ok d) :
    regularFile disk l = .ok contents ↔
      disk.node (d ++ [l.name]) = some (.file (.regular contents)) := by
  unfold regularFile
  rw [lstatSync_eq h]
  rcases disk.node (d ++ [l.name]) with _ | (bytes | dest | _) | _ | _ <;> simp

theorem currentContents_eq_ok (h : real disk l.parent = .ok d) (hd : disk.node d = some .dir) :
    currentContents disk l = .ok contents ↔ found disk l d = some contents := by
  unfold currentContents
  cases hn : disk.node (d ++ [l.name]) with
  | none =>
      have hgone : existsSync disk l.target = false := by
        rw [existsSync, Located.target, real_of_none h hd hn]
      rw [hgone, found, hn, if_neg Bool.false_ne_true]
      simp
  | some n =>
      by_cases hexists : existsSync disk l.target = true
      · rw [if_pos hexists, regularFile_eq_ok h, found, hn]
        rcases n with (bytes | dest | _) | _ | _ <;> simp [hexists]
      · rw [if_neg hexists, found, hn]
        have hnot : ∀ m, n = m → m ≠ .symlink → (∀ dest, m ≠ .file (.link dest)) → False := by
          rintro m rfl hsym hlink
          exact hexists (existsSync_eq_true.mpr ⟨_, real_of_node h hd hn hsym hlink⟩)
        rcases n with (bytes | dest | _) | _ | _
        · exact (hnot _ rfl nofun nofun).elim
        · dsimp only
          rw [if_neg hexists]
          simp
        · exact (hnot _ rfl nofun nofun).elim
        · exact (hnot _ rfl nofun nofun).elim
        · dsimp only
          rw [if_neg hexists]
          simp

/-- No call of the replacement fails, and the temporary name is free. -/
def Untroubled (faults : Faults) (disk : Disk) (temp : List String) : Prop :=
  faults.openSync = none ∧ faults.writeSync = none ∧ faults.renameSync = none ∧
    disk.node temp = none

theorem unlinkSync_node {opened : Disk} {p : List String} {bytes : Bytes}
    (hput : disk.put p (.file (.regular bytes)) = .ok opened) (hnone : disk.node p = none)
    (q : List String) : (unlinkSync opened p).node q = disk.node q := by
  have hopened := Tree.put_node hput
  have hp : opened.node p = some (.file (.regular bytes)) := by
    rw [hopened, if_pos rfl]
  obtain ⟨removed, hremove⟩ := Tree.remove_isOk (t := opened) (p := p)
    (by rw [hp]; exact Option.some_ne_none _) (by rw [hp]; exact nofun)
  rw [unlinkSync, hremove]
  dsimp only
  rw [Tree.remove_node hremove, hopened]
  split
  · rename_i hq
    rw [hq, hnone]
  · rfl

/-- The replacement changes the target, or nothing. -/
theorem replaceFile_spec (hd : disk.node d = some .dir)
    (htarget : disk.node (d ++ [name]) ≠ some .dir) :
    (Untroubled faults disk (d ++ [temporary]) →
      (replaceFile faults d temporary name contents disk).1 = .ok () ∧
      ∀ q, (replaceFile faults d temporary name contents disk).2.node q =
        if q = d ++ [name] then some (.file (.regular contents)) else disk.node q) ∧
    (¬ Untroubled faults disk (d ++ [temporary]) →
      (∃ e, (replaceFile faults d temporary name contents disk).1 = .error e) ∧
      ∀ q, (replaceFile faults d temporary name contents disk).2.node q = disk.node q) := by
  unfold replaceFile
  cases hopen : faults.openSync with
  | some code => exact ⟨fun h => (nomatch hopen.symm.trans h.1), fun _ => ⟨⟨_, rfl⟩, fun _ => rfl⟩⟩
  | none =>
      dsimp only
      by_cases hsome : (disk.node (d ++ [temporary])).isSome = true
      · rw [if_pos hsome]
        refine ⟨fun h => ?_, fun _ => ⟨⟨_, rfl⟩, fun _ => rfl⟩⟩
        rw [h.2.2.2] at hsome
        cases hsome
      · rw [if_neg hsome]
        have hnone : disk.node (d ++ [temporary]) = none := by simpa using hsome
        obtain ⟨opened, hput⟩ : ∃ opened, disk.put (d ++ [temporary]) (.file (.regular contents)) =
            .ok opened := by
          refine Tree.put_isOk.mpr ⟨by simp, ?_, by rw [hnone]; exact nofun⟩
          rw [List.dropLast_concat]
          exact hd
        rw [hput]
        dsimp only
        have hgone := unlinkSync_node hput hnone
        cases hwrite : faults.writeSync with
        | some code =>
            exact ⟨fun h => (nomatch hwrite.symm.trans h.2.1), fun _ => ⟨⟨_, rfl⟩, hgone⟩⟩
        | none =>
            dsimp only
            cases hrename : faults.renameSync with
            | some code =>
                exact ⟨fun h => (nomatch hrename.symm.trans h.2.2.1), fun _ => ⟨⟨_, rfl⟩, hgone⟩⟩
            | none =>
                dsimp only
                obtain ⟨renamed, hput'⟩ : ∃ renamed,
                    (unlinkSync opened (d ++ [temporary])).put (d ++ [name])
                      (.file (.regular contents)) = .ok renamed := by
                  refine Tree.put_isOk.mpr ⟨by simp, ?_, by rwa [hgone]⟩
                  rw [List.dropLast_concat, hgone]
                  exact hd
                rw [hput']
                refine ⟨fun _ => ⟨rfl, fun q => ?_⟩, fun h => ?_⟩
                · rw [Tree.put_node hput', hgone]
                · exact absurd ⟨hopen, hwrite, hrename, hnone⟩ h

/-- The write is carried out: the target may be replaced, the revision is that of its contents,
and no call fails. -/
def Accepts (rt : Runtime) (faults : Faults) (uuid : String) (expected : Option String)
    (disk : Disk) (l : Located) (d : List String) : Prop :=
  (∃ current, found disk l d = some current ∧ expected = some (revision rt current)) ∧
    Untroubled faults disk (d ++ [temporaryName uuid l])

theorem found_ne_dir {current : Bytes} (h : found disk l d = some current) :
    disk.node (d ++ [l.name]) ≠ some .dir := by
  intro hdir
  rw [found, hdir] at h
  cases h

theorem replaceTarget_spec (hreal : real disk l.parent = .ok d) (hd : disk.node d = some .dir) :
    (Accepts rt faults uuid expected disk l d →
      (replaceTarget rt faults uuid l contents expected disk).1 = .ok () ∧
      ∀ q, (replaceTarget rt faults uuid l contents expected disk).2.node q =
        if q = d ++ [l.name] then some (.file (.regular contents)) else disk.node q) ∧
    (¬ Accepts rt faults uuid expected disk l d →
      (∃ e, (replaceTarget rt faults uuid l contents expected disk).1 = .error e) ∧
      ∀ q, (replaceTarget rt faults uuid l contents expected disk).2.node q = disk.node q) := by
  unfold replaceTarget
  cases hcurrent : currentContents disk l with
  | error e =>
      refine ⟨fun ⟨⟨current, hfound, _⟩, _⟩ => ?_, fun _ => ⟨⟨e, rfl⟩, fun _ => rfl⟩⟩
      cases hcurrent.symm.trans ((currentContents_eq_ok hreal hd).mpr hfound)
  | ok current =>
      have hfound := (currentContents_eq_ok hreal hd).mp hcurrent
      dsimp only
      by_cases hrevision : expected = some (revision rt current)
      · rw [if_pos hrevision, hreal]
        obtain ⟨hok, herror⟩ := @replaceFile_spec disk d faults (temporaryName uuid l) l.name
          contents hd (found_ne_dir hfound)
        exact ⟨fun h => hok h.2, fun h => herror fun hu => h ⟨⟨current, hfound, hrevision⟩, hu⟩⟩
      · rw [if_neg hrevision]
        refine ⟨fun ⟨⟨current', hfound', hrevision'⟩, _⟩ => ?_, fun _ => ⟨⟨_, rfl⟩, fun _ => rfl⟩⟩
        rw [Option.some.inj (hfound'.symm.trans hfound)] at hrevision'
        exact absurd hrevision' hrevision

theorem not_prefix_of_concat (d : List String) (c : String) : ¬ d ++ [c] <+: d := by
  intro hinside
  have hlength := hinside.length_le
  rw [List.length_append, List.length_singleton] at hlength
  omega

/-- Making the directory does not change what a write finds in it. -/
theorem accepts_made (hmade : Made disk d disk') :
    Accepts rt faults uuid expected disk' l d ↔ Accepts rt faults uuid expected disk l d := by
  have hbelow : ∀ c, disk'.node (d ++ [c]) = disk.node (d ++ [c]) := by
    intro c
    rw [hmade.fills, if_neg (not_prefix_of_concat d c), Option.or_none]
  have hfound : found disk' l d = found disk l d := by
    unfold found
    rw [hbelow]
    cases hn : disk.node (d ++ [l.name]) with
    | none => rfl
    | some n =>
        have hd : disk.node d ≠ none := by
          rw [Tree.node_append_singleton (by rw [hn]; exact Option.some_ne_none n)]
          exact Option.some_ne_none _
        have hsame := hmade.node_eq hd
        have hexists : existsSync disk' l.target = existsSync disk l.target := by
          rw [Bool.eq_iff_iff, existsSync_eq_true, existsSync_eq_true]
          exact exists_congr fun p => ⟨real_congr hsame, real_congr fun q => (hsame q).symm⟩
        rw [hexists]
  rw [Accepts, Accepts, hfound, Untroubled, Untroubled, hbelow]

end Target

/-! ## Requests -/

section Requests

variable {rt : Runtime} {options : SkillServiceOptions} {disk disk' : Disk} {l : Located}
  {faults : Faults} {uuid id relPath : String} {contents : Bytes}
  {idValue pathValue contentValue expected : Option String} {d s : List String}

theorem exists_of_resolveSkillPath {absolute : List String}
    (h : resolveSkillPath options disk id = .ok absolute) : ∃ s, real disk absolute = .ok s := by
  unfold resolveSkillPath at h
  dsimp only at h
  split at h
  · rename_i hactive
    cases h
    exact existsSync_eq_true.mp hactive
  · split at h
    · rename_i hdisabled
      cases h
      exact existsSync_eq_true.mp hdisabled
    · cases h

theorem absolute_of_locate {absolute : List String} (h : locate absolute relPath = .ok l) :
    l.absolute = absolute := by
  unfold locate at h
  dsimp only at h
  split at h
  · cases h
    rfl
  · cases h

/-- The skill's directory is there. -/
theorem exists_of_checkRead
    (h : checkRead rt options idValue pathValue disk = .ok (id, relPath, l)) :
    ∃ s, real disk l.absolute = .ok s := by
  obtain ⟨id', -, h⟩ := except_bind_ok h
  obtain ⟨relPath', -, h⟩ := except_bind_ok h
  obtain ⟨absolute, hresolve, h⟩ := except_bind_ok h
  obtain ⟨l', hlocate, h⟩ := except_bind_ok h
  cases h
  rw [absolute_of_locate hlocate]
  exact exists_of_resolveSkillPath hresolve

theorem exists_of_checkWrite
    (h : checkWrite rt options idValue pathValue contentValue disk =
      .ok (id, relPath, contents, l)) : ∃ s, real disk l.absolute = .ok s := by
  obtain ⟨id', -, h⟩ := except_bind_ok h
  obtain ⟨relPath', -, h⟩ := except_bind_ok h
  obtain ⟨contents', -, h⟩ := except_bind_ok h
  obtain ⟨absolute, hresolve, h⟩ := except_bind_ok h
  obtain ⟨l', hlocate, h⟩ := except_bind_ok h
  cases h
  rw [absolute_of_locate hlocate]
  exact exists_of_resolveSkillPath hresolve

/-- What is read is the regular file at the name in the path's directory. -/
theorem readFile_ok {r : SkillFileResponse}
    (h : readFile rt options idValue pathValue disk = .ok r) : ∃ id relPath l d contents,
      checkRead rt options idValue pathValue disk = .ok (id, relPath, l) ∧
      real disk l.parent = .ok d ∧ disk.node d = some .dir ∧
      disk.node (d ++ [l.name]) = some (.file (.regular contents)) ∧
      decodeContents options contents = .ok r.content := by
  unfold readFile at h
  split at h
  · cases h
  · rename_i id relPath l hcheck
    split at h
    · rename_i hexists
      obtain ⟨q, hq⟩ := existsSync_eq_true.mp hexists
      obtain ⟨d, hreal, hd⟩ := real_dir_of_append hq
      split at h
      · cases h
      · rename_i contents hfile
        split at h
        · cases h
        · rename_i text htext
          cases h
          exact ⟨id, relPath, l, d, contents, hcheck, hreal, hd,
            (regularFile_eq_ok hreal).mp hfile, htext⟩
    · cases h

/-- A readable file is read. -/
theorem exists_readFile {text : String}
    (hcheck : checkRead rt options idValue pathValue disk = .ok (id, relPath, l))
    (hreal : real disk l.parent = .ok d)
    (hnode : disk.node (d ++ [l.name]) = some (.file (.regular contents)))
    (htext : decodeContents options contents = .ok text) :
    ∃ r, readFile rt options idValue pathValue disk = .ok r := by
  have hd : disk.node d = some .dir :=
    Tree.node_append_singleton (by rw [hnode]; exact Option.some_ne_none _)
  have hexists : existsSync disk l.target = true :=
    existsSync_eq_true.mpr ⟨_, real_of_node hreal hd hnode nofun nofun⟩
  rw [readFile, hcheck]
  dsimp only
  rw [if_pos hexists, (regularFile_eq_ok hreal).mpr hnode]
  dsimp only
  rw [htext]
  exact ⟨_, rfl⟩

/-- A write that is refused before the directory is made. -/
theorem writeFile_refused (hcheck : checkWrite rt options idValue pathValue contentValue disk =
      .ok (id, relPath, contents, l)) {e : Errno} (hland : landing disk [] l.parent = .error e) :
    ∃ e, writeFile rt options faults uuid idValue pathValue contentValue expected disk =
      (.error e, disk) := by
  obtain ⟨e', hmkdir⟩ := (mkdirFrom_landing (real_nil disk) rfl).2 e hland
  rw [writeFile, hcheck]
  dsimp only
  rw [mkdirSync, hmkdir]
  exact ⟨_, rfl⟩

/-- A write in the directory `d`: the target, if the write is accepted, and the directories on
the way to it. -/
theorem writeFile_spec (hcheck : checkWrite rt options idValue pathValue contentValue disk =
      .ok (id, relPath, contents, l)) (hland : landing disk [] l.parent = .ok d) :
    ∃ made, Made disk d made ∧ real made l.parent = .ok d ∧
      (Accepts rt faults uuid expected disk l d → ∃ r disk',
        writeFile rt options faults uuid idValue pathValue contentValue expected disk =
          (.ok r, disk') ∧
        ∀ q, disk'.node q =
          if q = d ++ [l.name] then some (.file (.regular contents)) else made.node q) ∧
      (¬ Accepts rt faults uuid expected disk l d → ∃ e disk',
        writeFile rt options faults uuid idValue pathValue contentValue expected disk =
          (.error e, disk') ∧
        ∀ q, disk'.node q = made.node q) := by
  obtain ⟨made, hmkdir, hreal, hmade⟩ := (mkdirFrom_landing (real_nil disk) rfl).1 d hland
  obtain ⟨hok, herror⟩ := @replaceTarget_spec made l d rt faults uuid contents expected hreal
    hmade.dir
  rw [accepts_made hmade] at hok herror
  refine ⟨made, hmade, hreal, fun haccepts => ?_, fun hrefuses => ?_⟩
  · obtain ⟨hresult, hnodes⟩ := hok haccepts
    rw [writeFile, hcheck]
    dsimp only
    rw [mkdirSync, hmkdir]
    dsimp only
    rw [← Prod.mk.eta (p := replaceTarget rt faults uuid l contents expected made), hresult]
    exact ⟨_, _, rfl, hnodes⟩
  · obtain ⟨⟨e, hresult⟩, hnodes⟩ := herror hrefuses
    rw [writeFile, hcheck]
    dsimp only
    rw [mkdirSync, hmkdir]
    dsimp only
    rw [← Prod.mk.eta (p := replaceTarget rt faults uuid l contents expected made), hresult]
    exact ⟨_, _, rfl, hnodes⟩

end Requests

/-! ## What stays inside -/

section Inside

variable (rt : Runtime) (options : SkillServiceOptions) (faults : Faults) (uuid : String)
  (idValue pathValue contentValue expected : Option String) (disk : Disk)

/-- A text that is returned is that of a regular file inside the skill's directory, where
both are what the paths lead to. -/
def ReadsInside : Prop :=
  ∀ r, readFile rt options idValue pathValue disk = .ok r → ∃ id relPath l s q contents,
    checkRead rt options idValue pathValue disk = .ok (id, relPath, l) ∧
    real disk l.absolute = .ok s ∧ real disk l.target = .ok q ∧ s <+: q ∧ s ≠ q ∧
    disk.node q = some (.file (.regular contents)) ∧ decodeContents options contents = .ok r.content

/-- A write makes or replaces a regular file inside the skill's directory. Beside it, only
directories on the way to it are made. -/
def WritesInside : Prop :=
  ∀ r disk', writeFile rt options faults uuid idValue pathValue contentValue expected disk =
      (.ok r, disk') → ∃ id relPath contents l s q,
    checkWrite rt options idValue pathValue contentValue disk = .ok (id, relPath, contents, l) ∧
    real disk l.absolute = .ok s ∧ real disk' l.target = .ok q ∧ s <+: q ∧ s ≠ q ∧
    disk'.node q = some (.file (.regular contents)) ∧
    (disk.node q = none ∨ ∃ bytes, disk.node q = some (.file (.regular bytes))) ∧
    ∀ p, p ≠ q → disk'.node p = disk.node p ∨
      (disk.node p = none ∧ disk'.node p = some .dir ∧ s <+: p ∧ p <+: q)

/-- A write that throws leaves every entry as it was. -/
def ThrowsClean : Prop :=
  ∀ e disk', writeFile rt options faults uuid idValue pathValue contentValue expected disk =
    (.error e, disk') → ∀ p, disk'.node p = disk.node p

/-- The directory that a path leads to is inside the skill's, where a text would be read. -/
def ReadContained : Prop :=
  ∀ id relPath l s d contents text,
    checkRead rt options idValue pathValue disk = .ok (id, relPath, l) →
    real disk l.absolute = .ok s → real disk l.parent = .ok d →
    disk.node (d ++ [l.name]) = some (.file (.regular contents)) →
    decodeContents options contents = .ok text → s <+: d

/-- Where a write is accepted, the directory that the path leads to is inside the skill's, and
no link stands at the target. Where it is not, the directory is there already. -/
def WriteContained : Prop :=
  ∀ id relPath contents l s d,
    checkWrite rt options idValue pathValue contentValue disk = .ok (id, relPath, contents, l) →
    real disk l.absolute = .ok s → landing disk [] l.parent = .ok d →
    (Accepts rt faults uuid expected disk l d → s <+: d ∧
      (disk.node (d ++ [l.name]) = none ∨
        ∃ bytes, disk.node (d ++ [l.name]) = some (.file (.regular bytes)))) ∧
    (¬ Accepts rt faults uuid expected disk l d → disk.node d ≠ none)

end Inside

section Contained

variable {rt : Runtime} {options : SkillServiceOptions} {faults : Faults} {uuid : String}
  {idValue pathValue contentValue expected : Option String} {disk : Disk}

theorem concat_inside {s d : List String} {c : String} :
    s <+: d ↔ s <+: d ++ [c] ∧ s ≠ d ++ [c] := by
  have h := prefix_dropLast (p := d ++ [c]) (q := s) (by simp)
  rwa [List.dropLast_concat] at h

theorem readsInside_iff : ReadsInside rt options idValue pathValue disk ↔
    ReadContained rt options idValue pathValue disk := by
  constructor
  · intro h id relPath l s d contents text hcheck hs hreal hnode htext
    obtain ⟨r, hr⟩ := exists_readFile hcheck hreal hnode htext
    obtain ⟨_, _, l', s', q, _, hcheck', hs', hq, hinside, hne, -, -⟩ := h r hr
    cases hcheck.symm.trans hcheck'
    have hd : disk.node d = some .dir :=
      Tree.node_append_singleton (by rw [hnode]; exact Option.some_ne_none _)
    cases hs.symm.trans hs'
    cases hq.symm.trans (real_of_node hreal hd hnode nofun nofun)
    exact concat_inside.mpr ⟨hinside, hne⟩
  · intro h r hr
    obtain ⟨id, relPath, l, d, contents, hcheck, hreal, hd, hnode, htext⟩ := readFile_ok hr
    obtain ⟨s, hs⟩ := exists_of_checkRead hcheck
    obtain ⟨hinside, hne⟩ :=
      concat_inside.mp (h id relPath l s d contents r.content hcheck hs hreal hnode htext)
    exact ⟨id, relPath, l, s, _, contents, hcheck, hs, real_of_node hreal hd hnode nofun nofun,
      hinside, hne, hnode, htext⟩

/-- The target after a write: a new file, or other contents. -/
theorem real_written {disk' made : Disk} {l : Located} {d : List String} {contents : Bytes}
    (hreal : real made l.parent = .ok d) (hdir : made.node d = some .dir)
    (hfree : made.node (d ++ [l.name]) = none ∨
      ∃ bytes, made.node (d ++ [l.name]) = some (.file (.regular bytes)))
    (hnodes : ∀ q, disk'.node q =
      if q = d ++ [l.name] then some (.file (.regular contents)) else made.node q) :
    real disk' l.target = .ok (d ++ [l.name]) := by
  have hreal' : real disk' l.parent = .ok d := by
    refine walk_mono (fun q n hn => ?_) hreal
    rw [hnodes]
    by_cases hq : q = d ++ [l.name]
    · rw [if_pos hq]
      rw [hq] at hn
      rcases hfree with hnone | ⟨bytes, hbytes⟩
      · cases hnone.symm.trans hn
      · cases hbytes.symm.trans hn
        exact .inr ⟨_, _, rfl, rfl, rfl, rfl⟩
    · rw [if_neg hq]
      exact .inl hn
  have hdir' : disk'.node d = some .dir := by
    rw [hnodes, if_neg (by simp), hdir]
  exact real_of_node hreal' hdir' ((hnodes _).trans (if_pos rfl)) nofun nofun

/-- An accepted write replaces nothing, a file, or a link that leads nowhere. -/
theorem found_cases {l : Located} {d : List String} {current : Bytes}
    (h : found disk l d = some current) :
    (disk.node (d ++ [l.name]) = none ∨
      ∃ bytes, disk.node (d ++ [l.name]) = some (.file (.regular bytes))) ∨
    disk.node (d ++ [l.name]) = some .symlink ∨
      ∃ dest, disk.node (d ++ [l.name]) = some (.file (.link dest)) := by
  unfold found at h
  rcases hn : disk.node (d ++ [l.name]) with _ | (bytes | dest | _) | _ | _
  · exact .inl (.inl rfl)
  · exact .inl (.inr ⟨bytes, rfl⟩)
  · exact .inr (.inr ⟨dest, rfl⟩)
  · rw [hn] at h
    cases h
  · rw [hn] at h
    cases h
  · exact .inr (.inl rfl)

/-- Below an entry that was there nothing else can be made on the way. -/
theorem made_inside {made : Disk} {s d p : List String} (hmade : Made disk d made)
    (hs : disk.node s ≠ none) (hsd : s <+: d) :
    made.node p = disk.node p ∨
      (disk.node p = none ∧ made.node p = some .dir ∧ s <+: p ∧ p <+: d) := by
  rw [hmade.fills]
  by_cases hp : p <+: d
  · rw [if_pos hp]
    cases hn : disk.node p with
    | some n => exact .inl rfl
    | none =>
        refine .inr ⟨rfl, rfl, ?_, hp⟩
        rcases List.prefix_or_prefix_of_prefix hsd hp with hsp | hps
        · exact hsp
        · by_cases heq : p = s
          · rw [heq]
          · cases hn.symm.trans (Tree.node_of_above hs hps heq)
  · rw [if_neg hp, Option.or_none]
    exact .inl rfl

theorem writeContained_of_inside
    (hwrites : WritesInside rt options faults uuid idValue pathValue contentValue expected disk)
    (hthrows : ThrowsClean rt options faults uuid idValue pathValue contentValue expected disk) :
    WriteContained rt options faults uuid idValue pathValue contentValue expected disk := by
  intro id relPath contents l s d hcheck hs hland
  obtain ⟨made, hmade, hreal, hok, herror⟩ := @writeFile_spec rt options disk l faults uuid id
    relPath contents idValue pathValue contentValue expected d hcheck hland
  constructor
  · intro haccepts
    obtain ⟨r, disk', hrun, hnodes⟩ := hok haccepts
    obtain ⟨_, _, _, l', s', q, hcheck', hs', hq, hinside, hne, -, hbefore, hothers⟩ :=
      hwrites r disk' hrun
    cases hcheck.symm.trans hcheck'
    cases hs.symm.trans hs'
    have hwritten : disk'.node (d ++ [l.name]) = some (.file (.regular contents)) :=
      (hnodes _).trans (if_pos rfl)
    obtain ⟨⟨current, hfound, -⟩, -⟩ := haccepts
    have hfree : disk.node (d ++ [l.name]) = none ∨
        ∃ bytes, disk.node (d ++ [l.name]) = some (.file (.regular bytes)) := by
      rcases found_cases hfound with hfree | hlink
      · exact hfree
      · -- a link that is replaced is neither the target before nor another entry
        exfalso
        by_cases heq : d ++ [l.name] = q
        · rw [← heq] at hbefore
          rcases hlink with hn | ⟨dest, hn⟩
          · rw [hn] at hbefore
            rcases hbefore with h | ⟨_, h⟩ <;> cases h
          · rw [hn] at hbefore
            rcases hbefore with h | ⟨_, h⟩ <;> cases h
        · have hother := hothers _ heq
          rw [hwritten] at hother
          rcases hlink with hn | ⟨dest, hn⟩
          · rw [hn] at hother
            rcases hother with h | ⟨h, -⟩ <;> cases h
          · rw [hn] at hother
            rcases hother with h | ⟨h, -⟩ <;> cases h
    refine ⟨?_, hfree⟩
    have hfree' : made.node (d ++ [l.name]) = none ∨
        ∃ bytes, made.node (d ++ [l.name]) = some (.file (.regular bytes)) := by
      have hsame : made.node (d ++ [l.name]) = disk.node (d ++ [l.name]) := by
        rw [hmade.fills, if_neg (not_prefix_of_concat d l.name), Option.or_none]
      rwa [hsame]
    cases hq.symm.trans (real_written hreal hmade.dir hfree' hnodes)
    exact concat_inside.mpr ⟨hinside, hne⟩
  · intro hrefuses
    obtain ⟨e, disk', hrun, hnodes⟩ := herror hrefuses
    rw [← hthrows e disk' hrun d, hnodes, hmade.dir]
    exact Option.some_ne_none _

theorem inside_of_writeContained
    (h : WriteContained rt options faults uuid idValue pathValue contentValue expected disk) :
    WritesInside rt options faults uuid idValue pathValue contentValue expected disk ∧
      ThrowsClean rt options faults uuid idValue pathValue contentValue expected disk := by
  cases hcheck : checkWrite rt options idValue pathValue contentValue disk with
  | error e =>
      have hrun : writeFile rt options faults uuid idValue pathValue contentValue expected disk =
          (.error e, disk) := by
        rw [writeFile, hcheck]
      refine ⟨fun r disk' hr => ?_, fun e' disk' hr p => ?_⟩
      · cases hrun.symm.trans hr
      · cases hrun.symm.trans hr
        rfl
  | ok request =>
      obtain ⟨id, relPath, contents, l⟩ := request
      obtain ⟨s, hs⟩ := exists_of_checkWrite hcheck
      cases hland : landing disk [] l.parent with
      | error e =>
          obtain ⟨e', hrun⟩ := @writeFile_refused rt options disk l faults uuid id relPath contents
            idValue pathValue contentValue expected hcheck e hland
          refine ⟨fun r disk' hr => ?_, fun e'' disk' hr p => ?_⟩
          · cases hrun.symm.trans hr
          · cases hrun.symm.trans hr
            rfl
      | ok d =>
          obtain ⟨made, hmade, hreal, hok, herror⟩ := @writeFile_spec rt options disk l faults uuid
            id relPath contents idValue pathValue contentValue expected d hcheck hland
          obtain ⟨hcontained, hthere⟩ := h id relPath contents l s d hcheck hs hland
          by_cases haccepts : Accepts rt faults uuid expected disk l d
          · obtain ⟨r, disk', hrun, hnodes⟩ := hok haccepts
            obtain ⟨hsd, hfree⟩ := hcontained haccepts
            obtain ⟨hinside, hne⟩ := concat_inside.mp hsd
            have hsame : made.node (d ++ [l.name]) = disk.node (d ++ [l.name]) := by
              rw [hmade.fills, if_neg (not_prefix_of_concat d l.name), Option.or_none]
            refine ⟨fun r' disk'' hr => ?_, fun e disk'' hr => ?_⟩
            · cases hrun.symm.trans hr
              refine ⟨id, relPath, contents, l, s, _, hcheck, hs,
                real_written hreal hmade.dir (by rwa [hsame]) hnodes, hinside, hne,
                (hnodes _).trans (if_pos rfl), hfree, fun p hp => ?_⟩
              rw [hnodes, if_neg hp]
              rcases made_inside hmade (node_of_real hs) hsd with h | ⟨h₁, h₂, h₃, h₄⟩
              · exact .inl h
              · exact .inr ⟨h₁, h₂, h₃, h₄.trans (List.prefix_append _ _)⟩
            · cases hrun.symm.trans hr
          · obtain ⟨e, disk', hrun, hnodes⟩ := herror haccepts
            refine ⟨fun r disk'' hr => ?_, fun e' disk'' hr p => ?_⟩
            · cases hrun.symm.trans hr
            · cases hrun.symm.trans hr
              rw [hnodes, hmade.node_eq (hthere haccepts)]

end Contained

/-! ## A link to another directory -/

section Links

def runtime : Runtime where
  toLowerCase := fun s => s.map Char.toLower
  localeCompare := compare
  sha256 := fun bytes => String.ofList (bytes.map fun b => Char.ofNat b.toNat)
  parseYaml := fun _ => none

def skills : SkillServiceOptions := ⟨["skills"], 2097152⟩

def put (disk : Disk) (p : List String) (n : Node Entry) : Disk :=
  (disk.put p n).toOption.getD disk

/-- The skill `notes` has a link `out` to the directory `vault` beside the skills. -/
def vaultDisk : Disk :=
  put (put (put (put (put .empty ["skills"] .dir) ["skills", "notes"] .dir) ["vault"] .dir)
    ["vault", "key.md"] (.file (.regular [107, 101, 121])))
    ["skills", "notes", "out"] (.file (.link ⟨false, [.up, .up, .name "vault"]⟩))

def outKey : Located := ⟨["skills", "notes"], ["skills", "notes", "out"], "key.md"⟩

def noFaults : Faults := ⟨none, none, none⟩

/-- A write through the link. -/
def escape : Except WorkspaceError SkillWriteResponse × Disk :=
  writeFile runtime skills noFaults "1" (some "notes") (some "out/key.md") (some "lost")
    (some "sha256:key") vaultDisk

/-- A write into a new directory, with a revision of another file. -/
def stale : Except WorkspaceError SkillWriteResponse × Disk :=
  writeFile runtime skills noFaults "1" (some "notes") (some "new/a.md") (some "text")
    (some "sha256:key") vaultDisk

end Links

end Openlia.SkillService

import Openlia.Operator.Migration.IntakeConfined

/-! # A migration is initialized again

`InitMigrationV2` extracts the archive only when there is no source directory. The other
calls of an attempt leave the source directory alone and may fail; an attempt may also stop
behind any write.
-/

namespace Openlia.Intake

open Lib Crash
open Skills (FileName Path Bytes Leaf Dir filepathClean pathOf)
open Backup (Disk DiskAction linkTarget maxLinks realPath putAt mkdirAll createAt)

/-- The file system, and whether the migration has its record. -/
structure MigrationDir where
  disk : Disk
  created : Bool

abbrev MigrationAction := Prog MigrationDir String

/-- The errors of the calls of one attempt. -/
structure InitFaults where
  OpenDB : Option String
  OpenOrCreateRepo : Option String
  AcquireWorkspaceLock : Option String
  CaptureBaseline : Option String
  ScanSourceFolder : Option String
  CreateMigration : Option String
  InsertSources : Option String
  EnqueueJobs : Option String

def onDisk {α : Type} (text : String) (p : DiskAction α) : MigrationAction Unit := do
  match ← Prog.attempt (Prog.focus (fun s : MigrationDir => s.disk)
    (fun disk s => { s with disk }) p) with
  | .error e => Prog.fail (text ++ e)
  | .ok _ => pure ()

/-- A call that fails or is of no concern to the source directory. -/
def call (text : String) (fault : Option String) : MigrationAction Unit :=
  Prog.refuse (fault.map (text ++ ·))

def sourceDir (migDir : Path) : Path := migDir ++ [source]

/-- `INSERT INTO migrations`, whose key may be there. -/
def createMigration (fault : Option String) : MigrationAction Unit := do
  call "create migration record: " fault
  let s ← Prog.get
  if s.created then
    Prog.fail "create migration record: UNIQUE constraint failed: migrations.id"
  else Prog.write fun s => { s with created := true }

def recordMigration (faults : InitFaults) : MigrationAction Unit := do
  call "open migration db: " faults.OpenDB
  call "init proposal repo: " faults.OpenOrCreateRepo
  call "acquire workspace lock for baseline: " faults.AcquireWorkspaceLock
  call "capture baseline: " faults.CaptureBaseline
  call "scan source files: " faults.ScanSourceFolder
  createMigration faults.CreateMigration
  call "insert sources: " faults.InsertSources
  call "enqueue jobs: " faults.EnqueueJobs

def extractSource (archive : TarStream) (migDir : Path) : MigrationAction Unit := do
  onDisk "create source dir: " (mkdirAll migDir [source] 1)
  onDisk "extract source archive: " (extractTarball archive (sourceDir migDir))

def initMigrationV2 (archive : TarStream) (migDir : Path) (faults : InitFaults) :
    MigrationAction Unit := do
  let s ← Prog.get
  match realPath s.disk.tree migDir [source] with
  | .error .notExist => do
      extractSource archive migDir
      recordMigration faults
  | _ => recordMigration faults

/-- One attempt, and the write it stops behind: by a crash, or by a step that fails. -/
structure Attempt where
  faults : InitFaults
  halt : Option Nat

def attempts (archive : TarStream) (migDir : Path) (s : MigrationDir) (as : List Attempt) :
    Option MigrationDir :=
  as.foldlM (fun s a => (initMigrationV2 archive migDir a.faults).halt s a.halt) s

section Retry

variable {destination p migDir : Path} {d₁ d : Disk} {t t' : Dir} {entry : TarEntry}
  {done : List TarEntry} {archive : TarStream} {s s' : MigrationDir}

/-! ## A complete source tree -/

/-- The directories and the files of the entries, with their full contents, and no more. -/
structure Complete (entries : List TarEntry) (destination : Path) (t : Dir) : Prop where
  root : t.node destination = some .dir
  dirs : ∀ e ∈ entries, e.Typeflag = .dir →
    ∃ p, entryPath e = some p ∧ t.node (destination ++ p) = some .dir
  files : ∀ before e after, entries = before ++ e :: after → e.Typeflag = .reg →
    ∃ p, entryPath e = some p ∧
      -- a later entry of the same name takes its place
      ((∀ e' ∈ after, e'.Typeflag = .reg → entryPath e' ≠ some p) →
        t.node (destination ++ p) = some (.file (.regular e.chunks.flatten)))
  only : ∀ q, t.node (destination ++ q) ≠ none → q = [] ∨
    ∃ e ∈ entries, (e.Typeflag = .dir ∨ e.Typeflag = .reg) ∧
      ∃ p, entryPath e = some p ∧ q <+: p

theorem complete_nil (hroot : t.node destination = some .dir)
    (hempty : ∀ q, q ≠ [] → t.node (destination ++ q) = none) : Complete [] destination t := by
  refine ⟨hroot, by simp, fun before e after h => ?_, fun q hq => Or.inl ?_⟩
  · simp at h
  · by_contra hne
    exact hq (hempty q hne)

/-- An entry that is extracted joins the entries before it. -/
theorem Complete.concat (h : Complete done destination d₁.tree)
    (hchanged : Changed destination entry d₁ d) (hnew : Extracted destination entry d₁ d) :
    Complete (done ++ [entry]) destination d.tree := by
  refine ⟨(hchanged.inside ⟨h.root, fun _ h => Or.inl h⟩).dir, fun e he hdir => ?_,
    fun before e after hsplit hreg => ?_, fun q hq => ?_⟩
  · rcases List.mem_append.mp he with he | he
    · obtain ⟨p, hp, hnode⟩ := h.dirs e he hdir
      refine ⟨p, hp, ?_⟩
      rcases hchanged.node (destination ++ p) with hsame | ⟨-, hmade, -⟩ | ⟨hreg, p', hp', hself⟩
      · rw [hsame, hnode]
      · exact hmade
      · obtain ⟨p'', hp'', -, hopened⟩ := hnew.reg hreg
        cases hp'.symm.trans hp''
        rw [hself] at hnode
        exact absurd hnode hopened.fresh
    · rw [List.mem_singleton.mp he] at hdir ⊢
      exact hnew.dir hdir
  · rcases List.eq_nil_or_concat after with rfl | ⟨after, last, rfl⟩
    · obtain ⟨-, hlast⟩ := List.append_inj' hsplit rfl
      cases hlast
      obtain ⟨p, hp, -, hopened⟩ := hnew.reg hreg
      exact ⟨p, hp, fun _ => hopened.node⟩
    · have hassoc : done ++ [entry] = (before ++ e :: after) ++ [last] := by
        rw [hsplit, List.concat_eq_append, List.append_assoc, List.cons_append]
      obtain ⟨hdone, hlast⟩ := List.append_inj' hassoc rfl
      cases hlast
      obtain ⟨p, hp, hnode⟩ := h.files before e after hdone hreg
      refine ⟨p, hp, fun hlater => ?_⟩
      rw [List.concat_eq_append] at hlater
      have hold := hnode fun e' he' => hlater e' (List.mem_append_left _ he')
      rcases hchanged.node (destination ++ p) with hsame | ⟨hnone, -⟩ | ⟨hreg', p', hp', hself⟩
      · rw [hsame, hold]
      · rw [hold] at hnone
        cases hnone
      · refine absurd hp' ?_
        rw [← List.append_cancel_left hself]
        exact hlater entry (List.mem_append_right _ (List.mem_singleton_self _)) hreg'
  · rcases hchanged.node (destination ++ q) with hsame | ⟨-, -, htype, p, r, hp, hr, hself⟩ |
      ⟨hreg, p, hp, hself⟩
    · rw [hsame] at hq
      rcases h.only q hq with hroot | ⟨e, he, hrest⟩
      · exact Or.inl hroot
      · exact Or.inr ⟨e, List.mem_append_left _ he, hrest⟩
    · refine Or.inr ⟨entry, by simp, htype, p, hp, ?_⟩
      rwa [List.append_cancel_left hself]
    · refine Or.inr ⟨entry, by simp, Or.inr hreg, p, hp, ?_⟩
      rw [List.append_cancel_left hself]

theorem extractEntries_complete {ending : Option String} {entries : List TarEntry}
    {fileCount total : Nat} (h : Complete done destination d.tree)
    (hok : ((extractEntries destination ending fileCount total entries).run d).result = .ok ()) :
    Complete (done ++ entries) destination
      ((extractEntries destination ending fileCount total entries).run d).final.tree := by
  induction entries generalizing fileCount total d done with
  | nil =>
      have hfinal : ((extractEntries destination ending fileCount total []).run d).final = d := by
        rw [extractEntries]
        cases ending <;> rfl
      rw [hfinal, List.append_nil]
      exact h
  | cons entry rest ih =>
      obtain ⟨n, hentry, hrest, hfinal, -⟩ := Prog.run_bind_eq_ok hok
      obtain ⟨-, hchanged, hdone⟩ := @extractEntry_spec _ _ entry h.root fileCount total d rfl
      have hnext := ih (h.concat hchanged (hdone n hentry).2) hrest
      rw [extractEntries, hfinal]
      rwa [List.append_assoc, List.singleton_append] at hnext

/-- A success leaves the whole of the archive. -/
theorem extractTarball_complete (h : Complete [] destination d.tree)
    (hok : ((extractTarball archive destination).run d).result = .ok ()) :
    Complete archive.entries destination
      ((extractTarball archive destination).run d).final.tree := by
  obtain ⟨_, hread, hentries, hfinal, -⟩ := Prog.run_bind_eq_ok hok
  have hsame : ((Prog.refuse archive.unreadable : DiskAction Unit).run d).final = d := by
    cases archive.unreadable <;> rfl
  rw [hsame] at hentries hfinal
  rw [extractTarball, hfinal]
  exact extractEntries_complete h hentries

/-! ## The last write of an extraction -/

theorem putAt_traced (q : Path) (n : Node Leaf) : Traced (putAt q n) := by
  refine Traced.bind Traced.get fun d => ?_
  split
  · exact Traced.fail _
  · exact Traced.write _

theorem createAt_traced (destination p : Path) (n : Node Leaf) :
    Traced (createAt destination p n) := by
  refine Traced.bind Traced.get fun d => ?_
  split
  · exact Traced.fail _
  · exact Traced.fail _
  · split
    · exact Traced.fail _
    · exact Traced.bind (putAt_traced _ _) fun _ => Traced.pure _

theorem mkdirAll_traced (destination p : Path) (k : Nat) : Traced (mkdirAll destination p k) := by
  induction k with
  | zero => exact Traced.pure ()
  | succ k ih =>
      refine Traced.bind Traced.get fun d => ?_
      split
      · split
        · exact Traced.pure _
        · exact Traced.fail _
      · exact Traced.bind ih fun _ => Traced.bind (createAt_traced _ _ _) fun _ => Traced.pure _

theorem openTruncated_traced (destination p : Path) : Traced (openTruncated destination p) := by
  refine Traced.bind Traced.get fun d => ?_
  split
  · exact Traced.fail _
  · exact Traced.bind (putAt_traced _ _) fun _ => Traced.pure _

theorem copy_traced (q : Path) (written : Bytes) (chunks : List Bytes) :
    Traced (copy q written chunks) := by
  induction chunks generalizing written with
  | nil => exact Traced.pure _
  | cons chunk rest ih => exact Traced.bind (putAt_traced _ _) fun _ => ih _

theorem removeAt_traced (destination p : Path) : Traced (removeAt destination p) := by
  refine Traced.bind Traced.get fun d => ?_
  split
  · split
    · exact Traced.write _
    · exact Traced.fail _
  · exact Traced.fail _
  · exact Traced.fail _

theorem extractRegular_traced (destination p : Path) (total : Nat) (entry : TarEntry) :
    Traced (extractRegular destination p total entry) := by
  have hremove : ∀ e : String, Traced (do
      Prog.ignore (removeAt destination p)
      Prog.fail e : DiskAction Nat) :=
    fun e => Traced.bind (Traced.ignore (removeAt_traced _ _)) fun _ => Traced.fail e
  refine Traced.ite (Traced.fail _) (Traced.bind (mkdirAll_traced _ _ _) fun _ => ?_)
  refine Traced.bind (openTruncated_traced _ _) fun q => ?_
  refine Traced.bind (copy_traced _ _ _) fun contents => Traced.ite (hremove _) ?_
  exact Traced.bind (Traced.refuse _) fun _ => Traced.ite (hremove _) (Traced.pure _)

theorem extractEntry_traced (destination : Path) (fileCount total : Nat) (entry : TarEntry) :
    Traced (extractEntry destination fileCount total entry) := by
  refine Traced.ite (Traced.fail _) (Traced.ite (Traced.fail _) ?_)
  refine Traced.bind Traced.get fun d => ?_
  split
  · exact Traced.fail _
  · exact Traced.fail _
  · split
    · exact Traced.bind (mkdirAll_traced _ _ _) fun _ => Traced.pure _
    · exact extractRegular_traced _ _ _ _
    · exact Traced.pure _

theorem extractEntries_traced (destination : Path) (ending : Option String) (fileCount total : Nat)
    (entries : List TarEntry) :
    Traced (extractEntries destination ending fileCount total entries) := by
  induction entries generalizing fileCount total with
  | nil => exact Traced.refuse _
  | cons entry rest ih => exact Traced.bind (extractEntry_traced _ _ _ _) fun _ => ih _ _

theorem extractTarball_traced (archive : TarStream) (destination : Path) :
    Traced (extractTarball archive destination) :=
  Traced.bind (Traced.refuse _) fun _ => extractEntries_traced _ _ _ _ _

theorem onDisk_traced {α : Type} {text : String} {prog : DiskAction α} (h : Traced prog) :
    Traced (onDisk text prog) := by
  refine Traced.bind (Traced.attempt (Traced.focus h fun _ => rfl)) fun r => ?_
  split
  · exact Traced.fail _
  · exact Traced.pure _

theorem extractSource_traced (archive : TarStream) (migDir : Path) :
    Traced (extractSource archive migDir) :=
  Traced.bind (onDisk_traced (mkdirAll_traced _ _ _)) fun _ =>
    onDisk_traced (extractTarball_traced _ _)

/-! ## One attempt -/

theorem onDisk_eq_ok {α : Type} {text : String} {prog : DiskAction α}
    (h : ((onDisk text prog).run s).result = .ok ()) :
    (∃ a, (prog.run s.disk).result = .ok a) ∧
      ((onDisk text prog).run s).final.disk = (prog.run s.disk).final := by
  unfold onDisk at h ⊢
  rw [Prog.run_attempt_bind] at h ⊢
  change ((match (prog.run s.disk).result with
    | .error e => Prog.fail (text ++ e)
    | .ok _ => pure () : MigrationAction Unit).run _).result = _ at h
  cases hr : (prog.run s.disk).result with
  | error e =>
      rw [hr] at h
      cases h
  | ok a =>
      refine ⟨⟨a, rfl⟩, ?_⟩
      change ((match (prog.run s.disk).result with
        | .error e => Prog.fail (text ++ e)
        | .ok _ => pure () : MigrationAction Unit).run _).final.disk = _
      rw [hr]
      rfl

/-- The source directory is not there, or it holds the whole archive. -/
structure Sourced (archive : TarStream) (migDir : Path) (t : Dir) : Prop where
  root : t.node migDir = some .dir
  source : t.node (sourceDir migDir) = none ∨ Complete archive.entries (sourceDir migDir) t

theorem recordMigration_disk (faults : InitFaults) (d : Disk) :
    Preserves (fun s : MigrationDir => s.disk = d) (recordMigration faults) := by
  have hcall : ∀ text fault, Preserves (fun s : MigrationDir => s.disk = d) (call text fault) :=
    fun _ _ => Preserves.refuse
  have hcreate : ∀ fault,
      Preserves (fun s : MigrationDir => s.disk = d) (createMigration fault) := by
    refine fun fault => Preserves.bind (hcall _ _) fun _ => Preserves.get_bind fun s hs => ?_
    split
    · exact Spec.fail fun _ h => h ▸ hs
    · exact Spec.write (fun _ h => h ▸ hs) fun _ h => h ▸ hs
  refine Preserves.bind (hcall _ _) fun _ => Preserves.bind (hcall _ _) fun _ => ?_
  refine Preserves.bind (hcall _ _) fun _ => Preserves.bind (hcall _ _) fun _ => ?_
  refine Preserves.bind (hcall _ _) fun _ => Preserves.bind (hcreate _) fun _ => ?_
  exact Preserves.bind (hcall _ _) fun _ => hcall _ _

/-- A source directory that was not there is extracted whole, if the extraction succeeds. -/
theorem extractSource_complete (hroot : s.disk.tree.node migDir = some .dir)
    (hnone : s.disk.tree.node (sourceDir migDir) = none)
    (hok : ((extractSource archive migDir).run s).result = .ok ()) :
    ((extractSource archive migDir).run s).final.disk.tree.node migDir = some .dir ∧
      Complete archive.entries (sourceDir migDir)
        ((extractSource archive migDir).run s).final.disk.tree := by
  obtain ⟨_, hmake, hextract, hfinal, -⟩ := Prog.run_bind_eq_ok hok
  obtain ⟨⟨_, hmade⟩, hdisk⟩ := onDisk_eq_ok hmake
  obtain ⟨⟨_, hextracted⟩, hdisk'⟩ := onDisk_eq_ok hextract
  rw [hdisk] at hextracted hdisk'
  have hclear : Clear s.disk.tree migDir [source] := by
    intro q hq data hnode
    rcases q with _ | ⟨c, q⟩
    · rw [List.append_nil, hroot] at hnode
      cases hnode
    · obtain ⟨rfl, hnil⟩ := List.cons_prefix_cons.mp hq
      rw [List.prefix_nil.mp hnil] at hnode
      rw [sourceDir, hnode] at hnone
      cases hnone
  have hgrown := (mkdirAll_grown hclear (List.prefix_refl _) 1 s.disk
    (Grown.refl migDir [source] s.disk)).2
  have hempty : Complete [] (sourceDir migDir)
      ((mkdirAll migDir [source] 1).run s.disk).final.tree := by
    refine complete_nil (hgrown.2 hmade Nat.one_pos) fun q hq => ?_
    rcases hgrown.1.node (sourceDir migDir ++ q) with hsame | ⟨-, -, r, hr, hself⟩
    · rw [hsame]
      refine Tree.node_below_eq_none (by rw [hnone]; simp) (List.prefix_append _ _) ?_
      simpa using hq
    · rw [sourceDir, List.append_assoc] at hself
      have hle := hr.length_le
      rw [← List.append_cancel_left hself, List.length_append] at hle
      have hpos := List.length_pos_iff.mpr hq
      simp only [List.length_singleton] at hle
      omega
  have hcomplete := extractTarball_complete hempty hextracted
  have hall : ((extractSource archive migDir).run s).final.disk =
      ((extractTarball archive (sourceDir migDir)).run
        ((mkdirAll migDir [source] 1).run s.disk).final).final := by
    rw [extractSource, hfinal, hdisk']
  rw [hall]
  refine ⟨Tree.node_of_above (q := sourceDir migDir) ?_ (List.prefix_append _ _) ?_, hcomplete⟩
  · rw [hcomplete.root]
    simp
  · simp [sourceDir]

theorem realPath_source {t : Dir} (h : Sourced archive migDir t) :
    realPath t migDir [source] = .error .notExist ↔ t.node (sourceDir migDir) = none := by
  have hwalk : ∀ n, t.node (migDir ++ [source]) = n → realPath t migDir [source] =
      match n with
      | none => .error .notExist
      | some .dir => .ok (migDir ++ [source])
      | some .symlink => .error .link
      | some (.file data) => realPath t migDir [source] := by
    intro n hn
    match n with
    | none => simp [realPath, maxLinks, Tree.walk, Tree.walkSteps, hn]
    | some .dir => simp [realPath, maxLinks, Tree.walk, Tree.walkSteps, hn]
    | some .symlink => simp [realPath, maxLinks, Tree.walk, Tree.walkSteps, hn]
    | some (.file data) => rfl
  rcases h.source with hnone | hcomplete
  · exact ⟨fun _ => hnone, fun _ => hwalk _ hnone⟩
  · refine ⟨fun herr => ?_, fun hnone => hwalk _ hnone⟩
    rw [hwalk _ hcomplete.root] at herr
    cases herr

/-- An attempt that makes the source directory and does not come to the end of its extraction. -/
def Interrupted (archive : TarStream) (migDir : Path) (s : MigrationDir) (a : Attempt) : Prop :=
  realPath s.disk.tree migDir [source] = .error .notExist ∧ a.halt ≠ some 0 ∧
    (((extractSource archive migDir).run s).result ≠ .ok () ∨
      (a.halt.any fun n => n < ((extractSource archive migDir).run s).trail.length) = true)

theorem initMigrationV2_extracts (h : Sourced archive migDir s.disk.tree) (faults : InitFaults)
    (hnone : s.disk.tree.node (sourceDir migDir) = none) :
    (initMigrationV2 archive migDir faults).run s =
      (extractSource archive migDir >>= fun _ => recordMigration faults).run s := by
  unfold initMigrationV2
  rw [Prog.run_get_bind, (realPath_source h).mpr hnone]

theorem initMigrationV2_records (h : Sourced archive migDir s.disk.tree) (faults : InitFaults)
    (hsome : s.disk.tree.node (sourceDir migDir) ≠ none) :
    (initMigrationV2 archive migDir faults).run s = (recordMigration faults).run s := by
  unfold initMigrationV2
  rw [Prog.run_get_bind]
  split
  · rename_i hpath
    exact absurd ((realPath_source h).mp hpath) hsome
  · rfl

theorem attempt_sourced (h : Sourced archive migDir s.disk.tree) {a : Attempt}
    (hwhole : ¬ Interrupted archive migDir s a)
    (hstep : (initMigrationV2 archive migDir a.faults).halt s a.halt = some s') :
    Sourced archive migDir s'.disk.tree := by
  -- the record leaves the source directory as it is
  have hrecord : ∀ x n, (recordMigration a.faults).halt x n = some s' → s'.disk = x.disk :=
    fun x n hn => Spec.halt ((recordMigration_disk a.faults x.disk).conseq (fun _ h => h ▸ rfl)
      (fun _ h => h) fun _ _ h => h) rfl (fun _ _ h => h) hn
  by_cases hnone : s.disk.tree.node (sourceDir migDir) = none
  · have hstep : (extractSource archive migDir >>= fun _ => recordMigration a.faults).halt s
        a.halt = some s' := by
      unfold Prog.halt at hstep ⊢
      rwa [initMigrationV2_extracts h a.faults hnone] at hstep
    by_cases hzero : a.halt = some 0
    · rw [hzero] at hstep
      cases hstep
      exact h
    have hends : ¬ (((extractSource archive migDir).run s).result ≠ .ok () ∨
        (a.halt.any fun n => n < ((extractSource archive migDir).run s).trail.length) = true) :=
      fun hbad => hwhole ⟨(realPath_source h).mpr hnone, hzero, hbad⟩
    rw [not_or, not_not] at hends
    obtain ⟨hok, hhalt⟩ := hends
    obtain ⟨hroot, hcomplete⟩ := extractSource_complete h.root hnone hok
    have hdisk : s'.disk = ((extractSource archive migDir).run s).final.disk := by
      cases hn : a.halt with
      | none =>
          rw [hn] at hstep
          refine hrecord _ none ?_
          rw [Prog.halt, Prog.run_bind_ok hok] at hstep
          exact hstep
      | some n =>
          rw [hn] at hstep hhalt
          have hle : ((extractSource archive migDir).run s).trail.length ≤ n := by
            simpa using hhalt
          rw [Traced.halt_bind (extractSource_traced archive migDir) hok hle] at hstep
          exact hrecord _ _ hstep
    rw [hdisk]
    exact ⟨hroot, Or.inr hcomplete⟩
  · have hsame : (recordMigration a.faults).halt s a.halt = some s' := by
      unfold Prog.halt at hstep ⊢
      rwa [initMigrationV2_records h a.faults hnone] at hstep
    rw [hrecord s a.halt hsame]
    exact h

theorem attempts_sourced {as : List Attempt} (h : Sourced archive migDir s.disk.tree)
    (hwhole : ∀ before a after x, as = before ++ a :: after →
      attempts archive migDir s before = some x → ¬ Interrupted archive migDir x a)
    (hrun : attempts archive migDir s as = some s') : Sourced archive migDir s'.disk.tree := by
  induction as generalizing s with
  | nil =>
      cases hrun
      exact h
  | cons a as ih =>
      rw [attempts, List.foldlM_cons, Option.bind_eq_bind, Option.bind_eq_some_iff] at hrun
      obtain ⟨x, hx, hrest⟩ := hrun
      have hnext := attempt_sourced h (hwhole [] a as s rfl rfl) hx
      refine ih hnext (fun before b after y hsplit hy => ?_) hrest
      refine hwhole (a :: before) b after y (by rw [hsplit]; rfl) ?_
      rw [attempts, List.foldlM_cons, Option.bind_eq_bind, Option.bind_eq_some_iff]
      exact ⟨x, hx, hy⟩

end Retry

def migration : FileName := ⟨"migration", by decide⟩

/-- A migration directory without a source directory. -/
def uploaded : MigrationDir :=
  ⟨⟨(Tree.empty.put [migration] .dir).toOption.getD Tree.empty, []⟩, false⟩

def noFaults : InitFaults := ⟨none, none, none, none, none, none, none, none⟩

/-- One attempt stops before it makes the source directory, the next one when the archive is
extracted. -/
def lateAttempts : List Attempt := [⟨noFaults, some 0⟩, ⟨noFaults, some 5⟩]

theorem lateAttempts_whole : ∀ before a after s, lateAttempts = before ++ a :: after →
    attempts noteArchive [migration] uploaded before = some s →
      ¬ Interrupted noteArchive [migration] s a := by
  rintro before a after s hsplit hs ⟨-, hzero, hends⟩
  match before, hsplit with
  | [], hsplit =>
      cases hsplit
      exact hzero rfl
  | [_], hsplit =>
      cases hsplit
      have hfirst : attempts noteArchive [migration] uploaded [⟨noFaults, some 0⟩] =
          some uploaded := rfl
      cases hfirst.symm.trans hs
      revert hends
      decide +kernel
  | [_, _], hsplit => cases hsplit
  | _ :: _ :: _ :: _, hsplit => cases hsplit

end Openlia.Intake

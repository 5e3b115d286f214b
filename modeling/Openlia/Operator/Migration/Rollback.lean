import Openlia.Operator.Migration.Proposal
import Openlia.Operator.Migration.World

/-! # Rolling an apply back

The loops of `migration_apply.go` that put pre-images back, and
`ReconcileInterruptedApply`. The in-process rollback, the crash recovery and
the manual rollback do the same to a file; they differ in what they record.
-/

namespace Openlia.Operator

open Lib Crash

/-- Who runs a rollback. -/
inductive Stage where
  | reconcile | apply | recover
  deriving DecidableEq, Repr

/-- The system calls that may fail for a reason outside the model, by the index
of their operation. -/
inductive Site where
  | preImage (i : Nat)
  | journal
  | blob (i : Nat)
  | mkdir (i : Nat)
  | write (i : Nat)
  | delete (i : Nat)
  | restoreRead (stage : Stage) (i : Nat)
  | restoreWrite (stage : Stage) (i : Nat)
  | restoreRemove (stage : Stage) (i : Nat)
  deriving DecidableEq, Repr

/-- A step of a feature's installation in the workspace; paths are where links lead. -/
inductive SeedStep where
  | ensureDir (path : Path)
  | copyOnce (path : Path) (data : Bytes)
  deriving DecidableEq, Repr

/-- What a call finds outside the persistent state. -/
structure Env where
  sha256 : Bytes → String
  repo : ProposalRepo
  repositoryRoot : String
  detectFeatures : List Path → Except String (List String)
  featureSteps : String → List SeedStep
  lockError : Option String
  fault : Site → Option String
  now : Instant

variable (env : Env) (stage : Stage)

/-! ## One operation -/

/-- `AtomicWriteFile` into the workspace. -/
def atomicWriteFile (fault : Option String) (p : Path) (data : Bytes) : Action Unit := do
  let w ← Prog.get
  match fault with
  | some e => Prog.fail e
  | none =>
      match w.live.writeFile p data with
      | .error e => Prog.fail e.text
      | .ok t => Prog.write fun w => w.setLive t

/-- `os.Remove` in the workspace. -/
def removeFile (fault : Option String) (p : Path) : Action Unit := do
  let w ← Prog.get
  match fault with
  | some e => Prog.fail e
  | none =>
      match w.live.remove p with
      | .error e => Prog.fail e.text
      | .ok t => Prog.write fun w => w.setLive t

/-- The pre-image an operation recorded, as a read of its backup finds it. -/
def preImage (i : Nat) (files : PreImages) (op : ApplyOperation) : Except String Bytes :=
  match op.backupPath with
  | none => .error "no backup path"
  | some p =>
      match env.fault (.restoreRead stage i) with
      | some e => .error e
      | none =>
          match files.lookup p with
          | none => .error Errno.notExist.text
          | some data => .ok data

/-- Undo one operation; the answer says whether the loops count it as rolled
back. An error of the write or the removal is dropped. -/
def restoreOperation (i : Nat) (op : ApplyOperation) : Action Bool := do
  let w ← Prog.get
  if op.existedBefore then
    match preImage env stage i w.preImages op with
    | .error _ => pure false
    | .ok data => do
        Prog.ignore (atomicWriteFile (env.fault (.restoreWrite stage i)) op.path data)
        pure true
  else do
    Prog.ignore (removeFile (env.fault (.restoreRemove stage i)) op.path)
    pure true

/-- The loop from the last operation to the first. -/
def restoreOperations (ops : List ApplyOperation) : Action (List Bool) :=
  Prog.forDown (restoreOperation env stage) 0 ops

/-- The statuses the in-process rollback and the reconcile record. -/
def markRestored (ops : List ApplyOperation) (restored : List Bool) : List ApplyOperation :=
  ops.zipWith (fun op ok => { op with status := if ok then .rolledBack else .failed }) restored

/-- A rollback or an apply ends by writing the journal and then the state;
both errors are dropped. -/
def recordOutcome (migrationID : String) (j : StoredApplyJournal) (state : MigrationState) :
    Action Unit := do
  Prog.ignore (writeJournal j)
  Prog.ignore (updateMigrationState migrationID state none)

/-- `ReconcileInterruptedApply`. -/
def reconcileInterruptedApply (migrationID : String) : Action Unit := do
  let w ← Prog.get
  match w.journal with
  | none => pure ()
  | some journal =>
      if journal.status.interrupted then do
        let restored ← restoreOperations env .reconcile journal.operations
        let journal := { journal with
          operations := markRestored journal.operations restored, updatedAt := env.now }
        if restored.all id then
          recordOutcome migrationID { journal with status := .rolledBack } .readyForReview
        else do
          recordOutcome migrationID { journal with status := .failed } .recoveryRequired
          Prog.fail "crash recovery rollback failed: missing pre-images (entered recovery_required)"
      else pure ()

/-! ## What a rollback leaves -/

/-- Whether the operation counts as rolled back. -/
def restorable (i : Nat) (files : PreImages) (op : ApplyOperation) : Bool :=
  !op.existedBefore || (preImage env stage i files op).isOk

/-- The pre-image would reach the workspace. -/
def restoreWritable (i : Nat) (t : Tree String Bytes) (p : Path) : Bool :=
  (env.fault (.restoreWrite stage i)).isNone && decide (p ≠ []) && t.isDir p.dropLast &&
    !t.isDir p

/-- The node of an operation's path once it was undone. -/
def restoredNode (i : Nat) (files : PreImages) (t : Tree String Bytes)
    (op : ApplyOperation) : Option (Node Bytes) :=
  if op.existedBefore then
    match preImage env stage i files op with
    | .ok data => if restoreWritable env stage i t op.path then some (.file data) else t.node op.path
    | .error _ => t.node op.path
  else if (env.fault (.restoreRemove stage i)).isSome || decide (op.path = []) ||
      t.hasChild op.path then t.node op.path
  else none

variable {env stage}

/-- Undoing an operation looks at its path, the parent and the entries below. -/
theorem restoredNode_congr {i : Nat} {files : PreImages} {t t' : Tree String Bytes}
    {op : ApplyOperation} (hp : t'.node op.path = t.node op.path)
    (hd : t'.node op.path.dropLast = t.node op.path.dropLast)
    (hc : ∀ c, t'.node (op.path ++ [c]) = t.node (op.path ++ [c])) :
    restoredNode env stage i files t' op = restoredNode env stage i files t op := by
  have hchild : t'.hasChild op.path = t.hasChild op.path := by
    rw [Bool.eq_iff_iff, ← not_iff_not, Bool.not_eq_true, Bool.not_eq_true,
      Tree.hasChild_eq_false, Tree.hasChild_eq_false]
    simp only [hc]
  have hpd : t'.isDir op.path = t.isDir op.path := Tree.isDir_congr hp
  have hdd : t'.isDir op.path.dropLast = t.isDir op.path.dropLast := Tree.isDir_congr hd
  unfold restoredNode restoreWritable
  rw [hpd, hdd, hp, hchild]

theorem atomicWriteFile_ignore_run (fault : Option String) (p : Path) (data : Bytes) (w : World) :
    ∃ t : Tree String Bytes,
      ((Prog.ignore (atomicWriteFile fault p data)).run w).final = w.setLive t ∧
      (∀ x ∈ ((Prog.ignore (atomicWriteFile fault p data)).run w).trail, x = w.setLive t) ∧
      ∀ q, t.node q = if q = p ∧ fault = none ∧ p ≠ [] ∧ w.live.isDir p.dropLast = true ∧
        w.live.isDir p = false then some (.file data) else w.live.node q := by
  simp only [atomicWriteFile, Prog.run_ignore, Prog.run_get_bind]
  cases fault with
  | some e => exact ⟨w.live, rfl, by simp, by simp⟩
  | none =>
      cases hw : w.live.writeFile p data with
      | error e =>
          refine ⟨w.live, rfl, by simp, fun q => ?_⟩
          rw [if_neg]
          rintro ⟨-, -, hp, hdir, hnd⟩
          obtain ⟨t, ht⟩ := (Tree.put_isOk (n := .file data)).mpr ⟨hp, Tree.isDir_eq_true.mp hdir, by
            rw [ne_eq, ← Tree.isDir_eq_true, hnd]; simp⟩
          rw [Tree.writeFile, ht] at hw
          cases hw
      | ok t =>
          obtain ⟨hp, hdir, hnd⟩ := Tree.put_isOk.mp ⟨t, hw⟩
          refine ⟨t, rfl, by simp, fun q => ?_⟩
          rw [Tree.put_node hw q, ← Tree.isDir_eq_true] at *
          rw [ne_eq, ← Tree.isDir_eq_true, Bool.not_eq_true] at hnd
          simp only [hp, hdir, hnd, ne_eq, not_false_eq_true, and_self, and_true]

theorem removeFile_ignore_run (fault : Option String) (p : Path) (w : World) :
    ∃ t : Tree String Bytes,
      ((Prog.ignore (removeFile fault p)).run w).final = w.setLive t ∧
      (∀ x ∈ ((Prog.ignore (removeFile fault p)).run w).trail, x = w.setLive t) ∧
      ∀ q, t.node q = if q = p ∧ fault = none ∧ p ≠ [] ∧ w.live.hasChild p = false then none
        else w.live.node q := by
  simp only [removeFile, Prog.run_ignore, Prog.run_get_bind]
  cases fault with
  | some e => exact ⟨w.live, rfl, by simp, by simp⟩
  | none =>
      cases hr : w.live.remove p with
      | error e =>
          refine ⟨w.live, rfl, by simp, fun q => ?_⟩
          split
          · rename_i hq
            obtain ⟨rfl, -, hp, hc⟩ := hq
            by_contra hn
            simp only [Tree.remove, dif_neg hp] at hr
            cases hnode : w.live.node q with
            | none => exact hn hnode
            | some n => simp [hnode, hc] at hr
          · rfl
      | ok t =>
          refine ⟨t, rfl, by simp, fun q => ?_⟩
          rw [Tree.remove_node hr q]
          unfold Tree.remove at hr
          split at hr
          · cases hr
          · rename_i hp
            split at hr
            · cases hr
            · split at hr
              · cases hr
              · rename_i hc
                simp [hp, hc]

variable (env stage) in
/-- Undoing one operation ends at one tree, its only crash point, and the path
of the operation alone may differ there. -/
theorem restoreOperation_run (i : Nat) (op : ApplyOperation) (w : World) :
    ∃ t : Tree String Bytes,
      ((restoreOperation env stage i op).run w).final = w.setLive t ∧
      ((restoreOperation env stage i op).run w).result =
        .ok (restorable env stage i w.preImages op) ∧
      (∀ x ∈ ((restoreOperation env stage i op).run w).trail, x = w.setLive t) ∧
      ∀ q, t.node q = if q = op.path then restoredNode env stage i w.preImages w.live op
        else w.live.node q := by
  simp only [restoreOperation, Prog.run_get_bind, restorable, restoredNode]
  cases he : op.existedBefore with
  | true =>
      simp only [if_true, Bool.not_true, Bool.false_or]
      cases hpre : preImage env stage i w.preImages op with
      | error e => exact ⟨w.live, rfl, rfl, by simp, by simp +contextual⟩
      | ok data =>
          obtain ⟨t, hfin, htrail, hnode⟩ :=
            atomicWriteFile_ignore_run (env.fault (.restoreWrite stage i)) op.path data w
          refine ⟨t, ?_, rfl, ?_, fun q => ?_⟩
          · exact hfin
          · intro x hx
            exact htrail x (by simpa using hx)
          · rw [hnode q]
            by_cases hq : q = op.path
            · subst hq
              simp only [restoreWritable, true_and, if_true]
              congr 1
              simp [Bool.and_eq_true, and_assoc]
            · simp [hq]
  | false =>
      simp only [Bool.false_eq_true, if_false, Bool.not_false, Bool.true_or]
      obtain ⟨t, hfin, htrail, hnode⟩ :=
        removeFile_ignore_run (env.fault (.restoreRemove stage i)) op.path w
      refine ⟨t, ?_, rfl, ?_, fun q => ?_⟩
      · exact hfin
      · intro x hx
        exact htrail x (by simpa using hx)
      · rw [hnode q]
        by_cases hq : q = op.path
        · subst hq
          cases hf : env.fault (.restoreRemove stage i) <;> by_cases hp : op.path = [] <;>
            cases hc : w.live.hasChild op.path <;> simp [hp]
        · simp [hq]

/-- An apply, or its rollback, is under way: outside the operations' paths only
missing parent directories appeared, and no operation's path became a directory
or a link. -/
structure Grown (ops : List ApplyOperation) (t t' : Tree String Bytes) : Prop where
  frame : ∀ q, (∀ op ∈ ops, op.path ≠ q) → t'.node q = t.node q ∨
    (t.node q = none ∧ t'.node q = some .dir ∧ ∃ op ∈ ops, q <+: op.path.dropLast)
  files : ∀ op ∈ ops, t'.node op.path = t.node op.path ∨ t'.node op.path = none ∨
    ∃ d, t'.node op.path = some (.file d)

namespace Grown

variable {ops : List ApplyOperation} {t t' t'' : Tree String Bytes}

theorem refl (ops : List ApplyOperation) (t : Tree String Bytes) : Grown ops t t :=
  ⟨fun _ _ => Or.inl rfl, fun _ _ => Or.inl rfl⟩

theorem trans (h : Grown ops t t') (h' : Grown ops t' t'') : Grown ops t t'' := by
  refine ⟨fun q hq => ?_, fun op hop => ?_⟩
  · rcases h'.frame q hq with hsame | ⟨hnone, hdir, hup⟩
    · rw [hsame]
      exact h.frame q hq
    · rcases h.frame q hq with hsame | ⟨-, hdir', -⟩
      · exact Or.inr ⟨hsame ▸ hnone, hdir, hup⟩
      · rw [hdir'] at hnone
        cases hnone
  · rcases h'.files op hop with hsame | hrest
    · rw [hsame]
      exact h.files op hop
    · exact Or.inr hrest

/-- An apply of some operations is one of all. -/
theorem mono {ops' : List ApplyOperation} (hops : PathsApart ops') (hsub : ops ⊆ ops')
    (h : Grown ops t t') : Grown ops' t t' := by
  refine ⟨fun q hq => ?_, fun op' hop' => ?_⟩
  · rcases h.frame q fun op hop => hq op (hsub hop) with hsame | ⟨hnone, hdir, op, hop, hup⟩
    · exact Or.inl hsame
    · exact Or.inr ⟨hnone, hdir, op, hsub hop, hup⟩
  · by_cases hmem : ∃ op ∈ ops, op.path = op'.path
    · obtain ⟨op, hop, hpath⟩ := hmem
      rw [← hpath]
      exact h.files op hop
    · rcases h.frame op'.path fun op hop he => hmem ⟨op, hop, he⟩ with
        hsame | ⟨hnone, hdir, op, hop, hup⟩
      · exact Or.inl hsame
      · exfalso
        have hpre : op'.path <+: op.path := hup.trans (List.dropLast_prefix _)
        have hap : Apart op.path op'.path := by
          have hpw : (ops'.map ApplyOperation.path).Pairwise Apart := List.pairwise_map.mpr hops
          exact hpw.forall (List.mem_map_of_mem (hsub hop)) (List.mem_map_of_mem hop')
            fun he => hmem ⟨op, hop, he⟩
        exact hap.2 hpre

/-- A change at the path of one operation alone. -/
theorem of_file {op : ApplyOperation} (hop : op ∈ ops)
    (hframe : ∀ q, q ≠ op.path → t'.node q = t.node q)
    (hfile : t'.node op.path = t.node op.path ∨ t'.node op.path = none ∨
      ∃ d, t'.node op.path = some (.file d)) : Grown ops t t' := by
  refine ⟨fun q hq => Or.inl (hframe q fun he => hq op hop he.symm), fun x hx => ?_⟩
  by_cases hp : x.path = op.path
  · rw [hp]
    exact hfile
  · exact Or.inl (hframe x.path hp)

/-- Outside the operations' paths every file is as it was. -/
theorem content (h : Grown ops t t') {p : Path} (hp : ∀ op ∈ ops, op.path ≠ p) :
    t'.content p = t.content p := by
  rcases h.frame p hp with hsame | ⟨hnone, hdir, -⟩
  · exact Tree.content_eq_of_node_eq hsame
  · simp [Tree.content, hnone, hdir]

end Grown

theorem restoredNode_file (i : Nat) (files : PreImages) (t : Tree String Bytes)
    (op : ApplyOperation) : restoredNode env stage i files t op = t.node op.path ∨
      restoredNode env stage i files t op = none ∨
      ∃ d, restoredNode env stage i files t op = some (.file d) := by
  unfold restoredNode
  split
  · split
    · split
      · exact Or.inr (Or.inr ⟨_, rfl⟩)
      · exact Or.inl rfl
    · exact Or.inl rfl
  · split
    · exact Or.inl rfl
    · exact Or.inr (Or.inl rfl)

/-- The tree after the loop over operations numbered from `i`. -/
structure RolledBack (env : Env) (stage : Stage) (i : Nat) (files : PreImages)
    (ops : List ApplyOperation) (t t' : Tree String Bytes) : Prop where
  restored : ∀ x ∈ ops.zipIdx i, t'.node x.1.path = restoredNode env stage x.2 files t x.1
  frame : ∀ p, (∀ op ∈ ops, op.path ≠ p) → t'.node p = t.node p

theorem exists_index {ops : List ApplyOperation} {op : ApplyOperation} (h : op ∈ ops) (i : Nat) :
    ∃ k, (op, k) ∈ ops.zipIdx i := by
  obtain ⟨n, hn, rfl⟩ := List.mem_iff_getElem.mp h
  exact ⟨i + n, List.mk_add_mem_zipIdx_iff_getElem?.mpr (List.getElem?_eq_getElem hn)⟩

theorem RolledBack.grown {i : Nat} {files : PreImages} {ops : List ApplyOperation}
    {t t' : Tree String Bytes} (h : RolledBack env stage i files ops t t') : Grown ops t t' := by
  refine ⟨fun q hq => Or.inl (h.frame q hq), fun op hop => ?_⟩
  obtain ⟨k, hk⟩ := exists_index hop i
  rw [h.restored (op, k) hk]
  exact restoredNode_file k files t op

theorem RolledBack.cons {i : Nat} {files : PreImages} {op : ApplyOperation}
    {ops : List ApplyOperation} {t t₁ t₂ : Tree String Bytes}
    (hop : ∀ x ∈ ops, Apart op.path x.path)
    (h : RolledBack env stage (i + 1) files ops t t₁)
    (hn : ∀ q, t₂.node q = if q = op.path then restoredNode env stage i files t₁ op else t₁.node q) :
    RolledBack env stage i files (op :: ops) t t₂ := by
  have hframe : ∀ q, (∀ x ∈ ops, Apart op.path x.path → x.path ≠ q) → t₁.node q = t.node q :=
    fun q hq => h.frame q fun x hx => hq x hx (hop x hx)
  have hsame : restoredNode env stage i files t₁ op = restoredNode env stage i files t op := by
    refine restoredNode_congr (hframe _ fun x _ ha => ha.ne.symm)
      (hframe _ fun x _ ha => (symm ha).ne_dropLast) fun c => hframe _ fun x _ ha he => ?_
    exact ha.1 (he ▸ List.prefix_append _ _)
  refine ⟨fun x hx => ?_, fun p hp => ?_⟩
  · rw [List.zipIdx_cons, List.mem_cons] at hx
    rcases hx with rfl | hx
    · rw [hn, if_pos rfl, hsame]
    · have hmem : x.1 ∈ ops := List.fst_mem_of_mem_zipIdx hx
      rw [hn, if_neg (hop x.1 hmem).ne.symm]
      exact h.restored x hx
  · rw [hn, if_neg (hp op List.mem_cons_self).symm]
    exact h.frame p fun x hx => hp x (List.mem_cons_of_mem _ hx)

variable (env stage) in
/-- The loop undoes every operation on the tree it found and answers which were
restorable; each crash point differs from the start in the workspace alone. -/
theorem forDown_restoreOperation_run {ops : List ApplyOperation} (hops : PathsApart ops) (i : Nat)
    (w : World) :
    ∃ t : Tree String Bytes,
      ((Prog.forDown (restoreOperation env stage) i ops).run w).final = w.setLive t ∧
      ((Prog.forDown (restoreOperation env stage) i ops).run w).result =
        .ok ((ops.zipIdx i).map fun x => restorable env stage x.2 w.preImages x.1) ∧
      RolledBack env stage i w.preImages ops w.live t ∧
      ∀ x ∈ ((Prog.forDown (restoreOperation env stage) i ops).run w).trail,
        ∃ t : Tree String Bytes, x = w.setLive t ∧ Grown ops w.live t := by
  induction ops generalizing i with
  | nil =>
      refine ⟨w.live, rfl, rfl, ⟨by simp, fun _ _ => rfl⟩, ?_⟩
      simp [Prog.forDown, Prog.run, Prog.ret]
  | cons op ops ih =>
      obtain ⟨hop, hrest⟩ := List.pairwise_cons.mp hops
      obtain ⟨t₁, hfin₁, hres₁, hback, htrail₁⟩ := ih hrest (i + 1)
      obtain ⟨t₂, hfin₂, hres₂, htrail₂, hnode⟩ :=
        restoreOperation_run env stage i op (w.setLive t₁)
      have hback₂ := hback.cons hop hnode
      simp only [Prog.forDown]
      rw [Prog.run_bind_ok hres₁, hfin₁, Prog.run_bind_ok hres₂, hfin₂]
      refine ⟨t₂, rfl, ?_, hback₂, fun x hx => ?_⟩
      · rw [List.zipIdx_cons, List.map_cons]
        rfl
      · rcases List.mem_append.mp hx with hx | hx
        · obtain ⟨t, rfl, hg⟩ := htrail₁ x hx
          exact ⟨t, rfl, hg.mono hops (List.subset_cons_self _ _)⟩
        · rcases List.mem_append.mp hx with hx | hx
          · exact ⟨t₂, by rw [htrail₂ x hx, World.setLive_setLive], hback₂.grown⟩
          · cases hx

/-! ## What a reconcile leaves -/

/-- Marking keeps the paths; a list of answers that is too short drops the last. -/
theorem markRestored_paths (ops : List ApplyOperation) (restored : List Bool) :
    ((markRestored ops restored).map ApplyOperation.path).Sublist
      (ops.map ApplyOperation.path) := by
  induction ops generalizing restored with
  | nil => simp [markRestored]
  | cons op ops ih =>
      cases restored with
      | nil => simp [markRestored]
      | cons ok restored => simpa [markRestored] using ih restored

theorem markRestored_append_drop (ops : List ApplyOperation) (n : Nat) (restored : List Bool) :
    ((markRestored (ops.take n) restored ++ ops.drop n).map ApplyOperation.path).Sublist
      (ops.map ApplyOperation.path) := by
  conv_rhs => rw [← List.take_append_drop n ops]
  rw [List.map_append, List.map_append]
  exact (markRestored_paths _ _).append (List.Sublist.refl _)

theorem recordOutcome_run (migrationID : String) (j : StoredApplyJournal) (state : MigrationState)
    (w : World) :
    ((recordOutcome migrationID j state).run w).final =
        (w.putJournal j).tryState migrationID state none ∧
      ((recordOutcome migrationID j state).run w).result = .ok () ∧
      ∀ x ∈ ((recordOutcome migrationID j state).run w).trail,
        x = w.putJournal j ∨ x = (w.putJournal j).tryState migrationID state none := by
  have hj := ignore_writeJournal_final j w
  obtain ⟨hf, hr, ht⟩ := Prog.run_bind_of_ok (k := fun _ =>
    Prog.ignore (updateMigrationState migrationID state none)) (p := Prog.ignore (writeJournal j))
    rfl hj
  refine ⟨?_, hr, fun x hx => ?_⟩
  · rw [← ignore_updateMigrationState_final]
    exact hf
  · change x ∈ ((Prog.ignore (writeJournal j) >>= fun _ =>
      Prog.ignore (updateMigrationState migrationID state none)).run w).trail at hx
    rw [ht, List.mem_append] at hx
    rcases hx with hx | hx
    · exact Or.inl (ignore_writeJournal_trail hx)
    · exact Or.inr (ignore_updateMigrationState_trail hx)

/-- Which operations of a journal count as rolled back. -/
def restoredOps (env : Env) (stage : Stage) (files : PreImages) (ops : List ApplyOperation) :
    List Bool :=
  ops.zipIdx.map fun x => restorable env stage x.2 files x.1

/-- A journal whose operations were all marked by a rollback. -/
def closedJournal (j : StoredApplyJournal) (restored : List Bool) (now : Instant) :
    StoredApplyJournal :=
  { j with
    operations := markRestored j.operations restored
    updatedAt := now
    status := if restored.all id then .rolledBack else .failed }

theorem reconcile_of_not_interrupted {migrationID : String} {w : World}
    (h : ∀ j, w.journal = some j → j.status.interrupted = false) :
    (reconcileInterruptedApply env migrationID).run w = ⟨[], w, .ok ()⟩ := by
  simp only [reconcileInterruptedApply, Prog.run_get_bind]
  cases hj : w.journal with
  | none => rfl
  | some j =>
      simp only [h j hj]
      rfl

variable (env) in
/-- An interrupted journal is rolled back from the tree found, closed, and the
state is set as far as the transition table allows. -/
theorem reconcile_of_interrupted (migrationID : String) {w : World} {j : StoredApplyJournal}
    (hj : w.journal = some j) (hi : j.status.interrupted = true) (hops : PathsApart j.operations) :
    ∃ t : Tree String Bytes,
      RolledBack env .reconcile 0 w.preImages j.operations w.live t ∧
      ((reconcileInterruptedApply env migrationID).run w).final =
        ((w.setLive t).putJournal
          (closedJournal j (restoredOps env .reconcile w.preImages j.operations) env.now)).tryState
            migrationID
            (if (restoredOps env .reconcile w.preImages j.operations).all id then .readyForReview
              else .recoveryRequired) none ∧
      (((reconcileInterruptedApply env migrationID).run w).result = .ok () ↔
        (restoredOps env .reconcile w.preImages j.operations).all id = true) := by
  obtain ⟨t, hfin, hres, hback, -⟩ :=
    forDown_restoreOperation_run env .reconcile hops 0 w
  refine ⟨t, hback, ?_⟩
  change (_ = Except.ok (restoredOps env .reconcile w.preImages j.operations)) at hres
  generalize restoredOps env .reconcile w.preImages j.operations = restored at hres ⊢
  simp only [reconcileInterruptedApply, Prog.run_get_bind, hj, hi, if_true, restoreOperations]
  rw [Prog.run_bind_ok hres, hfin]
  by_cases hall : restored.all id = true
  · simp only [closedJournal, hall, if_true, iff_true]
    obtain ⟨hf', hr', -⟩ := recordOutcome_run migrationID _ .readyForReview (w.setLive t)
    exact ⟨hf', hr'⟩
  · simp only [closedJournal, if_neg hall]
    obtain ⟨hf', hr', -⟩ := recordOutcome_run migrationID _ .recoveryRequired (w.setLive t)
    rw [Prog.run_bind_ok hr', hf']
    exact ⟨rfl, by simp [hall]⟩

end Openlia.Operator

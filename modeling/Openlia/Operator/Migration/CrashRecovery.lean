import Openlia.Operator.Migration.Preparation

/-! # Recovery after a crash

An apply is cut short at a crash point, users may edit the workspace, and
`ReconcileInterruptedApply` runs. The journal and the database are two stores:
what the recovery achieves is decided by the pair of statuses found in them.
-/

namespace Openlia.Operator

open Lib Crash

variable {env env' : Env} {migrationID : String}

/-! ## The state after recovery -/

/-- What the revision holds at a path. -/
def revisionContent (env : Env) (commitHash : String) (p : Path) : Option Bytes :=
  (env.repo.readFileAtCommit commitHash p).toOption

/-- A prepared operation makes of its file what the revision holds. -/
theorem Prepared.newContent {plan : ApplyPlan} {ops : List ApplyOperation} {w : World}
    (h : Prepared env migrationID plan ops w) {op : ApplyOperation} (hop : op ∈ ops) :
    newContent env plan.revision.commitHash op =
      revisionContent env plan.revision.commitHash op.path := by
  obtain ⟨s, -, mig, a, b, -, -, hb, hfiles⟩ := h.plan_ok
  rw [h.ops_eq] at hop
  obtain ⟨f, hf, rfl⟩ := List.mem_map.mp hop
  rw [hfiles] at hf
  by_cases hs : f.status = .deleted
  · have hnone := (lookup_of_deleted hf hs).1
    simp [Operator.newContent, revisionContent, preparedOperation, hs,
      ProposalRepo.readFileAtCommit, hb, hnone, Except.toOption]
  · simp [Operator.newContent, revisionContent, preparedOperation, hs]

namespace World

/-- The journal on disk says that the apply went through. -/
def saysApplied (w : World) : Bool :=
  match w.journal with
  | some j => decide (j.status = .applied)
  | none => false

/-- The pairs of journal and state from which a recovery reaches the state the
journal asks for: an open journal whose state may become `ready_for_review`, or
a closed journal whose state was written with it. -/
def recoverable (w : World) (migrationID : String) : Bool :=
  match w.journal, w.stateOf migrationID with
  | some j, some state =>
      if j.status.interrupted then isValidStateTransition state .readyForReview
      else if j.status = .applied then decide (state = .applied)
      else decide (state = .readyForReview)
  | _, _ => false

end World

/-- After a recovery from `x`, of the apply prepared in `w`, the files and the
state agree with what the journal said. -/
structure Recovered (env : Env) (migrationID : String) (plan : ApplyPlan)
    (ops : List ApplyOperation) (w x y : World) : Prop where
  files : ∀ op ∈ ops, y.live.content op.path =
    if x.saysApplied then revisionContent env plan.revision.commitHash op.path
    else w.live.content op.path
  state : y.stateOf migrationID =
    some (if x.saysApplied then .applied else .readyForReview)

/-- No rollback step of a stage fails for a reason of its own. -/
def Env.Reliable (env : Env) (stage : Stage) : Prop :=
  ∀ i, env.fault (.restoreRead stage i) = none ∧ env.fault (.restoreWrite stage i) = none ∧
    env.fault (.restoreRemove stage i) = none

/-- From an open journal every file is put back, and the transition table
decides about the state. -/
theorem reconcile_of_open {ops : List ApplyOperation} {commitHash : String} {w x : World}
    {phase : ApplyPhase} (hready : OpsReady w.live w.preImages ops) (hrel : env'.Reliable .reconcile)
    (hx : InPhase env migrationID commitHash ops w phase x)
    (hopen : phase.journal.interrupted = true) :
    (∀ op ∈ ops, ((reconcileInterruptedApply env' migrationID).run x).final.live.content op.path =
        w.live.content op.path) ∧
      ((reconcileInterruptedApply env' migrationID).run x).final.stateOf migrationID =
        some (if isValidStateTransition phase.state .readyForReview then .readyForReview
          else phase.state) := by
  obtain ⟨j, hj, hjof⟩ := hx.journal
  obtain rfl := hjof.operations hopen
  obtain ⟨t, hback, hfin, -⟩ := reconcile_of_interrupted env' migrationID
    hj (hjof.status ▸ hopen) hready.apart
  rw [hx.preImages] at hback hfin
  have hall : (restoredOps env' .reconcile w.preImages j.operations).all id = true :=
    all_restoredOps.mpr fun y hy =>
      hready.restorable (fun i => (hrel i).1) (List.fst_mem_of_mem_zipIdx hy) y.2
  rw [hfin]
  simp only [hall, if_true]
  refine ⟨fun op hop => ?_, ?_⟩
  · obtain ⟨k, hk⟩ := exists_index hop 0
    rw [World.tryState_live, World.putJournal_live, World.setLive_live]
    refine Tree.content_eq_of_node_eq ?_
    rw [hback.restored (op, k) hk]
    exact restoredNode_of_grown hready hx.grown hop (hrel k).2.1 (hrel k).2.2
      (all_restoredOps.mp hall (op, k) hk)
  · exact World.stateOf_tryState (by rw [World.stateOf_putJournal, World.stateOf_setLive, hx.state])

/-- An apply that succeeds ends applied, from prepared operations. -/
theorem applyRevision_ok {w : World} {revisionID expectedPatchHash : String}
    (h : ((applyRevision env migrationID revisionID expectedPatchHash).run w).result = .ok ()) :
    ∃ plan ops,
      ((prepareApply env migrationID revisionID expectedPatchHash).run w).result = .ok (plan, ops) ∧
      InPhase env migrationID plan.revision.commitHash ops
        ((prepareApply env migrationID revisionID expectedPatchHash).run w).final .applied
        ((applyRevision env migrationID revisionID expectedPatchHash).run w).final := by
  obtain ⟨⟨plan, ops⟩, hprep, hexec, hfin, -⟩ := Prog.run_bind_eq_ok h
  refine ⟨plan, ops, hprep, ?_⟩
  have hready := (prepareApply_ok hprep).1
  obtain ⟨-, hend⟩ := executeApply_run env plan hready.ready hready.applyDir hready.state
  dsimp only at hexec
  rcases hend with ⟨msg, hr, -⟩ | ⟨phase, hphase, ⟨-, rfl⟩ | ⟨msg, hr, -⟩⟩
  · rw [hr] at hexec
    cases hexec
  · rw [applyRevision, hfin]
    exact hphase
  · rw [hr] at hexec
    cases hexec

/-- With a closed journal the files already are what it says. -/
theorem closed_files {ops : List ApplyOperation} {plan : ApplyPlan} {w x : World}
    {phase : ApplyPhase} (hprep : Prepared env migrationID plan ops w)
    (hx : InPhase env migrationID plan.revision.commitHash ops w phase x)
    (hclosed : phase.journal.interrupted = false) (hread : phase.unreadable = false)
    (hwrites : env.RollbackWrites) :
    ∀ op ∈ ops, x.live.content op.path =
      if phase.journal = .applied then revisionContent env plan.revision.commitHash op.path
      else w.live.content op.path := by
  intro op hop
  have hcontent := hx.content (fun _ => hwrites) op hop
  cases phase with
  | journaled => cases hclosed
  | applying => cases hclosed
  | rollingBack => cases hclosed
  | incomplete => cases hread
  | recoveryRequired => cases hread
  | rolledBack => exact hcontent _ rfl
  | reset => exact hcontent _ rfl
  | committed => exact (hcontent _ rfl).trans (hprep.newContent hop)
  | applied => exact (hcontent _ rfl).trans (hprep.newContent hop)

/-- A recovery leaves the migration usable exactly when the crash found the two
stores in a recoverable pair. -/
theorem reconcile_recovers_iff {w : World} {revisionID expectedPatchHash : String}
    {plan : ApplyPlan} {ops : List ApplyOperation}
    (hprep : ((prepareApply env migrationID revisionID expectedPatchHash).run w).result =
      .ok (plan, ops))
    (hrel : env.Reliable .apply) (hrel' : env'.Reliable .reconcile) {x : World}
    (hx : x ∈ ((executeApply env migrationID plan ops).run
      ((prepareApply env migrationID revisionID expectedPatchHash).run w).final).trail) :
    Recovered env migrationID plan ops
        ((prepareApply env migrationID revisionID expectedPatchHash).run w).final x
        ((reconcileInterruptedApply env' migrationID).run x).final ↔
      x.recoverable migrationID = true := by
  obtain ⟨hprepared, -⟩ := prepareApply_ok hprep
  generalize ((prepareApply env migrationID revisionID expectedPatchHash).run w).final = w₁ at *
  obtain ⟨htrail, -⟩ := executeApply_run env plan hprepared.ready
    hprepared.applyDir hprepared.state
  obtain ⟨phase, hphase, hun⟩ := htrail x hx
  have hwrites : env.RollbackWrites := fun i => (hrel i).2
  have hreadable : phase.unreadable = false := by
    by_contra h
    exact hun (by simpa using h) fun i => (hrel i).1
  obtain ⟨j, hj, hjof⟩ := hphase.journal
  have hstatus := hjof.status
  have hsaid : x.saysApplied = decide (phase.journal = .applied) := by
    simp [World.saysApplied, hj, hstatus]
  have hrec : x.recoverable migrationID =
      if phase.journal.interrupted then isValidStateTransition phase.state .readyForReview
      else if phase.journal = .applied then decide (phase.state = .applied)
      else decide (phase.state = .readyForReview) := by
    simp [World.recoverable, hj, hphase.state, hstatus]
  by_cases hopen : phase.journal.interrupted = true
  · obtain ⟨hfiles, hstate⟩ := reconcile_of_open hprepared.ready hrel' hphase hopen
    have hna : phase.journal ≠ .applied := by
      intro ha
      rw [ha] at hopen
      cases hopen
    rw [hrec, if_pos hopen]
    constructor
    · rintro ⟨-, hs⟩
      rw [hstate, hsaid, decide_eq_false hna] at hs
      cases phase <;> simp_all [ApplyPhase.state, ApplyPhase.journal, isValidStateTransition,
        validStateTransitions]
    · intro hv
      rw [if_pos hv] at hstate
      exact ⟨by simpa [hsaid, hna] using hfiles, by simpa [hsaid, hna] using hstate⟩
  · have hclosed : ∀ j', x.journal = some j' → j'.status.interrupted = false := by
      intro j' hj'
      rw [hj] at hj'
      obtain rfl := Option.some.inj hj'
      rw [hstatus]
      simpa using hopen
    rw [reconcile_of_not_interrupted hclosed, hrec, if_neg hopen]
    have hfiles := closed_files hprepared hphase (by simpa using hopen) hreadable hwrites
    by_cases happlied : phase.journal = .applied
    · simp only [if_pos happlied] at hfiles ⊢
      refine ⟨fun h => ?_, fun h => ⟨by simpa [hsaid, happlied] using hfiles, ?_⟩⟩
      · have hs := h.state
        rw [hphase.state, hsaid, happlied] at hs
        simpa using hs
      · rw [hphase.state, hsaid, happlied]
        simpa using h
    · simp only [if_neg happlied] at hfiles ⊢
      refine ⟨fun h => ?_, fun h => ⟨by simpa [hsaid, happlied] using hfiles, ?_⟩⟩
      · have hs := h.state
        rw [hphase.state, hsaid, decide_eq_false happlied] at hs
        simpa using hs
      · rw [hphase.state, hsaid, decide_eq_false happlied]
        simpa using h

/-! ## A note to import

A revision that adds one file to an empty workspace.
-/

/-- A stand-in for the hash: the bytes, written out. -/
def byteHash (data : Bytes) : String := String.join (data.map fun b => toString b.toNat ++ ".")

def noteMigration : Migration where
  id := "mig-1"
  schema := 2
  state := .readyForReview
  savedPhase := none
  stopIntent := false
  baselineManifest := "base"
  activeRevisionID := "rev-1-mig-1"

def noteRevision : ReviewRevision where
  id := "rev-1-mig-1"
  migrationID := "mig-1"
  revisionNum := 1
  baselineHash := "base"
  commitHash := "c1"
  treeHash := "t1"
  patchHash := byteHash []
  parentRevID := ""

def noteRepo : ProposalRepo where
  commit h :=
    if h = "base" then some ⟨"t0", ⟨[], by simp, by simp⟩⟩
    else if h = "c1" then
      some ⟨"t1", ⟨[(["notes", "a.md"], ⟨"100644", [104, 105]⟩)], by simp, by simp⟩⟩
    else none
  diffText _ _ := []
  gitError := "fatal: bad object"

def noteEnv : Env where
  sha256 := byteHash
  repo := noteRepo
  repositoryRoot := ""
  detectFeatures _ := .ok []
  featureSteps _ := []
  lockError := none
  fault _ := none
  now := 0

def noteWorld : World where
  store := ⟨⟨[noteMigration], by simp⟩, [], Table.empty, ⟨[noteRevision], by simp⟩, Table.empty⟩
  live := Tree.empty
  preImages := ∅
  applyDir := false
  journal := none

def notePlan : ApplyPlan :=
  ⟨"rev-1-mig-1", noteRevision, [⟨["notes", "a.md"], .added, "", byteHash [104, 105]⟩]⟩

def noteOps : List ApplyOperation :=
  [⟨.write, ["notes", "a.md"], false, "", byteHash [104, 105], none, .pending⟩]

/-- The world in which the note's apply writes its journal. -/
def notePrepared : World := ((prepareApply noteEnv "mig-1" "" "").run noteWorld).final

/-- The crash points of the note's apply: journal, state, directory, file,
journal, state. -/
def noteCrashes : List World :=
  ((executeApply noteEnv "mig-1" notePlan noteOps).run notePrepared).trail

theorem noteWorld_prepares :
    ((prepareApply noteEnv "mig-1" "" "").run noteWorld).result = .ok (notePlan, noteOps) := rfl

theorem noteEnv_reliable (stage : Stage) : noteEnv.Reliable stage := fun _ => ⟨rfl, rfl, rfl⟩

/-- Between the journal and the state a crash is recovered from. -/
theorem reconcile_recovers_journaled_note : ∃ x ∈ noteCrashes,
    Recovered noteEnv "mig-1" notePlan noteOps notePrepared x
      ((reconcileInterruptedApply noteEnv "mig-1").run x).final := by
  obtain ⟨x, hx, hrec⟩ : ∃ x, noteCrashes[0]? = some x ∧ x.recoverable "mig-1" = true :=
    ⟨_, rfl, rfl⟩
  have hmem := List.mem_of_getElem? hx
  exact ⟨x, hmem, (reconcile_recovers_iff noteWorld_prepares (noteEnv_reliable _)
    (noteEnv_reliable _) hmem).mpr hrec⟩

/-- Once the state is `applying` the recovery rolls the files back and leaves it so. -/
theorem reconcile_leaves_applying : ∃ x ∈ noteCrashes,
    (prepareApply noteEnv "mig-1" "" "").run noteWorld =
      ⟨((prepareApply noteEnv "mig-1" "" "").run noteWorld).trail, notePrepared,
        .ok (notePlan, noteOps)⟩ ∧
    noteEnv.Reliable .apply ∧ noteEnv.Reliable .reconcile ∧
    ((reconcileInterruptedApply noteEnv "mig-1").run x).final.stateOf "mig-1" = some .applying ∧
    ¬ Recovered noteEnv "mig-1" notePlan noteOps notePrepared x
      ((reconcileInterruptedApply noteEnv "mig-1").run x).final := by
  obtain ⟨x, hx, hstate⟩ : ∃ x, noteCrashes[1]? = some x ∧
      ((reconcileInterruptedApply noteEnv "mig-1").run x).final.stateOf "mig-1" = some .applying :=
    ⟨_, rfl, rfl⟩
  refine ⟨x, List.mem_of_getElem? hx, rfl, noteEnv_reliable _, noteEnv_reliable _, hstate,
    fun h => ?_⟩
  have hs := h.state
  rw [hstate] at hs
  split at hs <;> cases hs

/-! ## What a recovery touches -/

/-- A content is what the operation wrote: the new hash, or absence for a delete. -/
def HoldsNew (sha256 : Bytes → String) (op : ApplyOperation) (c : Option Bytes) : Prop :=
  match op.type with
  | .delete => c = none
  | .write => c.map sha256 = some op.newHash

instance (sha256 : Bytes → String) (op : ApplyOperation) (c : Option Bytes) :
    Decidable (HoldsNew sha256 op c) := by
  unfold HoldsNew
  cases op.type <;> infer_instance

/-- Between the workspace found and the one left, only files that hold what
their operation wrote before the crash were overwritten or deleted. -/
def TouchesOwnFiles (sha256 : Bytes → String) (ops : List ApplyOperation)
    (crash found left : Tree String Bytes) : Prop :=
  ∀ p, left.content p = found.content p ∨ ∃ op ∈ ops, op.path = p ∧
    HoldsNew sha256 op (found.content p) ∧ HoldsNew sha256 op (crash.content p)

/-- Undoing the operation keeps its file: no pre-image is readable, it is what
the file holds, or the path is such that nothing can be written or removed. -/
def restoreKeeps (env : Env) (stage : Stage) (i : Nat) (files : PreImages)
    (t : Tree String Bytes) (op : ApplyOperation) : Bool :=
  if op.existedBefore then
    match preImage env stage i files op with
    | .ok data => decide (t.content op.path = some data) || !restoreWritable env stage i t op.path
    | .error _ => true
  else (env.fault (.restoreRemove stage i)).isSome || (t.content op.path).isNone

theorem restoreKeeps_iff {stage : Stage} {i : Nat} {files : PreImages} {t t' : Tree String Bytes}
    {op : ApplyOperation} (h : t'.node op.path = restoredNode env stage i files t op) :
    t'.content op.path = t.content op.path ↔ restoreKeeps env stage i files t op = true := by
  unfold restoreKeeps restoredNode at *
  cases he : op.existedBefore with
  | true =>
      simp only [he, if_true] at h ⊢
      cases hp : preImage env stage i files op with
      | error e =>
          simp only [hp] at h
          simp [Tree.content_eq_of_node_eq h]
      | ok data =>
          simp only [hp] at h
          by_cases hw : restoreWritable env stage i t op.path = true
          · rw [if_pos hw] at h
            rw [Tree.content_eq_some.mpr h]
            simp [hw, eq_comm]
          · rw [if_neg hw] at h
            simp [Tree.content_eq_of_node_eq h, hw]
  | false =>
      simp only [he, Bool.false_eq_true, if_false] at h ⊢
      by_cases hb : ((env.fault (.restoreRemove stage i)).isSome || decide (op.path = []) ||
          t.hasChild op.path) = true
      · rw [if_pos hb] at h
        simp only [Tree.content_eq_of_node_eq h, true_iff, Bool.or_eq_true]
        simp only [Bool.or_eq_true, decide_eq_true_eq] at hb
        rcases hb with (hf | hp) | hc
        · exact Or.inl hf
        · right
          rw [hp]
          rfl
        · right
          have hdir : t.node op.path = some .dir := by
            by_contra hd
            rw [Tree.hasChild_eq_false_of_not_dir hd] at hc
            cases hc
          simp [Tree.content, hdir]
      · rw [if_neg hb] at h
        have hf : (env.fault (.restoreRemove stage i)).isSome = false := by
          simp only [Bool.or_eq_true, not_or, Bool.not_eq_true] at hb
          exact hb.1.1
        have hc : t'.content op.path = none := by simp [Tree.content, h]
        rw [hc, hf]
        cases t.content op.path <;> simp

/-- The recovery of `x` from the workspace `found` is harmless: the journal is
closed, or each operation either was executed before the crash and its file not
touched since, or is kept by its undoing. -/
def World.recoveryHarmless (x : World) (sha256 : Bytes → String) (env : Env)
    (found : Tree String Bytes) : Bool :=
  match x.journal with
  | none => true
  | some j => !j.status.interrupted || j.operations.zipIdx.all fun y =>
      (decide (HoldsNew sha256 y.1 (found.content y.1.path)) &&
        decide (HoldsNew sha256 y.1 (x.live.content y.1.path))) ||
      restoreKeeps env .reconcile y.2 x.preImages found y.1

theorem PathsApart.eq_of_path_eq {ops : List ApplyOperation} (h : PathsApart ops)
    {op op' : ApplyOperation} (hop : op ∈ ops) (hop' : op' ∈ ops) (he : op.path = op'.path) :
    op = op' := by
  by_contra hne
  have hap : ops.Pairwise fun a b => Apart a.path b.path := h
  have hsymm : Std.Symm fun a b : ApplyOperation => Apart a.path b.path :=
    ⟨fun _ _ hab => And.symm hab⟩
  exact (hap.forall hop hop' hne).ne he

/-- A recovery touches only what the apply wrote exactly when it is harmless. -/
theorem reconcile_touches_iff {x : World} (hops : PathsApart x.journaledOps)
    (sha256 : Bytes → String) (found : Tree String Bytes) :
    TouchesOwnFiles sha256 x.journaledOps x.live found
        ((reconcileInterruptedApply env migrationID).run (x.setLive found)).final.live ↔
      x.recoveryHarmless sha256 env found = true := by
  cases hj : x.journal with
  | none =>
      rw [reconcile_of_not_interrupted (by simp [hj])]
      simp [World.recoveryHarmless, hj, TouchesOwnFiles]
  | some j =>
      have hjops : x.journaledOps = j.operations := by simp [World.journaledOps, hj]
      by_cases hi : j.status.interrupted = true
      · rw [hjops] at hops ⊢
        obtain ⟨t, hback, hfin, -⟩ := reconcile_of_interrupted env migrationID
          (w := x.setLive found) (by simpa using hj) hi hops
        rw [hfin, World.tryState_live, World.putJournal_live, World.setLive_live]
        simp only [World.setLive_preImages, World.setLive_live] at hback
        simp only [World.recoveryHarmless, hj, hi, Bool.not_true, Bool.false_or, List.all_eq_true,
          Bool.or_eq_true, Bool.and_eq_true, decide_eq_true_eq]
        constructor
        · intro h y hy
          rcases h y.1.path with hsame | ⟨op, hop, hpath, hnew⟩
          · exact Or.inr ((restoreKeeps_iff (hback.restored y hy)).mp hsame)
          · obtain rfl := hops.eq_of_path_eq hop (List.fst_mem_of_mem_zipIdx hy) hpath
            exact Or.inl hnew
        · intro h p
          by_cases hp : ∃ op ∈ j.operations, op.path = p
          · obtain ⟨op, hop, rfl⟩ := hp
            obtain ⟨k, hk⟩ := exists_index hop 0
            rcases h (op, k) hk with hnew | hkeep
            · exact Or.inr ⟨op, hop, rfl, hnew⟩
            · exact Or.inl ((restoreKeeps_iff (hback.restored (op, k) hk)).mpr hkeep)
          · exact Or.inl (Tree.content_eq_of_node_eq
              (hback.frame p fun op hop he => hp ⟨op, hop, he⟩))
      · rw [reconcile_of_not_interrupted (by
          intro j' hj'
          rw [World.setLive_journal, hj] at hj'
          obtain rfl := Option.some.inj hj'
          simpa using hi)]
        simp [World.recoveryHarmless, hj, hi, TouchesOwnFiles]

end Openlia.Operator

import Openlia.Operator.Migration.Apply

/-! # What the execution of an apply leaves

The apply loop changes the workspace one operation at a time. Every crash point
of it, and of the rollback after an error, is a tree grown from the one the
operations were prepared on.
-/

namespace Openlia.Operator

open Lib Crash

variable {env : Env} {migrationID commitHash : String}

/-- What an operation makes of its file. -/
def newContent (env : Env) (commitHash : String) (op : ApplyOperation) : Option Bytes :=
  match op.type with
  | .delete => none
  | .write => (env.repo.readFileAtCommit commitHash op.path).toOption

/-! ## One operation -/

theorem mkdirAll_grown {op : ApplyOperation} {t t' : Tree String Bytes} (hp : op.path ≠ [])
    (h : t.mkdirAll op.path.dropLast = .ok t') :
    Grown [op] t t' ∧ t'.node op.path = t.node op.path := by
  have hnode := (Tree.mkdirAll_node h).2
  have hsame : t'.node op.path = t.node op.path := by
    rcases hnode op.path with hsame | ⟨-, -, hpre⟩
    · exact hsame
    · have hlen := hpre.length_le
      have hpos := List.length_pos_of_ne_nil hp
      rw [List.length_dropLast] at hlen
      omega
  refine ⟨⟨fun q _ => ?_, fun x hx => ?_⟩, hsame⟩
  · rcases hnode q with hsame | ⟨hnone, hdir, hpre⟩
    · exact Or.inl hsame
    · exact Or.inr ⟨hnone, hdir, op, List.mem_singleton.mpr rfl, hpre⟩
  · rw [List.mem_singleton.mp hx]
    exact Or.inl hsame

theorem write_grown {op : ApplyOperation} {t t' : Tree String Bytes} {data : Bytes}
    (h : t.writeFile op.path data = .ok t') :
    Grown [op] t t' ∧ t'.content op.path = some data := by
  have hn := Tree.put_node h
  refine ⟨Grown.of_file (List.mem_singleton.mpr rfl) (fun q hq => by rw [hn, if_neg hq])
    (Or.inr (Or.inr ⟨data, by rw [hn, if_pos rfl]⟩)), ?_⟩
  rw [Tree.put_content h, if_pos rfl]

theorem remove_grown {op : ApplyOperation} {t t' : Tree String Bytes}
    (h : t.remove op.path = .ok t') : Grown [op] t t' ∧ t'.content op.path = none := by
  have hn := Tree.remove_node h
  refine ⟨Grown.of_file (List.mem_singleton.mpr rfl) (fun q hq => by rw [hn, if_neg hq])
    (Or.inr (Or.inl (by rw [hn, if_pos rfl]))), ?_⟩
  rw [Tree.remove_content h, if_pos rfl]

variable (env commitHash) in
/-- An operation is done, or it failed and left its file alone. -/
theorem applyOperation_run (i : Nat) (op : ApplyOperation) (w : World) :
    ∃ t : Tree String Bytes,
      ((applyOperation env commitHash i op).run w).final = w.setLive t ∧
      Grown [op] w.live t ∧
      (∀ x ∈ ((applyOperation env commitHash i op).run w).trail,
        ∃ t' : Tree String Bytes, x = w.setLive t' ∧ Grown [op] w.live t') ∧
      (((applyOperation env commitHash i op).run w).result = .ok () →
        t.content op.path = newContent env commitHash op) ∧
      (∀ e, ((applyOperation env commitHash i op).run w).result = .error e →
        t.node op.path = w.live.node op.path) := by
  have hfail : ∀ e : String, ∃ t : Tree String Bytes,
      ((Prog.fail e : Action Unit).run w).final = w.setLive t ∧ Grown [op] w.live t ∧
      (∀ x ∈ ((Prog.fail e : Action Unit).run w).trail,
        ∃ t' : Tree String Bytes, x = w.setLive t' ∧ Grown [op] w.live t') ∧
      (((Prog.fail e : Action Unit).run w).result = .ok () →
        t.content op.path = newContent env commitHash op) ∧
      (∀ e', ((Prog.fail e : Action Unit).run w).result = .error e' →
        t.node op.path = w.live.node op.path) :=
    fun e => ⟨w.live, rfl, Grown.refl _ _, by simp, by simp, fun _ _ => rfl⟩
  simp only [applyOperation, Prog.run_get_bind]
  cases hv : validateSafeWorkspacePath w.live op.path with
  | error e => exact hfail _
  | ok u =>
      have hp := (validateSafeWorkspacePath_ok hv).1
      cases ht : op.type with
      | delete =>
          simp only
          cases env.fault (.delete i) with
          | some e => exact hfail _
          | none =>
              cases hr : w.live.remove op.path with
              | ok t =>
                  obtain ⟨hg, hc⟩ := remove_grown hr
                  refine ⟨t, rfl, hg, fun x hx => ⟨t, by simpa using hx, hg⟩, fun _ => ?_, by simp⟩
                  rw [hc, newContent, ht]
              | error e =>
                  cases e with
                  | notExist =>
                      refine ⟨w.live, rfl, Grown.refl _ _, by simp, fun _ => ?_, by simp⟩
                      rw [newContent, ht]
                      cases hn : w.live.content op.path with
                      | none => rfl
                      | some d =>
                          have hnode := Tree.content_eq_some.mp hn
                          obtain ⟨t, hok⟩ := Tree.remove_isOk (t := w.live) (p := op.path)
                            (by rw [hnode]; simp) (by rw [hnode]; simp)
                          rw [hok] at hr
                          cases hr
                  | notDir => exact hfail _
                  | isDir => exact hfail _
                  | notEmpty => exact hfail _
                  | link => exact hfail _
      | write =>
          simp only
          cases env.fault (.blob i) with
          | some e => exact hfail _
          | none =>
              cases hb : env.repo.readFileAtCommit commitHash op.path with
              | error e => exact hfail _
              | ok propData =>
                  cases env.fault (.mkdir i) with
                  | some e => exact hfail _
                  | none =>
                      cases hm : w.live.mkdirAll op.path.dropLast with
                      | error e => exact hfail _
                      | ok t₁ =>
                          obtain ⟨hg₁, hsame⟩ := mkdirAll_grown hp hm
                          simp only [Prog.run_write_bind, Prog.run_attempt_bind, atomicWriteFile,
                            Prog.run_get_bind]
                          cases env.fault (.write i) with
                          | some e =>
                              refine ⟨t₁, rfl, hg₁, fun x hx => ⟨t₁, by simpa using hx, hg₁⟩,
                                by simp, fun _ _ => hsame⟩
                          | none =>
                              cases hw : t₁.writeFile op.path propData with
                              | error e =>
                                  simp only [World.setLive_live, hw]
                                  refine ⟨t₁, rfl, hg₁, fun x hx => ⟨t₁, by simpa using hx, hg₁⟩,
                                    by simp, fun _ _ => hsame⟩
                              | ok t₂ =>
                                  obtain ⟨hg₂, hc⟩ := write_grown hw
                                  have hg := hg₁.trans hg₂
                                  simp only [World.setLive_live, hw]
                                  refine ⟨t₂, rfl, hg, fun x hx => ?_, fun _ => ?_, by simp⟩
                                  · simp only [Prog.run_write, Prog.run_pure, List.append_nil,
                                      List.mem_cons, List.not_mem_nil, or_false] at hx
                                    rcases hx with rfl | rfl
                                    · exact ⟨t₁, rfl, hg₁⟩
                                    · exact ⟨t₂, rfl, hg⟩
                                  · rw [hc, newContent, ht]
                                    simp [hb, Except.toOption]

/-! ## The loop -/

variable (env commitHash) in
/-- The loop applies a prefix of the operations and leaves the others' files alone. -/
theorem applyOperations_run {ops : List ApplyOperation} (hops : PathsApart ops) (i : Nat)
    (w : World) :
    ∃ (t : Tree String Bytes) (n : Nat) (err : Option String),
      ((applyOperations env commitHash i ops).run w).final = w.setLive t ∧
      ((applyOperations env commitHash i ops).run w).result = .ok (n, err) ∧
      (err = none → n = ops.length) ∧
      Grown ops w.live t ∧
      (∀ x ∈ ((applyOperations env commitHash i ops).run w).trail,
        ∃ t' : Tree String Bytes, x = w.setLive t' ∧ Grown ops w.live t') ∧
      (∀ op ∈ ops.take n, t.content op.path = newContent env commitHash op) ∧
      ∀ op ∈ ops.drop n, t.content op.path = w.live.content op.path := by
  induction ops generalizing i w with
  | nil =>
      exact ⟨w.live, 0, none, rfl, rfl, fun _ => rfl, Grown.refl _ _, by simp [applyOperations],
        by simp, by simp⟩
  | cons op ops ih =>
      obtain ⟨hop, hrest⟩ := List.pairwise_cons.mp hops
      have hsub : [op] ⊆ op :: ops := by simp
      obtain ⟨t₁, hfin, hg₁, htrail, hdone, hfailed⟩ :=
        applyOperation_run env commitHash i op w
      have hkeep : ∀ x ∈ ops, t₁.content x.path = w.live.content x.path := by
        intro x hx
        refine hg₁.content fun y hy => ?_
        rw [List.mem_singleton.mp hy]
        exact (hop x hx).ne
      simp only [applyOperations, Prog.run_attempt_bind]
      cases hres : ((applyOperation env commitHash i op).run w).result with
      | error e =>
          refine ⟨t₁, 0, some e, by simp [hfin], by simp, by simp, hg₁.mono hops hsub,
            fun x hx => ?_, by simp, fun x hx => ?_⟩
          · obtain ⟨t', rfl, hg'⟩ := htrail x (by simpa using hx)
            exact ⟨t', rfl, hg'.mono hops hsub⟩
          · rcases List.mem_cons.mp hx with rfl | hx
            · exact Tree.content_eq_of_node_eq (hfailed e hres)
            · exact hkeep x hx
      | ok u =>
          obtain ⟨t, n, err, hfin', hres', hlen, hg, htrail', htake, hdrop⟩ :=
            ih hrest (i + 1) (w.setLive t₁)
          have hall := (hg₁.mono hops hsub).trans (hg.mono hops (List.subset_cons_self _ _))
          simp only [hfin, Prog.run_bind_ok hres', hfin']
          refine ⟨t, n + 1, err, rfl, rfl, fun he => by simp [hlen he], hall, fun x hx => ?_,
            fun x hx => ?_, fun x hx => ?_⟩
          · rcases List.mem_append.mp hx with hx | hx
            · obtain ⟨t', rfl, hg'⟩ := htrail x hx
              exact ⟨t', rfl, hg'.mono hops hsub⟩
            · obtain ⟨t', rfl, hg'⟩ := htrail' x (by simpa using hx)
              exact ⟨t', rfl, (hg₁.mono hops hsub).trans
                (hg'.mono hops (List.subset_cons_self _ _))⟩
          · rcases List.mem_cons.mp hx with rfl | hx
            · rw [← hdone hres]
              exact hg.content fun y hy => (hop y hy).ne.symm
            · exact htake x hx
          · rw [hdrop x hx]
            exact hkeep x (List.mem_of_mem_drop hx)

/-! ## Prepared operations -/

/-- An operation names a file of the workspace and saved what it held. -/
structure OpReady (t : Tree String Bytes) (files : PreImages) (op : ApplyOperation) : Prop where
  named : op.path ≠ []
  existed : op.existedBefore = true → op.backupPath = some op.path ∧
    ∃ d, t.node op.path = some (.file d) ∧ files.lookup op.path = some d
  absent : op.existedBefore = false → t.node op.path = none

structure OpsReady (t : Tree String Bytes) (files : PreImages) (ops : List ApplyOperation) :
    Prop where
  apart : PathsApart ops
  each : ∀ op ∈ ops, OpReady t files op

theorem PathsApart.ne_dropLast {ops : List ApplyOperation} (h : PathsApart ops)
    {op op' : ApplyOperation} (hop : op ∈ ops) (hop' : op' ∈ ops) (hn : op'.path ≠ []) :
    op.path ≠ op'.path.dropLast := by
  by_cases he : op.path = op'.path
  · rw [he]
    intro hd
    have hlen := congrArg List.length hd
    have hpos := List.length_pos_of_ne_nil hn
    rw [List.length_dropLast] at hlen
    omega
  · have hpw : (ops.map ApplyOperation.path).Pairwise Apart := List.pairwise_map.mpr h
    exact (hpw.forall (List.mem_map_of_mem hop) (List.mem_map_of_mem hop') he).ne_dropLast

/-- From any crash point of an apply, undoing an operation whose pre-image is
readable puts its path back as it was. -/
theorem restoredNode_of_grown {stage : Stage} {i : Nat} {files : PreImages}
    {t₀ t : Tree String Bytes} {ops : List ApplyOperation} {op : ApplyOperation}
    (hready : OpsReady t₀ files ops) (hg : Grown ops t₀ t) (hop : op ∈ ops)
    (hw : env.fault (.restoreWrite stage i) = none)
    (hr : env.fault (.restoreRemove stage i) = none)
    (hrest : restorable env stage i files op = true) :
    restoredNode env stage i files t op = t₀.node op.path := by
  obtain ⟨hnamed, hexisted, habsent⟩ := hready.each op hop
  have hfile := hg.files op hop
  cases he : op.existedBefore with
  | true =>
      obtain ⟨hbackup, d, hnode, hlookup⟩ := hexisted he
      have hpre : preImage env stage i files op = .ok d := by
        simp only [restorable, he, Bool.not_true, Bool.false_or] at hrest
        unfold preImage at hrest ⊢
        rw [hbackup] at hrest ⊢
        simp only [hlookup] at hrest ⊢
        cases hf : env.fault (.restoreRead stage i) with
        | none => rfl
        | some e =>
            rw [hf] at hrest
            cases hrest
      have hparent : t.isDir op.path.dropLast = true := by
        have hdir := Tree.node_dropLast (t := t₀) (p := op.path) (by rw [hnode]; simp)
        rw [Tree.isDir_eq_true]
        rcases hg.frame op.path.dropLast
          (fun x hx => hready.apart.ne_dropLast hx hop hnamed) with hsame | ⟨hnone, -, -⟩
        · rw [hsame, hdir]
        · rw [hdir] at hnone
          cases hnone
      have hnotdir : t.isDir op.path = false := by
        rw [Bool.eq_false_iff, ne_eq, Tree.isDir_eq_true]
        rcases hfile with h | h | ⟨d', h⟩ <;> rw [h]
        · rw [hnode]; simp
        · simp
        · simp
      simp only [restoredNode, he, if_true, hpre, restoreWritable, hw, hparent, hnotdir,
        Option.isNone_none, Bool.not_false, Bool.and_true, Bool.true_and, decide_eq_true_eq]
      rw [if_pos hnamed, hnode]
  | false =>
      have hnode := habsent he
      have hchild : t.hasChild op.path = false := by
        refine Tree.hasChild_eq_false_of_not_dir ?_
        rcases hfile with h | h | ⟨d', h⟩ <;> rw [h]
        · rw [hnode]; simp
        · simp
        · simp
      simp [restoredNode, he, hr, hnamed, hchild, hnode]

/-! ## Phases -/

/-- Where the two stores stand while an apply executes. -/
inductive ApplyPhase where
  | journaled | applying | rollingBack | rolledBack | reset | incomplete | recoveryRequired
  | committed | applied
  deriving DecidableEq, Repr

namespace ApplyPhase

def journal : ApplyPhase → JournalStatus
  | .journaled | .applying | .rollingBack => .applying
  | .rolledBack | .reset => .rolledBack
  | .incomplete | .recoveryRequired => .failed
  | .committed | .applied => .applied

def state : ApplyPhase → MigrationState
  | .journaled | .reset => .readyForReview
  | .applying | .committed => .applying
  | .rollingBack | .rolledBack | .incomplete => .rollingBack
  | .recoveryRequired => .recoveryRequired
  | .applied => .applied

/-- What the operations' files hold once the phase is settled. -/
def content (env : Env) (commitHash : String) (t₀ : Tree String Bytes) (op : ApplyOperation) :
    ApplyPhase → Option (Option Bytes)
  | .rolledBack | .reset => some (t₀.content op.path)
  | .committed | .applied => some (newContent env commitHash op)
  | _ => none

end ApplyPhase

/-- The in-process rollback never fails to change the workspace. -/
def Env.RollbackWrites (env : Env) : Prop :=
  ∀ i, env.fault (.restoreWrite .apply i) = none ∧ env.fault (.restoreRemove .apply i) = none

/-- The in-process rollback reads every pre-image. -/
def Env.RollbackReads (env : Env) : Prop := ∀ i, env.fault (.restoreRead .apply i) = none

/-- A journal of the apply of these operations, with a status. -/
structure JournalOf (commit : String) (ops : List ApplyOperation) (st : JournalStatus)
    (j : StoredApplyJournal) : Prop where
  status : j.status = st
  commitHash : j.commitHash = commit
  paths : (j.operations.map ApplyOperation.path).Sublist (ops.map ApplyOperation.path)
  operations : st.interrupted = true → j.operations = ops

/-- A state in a phase of the apply that was prepared in `w`. The files of a
closed rollback are as before when the rollback could write them. -/
structure InPhase (env : Env) (migrationID commitHash : String) (ops : List ApplyOperation)
    (w : World) (phase : ApplyPhase) (x : World) : Prop where
  journal : ∃ j, x.journal = some j ∧ JournalOf commitHash ops phase.journal j
  state : x.stateOf migrationID = some phase.state
  grown : Grown ops w.live x.live
  content : (phase.journal = .rolledBack → env.RollbackWrites) → ∀ op ∈ ops, ∀ c,
    phase.content env commitHash w.live op = some c → x.live.content op.path = c
  preImages : x.preImages = w.preImages

/-- A phase that only an unreadable pre-image leads to. -/
def ApplyPhase.unreadable : ApplyPhase → Bool
  | .incomplete | .recoveryRequired => true
  | _ => false

/-- With every pre-image saved and readable all operations are restorable. -/
theorem OpsReady.restorable {stage : Stage} {t₀ : Tree String Bytes} {files : PreImages}
    {ops : List ApplyOperation} (hready : OpsReady t₀ files ops)
    (hreads : ∀ i, env.fault (.restoreRead stage i) = none) {op : ApplyOperation} (hop : op ∈ ops)
    (i : Nat) : restorable env stage i files op = true := by
  cases he : op.existedBefore with
  | false => simp [Operator.restorable, he]
  | true =>
      obtain ⟨hbackup, d, -, hlookup⟩ := (hready.each op hop).existed he
      simp [Operator.restorable, preImage, hbackup, hreads i, hlookup, Except.isOk, Except.toBool]

theorem all_restoredOps {stage : Stage} {files : PreImages} {ops : List ApplyOperation} :
    (restoredOps env stage files ops).all id = true ↔
      ∀ x ∈ ops.zipIdx, Operator.restorable env stage x.2 files x.1 = true := by
  simp [restoredOps, List.all_eq_true]

/-- Undoing the applied prefix puts back what every operation's file held. -/
theorem rolledBack_content {ops : List ApplyOperation} {w : World} {t t' : Tree String Bytes}
    {n : Nat} (hready : OpsReady w.live w.preImages ops) (hwrites : env.RollbackWrites)
    (hg : Grown ops w.live t)
    (hdrop : ∀ op ∈ ops.drop n, t.content op.path = w.live.content op.path)
    (hback : RolledBack env .apply 0 w.preImages (ops.take n) t t')
    (hall : (restoredOps env .apply w.preImages (ops.take n)).all id = true) :
    ∀ op ∈ ops, t'.content op.path = w.live.content op.path := by
  have hsplit := hready.apart
  rw [← List.take_append_drop n ops, PathsApart, List.pairwise_append] at hsplit
  intro op hop
  rw [← List.take_append_drop n ops] at hop
  rcases List.mem_append.mp hop with hop | hop
  · obtain ⟨k, hk⟩ := exists_index hop 0
    refine Tree.content_eq_of_node_eq ?_
    rw [hback.restored (op, k) hk]
    exact restoredNode_of_grown hready hg (List.mem_of_mem_take hop) (hwrites k).1 (hwrites k).2
      (all_restoredOps.mp hall (op, k) hk)
  · rw [← hdrop op hop]
    exact Tree.content_eq_of_node_eq
      (hback.frame op.path fun x hx => (hsplit.2.2 x hx op hop).ne)

/-- The phases of the two records that close an apply or its rollback. -/
structure ApplyPhase.Closes (src p q : ApplyPhase) : Prop where
  state : p.state = src.state
  journal : q.journal = p.journal
  valid : isValidStateTransition p.state q.state = true

/-- A settled workspace is recorded first in the journal, then in the state. -/
theorem recordOutcome_inPhase {ops : List ApplyOperation} {w x : World} {j : StoredApplyJournal}
    {src p q : ApplyPhase} (hx : InPhase env migrationID commitHash ops w src x)
    (hdir : x.applyDir = true) (hs : JournalOf commitHash ops p.journal j) (hc : src.Closes p q)
    (hcontent : (p.journal = .rolledBack → env.RollbackWrites) → ∀ op ∈ ops, ∀ c,
      p.content env commitHash w.live op = some c ∨ q.content env commitHash w.live op = some c →
      x.live.content op.path = c) :
    (∀ y ∈ ((recordOutcome migrationID j q.state).run x).trail,
        InPhase env migrationID commitHash ops w p y ∨
          InPhase env migrationID commitHash ops w q y) ∧
      InPhase env migrationID commitHash ops w q
        ((recordOutcome migrationID j q.state).run x).final := by
  have hjournal : (x.putJournal j).journal = some j := World.putJournal_journal _ _ hdir
  have hst : (x.putJournal j).stateOf migrationID = some p.state := by
    rw [World.stateOf_putJournal, hx.state, hc.state]
  have hinP : InPhase env migrationID commitHash ops w p (x.putJournal j) := by
    refine ⟨⟨j, hjournal, hs⟩, hst, ?_, ?_, ?_⟩
    · simpa using hx.grown
    · intro hw op hop c hc'
      rw [World.putJournal_live]
      exact hcontent hw op hop c (Or.inl hc')
    · simpa using hx.preImages
  have hinQ : InPhase env migrationID commitHash ops w q
      ((x.putJournal j).tryState migrationID q.state none) := by
    refine ⟨⟨j, ?_, hc.journal ▸ hs⟩, ?_, ?_, ?_, ?_⟩
    · rw [World.tryState_journal, hjournal]
    · rw [World.stateOf_tryState hst, if_pos hc.valid]
    · simpa using hx.grown
    · intro hw op hop c hc'
      rw [World.tryState_live, World.putJournal_live]
      exact hcontent (hc.journal ▸ hw) op hop c (Or.inr hc')
    · simpa using hx.preImages
  obtain ⟨hfin, -, htrail⟩ := recordOutcome_run migrationID j q.state x
  refine ⟨fun y hy => ?_, hfin ▸ hinQ⟩
  rcases htrail y hy with rfl | rfl
  · exact Or.inl hinP
  · exact Or.inr hinQ

/-- The rollback after an error, from the tree the loop left. -/
theorem rollBackApply_run {ops : List ApplyOperation} {w x : World} {j : StoredApplyJournal}
    {n : Nat} {e : String} (hready : OpsReady w.live w.preImages ops)
    (hx : InPhase env migrationID commitHash ops w .applying x)
    (hj : x.journal = some j) (hdir : x.applyDir = true)
    (hdrop : ∀ op ∈ ops.drop n, x.live.content op.path = w.live.content op.path) :
    (∀ y ∈ ((rollBackApply env migrationID j n e).run x).trail, ∃ phase,
        InPhase env migrationID commitHash ops w phase y ∧
          (phase.unreadable = true → ¬ env.RollbackReads)) ∧
      ∃ msg phase, ((rollBackApply env migrationID j n e).run x).result = .error msg ∧
        InPhase env migrationID commitHash ops w phase
          ((rollBackApply env migrationID j n e).run x).final ∧
        (phase = .reset ∨ (phase = .recoveryRequired ∧ ¬ env.RollbackReads)) := by
  obtain ⟨⟨j', hj', hjof⟩, hstate, hgrown, -, hpre⟩ := hx
  obtain rfl : j' = j := Option.some.inj (hj'.symm.trans hj)
  obtain rfl : j'.operations = ops := hjof.operations rfl
  have hapart : PathsApart (j'.operations.take n) :=
    List.Pairwise.sublist (List.take_sublist _ _) hready.apart
  -- the state says that a rollback is under way
  have hfinal₁ : ((updateMigrationState migrationID .rollingBack none).run x).final =
      x.tryState migrationID .rollingBack none := ignore_updateMigrationState_final _ _ _ x
  have htrail₁ : ∀ y ∈ ((updateMigrationState migrationID .rollingBack none).run x).trail,
      y = x.tryState migrationID .rollingBack none := fun y hy =>
    ignore_updateMigrationState_trail hy
  have hstate₁ : (x.tryState migrationID .rollingBack none).stateOf migrationID =
      some .rollingBack := World.stateOf_tryState hstate
  have hlive₁ := x.tryState_live migrationID .rollingBack none
  have hpre₁ := (x.tryState_preImages migrationID .rollingBack none).trans hpre
  have hjournal₁ := (x.tryState_journal migrationID .rollingBack none).trans hj
  have hdir₁ := (x.tryState_applyDir migrationID .rollingBack none).trans hdir
  generalize x.tryState migrationID .rollingBack none = x₁ at *
  have hrolling : ∀ t, Grown (j'.operations.take n) x.live t →
      InPhase env migrationID commitHash j'.operations w .rollingBack (x₁.setLive t) := fun t ht =>
    ⟨⟨j', hjournal₁, hjof⟩, hstate₁,
      hgrown.trans (ht.mono hready.apart (List.take_subset _ _)), by simp [ApplyPhase.content], hpre₁⟩
  obtain ⟨t, hfin, hres, hback, htrail⟩ :=
    forDown_restoreOperation_run env .apply hapart 0 x₁
  rw [hlive₁] at hback
  rw [hpre₁] at hback hres
  change (_ = Except.ok (restoredOps env .apply w.preImages (j'.operations.take n))) at hres
  have hcontent := fun hwrites => rolledBack_content hready hwrites hgrown hdrop hback
  have hreads : ¬ (restoredOps env .apply w.preImages (j'.operations.take n)).all id = true →
      ¬ env.RollbackReads := by
    intro hnot hreads
    refine hnot (all_restoredOps.mpr fun y hy => ?_)
    exact hready.restorable hreads (List.mem_of_mem_take (List.fst_mem_of_mem_zipIdx hy)) y.2
  have hx₂ := hrolling t hback.grown
  have hprefix : ∀ y, y ∈ ((updateMigrationState migrationID .rollingBack none).run x).trail ∨
      y ∈ ((Prog.forDown (restoreOperation env .apply) 0 (j'.operations.take n)).run x₁).trail →
      InPhase env migrationID commitHash j'.operations w .rollingBack y := by
    rintro y (hy | hy)
    · rw [htrail₁ y hy]
      exact hrolling x₁.live (hlive₁ ▸ Grown.refl _ _)
    · obtain ⟨t', rfl, hg'⟩ := htrail y hy
      exact hrolling t' (hlive₁ ▸ hg')
  generalize restoredOps env .apply w.preImages (j'.operations.take n) = restored at *
  simp only [rollBackApply, Prog.run_ignore_bind, hfinal₁, restoreOperations]
  rw [Prog.run_bind_ok hres, hfin]
  -- the two records that close the rollback
  have hclose : ∀ (j₁ : StoredApplyJournal) (p q : ApplyPhase) (msg : String),
      JournalOf commitHash j'.operations p.journal j₁ → ApplyPhase.rollingBack.Closes p q →
      ((p.journal = .rolledBack → env.RollbackWrites) → ∀ op ∈ j'.operations, ∀ c,
        p.content env commitHash w.live op = some c ∨
          q.content env commitHash w.live op = some c → t.content op.path = c) →
      (p.unreadable = true ∨ q.unreadable = true → ¬ env.RollbackReads) →
      ∀ k : Action Unit, k = (do
        recordOutcome migrationID j₁ q.state
        Prog.fail msg) →
      (∀ y ∈ ((updateMigrationState migrationID .rollingBack none).run x).trail ++
          (((Prog.forDown (restoreOperation env .apply) 0 (j'.operations.take n)).run x₁).trail ++
            (k.run (x₁.setLive t)).trail), ∃ phase,
          InPhase env migrationID commitHash j'.operations w phase y ∧
            (phase.unreadable = true → ¬ env.RollbackReads)) ∧
        (k.run (x₁.setLive t)).result = .error msg ∧
        InPhase env migrationID commitHash j'.operations w q (k.run (x₁.setLive t)).final := by
    rintro j₁ p q msg hs hc hcont hun k rfl
    obtain ⟨htr, hf⟩ := recordOutcome_inPhase hx₂ hdir₁ hs hc hcont
    rw [Prog.run_bind_ok (recordOutcome_run migrationID j₁ q.state (x₁.setLive t)).2.1]
    refine ⟨fun y hy => ?_, rfl, hf⟩
    rcases List.mem_append.mp hy with hy | hy
    · exact ⟨_, hprefix y (Or.inl hy), by simp [ApplyPhase.unreadable]⟩
    · rcases List.mem_append.mp hy with hy | hy
      · exact ⟨_, hprefix y (Or.inr hy), by simp [ApplyPhase.unreadable]⟩
      · rcases List.mem_append.mp hy with hy | hy
        · rcases htr y hy with h | h
          · exact ⟨p, h, fun hu => hun (Or.inl hu)⟩
          · exact ⟨q, h, fun hu => hun (Or.inr hu)⟩
        · cases hy
  by_cases hall : restored.all id = true
  · obtain ⟨htr, hr, hf⟩ := hclose { j' with
        operations := markRestored (j'.operations.take n) restored ++ j'.operations.drop n
        updatedAt := env.now, status := .rolledBack } .rolledBack .reset
      ("apply failed and rolled back cleanly: " ++ e)
      ⟨rfl, hjof.commitHash, markRestored_append_drop _ _ _, (by intro h; cases h)⟩ ⟨rfl, rfl, rfl⟩
      (by rintro hw op hop c (⟨⟨⟩⟩ | ⟨⟨⟩⟩) <;> exact hcontent (hw rfl) hall op hop)
      (by simp [ApplyPhase.unreadable]) _ rfl
    simp only [hall, if_true]
    exact ⟨htr, _, .reset, hr, hf, Or.inl rfl⟩
  · obtain ⟨htr, hr, hf⟩ := hclose { j' with
        operations := markRestored (j'.operations.take n) restored ++ j'.operations.drop n
        updatedAt := env.now, status := .failed } .incomplete .recoveryRequired
      ("apply failed and rollback incomplete (entered recovery_required): " ++ e)
      ⟨rfl, hjof.commitHash, markRestored_append_drop _ _ _, (by intro h; cases h)⟩
      ⟨rfl, rfl, rfl⟩ (by simp [ApplyPhase.content]) (fun _ => hreads hall) _ rfl
    simp only [if_neg hall]
    exact ⟨htr, _, .recoveryRequired, hr, hf, Or.inr ⟨rfl, hreads hall⟩⟩

/-- The apply loop with what follows it, from a journaled state. -/
theorem runOperations_run {ops : List ApplyOperation} {w x : World} {j : StoredApplyJournal}
    (hready : OpsReady w.live w.preImages ops)
    (hx : InPhase env migrationID j.commitHash ops w .applying x) (hlive : x.live = w.live)
    (hj : x.journal = some j) (hdir : x.applyDir = true) :
    (∀ y ∈ ((runOperations env migrationID j).run x).trail, ∃ phase,
        InPhase env migrationID j.commitHash ops w phase y ∧
          (phase.unreadable = true → ¬ env.RollbackReads)) ∧
      ∃ phase, InPhase env migrationID j.commitHash ops w phase
          ((runOperations env migrationID j).run x).final ∧
        ((((runOperations env migrationID j).run x).result = .ok () ∧ phase = .applied) ∨
          ∃ msg, ((runOperations env migrationID j).run x).result = .error msg ∧
            (phase = .reset ∨ (phase = .recoveryRequired ∧ ¬ env.RollbackReads))) := by
  have hops : j.operations = ops := by
    obtain ⟨j', hj', hjof⟩ := hx.journal
    rw [hj] at hj'
    obtain rfl := Option.some.inj hj'
    exact hjof.operations rfl
  obtain ⟨t, n, err, hfin, hres, hlen, hg, htrail, htake, hdrop⟩ :=
    applyOperations_run env j.commitHash hready.apart 0 x
  rw [← hops] at hfin hres hlen htrail
  rw [hlive] at hg hdrop htrail
  have hphase : ∀ t', Grown ops w.live t' →
      InPhase env migrationID j.commitHash ops w .applying (x.setLive t') := fun t' ht' =>
    ⟨hx.journal, hx.state, ht', by simp [ApplyPhase.content], hx.preImages⟩
  simp only [runOperations]
  rw [Prog.run_bind_ok hres, hfin]
  have hloop : ∀ y ∈ ((applyOperations env j.commitHash 0 j.operations).run x).trail,
      ∃ phase, InPhase env migrationID j.commitHash ops w phase y ∧
        (phase.unreadable = true → ¬ env.RollbackReads) := by
    intro y hy
    obtain ⟨t', rfl, hg'⟩ := htrail y hy
    exact ⟨.applying, hphase t' (hops ▸ hg'), by simp [ApplyPhase.unreadable]⟩
  cases err with
  | some e =>
      obtain ⟨htr, msg, phase, hr, hf, hor⟩ := rollBackApply_run (e := e) hready
        (hphase t hg) hj hdir hdrop
      refine ⟨fun y hy => ?_, phase, hf, Or.inr ⟨msg, hr, hor⟩⟩
      rcases List.mem_append.mp hy with hy | hy
      · exact hloop y hy
      · exact htr y hy
  | none =>
      have hcontent : ∀ op ∈ ops, t.content op.path = newContent env j.commitHash op := by
        rw [hlen rfl, hops, List.take_length] at htake
        exact htake
      have hjof : JournalOf j.commitHash ops ApplyPhase.committed.journal
          (appliedJournal j env.now) :=
        ⟨rfl, rfl, by simp [appliedJournal, hops, Function.comp_def], by intro h; cases h⟩
      obtain ⟨htr, hf⟩ := recordOutcome_inPhase (p := .committed) (q := .applied) (hphase t hg)
        hdir hjof ⟨rfl, rfl, rfl⟩
        (by rintro - op hop c (⟨⟨⟩⟩ | ⟨⟨⟩⟩) <;> exact hcontent op hop)
      refine ⟨fun y hy => ?_, .applied, hf, Or.inl ⟨?_, rfl⟩⟩
      · rcases List.mem_append.mp hy with hy | hy
        · exact hloop y hy
        · rcases htr y hy with h | h
          · exact ⟨_, h, by simp [ApplyPhase.unreadable]⟩
          · exact ⟨_, h, by simp [ApplyPhase.unreadable]⟩
      · exact (recordOutcome_run migrationID (appliedJournal j env.now) .applied (x.setLive t)).2.1

variable (env) in
/-- Every crash point of a prepared apply is in a phase, and so is its end,
unless the journal was never written. -/
theorem executeApply_run {ops : List ApplyOperation} {w : World} (plan : ApplyPlan)
    (hready : OpsReady w.live w.preImages ops) (hdir : w.applyDir = true) (hstate : w.stateOf migrationID = some .readyForReview) :
    (∀ y ∈ ((executeApply env migrationID plan ops).run w).trail, ∃ phase,
        InPhase env migrationID plan.revision.commitHash ops w phase y ∧
          (phase.unreadable = true → ¬ env.RollbackReads)) ∧
      ((∃ msg, ((executeApply env migrationID plan ops).run w).result = .error msg ∧
          ((executeApply env migrationID plan ops).run w).final = w) ∨
        ∃ phase, InPhase env migrationID plan.revision.commitHash ops w phase
            ((executeApply env migrationID plan ops).run w).final ∧
          ((((executeApply env migrationID plan ops).run w).result = .ok () ∧ phase = .applied) ∨
            ∃ msg, ((executeApply env migrationID plan ops).run w).result = .error msg ∧
              (phase = .reset ∨ (phase = .recoveryRequired ∧ ¬ env.RollbackReads)))) := by
  have hj : (w.putJournal (newJournal env migrationID plan ops)).journal =
      some (newJournal env migrationID plan ops) := World.putJournal_journal _ _ hdir
  have hst : (w.putJournal (newJournal env migrationID plan ops)).stateOf migrationID =
      some .readyForReview := by rw [World.stateOf_putJournal, hstate]
  have hjournaled : InPhase env migrationID plan.revision.commitHash ops w .journaled
      (w.putJournal (newJournal env migrationID plan ops)) :=
    ⟨⟨_, hj, rfl, rfl, List.Sublist.refl _, fun _ => rfl⟩, hst, by simpa using Grown.refl ops w.live,
      by simp [ApplyPhase.content], by simp⟩
  have hrun := updateMigrationState_run .applying none hst rfl
  have hx : InPhase env migrationID plan.revision.commitHash ops w .applying
      ((w.putJournal (newJournal env migrationID plan ops)).tryState migrationID .applying none) :=
    ⟨⟨_, by rw [World.tryState_journal, hj], rfl, rfl, List.Sublist.refl _, fun _ => rfl⟩,
      World.stateOf_tryState hst,
      by simpa using Grown.refl ops w.live, by simp [ApplyPhase.content], by simp⟩
  simp only [executeApply]
  cases env.fault .journal with
  | some e => exact ⟨by simp, Or.inl ⟨_, rfl, rfl⟩⟩
  | none =>
      obtain ⟨htr, hend⟩ := runOperations_run hready
        (j := newJournal env migrationID plan ops) hx (by simp) (by simp [hj]) (by simp [hdir])
      simp only [Prog.run_attempt_bind, writeJournal_run hdir, hrun]
      refine ⟨fun y hy => ?_, Or.inr hend⟩
      simp only [List.mem_append, List.mem_singleton] at hy
      rcases hy with rfl | rfl | hy
      · exact ⟨_, hjournaled, by simp [ApplyPhase.unreadable]⟩
      · exact ⟨_, hx, by simp [ApplyPhase.unreadable]⟩
      · exact htr y hy

end Openlia.Operator

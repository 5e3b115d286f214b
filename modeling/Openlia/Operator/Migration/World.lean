import Mathlib.Data.List.AList
import Openlia.Lib.Crash
import Openlia.Lib.FileTree
import Openlia.Operator.Migration.Jobs

/-! # The persistent state of one migration

What survives a crash: the migration's database, the live workspace, and the
directory `apply` with its journal and rollback pre-images. Database statements
do not fail; a call that names a missing row changes nothing.
-/

namespace Openlia.Operator

open Lib Crash

abbrev MigrationTable := Table Migration String Migration.id

/-- The database `migration.sqlite`. -/
structure Store where
  migrations : MigrationTable
  sources : List SourceEntry
  jobs : JobTable
  revisions : RevisionTable
  feedback : FeedbackTable
  deriving DecidableEq

/-- `SET state = ?, saved_phase = CASE WHEN ? != '' THEN ? ELSE saved_phase END`. -/
def Migration.moved (m : Migration) (state : MigrationState)
    (savedPhase : Option MigrationState) : Migration :=
  { m with state := state, savedPhase := savedPhase.or m.savedPhase }

@[simp] theorem Migration.moved_id (m : Migration) (state : MigrationState)
    (savedPhase : Option MigrationState) : (m.moved state savedPhase).id = m.id := rfl

namespace Store

/-- The column `state` of one migration. -/
def stateOf (s : Store) (id : String) : Option MigrationState :=
  (s.migrations.get id).map Migration.state

def mapMigration (s : Store) (id : String) (f : Migration → Migration)
    (hf : ∀ m, (f m).id = m.id) : Store :=
  { s with migrations := s.migrations.update (fun m => decide (m.id = id)) f hf }

theorem get_mapMigration (s : Store) (id : String) (f : Migration → Migration)
    (hf : ∀ m, (f m).id = m.id) :
    (s.mapMigration id f hf).migrations.get id = (s.migrations.get id).map f := by
  rw [mapMigration, Table.get_update]
  cases h : s.migrations.get id with
  | none => rfl
  | some m => simp [Table.key_of_get h]

@[simp] theorem mapMigration_jobs (s : Store) (id : String) (f : Migration → Migration)
    (hf : ∀ m, (f m).id = m.id) : (s.mapMigration id f hf).jobs = s.jobs := rfl

/-- `UpdateMigrationState`. -/
def updateMigrationState (s : Store) (id : String) (state : MigrationState)
    (savedPhase : Option MigrationState) : Except String Store :=
  match s.stateOf id with
  | some current =>
      if isValidStateTransition current state then
        .ok (s.mapMigration id (fun m => m.moved state savedPhase)
          fun m => m.moved_id state savedPhase)
      else
        .error ("invalid migration state transition from '" ++ current.text ++ "' to '" ++
          state.text ++ "'")
  | none => .ok s

/-- `SetStopIntent`. -/
def setStopIntent (s : Store) (id : String) (stop : Bool) : Store :=
  s.mapMigration id (fun m => { m with stopIntent := stop }) fun _ => rfl

@[simp] theorem get_setStopIntent (s : Store) (id : String) (stop : Bool) :
    (s.setStopIntent id stop).migrations.get id =
      (s.migrations.get id).map fun m => { m with stopIntent := stop } :=
  get_mapMigration _ _ _ _

/-- An update of the state changes the row's state and nothing but its saved phase. -/
theorem updateMigrationState_ok {s s' : Store} {id : String} {state : MigrationState}
    {savedPhase : Option MigrationState}
    (h : s.updateMigrationState id state savedPhase = .ok s') :
    s'.migrations.get id = (s.migrations.get id).map (fun m => m.moved state savedPhase) ∧
      s'.sources = s.sources ∧ s'.jobs = s.jobs ∧ s'.revisions = s.revisions ∧
      s'.feedback = s.feedback := by
  unfold updateMigrationState at h
  split at h
  · split at h
    · cases h
      exact ⟨get_mapMigration _ _ _ _, rfl, rfl, rfl, rfl⟩
    · cases h
  · rename_i hnone
    cases h
    rw [stateOf, Option.map_eq_none_iff] at hnone
    exact ⟨by rw [hnone]; rfl, rfl, rfl, rfl, rfl⟩

/-- The transition table alone decides whether a stored state is left. -/
theorem updateMigrationState_isOk {s : Store} {id : String} {current : MigrationState}
    (state : MigrationState) (savedPhase : Option MigrationState) (h : s.stateOf id = some current) :
    (∃ s', s.updateMigrationState id state savedPhase = .ok s') ↔
      isValidStateTransition current state = true := by
  simp only [updateMigrationState, h]
  split <;> simp_all

end Store

/-! ## The apply directory -/

inductive OpType where
  | write | delete
  deriving DecidableEq, Repr

inductive OpStatus where
  | pending | applied | rolledBack | failed
  deriving DecidableEq, Repr

/-- `ApplyOperation`; `backupPath` is relative to the rollback directory and
`none` for the empty string. -/
structure ApplyOperation where
  type : OpType
  path : Path
  existedBefore : Bool
  oldHash : String
  newHash : String
  backupPath : Option Path
  status : OpStatus
  deriving DecidableEq, Repr

/-- The status of a journal; `unset` is the empty string of a zero journal. -/
inductive JournalStatus where
  | unset | preparing | applying | inProgress | rollingBack | rolledBack | applied | failed
  | resolved
  deriving DecidableEq, Repr

/-- The statuses `ReconcileInterruptedApply` acts on. -/
def JournalStatus.interrupted : JournalStatus → Bool
  | .applying | .rollingBack | .inProgress => true
  | _ => false

structure StoredApplyJournal where
  id : String
  migrationID : String
  revisionID : String
  commitHash : String
  treeHash : String
  patchHash : String
  status : JournalStatus
  operations : List ApplyOperation
  createdAt : Instant
  updatedAt : Instant
  deriving DecidableEq, Repr

/-- `var journal StoredApplyJournal`. -/
def StoredApplyJournal.zero : StoredApplyJournal :=
  ⟨"", "", "", "", "", "", .unset, [], 0, 0⟩

/-- No operation's path lies at or below another's. -/
def PathsApart (ops : List ApplyOperation) : Prop :=
  ops.Pairwise fun a b => Apart a.path b.path

instance (ops : List ApplyOperation) : Decidable (PathsApart ops) := by
  unfold PathsApart
  infer_instance

/-- Rollback pre-images by their path below `apply/rollback`. -/
abbrev PreImages := AList fun _ : Path => Bytes

structure World where
  store : Store
  live : Tree String Bytes
  preImages : PreImages
  applyDir : Bool
  journal : Option StoredApplyJournal

/-- The operations of the journal on disk. -/
def World.journaledOps (w : World) : List ApplyOperation :=
  (w.journal.getD StoredApplyJournal.zero).operations

/-! ## Writes -/

abbrev Action := Prog World String

namespace World

def setStore (w : World) (s : Store) : World := { w with store := s }

def setLive (w : World) (t : Tree String Bytes) : World := { w with live := t }

def stateOf (w : World) (id : String) : Option MigrationState := w.store.stateOf id

/-- An update of the state whose error is dropped. -/
def tryState (w : World) (id : String) (state : MigrationState)
    (savedPhase : Option MigrationState) : World :=
  match w.store.updateMigrationState id state savedPhase with
  | .ok s => w.setStore s
  | .error _ => w

/-- A file of the directory `apply` is written only when the directory is there. -/
def putJournal (w : World) (j : StoredApplyJournal) : World :=
  if w.applyDir then { w with journal := some j } else w

section

variable (w : World) (id : String) (state : MigrationState) (savedPhase : Option MigrationState)
  (s : Store) (t : Tree String Bytes) (j : StoredApplyJournal)

@[simp] theorem setStore_live : (w.setStore s).live = w.live := rfl
@[simp] theorem setStore_preImages : (w.setStore s).preImages = w.preImages := rfl
@[simp] theorem setStore_applyDir : (w.setStore s).applyDir = w.applyDir := rfl
@[simp] theorem setStore_journal : (w.setStore s).journal = w.journal := rfl
@[simp] theorem setStore_store : (w.setStore s).store = s := rfl
@[simp] theorem setLive_live : (w.setLive t).live = t := rfl
@[simp] theorem setLive_preImages : (w.setLive t).preImages = w.preImages := rfl
@[simp] theorem setLive_applyDir : (w.setLive t).applyDir = w.applyDir := rfl
@[simp] theorem setLive_journal : (w.setLive t).journal = w.journal := rfl
@[simp] theorem setLive_store : (w.setLive t).store = w.store := rfl
@[simp] theorem setLive_setLive (t' : Tree String Bytes) :
    (w.setLive t).setLive t' = w.setLive t' := rfl
@[simp] theorem setLive_self : w.setLive w.live = w := rfl

/-- What is not the store is kept by an update of the state. -/
theorem tryState_eq : ∃ s, w.tryState id state savedPhase = w.setStore s ∧
    s.jobs = w.store.jobs := by
  unfold tryState
  split
  · rename_i s h
    exact ⟨s, rfl, (Store.updateMigrationState_ok h).2.2.1⟩
  · exact ⟨w.store, rfl, rfl⟩

@[simp] theorem tryState_live : (w.tryState id state savedPhase).live = w.live := by
  obtain ⟨s, h, -⟩ := w.tryState_eq id state savedPhase
  rw [h, setStore_live]

@[simp] theorem tryState_preImages :
    (w.tryState id state savedPhase).preImages = w.preImages := by
  obtain ⟨s, h, -⟩ := w.tryState_eq id state savedPhase
  rw [h, setStore_preImages]

@[simp] theorem tryState_applyDir : (w.tryState id state savedPhase).applyDir = w.applyDir := by
  obtain ⟨s, h, -⟩ := w.tryState_eq id state savedPhase
  rw [h, setStore_applyDir]

@[simp] theorem tryState_journal : (w.tryState id state savedPhase).journal = w.journal := by
  obtain ⟨s, h, -⟩ := w.tryState_eq id state savedPhase
  rw [h, setStore_journal]

@[simp] theorem putJournal_live : (w.putJournal j).live = w.live := by
  unfold putJournal; split <;> rfl

@[simp] theorem putJournal_preImages : (w.putJournal j).preImages = w.preImages := by
  unfold putJournal; split <;> rfl

@[simp] theorem putJournal_store : (w.putJournal j).store = w.store := by
  unfold putJournal; split <;> rfl

@[simp] theorem putJournal_applyDir : (w.putJournal j).applyDir = w.applyDir := by
  unfold putJournal; split <;> rfl

theorem putJournal_journal (h : w.applyDir = true) : (w.putJournal j).journal = some j := by
  rw [putJournal, if_pos h]

@[simp] theorem stateOf_putJournal : (w.putJournal j).stateOf id = w.stateOf id := by
  rw [stateOf, putJournal_store]; rfl

@[simp] theorem stateOf_setLive : (w.setLive t).stateOf id = w.stateOf id := rfl

end

/-- The row after an update of the state that the transition table allows. -/
theorem get_tryState {w : World} {id : String} {m : Migration}
    (hm : w.store.migrations.get id = some m) {state : MigrationState}
    {savedPhase : Option MigrationState} (hv : isValidStateTransition m.state state = true) :
    (w.tryState id state savedPhase).store.migrations.get id = some (m.moved state savedPhase) := by
  have hstate : w.store.stateOf id = some m.state := by simp [Store.stateOf, hm]
  obtain ⟨s, hs⟩ := (Store.updateMigrationState_isOk state savedPhase hstate).mpr hv
  rw [tryState, hs]
  simp [(Store.updateMigrationState_ok hs).1, hm]

/-- The state after an update whose error is dropped: the transition table decides. -/
theorem stateOf_tryState {w : World} {id : String} {state current : MigrationState}
    {savedPhase : Option MigrationState} (h : w.stateOf id = some current) :
    (w.tryState id state savedPhase).stateOf id =
      some (if isValidStateTransition current state then state else current) := by
  unfold tryState
  cases hu : w.store.updateMigrationState id state savedPhase with
  | error e =>
      have hno : ¬ isValidStateTransition current state = true := by
        rw [← Store.updateMigrationState_isOk state savedPhase h, hu]
        simp
      simp only [if_neg hno]
      exact h
  | ok s =>
      have hyes : isValidStateTransition current state = true := by
        rw [← Store.updateMigrationState_isOk state savedPhase h, hu]
        exact ⟨s, rfl⟩
      have hget := (Store.updateMigrationState_ok hu).1
      simp only [if_pos hyes, stateOf, setStore_store, Store.stateOf, hget, Option.map_map]
      simp only [stateOf, Store.stateOf, Option.map_eq_some_iff] at h
      obtain ⟨m, hm, -⟩ := h
      rw [hm]
      rfl

end World

/-- `db.UpdateMigrationState`. -/
def updateMigrationState (id : String) (state : MigrationState)
    (savedPhase : Option MigrationState) : Action Unit := do
  let w ← Prog.get
  match w.store.updateMigrationState id state savedPhase with
  | .error e => Prog.fail e
  | .ok s => Prog.write fun w => w.setStore s

/-- `db.SetStopIntent`. -/
def setStopIntent (id : String) (stop : Bool) : Action Unit :=
  Prog.write fun w => w.setStore (w.store.setStopIntent id stop)

/-- `AtomicWriteFile(journalPath, ...)`, which fails without the directory. -/
def writeJournal (j : StoredApplyJournal) : Action Unit := do
  let w ← Prog.get
  if w.applyDir then Prog.write fun w => w.putJournal j
  else Prog.fail "atomic replacement parent does not exist: no such file or directory"

theorem ignore_updateMigrationState_final (id : String) (state : MigrationState)
    (savedPhase : Option MigrationState) (w : World) :
    ((Prog.ignore (updateMigrationState id state savedPhase)).run w).final =
      w.tryState id state savedPhase := by
  simp only [updateMigrationState, Prog.run_ignore, Prog.run_get_bind, World.tryState]
  cases w.store.updateMigrationState id state savedPhase <;> rfl

/-- An update the transition table allows is one write. -/
theorem updateMigrationState_run {id : String} {current : MigrationState}
    (state : MigrationState) (savedPhase : Option MigrationState) {w : World} (h : w.stateOf id = some current)
    (hv : isValidStateTransition current state = true) :
    (updateMigrationState id state savedPhase).run w =
      ⟨[w.tryState id state savedPhase], w.tryState id state savedPhase, .ok ()⟩ := by
  obtain ⟨s, hs⟩ := (Store.updateMigrationState_isOk state savedPhase h).mpr hv
  simp only [updateMigrationState, Prog.run_get_bind, World.tryState, hs]
  rfl

/-- An update the transition table forbids fails and writes nothing. -/
theorem updateMigrationState_rejected {id : String} {current state : MigrationState}
    (savedPhase : Option MigrationState) {w : World} (h : w.stateOf id = some current)
    (hv : isValidStateTransition current state = false) :
    ∃ e, (updateMigrationState id state savedPhase).run w = ⟨[], w, .error e⟩ := by
  simp only [updateMigrationState, Prog.run_get_bind]
  cases hu : w.store.updateMigrationState id state savedPhase with
  | error e => exact ⟨e, rfl⟩
  | ok s =>
      have hok := (Store.updateMigrationState_isOk state savedPhase h).mp ⟨s, hu⟩
      rw [hv] at hok
      cases hok

theorem writeJournal_run {j : StoredApplyJournal} {w : World} (h : w.applyDir = true) :
    (writeJournal j).run w = ⟨[w.putJournal j], w.putJournal j, .ok ()⟩ := by
  simp only [writeJournal, Prog.run_get_bind, h, if_true]
  rfl

/-- A dropped update of the state has one crash point at most, its end. -/
theorem ignore_updateMigrationState_trail {id : String} {state : MigrationState}
    {savedPhase : Option MigrationState} {w t : World}
    (h : t ∈ ((Prog.ignore (updateMigrationState id state savedPhase)).run w).trail) :
    t = w.tryState id state savedPhase := by
  simp only [updateMigrationState, Prog.run_ignore, Prog.run_get_bind] at h
  cases hu : w.store.updateMigrationState id state savedPhase with
  | error e => simp [hu] at h
  | ok s =>
      simp only [hu, Prog.run_write, List.mem_singleton] at h
      rw [World.tryState, hu]
      exact h

/-- An update of the state has no other effect than `tryState`. -/
theorem updateMigrationState_keeps {I : World → Prop} {id : String} {state : MigrationState}
    {savedPhase : Option MigrationState} {w : World} (h : I (w.tryState id state savedPhase)) :
    (∀ x ∈ ((updateMigrationState id state savedPhase).run w).trail, I x) ∧
      I ((updateMigrationState id state savedPhase).run w).final := by
  have hfin : ((updateMigrationState id state savedPhase).run w).final =
      w.tryState id state savedPhase := ignore_updateMigrationState_final id state savedPhase w
  refine ⟨fun x hx => ?_, hfin ▸ h⟩
  rw [ignore_updateMigrationState_trail hx]
  exact h

theorem ignore_writeJournal_final (j : StoredApplyJournal) (w : World) :
    ((Prog.ignore (writeJournal j)).run w).final = w.putJournal j := by
  simp only [writeJournal, Prog.run_ignore, Prog.run_get_bind, World.putJournal]
  by_cases h : w.applyDir = true <;> simp [h]

theorem ignore_writeJournal_trail {j : StoredApplyJournal} {w t : World}
    (h : t ∈ ((Prog.ignore (writeJournal j)).run w).trail) : t = w.putJournal j := by
  simp only [writeJournal, Prog.run_ignore, Prog.run_get_bind] at h
  by_cases hd : w.applyDir = true
  · simpa [hd] using h
  · simp [hd] at h

end Openlia.Operator

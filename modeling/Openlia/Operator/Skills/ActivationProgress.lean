import Openlia.Operator.Skills.ActivationSafe

/-! # Recovery makes progress

Recovery refuses a stage with another hash and a first activation without a stage. No
state between two writes is refused, but a removal of the stage that stops half-way and
the deferred removal after a failed first activation leave such states for good.
-/

namespace Openlia.Skills

open Lib Crash

/-! ## Uninterrupted recoveries -/

/-- No call fails. -/
structure RecoveryCalls.Quiet (calls : RecoveryCalls) : Prop where
  readJournal : calls.readJournal = none
  hashCache : calls.hashCache = none
  hashStage : calls.hashStage = none
  hashPrevious : calls.hashPrevious = none
  moveBack : calls.moveBack = none
  moveIn : calls.moveIn = none
  removal : calls.removal.error = none
  refresh : calls.refresh = ⟨none, none⟩
  removeJournal : calls.removeJournal = none
  syncJournal : calls.syncJournal = none

def afterRecoveries (sha256 : Bytes → String) (m : MetaRoot) (rs : List RecoveryCalls) : MetaRoot :=
  rs.foldl (fun m calls => ((recoverCatalogActivation sha256 calls).run m).final) m

/-- One of any `n` uninterrupted recoveries in a row succeeds. -/
def ProgressesWithin (sha256 : Bytes → String) (n : Nat) (m : MetaRoot) : Prop :=
  ∀ rs : List RecoveryCalls, rs.length = n → (∀ calls ∈ rs, calls.Quiet) →
    ∃ pre calls post, rs = pre ++ calls :: post ∧
      ((recoverCatalogActivation sha256 calls).run (afterRecoveries sha256 m pre)).result = .ok ()

theorem progressesWithin_one {sha256 : Bytes → String} {m : MetaRoot}
    (h : ∀ calls : RecoveryCalls, calls.Quiet →
      ((recoverCatalogActivation sha256 calls).run m).result = .ok ()) :
    ProgressesWithin sha256 1 m := by
  intro rs hlength hquiet
  obtain ⟨calls, rfl⟩ := List.length_eq_one_iff.mp hlength
  exact ⟨[], calls, [], rfl, h calls (hquiet calls List.mem_cons_self)⟩

/-- A state in which recovery fails and changes nothing is there for good. -/
theorem not_progresses {sha256 : Bytes → String} {m : MetaRoot}
    (h : ∀ calls : RecoveryCalls, calls.Quiet → ∃ e,
      (recoverCatalogActivation sha256 calls).run m = ⟨[], m, .error e⟩) (n : Nat) :
    ¬ ProgressesWithin sha256 n m := by
  have hafter : ∀ rs : List RecoveryCalls, (∀ calls ∈ rs, calls.Quiet) →
      afterRecoveries sha256 m rs = m := by
    intro rs hquiet
    induction rs with
    | nil => rfl
    | cons calls rs ih =>
        obtain ⟨e, hrun⟩ := h calls (hquiet calls List.mem_cons_self)
        rw [afterRecoveries, List.foldl_cons, hrun]
        exact ih fun c hc => hquiet c (List.mem_cons_of_mem _ hc)
  intro hprogress
  have hcalls : ∃ calls : RecoveryCalls, calls.Quiet :=
    ⟨⟨none, none, none, none, none, none, ⟨[], none⟩, ⟨none, none⟩, none, none⟩,
      ⟨rfl, rfl, rfl, rfl, rfl, rfl, rfl, rfl, rfl, rfl⟩⟩
  obtain ⟨calls, hquiet⟩ := hcalls
  obtain ⟨pre, c, post, heq, hok⟩ := hprogress (List.replicate n calls) (List.length_replicate ..)
    fun c hc => (List.mem_replicate.mp hc).2 ▸ hquiet
  have hmem : ∀ x ∈ pre ++ c :: post, x.Quiet := fun x hx => by
    rw [← heq] at hx
    exact (List.mem_replicate.mp hx).2 ▸ hquiet
  rw [hafter pre fun x hx => hmem x (List.mem_append_left _ hx)] at hok
  obtain ⟨e, hrun⟩ := h c (hmem c (by simp))
  rw [hrun] at hok
  cases hok

/-! ## What recovery accepts -/

namespace Catalogs

/-- The hash of the new catalog, and names without a directory. -/
structure Digested (k : Catalogs) (sha256 : Bytes → String) (newHash : String) : Prop where
  stage : filepathBase k.stage = k.stage
  previous : filepathBase k.previous = k.previous
  new : templatesTreeHash sha256 k.new = .ok newHash
  size : newHash.utf8ByteSize = 64

section Steady

variable (k : Catalogs) (sha256 : Bytes → String) (newHash : String)

/-- The journal of the activation with its hashes. -/
structure Noted (j : CatalogActivation) : Prop extends k.Journals j where
  schema : j.Schema = 1
  new : j.NewHash = newHash
  old : ∀ old, k.old = some old → templatesTreeHash sha256 old = .ok j.OldHash

/-- A tree that hashes like the new catalog. -/
def LikeNew (e : Option MetaEntry) : Prop :=
  ∃ t, e = some (.tree t) ∧ templatesTreeHash sha256 t = .ok newHash

/-- The states with a journal that recovery goes on from. -/
inductive Standing (m : MetaRoot) : Prop
  | unmoved (old : Dir) (h : k.old = some old) (cache : m.dirs templatesCache = some (.tree old))
      (previous : m.dirs k.previous = none)
      (stage : m.dirs k.stage = none ∨ LikeNew sha256 newHash (m.dirs k.stage))
  | aside (old : Dir) (h : k.old = some old) (cache : m.dirs templatesCache = none)
      (previous : m.dirs k.previous = some (.tree old))
      (stage : m.dirs k.stage = none ∨ LikeNew sha256 newHash (m.dirs k.stage))
  | staged (h : k.old = none) (cache : m.dirs templatesCache = none)
      (stage : LikeNew sha256 newHash (m.dirs k.stage))
  | moved (cache : LikeNew sha256 newHash (m.dirs templatesCache)) (stage : m.dirs k.stage = none)

/-- A journal that recovery goes on from. -/
structure Pending (m : MetaRoot) : Prop where
  journal : ∃ j, m.activation = some (some j) ∧ k.Noted sha256 newHash j
  standing : k.Standing sha256 newHash m

def Steady (m : MetaRoot) : Prop := m.activation = none ∨ k.Pending sha256 newHash m

end Steady

/-! ## An uninterrupted recovery succeeds -/

section Quiet

variable {k : Catalogs} {sha256 : Bytes → String} {newHash : String} {m : MetaRoot}
  {calls : RecoveryCalls} {j : CatalogActivation}

theorem clear_ok (h : calls.Quiet) (m : MetaRoot) :
    ((clearCatalogActivation calls).run m).result = .ok () := by
  simp [clearCatalogActivation, h.removeJournal, h.syncJournal]

theorem finish_ok (h : calls.Quiet) (m : MetaRoot) (j : CatalogActivation) :
    ((finishCatalogActivation calls j).run m).result = .ok () := by
  have hwrite : ((writeCatalogState calls.refresh
      (·.refresh ⟨1, j.Previous ≠ "", j.NewHash, j.Previous⟩)).run m).result = .ok () := by
    simp [writeCatalogState, h.refresh]
  rw [finishCatalogActivation, Prog.run_bind_ok hwrite]
  exact clear_ok h _

theorem removePartly_ok (name : String) (ts : List Dir) (m : MetaRoot) :
    ((removePartly name ts).run m).result = .ok () := by
  induction ts generalizing m with
  | nil => rfl
  | cons t ts ih => exact ih _

theorem removeAll_ok {removal : Removal} (h : removal.error = none) (name : String)
    (m : MetaRoot) : ((removeAll name removal).run m).result = .ok () := by
  rw [removeAll, Prog.run_bind_ok (removePartly_ok name removal.partials m), h]
  rfl

theorem dropStage_ok (h : calls.Quiet) (j : CatalogActivation) (stageHash : Option String)
    (m : MetaRoot) : ((dropStage calls j stageHash).run m).result = .ok () := by
  rw [dropStage]
  cases stageHash with
  | none => exact clear_ok h m
  | some hash =>
      show (((removeAll j.Stage calls.removal) >>= fun _ =>
        clearCatalogActivation calls).run m).result = .ok ()
      rw [Prog.run_bind_ok (removeAll_ok h.removal _ m)]
      exact clear_ok h _

theorem rename_ok {source destination : String} (h : m.dirs source ≠ none) :
    (rename none source destination).run m =
      ⟨[m.move source destination], m.move source destination, .ok ()⟩ := by
  obtain ⟨e, he⟩ := Option.ne_none_iff_exists'.mp h
  simp [rename, he]

theorem hash_absent {e : Option MetaEntry} (h : e = none) :
    catalogDirectoryHash sha256 none e = .ok none := by
  rw [h]
  rfl

theorem hash_tree {e : Option MetaEntry} {t : Dir} {hash : String} (he : e = some (.tree t))
    (ht : templatesTreeHash sha256 t = .ok hash) :
    catalogDirectoryHash sha256 none e = .ok (some hash) := by
  rw [he]
  simp [catalogDirectoryHash, ht, Except.map]

/-- The stage is absent, or it is the new catalog. -/
theorem hash_stage {e : Option MetaEntry} (h : e = none ∨ LikeNew sha256 newHash e) :
    ∃ stageHash, catalogDirectoryHash sha256 none e = .ok stageHash ∧
      (stageHash = none ∨ stageHash = some newHash) := by
  rcases h with h | ⟨t, he, ht⟩
  · exact ⟨none, hash_absent h, .inl rfl⟩
  · exact ⟨some newHash, hash_tree he ht, .inr rfl⟩

theorem Noted.previous_eq (hnoted : k.Noted sha256 newHash j) {old : Dir} (h : k.old = some old) :
    j.Previous = k.previous := by
  rw [hnoted.previous, h]
  rfl

theorem Named.previous_ne_nil (hk : k.Named) : k.previous ≠ "" := by
  intro h
  exact absurd hk.previous (by rw [h]; decide)

theorem lift_ok {α : Type} (a : α) : (Prog.lift (.ok a) : CatalogAction α) = pure a := rfl

theorem resume_ok (hk : k.Named) (h : calls.Quiet) (hnoted : k.Noted sha256 newHash j)
    (hm : k.Standing sha256 newHash m) :
    ((resumeActivation sha256 calls j).run m).result = .ok () := by
  have hstageName := hnoted.stage
  unfold resumeActivation
  cases hm with
  | unmoved old hold hcache hprevious hstage =>
      rw [← hstageName] at hstage
      rw [← hnoted.previous_eq hold] at hprevious
      have hne : j.Previous ≠ "" := hnoted.previous_eq hold ▸ hk.previous_ne_nil
      obtain ⟨stageHash, hhash, hcases⟩ := hash_stage hstage
      have hany : stageHash.any (· ≠ j.NewHash) = false := by
        rcases hcases with rfl | rfl
        · rfl
        · simp [hnoted.new]
      simp only [Prog.run_get_bind, h.hashCache, h.hashStage, h.hashPrevious,
        hash_tree hcache (hnoted.old old hold), hhash, hash_absent hprevious, lift_ok,
        Prog.pure_bind', hany]
      -- the stage may be gone, and the old catalog may hash like the new one
      by_cases hfinish : j.OldHash = j.NewHash ∧ stageHash = none
      · simp only [if_pos hfinish]
        exact finish_ok h m j
      · simp only [if_neg hfinish, ne_eq, not_true_eq_false, false_or, if_neg hne]
        exact dropStage_ok h j stageHash m
  | aside old hold hcache hprevious hstage =>
      rw [← hstageName] at hstage
      rw [← hnoted.previous_eq hold] at hprevious
      have hne : j.Previous ≠ "" := hnoted.previous_eq hold ▸ hk.previous_ne_nil
      obtain ⟨stageHash, hhash, hcases⟩ := hash_stage hstage
      have hany : stageHash.any (· ≠ j.NewHash) = false := by
        rcases hcases with rfl | rfl
        · rfl
        · simp [hnoted.new]
      have hpresent : m.dirs j.Previous ≠ none := by simp [hprevious]
      simp only [Prog.run_get_bind, h.hashCache, h.hashStage, h.hashPrevious, h.moveBack,
        hash_absent hcache, hhash, hash_tree hprevious (hnoted.old old hold), lift_ok,
        Prog.pure_bind', hany, if_pos hne]
      rw [if_neg (by simp), if_neg (by simp), Prog.run_bind_ok (by rw [rename_ok hpresent])]
      exact dropStage_ok h j stageHash _
  | staged hold hcache hstage =>
      rw [← hstageName] at hstage
      have hempty : j.Previous = "" := by
        rw [hnoted.previous, hold]
        rfl
      obtain ⟨t, he, ht⟩ := hstage
      have hpresent : m.dirs j.Stage ≠ none := by simp [he]
      simp only [Prog.run_get_bind, h.hashCache, h.hashStage, h.moveIn, hash_absent hcache,
        hash_tree he ht, lift_ok, Prog.pure_bind', hempty]
      rw [if_neg (by simp [hnoted.new]), if_neg (by simp), if_neg (by simp),
        Prog.run_bind_ok (by rw [rename_ok hpresent])]
      exact finish_ok h _ j
  | moved hcache hstage =>
      rw [← hstageName] at hstage
      obtain ⟨t, he, ht⟩ := hcache
      simp only [Prog.run_get_bind, h.hashCache, h.hashStage, hash_tree he ht,
        hash_absent hstage, lift_ok, Prog.pure_bind']
      rw [if_neg (by simp), if_pos (by simp [hnoted.new])]
      exact finish_ok h m j

/-- A steady state is recovered at once. -/
theorem Steady.recovers (hk : k.Named) (hd : k.Digested sha256 newHash) (h : calls.Quiet)
    (hm : k.Steady sha256 newHash m) :
    ((recoverCatalogActivation sha256 calls).run m).result = .ok () := by
  unfold recoverCatalogActivation
  rw [h.readJournal]
  simp only [Prog.refuse_none, Prog.pure_bind', Prog.run_get_bind]
  rcases hm with hnone | ⟨⟨j, hj, hnoted⟩, hstanding⟩
  · rw [hnone]
    rfl
  · rw [hj]
    have hprevious : ¬ (j.Previous ≠ "" ∧ (filepathBase j.Previous ≠ j.Previous ∨
        hasPrefix j.Previous ".templates-previous-" = false)) := by
      rintro ⟨hne, hbad⟩
      rw [hnoted.toJournals.previous_eq hne] at hbad
      rcases hbad with hbad | hbad
      · exact hbad hd.previous
      · rw [hk.previous] at hbad
        cases hbad
    dsimp only
    rw [if_neg (by simp [hnoted.schema, hnoted.new, hd.size]),
      if_neg (by simp [hnoted.stage, hd.stage, hk.stage]), if_neg hprevious]
    exact resume_ok hk h hnoted hstanding

end Quiet

/-! ## Where a recovery may stop -/

/-- Nothing the removal leaves on its way hashes otherwise than the new catalog. -/
def Harmless (sha256 : Bytes → String) (newHash : String) (removal : Removal) : Prop :=
  ∀ t ∈ removal.partials, templatesTreeHash sha256 t = .ok newHash

section Stopping

variable {k : Catalogs} {sha256 : Bytes → String} {newHash : String} {m : MetaRoot}
  {calls : RecoveryCalls} {j : CatalogActivation} {removal : Removal}

/-- The stage is absent or like the new catalog. -/
def StageOk (k : Catalogs) (sha256 : Bytes → String) (newHash : String) (m : MetaRoot) : Prop :=
  m.dirs k.stage = none ∨ LikeNew sha256 newHash (m.dirs k.stage)

/-- The old catalog is in its place, whatever is left of the stage. -/
structure Back (k : Catalogs) (sha256 : Bytes → String) (newHash : String) (m : MetaRoot) :
    Prop where
  journal : ∃ j, m.activation = some (some j) ∧ k.Noted sha256 newHash j
  cache : ∃ old, k.old = some old ∧ m.dirs templatesCache = some (.tree old)
  previous : m.dirs k.previous = none

theorem Back.steady (h : k.Back sha256 newHash m) (hstage : k.StageOk sha256 newHash m) :
    k.Steady sha256 newHash m := by
  obtain ⟨old, hold, hcache⟩ := h.cache
  exact .inr ⟨h.journal, .unmoved old hold hcache h.previous hstage⟩

theorem Back.set_stage (hk : k.Named) (h : k.Back sha256 newHash m) (e : Option MetaEntry) :
    k.Back sha256 newHash (m.set k.stage e) := by
  obtain ⟨old, hold, hcache⟩ := h.cache
  exact ⟨h.journal, ⟨old, hold, (dirs_set_other hk.stage_ne_cache.symm).trans hcache⟩,
    (dirs_set_other hk.stage_ne_previous.symm).trans h.previous⟩

theorem Standing.congr {m' : MetaRoot} (h : k.Standing sha256 newHash m)
    (hd : m'.dirs = m.dirs) : k.Standing sha256 newHash m' := by
  cases h with
  | unmoved old h cache previous stage =>
      exact .unmoved old h (hd ▸ cache) (hd ▸ previous) (hd ▸ stage)
  | aside old h cache previous stage =>
      exact .aside old h (hd ▸ cache) (hd ▸ previous) (hd ▸ stage)
  | staged h cache stage => exact .staged h (hd ▸ cache) (hd ▸ stage)
  | moved cache stage => exact .moved (hd ▸ cache) (hd ▸ stage)

theorem Steady.refresh (h : k.Steady sha256 newHash m) (r : CatalogUIRefresh) :
    k.Steady sha256 newHash (m.refresh r) := by
  rcases h with h | h
  · exact .inl h
  · exact .inr ⟨h.journal, h.standing.congr rfl⟩

theorem clear_steady : Preserves (k.Steady sha256 newHash) (clearCatalogActivation calls) := by
  refine Preserves.bind Preserves.refuse fun _ => ?_
  refine Preserves.bind (Preserves.write fun m _ => ?_) fun _ => Preserves.refuse
  exact .inl rfl

theorem finish_steady :
    Preserves (k.Steady sha256 newHash) (finishCatalogActivation calls j) := by
  refine Preserves.bind ?_ fun _ => clear_steady
  refine Preserves.bind Preserves.refuse fun _ => ?_
  exact Preserves.bind (Preserves.write fun m h => h.refresh _) fun _ => Preserves.refuse

/-- What is left while the stage is removed. -/
def Removing (k : Catalogs) (sha256 : Bytes → String) (newHash : String) (removal : Removal)
    (m : MetaRoot) : Prop :=
  k.Back sha256 newHash m ∧ (Harmless sha256 newHash removal → k.StageOk sha256 newHash m)

theorem removePartly_spec (hk : k.Named) (ts : List Dir) (hts : ∀ t ∈ ts, t ∈ removal.partials) :
    Spec (k.Removing sha256 newHash removal) (removePartly k.stage ts)
      (k.Removing sha256 newHash removal) fun r m =>
      r = .ok () ∧ k.Removing sha256 newHash removal m := by
  induction ts with
  | nil => exact Spec.pure fun m h => ⟨rfl, h⟩
  | cons t ts ih =>
      have hset : ∀ m, k.Removing sha256 newHash removal m →
          k.Removing sha256 newHash removal (m.set k.stage (some (.tree t))) := by
        refine fun m h => ⟨h.1.set_stage hk _, fun hharmless => .inr ⟨t, ?_, ?_⟩⟩
        · exact Function.update_self _ _ _
        · exact hharmless t (hts t List.mem_cons_self)
      refine Spec.bind (Q := fun r m => r = .ok () ∧ k.Removing sha256 newHash removal m)
        (Spec.write hset fun m h => ⟨rfl, hset m h⟩) (fun _ => ?_) fun e m h => nomatch h.1
      exact (ih fun t ht => hts t (List.mem_cons_of_mem _ ht)).conseq (fun m h => h.2)
        (fun _ h => h) fun _ _ h => h

theorem removeAll_spec (hk : k.Named) :
    Spec (fun m => k.Back sha256 newHash m ∧ k.StageOk sha256 newHash m)
      (removeAll k.stage removal) (fun m => Harmless sha256 newHash removal →
        k.Steady sha256 newHash m) fun r m =>
      k.Removing sha256 newHash removal m ∧
        (r = .ok () ∨ removal.error = none → k.StageOk sha256 newHash m) := by
  have hpartly : Spec (fun m => k.Back sha256 newHash m ∧ k.StageOk sha256 newHash m)
      (removePartly k.stage removal.partials) (fun m => Harmless sha256 newHash removal →
        k.Steady sha256 newHash m) fun r m =>
        r = .ok () ∧ k.Removing sha256 newHash removal m :=
    (removePartly_spec hk removal.partials fun _ h => h).conseq
      (fun m h => ⟨h.1, fun _ => h.2⟩) (fun m h hharmless => h.1.steady (h.2 hharmless))
      fun _ _ h => h
  have hgone : ∀ m, k.Removing sha256 newHash removal m →
      k.Back sha256 newHash (m.set k.stage none) ∧
        k.StageOk sha256 newHash (m.set k.stage none) :=
    fun m h => ⟨h.1.set_stage hk none, .inl (Function.update_self _ _ _)⟩
  refine Spec.bind hpartly (fun _ => ?_) fun e m h => nomatch h.1
  refine Spec.bind Spec.refuse (fun _ => Spec.write ?_ ?_) fun e m h => ⟨h.1.2, fun hok => ?_⟩
  · exact fun m h _ => (hgone m h.1.2).1.steady (hgone m h.1.2).2
  · exact fun m h => ⟨⟨(hgone m h.1.2).1, fun _ => (hgone m h.1.2).2⟩, fun _ => (hgone m h.1.2).2⟩
  · rcases hok with hok | hok
    · cases hok
    · exact absurd (h.2.mpr hok) nofun

/-- What a step has to show: where it stops half-way the stage has to be harmless. -/
abbrev Steadily (k : Catalogs) (sha256 : Bytes → String) (newHash : String) (removal : Removal)
    (P : MetaRoot → Prop) {α : Type} (p : CatalogAction α) : Prop :=
  Spec P p (fun m => Harmless sha256 newHash removal → k.Steady sha256 newHash m) fun _ m =>
    Harmless sha256 newHash removal ∨ removal.error = none → k.Steady sha256 newHash m

theorem steadily_of_preserves {α : Type} {p : CatalogAction α} {P : MetaRoot → Prop}
    (h : Preserves (k.Steady sha256 newHash) p) (hP : ∀ m, P m → k.Steady sha256 newHash m) :
    k.Steadily sha256 newHash removal P p :=
  h.conseq hP (fun _ h _ => h) fun _ _ h _ => h

theorem dropStage_steady (hk : k.Named) (hj : k.Journals j) (stageHash : Option String) :
    k.Steadily sha256 newHash calls.removal
      (fun m => k.Back sha256 newHash m ∧ k.StageOk sha256 newHash m)
      (dropStage calls j stageHash) := by
  rw [dropStage, hj.stage]
  cases stageHash with
  | none => exact steadily_of_preserves clear_steady fun m h => h.1.steady h.2
  | some hash =>
      refine Spec.bind (removeAll_spec hk) (fun _ => ?_) fun e m h hsafe => ?_
      · exact steadily_of_preserves clear_steady fun m h => h.1.1.steady (h.2 (.inl rfl))
      · rcases hsafe with hharmless | hnone
        · exact h.1.1.steady (h.1.2 hharmless)
        · exact h.1.1.steady (h.2 (.inr hnone))

theorem Pending.noted (h : k.Pending sha256 newHash m) (hj : m.activation = some (some j)) :
    k.Noted sha256 newHash j := by
  obtain ⟨j', hj', hnoted⟩ := h.journal
  cases hj.symm.trans hj'
  exact hnoted

/-- The old catalog goes back, and the stage is what it was. -/
theorem Pending.moveBack (hk : k.Named) (h : k.Pending sha256 newHash m)
    (hcache : m.dirs templatesCache = none) (hsome : k.old ≠ none) :
    k.Back sha256 newHash (m.move k.previous templatesCache) ∧
      k.StageOk sha256 newHash (m.move k.previous templatesCache) := by
  have hstageEq : (m.move k.previous templatesCache).dirs k.stage = m.dirs k.stage :=
    dirs_move_other hk.stage_ne_previous hk.stage_ne_cache
  cases h.standing with
  | unmoved old _ cache _ _ => rw [hcache] at cache; cases cache
  | moved cache _ =>
      obtain ⟨t, he, -⟩ := cache
      rw [hcache] at he
      cases he
  | staged hold _ _ => exact absurd hold hsome
  | aside old hold _ previous stage =>
      refine ⟨⟨h.journal, ⟨old, hold, ?_⟩, dirs_move_source⟩, ?_⟩
      · exact (dirs_move_destination hk.previous_ne_cache).trans previous
      · rw [StageOk, hstageEq]
        exact stage

/-- The first catalog goes in. -/
theorem Pending.moveIn (hk : k.Named) (h : k.Pending sha256 newHash m)
    (hcache : m.dirs templatesCache = none) (hnone : k.old = none) :
    k.Steady sha256 newHash (m.move k.stage templatesCache) := by
  refine .inr ⟨h.journal, .moved ?_ dirs_move_source⟩
  cases h.standing with
  | unmoved old hold _ _ _ => rw [hnone] at hold; cases hold
  | aside old hold _ _ _ => rw [hnone] at hold; cases hold
  | moved cache _ =>
      obtain ⟨t, he, -⟩ := cache
      rw [hcache] at he
      cases he
  | staged _ _ stage =>
      rw [LikeNew, dirs_move_destination hk.stage_ne_cache]
      exact stage

theorem hash_of_tree {fault : Option String} {t : Dir} {hash : Option String}
    (heq : catalogDirectoryHash sha256 fault (some (.tree t)) = .ok hash) :
    ∃ x, hash = some x ∧ templatesTreeHash sha256 t = .ok x := by
  cases fault with
  | some e => cases heq
  | none =>
      cases ht : templatesTreeHash sha256 t with
      | error e => simp [catalogDirectoryHash, ht, Except.map] at heq
      | ok x =>
          simp only [catalogDirectoryHash, ht, Except.map, Except.ok.injEq] at heq
          exact ⟨x, heq.symm, rfl⟩

/-- A cache with a hash and no new catalog to finish: the old catalog is in its place. -/
theorem Pending.back (h : k.Pending sha256 newHash m) {cacheHash : String}
    {stageHash : Option String} {faultCache faultStage : Option String}
    (hcache : catalogDirectoryHash sha256 faultCache (m.dirs templatesCache) =
      .ok (some cacheHash))
    (hstage : catalogDirectoryHash sha256 faultStage (m.dirs k.stage) = .ok stageHash)
    (hnew : ¬ (cacheHash = newHash ∧ stageHash = none)) :
    k.Back sha256 newHash m ∧ k.StageOk sha256 newHash m := by
  have hpresent := hash_some hcache
  cases h.standing with
  | unmoved old hold cache previous stage => exact ⟨⟨h.journal, ⟨old, hold, cache⟩, previous⟩, stage⟩
  | aside _ _ cache _ _ => exact absurd cache hpresent
  | staged _ cache _ => exact absurd cache hpresent
  | moved cache stage =>
      obtain ⟨t, he, ht⟩ := cache
      rw [he] at hcache
      obtain ⟨x, hx, ht'⟩ := hash_of_tree hcache
      cases hx
      cases ht.symm.trans ht'
      rw [stage] at hstage
      refine absurd ⟨rfl, ?_⟩ hnew
      cases faultStage with
      | some e => cases hstage
      | none => exact (Except.ok.inj hstage).symm

theorem resume_steady (hk : k.Named) (hj : m.activation = some (some j)) (calls : RecoveryCalls)
    (hm : k.Pending sha256 newHash m) :
    k.Steadily sha256 newHash calls.removal (· = m) (resumeActivation sha256 calls j) := by
  have hnoted := hm.noted hj
  have hsteady : ∀ x, x = m → k.Steady sha256 newHash x := fun x h => h ▸ .inr hm
  have hfail : ∀ e : String, k.Steadily sha256 newHash calls.removal (· = m)
      (Prog.fail (α := Unit) e : CatalogAction Unit) :=
    fun e => Spec.fail fun x h _ => hsteady x h
  refine Spec.get_bind fun x hx => ?_
  obtain rfl := hx
  refine Spec.bind Spec.lift (fun cacheHash => ?_) fun e y h _ => hsteady y h.1
  refine Spec.bind Spec.lift (fun stageHash => ?_) fun e y h _ => hsteady y h.1.1
  refine Spec.of_pre fun y hy => ?_
  obtain ⟨⟨rfl, hcache⟩, hstage⟩ := hy
  rw [hnoted.stage] at hstage
  refine Spec.ite (fun _ => hfail _) fun _ => ?_
  cases cacheHash with
  | some cacheHash =>
      refine Spec.ite (fun _ => ?_) fun hnew => Spec.ite (fun _ => hfail _) fun _ => ?_
      · exact steadily_of_preserves finish_steady fun z h => hsteady z h
      · rw [hnoted.new] at hnew
        have hback := hm.back hcache.symm hstage.symm hnew
        split
        · exact (dropStage_steady hk hnoted.toJournals stageHash).conseq (fun z h => h ▸ hback)
            (fun _ h => h) fun _ _ h => h
        · exact hfail _
  | none =>
      have habsent := hash_none hcache.symm
      refine Spec.ite (fun hprevious => ?_) fun hprevious => Spec.ite (fun _ => hfail _) fun _ => ?_
      · have hsome : k.old ≠ none := by
          intro hold
          rw [hnoted.previous, hold] at hprevious
          exact hprevious rfl
        have hback := hm.moveBack hk habsent hsome
        refine Spec.bind Spec.lift (fun hash => ?_) fun e z h _ => hsteady z h.1
        refine Spec.of_pre fun z hz => ?_
        obtain ⟨rfl, -⟩ := hz
        refine Spec.ite (fun _ => hfail _) fun _ => ?_
        rw [hnoted.toJournals.previous_eq hprevious]
        refine Spec.bind (rename_spec (P := (· = z)) fun u (h : u = z) _ => h ▸
          hback.1.steady hback.2) (fun _ => ?_) fun e u h _ => hsteady u ?_
        · refine (dropStage_steady hk hnoted.toJournals stageHash).conseq (fun u h => ?_)
            (fun _ h => h) fun _ _ h => h
          obtain ⟨hno, -⟩ | ⟨-, u', rfl, rfl⟩ := h
          · exact absurd rfl hno
          · exact hback
        · exact (h.resolve_right fun h => nomatch h.1).2
      · have hnone : k.old = none := by
          by_contra hne
          obtain ⟨old, hold⟩ := Option.ne_none_iff_exists'.mp hne
          exact hprevious (hnoted.previous_eq hold ▸ hk.previous_ne_nil)
        have hin := hm.moveIn hk habsent hnone
        rw [hnoted.stage]
        refine Spec.bind (rename_spec (P := (· = y)) fun z (h : z = y) _ => h ▸ hin)
          (fun _ => ?_) fun e z h _ => hsteady z ?_
        · refine steadily_of_preserves finish_steady fun z h => ?_
          obtain ⟨hno, -⟩ | ⟨-, z', rfl, rfl⟩ := h
          · exact absurd rfl hno
          · exact hin
        · exact (h.resolve_right fun h => nomatch h.1).2

theorem recover_steady (hk : k.Named) (calls : RecoveryCalls) :
    k.Steadily sha256 newHash calls.removal (k.Steady sha256 newHash)
      (recoverCatalogActivation sha256 calls) := by
  refine Spec.bind Spec.refuse (fun _ => ?_) fun e m h _ => h.1
  refine Spec.get_bind fun m hm => ?_
  have hfail : ∀ e : String, k.Steadily sha256 newHash calls.removal (· = m)
      (Prog.fail (α := Unit) e : CatalogAction Unit) :=
    fun e => Spec.fail fun x h _ => h ▸ hm.1
  split
  · exact Spec.pure fun x h _ => h ▸ hm.1
  · exact hfail _
  · rename_i j hj
    refine Spec.ite (fun _ => hfail _) fun _ => Spec.ite (fun _ => hfail _) fun _ =>
      Spec.ite (fun _ => hfail _) fun _ => ?_
    rcases hm.1 with hnone | hpending
    · exact nomatch hnone.symm.trans hj
    · exact resume_steady hk hj calls hpending

/-! ## Activation -/

variable {activation : ActivationCalls}

/-- The journal is written with its hashes, and nothing is moved. -/
structure Written (k : Catalogs) (sha256 : Bytes → String) (newHash : String) (m : MetaRoot) :
    Prop extends k.Journaled m where
  noted : ∃ j, m.activation = some (some j) ∧ k.Noted sha256 newHash j

theorem likeNew_stage (hd : k.Digested sha256 newHash) (h : m.dirs k.stage = some (.tree k.new)) :
    LikeNew sha256 newHash (m.dirs k.stage) := ⟨k.new, h, hd.new⟩

theorem Written.steady (hd : k.Digested sha256 newHash) (h : k.Written sha256 newHash m) :
    k.Steady sha256 newHash m := by
  have hnew := likeNew_stage hd h.stage
  refine .inr ⟨h.noted, ?_⟩
  cases hold : k.old with
  | none => exact .staged hold (by rw [h.cache, hold]; rfl) hnew
  | some old => exact .unmoved old hold (by rw [h.cache, hold]; rfl) h.previous (.inr hnew)

/-- The stage may become the cache, with the journal's hashes. -/
structure Emptied (k : Catalogs) (sha256 : Bytes → String) (newHash : String) (m : MetaRoot) :
    Prop extends k.Cleared m where
  noted : ∃ j, m.activation = some (some j) ∧ k.Noted sha256 newHash j

theorem Emptied.steady (hd : k.Digested sha256 newHash) (h : k.Emptied sha256 newHash m) :
    k.Steady sha256 newHash m := by
  have hnew := likeNew_stage hd h.stage
  refine .inr ⟨h.noted, ?_⟩
  cases hold : k.old with
  | none => exact .staged hold h.cache hnew
  | some old => exact .aside old hold h.cache (h.previous old hold) (.inr hnew)

theorem Emptied.moveIn (hk : k.Named) (hd : k.Digested sha256 newHash)
    (h : k.Emptied sha256 newHash m) :
    k.Steady sha256 newHash (m.move k.stage templatesCache) := by
  refine .inr ⟨h.noted, .moved ⟨k.new, ?_, hd.new⟩ dirs_move_source⟩
  exact (dirs_move_destination hk.stage_ne_cache).trans h.stage

theorem Opened.steady (h : k.Opened m) : k.Steady sha256 newHash m := .inl h.activation

theorem reserve_steady (hk : k.Named) (hc : activation.previous = k.previous)
    {oldHash : Option String} :
    Spec k.Ready (reservePrevious activation oldHash) (k.Steady sha256 newHash) fun r m =>
      k.Steady sha256 newHash m ∧
        ∀ name, r = .ok name → k.Ready m ∧ name = if oldHash.isSome then k.previous else "" := by
  cases oldHash with
  | none => exact Spec.pure fun m h => ⟨h.steady, fun name hn => ⟨h, (Except.ok.inj hn).symm⟩⟩
  | some hash =>
      rw [reservePrevious, hc]
      refine Spec.bind Spec.refuse (fun _ => ?_) fun e m h => ⟨h.1.steady, by simp⟩
      refine Spec.bind (Q := fun _ m => k.Opened m) (Spec.write ?_ ?_) (fun _ => ?_)
        fun e m h => ⟨h.steady, by simp⟩
      · exact fun m h => (h.1.toOpened.set_previous hk _).steady
      · exact fun m h => h.1.toOpened.set_previous hk _
      refine Spec.bind Spec.refuse (fun _ => ?_) fun e m h => ⟨h.1.steady, by simp⟩
      refine Spec.bind (Q := fun _ m => k.Ready m) (Spec.write ?_ ?_) (fun _ => ?_)
        fun e m h => ⟨h.steady, by simp⟩
      · exact fun m h => (h.1.set_previous hk none).steady
      · exact fun m h => ⟨h.1.set_previous hk none, Function.update_self _ _ _⟩
      · exact Spec.pure fun m h => ⟨h.steady, fun name hn => ⟨h, (Except.ok.inj hn).symm⟩⟩

theorem moveAside_steady (hk : k.Named) (hd : k.Digested sha256 newHash) {oldHash : Option String}
    (hsome : oldHash.isSome = k.old.isSome) :
    Spec (k.Written sha256 newHash)
      (moveAside activation (if oldHash.isSome then k.previous else "") oldHash)
      (k.Steady sha256 newHash) fun r m =>
        k.Steady sha256 newHash m ∧ (r = .ok () → k.Emptied sha256 newHash m) := by
  cases oldHash with
  | none =>
      have hold : k.old = none := by
        rw [← Option.not_isSome_iff_eq_none, ← hsome]
        simp
      refine Spec.pure fun m h => ⟨h.steady hd, fun _ => ⟨⟨h.begun, ?_, h.stage, ?_⟩, h.noted⟩⟩
      · rw [h.cache, hold]
        rfl
      · intro old ho
        rw [hold] at ho
        cases ho
  | some hash =>
      obtain ⟨old, hold⟩ := Option.isSome_iff_exists.mp hsome.symm
      have hmoved : ∀ m, k.Written sha256 newHash m →
          k.Emptied sha256 newHash (m.move templatesCache k.previous) :=
        fun m h => ⟨h.toJournaled.moveAside hk hold, h.noted⟩
      refine Spec.bind (rename_spec (P := k.Written sha256 newHash)
        fun m h => (hmoved m h).steady hd) (fun _ => ?_) fun e m h => ⟨?_, nofun⟩
      · refine Spec.refuse.conseq (fun m h => ?_) (fun _ h => h) fun r m h =>
          ⟨h.1.steady hd, fun _ => h.1⟩
        obtain ⟨hno, -⟩ | ⟨-, m', hm', rfl⟩ := h
        · exact absurd rfl hno
        · exact hmoved m' hm'
      · exact (h.resolve_right fun h => nomatch h.1).2.steady hd

/-- What the journal says of the hashes. -/
theorem noted_of_hash (hold : m.dirs templatesCache = k.old.map .tree) {fault : Option String}
    {oldHash : Option String}
    (hhash : catalogDirectoryHash sha256 fault (m.dirs templatesCache) = .ok oldHash) :
    oldHash.isSome = k.old.isSome ∧
      k.Noted sha256 newHash ⟨1, k.stage, if oldHash.isSome then k.previous else "", newHash,
        oldHash.getD ""⟩ := by
  rw [hold] at hhash
  cases hk : k.old with
  | none =>
      rw [hk] at hhash
      have hnone : oldHash = none := by
        cases fault with
        | some e => cases hhash
        | none => exact (Except.ok.inj hhash).symm
      subst hnone
      exact ⟨rfl, ⟨rfl, by rw [hk]; rfl⟩, rfl, rfl, fun old h => by rw [hk] at h; cases h⟩
  | some old =>
      rw [hk] at hhash
      obtain ⟨x, rfl, ht⟩ := hash_of_tree hhash
      refine ⟨rfl, ⟨rfl, by rw [hk]; rfl⟩, rfl, rfl, fun old' h => ?_⟩
      rw [hk] at h
      cases h
      exact ht

theorem activate_steady (hk : k.Named) (hd : k.Digested sha256 newHash)
    (hc : activation.previous = k.previous) :
    k.Steadily sha256 newHash activation.recovery.removal k.Ready
      (activateTemplatesCatalog sha256 activation k.stage newHash) := by
  refine Spec.get_bind fun m hm => ?_
  refine Spec.bind Spec.lift (fun oldHash => ?_) fun e x h _ => h.1 ▸ hm.steady
  refine Spec.of_pre fun x hx => ?_
  obtain ⟨rfl, hhash⟩ := hx
  obtain ⟨hsome, hnoted⟩ := @noted_of_hash k sha256 newHash x hm.cache _ _ hhash.symm
  refine Spec.bind ((reserve_steady hk hc).conseq (fun y (h : y = x) => h ▸ hm) (fun _ h _ => h)
    fun _ _ h => h) (fun previous => ?_) fun e y h _ => h.1
  refine Spec.of_pre fun y hy => ?_
  obtain ⟨hready, rfl⟩ := hy.2 previous rfl
  have hwritten : k.Written sha256 newHash (y.journal (some ⟨1, k.stage,
      if oldHash.isSome then k.previous else "", newHash, oldHash.getD ""⟩)) :=
    ⟨⟨⟨_, rfl, hnoted.toJournals⟩, hready.cache, hready.stage, hready.previous⟩, _, rfl, hnoted⟩
  refine Spec.bind (Q := fun r m => k.Steady sha256 newHash m ∧
    (r = .ok () → k.Written sha256 newHash m)) ?_ (fun _ => ?_) fun e z h _ => h.1
  · refine Spec.bind Spec.refuse (fun _ => ?_) fun e z h => ⟨h.1 ▸ hready.steady, nofun⟩
    refine Spec.bind (Q := fun _ m => k.Written sha256 newHash m) (Spec.write ?_ ?_) (fun _ => ?_)
      fun e z h => ⟨h.steady hd, nofun⟩
    · exact fun z h _ => h.1 ▸ hwritten.steady hd
    · exact fun z h => h.1 ▸ hwritten
    · exact Spec.refuse.conseq (fun _ h => h) (fun _ h => h)
        fun _ z h => ⟨h.1.steady hd, fun _ => h.1⟩
  refine Spec.bind ((moveAside_steady hk hd hsome).conseq (fun z h => h.2 rfl) (fun _ h _ => h)
    fun _ _ h => h) (fun _ => ?_) fun e z h _ => h.1
  refine Spec.attempt_bind ((rename_spec (P := k.Emptied sha256 newHash)
    fun z h _ => h.moveIn hk hd).conseq (fun z h => h.2 rfl) (fun _ h => h) fun _ _ h => h) ?_
  rintro (e | _)
  · -- the stage stays where it is: recovery decides
    refine Spec.attempt_bind ((recover_steady hk activation.recovery).conseq (fun z h => ?_)
      (fun _ h => h) fun _ _ h => h) ?_
    · exact (h.resolve_right fun h => nomatch h.1).2.steady hd
    · rintro (e' | _)
      · exact Spec.fail fun z h => h
      · exact Spec.fail fun z h => h
  · refine Spec.of_pre fun z hz => ?_
    obtain ⟨hno, -⟩ | ⟨-, z', hz', rfl⟩ := hz
    · exact absurd rfl hno
    have hin := hz'.moveIn hk hd
    refine Spec.bind Spec.refuse (fun _ => ?_) fun e t h _ => h.1 ▸ hin
    exact Spec.bind (steadily_of_preserves finish_steady fun t h => h.1 ▸ hin)
      (fun _ => Spec.pure fun t h => h) fun e t h => h

end Stopping

end Catalogs

end Openlia.Skills

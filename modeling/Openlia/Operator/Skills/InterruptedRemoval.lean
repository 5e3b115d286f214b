import Openlia.Operator.Skills.ActivationProgress

/-! # Removals that stop half-way

Of all that a removal of the stage passes through, only the tree it leaves when it stops
matters to later recoveries. Where a program begins its removal after a fixed number of
writes, that tree can be read off the number of writes before the crash.
-/

namespace Openlia.Skills

open Lib Crash

/-- The tree that a removal which begins after `offset` writes leaves where it stops. -/
def Removal.left (removal : Removal) (offset : Nat) : Option Nat → Option Dir
  | none => if removal.error = none then none else removal.partials.getLast?
  | some n => if n ≤ offset then none else removal.partials[n - offset - 1]?

/-- The removal gets to its end. -/
def Removal.completes (removal : Removal) (crash : Option Nat) : Prop :=
  removal.error = none ∧ (crash = none ∨ crash = some (removal.partials.length + 1))

/-- The same removal, with nothing on its way but what it leaves. -/
def Removal.cut (removal : Removal) (offset : Nat) (crash : Option Nat) : Removal :=
  ⟨(removal.left offset crash).toList, removal.error⟩

theorem Removal.left_add (removal : Removal) {w n : Nat} (offset : Nat) (h : w < n) :
    removal.left (w + offset) (some n) = removal.left offset (some (n - w)) := by
  simp only [Removal.left]
  by_cases hn : n ≤ w + offset
  · rw [if_pos hn, if_pos (by omega)]
  · rw [if_neg hn, if_neg (by omega)]
    congr 1
    omega

/-! ## Programs with one removal -/

/-- The removal of `p` begins after `offset` writes: where `p` stops, it also stops when the
removal passes through nothing but what it leaves. -/
def Waits {α : Type} (p : Removal → CatalogAction α) (m : MetaRoot) (offset : Nat) : Prop :=
  ∀ removal crash t, (p removal).halt m crash = some t →
    ∃ crash', (p (removal.cut offset crash)).halt m crash' = some t

namespace Waits

variable {α β : Type} {m : MetaRoot} {offset : Nat}

theorem const (p : CatalogAction α) : Waits (fun _ => p) m offset :=
  fun _ crash _ h => ⟨crash, h⟩

/-- The number of the writes of a program, the last of which leads to its last state. -/
structure Writes (p : CatalogAction α) (m : MetaRoot) (w : Nat) : Prop where
  length : (p.run m).trail.length = w
  last : (m :: (p.run m).trail)[w]? = some (p.run m).final

theorem Writes.none {p : CatalogAction α} (h : (p.run m).trail = [])
    (hfinal : (p.run m).final = m) : Writes p m 0 :=
  ⟨by rw [h]; rfl, by rw [hfinal]; rfl⟩

theorem halt_bind {p : CatalogAction α} {k : α → CatalogAction β} {a : α}
    (ha : (p.run m).result = .ok a) {w : Nat} (hw : Writes p m w) :
    (p >>= k).halt m none = (k a).halt (p.run m).final none ∧
      (∀ n ≤ w, (p >>= k).halt m (some n) = (m :: (p.run m).trail)[n]?) ∧
      ∀ n, (p >>= k).halt m (some (w + n)) = (k a).halt (p.run m).final (some n) := by
  simp only [Prog.halt, Prog.run_bind_ok ha]
  have hlength : (m :: (p.run m).trail).length = w + 1 := by rw [List.length_cons, hw.length]
  refine ⟨trivial, fun n hn => ?_, fun n => ?_⟩
  · rw [← List.cons_append, List.getElem?_append_left (by omega)]
  · rw [← List.cons_append]
    cases n with
    | zero =>
        rw [List.getElem?_append_left (by omega), Nat.add_zero, hw.last]
        rfl
    | succ n =>
        rw [List.getElem?_append_right (by omega), hlength, List.getElem?_cons_succ]
        congr 1
        omega

/-- The removal comes after the writes of another program. -/
theorem bind {p : CatalogAction α} {k : α → Removal → CatalogAction β} {w : Nat}
    (h : ∀ a, (p.run m).result = .ok a → Writes p m w ∧ Waits (k a) (p.run m).final offset) :
    Waits (fun removal => p >>= fun a => k a removal) m (w + offset) := by
  intro removal crash t ht
  cases ha : (p.run m).result with
  | error e =>
      refine ⟨crash, ?_⟩
      simp only [Prog.halt, Prog.run_bind_error ha] at ht ⊢
      exact ht
  | ok a =>
      obtain ⟨hw, hk⟩ := h a ha
      have hbind := fun removal => @halt_bind α β m p (fun a => k a removal) a ha w hw
      cases crash with
      | none =>
          rw [(hbind removal).1] at ht
          obtain ⟨crash', ht'⟩ := hk removal none t ht
          have hcut : removal.cut (w + offset) none = removal.cut offset none := rfl
          rw [hcut]
          cases crash' with
          | none => exact ⟨none, (hbind _).1.trans ht'⟩
          | some n => exact ⟨some (w + n), ((hbind _).2.2 n).trans ht'⟩
      | some n =>
          by_cases hn : n ≤ w
          · rw [(hbind removal).2.1 n hn] at ht
            exact ⟨some n, ((hbind _).2.1 n hn).trans ht⟩
          · obtain ⟨i, rfl⟩ := Nat.exists_eq_add_of_le (Nat.le_of_not_le hn)
            rw [(hbind removal).2.2 i] at ht
            obtain ⟨crash', ht'⟩ := hk removal (some i) t ht
            have hcut : removal.cut (w + offset) (some (w + i)) = removal.cut offset (some i) := by
              rw [Removal.cut, Removal.left_add removal offset (by omega), Nat.add_sub_cancel_left]
              rfl
            rw [hcut]
            cases crash' with
            | none => exact ⟨none, (hbind _).1.trans ht'⟩
            | some n => exact ⟨some (w + n), ((hbind _).2.2 n).trans ht'⟩

theorem get_bind {k : MetaRoot → Removal → CatalogAction β} (h : Waits (k m) m offset) :
    Waits (fun removal => Prog.get >>= fun x => k x removal) m offset := by
  intro removal crash t ht
  exact h removal crash t ht

theorem refuse_bind {fault : Option String} {k : Removal → CatalogAction β}
    (h : fault = none → Waits k m offset) :
    Waits (fun removal => Prog.refuse fault >>= fun _ => k removal) m offset := by
  cases fault with
  | none => exact h rfl
  | some e => exact const (Prog.fail e)

theorem lift_bind {result : Except String α} {k : α → Removal → CatalogAction β}
    (h : ∀ a, result = .ok a → Waits (k a) m offset) :
    Waits (fun removal => Prog.lift result >>= fun a => k a removal) m offset := by
  cases result with
  | ok a => exact h a rfl
  | error e => exact const (Prog.fail e)

theorem ite {c : Prop} [Decidable c] {p q : Removal → CatalogAction α}
    (ht : c → Waits p m offset) (hf : ¬ c → Waits q m offset) :
    Waits (fun removal => if c then p removal else q removal) m offset := by
  by_cases hc : c
  · simpa only [if_pos hc] using ht hc
  · simpa only [if_neg hc] using hf hc

/-- What comes after an attempt without a write does not matter. -/
theorem attempt_bind {p : Removal → CatalogAction α} {k : Except String α → CatalogAction β}
    (h : Waits p m offset) (hk : ∀ r s, ((k r).run s).trail = [] ∧ ((k r).run s).final = s) :
    Waits (fun removal => Prog.attempt (p removal) >>= k) m offset := by
  have hhalt : ∀ removal crash,
      (Prog.attempt (p removal) >>= k).halt m crash = (p removal).halt m crash := by
    intro removal crash
    cases crash <;> simp only [Prog.halt, Prog.run_attempt_bind, hk, List.append_nil]
  intro removal crash t ht
  rw [hhalt] at ht
  obtain ⟨crash', ht'⟩ := h removal crash t ht
  exact ⟨crash', (hhalt _ _).trans ht'⟩

end Waits

/-! ## The removal itself -/

theorem MetaRoot.set_set (m : MetaRoot) (name : String) (e e' : Option MetaEntry) :
    (m.set name e).set name e' = m.set name e' := by
  simp [MetaRoot.set]

theorem removePartly_trail (name : String) (ts : List Dir) (m : MetaRoot) :
    ((removePartly name ts).run m).trail = ts.map fun t => m.set name (some (.tree t)) := by
  induction ts generalizing m with
  | nil => rfl
  | cons t ts ih =>
      rw [removePartly, Prog.run_write_bind, ih, List.map_cons]
      simp only [MetaRoot.set_set]

theorem removePartly_final (name : String) (ts : List Dir) (m : MetaRoot) :
    ((removePartly name ts).run m).final =
      (ts.getLast?.map fun t => m.set name (some (.tree t))).getD m := by
  induction ts generalizing m with
  | nil => rfl
  | cons t ts ih =>
      rw [removePartly, Prog.run_write_bind, ih]
      cases ts with
      | nil => rfl
      | cons t' ts =>
          rw [List.getLast?_cons_cons, List.getLast?_eq_getLast_of_ne_nil (List.cons_ne_nil t' ts)]
          simp only [Option.map_some, Option.getD_some, MetaRoot.set_set]

theorem removePartly_gone (name : String) (ts : List Dir) (m : MetaRoot) :
    ((removePartly name ts).run m).final.set name none = m.set name none := by
  rw [removePartly_final]
  cases ts.getLast? with
  | none => rfl
  | some t => exact m.set_set name _ none

/-- The stage with a tree of the removal. -/
def MetaRoot.leaving (m : MetaRoot) (name : String) (t : Dir) : MetaRoot :=
  m.set name (some (.tree t))

theorem removeAll_whole {removal : Removal} (he : removal.error = none) (name : String)
    (m : MetaRoot) :
    (removeAll name removal).run m =
      ⟨removal.partials.map (m.leaving name) ++ [m.set name none], m.set name none, .ok ()⟩ := by
  rw [removeAll, Prog.run_bind_ok (Catalogs.removePartly_ok name removal.partials m), he,
    Prog.refuse_none, Prog.pure_bind', Prog.run_write, removePartly_gone, removePartly_trail]
  rfl

theorem removeAll_broken {removal : Removal} {e : String} (he : removal.error = some e)
    (name : String) (m : MetaRoot) :
    (removeAll name removal).run m =
      ⟨removal.partials.map (m.leaving name),
        (removal.partials.getLast?.map (m.leaving name)).getD m, .error e⟩ := by
  rw [removeAll, Prog.run_bind_ok (Catalogs.removePartly_ok name removal.partials m), he,
    Prog.refuse_some, Prog.fail_bind, Prog.run_fail, removePartly_final, removePartly_trail,
    List.append_nil]
  rfl

theorem Removal.left_succ (removal : Removal) (n : Nat) :
    removal.left 0 (some (n + 1)) = removal.partials[n]? := by
  simp [Removal.left]

theorem Removal.left_broken {removal : Removal} {e : String} (he : removal.error = some e)
    (offset : Nat) : removal.left offset none = removal.partials.getLast? := by
  simp [Removal.left, he]

/-- Where a removal stops. -/
theorem removeAll_halt {name : String} {removal : Removal} {crash : Option Nat} {m t : MetaRoot}
    (h : (removeAll name removal).halt m crash = some t) :
    t = m ∨ (∃ tree ∈ removal.left 0 crash, t = m.leaving name tree) ∨
      (removal.completes crash ∧ t = m.set name none) := by
  cases he : removal.error with
  | none =>
      simp only [Prog.halt, removeAll_whole he] at h
      cases crash with
      | none => exact .inr (.inr ⟨⟨he, .inl rfl⟩, (Option.some.inj h).symm⟩)
      | some n =>
          cases n with
          | zero => exact .inl (Option.some.inj h).symm
          | succ n =>
              dsimp only at h
              rw [List.getElem?_cons_succ] at h
              rcases getElem?_concat_cases h with h | ⟨hn, ht⟩
              · rw [List.getElem?_map, Option.map_eq_some_iff] at h
                obtain ⟨tree, htree, rfl⟩ := h
                exact .inr (.inl ⟨tree, (removal.left_succ n).trans htree, rfl⟩)
              · rw [List.length_map] at hn
                exact .inr (.inr ⟨⟨he, .inr (by rw [hn])⟩, ht⟩)
  | some e =>
      simp only [Prog.halt, removeAll_broken he] at h
      cases crash with
      | none =>
          cases hlast : removal.partials.getLast? with
          | none => exact .inl (by simpa [hlast] using h.symm)
          | some tree =>
              refine .inr (.inl ⟨tree, (Removal.left_broken he 0).trans hlast, ?_⟩)
              simpa [hlast] using h.symm
      | some n =>
          cases n with
          | zero => exact .inl (Option.some.inj h).symm
          | succ n =>
              dsimp only at h
              rw [List.getElem?_cons_succ, List.getElem?_map, Option.map_eq_some_iff] at h
              obtain ⟨tree, htree, rfl⟩ := h
              exact .inr (.inl ⟨tree, (removal.left_succ n).trans htree, rfl⟩)

namespace Waits

variable {α : Type} {m : MetaRoot}

/-- A removal at the start, and what comes after it. -/
theorem removeAll_bind (name : String) (k : CatalogAction α) :
    Waits (fun removal => removeAll name removal >>= fun _ => k) m 0 := by
  intro removal crash t ht
  cases he : removal.error with
  | none =>
      have hrun : ∀ r : Removal, r.error = none → (removeAll name r >>= fun _ => k).run m =
          ⟨r.partials.map (m.leaving name) ++ (m.set name none :: (k.run (m.set name none)).trail),
            (k.run (m.set name none)).final, (k.run (m.set name none)).result⟩ := by
        intro r hr
        rw [Prog.run_bind_ok (by rw [removeAll_whole hr]), removeAll_whole hr]
        simp
      simp only [Prog.halt, hrun removal he, hrun (removal.cut 0 crash) he] at ht ⊢
      cases crash with
      | none => exact ⟨none, ht⟩
      | some n =>
          cases n with
          | zero => exact ⟨some 0, ht⟩
          | succ n =>
              dsimp only at ht
              rw [List.getElem?_cons_succ] at ht
              by_cases hn : n < removal.partials.length
              · rw [List.getElem?_append_left (by simpa using hn), List.getElem?_map,
                  Option.map_eq_some_iff] at ht
                obtain ⟨tree, htree, rfl⟩ := ht
                refine ⟨some 1, ?_⟩
                simp [Removal.cut, Removal.left_succ, htree]
              · rw [List.getElem?_append_right (by simpa using hn), List.length_map] at ht
                refine ⟨some (n - removal.partials.length + 1), ?_⟩
                have hnone : removal.partials[n]? = none := by simpa using hn
                dsimp only
                rw [Removal.cut, Removal.left_succ, hnone, List.getElem?_cons_succ]
                exact ht
  | some e =>
      have hrun : ∀ r : Removal, r.error = some e → (removeAll name r >>= fun _ => k).run m =
          ⟨r.partials.map (m.leaving name), (r.partials.getLast?.map (m.leaving name)).getD m,
            .error e⟩ := by
        intro r hr
        rw [Prog.run_bind_error (by rw [removeAll_broken hr]), removeAll_broken hr]
      simp only [Prog.halt, hrun removal he, hrun (removal.cut 0 crash) he] at ht ⊢
      cases crash with
      | none =>
          refine ⟨none, ?_⟩
          rw [← ht, Removal.cut, Removal.left_broken he]
          cases removal.partials.getLast? <;> rfl
      | some n =>
          cases n with
          | zero => exact ⟨some 0, ht⟩
          | succ n =>
              dsimp only at ht
              rw [List.getElem?_cons_succ, List.getElem?_map, Option.map_eq_some_iff] at ht
              obtain ⟨tree, htree, rfl⟩ := ht
              refine ⟨some 1, ?_⟩
              simp [Removal.cut, Removal.left_succ, htree]

end Waits

/-! ## Recovery and activation -/

/-- The same calls with another removal. -/
def RecoveryCalls.removing (calls : RecoveryCalls) (removal : Removal) : RecoveryCalls :=
  { calls with removal := removal }

namespace RecoveryCalls

variable (calls : RecoveryCalls) (removal : Removal)

@[simp] theorem removing_readJournal : (calls.removing removal).readJournal = calls.readJournal :=
  rfl

@[simp] theorem removing_hashCache : (calls.removing removal).hashCache = calls.hashCache := rfl

@[simp] theorem removing_hashStage : (calls.removing removal).hashStage = calls.hashStage := rfl

@[simp] theorem removing_hashPrevious :
    (calls.removing removal).hashPrevious = calls.hashPrevious := rfl

@[simp] theorem removing_moveBack : (calls.removing removal).moveBack = calls.moveBack := rfl

@[simp] theorem removing_moveIn : (calls.removing removal).moveIn = calls.moveIn := rfl

@[simp] theorem clear_removing :
    clearCatalogActivation (calls.removing removal) = clearCatalogActivation calls := rfl

@[simp] theorem finish_removing (j : CatalogActivation) :
    finishCatalogActivation (calls.removing removal) j = finishCatalogActivation calls j := rfl

end RecoveryCalls

def ActivationCalls.removing (calls : ActivationCalls) (removal : Removal) : ActivationCalls :=
  { calls with recovery := calls.recovery.removing removal }

open Waits

variable {sha256 : Bytes → String}

theorem dropStage_waits (calls : RecoveryCalls) (j : CatalogActivation)
    (stageHash : Option String) (m : MetaRoot) :
    Waits (fun removal => dropStage (calls.removing removal) j stageHash) m 0 := by
  cases stageHash with
  | none => exact Waits.const (clearCatalogActivation calls)
  | some hash => exact Waits.removeAll_bind j.Stage (clearCatalogActivation calls)

theorem rename_of_ok {fault : Option String} {source destination : String} {m : MetaRoot}
    (h : ((rename fault source destination).run m).result = .ok ()) :
    (rename fault source destination).run m =
      ⟨[m.move source destination], m.move source destination, .ok ()⟩ := by
  cases fault with
  | some e => cases h
  | none =>
      by_cases hm : m.dirs source = none
      · simp [rename, hm] at h
      · exact Catalogs.rename_ok hm

theorem rename_writes {fault : Option String} {source destination : String} {m : MetaRoot}
    (h : ((rename fault source destination).run m).result = .ok ()) :
    Writes (rename fault source destination) m 1 := by
  have hrun := rename_of_ok h
  exact ⟨by rw [hrun]; rfl, by rw [hrun]; rfl⟩

/-- A removal begins at once, or after the old catalog went back. -/
def recoveryOffset (m : MetaRoot) : Nat :=
  match m.dirs templatesCache with
  | none => 1
  | some _ => 0

theorem resume_waits (calls : RecoveryCalls) (j : CatalogActivation) (m : MetaRoot) :
    Waits (fun removal => resumeActivation sha256 (calls.removing removal) j) m
      (recoveryOffset m) := by
  unfold resumeActivation
  simp only [RecoveryCalls.removing_hashCache, RecoveryCalls.removing_hashStage,
    RecoveryCalls.removing_hashPrevious, RecoveryCalls.removing_moveBack,
    RecoveryCalls.removing_moveIn, RecoveryCalls.finish_removing]
  refine Waits.get_bind (Waits.lift_bind fun cacheHash hcache => ?_)
  refine Waits.lift_bind fun stageHash _ => Waits.ite (fun _ => Waits.const _) fun _ => ?_
  cases cacheHash with
  | some cacheHash =>
      obtain ⟨e, he⟩ := Option.ne_none_iff_exists'.mp (Catalogs.hash_some hcache)
      have hoffset : recoveryOffset m = 0 := by rw [recoveryOffset, he]
      rw [hoffset]
      refine Waits.ite (fun _ => Waits.const _) fun _ =>
        Waits.ite (fun _ => Waits.const _) fun _ => ?_
      split
      · exact dropStage_waits calls j stageHash m
      · exact Waits.const _
  | none =>
      have hoffset : recoveryOffset m = 1 := by rw [recoveryOffset, Catalogs.hash_none hcache]
      rw [hoffset]
      refine Waits.ite (fun _ => ?_) fun _ => Waits.ite (fun _ => Waits.const _) fun _ => ?_
      · refine Waits.lift_bind fun hash _ => Waits.ite (fun _ => Waits.const _) fun _ => ?_
        refine @Waits.bind _ _ m 0 _ _ 1 fun _ hok => ⟨rename_writes hok, ?_⟩
        exact dropStage_waits calls j stageHash _
      · exact Waits.const _

theorem recover_waits (calls : RecoveryCalls) (m : MetaRoot) :
    Waits (fun removal => recoverCatalogActivation sha256 (calls.removing removal)) m
      (recoveryOffset m) := by
  unfold recoverCatalogActivation
  simp only [RecoveryCalls.removing_readJournal]
  refine Waits.refuse_bind fun _ => Waits.get_bind ?_
  split
  · exact Waits.const _
  · exact Waits.const _
  · exact Waits.ite (fun _ => Waits.const _) fun _ => Waits.ite (fun _ => Waits.const _) fun _ =>
      Waits.ite (fun _ => Waits.const _) fun _ => resume_waits calls _ m

theorem dropStage_absent (calls : RecoveryCalls) (removal : Removal) (j : CatalogActivation) :
    dropStage (calls.removing removal) j none = dropStage calls j none := by
  simp [dropStage]

/-- Without a stage or without an old catalog there is no removal. -/
theorem resume_idle (calls : RecoveryCalls) (removal : Removal) {j : CatalogActivation}
    {m : MetaRoot} (h : m.dirs j.Stage = none ∨ j.Previous = "") :
    (resumeActivation sha256 (calls.removing removal) j).run m =
      (resumeActivation sha256 calls j).run m := by
  unfold resumeActivation
  simp only [RecoveryCalls.removing_hashCache, RecoveryCalls.removing_hashStage,
    RecoveryCalls.removing_hashPrevious, RecoveryCalls.removing_moveBack,
    RecoveryCalls.removing_moveIn, RecoveryCalls.finish_removing, Prog.run_get_bind]
  cases hstage : catalogDirectoryHash sha256 calls.hashStage (m.dirs j.Stage) with
  | error e => rfl
  | ok stageHash =>
      rcases h with habsent | hempty
      · have hnone : stageHash = none := by
          by_contra hsome
          obtain ⟨hash, rfl⟩ := Option.ne_none_iff_exists'.mp hsome
          exact Catalogs.hash_some hstage habsent
        rw [hnone]
        simp only [Catalogs.lift_ok, Prog.pure_bind', dropStage_absent]
      · simp [hempty]

theorem recover_idle (calls : RecoveryCalls) (removal : Removal) {m : MetaRoot}
    (h : ∀ j, m.activation = some (some j) → m.dirs j.Stage = none ∨ j.Previous = "") :
    (recoverCatalogActivation sha256 (calls.removing removal)).run m =
      (recoverCatalogActivation sha256 calls).run m := by
  unfold recoverCatalogActivation
  rw [RecoveryCalls.removing_readJournal]
  cases calls.readJournal with
  | some e => rw [Prog.refuse_some, Prog.fail_bind, Prog.fail_bind]
  | none =>
      rw [Prog.refuse_none, Prog.pure_bind', Prog.pure_bind', Prog.run_get_bind,
        Prog.run_get_bind]
      split
      · rfl
      · rfl
      · rename_i j hj
        have hresume := @resume_idle sha256 calls removal j m (h j hj)
        split_ifs
        · rfl
        · rfl
        · rfl
        · exact hresume

/-! ### Activation -/

theorem run_bind_congr {α β : Type} {p : CatalogAction α} {k k' : α → CatalogAction β}
    {m : MetaRoot} (h : ∀ a, (p.run m).result = .ok a →
      (k a).run (p.run m).final = (k' a).run (p.run m).final) :
    (p >>= k).run m = (p >>= k').run m := by
  cases ha : (p.run m).result with
  | error e => rw [Prog.run_bind_error ha, Prog.run_bind_error ha]
  | ok a => rw [Prog.run_bind_ok ha, Prog.run_bind_ok ha, h a ha]

theorem rename_error {fault : Option String} {source destination e : String} {m : MetaRoot}
    (h : ((rename fault source destination).run m).result = .error e) :
    (rename fault source destination).run m = ⟨[], m, .error e⟩ := by
  cases fault with
  | some e' => cases h; rfl
  | none =>
      cases hm : m.dirs source with
      | none => simp [rename, hm] at h ⊢; exact h
      | some x => simp [rename, hm] at h

theorem writeCatalogState_ok {calls : StateCalls} {f : MetaRoot → MetaRoot} {m : MetaRoot}
    (h : ((writeCatalogState calls f).run m).result = .ok ()) :
    (writeCatalogState calls f).run m = ⟨[f m], f m, .ok ()⟩ := by
  obtain ⟨_ | e, _ | e'⟩ := calls
  · rfl
  · cases h
  · cases h
  · cases h

theorem moveAside_ok {calls : ActivationCalls} {previous hash : String} {m : MetaRoot}
    (h : ((moveAside calls previous (some hash)).run m).result = .ok ()) :
    (moveAside calls previous (some hash)).run m =
      ⟨[m.move templatesCache previous], m.move templatesCache previous, .ok ()⟩ := by
  obtain ⟨_, hrename, hsync, -, -⟩ := Prog.run_bind_eq_ok h
  have hrun := rename_of_ok hrename
  rw [moveAside, Prog.run_bind_ok (by rw [hrun]), hrun]
  cases hfault : calls.syncAside with
  | none => rfl
  | some e =>
      rw [hfault] at hsync
      cases hsync

theorem reservePrevious_ok {calls : ActivationCalls} {hash previous : String} {m : MetaRoot}
    (h : ((reservePrevious calls (some hash)).run m).result = .ok previous) :
    Writes (reservePrevious calls (some hash)) m 2 := by
  obtain ⟨_, _, _ | e, _ | e', _⟩ := calls
  · exact ⟨rfl, rfl⟩
  · cases h
  · cases h
  · cases h

/-- The end of an activation, from the rename of the stage on. -/
def putIn (sha256 : Bytes → String) (calls : ActivationCalls) (stage : String)
    (journal : CatalogActivation) : CatalogAction String := do
  match ← Prog.attempt (rename calls.moveIn stage templatesCache) with
  | .error e => do
      match ← Prog.attempt (recoverCatalogActivation sha256 calls.recovery) with
      | .error e' => Prog.fail ("activate catalog: " ++ e ++ "; recovery: " ++ e')
      | .ok () => Prog.fail e
  | .ok () => do
      Prog.refuse calls.syncIn
      finishCatalogActivation calls.recovery journal
      pure journal.Previous

/-- An activation whose calls are the same up to the removal. -/
theorem activate_eq (calls : ActivationCalls) (removal : Removal) (stage contentSHA256 : String) :
    activateTemplatesCatalog sha256 (calls.removing removal) stage contentSHA256 =
      Prog.get >>= fun m =>
        Prog.lift (catalogDirectoryHash sha256 calls.hashCache (m.dirs templatesCache)) >>=
          fun oldHash => reservePrevious calls oldHash >>= fun previous =>
            writeCatalogState calls.journal
              (·.journal (some ⟨1, stage, previous, contentSHA256, oldHash.getD ""⟩)) >>= fun _ =>
              moveAside calls previous oldHash >>= fun _ =>
                putIn sha256 (calls.removing removal) stage
                  ⟨1, stage, previous, contentSHA256, oldHash.getD ""⟩ := rfl

theorem putIn_ok (calls : ActivationCalls) (removal : Removal) {stage : String}
    (journal : CatalogActivation) {m : MetaRoot}
    (h : ((rename calls.moveIn stage templatesCache).run m).result = .ok ()) :
    (putIn sha256 (calls.removing removal) stage journal).run m =
      (putIn sha256 calls stage journal).run m := by
  show (Prog.attempt (rename calls.moveIn stage templatesCache) >>= _).run m = _
  rw [putIn, Prog.run_attempt_bind, Prog.run_attempt_bind, h]
  rfl

theorem putIn_error (calls : ActivationCalls) (removal : Removal) {stage e : String}
    (journal : CatalogActivation) {m : MetaRoot}
    (h : ((rename calls.moveIn stage templatesCache).run m).result = .error e) :
    (putIn sha256 (calls.removing removal) stage journal).run m =
      (Prog.attempt (recoverCatalogActivation sha256 (calls.recovery.removing removal)) >>=
        fun r => match r with
          | .error e' => Prog.fail ("activate catalog: " ++ e ++ "; recovery: " ++ e')
          | .ok () => Prog.fail e).run m := by
  show (Prog.attempt (rename calls.moveIn stage templatesCache) >>= _).run m = _
  rw [Prog.run_attempt_bind, rename_error h]
  rfl

theorem putIn_waits (calls : ActivationCalls) (stage : String) (journal : CatalogActivation)
    {m : MetaRoot} (h : m.dirs templatesCache = none) :
    Waits (fun removal => putIn sha256 (calls.removing removal) stage journal) m 1 := by
  intro removal crash t ht
  cases hrename : ((rename calls.moveIn stage templatesCache).run m).result with
  | ok u =>
      simp only [Prog.halt, putIn_ok _ _ _ hrename] at ht ⊢
      exact ⟨crash, ht⟩
  | error e =>
      have hwaits := (@recover_waits sha256 calls.recovery m).attempt_bind (β := String)
        (k := fun r => match r with
          | .error e' => Prog.fail ("activate catalog: " ++ e ++ "; recovery: " ++ e')
          | .ok () => Prog.fail e) fun r s => by cases r <;> exact ⟨rfl, rfl⟩
      have hoffset : recoveryOffset m = 1 := by rw [recoveryOffset, h]
      rw [hoffset] at hwaits
      simp only [Prog.halt, putIn_error _ _ _ hrename] at ht ⊢
      exact hwaits removal crash t ht

theorem activate_waits (calls : ActivationCalls) {stage contentSHA256 : String} {m : MetaRoot}
    (h : m.dirs templatesCache ≠ none) :
    Waits (fun removal =>
      activateTemplatesCatalog sha256 (calls.removing removal) stage contentSHA256) m 5 := by
  simp only [activate_eq]
  refine Waits.get_bind (Waits.lift_bind fun oldHash hhash => ?_)
  cases oldHash with
  | none => exact absurd (Catalogs.hash_none hhash) h
  | some hash =>
      refine @Waits.bind _ _ m 3 _ _ 2 fun previous hprevious => ⟨reservePrevious_ok hprevious, ?_⟩
      refine @Waits.bind _ _ _ 2 _ _ 1 fun u hwrite => ⟨?_, ?_⟩
      · have hrun := writeCatalogState_ok hwrite
        exact ⟨by rw [hrun]; rfl, by rw [hrun]; rfl⟩
      refine @Waits.bind _ _ _ 1 _ _ 1 fun u haside => ⟨?_, ?_⟩
      · have hrun := moveAside_ok haside
        exact ⟨by rw [hrun]; rfl, by rw [hrun]; rfl⟩
      refine putIn_waits calls stage _ ?_
      rw [moveAside_ok haside]
      exact Catalogs.dirs_move_source

theorem lift_run {α : Type} (result : Except String α) (m : MetaRoot) :
    (Prog.lift result : CatalogAction α).run m = ⟨[], m, result⟩ := by
  cases result <;> rfl

/-- Without an old catalog nothing is removed. -/
theorem putIn_first (calls : ActivationCalls) (removal removal' : Removal) (stage : String)
    {journal : CatalogActivation} {m : MetaRoot} (h : journal.Previous = "")
    (hm : m.activation = some (some journal)) :
    (putIn sha256 (calls.removing removal) stage journal).run m =
      (putIn sha256 (calls.removing removal') stage journal).run m := by
  cases hrename : ((rename calls.moveIn stage templatesCache).run m).result with
  | ok u => rw [putIn_ok _ _ _ hrename, putIn_ok _ _ _ hrename]
  | error e =>
      have hidle := fun removal => @recover_idle sha256 calls.recovery removal m fun j hj =>
        .inr (by obtain rfl : journal = j := by simpa using hm.symm.trans hj
                 exact h)
      rw [putIn_error _ _ _ hrename, putIn_error _ _ _ hrename, Prog.run_attempt_bind,
        Prog.run_attempt_bind, hidle removal, hidle removal']

theorem activate_first (calls : ActivationCalls) (removal removal' : Removal)
    {stage contentSHA256 : String} {m : MetaRoot} (h : m.dirs templatesCache = none) :
    (activateTemplatesCatalog sha256 (calls.removing removal) stage contentSHA256).run m =
      (activateTemplatesCatalog sha256 (calls.removing removal') stage contentSHA256).run m := by
  rw [activate_eq, activate_eq, Prog.run_get_bind, Prog.run_get_bind]
  refine run_bind_congr fun oldHash hhash => ?_
  rw [lift_run] at hhash
  cases oldHash with
  | some hash => exact absurd h (Catalogs.hash_some hhash)
  | none =>
      refine run_bind_congr fun previous hprevious => ?_
      obtain rfl : "" = previous := Except.ok.inj hprevious
      refine run_bind_congr fun _ hwrite => ?_
      rw [writeCatalogState_ok hwrite]
      exact run_bind_congr fun _ _ => putIn_first calls removal removal' stage rfl rfl

/-- Where the stage goes in, nothing is removed either. -/
theorem activate_moveIn {k : Catalogs} (hk : k.Named) {calls : ActivationCalls}
    (hc : calls.previous = k.previous) (hin : calls.moveIn = none) (removal removal' : Removal)
    {contentSHA256 : String} {m : MetaRoot} (hm : k.Ready m) :
    (activateTemplatesCatalog sha256 (calls.removing removal) k.stage contentSHA256).run m =
      (activateTemplatesCatalog sha256 (calls.removing removal') k.stage contentSHA256).run m := by
  rw [activate_eq, activate_eq, Prog.run_get_bind, Prog.run_get_bind]
  refine run_bind_congr fun oldHash hhash => ?_
  rw [lift_run] at hhash ⊢
  obtain ⟨hsome, hnoted⟩ := @Catalogs.noted_of_hash k sha256 contentSHA256 m hm.cache _ _ hhash
  refine run_bind_congr fun previous hprevious => ?_
  obtain ⟨-, -, hready⟩ := @Catalogs.reserve_spec k calls hk hc oldHash m hm
  obtain ⟨hready, rfl⟩ := hready previous hprevious
  refine run_bind_congr fun _ hwrite => ?_
  rw [writeCatalogState_ok hwrite]
  have hjournaled : k.Journaled (((reservePrevious calls oldHash).run m).final.journal (some
      ⟨1, k.stage, if oldHash.isSome then k.previous else "", contentSHA256,
        oldHash.getD ""⟩)) :=
    ⟨⟨_, rfl, hnoted.toJournals⟩, hready.cache, hready.stage, hready.previous⟩
  refine run_bind_congr fun _ haside => ?_
  obtain ⟨-, -, hcleared⟩ := @Catalogs.moveAside_spec k calls hk oldHash hsome _ hjournaled
  have hpresent := (hcleared haside).stage
  have hexists := Option.ne_none_iff_exists'.mpr ⟨_, hpresent⟩
  have hrename := @Catalogs.rename_ok _ k.stage templatesCache hexists
  rw [putIn_ok _ _ _ (by rw [hin, hrename]), putIn_ok _ _ _ (by rw [hin, hrename])]

/-! ## The stage is left intact -/

namespace Catalogs

/-- A recovery that removes the stage leaves no other tree there when it stops. -/
def Careful (k : Catalogs) (sha256 : Bytes → String) (newHash : String) (m : MetaRoot)
    (a : Recovery) : Prop :=
  m.activation ≠ none → m.dirs k.stage ≠ none → k.old ≠ none →
    ∀ t ∈ a.calls.removal.left (recoveryOffset m) a.crash, templatesTreeHash sha256 t = .ok newHash

/-- Neither does the recovery of an activation whose stage does not go in. -/
def CarefulActivation (k : Catalogs) (sha256 : Bytes → String) (newHash : String)
    (calls : ActivationCalls) (crash : Option Nat) : Prop :=
  calls.moveIn ≠ none → k.old ≠ none →
    ∀ t ∈ calls.recovery.removal.left 5 crash, templatesTreeHash sha256 t = .ok newHash

/-- While there is a journal, the deferred removal leaves no other tree either, and the stage
of a first activation not without one. -/
def CarefulCleanup (k : Catalogs) (sha256 : Bytes → String) (newHash : String) (m : MetaRoot)
    (removal : Removal) (crash : Option Nat) : Prop :=
  m.activation ≠ none → m.dirs k.stage ≠ none →
    (∀ t ∈ removal.left 0 crash, templatesTreeHash sha256 t = .ok newHash) ∧
      (k.old = none → ¬ removal.completes crash)

variable {k : Catalogs} {newHash : String} {m m' : MetaRoot}

theorem cut_harmless {removal : Removal} {offset : Nat} {crash : Option Nat}
    (h : ∀ t ∈ removal.left offset crash, templatesTreeHash sha256 t = .ok newHash) :
    Harmless sha256 newHash (removal.cut offset crash) :=
  fun t ht => h t (Option.mem_toList.mp ht)

theorem Steadily.halt {α : Type} {p : CatalogAction α} {removal : Removal}
    (h : k.Steadily sha256 newHash removal (· = m) p) (hm : k.Steady sha256 newHash m)
    (hharmless : Harmless sha256 newHash removal) {crash : Option Nat}
    (ht : p.halt m crash = some m') : k.Steady sha256 newHash m' := by
  refine Spec.halt (h.conseq (fun _ h => h) (fun _ h => h hharmless) fun _ _ h => ?_) hm
    (fun _ _ h => h) ht
  exact h (.inl hharmless)

/-- Where a careful recovery stops, the next one goes on. -/
theorem Steady.recover (hk : k.Named) (hm : k.Steady sha256 newHash m) {a : Recovery}
    (ha : k.Careful sha256 newHash m a) (h : MetaRoot.recovers sha256 m a m') :
    k.Steady sha256 newHash m' := by
  have hspec : ∀ removal, k.Steadily sha256 newHash removal (· = m)
      (recoverCatalogActivation sha256 (a.calls.removing removal)) := fun removal =>
    (recover_steady hk (a.calls.removing removal)).conseq (fun x h => h ▸ hm) (fun _ h => h)
      fun _ _ h => h
  by_cases hremoves : m.activation ≠ none ∧ m.dirs k.stage ≠ none ∧ k.old ≠ none
  · obtain ⟨hjournal, hstage, hold⟩ := hremoves
    obtain ⟨crash, hcut⟩ := recover_waits a.calls m a.calls.removal a.crash m' h
    exact (hspec _).halt hm (cut_harmless (ha hjournal hstage hold)) hcut
  · have hidle := @recover_idle sha256 a.calls ⟨[], none⟩ m fun j hj => ?_
    · have hhalt : (recoverCatalogActivation sha256 (a.calls.removing ⟨[], none⟩)).halt m a.crash =
          some m' := by
        rw [← h]
        simp only [Prog.halt, hidle]
      exact (hspec ⟨[], none⟩).halt hm (fun _ ht => (List.not_mem_nil ht).elim) hhalt
    · have hnoted := (hm.resolve_left (by simp [hj])).noted hj
      rw [hnoted.stage, hnoted.previous]
      by_cases hold : k.old = none
      · exact .inr (by rw [hold]; rfl)
      · refine .inl (not_not.mp fun hstage => hremoves ⟨?_, hstage, hold⟩)
        simp [hj]

/-- Where a careful activation stops, a recovery goes on. -/
theorem Ready.activate (hk : k.Named) (hd : k.Digested sha256 newHash) (hm : k.Ready m)
    {calls : ActivationCalls} (hc : calls.previous = k.previous) {crash : Option Nat}
    (hcalls : k.CarefulActivation sha256 newHash calls crash)
    (h : (activateTemplatesCatalog sha256 calls k.stage newHash).halt m crash = some m') :
    k.Steady sha256 newHash m' := by
  have hspec : ∀ removal, k.Steadily sha256 newHash removal (· = m)
      (activateTemplatesCatalog sha256 (calls.removing removal) k.stage newHash) := fun removal =>
    (@activate_steady k sha256 newHash (calls.removing removal) hk hd hc).conseq
      (fun x h => h ▸ hm) (fun _ h => h) fun _ _ h => h
  have hidle : (∀ removal removal' : Removal,
      (activateTemplatesCatalog sha256 (calls.removing removal) k.stage newHash).run m =
        (activateTemplatesCatalog sha256 (calls.removing removal') k.stage newHash).run m) →
      k.Steady sha256 newHash m' := by
    intro hsame
    have hhalt : (activateTemplatesCatalog sha256 (calls.removing ⟨[], none⟩) k.stage
        newHash).halt m crash = some m' := by
      simp only [Prog.halt, hsame ⟨[], none⟩ calls.recovery.removal]
      exact h
    exact (hspec ⟨[], none⟩).halt hm.steady (fun _ ht => (List.not_mem_nil ht).elim) hhalt
  by_cases hin : calls.moveIn = none
  · exact hidle fun removal removal' => activate_moveIn hk hc hin removal removal' hm
  by_cases hold : k.old = none
  · exact hidle fun removal removal' =>
      activate_first calls removal removal' (by rw [hm.cache, hold]; rfl)
  have hcache : m.dirs templatesCache ≠ none := by
    rw [hm.cache]
    simpa using hold
  obtain ⟨crash', hcut⟩ := activate_waits calls hcache calls.recovery.removal crash m' h
  exact (hspec _).halt hm.steady (cut_harmless (hcalls hin hold)) hcut

theorem Standing.set_stage (hk : k.Named) (h : k.Standing sha256 newHash m) {e : Option MetaEntry}
    (hpresent : m.dirs k.stage ≠ none) (he : e = none ∨ LikeNew sha256 newHash e)
    (hfirst : k.old = none → e ≠ none) : k.Standing sha256 newHash (m.set k.stage e) := by
  have hstage : (m.set k.stage e).dirs k.stage = e := Function.update_self _ _ _
  have hcache := @dirs_set_other m k.stage templatesCache e hk.stage_ne_cache.symm
  have hprevious := @dirs_set_other m k.stage k.previous e hk.stage_ne_previous.symm
  cases h with
  | unmoved old h cache previous _ =>
      exact .unmoved old h (hcache.trans cache) (hprevious.trans previous) (hstage.symm ▸ he)
  | aside old h cache previous _ =>
      exact .aside old h (hcache.trans cache) (hprevious.trans previous) (hstage.symm ▸ he)
  | staged h cache _ =>
      exact .staged h (hcache.trans cache) (hstage.symm ▸ he.resolve_left (hfirst h))
  | moved _ stage => exact absurd stage hpresent

/-- Where a careful deferred removal stops, a recovery goes on. -/
theorem Steady.cleanStage (hk : k.Named) (hm : k.Steady sha256 newHash m) {removal : Removal}
    {crash : Option Nat} (hcleanup : k.CarefulCleanup sha256 newHash m removal crash)
    (h : (cleanStage k.stage removal).halt m crash = some m') : k.Steady sha256 newHash m' := by
  cases hstage : m.dirs k.stage with
  | none =>
      have hrun : (Skills.cleanStage k.stage removal).run m = ⟨[], m, .ok ()⟩ := by
        rw [Skills.cleanStage, Prog.run_get_bind, hstage]
        rfl
      refine Spec.halt (Q := fun _ x => k.Steady sha256 newHash x) (fun x hx => ?_) hm
        (fun _ _ h => h) h
      rw [hx, hrun]
      exact ⟨by simp, hm⟩
  | some e =>
      have hrun : (Skills.cleanStage k.stage removal).run m =
          (removeAll k.stage removal).run m := by
        rw [Skills.cleanStage, Prog.run_get_bind, hstage]
      have hhalt : (removeAll k.stage removal).halt m crash = some m' := by
        rw [← h]
        simp only [Prog.halt, hrun]
      have hpresent : m.dirs k.stage ≠ none := by simp [hstage]
      rcases hm with hnone | hpending
      · rcases removeAll_halt hhalt with rfl | ⟨t, -, rfl⟩ | ⟨-, rfl⟩
        · exact .inl hnone
        · exact .inl hnone
        · exact .inl hnone
      · obtain ⟨j, hj, hnoted⟩ := hpending.journal
        obtain ⟨hleft, hfirst⟩ := hcleanup (by simp [hj]) hpresent
        rcases removeAll_halt hhalt with rfl | ⟨t, ht, rfl⟩ | ⟨hcompletes, rfl⟩
        · exact .inr hpending
        · exact .inr ⟨⟨j, hj, hnoted⟩, hpending.standing.set_stage hk hpresent
            (.inr ⟨t, rfl, hleft t ht⟩) (by simp)⟩
        · exact .inr ⟨⟨j, hj, hnoted⟩, hpending.standing.set_stage hk hpresent (.inl rfl)
            fun hold => absurd hcompletes (hfirst hold)⟩

/-- The deferred removal comes after an activation that returned, and it may crash as well. -/
def CleansUp (k : Catalogs) (crash : Option Nat) (removal : Removal)
    (cleanupCrash : Option Nat) (m m' : MetaRoot) : Prop :=
  if crash = none then (cleanStage k.stage removal).halt m cleanupCrash = some m' else m' = m

end Catalogs

/-- Wherever an activation, the removal of its stage and the recoveries after them crash, one
uninterrupted recovery succeeds, if no removal that stopped half-way left another tree in the
stage and no first activation lost its stage before it went in. -/
theorem recovery_progresses (sha256 : Bytes → String) (k : Catalogs) (newHash : String)
    (hk : k.Named) (hd : k.Digested sha256 newHash) (calls : ActivationCalls)
    (hc : calls.previous = k.previous) (crash : Option Nat) (m₀ m₁ m₂ m₃ : MetaRoot)
    (h₀ : k.Ready m₀) (hcalls : k.CarefulActivation sha256 newHash calls crash)
    (h₁ : (activateTemplatesCatalog sha256 calls k.stage newHash).halt m₀ crash = some m₁)
    (removal : Removal) (cleanupCrash : Option Nat)
    (hcleanup : k.CarefulCleanup sha256 newHash m₁ removal cleanupCrash)
    (h₂ : k.CleansUp crash removal cleanupCrash m₁ m₂)
    (taken : List (Taken MetaRoot Recovery)) (h₃ : Run (MetaRoot.recovers sha256) m₂ taken m₃)
    (htaken : ∀ x ∈ taken, k.Careful sha256 newHash x.before x.action) :
    ProgressesWithin sha256 1 m₃ ∧
      ∀ x ∈ taken, ProgressesWithin sha256 1 x.before ∧ ProgressesWithin sha256 1 x.after := by
  have hsteady₁ : k.Steady sha256 newHash m₁ := h₀.activate hk hd hc hcalls h₁
  have hsteady₂ : k.Steady sha256 newHash m₂ := by
    rw [Catalogs.CleansUp] at h₂
    split_ifs at h₂
    · exact hsteady₁.cleanStage hk hcleanup h₂
    · exact h₂ ▸ hsteady₁
  have hprogress : ∀ m, k.Steady sha256 newHash m → ProgressesWithin sha256 1 m :=
    fun m hm => progressesWithin_one fun _ hquiet => hm.recovers hk hd hquiet
  obtain ⟨hlast, haround⟩ := h₃.invariant_of (I := k.Steady sha256 newHash)
    (C := fun x => k.Careful sha256 newHash x.before x.action) hsteady₂
    (fun m a m' hm hn ha => hm.recover hk ha hn) htaken
  exact ⟨hprogress _ hlast, fun x hx =>
    ⟨hprogress _ (haround x hx).1, hprogress _ (haround x hx).2⟩⟩

section OneActivation

theorem twoCatalogs_named : twoCatalogs.Named := ⟨by decide, by decide⟩

theorem readyRoot_ready : twoCatalogs.Ready readyRoot := ⟨⟨rfl, rfl, rfl⟩, rfl⟩

theorem twoCatalogs_digested : twoCatalogs.Digested plainSha256 newHash :=
  ⟨by decide, by decide, by decide +kernel, by decide +kernel⟩

/-- A crash between the renames, and one before the recovery removes the stage. -/
theorem recovery_progresses_readyRoot :
    ∃ m₁ taken m₂, (activateTemplatesCatalog plainSha256 quietActivation ".templates-stage-1"
        newHash).halt readyRoot (some 4) = some m₁ ∧
      Run (MetaRoot.recovers plainSha256) m₁ taken m₂ ∧ taken.length = 1 ∧
      ProgressesWithin plainSha256 1 m₂ := by
  have h₁ := (Option.some_get readyRoot_halts).symm
  obtain ⟨taken, m₂, hrun, hp⟩ := exists_run_of_trace
    (fun m (a : Recovery) => (recoverCatalogActivation plainSha256 a.calls).halt m a.crash)
    (Option.get _ readyRoot_halts) [⟨quietRecovery, some 1⟩]
    (fun r => decide (r.1.length = 1) && r.1.all fun x =>
      (x.action.calls.removal.left (recoveryOffset x.before) x.action.crash).isNone)
    (by decide +kernel)
  obtain ⟨hlen, hleft⟩ := (Bool.and_eq_true _ _).mp hp
  have hprogress := recovery_progresses plainSha256 twoCatalogs newHash twoCatalogs_named
    twoCatalogs_digested quietActivation rfl (some 4) readyRoot _ _ m₂ readyRoot_ready
    (fun h => absurd rfl h) h₁ ⟨[], none⟩ none (fun _ _ => ⟨fun t ht => (nomatch ht), nofun⟩) rfl
    taken hrun fun x hx _ _ _ t ht => by
      have hnone := Option.isNone_iff_eq_none.mp (List.all_eq_true.mp hleft x hx)
      rw [hnone] at ht
      cases ht
  exact ⟨_, taken, m₂, h₁, hrun, of_decide_eq_true hlen, hprogress.1⟩

/-! ## Journals that no recovery accepts -/

variable {sha256 : Bytes → String} {m : MetaRoot} {j : CatalogActivation}

/-- Whatever recovery would do, it refuses the stage first. -/
theorem changed_stage (hj : m.activation = some (some j)) {cacheHash : Option String}
    (hcache : catalogDirectoryHash sha256 none (m.dirs templatesCache) = .ok cacheHash)
    {hash : String} (hstage : catalogDirectoryHash sha256 none (m.dirs j.Stage) = .ok (some hash))
    (hne : hash ≠ j.NewHash) (calls : RecoveryCalls) (h : calls.Quiet) :
    ∃ e, (recoverCatalogActivation sha256 calls).run m = ⟨[], m, .error e⟩ := by
  unfold recoverCatalogActivation
  rw [h.readJournal, Prog.refuse_none, Prog.pure_bind', Prog.run_get_bind, hj]
  dsimp only
  split_ifs
  · exact ⟨_, rfl⟩
  · exact ⟨_, rfl⟩
  · exact ⟨_, rfl⟩
  · refine ⟨"catalog activation stage changed; leaving all directories intact", ?_⟩
    unfold resumeActivation
    rw [Prog.run_get_bind, h.hashCache, h.hashStage, hcache, hstage, Catalogs.lift_ok,
      Prog.pure_bind', Catalogs.lift_ok, Prog.pure_bind', if_pos (by simpa using hne)]
    rfl

theorem missing_stage (hj : m.activation = some (some j))
    (hcache : m.dirs templatesCache = none) (hstage : m.dirs j.Stage = none)
    (hprevious : j.Previous = "") (calls : RecoveryCalls) (h : calls.Quiet) :
    ∃ e, (recoverCatalogActivation sha256 calls).run m = ⟨[], m, .error e⟩ := by
  unfold recoverCatalogActivation
  rw [h.readJournal, Prog.refuse_none, Prog.pure_bind', Prog.run_get_bind, hj]
  dsimp only
  split_ifs
  · exact ⟨_, rfl⟩
  · exact ⟨_, rfl⟩
  · exact ⟨_, rfl⟩
  · refine ⟨"initial catalog activation stage is missing", ?_⟩
    unfold resumeActivation
    rw [Prog.run_get_bind, h.hashCache, h.hashStage, Catalogs.hash_absent hcache,
      Catalogs.hash_absent hstage, Catalogs.lift_ok, Prog.pure_bind', Prog.pure_bind',
      if_neg (by simp)]
    simp [hprevious]

/-- The state before the first activation. -/
def firstRoot : MetaRoot := readyRoot.set templatesCache none

def firstCatalog : Catalogs := { twoCatalogs with old := none }

/-- The directory is not synced after the journal is renamed. -/
def unsynced : ActivationCalls := { quietActivation with journal := ⟨none, some "fsync"⟩ }

def treeHash (t : Dir) : String := ((templatesTreeHash plainSha256 t).toOption).getD ""

theorem quietRecovery_halts : ((recoverCatalogActivation plainSha256 quietRecovery).halt
    (Option.get _ readyRoot_halts) (some 2)).isSome = true := by decide +kernel

theorem unsynced_halts : ((activateTemplatesCatalog plainSha256 unsynced ".templates-stage-1"
    newHash).halt firstRoot none).isSome = true := rfl

theorem cleanStage_halts : ((cleanStage ".templates-stage-1" ⟨[], none⟩).halt
    (Option.get _ unsynced_halts) none).isSome = true := rfl

/-- A recovery that crashes while it removes the stage, and a first activation that fails after
its journal is written: no later recovery succeeds. -/
theorem recovery_stuck :
    (twoCatalogs.Named ∧ twoCatalogs.Digested plainSha256 newHash) ∧
    (twoCatalogs.Ready readyRoot ∧ ∃ m₁ taken m₂,
      (activateTemplatesCatalog plainSha256 quietActivation ".templates-stage-1" newHash).halt
        readyRoot (some 4) = some m₁ ∧
      Run (MetaRoot.recovers plainSha256) m₁ taken m₂ ∧
      ∀ n, ¬ ProgressesWithin plainSha256 n m₂) ∧
    firstCatalog.Ready firstRoot ∧ ∃ m₁ m₂,
      (activateTemplatesCatalog plainSha256 unsynced ".templates-stage-1" newHash).halt
        firstRoot none = some m₁ ∧
      firstCatalog.CleansUp none ⟨[], none⟩ none m₁ m₂ ∧
      ∀ n, ¬ ProgressesWithin plainSha256 n m₂ := by
  have htorn : MetaRoot.recovers plainSha256 (Option.get _ readyRoot_halts)
      ⟨quietRecovery, some 2⟩ (Option.get _ quietRecovery_halts) :=
    (Option.some_get quietRecovery_halts).symm
  refine ⟨⟨twoCatalogs_named, twoCatalogs_digested⟩, ⟨readyRoot_ready, _, _, _,
    (Option.some_get readyRoot_halts).symm, .step _ .start htorn, ?_⟩, ⟨⟨rfl, rfl, rfl⟩, rfl⟩, _, _,
    (Option.some_get unsynced_halts).symm, (Option.some_get cleanStage_halts).symm, ?_⟩
  · refine not_progresses (@changed_stage _ _ ⟨1, ".templates-stage-1", ".templates-previous-1",
      newHash, treeHash (oneFile "1")⟩ ?_ (some (treeHash (oneFile "1"))) ?_ (treeHash .empty) ?_ ?_)
    · decide +kernel
    · decide +kernel
    · decide +kernel
    · decide +kernel
  · refine not_progresses (@missing_stage _ _ ⟨1, ".templates-stage-1", "", newHash, ""⟩
      ?_ ?_ ?_ rfl)
    · rfl
    · rfl
    · rfl

end OneActivation

end Openlia.Skills

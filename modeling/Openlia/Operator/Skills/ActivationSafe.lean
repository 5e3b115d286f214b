import Openlia.Operator.Skills.Activation

/-! # No catalog is lost

Between any two writes the old catalog or the new one is complete in one of three
places, and the journal says which of them recovery has to look at.
-/

namespace Openlia.Skills

open Lib Crash

/-- The catalogs of one activation and their names. -/
structure Catalogs where
  old : Option Dir
  new : Dir
  stage : String
  previous : String

namespace Catalogs

variable (k : Catalogs)

/-- Names that `MkdirTemp` makes. -/
structure Named : Prop where
  stage : hasPrefix k.stage ".templates-stage-" = true
  previous : hasPrefix k.previous ".templates-previous-" = true

/-- Before the journal is written. -/
structure Opened (m : MetaRoot) : Prop where
  activation : m.activation = none
  cache : m.dirs templatesCache = k.old.map .tree
  stage : m.dirs k.stage = some (.tree k.new)

/-- The state in which an activation starts. -/
structure Ready (m : MetaRoot) : Prop extends k.Opened m where
  previous : m.dirs k.previous = none

def Holds (m : MetaRoot) (t : Dir) : Prop :=
  ∃ name ∈ [templatesCache, k.previous, k.stage], m.dirs name = some (.tree t)

/-- A complete copy of the old catalog or of the new one. -/
def Kept (m : MetaRoot) : Prop := (∃ t ∈ k.old, k.Holds m t) ∨ k.Holds m k.new

/-- The cache is the old catalog or the new one, and no journal is left. -/
def Finished (m : MetaRoot) : Prop :=
  m.activation = none ∧
    (m.dirs templatesCache = k.old.map .tree ∨ m.dirs templatesCache = some (.tree k.new))

/-- No journal: the cache is decided. -/
structure Settled (m : MetaRoot) : Prop where
  finished : k.Finished m
  kept : k.Kept m

/-- Where the catalogs are while there is a journal. -/
inductive Place (k : Catalogs) (m : MetaRoot) : Prop where
  | unmoved (old : Dir) (h : k.old = some old) (cache : m.dirs templatesCache = some (.tree old))
      (previous : m.dirs k.previous = none)
  | aside (old : Dir) (h : k.old = some old) (cache : m.dirs templatesCache = none)
      (previous : m.dirs k.previous = some (.tree old))
  | staged (h : k.old = none) (cache : m.dirs templatesCache = none)
      (stage : m.dirs k.stage = some (.tree k.new))
  | moved (cache : m.dirs templatesCache = some (.tree k.new)) (stage : m.dirs k.stage = none)
      (previous : ∀ old, k.old = some old → m.dirs k.previous = some (.tree old))

/-- The journal of the activation. -/
structure Journals (j : CatalogActivation) : Prop where
  stage : j.Stage = k.stage
  previous : j.Previous = if k.old.isSome then k.previous else ""

structure Begun (m : MetaRoot) : Prop where
  journal : ∃ j, m.activation = some (some j) ∧ k.Journals j
  place : Place k m

/-- What holds between any two writes. -/
def Inv (m : MetaRoot) : Prop := k.Settled m ∨ k.Begun m

end Catalogs

namespace Catalogs

variable {k : Catalogs} {m : MetaRoot}

theorem hasPrefix_ne {s s' start start' : String} (h : hasPrefix s start = true)
    (h' : hasPrefix s' start' = true) (hne : start.toList.isPrefixOf start'.toList = false)
    (hne' : start'.toList.isPrefixOf start.toList = false) : s ≠ s' := by
  rintro rfl
  simp only [hasPrefix, List.isPrefixOf_iff_prefix] at h h'
  rcases List.prefix_or_prefix_of_prefix h h' with hp | hp
  · exact Bool.noConfusion (hne.symm.trans (List.isPrefixOf_iff_prefix.mpr hp))
  · exact Bool.noConfusion (hne'.symm.trans (List.isPrefixOf_iff_prefix.mpr hp))

theorem hasPrefix_templatesCache : hasPrefix templatesCache "templates" = true := by decide

theorem Named.stage_ne_cache (h : k.Named) : k.stage ≠ templatesCache := by
  refine hasPrefix_ne h.stage hasPrefix_templatesCache ?_ ?_ <;> decide

theorem Named.previous_ne_cache (h : k.Named) : k.previous ≠ templatesCache := by
  refine hasPrefix_ne h.previous hasPrefix_templatesCache ?_ ?_ <;> decide

theorem Named.stage_ne_previous (h : k.Named) : k.stage ≠ k.previous := by
  refine hasPrefix_ne h.stage h.previous ?_ ?_ <;> decide

/-! ## Where the copies are -/

theorem Place.kept (h : Place k m) : k.Kept m := by
  cases h with
  | unmoved old h cache _ => exact .inl ⟨old, h, templatesCache, by simp, cache⟩
  | aside old h _ previous => exact .inl ⟨old, h, k.previous, by simp, previous⟩
  | staged _ _ stage => exact .inr ⟨k.stage, by simp, stage⟩
  | moved cache _ _ => exact .inr ⟨templatesCache, by simp, cache⟩

theorem Inv.kept (h : k.Inv m) : k.Kept m := h.elim (·.kept) (·.place.kept)

/-- The old or the new catalog is in the cache. -/
def Decided (k : Catalogs) (m : MetaRoot) : Prop :=
  (∃ old, k.old = some old ∧ m.dirs templatesCache = some (.tree old)) ∨
    m.dirs templatesCache = some (.tree k.new)

theorem Decided.settled (h : k.Decided m) (hj : m.activation = none) : k.Settled m := by
  rcases h with ⟨old, hold, hcache⟩ | hcache
  · exact ⟨⟨hj, .inl (by rw [hcache, hold]; rfl)⟩, .inl ⟨old, hold, templatesCache, by simp, hcache⟩⟩
  · exact ⟨⟨hj, .inr hcache⟩, .inr ⟨templatesCache, by simp, hcache⟩⟩

/-- A place only depends on the directories. -/
theorem Place.congr {m' : MetaRoot} (h : Place k m) (hd : m'.dirs = m.dirs) : Place k m' := by
  cases h with
  | unmoved old h cache previous => exact .unmoved old h (hd ▸ cache) (hd ▸ previous)
  | aside old h cache previous => exact .aside old h (hd ▸ cache) (hd ▸ previous)
  | staged h cache stage => exact .staged h (hd ▸ cache) (hd ▸ stage)
  | moved cache stage previous => exact .moved (hd ▸ cache) (hd ▸ stage) (hd ▸ previous)

theorem dirs_set_other {name other : String} {e : Option MetaEntry} (h : other ≠ name) :
    (m.set name e).dirs other = m.dirs other := Function.update_of_ne h _ _

/-! ## Recovery -/

section Recovery

variable {sha256 : Bytes → String} {calls : RecoveryCalls} {j : CatalogActivation}

/-- What a step of recovery has to show. -/
def Recovers (k : Catalogs) (r : Except String Unit) (m : MetaRoot) : Prop :=
  k.Inv m ∧ (r = .ok () → k.Settled m)

theorem clear_spec :
    Spec (fun m => k.Begun m ∧ k.Decided m) (clearCatalogActivation calls) k.Inv k.Recovers := by
  have hsettled : ∀ m, k.Begun m ∧ k.Decided m → k.Settled (m.journal none) := by
    rintro m ⟨-, h⟩
    exact Decided.settled (m := m.journal none) h rfl
  refine Spec.bind Spec.refuse (fun _ => ?_) fun e m h => ⟨.inr h.1.1, nofun⟩
  refine Spec.bind (Q := fun _ m => k.Settled m) (Spec.write ?_ ?_) (fun _ => ?_)
    fun e m h => ⟨.inl h, nofun⟩
  · exact fun m h => .inl (hsettled m h.1)
  · exact fun m h => hsettled m h.1
  · exact Spec.refuse.conseq (fun _ h => h) (fun _ h => h) fun _ m h => ⟨.inl h.1, fun _ => h.1⟩

theorem finish_spec :
    Spec (fun m => k.Begun m ∧ k.Decided m) (finishCatalogActivation calls j) k.Inv k.Recovers := by
  have hwrite : ∀ (m : MetaRoot) (r : CatalogUIRefresh), k.Begun m ∧ k.Decided m →
      k.Begun (m.refresh r) ∧ k.Decided (m.refresh r) :=
    fun m r h => ⟨⟨h.1.journal, h.1.place.congr rfl⟩, h.2⟩
  refine Spec.bind (Q := fun _ m => k.Begun m ∧ k.Decided m) ?_ (fun _ => clear_spec)
    fun e m h => ⟨.inr h.1, nofun⟩
  refine Spec.bind Spec.refuse (fun _ => ?_) fun e m h => h.1
  refine Spec.bind (Q := fun _ m => k.Begun m ∧ k.Decided m) (Spec.write ?_ ?_) (fun _ => ?_)
    fun e m h => h
  · exact fun m h => .inr (hwrite m _ h.1).1
  · exact fun m h => hwrite m _ h.1
  · exact Spec.refuse.conseq (fun _ h => h) (fun _ h => h) fun _ m h => h.1

/-- The old catalog is in the cache, whatever is left of the stage. -/
structure Restored (k : Catalogs) (m : MetaRoot) : Prop where
  begun : k.Begun m
  old : ∃ old, k.old = some old ∧ m.dirs templatesCache = some (.tree old)
  previous : m.dirs k.previous = none

theorem Restored.set_stage (hk : k.Named) (h : k.Restored m) (e : Option MetaEntry) :
    k.Restored (m.set k.stage e) := by
  obtain ⟨old, hold, hcache⟩ := h.old
  have hcache' : (m.set k.stage e).dirs templatesCache = some (.tree old) :=
    (dirs_set_other hk.stage_ne_cache.symm).trans hcache
  have hprevious : (m.set k.stage e).dirs k.previous = none :=
    (dirs_set_other hk.stage_ne_previous.symm).trans h.previous
  exact ⟨⟨h.begun.journal, .unmoved old hold hcache' hprevious⟩, ⟨old, hold, hcache'⟩, hprevious⟩

theorem removePartly_preserves {I : MetaRoot → Prop} {name : String}
    (hI : ∀ m e, I m → I (m.set name e)) (ts : List Dir) : Preserves I (removePartly name ts) := by
  induction ts with
  | nil => exact Preserves.pure ()
  | cons t ts ih => exact Preserves.bind (Preserves.write fun m h => hI m _ h) fun _ => ih

theorem removeAll_preserves {I : MetaRoot → Prop} {name : String} {removal : Removal}
    (hI : ∀ m e, I m → I (m.set name e)) : Preserves I (removeAll name removal) := by
  refine Preserves.bind (removePartly_preserves hI _) fun _ => ?_
  exact Preserves.bind Preserves.refuse fun _ => Preserves.write fun m h => hI m none h

theorem dropStage_spec (hk : k.Named) (hj : k.Journals j) {stageHash : Option String} :
    Spec k.Restored (dropStage calls j stageHash) k.Inv k.Recovers := by
  have hremove : Preserves k.Restored (removeAll k.stage calls.removal) :=
    removeAll_preserves fun m e h => h.set_stage hk e
  have hfirst : Preserves k.Restored
      (if stageHash.isSome then removeAll j.Stage calls.removal else pure ()) := by
    rw [hj.stage]
    exact Preserves.ite (fun _ => hremove) fun _ => Preserves.pure ()
  refine Spec.bind (Q := fun _ m => k.Restored m)
    (hfirst.conseq (fun _ h => h) (fun _ h => .inr h.begun) fun _ _ h => h) (fun _ => ?_)
    fun e m h => ⟨.inr h.begun, nofun⟩
  exact clear_spec.conseq (fun m h => ⟨h.begun, .inl h.old⟩) (fun _ h => h) fun _ _ h => h

theorem rename_spec {fault : Option String} {source destination : String} {P C : MetaRoot → Prop}
    (hC : ∀ m, P m → C (m.move source destination)) :
    Spec P (rename fault source destination) C fun r m =>
      (r ≠ .ok () ∧ P m) ∨ (r = .ok () ∧ ∃ m₀, P m₀ ∧ m = m₀.move source destination) := by
  refine Spec.bind Spec.refuse (fun _ => ?_) fun e m h => .inl ⟨nofun, h.1⟩
  refine Spec.get_bind fun m hm => ?_
  split
  · exact Spec.fail fun x h => .inl ⟨nofun, h ▸ hm.1⟩
  · exact Spec.write (fun x h => hC x (h ▸ hm.1)) fun x h => .inr ⟨rfl, x, h ▸ hm.1, rfl⟩

theorem dirs_move_source {source destination : String} :
    (m.move source destination).dirs source = none := Function.update_self _ _ _

theorem dirs_move_destination {source destination : String} (h : source ≠ destination) :
    (m.move source destination).dirs destination = m.dirs source := by
  show Function.update (Function.update m.dirs destination (m.dirs source)) source none destination = _
  rw [Function.update_of_ne h.symm, Function.update_self]

theorem dirs_move_other {source destination name : String} (hs : name ≠ source)
    (hd : name ≠ destination) : (m.move source destination).dirs name = m.dirs name := by
  show Function.update (Function.update m.dirs destination (m.dirs source)) source none name = _
  rw [Function.update_of_ne hs, Function.update_of_ne hd]

/-- What a hash says about an entry. -/
theorem hash_none {fault : Option String} {e : Option MetaEntry}
    (h : catalogDirectoryHash sha256 fault e = .ok none) : e = none := by
  match e, fault with
  | none, _ => rfl
  | some .other, _ | some (.tree _), some _ => cases h
  | some (.tree t), none =>
      cases ht : templatesTreeHash sha256 t with
      | error e => simp [catalogDirectoryHash, ht, Except.map] at h
      | ok hash => simp [catalogDirectoryHash, ht, Except.map] at h

theorem hash_some {fault : Option String} {e : Option MetaEntry} {hash : String}
    (h : catalogDirectoryHash sha256 fault e = .ok (some hash)) : e ≠ none := by
  rintro rfl
  cases fault <;> cases h

theorem Journals.previous_eq (hj : k.Journals j) (h : j.Previous ≠ "") : j.Previous = k.previous := by
  rw [hj.previous] at h ⊢
  split at h
  · rw [if_pos ‹_›]
  · exact absurd rfl h

/-- The old catalog goes back. -/
theorem Begun.moveBack (hk : k.Named) (h : k.Begun m) (hcache : m.dirs templatesCache = none)
    (hprevious : (if k.old.isSome then k.previous else "") ≠ "") :
    k.Restored (m.move k.previous templatesCache) := by
  cases h.place with
  | unmoved old _ cache _ => rw [hcache] at cache; cases cache
  | moved cache _ _ => rw [hcache] at cache; cases cache
  | staged hold _ _ => rw [hold] at hprevious; exact absurd rfl hprevious
  | aside old hold _ previous =>
      have hcache' := (dirs_move_destination (m := m) hk.previous_ne_cache).trans previous
      have hprevious' : (m.move k.previous templatesCache).dirs k.previous = none :=
        dirs_move_source
      exact ⟨⟨h.journal, .unmoved old hold hcache' hprevious'⟩, ⟨old, hold, hcache'⟩, hprevious'⟩

/-- The first catalog goes in. -/
theorem Begun.moveIn (hk : k.Named) (h : k.Begun m) (hcache : m.dirs templatesCache = none)
    (hprevious : ¬ (if k.old.isSome then k.previous else "") ≠ "") :
    k.Begun (m.move k.stage templatesCache) ∧ k.Decided (m.move k.stage templatesCache) := by
  cases h.place with
  | unmoved old _ cache _ => rw [hcache] at cache; cases cache
  | moved cache _ _ => rw [hcache] at cache; cases cache
  | aside old hold _ _ =>
      refine absurd (fun he => ?_) hprevious
      have hempty : k.previous = "" := by simpa [hold] using he
      exact absurd hk.previous (by rw [hempty]; decide)
  | staged hold _ stage =>
      have hcache' := (dirs_move_destination (m := m) hk.stage_ne_cache).trans stage
      refine ⟨⟨h.journal, .moved hcache' dirs_move_source fun old h => ?_⟩, .inr hcache'⟩
      rw [hold] at h
      cases h

theorem resume_spec (hk : k.Named) (hj : k.Journals j) :
    Spec k.Begun (resumeActivation sha256 calls j) k.Inv k.Recovers := by
  refine Spec.get_bind fun m hm => ?_
  have hkeep : ∀ x, x = m → k.Begun x := fun x h => h ▸ hm
  have hfail : ∀ e : String, Spec (· = m) (Prog.fail (α := Unit) e : CatalogAction Unit) k.Inv
      k.Recovers := fun e => Spec.fail fun x h => ⟨.inr (hkeep x h), nofun⟩
  refine Spec.bind Spec.lift (fun cacheHash => ?_) fun e x h => ⟨.inr (hkeep x h.1), nofun⟩
  refine Spec.bind Spec.lift (fun stageHash => ?_) fun e x h => ⟨.inr (hkeep x h.1.1), nofun⟩
  refine Spec.of_pre fun x hx => ?_
  obtain ⟨⟨rfl, hcache⟩, hstage⟩ := hx
  refine Spec.ite (fun _ => hfail _) fun _ => ?_
  obtain ⟨j', hj', hjournals⟩ := hm.journal
  cases cacheHash with
  | some cacheHash =>
      have hexists := hash_some hcache.symm
      refine Spec.ite (fun hnew => ?_) fun _ => Spec.ite (fun _ => hfail _) fun hsame => ?_
      · -- the stage is gone: the cache is the old catalog or the new one
        have hdecided : k.Decided x := by
          cases hm.place with
          | unmoved old h cache _ => exact .inl ⟨old, h, cache⟩
          | aside _ _ cache _ => exact absurd cache hexists
          | staged _ cache _ => exact absurd cache hexists
          | moved cache _ _ => exact .inr cache
        exact finish_spec.conseq (fun y (h : y = x) => h ▸ ⟨hm, hdecided⟩) (fun _ h => h)
          fun _ _ h => h
      · rw [not_or, not_not] at hsame
        split
        · rename_i hprevious
          have hnone := hash_none hprevious
          have hsome : k.old.isSome = true := by
            by_contra hno
            exact hsame.2 (hj.previous.trans (if_neg hno))
          rw [hj.previous, if_pos hsome] at hnone
          have hrestored : k.Restored x := by
            refine ⟨hm, ?_, hnone⟩
            cases hm.place with
            | unmoved old h cache _ => exact ⟨old, h, cache⟩
            | aside _ _ cache _ => exact absurd cache hexists
            | staged _ cache _ => exact absurd cache hexists
            | moved _ _ previous =>
                obtain ⟨old, hold⟩ := Option.isSome_iff_exists.mp hsome
                exact absurd (hnone.symm.trans (previous old hold)) (by simp)
          exact (dropStage_spec hk hj).conseq (fun y (h : y = x) => h ▸ hrestored) (fun _ h => h)
            fun _ _ h => h
        · exact hfail _
  | none =>
      have habsent := hash_none hcache.symm
      refine Spec.ite (fun hprevious => ?_) fun hprevious => Spec.ite (fun _ => hfail _) fun _ => ?_
      · refine Spec.bind Spec.lift (fun hash => ?_) fun e y h => ⟨.inr (hkeep y h.1), nofun⟩
        refine Spec.of_pre fun y hy => ?_
        obtain ⟨rfl, -⟩ := hy
        refine Spec.ite (fun _ => hfail _) fun _ => ?_
        have hback := hm.moveBack hk habsent (hj.previous ▸ hprevious)
        rw [hj.previous_eq hprevious]
        refine Spec.bind (rename_spec (P := (· = y)) fun z (h : z = y) => h ▸ .inr hback.begun)
          (fun _ => ?_) fun e z h => ⟨.inr (hkeep z ?_), nofun⟩
        · refine (dropStage_spec hk hj).conseq (fun z h => ?_) (fun _ h => h) fun _ _ h => h
          obtain ⟨hno, -⟩ | ⟨-, z', rfl, rfl⟩ := h
          · exact absurd rfl hno
          · exact hback
        · exact (h.resolve_right fun h => nomatch h.1).2
      · obtain ⟨hbegun, hdecided⟩ := hm.moveIn hk habsent (hj.previous ▸ hprevious)
        rw [hj.stage]
        refine Spec.bind (rename_spec (P := (· = x)) fun z (h : z = x) => h ▸ .inr hbegun)
          (fun _ => ?_) fun e z h => ⟨.inr (hkeep z ?_), nofun⟩
        · refine finish_spec.conseq (fun z h => ?_) (fun _ h => h) fun _ _ h => h
          obtain ⟨hno, -⟩ | ⟨-, z', rfl, rfl⟩ := h
          · exact absurd rfl hno
          · exact ⟨hbegun, hdecided⟩
        · exact (h.resolve_right fun h => nomatch h.1).2

theorem recover_spec (hk : k.Named) :
    Spec k.Inv (recoverCatalogActivation sha256 calls) k.Inv k.Recovers := by
  refine Spec.bind Spec.refuse (fun _ => ?_) fun e m h => ⟨h.1, nofun⟩
  refine Spec.get_bind fun m hm => ?_
  have hfail : ∀ e : String, Spec (· = m) (Prog.fail (α := Unit) e : CatalogAction Unit) k.Inv
      k.Recovers := fun e => Spec.fail fun x h => ⟨h ▸ hm.1, nofun⟩
  split
  · rename_i hnone
    refine Spec.pure fun x h => ⟨h ▸ hm.1, fun _ => h ▸ hm.1.resolve_right fun hb => ?_⟩
    obtain ⟨j, hj, -⟩ := hb.journal
    rw [hnone] at hj
    cases hj
  · exact hfail _
  · rename_i j hj
    refine Spec.ite (fun _ => hfail _) fun _ => Spec.ite (fun _ => hfail _) fun _ =>
      Spec.ite (fun _ => hfail _) fun _ => ?_
    rcases hm.1 with hs | hb
    · exact nomatch hs.finished.1.symm.trans hj
    · obtain ⟨j', hj', hjournals⟩ := hb.journal
      obtain rfl : j = j' := by simpa using hj.symm.trans hj'
      exact (resume_spec hk hjournals).conseq (fun x (h : x = m) => h ▸ hb) (fun _ h => h)
        fun _ _ h => h

end Recovery

/-! ## Activation -/

section Activation

variable {sha256 : Bytes → String} {calls : ActivationCalls}

theorem Opened.inv (h : k.Opened m) : k.Inv m :=
  .inl ⟨⟨h.activation, .inl h.cache⟩, .inr ⟨k.stage, by simp, h.stage⟩⟩

theorem Opened.set_previous (hk : k.Named) (h : k.Opened m) (e : Option MetaEntry) :
    k.Opened (m.set k.previous e) where
  activation := h.activation
  cache := (dirs_set_other hk.previous_ne_cache.symm).trans h.cache
  stage := (dirs_set_other hk.stage_ne_previous).trans h.stage

theorem reserve_spec (hk : k.Named) (hc : calls.previous = k.previous) {oldHash : Option String} :
    Spec k.Ready (reservePrevious calls oldHash) k.Inv fun r m => k.Inv m ∧
      ∀ name, r = .ok name → k.Ready m ∧ name = if oldHash.isSome then k.previous else "" := by
  cases oldHash with
  | none =>
      refine Spec.pure fun m h => ⟨h.inv, fun name hn => ⟨h, ?_⟩⟩
      exact (Except.ok.inj hn).symm
  | some hash =>
      rw [reservePrevious, hc]
      refine Spec.bind Spec.refuse (fun _ => ?_) fun e m h => ⟨h.1.inv, nofun⟩
      refine Spec.bind (Q := fun _ m => k.Opened m) (Spec.write ?_ ?_) (fun _ => ?_)
        fun e m h => ⟨h.inv, nofun⟩
      · exact fun m h => (h.1.toOpened.set_previous hk _).inv
      · exact fun m h => h.1.toOpened.set_previous hk _
      refine Spec.bind Spec.refuse (fun _ => ?_) fun e m h => ⟨h.1.inv, nofun⟩
      refine Spec.bind (Q := fun _ m => k.Ready m) (Spec.write ?_ ?_) (fun _ => ?_)
        fun e m h => ⟨h.inv, nofun⟩
      · exact fun m h => (h.1.set_previous hk none).inv
      · exact fun m h => ⟨h.1.set_previous hk none, Function.update_self _ _ _⟩
      · exact Spec.pure fun m h => ⟨h.inv, fun name hn => ⟨h, (Except.ok.inj hn).symm⟩⟩

/-- The stage may become the cache. -/
structure Cleared (k : Catalogs) (m : MetaRoot) : Prop where
  begun : k.Begun m
  cache : m.dirs templatesCache = none
  stage : m.dirs k.stage = some (.tree k.new)
  previous : ∀ old, k.old = some old → m.dirs k.previous = some (.tree old)

theorem Cleared.moveIn (hk : k.Named) (h : k.Cleared m) :
    k.Begun (m.move k.stage templatesCache) ∧ k.Decided (m.move k.stage templatesCache) := by
  have hcache := (dirs_move_destination (m := m) hk.stage_ne_cache).trans h.stage
  refine ⟨⟨h.begun.journal, .moved hcache dirs_move_source fun old hold => ?_⟩, .inr hcache⟩
  rw [dirs_move_other hk.stage_ne_previous.symm hk.previous_ne_cache]
  exact h.previous old hold

/-- The journal is written and nothing is moved. -/
structure Journaled (k : Catalogs) (m : MetaRoot) : Prop where
  journal : ∃ j, m.activation = some (some j) ∧ k.Journals j
  cache : m.dirs templatesCache = k.old.map .tree
  stage : m.dirs k.stage = some (.tree k.new)
  previous : m.dirs k.previous = none

theorem Journaled.begun (h : k.Journaled m) : k.Begun m := by
  refine ⟨h.journal, ?_⟩
  cases hold : k.old with
  | none => exact .staged hold (by rw [h.cache, hold]; rfl) h.stage
  | some old => exact .unmoved old hold (by rw [h.cache, hold]; rfl) h.previous

theorem Journaled.moveAside (hk : k.Named) {old : Dir} (hold : k.old = some old)
    (h : k.Journaled m) : k.Cleared (m.move templatesCache k.previous) := by
  have hprevious := (dirs_move_destination (m := m) hk.previous_ne_cache.symm).trans h.cache
  rw [hold] at hprevious
  refine ⟨⟨h.journal, .aside old hold dirs_move_source hprevious⟩, dirs_move_source, ?_, ?_⟩
  · rw [dirs_move_other hk.stage_ne_cache hk.stage_ne_previous]
    exact h.stage
  · rintro old' hold'
    obtain rfl : old = old' := Option.some.inj (hold.symm.trans hold')
    exact hprevious

theorem moveAside_spec (hk : k.Named) {oldHash : Option String}
    (hsome : oldHash.isSome = k.old.isSome) :
    Spec k.Journaled (moveAside calls (if oldHash.isSome then k.previous else "") oldHash) k.Inv
      fun r m => k.Inv m ∧ (r = .ok () → k.Cleared m) := by
  cases oldHash with
  | none =>
      have hold : k.old = none := by
        rw [← Option.not_isSome_iff_eq_none, ← hsome]
        simp
      refine Spec.pure fun m h => ⟨.inr h.begun, fun _ => ⟨h.begun, ?_, h.stage, fun old ho => ?_⟩⟩
      · rw [h.cache, hold]
        rfl
      · rw [hold] at ho
        cases ho
  | some hash =>
      obtain ⟨old, hold⟩ := Option.isSome_iff_exists.mp hsome.symm
      refine Spec.bind (rename_spec (P := k.Journaled) fun m h => .inr (h.moveAside hk hold).begun)
        (fun _ => ?_) fun e m h => ⟨?_, nofun⟩
      · refine Spec.refuse.conseq (fun m h => ?_) (fun _ h => h) fun r m h =>
          ⟨.inr h.1.begun, fun _ => h.1⟩
        obtain ⟨hno, -⟩ | ⟨-, m', hm', rfl⟩ := h
        · exact absurd rfl hno
        · exact hm'.moveAside hk hold
      · exact .inr (h.resolve_right fun h => nomatch h.1).2.begun

theorem activate_spec (hk : k.Named) (hc : calls.previous = k.previous) {contentSHA256 : String} :
    Spec k.Ready (activateTemplatesCatalog sha256 calls k.stage contentSHA256) k.Inv
      fun _ m => k.Inv m := by
  refine Spec.get_bind fun m hm => ?_
  refine Spec.bind Spec.lift (fun oldHash => ?_) fun e x h => h.1 ▸ hm.inv
  refine Spec.of_pre fun x hx => ?_
  obtain ⟨rfl, hhash⟩ := hx
  have hsome : oldHash.isSome = k.old.isSome := by
    rw [hm.cache] at hhash
    cases oldHash with
    | none =>
        have hnone := hash_none hhash.symm
        cases hold : k.old with
        | none => rfl
        | some old => rw [hold] at hnone; cases hnone
    | some hash =>
        have hsome := hash_some hhash.symm
        cases hold : k.old with
        | none => rw [hold] at hsome; exact absurd rfl hsome
        | some old => rfl
  refine Spec.bind ((reserve_spec hk hc).conseq (fun y (h : y = x) => h ▸ hm) (fun _ h => h)
    fun _ _ h => h) (fun previous => ?_) fun e y h => h.1
  refine Spec.of_pre fun y hy => ?_
  obtain ⟨hready, rfl⟩ := hy.2 previous rfl
  have hjournaled : k.Journaled (y.journal (some ⟨1, k.stage,
      if oldHash.isSome then k.previous else "", contentSHA256, oldHash.getD ""⟩)) :=
    ⟨⟨_, rfl, rfl, by rw [hsome]⟩, hready.cache, hready.stage, hready.previous⟩
  refine Spec.bind (Q := fun r m => k.Inv m ∧ (r = .ok () → k.Journaled m)) ?_ (fun _ => ?_)
    fun e z h => h.1
  · refine Spec.bind Spec.refuse (fun _ => ?_) fun e z h => ⟨h.1 ▸ hready.inv, nofun⟩
    refine Spec.bind (Q := fun _ m => k.Journaled m) (Spec.write ?_ ?_) (fun _ => ?_)
      fun e z h => ⟨.inr h.begun, nofun⟩
    · exact fun z h => .inr (h.1 ▸ hjournaled).begun
    · exact fun z h => h.1 ▸ hjournaled
    · exact Spec.refuse.conseq (fun _ h => h) (fun _ h => h)
        fun _ z h => ⟨.inr h.1.begun, fun _ => h.1⟩
  refine Spec.bind ((moveAside_spec hk hsome).conseq (fun z h => h.2 rfl) (fun _ h => h)
    fun _ _ h => h) (fun _ => ?_) fun e z h => h.1
  refine Spec.attempt_bind ((rename_spec (P := k.Cleared) fun z h => .inr (h.moveIn hk).1).conseq
    (fun z h => h.2 rfl) (fun _ h => h) fun _ _ h => h) ?_
  rintro (e | _)
  · -- the stage stays where it is: recovery decides
    refine Spec.attempt_bind ((recover_spec hk).conseq (fun z h => ?_) (fun _ h => h)
      fun _ _ h => h) ?_
    · exact .inr (h.resolve_right fun h => nomatch h.1).2.begun
    · rintro (e' | _)
      · exact Spec.fail fun z h => h.1
      · exact Spec.fail fun z h => h.1
  · refine Spec.of_pre fun z hz => ?_
    obtain ⟨hno, -⟩ | ⟨-, z', hz', rfl⟩ := hz
    · exact absurd rfl hno
    obtain ⟨hbegun, hdecided⟩ := hz'.moveIn hk
    refine Spec.bind Spec.refuse (fun _ => ?_) fun e t h => h.1 ▸ .inr hbegun
    refine Spec.bind (finish_spec.conseq (fun t h => h.1 ▸ ⟨hbegun, hdecided⟩) (fun _ h => h)
      fun _ _ h => h) (fun _ => Spec.pure fun t h => h.1) fun e t h => h.1

end Activation

end Catalogs

/-- Whatever call of an activation fails and wherever it and the recoveries after it crash,
a complete copy of the old catalog or of the new one is there, and a recovery that succeeds
leaves one of them in the cache and no journal. -/
theorem catalog_never_lost (sha256 : Bytes → String) (k : Catalogs) (hk : k.Named)
    (calls : ActivationCalls) (hc : calls.previous = k.previous) (contentSHA256 : String)
    (crash : Option Nat) (m₀ m₁ m₂ : MetaRoot) (h₀ : k.Ready m₀)
    (h₁ : (activateTemplatesCatalog sha256 calls k.stage contentSHA256).halt m₀ crash = some m₁)
    (taken : List (Taken MetaRoot Recovery)) (h₂ : Run (MetaRoot.recovers sha256) m₁ taken m₂) :
    k.Kept m₂ ∧ ∀ recovery : RecoveryCalls,
      ((recoverCatalogActivation sha256 recovery).run m₂).result = .ok () →
        k.Finished ((recoverCatalogActivation sha256 recovery).run m₂).final := by
  have hinv₁ : k.Inv m₁ := Spec.halt
    ((Catalogs.activate_spec hk hc).conseq (fun m h => h ▸ h₀) (fun _ h => h) fun _ _ h => h)
    h₀.toOpened.inv (fun _ _ h => h) h₁
  have hinv₂ : k.Inv m₂ := by
    refine h₂.stable hinv₁ fun m a m' hm hn => ?_
    exact Spec.halt ((Catalogs.recover_spec hk).conseq (fun x h => h ▸ hm) (fun _ h => h)
      fun _ _ h => h) hm (fun _ _ h => h.1) hn
  refine ⟨hinv₂.kept, fun recovery hok => ?_⟩
  have hspec : Spec k.Inv (recoverCatalogActivation sha256 recovery) k.Inv k.Recovers :=
    Catalogs.recover_spec hk
  obtain ⟨-, -, hsettled⟩ := hspec m₂ hinv₂
  exact (hsettled hok).finished

/-! ## One activation -/

section OneActivation

/-- 64 digits of the bytes. -/
def plainSha256 (bytes : Bytes) : String :=
  String.ofList ((bytes.map fun b => Nat.digitChar (b.toNat % 16)) ++ List.replicate 64 '0' |>.take 64)

def catalogJson : FileName := ⟨"catalog.json", by decide⟩

def oneFile (contents : String) : Dir :=
  (Tree.empty.put [catalogJson] (.file (.regular (text contents)))).toOption.getD .empty

def twoCatalogs : Catalogs :=
  ⟨some (oneFile "1"), oneFile "2", ".templates-stage-1", ".templates-previous-1"⟩

def readyRoot : MetaRoot where
  dirs name :=
    if name = templatesCache then some (.tree (oneFile "1"))
    else if name = ".templates-stage-1" then some (.tree (oneFile "2"))
    else none
  activation := none
  uiRefresh := none

def quietRecovery : RecoveryCalls :=
  ⟨none, none, none, none, none, none, ⟨[.empty], none⟩, ⟨none, none⟩, none, none⟩

def quietActivation : ActivationCalls :=
  ⟨none, ".templates-previous-1", none, none, ⟨none, none⟩, none, none, none, none, quietRecovery⟩

def newHash : String := ((templatesTreeHash plainSha256 (oneFile "2")).toOption).getD ""

theorem readyRoot_halts : ((activateTemplatesCatalog plainSha256 quietActivation
    ".templates-stage-1" newHash).halt readyRoot (some 4)).isSome = true := by decide +kernel

/-- A crash between the renames, one after the old catalog went back, and a recovery. -/
theorem catalog_never_lost_readyRoot :
    ∃ m₁ taken m₂, (activateTemplatesCatalog plainSha256 quietActivation ".templates-stage-1"
        newHash).halt readyRoot (some 4) = some m₁ ∧
      Run (MetaRoot.recovers plainSha256) m₁ taken m₂ ∧ taken.length = 1 ∧
      twoCatalogs.Kept m₂ ∧
      twoCatalogs.Finished ((recoverCatalogActivation plainSha256 quietRecovery).run m₂).final := by
  have h₁ := (Option.some_get readyRoot_halts).symm
  obtain ⟨taken, m₂, hrun, hp⟩ := exists_run_of_trace
    (fun m (a : Recovery) => (recoverCatalogActivation plainSha256 a.calls).halt m a.crash)
    (Option.get _ readyRoot_halts) [⟨quietRecovery, some 1⟩]
    (fun r => decide (r.1.length = 1) &&
      decide (((recoverCatalogActivation plainSha256 quietRecovery).run r.2).result = .ok ()))
    (by decide +kernel)
  obtain ⟨hlen, hok⟩ := (Bool.and_eq_true _ _).mp hp
  have hready : twoCatalogs.Ready readyRoot := ⟨⟨rfl, rfl, rfl⟩, rfl⟩
  obtain ⟨hkept, hfinished⟩ := catalog_never_lost plainSha256 twoCatalogs ⟨by decide, by decide⟩
    quietActivation rfl newHash (some 4) readyRoot _ m₂ hready h₁ taken hrun
  exact ⟨_, taken, m₂, h₁, hrun, of_decide_eq_true hlen, hkept,
    hfinished quietRecovery (of_decide_eq_true hok)⟩

end OneActivation

end Openlia.Skills

import Openlia.Operator.Features.Dependencies

/-! # Dependencies come first

The preflight passes exactly for features all of whose dependencies are there and end.
Then the installation ends too, and writes each record after those that it depends on.
-/

namespace Openlia.Features.Dependencies

open Lib Relation

/-! ## The walks of the two checks -/

section Walks

variable (env : Environment) (records : Records) (manifests : List FeatureManifest)

/-- A valid name is resolved. -/
def find (id : String) : Except String Resolved := do
  ValidateFeatureID id
  resolveFeatureManifest env records id

def preflightWalk : Walk String Resolved String where
  find := find env records
  deps resolved := resolved.manifest.Features
  before resolved := check env ("feature " ++ resolved.manifest.ID ++ " " ++
    resolved.manifest.Version) resolved.manifest.OpenLia
  after resolved := skills env resolved.dir resolved.manifest.Skills
  cyclic id := "cyclic feature dependency at " ++ id

def catalogWalk : Walk String FeatureManifest String where
  find id :=
    match manifests.find? fun manifest => manifest.ID = id with
    | none => .error ("missing required feature " ++ id)
    | some manifest => .ok manifest
  deps manifest := manifest.Features
  before _ := .ok ()
  after _ := .ok ()
  cyclic id := "cyclic feature dependency at " ++ id

variable {env records manifests} {id : String} {resolved : Resolved} {n : Nat}
  {active done : List String}

theorem resolved_ID (h : resolveFeatureManifest env records id = .ok resolved) :
    resolved.manifest.ID = id := by
  unfold resolveFeatureManifest at h
  cases hcatalog : env.catalog.reverse.find? fun entry => entry.1.ID = id with
  | some entry =>
      rw [hcatalog] at h
      cases h
      have hid := List.find?_some hcatalog
      exact of_decide_eq_true hid
  | none =>
      rw [hcatalog] at h
      cases hrecord : installedRecord records id with
      | none =>
          rw [hrecord] at h
          cases h
      | some record =>
          rw [hrecord] at h
          cases h
          have hid := List.find?_some hrecord
          exact of_decide_eq_true hid

theorem find_ok (h : find env records id = .ok resolved) : validID id = true ∧
    resolveFeatureManifest env records id = .ok resolved := by
  obtain ⟨_, hvalid, hresolved⟩ := except_bind_ok h
  refine ⟨?_, hresolved⟩
  by_contra hinvalid
  rw [ValidateFeatureID, if_neg hinvalid] at hvalid
  cases hvalid

/-- The preflight is a walk. -/
theorem featureID_eq : featureID env records n active done id =
    (preflightWalk env records).visit n active done id := by
  induction n generalizing active done id with
  | zero => rfl
  | succ n ih =>
      have hrec : featureID env records n = (preflightWalk env records).visit n := by
        funext active done id
        exact ih
      rw [featureID, hrec, Walk.visit]
      show _ = ((find env records id).mapError Failure.error >>= _)
      rw [find]
      cases hvalid : ValidateFeatureID id with
      | error e => rfl
      | ok _ =>
          show ((resolveFeatureManifest env records id).mapError Failure.error >>= _) =
            ((resolveFeatureManifest env records id).mapError Failure.error >>= _)
          cases hresolved : resolveFeatureManifest env records id with
          | error e => rfl
          | ok resolved =>
              obtain rfl := resolved_ID hresolved
              rfl

/-- The names of all features. -/
def names (env : Environment) (records : Records) : Finset String :=
  (env.catalog.map (·.1.ID) ++ records.map (·.Manifest.ID)).toFinset

theorem mem_names {env : Environment} {records : Records} (id : String) (resolved : Resolved)
    (h : (preflightWalk env records).find id = .ok resolved) : id ∈ names env records := by
  obtain ⟨-, h⟩ := find_ok h
  rw [names, List.mem_toFinset, List.mem_append, List.mem_map, List.mem_map]
  unfold resolveFeatureManifest at h
  cases hcatalog : env.catalog.reverse.find? fun entry => entry.1.ID = id with
  | some entry =>
      have hid := List.find?_some hcatalog
      exact Or.inl ⟨entry, List.mem_reverse.mp (List.mem_of_find?_eq_some hcatalog),
        of_decide_eq_true hid⟩
  | none =>
      rw [hcatalog] at h
      cases hrecord : installedRecord records id with
      | none =>
          rw [hrecord] at h
          cases h
      | some record =>
          have hid := List.find?_some hrecord
          exact Or.inr ⟨record, List.mem_of_find?_eq_some hrecord, of_decide_eq_true hid⟩

/-- The preflight passes exactly for complete features. -/
theorem preflight_iff (hn : (names env records).card < n) :
    (∃ done, featureID env records n [] [] id = .ok done) ↔
      (preflightWalk env records).Complete id := by
  rw [featureID_eq]
  exact Walk.visit_iff mem_names hn

theorem preflight_total (hn : (names env records).card < n) :
    featureID env records n [] [] id ≠ .error .stack := by
  rw [featureID_eq]
  refine Walk.visit_total mem_names ?_
  rw [Walk.left, List.toFinset_nil, Finset.sdiff_empty]
  exact hn

end Walks

/-! ## What an installation leaves -/

/-- Each record comes after the records of all features that it depends on. -/
def InOrder (requires : String → String → Prop) (log : List Write) : Prop :=
  ∀ before id after, log = before ++ Write.record id :: after →
    ∀ y, TransGen requires id y → Write.record y ∈ before

section InOrder

variable {requires : String → String → Prop} {log log' : List Write} {id : String}

theorem inOrder_nil : InOrder requires [] := by
  intro before id after h
  simp at h

theorem InOrder.append (h : InOrder requires log) (h' : InOrder requires log') :
    InOrder requires (log ++ log') := by
  intro before id after hsplit y hy
  rcases List.append_eq_append_iff.mp hsplit with ⟨rest, rfl, hrest⟩ | ⟨rest, hlog, hrest⟩
  · exact List.mem_append_right log (h' rest id after hrest y hy)
  · cases rest with
    | nil =>
        rw [List.append_nil] at hlog
        rw [List.nil_append] at hrest
        exact absurd (h' [] id after hrest.symm y hy) List.not_mem_nil
    | cons write rest =>
        obtain ⟨rfl, rfl⟩ := List.cons.inj hrest
        exact h before id rest hlog y hy

theorem inOrder_files : InOrder requires [.files id] := by
  intro before x after h
  cases before with
  | nil => cases h
  | cons write before => simp at h

/-- A record at the end, after all that it depends on. -/
theorem InOrder.record (h : InOrder requires log)
    (hall : ∀ y, TransGen requires id y → Write.record y ∈ log) :
    InOrder requires (log ++ [.record id]) := by
  intro before x after hsplit y hy
  rcases List.eq_nil_or_concat after with rfl | ⟨after, last, rfl⟩
  · obtain ⟨rfl, hid⟩ := List.append_inj' hsplit rfl
    cases hid
    exact hall y hy
  · have hsplit' : log ++ [.record id] = (before ++ .record x :: after) ++ [last] := by
      rw [hsplit]
      simp
    obtain ⟨rfl, -⟩ := List.append_inj' hsplit' rfl
    exact h before x after rfl y hy

end InOrder

section Install

variable {env : Environment} {records : Records} {s s' : State} {id : String} {ids : List String}
  {resolved : Resolved} {n : Nat}

/-- All names are resolved as from some records. -/
def Resolves (env : Environment) (records : Records) (s : State) : Prop :=
  ∀ id, resolveFeatureManifest env s.records id = resolveFeatureManifest env records id

theorem Resolves.walk (h : Resolves env records s) :
    preflightWalk env s.records = preflightWalk env records := by
  have hfind : find env s.records = find env records := by
    funext id
    rw [find, find, h id]
  rw [preflightWalk, hfind]
  rfl

/-- The record of a resolved feature says what was resolved. -/
theorem resolve_writeRecord (h : resolveFeatureManifest env s.records id = .ok resolved)
    (x : String) :
    resolveFeatureManifest env (writeRecord ⟨resolved.manifest, resolved.source⟩ s).records x =
      resolveFeatureManifest env s.records x := by
  have hid := resolved_ID h
  unfold resolveFeatureManifest at h ⊢
  cases hcatalog : env.catalog.reverse.find? fun entry => entry.1.ID = x with
  | some entry => rfl
  | none =>
      have hrecord : installedRecord (writeRecord ⟨resolved.manifest, resolved.source⟩ s).records
          x = installedRecord s.records x := by
        rw [installedRecord, writeRecord, List.find?_cons]
        by_cases hx : resolved.manifest.ID = x
        · obtain rfl : id = x := hid.symm.trans hx
          rw [hcatalog] at h
          rw [decide_eq_true hx]
          cases hinstalled : installedRecord s.records id with
          | none =>
              rw [hinstalled] at h
              cases h
          | some record =>
              rw [hinstalled] at h
              cases h
              rfl
        · rw [decide_eq_false hx, List.find?_filter]
          dsimp only
          have hsame : (fun r : InstalledFeatureRecord => decide
              (decide (r.Manifest.ID ≠ resolved.manifest.ID) = true ∧
                decide (r.Manifest.ID = x) = true)) = fun r => decide (r.Manifest.ID = x) := by
            funext r
            refine decide_eq_decide.mpr ?_
            rw [decide_eq_true_eq, decide_eq_true_eq]
            exact ⟨And.right, fun h => ⟨fun hr => hx (hr.symm.trans h), h⟩⟩
          rw [hsame]
          rfl
      rw [hrecord]

/-- What an installation of some features does to a state. -/
structure Ran (env : Environment) (records : Records) (s : State) (ids : List String)
    (o : Outcome) : Prop where
  resolves : Resolves env records o.1
  log : ∃ log, o.1.log = s.log ++ log ∧ InOrder (preflightWalk env records).Requires log ∧
    (o.2 = .ok () → ∀ id ∈ ids, ∀ y, ReflTransGen (preflightWalk env records).Requires id y →
      Write.record y ∈ log)
  stack : o.2 ≠ .error .stack
  passes : (∀ log manifest, env.steps log manifest = .ok ()) → o.2 = .ok ()

/-- One after the other. -/
theorem ran_installAll (hs : Resolves env records s)
    (hinstall : ∀ id ∈ ids, ∀ s, Resolves env records s →
      Ran env records s [id] (FeatureInstall env n id s)) :
    Ran env records s ids (installAll (FeatureInstall env n) ids s) := by
  induction ids generalizing s with
  | nil => exact ⟨hs, ⟨[], (List.append_nil _).symm, inOrder_nil, fun _ _ h => nomatch h⟩,
      (fun h => nomatch h), fun _ => rfl⟩
  | cons id ids ih =>
      obtain ⟨hresolves, ⟨log, hlog, horder, hdone⟩, hstack, hpasses⟩ :=
        hinstall id List.mem_cons_self s hs
      rw [installAll]
      cases hrun : FeatureInstall env n id s with
      | mk s₁ result =>
          rw [hrun] at hresolves hlog hdone hstack hpasses
          cases result with
          | error e =>
              cases e with
              | stack => exact absurd rfl hstack
              | error e => exact ⟨hresolves, ⟨log, hlog, horder, fun h => nomatch h⟩,
                  (fun h => nomatch h), fun h => nomatch hpasses h⟩
          | ok _ =>
              obtain ⟨hresolves', ⟨log', hlog', horder', hdone'⟩, hstack', hpasses'⟩ :=
                ih hresolves fun id' hid' => hinstall id' (List.mem_cons_of_mem id hid')
              refine ⟨hresolves', ⟨log ++ log', ?_, horder.append horder', ?_⟩, hstack', hpasses'⟩
              · rw [hlog', hlog, List.append_assoc]
              · intro hok id' hid' y hy
                rcases List.mem_cons.mp hid' with rfl | hid'
                · exact List.mem_append_left log' (hdone rfl id' (List.mem_singleton_self _) y hy)
                · exact List.mem_append_right log (hdone' hok id' hid' y hy)

theorem validate_ok (h : validID id = true) : ValidateFeatureID id = .ok () := if_pos h

/-- The preflight at the head of an installation is the preflight of the name. -/
theorem featureID_succ (hvalid : validID id = true)
    (hresolved : resolveFeatureManifest env s.records id = .ok resolved) :
    featureID env s.records (n + 1) [] [] id =
      feature env (featureID env s.records n) [] [] resolved.manifest resolved.dir := by
  rw [featureID, validate_ok hvalid, hresolved]
  rfl

/-- The steps of a feature after the records of its dependencies. -/
theorem ran_installSteps {log : List Write} (hs : Resolves env records s')
    (hresolved : resolveFeatureManifest env records id = .ok resolved)
    (hlog : s'.log = s.log ++ log)
    (horder : InOrder (preflightWalk env records).Requires log)
    (hall : ∀ y, TransGen (preflightWalk env records).Requires id y → Write.record y ∈ log) :
    Ran env records s [id] (installSteps env resolved s') := by
  have hid := resolved_ID hresolved
  have horder' := horder.append (@inOrder_files (preflightWalk env records).Requires id)
  have hall' : ∀ y, TransGen (preflightWalk env records).Requires id y →
      Write.record y ∈ log ++ [.files id] := fun y hy => List.mem_append_left _ (hall y hy)
  unfold installSteps
  rw [hid, hlog]
  cases hsteps : env.steps (s.log ++ log) resolved.manifest with
  | error e =>
      refine ⟨hs, ⟨log ++ [.files id], List.append_assoc _ _ _, horder', fun h => nomatch h⟩,
        (fun h => nomatch h), fun h => ?_⟩
      rw [h] at hsteps
      cases hsteps
  | ok _ =>
      have hwritten : ∀ x, resolveFeatureManifest env
          (writeRecord ⟨resolved.manifest, resolved.source⟩
            ⟨s'.records, (s.log ++ log) ++ [.files id]⟩).records x =
              resolveFeatureManifest env s'.records x :=
        resolve_writeRecord (s := ⟨s'.records, (s.log ++ log) ++ [.files id]⟩)
          ((hs id).trans hresolved)
      refine ⟨fun x => (hwritten x).trans (hs x), ⟨(log ++ [.files id]) ++ [.record id], ?_,
        horder'.record hall', fun _ id' hid' y hy => ?_⟩, (fun h => nomatch h), fun _ => rfl⟩
      · show ((s.log ++ log) ++ [.files id]) ++ [Write.record resolved.manifest.ID] = _
        rw [hid, List.append_assoc, List.append_assoc, List.append_assoc]
      · obtain rfl := List.mem_singleton.mp hid'
        rcases reflTransGen_iff_eq_or_transGen.mp hy with rfl | hy
        · exact List.mem_append_right _ (List.mem_singleton_self _)
        · exact List.mem_append_left _ (hall' y hy)

/-- A complete feature is installed after all that it depends on. -/
theorem ran_install (h : (preflightWalk env records).Complete id) :
    ∃ bound, ∀ n, bound ≤ n → ∀ s, Resolves env records s →
      Ran env records s [id] (FeatureInstall env n id s) := by
  induction h with
  | @mk id resolved hfind hbefore hafter hdeps ih =>
      have hcomplete : (preflightWalk env records).Complete id := .mk hfind hbefore hafter hdeps
      obtain ⟨hvalid, hresolved⟩ := find_ok hfind
      have hid := resolved_ID hresolved
      -- One bound for all features that are required.
      obtain ⟨bound, hbound⟩ : ∃ bound, ∀ d ∈ resolved.manifest.Features, ∀ n, bound ≤ n → ∀ s,
          Resolves env records s → Ran env records s [d] (FeatureInstall env n d s) := by
        have hlist : ∀ ds : List String, ds ⊆ resolved.manifest.Features →
            ∃ bound, ∀ d ∈ ds, ∀ n, bound ≤ n → ∀ s, Resolves env records s →
              Ran env records s [d] (FeatureInstall env n d s) := by
          intro ds
          induction ds with
          | nil => exact fun _ => ⟨0, fun d hd => nomatch hd⟩
          | cons d ds ihs =>
              intro hds
              obtain ⟨hd, hds⟩ := List.cons_subset.mp hds
              obtain ⟨bound₁, h₁⟩ := ih d hd
              obtain ⟨bound₂, h₂⟩ := ihs hds
              refine ⟨max bound₁ bound₂, fun d' hd' n hn => ?_⟩
              rcases List.mem_cons.mp hd' with rfl | hd'
              · exact h₁ n (le_trans (le_max_left _ _) hn)
              · exact h₂ d' hd' n (le_trans (le_max_right _ _) hn)
        exact hlist _ (List.Subset.refl _)
      refine ⟨max bound (names env records).card + 2, fun n hn s hs => ?_⟩
      obtain ⟨n, rfl⟩ : ∃ k, n = k + 1 := ⟨n - 1, by omega⟩
      have hle : bound ≤ n := by
        have := le_max_left bound (names env records).card
        omega
      have hlt : (names env records).card < n := by
        have := le_max_right bound (names env records).card
        omega
      have hresolved' := (hs id).trans hresolved
      obtain ⟨done, hpreflight⟩ : ∃ done, featureID env s.records (n + 1) [] [] id = .ok done := by
        rw [featureID_eq, hs.walk]
        exact (Walk.visit_iff mem_names (by omega)).mpr hcomplete
      rw [featureID_succ hvalid hresolved'] at hpreflight
      have hrequired : ∀ d ∈ resolved.manifest.Features.filter (· ≠ resolved.manifest.ID),
          ∀ s, Resolves env records s → Ran env records s [d] (FeatureInstall env n d s) :=
        fun d hd => hbound d (List.mem_of_mem_filter hd) n hle
      have hran := ran_installAll hs hrequired
      rw [FeatureInstall, validate_ok hvalid, hresolved']
      dsimp only
      rw [hpreflight]
      dsimp only
      cases hrun : installAll (FeatureInstall env n)
          (resolved.manifest.Features.filter (· ≠ resolved.manifest.ID)) s with
      | mk s' result =>
          rw [hrun] at hran
          obtain ⟨hs', ⟨log, hlog, horder, hdone⟩, hstack, hpasses⟩ := hran
          cases result with
          | error e =>
              exact ⟨hs', ⟨log, hlog, horder, fun h => nomatch h⟩, hstack,
                fun h => nomatch hpasses h⟩
          | ok _ =>
              refine ran_installSteps hs' hresolved hlog horder fun y hy => ?_
              -- No feature requires itself, so none is left out.
              obtain ⟨d, ⟨node, hnode, hd⟩, hdy⟩ := TransGen.head'_iff.mp hy
              have hnode' : find env records id = .ok node := hnode
              rw [show find env records id = .ok resolved from hfind] at hnode'
              cases hnode'
              have hne : d ≠ resolved.manifest.ID := by
                rintro rfl
                rw [hid] at hd
                exact hcomplete.acyclic (TransGen.single ⟨resolved, hfind, hd⟩)
              exact hdone rfl d (List.mem_filter.mpr ⟨hd, decide_eq_true hne⟩) y hdy

/-- What is missing or goes in a circle is not complete. -/
theorem not_complete (h : ∃ y, ReflTransGen (preflightWalk env records).Requires id y ∧
      ((∀ resolved, find env records y ≠ .ok resolved) ∨
        TransGen (preflightWalk env records).Requires y y)) :
    ¬ (preflightWalk env records).Complete id := by
  obtain ⟨y, hreach, hy⟩ := h
  intro hcomplete
  have hcomplete' := hcomplete.of_reaches hreach
  rcases hy with hmissing | hcycle
  · obtain ⟨hfind, -, -, -⟩ := hcomplete'
    exact hmissing _ hfind
  · exact hcomplete'.acyclic hcycle

/-- Without a preflight that passes nothing is written. -/
theorem install_incomplete (h : ¬ (preflightWalk env s.records).Complete id)
    (hn : (names env s.records).card < n) :
    ∃ e, FeatureInstall env (n + 1) id s = (s, .error (.error e)) := by
  rw [FeatureInstall]
  cases hvalid : ValidateFeatureID id with
  | error e => exact ⟨e, rfl⟩
  | ok _ =>
      dsimp only
      cases hresolved : resolveFeatureManifest env s.records id with
      | error e => exact ⟨e, rfl⟩
      | ok resolved =>
          dsimp only
          have hvalid' : validID id = true := by
            by_contra hinvalid
            rw [ValidateFeatureID, if_neg hinvalid] at hvalid
            cases hvalid
          have hhead := @featureID_succ env s id resolved n hvalid' hresolved
          have htotal := @preflight_total env s.records id (n + 1) (by omega)
          have hfail : ∀ done, featureID env s.records (n + 1) [] [] id ≠ .ok done :=
            fun done hok => h ((preflight_iff (by omega)).mp ⟨done, hok⟩)
          rw [hhead] at htotal hfail
          cases hfeature : feature env (featureID env s.records n) [] [] resolved.manifest
              resolved.dir with
          | ok done => exact absurd hfeature (hfail done)
          | error e =>
              cases e with
              | stack => exact absurd hfeature htotal
              | error e => exact ⟨e, rfl⟩

end Install

/-! ## The check of a catalog -/

/-- The features of a catalog, each once. -/
structure Catalog where
  entries : List (FeatureManifest × String)
  nodup : (entries.map (·.1.ID)).Nodup

def Catalog.manifests (catalog : Catalog) : List FeatureManifest := catalog.entries.map (·.1)

/-- The preflight of dependencies alone. -/
def walkOnly (catalog : Catalog) : Environment :=
  ⟨catalog.entries, .error "", true, fun _ => .ok [], fun _ _ => .ok ()⟩

section Check

variable {catalog : Catalog} {manifests : List FeatureManifest} {records : Records} {id : String}
  {manifest : FeatureManifest} {active done : List String} {order : List String} {n : Nat}

/-- The check of a catalog is a walk. -/
theorem visit_eq (hactive : ∀ x ∈ active, ∃ m, (catalogWalk manifests).find x = .ok m)
    (hdone : ∀ x ∈ done, ∃ m, (catalogWalk manifests).find x = .ok m) :
    visit manifests n active done id = (catalogWalk manifests).visit n active done id := by
  induction n generalizing active done id with
  | zero => rfl
  | succ n ih =>
      rw [visit, Walk.visit]
      cases hfind : manifests.find? fun manifest => manifest.ID = id with
      | none =>
          have hnone : (catalogWalk manifests).find id =
              .error ("missing required feature " ++ id) := by
            show (match manifests.find? fun manifest => manifest.ID = id with
              | none => _
              | some manifest => _) = _
            rw [hfind]
          have hnot : ∀ l : List String, (∀ x ∈ l, ∃ m, (catalogWalk manifests).find x = .ok m) →
              id ∉ l := by
            intro l hl hmem
            obtain ⟨m, hm⟩ := hl id hmem
            rw [hnone] at hm
            cases hm
          rw [if_neg (hnot active hactive), if_neg (hnot done hdone), hnone]
          rfl
      | some manifest =>
          have hsome : (catalogWalk manifests).find id = .ok manifest := by
            show (match manifests.find? fun manifest => manifest.ID = id with
              | none => _
              | some manifest => _) = _
            rw [hfind]
          have hactive' : ∀ x ∈ id :: active, ∃ m, (catalogWalk manifests).find x = .ok m := by
            intro x hx
            rcases List.mem_cons.mp hx with rfl | hx
            · exact ⟨manifest, hsome⟩
            · exact hactive x hx
          have hfold : ∀ (ds done : List String),
              (∀ x ∈ done, ∃ m, (catalogWalk manifests).find x = .ok m) →
              ds.foldlM (visit manifests n (id :: active)) done =
                ds.foldlM ((catalogWalk manifests).visit n (id :: active)) done := by
            intro ds
            induction ds with
            | nil => exact fun _ _ => rfl
            | cons d ds ihs =>
                intro done hdone
                rw [List.foldlM_cons, List.foldlM_cons, ih hactive' hdone]
                cases hd : (catalogWalk manifests).visit n (id :: active) done d with
                | error e => rfl
                | ok done₁ => exact ihs done₁ (Walk.visit_found hd hdone)
          rw [hsome]
          show _ = (if id ∈ active then _ else _)
          split
          · rfl
          · split
            · rfl
            · show (manifest.Features.foldlM _ done >>= _) = (manifest.Features.foldlM _ done >>= _)
              rw [hfold _ _ hdone]
              rfl

theorem find?_of_nodup {α : Type} {key : α → String} {l : List α} {e : α}
    (hnodup : (l.map key).Nodup) (he : e ∈ l) :
    l.find? (fun x => decide (key x = key e)) = some e := by
  induction l with
  | nil => cases he
  | cons x l ih =>
      rw [List.map_cons, List.nodup_cons] at hnodup
      rw [List.find?_cons]
      by_cases hkey : key x = key e
      · rw [decide_eq_true hkey]
        rcases List.mem_cons.mp he with rfl | he
        · rfl
        · exact absurd (hkey ▸ List.mem_map_of_mem he) hnodup.1
      · rw [decide_eq_false hkey]
        rcases List.mem_cons.mp he with rfl | he
        · exact absurd rfl hkey
        · exact ih hnodup.2 he

/-- The check finds what is resolved, whatever the records are. -/
theorem resolve_of_find (h : (catalogWalk catalog.manifests).find id = .ok manifest)
    (records : Records) : ∃ dir, find (walkOnly catalog) records id =
      .ok ⟨manifest, dir, "builtin"⟩ := by
  have hfind : catalog.manifests.find? (fun manifest => manifest.ID = id) = some manifest := by
    cases hfind : catalog.manifests.find? fun manifest => manifest.ID = id with
    | none =>
        have h : (match catalog.manifests.find? fun manifest => manifest.ID = id with
          | none => _
          | some manifest => _) = _ := h
        rw [hfind] at h
        cases h
    | some m =>
        have h : (match catalog.manifests.find? fun manifest => manifest.ID = id with
          | none => _
          | some manifest => _) = _ := h
        rw [hfind] at h
        cases h
        rfl
  obtain rfl : manifest.ID = id := by
    have hid := List.find?_some hfind
    exact of_decide_eq_true hid
  obtain ⟨⟨_, dir⟩, hentry, rfl⟩ := List.mem_map.mp (List.mem_of_find?_eq_some hfind)
  dsimp only at hfind ⊢
  have hreverse : (catalog.entries.reverse.map (·.1.ID)).Nodup := by
    rw [List.map_reverse]
    exact List.nodup_reverse.mpr catalog.nodup
  have hfound := find?_of_nodup hreverse (List.mem_reverse.mpr hentry)
  refine ⟨dir, ?_⟩
  rename_i m
  rw [find, validate_ok m.valid]
  show resolveFeatureManifest (walkOnly catalog) records m.ID = _
  unfold resolveFeatureManifest
  rw [show (walkOnly catalog).catalog = catalog.entries from rfl, hfound]

theorem find_of_resolve {resolved : Resolved}
    (h : find (walkOnly catalog) [] id = .ok resolved) :
    (catalogWalk catalog.manifests).find id = .ok resolved.manifest := by
  obtain ⟨-, h⟩ := find_ok h
  have hid := resolved_ID h
  unfold resolveFeatureManifest at h
  cases hcatalog : (walkOnly catalog).catalog.reverse.find? fun entry => entry.1.ID = id with
  | none =>
      rw [hcatalog] at h
      cases h
  | some entry =>
      rw [hcatalog] at h
      cases h
      have hentry := List.mem_reverse.mp (List.mem_of_find?_eq_some hcatalog)
      have hnodup : (catalog.manifests.map (·.ID)).Nodup := by
        rw [Catalog.manifests, List.map_map]
        exact catalog.nodup
      have hfound := find?_of_nodup hnodup (List.mem_map_of_mem hentry)
      rw [show entry.1.ID = id from hid] at hfound
      show (match catalog.manifests.find? fun manifest => manifest.ID = id with
        | none => _
        | some manifest => _) = _
      rw [hfound]

theorem check_walkOnly (label : String) {requirement : Templates.Text}
    (h : requirement = [] ∨ Templates.minimumPattern requirement ≠ none) :
    check (walkOnly catalog) label requirement = .ok () := by
  have hvalid : Templates.Go.validateOpenLiaRequirement String.ofList requirement = .ok () := by
    refine if_neg ?_
    rintro ⟨hne, hnone⟩
    rcases h with h | h
    · exact hne h
    · exact h hnone
  unfold check
  rw [hvalid]
  exact if_pos (by rw [Bool.or_eq_true]; exact Or.inr rfl)

theorem skills_walkOnly (dir : String) (paths : List String) :
    skills (walkOnly catalog) dir paths = .ok () := by
  induction paths with
  | nil => rfl
  | cons path paths ih =>
      have hskill : skill (walkOnly catalog) (dir ++ "/" ++ path) = .ok () :=
        @check_walkOnly catalog ("skill " ++ (dir ++ "/" ++ path)) [] (Or.inl rfl)
      rw [skills, hskill]
      exact ih

theorem preflight_of_catalog (h : (catalogWalk catalog.manifests).Complete id)
    (records : Records) : (preflightWalk (walkOnly catalog) records).Complete id := by
  induction h with
  | @mk id manifest hfind _ _ _ ih =>
      obtain ⟨dir, hresolved⟩ := resolve_of_find hfind records
      exact .mk hresolved (check_walkOnly _ manifest.requirement) (skills_walkOnly dir _) ih

theorem catalog_of_preflight (h : (preflightWalk (walkOnly catalog) []).Complete id) :
    (catalogWalk catalog.manifests).Complete id := by
  induction h with
  | mk hfind _ _ _ ih => exact .mk (find_of_resolve hfind) rfl rfl ih

/-- The names of a catalog. -/
def ids (catalog : Catalog) : Finset String := (catalog.manifests.map (·.ID)).toFinset

theorem mem_ids (id : String) (manifest : FeatureManifest)
    (h : (catalogWalk catalog.manifests).find id = .ok manifest) : id ∈ ids catalog := by
  have h : (match catalog.manifests.find? fun manifest => manifest.ID = id with
    | none => _
    | some manifest => _) = _ := h
  cases hfind : catalog.manifests.find? fun manifest => manifest.ID = id with
  | none =>
      rw [hfind] at h
      cases h
  | some m =>
      have hid := List.find?_some hfind
      rw [ids, List.mem_toFinset]
      exact List.mem_map.mpr ⟨m, List.mem_of_find?_eq_some hfind, of_decide_eq_true hid⟩

/-- The check passes exactly for catalogs of complete features, in whatever order it goes
through them. -/
theorem dependencyCheck_iff (hn : (ids catalog).card < n)
    (horder : ∀ id, id ∈ order ↔ id ∈ catalog.manifests.map (·.ID)) :
    dependencyCheck catalog.manifests n order = .ok () ↔
      ∀ manifest ∈ catalog.manifests, (catalogWalk catalog.manifests).Complete manifest.ID := by
  have hbound : Walk.left (ids catalog) [] < n := by
    rw [Walk.left, List.toFinset_nil, Finset.sdiff_empty]
    exact hn
  have hfold : ∀ (l done : List String),
      (∀ x ∈ done, ∃ m, (catalogWalk catalog.manifests).find x = .ok m) →
      ((∃ done', l.foldlM (visit catalog.manifests n []) done = .ok done') ∧
          (∀ x ∈ done, (catalogWalk catalog.manifests).Complete x) ↔
        (∀ id ∈ l, (catalogWalk catalog.manifests).Complete id) ∧
          ∀ x ∈ done, (catalogWalk catalog.manifests).Complete x) := by
    intro l
    induction l with
    | nil =>
        intro done _
        exact ⟨fun h => ⟨by simp, h.2⟩, fun h => ⟨⟨done, rfl⟩, h.2⟩⟩
    | cons id l ih =>
        intro done hdone
        have hvisit := @visit_eq catalog.manifests id [] done n (by simp) hdone
        rw [List.foldlM_cons, hvisit, List.forall_mem_cons]
        constructor
        · rintro ⟨⟨done', hrun⟩, hcomplete⟩
          obtain ⟨done₁, hid, hrest⟩ := except_bind_ok hrun
          obtain ⟨hcomplete', hmem, -⟩ := Walk.visit_sound hid hcomplete
          obtain ⟨hall, -⟩ :=
            (ih done₁ (Walk.visit_found hid hdone)).mp ⟨⟨done', hrest⟩, hcomplete'⟩
          exact ⟨⟨hcomplete' id hmem, hall⟩, hcomplete⟩
        · rintro ⟨⟨hid, hall⟩, hcomplete⟩
          have houter : ∀ x ∈ ([] : List String),
              ¬ ReflTransGen (catalogWalk catalog.manifests).Requires id x := by simp
          obtain ⟨done₁, hrun⟩ : ∃ done₁, (catalogWalk catalog.manifests).visit n [] done id =
              .ok done₁ := hid.visit mem_ids hbound houter
          obtain ⟨hcomplete', -, -⟩ := Walk.visit_sound hrun hcomplete
          obtain ⟨⟨done', hrest⟩, -⟩ :=
            (ih done₁ (Walk.visit_found hrun hdone)).mpr ⟨hall, hcomplete'⟩
          refine ⟨⟨done', ?_⟩, hcomplete⟩
          rw [hrun]
          exact hrest
  have hcheck : dependencyCheck catalog.manifests n order = .ok () ↔
      ∃ done', order.foldlM (visit catalog.manifests n []) [] = .ok done' := by
    constructor
    · intro h
      obtain ⟨done', h, -⟩ := except_bind_ok h
      exact ⟨done', h⟩
    · rintro ⟨done', h⟩
      rw [dependencyCheck, h]
      rfl
  have hnil := hfold order [] (by simp)
  constructor
  · intro h manifest hmanifest
    obtain ⟨hall, -⟩ := hnil.mp ⟨hcheck.mp h, by simp⟩
    exact hall manifest.ID ((horder _).mpr (List.mem_map_of_mem hmanifest))
  · intro h
    refine hcheck.mpr (hnil.mpr ⟨fun id hid => ?_, by simp⟩).1
    obtain ⟨manifest, hmanifest, rfl⟩ := List.mem_map.mp ((horder id).mp hid)
    exact h manifest hmanifest

end Check

/-- An installation ends and writes each record after those of all dependencies; it passes
if the preflight and all steps do, and where something is missing or goes in a circle the
preflight fails and nothing is written. The check of a catalog passes exactly if the
preflight of the dependencies of all its features does without imported features, and then
this passes with any. -/
theorem dependencies_first :
    (∀ (env : Environment) (s : State) (id : String), ∃ bound, ∀ n, bound ≤ n →
      (FeatureInstall env n id s).2 ≠ .error .stack ∧
      (∃ log, (FeatureInstall env n id s).1.log = s.log ++ log ∧
        InOrder (preflightWalk env s.records).Requires log ∧
        ((FeatureInstall env n id s).2 = .ok () →
          ∀ y, ReflTransGen (preflightWalk env s.records).Requires id y →
            Write.record y ∈ log)) ∧
      ((∃ done, featureID env s.records n [] [] id = .ok done) →
        (∀ log manifest, env.steps log manifest = .ok ()) →
          (FeatureInstall env n id s).2 = .ok ()) ∧
      ((∃ y, ReflTransGen (preflightWalk env s.records).Requires id y ∧
          ((∀ resolved, find env s.records y ≠ .ok resolved) ∨
            TransGen (preflightWalk env s.records).Requires y y)) →
        (∀ done, featureID env s.records n [] [] id ≠ .ok done) ∧
          ∃ e, FeatureInstall env n id s = (s, .error (.error e)))) ∧
    ∀ (catalog : Catalog) (order : List String),
      (∀ id, id ∈ order ↔ id ∈ catalog.manifests.map (·.ID)) → ∃ bound, ∀ n, bound ≤ n →
        (dependencyCheck catalog.manifests n order = .ok () ↔
          ∀ manifest ∈ catalog.manifests, ∃ done,
            featureID (walkOnly catalog) [] n [] [] manifest.ID = .ok done) ∧
        (dependencyCheck catalog.manifests n order = .ok () →
          ∀ (records : Records), ∀ manifest ∈ catalog.manifests, ∃ bound, ∀ n, bound ≤ n →
            ∃ done, featureID (walkOnly catalog) records n [] [] manifest.ID = .ok done) := by
  constructor
  · intro env s id
    by_cases hcomplete : (preflightWalk env s.records).Complete id
    · obtain ⟨bound, hbound⟩ := ran_install hcomplete
      refine ⟨bound, fun n hn => ?_⟩
      obtain ⟨-, ⟨log, hlog, horder, hdone⟩, hstack, hpasses⟩ := hbound n hn s fun _ => rfl
      refine ⟨hstack, ⟨log, hlog, horder, fun hok => hdone hok id (List.mem_singleton_self _)⟩,
        fun _ => hpasses, fun h => absurd hcomplete (not_complete h)⟩
    · refine ⟨(names env s.records).card + 2, fun n hn => ?_⟩
      obtain ⟨n, rfl⟩ : ∃ k, n = k + 1 := ⟨n - 1, by omega⟩
      have hfail : ∀ done, featureID env s.records (n + 1) [] [] id ≠ .ok done :=
        fun done hok => hcomplete ((preflight_iff (by omega)).mp ⟨done, hok⟩)
      obtain ⟨e, he⟩ := install_incomplete hcomplete (show (names env s.records).card < n by omega)
      rw [he]
      exact ⟨(fun h => nomatch h), ⟨[], (List.append_nil _).symm, inOrder_nil, fun h => nomatch h⟩,
        fun ⟨done, hok⟩ => absurd hok (hfail done), fun _ => ⟨hfail, e, rfl⟩⟩
  · intro catalog order horder
    refine ⟨(ids catalog).card + (names (walkOnly catalog) []).card + 1, fun n hn => ?_⟩
    have hcheck := @dependencyCheck_iff catalog order n (by omega) horder
    rw [hcheck]
    have hlt : (names (walkOnly catalog) []).card < n := by omega
    refine ⟨forall_congr' fun manifest => forall_congr' fun _ => ?_,
      fun h records manifest hm => ?_⟩
    · rw [preflight_iff hlt]
      exact ⟨fun h => preflight_of_catalog h [], catalog_of_preflight⟩
    · exact ⟨(names (walkOnly catalog) records).card + 1, fun n hn =>
        (preflight_iff (by omega)).mpr (preflight_of_catalog (h manifest hm) records)⟩

/-- A feature of a catalog that requires an imported one. -/
def requiresImported : Catalog where
  entries := [(⟨"a", "1", [], ["b"], [], by decide, Or.inl rfl⟩, "features/a")]
  nodup := by decide

def imported : Records := [⟨⟨"b", "1", [], [], [], by decide, Or.inl rfl⟩, "imported"⟩]

/-- The preflight finds it, the check of the catalog does not. -/
theorem imported_dependency :
    featureID (walkOnly requiresImported) imported 5 [] [] "a" = .ok ["a", "b"] ∧
      dependencyCheck requiresImported.manifests 5 ["a"] =
        .error (.error "missing required feature b") := by
  decide +kernel

end Openlia.Features.Dependencies

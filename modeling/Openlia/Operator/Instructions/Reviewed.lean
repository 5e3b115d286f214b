import Openlia.Lib.Runs
import Openlia.Operator.Instructions.Synced

/-! # A mutation applies what was reviewed

The hashes of a request are compared with the target and the release. The text that is applied is
the copy that was laid aside for review, when there is one.
-/

namespace Openlia.Instructions

open Crash Lib Skills

section OneInstruction

variable {sha256 : Bytes → Sha256} {language : OutputLanguage} {spec : InstructionSpec}
  {s : InstructionFiles}

/-! ## What a review reads -/

/-- The files of an instruction that can be inspected. -/
structure Inspected (sha256 : Bytes → Sha256) (spec : InstructionSpec) (s : InstructionFiles)
    (source current baseline : Bytes) (metadata : InstructionMetadata) : Prop where
  sourceFile : s.source = .regular source
  targetFile : s.target = .regular current
  metadataFile : readInstructionMetadata spec.Name s.metadata = .ok (some metadata)
  baselineFile : s.baseline = some baseline
  matched : instructionHash sha256 baseline = metadata.BaselineHash

theorem inspectInstruction_ok {r : InstructionResult}
    (h : inspectInstruction sha256 spec s = .ok r) :
    ∃ source current baseline metadata, Inspected sha256 spec s source current baseline metadata ∧
      r.CurrentHash = instructionHash sha256 (canonicalInstruction spec current) ∧
      r.AvailableHash = instructionHash sha256 (canonicalInstruction spec source) := by
  obtain ⟨current, hcurrent, h⟩ := except_bind_ok h
  obtain ⟨source, hsource, h⟩ := except_bind_ok h
  obtain ⟨metadata, hmetadata, h⟩ := except_bind_ok h
  cases metadata with
  | none => cases h
  | some metadata =>
      cases hbaseline : s.baseline with
      | none =>
          rw [hbaseline] at h
          cases h
      | some baseline =>
          rw [hbaseline] at h
          dsimp only at h
          split at h
          · cases h
          · rename_i hhash
            cases h
            exact ⟨source, current, baseline, metadata, ⟨readInstructionFile_ok hsource,
              readInstructionFile_ok hcurrent, hmetadata, hbaseline, not_not.mp hhash⟩, rfl, rfl⟩

theorem Inspected.inspect {source current baseline : Bytes} {metadata : InstructionMetadata}
    (h : Inspected sha256 spec s source current baseline metadata) :
    ∃ r, inspectInstruction sha256 spec s = .ok r ∧
      r.CurrentHash = instructionHash sha256 (canonicalInstruction spec current) ∧
      r.AvailableHash = instructionHash sha256 (canonicalInstruction spec source) := by
  unfold inspectInstruction
  rw [h.targetFile, h.sourceFile, h.metadataFile, h.baselineFile]
  exact ⟨_, if_neg (not_not.mpr h.matched), rfl, rfl⟩

/-- The upstream text: the copy that was laid aside, or the text of the release. -/
def upstream (spec : InstructionSpec) (s : InstructionFiles) (source : Bytes) : Bytes :=
  s.available.getD (canonicalInstruction spec source)

theorem Inspected.readAvailable {source current baseline : Bytes} {metadata : InstructionMetadata}
    (h : Inspected sha256 spec s source current baseline metadata) :
    readAvailable spec s = .ok (upstream spec s source) := by
  unfold Instructions.readAvailable upstream
  cases s.available with
  | some available => rfl
  | none =>
      rw [h.sourceFile]
      rfl

/-- The difference between the baseline and the upstream text is shown. -/
theorem Inspected.diff {source current baseline : Bytes} {metadata : InstructionMetadata}
    (h : Inspected sha256 spec s source current baseline metadata) :
    ∃ d, diffInstruction sha256 spec s = .ok d ∧
      d.Upstream = simpleInstructionDiff "baseline" baseline "upstream" (upstream spec s source) := by
  obtain ⟨r, hr, -⟩ := h.inspect
  unfold diffInstruction
  rw [hr, h.baselineFile, h.targetFile, h.readAvailable]
  exact ⟨_, rfl, rfl⟩

/-! ## What a mutation applies -/

variable {action : String} {request : InstructionMutationRequest}
  {backup : Except String String} {stamp : String}

theorem prepareMutation_ok {m : Mutated}
    (h : prepareMutation sha256 spec action request s = .ok m) :
    ∃ source current baseline metadata, Inspected sha256 spec s source current baseline metadata ∧
      request.ExpectedCurrentHash = instructionHash sha256 (canonicalInstruction spec current) ∧
      request.ExpectedAvailableHash = instructionHash sha256 (canonicalInstruction spec source) ∧
      m.metadata = metadata ∧ m.available = upstream spec s source ∧
      mutatedText spec action (some baseline) (canonicalInstruction spec current) m.available =
        .ok (m.result, m.ownership) := by
  unfold prepareMutation at h
  split at h
  · cases h
  · obtain ⟨status, hstatus, h⟩ := except_bind_ok h
    obtain ⟨source, current, baseline, metadata, hi, hcurrent, havailable⟩ :=
      inspectInstruction_ok hstatus
    split at h
    · cases h
    · rename_i hexpected
      rw [not_or, not_not, not_not, hcurrent, havailable] at hexpected
      rw [hi.metadataFile, ok_bind] at h
      dsimp only at h
      have hread : readInstructionFile spec.Target s.target = .ok current := by
        rw [hi.targetFile]
        rfl
      rw [hi.readAvailable, ok_bind, hread, ok_bind, hi.baselineFile] at h
      obtain ⟨⟨result, ownership⟩, hresult, h⟩ := except_bind_ok h
      cases h
      exact ⟨source, current, baseline, metadata, hi, hexpected.1, hexpected.2, rfl, rfl, hresult⟩

/-- A request with another hash is refused, and nothing is written. -/
theorem mutateInstruction_outdated {source current : Bytes} (hsource : s.source = .regular source)
    (hcurrent : s.target = .regular current)
    (h : request.ExpectedCurrentHash ≠ instructionHash sha256 (canonicalInstruction spec current) ∨
      request.ExpectedAvailableHash ≠ instructionHash sha256 (canonicalInstruction spec source)) :
    ∃ e, (mutateInstruction sha256 language spec action request backup stamp).run s =
      ⟨[], s, .error e⟩ := by
  unfold mutateInstruction
  rw [Prog.run_get_bind]
  cases hm : prepareMutation sha256 spec action request s with
  | error e => exact ⟨e, rfl⟩
  | ok m =>
      obtain ⟨source', current', _, _, hi, hcurrent', hsource', -⟩ := prepareMutation_ok hm
      obtain rfl := InstructionFile.regular.inj (hsource.symm.trans hi.sourceFile)
      obtain rfl := InstructionFile.regular.inj (hcurrent.symm.trans hi.targetFile)
      rcases h with h | h
      · exact absurd hcurrent' h
      · exact absurd hsource' h

/-- The target after a mutation. -/
def landedFile (action : String) (s : InstructionFiles) (w : Bytes) : InstructionFile :=
  if action ≠ "keep" then .regular w else s.target

/-- A mutation that succeeds ends with the text, its baseline and the metadata. Before the metadata
are written, the text and maybe the baseline are there. -/
theorem mutateInstruction_ok {r : InstructionMutationResult}
    (h : ((mutateInstruction sha256 language spec action request backup stamp).run s).result =
      .ok r) :
    ∃ m w, prepareMutation sha256 spec action request s = .ok m ∧
      writeText spec language m.result = .ok w ∧
      ((mutateInstruction sha256 language spec action request backup stamp).run s).final =
        { s with
          target := landedFile action s w
          baseline := some m.available
          available := none
          metadata := some (some (m.recorded sha256 stamp)) } ∧
      ∀ t ∈ ((mutateInstruction sha256 language spec action request backup stamp).run
          s).trail.dropLast, SameRest s t ∧ t.target = landedFile action s w ∧
        (t.baseline = s.baseline ∨ t.baseline = some m.available) := by
  unfold mutateInstruction at h ⊢
  rw [Prog.run_get_bind] at h ⊢
  cases hm : prepareMutation sha256 spec action request s with
  | error e =>
      rw [hm] at h
      cases h
  | ok m =>
      rw [hm, Prog.lift_ok, Prog.pure_bind'] at h
      cases hbackup : backup with
      | error e =>
          rw [hbackup] at h
          cases h
      | ok archive =>
          rw [hbackup, Prog.lift_ok, Prog.pure_bind'] at h
          cases hw : writeText spec language m.result with
          | error e =>
              rw [hw] at h
              cases h
          | ok w =>
              refine ⟨m, w, rfl, hw, ?_⟩
              rw [Prog.lift_ok, Prog.pure_bind', Prog.lift_ok, Prog.pure_bind', hw, Prog.lift_ok,
                Prog.pure_bind']
              unfold mutateFiles landedFile
              by_cases hkeep : action = "keep"
              · rw [if_neg (not_not.mpr hkeep), if_neg (not_not.mpr hkeep)]
                refine ⟨rfl, fun t (ht : t ∈ [_, _]) => ?_⟩
                simp only [List.mem_cons, List.not_mem_nil, or_false] at ht
                rcases ht with rfl | rfl
                · exact ⟨⟨rfl, rfl, rfl⟩, rfl, Or.inr rfl⟩
                · exact ⟨⟨rfl, rfl, rfl⟩, rfl, Or.inr rfl⟩
              · rw [if_pos hkeep, if_pos hkeep]
                refine ⟨rfl, fun t (ht : t ∈ [_, _, _]) => ?_⟩
                simp only [List.mem_cons, List.not_mem_nil, or_false] at ht
                rcases ht with rfl | rfl | rfl
                · exact ⟨⟨rfl, rfl, rfl⟩, rfl, Or.inl rfl⟩
                · exact ⟨⟨rfl, rfl, rfl⟩, rfl, Or.inr rfl⟩
                · exact ⟨⟨rfl, rfl, rfl⟩, rfl, Or.inr rfl⟩

/-! ## The review -/

/-- The mutation applied the text with the hash of the request. -/
structure Reviewed (sha256 : Bytes → Sha256) (language : OutputLanguage) (spec : InstructionSpec)
    (action : String) (request : InstructionMutationRequest) (before after : InstructionFiles)
    (source current baseline : Bytes) : Prop where
  availableHash : instructionHash sha256 (upstream spec before source) =
    request.ExpectedAvailableHash
  currentHash : instructionHash sha256 (canonicalInstruction spec current) =
    request.ExpectedCurrentHash
  newBaseline : after.baseline = some (upstream spec before source)
  keep : action = "keep" → after.target = before.target
  reset : action = "reset" → ∃ w, writeText spec language (upstream spec before source) = .ok w ∧
    after.target = .regular w
  merge : action = "merge" → ∃ m w, mergeInstructionLines baseline
      (canonicalInstruction spec current) (upstream spec before source) = .ok m ∧
    writeText spec language m = .ok w ∧ after.target = .regular w
  shown : ∃ d, diffInstruction sha256 spec before = .ok d ∧
    d.Upstream = simpleInstructionDiff "baseline" baseline "upstream" (upstream spec before source)

/-- The copy that was laid aside is that of the release. -/
def UpToDate (sha256 : Bytes → Sha256) (spec : InstructionSpec) (s : InstructionFiles) : Prop :=
  ∀ available ∈ s.available, ∀ source, s.source = .regular source →
    instructionHash sha256 available = instructionHash sha256 (canonicalInstruction spec source)

/-- What a mutation does is what was reviewed, up to the hash of the upstream text. -/
theorem mutateInstruction_reviewed {r : InstructionMutationResult}
    (h : ((mutateInstruction sha256 language spec action request backup stamp).run s).result =
      .ok r) :
    ∃ source current baseline, s.source = .regular source ∧ s.target = .regular current ∧
      s.baseline = some baseline ∧
      (Reviewed sha256 language spec action request s
          ((mutateInstruction sha256 language spec action request backup stamp).run s).final
          source current baseline ↔ UpToDate sha256 spec s) := by
  obtain ⟨m, w, hm, hw, hfinal, -⟩ := mutateInstruction_ok h
  obtain ⟨source, current, baseline, metadata, hi, hcurrent, hsource, -, havailable, hresult⟩ :=
    prepareMutation_ok hm
  refine ⟨source, current, baseline, hi.sourceFile, hi.targetFile, hi.baselineFile, ?_⟩
  have hhash : instructionHash sha256 (upstream spec s source) = request.ExpectedAvailableHash ↔
      UpToDate sha256 spec s := by
    rw [hsource, upstream, UpToDate]
    constructor
    · intro heq available ha source' hs'
      rw [ha, Option.getD_some] at heq
      obtain rfl := InstructionFile.regular.inj (hi.sourceFile.symm.trans hs')
      exact heq
    · intro hsame
      cases ha : s.available with
      | none => rfl
      | some available => exact hsame available ha source hi.sourceFile
  rw [hfinal]
  constructor
  · intro hr
    exact hhash.mp hr.availableHash
  · intro hup
    refine ⟨hhash.mpr hup, hcurrent.symm, congrArg some havailable, ?_, ?_, ?_, hi.diff⟩
    · intro hkeep
      exact if_neg (not_not.mpr hkeep)
    · rintro rfl
      rw [mutatedText, if_neg (by decide), if_pos rfl] at hresult
      obtain ⟨hsame, -⟩ := Prod.mk.inj (Except.ok.inj hresult)
      rw [← havailable, hsame]
      exact ⟨w, hw, rfl⟩
    · rintro rfl
      rw [mutatedText, if_neg (by decide), if_neg (by decide), if_pos rfl] at hresult
      rw [havailable] at hresult
      cases hmerge : mergeInstructionLines baseline (canonicalInstruction spec current)
          (upstream spec s source) with
      | error e =>
          rw [hmerge] at hresult
          cases hresult
      | ok merged =>
          rw [hmerge] at hresult
          obtain ⟨rfl, -⟩ := Prod.mk.inj (Except.ok.inj hresult)
          exact ⟨_, w, rfl, hw, rfl⟩

/-! ## The copy that is laid aside -/

/-- The files of a release, with a copy of it at most. -/
def Staged (sha256 : Bytes → Sha256) (spec : InstructionSpec) (source : InstructionFile)
    (t : InstructionFiles) : Prop :=
  t.source = source ∧ UpToDate sha256 spec t

theorem Staged.of_available {source : InstructionFile} {t u : InstructionFiles}
    (h : Staged sha256 spec source t) (hsource : u.source = t.source)
    (havailable : u.available = t.available ∨ u.available = none) :
    Staged sha256 spec source u := by
  refine ⟨hsource.trans h.1, fun available ha source' hs => ?_⟩
  rcases havailable with heq | heq
  · exact h.2 available (heq ▸ ha) source' (hsource ▸ hs)
  · rw [heq] at ha
    cases ha

theorem preserves_lift {α : Type} {I : InstructionFiles → Prop} (x : Except String α) :
    Preserves I (Prog.lift x) := by
  cases x with
  | error e => exact Preserves.fail e
  | ok a => exact Preserves.pure a

section Staging

variable {file : InstructionFile}

theorem preserves_setTarget (data : Bytes) :
    Preserves (Staged sha256 spec file) (Prog.write (·.setTarget data) : InstructionAction Unit) :=
  Preserves.write fun _ ht => ht.of_available rfl (Or.inl rfl)

theorem preserves_setBaseline (data : Bytes) :
    Preserves (Staged sha256 spec file)
      (Prog.write (·.setBaseline data) : InstructionAction Unit) :=
  Preserves.write fun _ ht => ht.of_available rfl (Or.inl rfl)

theorem preserves_setMetadata (metadata : InstructionMetadata) :
    Preserves (Staged sha256 spec file)
      (Prog.write (·.setMetadata metadata) : InstructionAction Unit) :=
  Preserves.write fun _ ht => ht.of_available rfl (Or.inl rfl)

theorem preserves_removeAvailable :
    Preserves (Staged sha256 spec file)
      (Prog.write (·.setAvailable none) : InstructionAction Unit) :=
  Preserves.write fun _ ht => ht.of_available rfl (Or.inr rfl)

/-- The copy is the text of the release. -/
theorem preserves_setAvailable {sourceData : Bytes} (hfile : file = .regular sourceData) :
    Preserves (Staged sha256 spec file)
      (Prog.write (·.setAvailable (some (canonicalInstruction spec sourceData))) :
        InstructionAction Unit) := by
  refine Preserves.write fun t ht => ⟨ht.1, fun available ha source' hs => ?_⟩
  obtain rfl := Option.some.inj ha
  obtain rfl := InstructionFile.regular.inj ((hfile.symm.trans ht.1.symm).trans hs)
  rfl

theorem preserves_ensureTarget (sourceData : Bytes) (target : InstructionFile) :
    Preserves (Staged sha256 spec file) (ensureTarget language spec sourceData target) := by
  cases target with
  | missing =>
      exact Preserves.bind (preserves_lift _) fun data =>
        Preserves.bind (preserves_setTarget data) fun _ => Preserves.pure data
  | irregular => exact preserves_lift _
  | regular data => exact preserves_lift _

theorem preserves_ensureMetadata (distribution : Distribution) (files : InstructionFiles)
    (source current : Bytes) :
    Preserves (Staged sha256 spec file)
      (ensureMetadata sha256 spec distribution stamp files source current) := by
  unfold ensureMetadata
  refine Preserves.bind (preserves_lift _) fun metadata => ?_
  cases metadata with
  | some metadata => exact Preserves.pure metadata
  | none => exact Preserves.bind (preserves_setBaseline current) fun _ => Preserves.pure _

theorem preserves_updateFiles {sourceData : Bytes} (hfile : file = .regular sourceData)
    (metadata : InstructionMetadata) (baselineHash : String) (current : Bytes) :
    Preserves (Staged sha256 spec file) (updateFiles sha256 language spec metadata baselineHash
      (canonicalInstruction spec sourceData) current) := by
  unfold updateFiles
  refine Preserves.ite (fun _ => ?_) fun _ => Preserves.ite (fun _ => ?_) fun _ => ?_
  · exact Preserves.bind (preserves_lift _) fun data =>
      Preserves.bind (preserves_setTarget data) fun _ =>
        Preserves.bind (preserves_setBaseline _) fun _ =>
          Preserves.bind preserves_removeAvailable fun _ => Preserves.pure _
  · exact Preserves.bind (preserves_setAvailable hfile) fun _ => Preserves.pure _
  · exact Preserves.bind preserves_removeAvailable fun _ => Preserves.pure _

theorem preserves_refreshTarget (current data : Bytes) :
    Preserves (Staged sha256 spec file) (refreshTarget language spec current data) := by
  unfold refreshTarget
  refine Preserves.ite (fun _ => ?_) fun _ => Preserves.pure ()
  refine Preserves.bind (preserves_lift _) fun rendered => ?_
  exact Preserves.ite (fun _ => preserves_setTarget rendered) fun _ => Preserves.pure ()

/-- A synchronisation lays no other copy aside, whether it succeeds or not. -/
theorem syncInstruction_staged (distribution : Distribution) (file : InstructionFile) :
    Preserves (Staged sha256 spec file)
      (syncInstruction sha256 language spec distribution stamp) := by
  unfold syncInstruction
  refine Preserves.bind ?_ fun r => Preserves.bind (preserves_setMetadata _) fun _ =>
    Preserves.pure _
  unfold syncFiles
  refine Preserves.get_bind fun files hfiles => ?_
  refine Spec.conseq (P := Staged sha256 spec file) ?_ (fun t ht => ht ▸ hfiles) (fun _ h => h)
    fun _ _ h => h
  cases hread : readInstructionFile spec.Source files.source with
  | error e => exact Preserves.fail e
  | ok sourceData =>
      have hfile : file = .regular sourceData :=
        hfiles.1.symm.trans (readInstructionFile_ok hread)
      rw [Prog.lift_ok, Prog.pure_bind']
      refine Preserves.bind (preserves_ensureTarget sourceData _) fun data => ?_
      refine Preserves.bind (preserves_ensureMetadata distribution files _ _) fun metadata => ?_
      refine Preserves.bind Preserves.get fun t => ?_
      cases t.baseline with
      | none => exact Preserves.fail _
      | some baseline =>
          refine Preserves.ite (fun _ => Preserves.fail _) fun _ => ?_
          exact Preserves.bind (preserves_updateFiles hfile metadata _ _) fun synced =>
            Preserves.bind (preserves_refreshTarget _ _) fun _ => Preserves.pure _

/-- A mutation lays no copy aside. -/
theorem mutateInstruction_staged (action : String) (request : InstructionMutationRequest)
    (backup : Except String String) (file : InstructionFile) :
    Preserves (Staged sha256 spec file)
      (mutateInstruction sha256 language spec action request backup stamp) := by
  unfold mutateInstruction
  refine Preserves.bind Preserves.get fun files => ?_
  refine Preserves.bind (preserves_lift _) fun mutated => ?_
  refine Preserves.bind (preserves_lift _) fun archive => ?_
  refine Preserves.bind (preserves_lift _) fun data => ?_
  refine Preserves.bind ?_ fun _ => Preserves.bind (preserves_setMetadata _) fun _ =>
    Preserves.pure _
  have hrest : Preserves (Staged sha256 spec file) (do
      Prog.write (·.setBaseline mutated.available)
      Prog.write (·.setAvailable none) : InstructionAction Unit) :=
    Preserves.bind (preserves_setBaseline _) fun _ => preserves_removeAvailable
  unfold mutateFiles
  exact Preserves.ite (fun _ => Preserves.bind (preserves_setTarget data) fun _ => hrest)
    fun _ => hrest

/-- After a synchronisation that succeeds, the copy is that of the release. -/
theorem upToDate_of_synced {distribution : Distribution} {r : InstructionResult}
    (h : ((syncInstruction sha256 language spec distribution stamp).run s).result = .ok r) :
    UpToDate sha256 spec
      ((syncInstruction sha256 language spec distribution stamp).run s).final := by
  obtain ⟨source, data, ownership, baseline, w, hseen, hw⟩ := seen_of_ok h
  obtain ⟨trail, final, r', hrun, hfinal, -⟩ :=
    @syncInstruction_run sha256 language spec distribution stamp _ _ _ _ _ _ hseen hw
  obtain ⟨⟨sourceData, hsource, rfl, -⟩, -⟩ := hseen
  rw [hrun]
  intro available ha source' hs
  rw [hfinal.sourceFile, hsource] at hs
  obtain rfl := InstructionFile.regular.inj hs
  rcases hfinal.availableFile with heq | heq
  · rw [heq] at ha
    cases ha
  · rw [heq] at ha
    obtain rfl := Option.some.inj ha
    rfl

end Staging

end OneInstruction

/-! ## Histories -/

/-- What happens to the instructions. -/
inductive InstructionEvent where
  | release (sources : String → InstructionFile)
  | edit (name : String) (file : InstructionFile)
  | sync (distribution : Distribution) (stamp : String)
  | mutate (name action : String) (request : InstructionMutationRequest)
      (backup : Except String String) (stamp : String)

section Histories

variable {sha256 : Bytes → Sha256} {config : InstructionConfig}

def Instructions.next (sha256 : Bytes → Sha256) (config : InstructionConfig)
    (state : Instructions) : InstructionEvent → Instructions
  | .release sources => fun name => { state name with source := sources name }
  | .edit name file => Function.update state name { state name with target := file }
  | .sync distribution stamp =>
      ((SyncInstructions sha256 config distribution stamp).run state).final
  | .mutate name action request backup stamp =>
      ((MutateInstruction sha256 config name action request backup stamp).run state).final

abbrev InstructionRun (sha256 : Bytes → Sha256) (config : InstructionConfig) :=
  Run fun state event state' => Instructions.next sha256 config state event = state'

/-- The copy of each instruction is that of the release. -/
def AllUpToDate (sha256 : Bytes → Sha256) (config : InstructionConfig) (state : Instructions) :
    Prop :=
  ∀ spec ∈ instructionSpecs config, UpToDate sha256 spec (state spec.Name)

def InstructionEvent.isRelease : InstructionEvent → Bool
  | .release _ => true
  | _ => false

theorem instructionSpecByName_ok {name : String} {spec : InstructionSpec}
    (h : instructionSpecByName config name = .ok spec) :
    spec ∈ instructionSpecs config ∧ spec.Name = name := by
  unfold instructionSpecByName at h
  split at h
  · rename_i spec' hfind
    cases h
    have hname := List.find?_some hfind
    exact ⟨List.mem_of_find?_eq_some hfind, beq_iff_eq.mp hname⟩
  · cases h

theorem spec_unique {spec spec' : InstructionSpec} (h : spec ∈ instructionSpecs config)
    (h' : spec' ∈ instructionSpecs config) (hname : spec.Name = spec'.Name) : spec = spec' :=
  List.inj_on_of_nodup_map (instructionSpecs_names config) h h' hname

theorem preserves_onFiles {α : Type} {spec : InstructionSpec}
    (hspec : spec ∈ instructionSpecs config) {p : InstructionAction α}
    (hp : ∀ file, Preserves (Staged sha256 spec file) p) :
    Preserves (AllUpToDate sha256 config) (onFiles spec.Name p) := by
  refine Spec.focus fun state hstate => ?_
  have hput : ∀ t, Staged sha256 spec (state spec.Name).source t →
      AllUpToDate sha256 config (Function.update state spec.Name t) := by
    intro t ht spec' hspec'
    by_cases hname : spec'.Name = spec.Name
    · obtain rfl := spec_unique hspec' hspec hname
      rw [Function.update_self]
      exact ht.2
    · rw [Function.update_of_ne hname]
      exact hstate spec' hspec'
  refine (hp (state spec.Name).source).conseq ?_ (fun t ht => hput t ht) fun _ t ht => hput t ht
  rintro t rfl
  exact ⟨rfl, hstate spec hspec⟩

theorem preserves_SyncInstructions (distribution : Distribution) (stamp : String) :
    Preserves (AllUpToDate sha256 config)
      (SyncInstructions sha256 config distribution stamp) := by
  have hall : ∀ specs : List InstructionSpec, (∀ spec ∈ specs, spec ∈ instructionSpecs config) →
      Preserves (AllUpToDate sha256 config)
        (syncAll sha256 config distribution stamp specs) := by
    intro specs
    induction specs with
    | nil => exact fun _ => Preserves.pure []
    | cons spec specs ih =>
        intro hspecs
        have hrest := ih fun spec' hspec' => hspecs spec' (List.mem_cons_of_mem _ hspec')
        refine Preserves.bind Preserves.get fun state => Preserves.ite (fun _ => hrest) fun _ => ?_
        exact Preserves.bind (preserves_onFiles (hspecs spec List.mem_cons_self)
          (syncInstruction_staged distribution)) fun _ =>
            Preserves.bind hrest fun _ => Preserves.pure _
  exact Preserves.bind (hall _ fun _ h => h) fun _ => Preserves.pure _

/-- Until the next release, the copies stay those of the release. -/
theorem next_upToDate {state : Instructions} {event : InstructionEvent}
    (h : AllUpToDate sha256 config state) (hrelease : event.isRelease = false) :
    AllUpToDate sha256 config (Instructions.next sha256 config state event) := by
  cases event with
  | release sources => cases hrelease
  | edit name file =>
      intro spec hspec
      rw [Instructions.next]
      by_cases hname : spec.Name = name
      · rw [hname, Function.update_self]
        exact hname ▸ h spec hspec
      · rw [Function.update_of_ne hname]
        exact h spec hspec
  | sync distribution stamp => exact (preserves_SyncInstructions distribution stamp).final h
  | mutate name action request backup stamp =>
      refine Preserves.final ?_ h
      unfold MutateInstruction
      refine Preserves.ite (fun _ => Preserves.fail _) fun _ => ?_
      cases hname : instructionSpecByName config name with
      | error e => exact Preserves.fail e
      | ok spec =>
          rw [Prog.lift_ok, Prog.pure_bind']
          exact preserves_onFiles (instructionSpecByName_ok hname).1
            (mutateInstruction_staged action request backup)

theorem SyncInstructions_upToDate {distribution : Distribution} {stamp : String}
    {state : Instructions} {r : InstructionStatusResult}
    (h : ((SyncInstructions sha256 config distribution stamp).run state).result = .ok r) :
    AllUpToDate sha256 config
      ((SyncInstructions sha256 config distribution stamp).run state).final := by
  obtain ⟨hok, hfinal⟩ := @SyncInstructions_run sha256 config distribution stamp state
  have hall := hok.mp ⟨r, h⟩
  intro spec hspec
  rw [hfinal hall spec hspec]
  split
  · rename_i hmissing
    intro available _ source hs
    rw [hmissing] at hs
    cases hs
  · rename_i hpresent
    obtain ⟨r', hr'⟩ := hall spec hspec hpresent
    exact upToDate_of_synced hr'

theorem MutateInstruction_ok {name action : String} {request : InstructionMutationRequest}
    {backup : Except String String} {stamp : String} {state : Instructions}
    {r : InstructionMutationResult}
    (h : ((MutateInstruction sha256 config name action request backup stamp).run state).result =
      .ok r) :
    ∃ spec ∈ instructionSpecs config, spec.Name = name ∧
      ((mutateInstruction sha256 config.OutputLanguage spec action request backup stamp).run
        (state name)).result = .ok r ∧
      ((MutateInstruction sha256 config name action request backup stamp).run state).final name =
        ((mutateInstruction sha256 config.OutputLanguage spec action request backup stamp).run
          (state name)).final := by
  unfold MutateInstruction at h ⊢
  split at h
  · cases h
  · rename_i hschema
    rw [if_neg hschema]
    cases hname : instructionSpecByName config name with
    | error e =>
        rw [hname] at h
        cases h
    | ok spec =>
        rw [hname, Prog.lift_ok, Prog.pure_bind'] at h
        rw [Prog.lift_ok, Prog.pure_bind']
        obtain ⟨hspec, rfl⟩ := instructionSpecByName_ok hname
        exact ⟨spec, hspec, rfl, h, Function.update_self _ _ _⟩

theorem MutateInstruction_outdated {action : String} {request : InstructionMutationRequest}
    {backup : Except String String} {stamp : String} {state : Instructions}
    {spec : InstructionSpec} (hspec : spec ∈ instructionSpecs config) {source current : Bytes}
    (hsource : (state spec.Name).source = .regular source)
    (hcurrent : (state spec.Name).target = .regular current)
    (h : request.ExpectedCurrentHash ≠ instructionHash sha256 (canonicalInstruction spec current) ∨
      request.ExpectedAvailableHash ≠ instructionHash sha256 (canonicalInstruction spec source)) :
    ∃ e, (MutateInstruction sha256 config spec.Name action request backup stamp).run state =
      ⟨[], state, .error e⟩ := by
  unfold MutateInstruction
  split
  · exact ⟨_, rfl⟩
  · cases hname : instructionSpecByName config spec.Name with
    | error e => exact ⟨e, rfl⟩
    | ok spec' =>
        obtain ⟨hspec', hsame⟩ := instructionSpecByName_ok hname
        obtain rfl := spec_unique hspec' hspec hsame
        obtain ⟨e, he⟩ := @mutateInstruction_outdated sha256 config.OutputLanguage _ _ action
          request backup stamp _ _ hsource hcurrent h
        refine ⟨e, ?_⟩
        rw [Prog.lift_ok, Prog.pure_bind']
        change Outcome.mk _ _ _ = _
        rw [he]
        exact congrArg (fun s => Outcome.mk [] s (.error e)) (Function.update_eq_self _ state)

/-- In every history a mutation applies what was reviewed exactly when the copy that was laid aside
is that of the release, an outdated request is refused, and the copies are those of the release
from a synchronisation to the next release. -/
theorem instruction_mutations_reviewed {start state : Instructions}
    {taken : List (Taken Instructions InstructionEvent)}
    (hrun : InstructionRun sha256 config start taken state) :
    (∀ x ∈ taken, ∀ name action request backup stamp,
      x.action = .mutate name action request backup stamp →
      (∀ r, ((MutateInstruction sha256 config name action request backup stamp).run
          x.before).result = .ok r →
        ∃ spec ∈ instructionSpecs config, spec.Name = name ∧ ∃ source current baseline,
          (x.before name).source = .regular source ∧ (x.before name).target = .regular current ∧
          (x.before name).baseline = some baseline ∧
          (Reviewed sha256 config.OutputLanguage spec action request (x.before name)
            (x.after name) source current baseline ↔ UpToDate sha256 spec (x.before name))) ∧
      ∀ spec ∈ instructionSpecs config, spec.Name = name → ∀ source current,
        (x.before name).source = .regular source → (x.before name).target = .regular current →
        request.ExpectedCurrentHash ≠
            instructionHash sha256 (canonicalInstruction spec current) ∨
          request.ExpectedAvailableHash ≠
            instructionHash sha256 (canonicalInstruction spec source) →
        x.after = x.before ∧
          ∃ e, ((MutateInstruction sha256 config name action request backup stamp).run
            x.before).result = .error e) ∧
    ∀ pre x post, taken = pre ++ x :: post → ∀ distribution stamp r,
      x.action = .sync distribution stamp →
      ((SyncInstructions sha256 config distribution stamp).run x.before).result = .ok r →
      (∀ y ∈ post, y.action.isRelease = false) → ∀ y ∈ post, AllUpToDate sha256 config y.before := by
  refine ⟨fun x hx name action request backup stamp haction => ?_, ?_⟩
  · have hafter := hrun.allowed x hx
    rw [haction, Instructions.next] at hafter
    refine ⟨fun r hr => ?_, ?_⟩
    · obtain ⟨spec, hspec, hname, hok, hfinal⟩ := MutateInstruction_ok hr
      obtain ⟨source, current, baseline, hs, ht, hb, hiff⟩ := mutateInstruction_reviewed hok
      rw [← hfinal, hafter] at hiff
      exact ⟨spec, hspec, hname, source, current, baseline, hs, ht, hb, hiff⟩
    · rintro spec hspec rfl source current hs ht hne
      obtain ⟨e, he⟩ := @MutateInstruction_outdated sha256 config action request backup stamp _ _
        hspec _ _ hs ht hne
      rw [he] at hafter ⊢
      exact ⟨hafter.symm, e, rfl⟩
  · intro pre x post htaken distribution stamp r haction hr hrelease y hy
    obtain ⟨-, hstep, hpost⟩ := hrun.split htaken
    rw [haction, Instructions.next] at hstep
    have hsynced := SyncInstructions_upToDate hr
    rw [hstep] at hsynced
    exact ((hpost.invariant_of hsynced
      (fun s a t hs hnext (hC : a.isRelease = false) => hnext ▸ next_upToDate hs hC)
        hrelease).2 y hy).1

theorem exists_ok {ε α : Type} {x : Except ε α} (h : x.isOk = true) : ∃ a, x = .ok a := by
  cases x with
  | error e => cases h
  | ok a => exact ⟨a, rfl⟩

/-- A digest that tells texts of different lengths apart. -/
def lengthSha256 (data : Bytes) : Sha256 :=
  ⟨String.ofList (List.replicate 64 (Nat.digitChar (data.length % 10))), by
    have hdigit : ∀ n < 10, '0' ≤ Nat.digitChar n ∧ Nat.digitChar n ≤ '9' := by decide
    rw [String.toList_ofList]
    refine ⟨List.length_replicate, fun c hc => Or.inl ?_⟩
    rw [List.eq_of_mem_replicate hc]
    exact hdigit _ (Nat.mod_lt _ (by decide))⟩

def exampleConfig : InstructionConfig := ⟨"/openlia", "/data", english⟩

def releaseText (data : Bytes) : String → InstructionFile := fun _ => .regular data

/-- The user has a text of five bytes, and the release one of two. -/
def firstState : Instructions := fun name =>
  if name = "profile/AGENTS.md" then
    ⟨.regular [1, 2], .regular [1, 2, 3, 4, 5], none, none, none, none⟩
  else ⟨.missing, .missing, none, none, none, none⟩

def resetRequest (available : Bytes) : InstructionMutationRequest :=
  ⟨1, instructionHash lengthSha256 [1, 2, 3, 4, 5], instructionHash lengthSha256 available⟩

def resetEvent (available : Bytes) : InstructionEvent :=
  .mutate "profile/AGENTS.md" "reset" (resetRequest available) (.ok "rollback.tar.gz") "now"

def syncEvent : InstructionEvent := .sync ⟨"1", "source"⟩ "now"

def syncedState : Instructions :=
  Instructions.next lengthSha256 exampleConfig firstState syncEvent

/-- After a synchronisation, the text of the release that was reviewed is installed. -/
theorem instruction_mutations_reviewed_synced :
    ∃ taken state, InstructionRun lengthSha256 exampleConfig firstState taken state ∧
      ∃ x ∈ taken, x.action = resetEvent [1, 2] ∧ ∃ spec ∈ instructionSpecs exampleConfig,
        ∃ source current baseline, Reviewed lengthSha256 english spec "reset" (resetRequest [1, 2])
          (x.before "profile/AGENTS.md") (x.after "profile/AGENTS.md") source current baseline := by
  have hrun : InstructionRun lengthSha256 exampleConfig firstState
      [⟨firstState, syncEvent, syncedState⟩, ⟨syncedState, resetEvent [1, 2],
        Instructions.next lengthSha256 exampleConfig syncedState (resetEvent [1, 2])⟩] _ :=
    (Run.start.step syncEvent rfl).step (resetEvent [1, 2]) rfl
  obtain ⟨hmutate, hsync⟩ := instruction_mutations_reviewed hrun
  obtain ⟨r, hr⟩ := exists_ok (show ((SyncInstructions lengthSha256 exampleConfig
    ⟨"1", "source"⟩ "now").run firstState).result.isOk = true by decide +kernel)
  obtain ⟨r', hr'⟩ := exists_ok (show ((MutateInstruction lengthSha256 exampleConfig
    "profile/AGENTS.md" "reset" (resetRequest [1, 2]) (.ok "rollback.tar.gz") "now").run
      syncedState).result.isOk = true by decide +kernel)
  have hlast := List.mem_cons_of_mem (⟨firstState, syncEvent, syncedState⟩ : Taken _ _)
    (List.mem_singleton_self (⟨syncedState, resetEvent [1, 2], Instructions.next lengthSha256
      exampleConfig syncedState (resetEvent [1, 2])⟩ : Taken _ _))
  obtain ⟨spec, hspec, hname, source, current, baseline, -, -, -, hiff⟩ :=
    (hmutate _ hlast "profile/AGENTS.md" "reset" (resetRequest [1, 2]) (.ok "rollback.tar.gz") "now"
      rfl).1 r' (by dsimp only; rw [hr'])
  have hreset : ∀ y ∈ [(⟨syncedState, resetEvent [1, 2], Instructions.next lengthSha256
      exampleConfig syncedState (resetEvent [1, 2])⟩ : Taken _ _)], y.action.isRelease = false := by
    intro y hy
    rw [List.mem_singleton.mp hy]
    rfl
  have hup := hsync [] ⟨firstState, syncEvent, syncedState⟩ _ rfl ⟨"1", "source"⟩ "now" r rfl hr
    hreset _ (List.mem_singleton_self _) spec hspec
  rw [hname] at hup
  exact ⟨_, _, hrun, _, hlast, rfl, spec, hspec, source, current, baseline, hiff.mpr hup⟩

def releasedState : Instructions :=
  Instructions.next lengthSha256 exampleConfig syncedState (.release (releaseText [1, 2, 3]))

/-- After another release, the hash of its text is taken and the text of the last is installed. -/
theorem stale_copy_installed :
    ∃ taken state, InstructionRun lengthSha256 exampleConfig firstState taken state ∧
      ∃ x ∈ taken, ∃ r, x.action = resetEvent [1, 2, 3] ∧
        ((MutateInstruction lengthSha256 exampleConfig "profile/AGENTS.md" "reset"
          (resetRequest [1, 2, 3]) (.ok "rollback.tar.gz") "now").run x.before).result = .ok r ∧
        (x.before "profile/AGENTS.md").source = .regular [1, 2, 3] ∧
        (x.after "profile/AGENTS.md").target = .regular [1, 2] ∧
        ∀ spec source current baseline, ¬ Reviewed lengthSha256 english spec "reset"
          (resetRequest [1, 2, 3]) (x.before "profile/AGENTS.md") (x.after "profile/AGENTS.md")
            source current baseline := by
  have hrun : InstructionRun lengthSha256 exampleConfig firstState
      ([⟨firstState, syncEvent, syncedState⟩,
        ⟨syncedState, .release (releaseText [1, 2, 3]), releasedState⟩] ++
        [⟨releasedState, resetEvent [1, 2, 3],
          Instructions.next lengthSha256 exampleConfig releasedState (resetEvent [1, 2, 3])⟩]) _ :=
    ((Run.start.step syncEvent rfl).step _ rfl).step (resetEvent [1, 2, 3]) rfl
  obtain ⟨r, hr⟩ := exists_ok (show ((MutateInstruction lengthSha256 exampleConfig
    "profile/AGENTS.md" "reset" (resetRequest [1, 2, 3]) (.ok "rollback.tar.gz") "now").run
      releasedState).result.isOk = true by decide +kernel)
  refine ⟨_, _, hrun, _, List.mem_append_right _ (List.mem_singleton_self _), r, rfl, hr, rfl,
    by decide +kernel, fun spec source current baseline h => ?_⟩
  have hhash := h.availableHash
  rw [upstream, show (releasedState "profile/AGENTS.md").available = some [1, 2] by decide +kernel,
    Option.getD_some] at hhash
  exact absurd hhash (by decide +kernel)

end Histories

end Openlia.Instructions

import Openlia.Lib.Results
import Openlia.Operator.Instructions.Commands

/-! # What synchronising does

A synchronisation sees the texts of the release and the target, and the metadata and the baseline
that stand for them or are new. From these it is a straight line of writes.
-/

namespace Openlia.Instructions

open Crash Lib Skills

section OneInstruction

variable {sha256 : Bytes → Sha256} {language : OutputLanguage} {spec : InstructionSpec}
  {distribution : Distribution} {stamp : String} {s : InstructionFiles}

/-! ## Stages -/

theorem readInstructionFile_ok {path : String} {file : InstructionFile} {data : Bytes}
    (h : readInstructionFile path file = .ok data) : file = .regular data := by
  cases file with
  | missing => cases h
  | irregular => cases h
  | regular d =>
      cases h
      rfl

theorem readInstructionMetadata_ok {name : String} {file : Option (Option InstructionMetadata)}
    {metadata : InstructionMetadata} (h : readInstructionMetadata name file = .ok (some metadata)) :
    file = some (some metadata) := by
  unfold readInstructionMetadata at h
  split at h
  · cases h
  · cases h
  · split at h
    · cases h
    · cases h
      rfl

theorem readInstructionMetadata_none {name : String} {file : Option (Option InstructionMetadata)}
    (h : readInstructionMetadata name file = .ok none) : file = none := by
  unfold readInstructionMetadata at h
  split at h
  · rfl
  · cases h
  · split at h
    · cases h
    · cases h

/-- The text that a synchronisation takes for the target. -/
inductive Opened (language : OutputLanguage) (spec : InstructionSpec) (sourceData : Bytes) :
    InstructionFile → Bytes → Prop
  | installed {data : Bytes} : writeText spec language sourceData = .ok data →
      Opened language spec sourceData .missing data
  | present (data : Bytes) : Opened language spec sourceData (.regular data) data

/-- The metadata and the baseline that a synchronisation starts from. -/
inductive Based (sha256 : Bytes → Sha256) (spec : InstructionSpec) (s : InstructionFiles)
    (source current : Bytes) : String → Bytes → Prop
  | new : s.metadata = none →
      Based sha256 spec s source current (firstOwnership sha256 spec s.legacyHash source current)
        current
  | known {metadata : InstructionMetadata} {baseline : Bytes} :
      readInstructionMetadata spec.Name s.metadata = .ok (some metadata) →
      s.baseline = some baseline → instructionHash sha256 baseline = metadata.BaselineHash →
      Based sha256 spec s source current metadata.Ownership baseline

/-- What a synchronisation sees. -/
structure Seen (sha256 : Bytes → Sha256) (language : OutputLanguage) (spec : InstructionSpec)
    (s : InstructionFiles) (source data : Bytes) (ownership : String) (baseline : Bytes) :
    Prop where
  opened : ∃ sourceData, s.source = .regular sourceData ∧
    source = canonicalInstruction spec sourceData ∧ Opened language spec sourceData s.target data
  based : Based sha256 spec s source (canonicalInstruction spec data) ownership baseline

/-- The release takes the place of the text. -/
def Updates (sha256 : Bytes → Sha256) (spec : InstructionSpec) (source current : Bytes)
    (ownership : String) (baseline : Bytes) : Bool :=
  updatesManaged spec ownership (instructionHash sha256 current) (instructionHash sha256 baseline)
    (instructionHash sha256 source)

/-- The text after a synchronisation. -/
def kept (sha256 : Bytes → Sha256) (spec : InstructionSpec) (source current : Bytes)
    (ownership : String) (baseline : Bytes) : Bytes :=
  if Updates sha256 spec source current ownership baseline then source else current

theorem InstructionFiles.setTarget_self {data : Bytes} (h : s.target = .regular data) :
    s.setTarget data = s := by
  rw [setTarget, ← h]

theorem InstructionFiles.setBaseline_self {data : Bytes} (h : s.baseline = some data) :
    s.setBaseline data = s := by
  rw [setBaseline, ← h]

theorem ensureTarget_run {sourceData data : Bytes}
    (h : Opened language spec sourceData s.target data) :
    ∃ trail, (ensureTarget language spec sourceData s.target).run s =
      ⟨trail, s.setTarget data, .ok data⟩ ∧ ∀ t ∈ trail, t = s.setTarget data := by
  generalize htarget : s.target = target at h
  cases h with
  | installed hw =>
      refine ⟨[s.setTarget data], ?_, fun t ht => List.mem_singleton.mp ht⟩
      rw [ensureTarget, hw]
      rfl
  | present =>
      refine ⟨[], ?_, by rintro t ⟨⟩⟩
      rw [InstructionFiles.setTarget_self htarget]
      rfl

theorem append_ne_empty {a : String} (h : a ≠ "") (b : String) : a ++ b ≠ "" := by
  intro hab
  have hlist := congrArg String.toList hab
  rw [String.toList_append, String.toList_empty, List.append_eq_nil_iff] at hlist
  exact h (String.toList_eq_nil_iff.mp hlist.1)

theorem instructionHash_ne_empty (data : Bytes) : instructionHash sha256 data ≠ "" :=
  append_ne_empty (by decide) _

theorem snapshotPath_ne_empty (name file : String) : snapshotPath name file ≠ "" :=
  append_ne_empty (append_ne_empty (append_ne_empty (by decide) _) _) _

/-- The metadata of an instruction, with the hash of a baseline. -/
structure Describes (sha256 : Bytes → Sha256) (spec : InstructionSpec) (baseline : Bytes)
    (ownership : String) (metadata : InstructionMetadata) : Prop where
  valid : readInstructionMetadata spec.Name (some (some metadata)) = .ok (some metadata)
  ownership : metadata.Ownership = ownership
  baselineHash : metadata.BaselineHash = instructionHash sha256 baseline

theorem describes {metadata : InstructionMetadata} {baseline : Bytes} {ownership : String}
    (hschema : metadata.Schema = 1) (hname : metadata.Name = spec.Name)
    (hsnapshot : metadata.BaselineSnapshot ≠ "") (hownership : metadata.Ownership = ownership)
    (hhash : metadata.BaselineHash = instructionHash sha256 baseline) :
    Describes sha256 spec baseline ownership metadata := by
  refine ⟨?_, hownership, hhash⟩
  rw [readInstructionMetadata, if_neg]
  rintro (h | h | h | h)
  · exact h hschema
  · exact h hname
  · exact instructionHash_ne_empty baseline (hhash.symm.trans h)
  · exact hsnapshot h

theorem Describes.fields {metadata : InstructionMetadata} {baseline : Bytes} {ownership : String}
    (h : Describes sha256 spec baseline ownership metadata) :
    metadata.Schema = 1 ∧ metadata.Name = spec.Name ∧ metadata.BaselineSnapshot ≠ "" := by
  have hvalid := h.valid
  rw [readInstructionMetadata] at hvalid
  split at hvalid
  · cases hvalid
  · rename_i hfields
    simp only [not_or, not_not] at hfields
    exact ⟨hfields.1, hfields.2.1, hfields.2.2.2⟩

theorem ensureMetadata_run {source current baseline : Bytes} {ownership : String}
    (h : Based sha256 spec s source current ownership baseline) {t : InstructionFiles}
    (ht : t.baseline = s.baseline) :
    ∃ trail metadata,
      (ensureMetadata sha256 spec distribution stamp s source current).run t =
        ⟨trail, t.setBaseline baseline, .ok metadata⟩ ∧
      Describes sha256 spec baseline ownership metadata ∧
      ∀ u ∈ trail, u = t.setBaseline baseline ∧ s.metadata = none := by
  cases h with
  | new hnone =>
      refine ⟨[t.setBaseline current], _, by rw [ensureMetadata, hnone]; rfl,
        describes rfl rfl (snapshotPath_ne_empty _ _) rfl rfl, fun u hu => ?_⟩
      exact ⟨List.mem_singleton.mp hu, hnone⟩
  | @known metadata _ hmetadata hbaseline hhash =>
      refine ⟨[], metadata, ?_, ⟨?_, rfl, hhash.symm⟩, by rintro u ⟨⟩⟩
      · rw [ensureMetadata, hmetadata, InstructionFiles.setBaseline_self (ht.trans hbaseline)]
        rfl
      · rw [← readInstructionMetadata_ok hmetadata]
        exact hmetadata

/-- The files that only a release or the last write of a command changes. -/
structure SameRest (s t : InstructionFiles) : Prop where
  source : t.source = s.source
  legacyHash : t.legacyHash = s.legacyHash
  metadata : t.metadata = s.metadata

section Run

variable {source current baseline : Bytes} {ownership : String} {w : Bytes}

/-- The baseline after a synchronisation. -/
def rebased (sha256 : Bytes → Sha256) (spec : InstructionSpec) (source current : Bytes)
    (ownership : String) (baseline : Bytes) : Bytes :=
  if Updates sha256 spec source current ownership baseline then source else baseline

/-- A state while the release takes the place of the text. -/
structure Torn (source baseline w : Bytes) (t : InstructionFiles) : Prop where
  target : t.target = .regular w
  baseline : t.baseline = some baseline ∨ t.baseline = some source

/-- What `updateFiles` leaves. -/
structure Updated (sha256 : Bytes → Sha256) (spec : InstructionSpec)
    (source current : Bytes) (ownership : String) (baseline : Bytes) (synced : Synced) : Prop where
  text : synced.current = kept sha256 spec source current ownership baseline
  hash : synced.baselineHash =
    instructionHash sha256 (rebased sha256 spec source current ownership baseline)
  changed : synced.localChanged = (instructionHash sha256 synced.current != synced.baselineHash)
  owner : synced.metadata.Ownership = ownership
  fields : synced.metadata.Schema = 1 ∧ synced.metadata.Name = spec.Name ∧
    synced.metadata.BaselineSnapshot ≠ ""

/-- The release takes the place of the text. -/
theorem updateFiles_managed {metadata : InstructionMetadata}
    (hm : Describes sha256 spec baseline ownership metadata)
    (hup : Updates sha256 spec source current ownership baseline = true)
    (hw : writeText spec language source = .ok w) {t : InstructionFiles}
    (ht : t.baseline = some baseline) :
    ∃ trail synced,
      (updateFiles sha256 language spec metadata (instructionHash sha256 baseline) source
          current).run t =
        ⟨trail, ((t.setTarget w).setBaseline source).setAvailable none, .ok synced⟩ ∧
      Updated sha256 spec source current ownership baseline synced ∧
      ∀ u ∈ trail, SameRest t u ∧ Torn source baseline w u := by
  have hmanaged : updatesManaged spec metadata.Ownership (instructionHash sha256 current)
      (instructionHash sha256 baseline) (instructionHash sha256 source) = true := by
    rw [hm.ownership]
    exact hup
  refine ⟨[t.setTarget w, (t.setTarget w).setBaseline source,
    ((t.setTarget w).setBaseline source).setAvailable none],
    ⟨source, instructionHash sha256 source, false, false, "updated",
      { metadata with AvailableHash := "", AvailableSnapshot := "" }⟩, ?_,
    ⟨?_, ?_, ?_, hm.ownership, hm.fields⟩, ?_⟩
  · unfold updateFiles
    dsimp only
    rw [if_pos hmanaged, hw]
    rfl
  · rw [kept, hup, if_pos rfl]
  · rw [rebased, hup, if_pos rfl]
  · simp
  · intro u hu
    simp only [List.mem_cons, List.not_mem_nil, or_false] at hu
    rcases hu with rfl | rfl | rfl
    · exact ⟨⟨rfl, rfl, rfl⟩, rfl, Or.inl ht⟩
    · exact ⟨⟨rfl, rfl, rfl⟩, rfl, Or.inr rfl⟩
    · exact ⟨⟨rfl, rfl, rfl⟩, rfl, Or.inr rfl⟩

/-- The text stays. -/
theorem updateFiles_kept {metadata : InstructionMetadata}
    (hm : Describes sha256 spec baseline ownership metadata)
    (hup : Updates sha256 spec source current ownership baseline = false) (t : InstructionFiles) :
    ∃ trail available synced,
      (updateFiles sha256 language spec metadata (instructionHash sha256 baseline) source
          current).run t = ⟨trail, t.setAvailable available, .ok synced⟩ ∧
      (available = none ∨ available = some source) ∧
      Updated sha256 spec source current ownership baseline synced ∧
      ∀ u ∈ trail, u = t.setAvailable available := by
  have hmanaged : ¬ updatesManaged spec metadata.Ownership (instructionHash sha256 current)
      (instructionHash sha256 baseline) (instructionHash sha256 source) = true := by
    rw [hm.ownership, show updatesManaged spec ownership _ _ _ = false from hup]
    exact Bool.false_ne_true
  have hkept : current = kept sha256 spec source current ownership baseline := by
    rw [kept, hup, if_neg Bool.false_ne_true]
  have hrebased : instructionHash sha256 baseline =
      instructionHash sha256 (rebased sha256 spec source current ownership baseline) := by
    rw [rebased, hup, if_neg Bool.false_ne_true]
  unfold updateFiles
  dsimp only
  rw [if_neg hmanaged]
  split
  · exact ⟨[t.setAvailable (some source)], some source, _, rfl, Or.inr rfl,
      ⟨hkept, hrebased, rfl, hm.ownership, hm.fields⟩, fun u hu => List.mem_singleton.mp hu⟩
  · exact ⟨[t.setAvailable none], none, _, rfl, Or.inl rfl,
      ⟨hkept, hrebased, rfl, hm.ownership, hm.fields⟩, fun u hu => List.mem_singleton.mp hu⟩

theorem refreshTarget_run {data : Bytes} (hw : writeText spec language current = .ok w)
    {t : InstructionFiles} (ht : t.target = .regular w ∨ t.target = .regular data)
    (hdata : spec.Soul = false → t.target = .regular w) :
    ∃ trail, (refreshTarget language spec current data).run t = ⟨trail, t.setTarget w, .ok ()⟩ ∧
      ∀ u ∈ trail, u = t.setTarget w := by
  unfold refreshTarget
  rw [writeText] at hw
  cases hsoul : spec.Soul with
  | false =>
      refine ⟨[], ?_, by rintro u ⟨⟩⟩
      rw [InstructionFiles.setTarget_self (hdata hsoul)]
      rfl
  | true =>
      rw [hsoul, if_pos rfl] at hw
      rw [if_pos rfl, hw]
      by_cases hne : w = data
      · refine ⟨[], ?_, by rintro u ⟨⟩⟩
        have hself : t.target = .regular w := by
          rcases ht with ht | ht
          · exact ht
          · rw [hne]
            exact ht
        rw [InstructionFiles.setTarget_self hself, Prog.lift_ok, Prog.pure_bind',
          if_neg (not_not.mpr hne)]
        rfl
      · refine ⟨[t.setTarget w], ?_, fun u hu => List.mem_singleton.mp hu⟩
        rw [Prog.lift_ok, Prog.pure_bind', if_pos hne]
        rfl

variable {data : Bytes}

theorem canonicalInstruction_plain (hsoul : spec.Soul = false) (data : Bytes) :
    canonicalInstruction spec data = data := by
  rw [canonicalInstruction, hsoul, if_neg Bool.false_ne_true]

theorem writeText_plain (hsoul : spec.Soul = false) (data : Bytes) :
    writeText spec language data = .ok data := by
  rw [writeText, hsoul, if_neg Bool.false_ne_true]

/-- A state before the release takes the place of the text, or when it does not. -/
structure Near (s : InstructionFiles) (data current w : Bytes) (updates : Bool)
    (t : InstructionFiles) : Prop where
  target : t.target = .regular data ∨ updates = false ∧ t.target = .regular w
  baseline : t.baseline = s.baseline ∨ s.metadata = none ∧ t.baseline = some current

/-- A state inside of a synchronisation. -/
structure Midway (sha256 : Bytes → Sha256) (spec : InstructionSpec) (s : InstructionFiles)
    (source data : Bytes) (ownership : String) (baseline w : Bytes) (t : InstructionFiles) :
    Prop where
  rest : SameRest s t
  place : Near s data (canonicalInstruction spec data) w
      (Updates sha256 spec source (canonicalInstruction spec data) ownership baseline) t ∨
    Updates sha256 spec source (canonicalInstruction spec data) ownership baseline = true ∧
      Torn source baseline w t

theorem Based.baseline_eq (h : Based sha256 spec s source current ownership baseline) :
    s.baseline = some baseline ∨ s.metadata = none ∧ some baseline = some current := by
  cases h with
  | new hnone => exact Or.inr ⟨hnone, rfl⟩
  | known _ hbaseline _ => exact Or.inl hbaseline

theorem Based.near (h : Based sha256 spec s source current ownership baseline) {updates : Bool}
    {t : InstructionFiles} (htarget : t.target = .regular data)
    (hbaseline : t.baseline = some baseline) : Near s data current w updates t := by
  refine ⟨Or.inl htarget, ?_⟩
  rw [hbaseline]
  obtain hb | ⟨hnone, hb⟩ := h.baseline_eq
  · exact Or.inl hb.symm
  · exact Or.inr ⟨hnone, hb⟩

/-- The update of the files and the words of the language. -/
theorem updateAndRefresh_run {metadata : InstructionMetadata}
    (hbased : Based sha256 spec s source (canonicalInstruction spec data) ownership baseline)
    (hm : Describes sha256 spec baseline ownership metadata)
    (hw : writeText spec language
      (kept sha256 spec source (canonicalInstruction spec data) ownership baseline) = .ok w) :
    ∃ trail available synced,
      (do
        let synced ← updateFiles sha256 language spec metadata (instructionHash sha256 baseline)
          source (canonicalInstruction spec data)
        refreshTarget language spec synced.current data
        pure (source, synced) : InstructionAction (Bytes × Synced)).run
          ((s.setTarget data).setBaseline baseline) =
        ⟨trail, ((s.setTarget w).setBaseline
          (rebased sha256 spec source (canonicalInstruction spec data) ownership
            baseline)).setAvailable available, .ok (source, synced)⟩ ∧
      (available = none ∨ available = some source) ∧
      Updated sha256 spec source (canonicalInstruction spec data) ownership baseline synced ∧
      ∀ t ∈ trail, Midway sha256 spec s source data ownership baseline w t := by
  cases hup : Updates sha256 spec source (canonicalInstruction spec data) ownership baseline with
  | true =>
      rw [kept, hup, if_pos rfl] at hw
      obtain ⟨trail, synced, hrun, hsynced, hmem⟩ := @updateFiles_managed _ _ _ _ _ _ _ _ _ hm hup hw
        ((s.setTarget data).setBaseline baseline) rfl
      have htext : synced.current = source := by
        rw [hsynced.text, kept, hup, if_pos rfl]
      obtain ⟨trail', hrun', hmem'⟩ := @refreshTarget_run language spec source w data hw
        (((((s.setTarget data).setBaseline baseline).setTarget w).setBaseline source).setAvailable
          none) (Or.inl rfl) fun _ => rfl
      refine ⟨trail ++ (trail' ++ []), none, synced, Prog.run_bind_eq hrun ?_, Or.inl rfl, hsynced,
        fun t ht => ?_⟩
      · rw [htext, rebased, hup, if_pos rfl]
        exact Prog.run_bind_eq hrun' (Prog.run_pure _ _)
      · simp only [List.mem_append, List.not_mem_nil, or_false] at ht
        rcases ht with ht | ht
        · obtain ⟨hrest, htorn⟩ := hmem t ht
          exact ⟨⟨hrest.source, hrest.legacyHash, hrest.metadata⟩, Or.inr ⟨hup, htorn⟩⟩
        · obtain rfl := hmem' t ht
          exact ⟨⟨rfl, rfl, rfl⟩, Or.inr ⟨hup, rfl, Or.inr rfl⟩⟩
  | false =>
      rw [kept, hup, if_neg Bool.false_ne_true] at hw
      obtain ⟨trail, available, synced, hrun, havailable, hsynced, hmem⟩ :=
        @updateFiles_kept _ language _ _ _ _ _ _ hm hup ((s.setTarget data).setBaseline baseline)
      have htext : synced.current = canonicalInstruction spec data := by
        rw [hsynced.text, kept, hup, if_neg Bool.false_ne_true]
      obtain ⟨trail', hrun', hmem'⟩ := @refreshTarget_run language spec _ w data hw
        (((s.setTarget data).setBaseline baseline).setAvailable available) (Or.inr rfl)
        fun hsoul => by
          rw [writeText_plain hsoul, canonicalInstruction_plain hsoul] at hw
          exact congrArg InstructionFile.regular (Except.ok.inj hw)
      refine ⟨trail ++ (trail' ++ []), available, synced, Prog.run_bind_eq hrun ?_, havailable,
        hsynced, fun t ht => ?_⟩
      · rw [htext, rebased, hup, if_neg Bool.false_ne_true]
        exact Prog.run_bind_eq hrun' (Prog.run_pure _ _)
      · simp only [List.mem_append, List.not_mem_nil, or_false] at ht
        refine ⟨?_, Or.inl ?_⟩
        · rcases ht with ht | ht
          · obtain rfl := hmem t ht
            exact ⟨rfl, rfl, rfl⟩
          · obtain rfl := hmem' t ht
            exact ⟨rfl, rfl, rfl⟩
        · rcases ht with ht | ht
          · obtain rfl := hmem t ht
            exact hbased.near rfl rfl
          · obtain rfl := hmem' t ht
            have hn : Near s data (canonicalInstruction spec data) w false
                ((s.setTarget data).setBaseline baseline) := hbased.near rfl rfl
            exact ⟨hup ▸ Or.inr ⟨rfl, rfl⟩, hn.baseline⟩

/-- The writes of a synchronisation before the metadata. -/
theorem syncFiles_run (h : Seen sha256 language spec s source data ownership baseline)
    (hw : writeText spec language
      (kept sha256 spec source (canonicalInstruction spec data) ownership baseline) = .ok w) :
    ∃ trail available synced,
      (syncFiles sha256 language spec distribution stamp).run s =
        ⟨trail, ((s.setTarget w).setBaseline
          (rebased sha256 spec source (canonicalInstruction spec data) ownership
            baseline)).setAvailable available, .ok (source, synced)⟩ ∧
      (available = none ∨ available = some source) ∧
      Updated sha256 spec source (canonicalInstruction spec data) ownership baseline synced ∧
      ∀ t ∈ trail, Midway sha256 spec s source data ownership baseline w t := by
  obtain ⟨⟨sourceData, hsource, rfl, hopened⟩, hbased⟩ := h
  obtain ⟨opening, hopening, hopeningMem⟩ := ensureTarget_run hopened
  obtain ⟨basing, metadata, hbasing, hdescribes, hbasingMem⟩ :=
    @ensureMetadata_run _ _ distribution stamp _ _ _ _ _ hbased (s.setTarget data) rfl
  obtain ⟨trail, available, synced, hrun, havailable, hsynced, hmem⟩ :=
    updateAndRefresh_run hbased hdescribes hw
  refine ⟨opening ++ (basing ++ trail), available, synced, ?_, havailable, hsynced, ?_⟩
  · unfold syncFiles
    rw [Prog.run_get_bind, hsource, readInstructionFile, Prog.lift_ok, Prog.pure_bind']
    refine Prog.run_bind_eq hopening (Prog.run_bind_eq hbasing ?_)
    rw [Prog.run_get_bind]
    change (if instructionHash sha256 baseline ≠ metadata.BaselineHash then _ else _ :
      InstructionAction _).run _ = _
    rw [if_neg (not_not.mpr hdescribes.baselineHash.symm)]
    exact hrun
  · intro t ht
    rcases List.mem_append.mp ht with ht | ht
    · obtain rfl := hopeningMem t ht
      exact ⟨⟨rfl, rfl, rfl⟩, Or.inl ⟨Or.inl rfl, Or.inl rfl⟩⟩
    · rcases List.mem_append.mp ht with ht | ht
      · obtain ⟨rfl, -⟩ := hbasingMem t ht
        exact ⟨⟨rfl, rfl, rfl⟩, Or.inl (hbased.near rfl rfl)⟩
      · exact hmem t ht

/-- The ownership after a synchronisation. -/
def owned (sha256 : Bytes → Sha256) (spec : InstructionSpec) (source current : Bytes)
    (ownership : String) (baseline : Bytes) : String :=
  if instructionHash sha256 (kept sha256 spec source current ownership baseline) =
      instructionHash sha256 (rebased sha256 spec source current ownership baseline) then ownership
  else "customized"

theorem Updated.describes {synced : Synced}
    (h : Updated sha256 spec source current ownership baseline synced) :
    Describes sha256 spec (rebased sha256 spec source current ownership baseline)
      (owned sha256 spec source current ownership baseline)
      (synced.recorded sha256 distribution stamp) := by
  refine Instructions.describes h.fields.1 h.fields.2.1 h.fields.2.2 ?_ h.hash
  change (if synced.localChanged then "customized" else synced.metadata.Ownership) = _
  rw [h.changed, h.text, h.hash, h.owner, owned]
  by_cases heq : instructionHash sha256 (kept sha256 spec source current ownership baseline) =
      instructionHash sha256 (rebased sha256 spec source current ownership baseline)
  · rw [if_pos heq, heq, bne_self_eq_false, if_neg Bool.false_ne_true]
  · rw [if_neg heq, if_pos (bne_iff_ne.mpr heq)]

/-- What a synchronisation leaves. -/
structure SyncedFiles (sha256 : Bytes → Sha256) (spec : InstructionSpec) (s : InstructionFiles)
    (source current : Bytes) (ownership : String) (baseline w : Bytes) (t : InstructionFiles) :
    Prop where
  sourceFile : t.source = s.source
  legacyHash : t.legacyHash = s.legacyHash
  targetFile : t.target = .regular w
  baselineFile : t.baseline = some (rebased sha256 spec source current ownership baseline)
  availableFile : t.available = none ∨ t.available = some source
  metadataFile : ∃ metadata, t.metadata = some (some metadata) ∧
    Describes sha256 spec (rebased sha256 spec source current ownership baseline)
      (owned sha256 spec source current ownership baseline) metadata

/-- The run of a synchronisation. -/
theorem syncInstruction_run (h : Seen sha256 language spec s source data ownership baseline)
    (hw : writeText spec language
      (kept sha256 spec source (canonicalInstruction spec data) ownership baseline) = .ok w) :
    ∃ trail final r, (syncInstruction sha256 language spec distribution stamp).run s =
        ⟨trail ++ [final], final, .ok r⟩ ∧
      SyncedFiles sha256 spec s source (canonicalInstruction spec data) ownership baseline w
        final ∧
      ∀ t ∈ trail, Midway sha256 spec s source data ownership baseline w t := by
  obtain ⟨trail, available, synced, hrun, havailable, hsynced, hmem⟩ :=
    @syncFiles_run sha256 language spec distribution stamp _ _ _ _ _ _ h hw
  refine ⟨trail, _, _, Prog.run_bind_eq hrun rfl, ?_, hmem⟩
  exact ⟨rfl, rfl, rfl, rfl, havailable, _, rfl, hsynced.describes⟩

theorem opened_of_ok {sourceData : Bytes}
    (h : ((ensureTarget language spec sourceData s.target).run s).result = .ok data) :
    Opened language spec sourceData s.target data := by
  cases htarget : s.target with
  | irregular =>
      rw [htarget] at h
      cases h
  | regular d =>
      rw [htarget] at h
      cases h
      exact .present data
  | missing =>
      rw [htarget, ensureTarget] at h
      cases hw : writeText spec language sourceData with
      | error e =>
          rw [hw] at h
          cases h
      | ok d =>
          rw [hw] at h
          cases h
          exact .installed hw

/-- The words of the language could be written. -/
theorem written_of_ok {metadata : InstructionMetadata}
    (hm : Describes sha256 spec baseline ownership metadata) {t : InstructionFiles}
    {r : Bytes × Synced}
    (h : ((do
        let synced ← updateFiles sha256 language spec metadata (instructionHash sha256 baseline)
          source current
        refreshTarget language spec synced.current data
        pure (source, synced) : InstructionAction (Bytes × Synced)).run t).result = .ok r) :
    ∃ w, writeText spec language (kept sha256 spec source current ownership baseline) = .ok w := by
  obtain ⟨synced, hupdate, h, hfinal, -⟩ := Prog.run_bind_eq_ok h
  cases hup : Updates sha256 spec source current ownership baseline with
  | true =>
      rw [kept, hup, if_pos rfl]
      unfold updateFiles at hupdate
      dsimp only at hupdate
      rw [if_pos (show updatesManaged spec metadata.Ownership _ _ _ = true from
        hm.ownership ▸ hup)] at hupdate
      cases hw : writeText spec language source with
      | error e =>
          rw [hw] at hupdate
          cases hupdate
      | ok w => exact ⟨w, rfl⟩
  | false =>
      rw [kept, hup, if_neg Bool.false_ne_true]
      obtain ⟨trail, available, synced', hrun, -, hsynced, -⟩ :=
        @updateFiles_kept _ language _ _ _ _ _ _ hm hup t
      rw [hrun] at hupdate
      obtain rfl := Except.ok.inj hupdate
      obtain ⟨_, hrefresh, -⟩ := Prog.run_bind_eq_ok h
      rw [hsynced.text, kept, hup, if_neg Bool.false_ne_true] at hrefresh
      cases hsoul : spec.Soul with
      | false => exact ⟨current, writeText_plain hsoul current⟩
      | true =>
          rw [writeText, hsoul, if_pos rfl]
          rw [refreshTarget, hsoul, if_pos rfl] at hrefresh
          cases hw : renderOutputLanguageBlock current language with
          | error e =>
              rw [hw] at hrefresh
              cases hrefresh
          | ok w => exact ⟨w, rfl⟩

/-- The baseline was there, with the hash of the metadata, or is new. -/
theorem based_of_ok {r : Bytes × Synced}
    (h : ((do
        let metadata ← ensureMetadata sha256 spec distribution stamp s source current
        match (← Prog.get).baseline with
        | none =>
            Prog.fail ("read instruction baseline " ++ spec.Name ++ ": no such file or directory")
        | some baselineData =>
            if instructionHash sha256 baselineData ≠ metadata.BaselineHash then
              Prog.fail ("instruction baseline hash mismatch: " ++ spec.Name)
            else do
              let synced ← updateFiles sha256 language spec metadata
                (instructionHash sha256 baselineData) source current
              refreshTarget language spec synced.current data
              pure (source, synced) : InstructionAction (Bytes × Synced)).run
                (s.setTarget data)).result = .ok r) :
    ∃ ownership baseline, Based sha256 spec s source current ownership baseline := by
  cases hread : readInstructionMetadata spec.Name s.metadata with
  | error e =>
      rw [ensureMetadata, hread] at h
      cases h
  | ok metadata =>
      cases metadata with
      | none => exact ⟨_, _, .new (readInstructionMetadata_none hread)⟩
      | some metadata =>
          rw [ensureMetadata, hread] at h
          cases hbaseline : s.baseline with
          | none =>
              rw [Prog.lift_ok, Prog.pure_bind', Prog.pure_bind', Prog.run_get_bind,
                show (s.setTarget data).baseline = none from hbaseline] at h
              cases h
          | some baseline =>
              rw [Prog.lift_ok, Prog.pure_bind', Prog.pure_bind', Prog.run_get_bind,
                show (s.setTarget data).baseline = some baseline from hbaseline] at h
              dsimp only at h
              split at h
              · cases h
              · rename_i hhash
                exact ⟨_, baseline, .known hread hbaseline (not_not.mp hhash)⟩

/-- A synchronisation that succeeds has seen its texts. -/
theorem seen_of_ok {r : InstructionResult}
    (h : ((syncInstruction sha256 language spec distribution stamp).run s).result = .ok r) :
    ∃ source data ownership baseline w,
      Seen sha256 language spec s source data ownership baseline ∧
      writeText spec language
        (kept sha256 spec source (canonicalInstruction spec data) ownership baseline) = .ok w := by
  obtain ⟨⟨source, synced⟩, h, -⟩ := Prog.run_bind_eq_ok h
  unfold syncFiles at h
  rw [Prog.run_get_bind] at h
  cases hsource : s.source with
  | missing =>
      rw [hsource] at h
      cases h
  | irregular =>
      rw [hsource] at h
      cases h
  | regular sourceData =>
      rw [hsource, readInstructionFile, Prog.lift_ok, Prog.pure_bind'] at h
      obtain ⟨data, hopen, h, -⟩ := Prog.run_bind_eq_ok h
      have hopened := opened_of_ok hopen
      obtain ⟨opening, hopening, -⟩ := ensureTarget_run hopened
      rw [hopening] at h
      obtain ⟨ownership, baseline, hbased⟩ := based_of_ok h
      obtain ⟨basing, metadata, hbasing, hdescribes, -⟩ :=
        @ensureMetadata_run _ _ distribution stamp _ _ _ _ _ hbased (s.setTarget data) rfl
      obtain ⟨metadata', hmetadata, h, -⟩ := Prog.run_bind_eq_ok h
      rw [hbasing] at hmetadata h
      obtain rfl := Except.ok.inj hmetadata
      rw [Prog.run_get_bind] at h
      change ((if instructionHash sha256 baseline ≠ metadata.BaselineHash then _ else _ :
        InstructionAction _).run _).result = _ at h
      rw [if_neg (not_not.mpr hdescribes.baselineHash.symm)] at h
      obtain ⟨w, hw⟩ := written_of_ok hdescribes h
      exact ⟨_, data, ownership, baseline, w, ⟨⟨sourceData, hsource, rfl, hopened⟩, hbased⟩, hw⟩

end Run

end OneInstruction

/-! ## All instructions -/

section AllInstructions

variable {sha256 : Bytes → Sha256} {config : InstructionConfig} {distribution : Distribution}
  {stamp : String} {state : Instructions}

/-- The synchronisation of one instruction. -/
abbrev syncOne (sha256 : Bytes → Sha256) (config : InstructionConfig)
    (distribution : Distribution) (stamp : String) (spec : InstructionSpec)
    (s : InstructionFiles) : Outcome InstructionFiles String InstructionResult :=
  (syncInstruction sha256 config.OutputLanguage spec distribution stamp).run s

/-- Each instruction of the release can be synchronised. -/
def AllSync (sha256 : Bytes → Sha256) (config : InstructionConfig)
    (distribution : Distribution) (stamp : String) (specs : List InstructionSpec)
    (state : Instructions) : Prop :=
  ∀ spec ∈ specs, (state spec.Name).source ≠ .missing →
    ∃ r, (syncOne sha256 config distribution stamp spec (state spec.Name)).result = .ok r

theorem AllSync.congr {specs : List InstructionSpec} {state' : Instructions}
    (h : AllSync sha256 config distribution stamp specs state)
    (hsame : ∀ spec ∈ specs, state' spec.Name = state spec.Name) :
    AllSync sha256 config distribution stamp specs state' := by
  intro spec hspec hsource
  rw [hsame spec hspec] at hsource ⊢
  exact h spec hspec hsource

section Cons

variable {spec : InstructionSpec} {specs : List InstructionSpec}

theorem syncAll_missing (h : (state spec.Name).source = .missing) :
    (syncAll sha256 config distribution stamp (spec :: specs)).run state =
      (syncAll sha256 config distribution stamp specs).run state := by
  rw [syncAll, Prog.run_get_bind, if_pos h]

theorem syncAll_error (h : (state spec.Name).source ≠ .missing) {e : String}
    (hone : (syncOne sha256 config distribution stamp spec (state spec.Name)).result = .error e) :
    ((syncAll sha256 config distribution stamp (spec :: specs)).run state).result = .error e ∧
      ((syncAll sha256 config distribution stamp (spec :: specs)).run state).final =
        Function.update state spec.Name
          (syncOne sha256 config distribution stamp spec (state spec.Name)).final := by
  have hfiles : ((onFiles spec.Name (syncInstruction sha256 config.OutputLanguage spec distribution
    stamp)).run state).result = .error e := hone
  rw [syncAll, Prog.run_get_bind, if_neg h, Prog.run_bind_error hfiles]
  exact ⟨rfl, rfl⟩

theorem syncAll_ok (h : (state spec.Name).source ≠ .missing) {r : InstructionResult}
    (hone : (syncOne sha256 config distribution stamp spec (state spec.Name)).result = .ok r)
    {state' : Instructions} (hstate : state' = Function.update state spec.Name
      (syncOne sha256 config distribution stamp spec (state spec.Name)).final) :
    ((∃ rs, ((syncAll sha256 config distribution stamp (spec :: specs)).run state).result =
        .ok rs) ↔
      ∃ rs, ((syncAll sha256 config distribution stamp specs).run state').result = .ok rs) ∧
      ((syncAll sha256 config distribution stamp (spec :: specs)).run state).final =
        ((syncAll sha256 config distribution stamp specs).run state').final := by
  have hfiles : ((onFiles spec.Name (syncInstruction sha256 config.OutputLanguage spec distribution
    stamp)).run state).result = .ok r := hone
  have hfinal : ((onFiles spec.Name (syncInstruction sha256 config.OutputLanguage spec distribution
    stamp)).run state).final = state' := hstate.symm
  rw [syncAll, Prog.run_get_bind, if_neg h, Prog.run_bind_ok hfiles, hfinal]
  cases hrest : ((syncAll sha256 config distribution stamp specs).run state').result with
  | error e =>
      rw [Prog.run_bind_error hrest]
      exact ⟨⟨by rintro ⟨rs, ⟨⟩⟩, by rintro ⟨rs, ⟨⟩⟩⟩, rfl⟩
  | ok rs =>
      rw [Prog.run_bind_ok hrest]
      exact ⟨⟨fun _ => ⟨rs, rfl⟩, fun _ => ⟨r :: rs, rfl⟩⟩, rfl⟩

end Cons

/-- Synchronising everything is synchronising each instruction by itself. -/
theorem syncAll_run {specs : List InstructionSpec} (hnames : (specs.map (·.Name)).Nodup) :
    ((∃ rs, ((syncAll sha256 config distribution stamp specs).run state).result = .ok rs) ↔
      AllSync sha256 config distribution stamp specs state) ∧
    (AllSync sha256 config distribution stamp specs state → ∀ spec ∈ specs,
      ((syncAll sha256 config distribution stamp specs).run state).final spec.Name =
        if (state spec.Name).source = .missing then state spec.Name
        else (syncOne sha256 config distribution stamp spec (state spec.Name)).final) ∧
    (∀ name ∉ specs.map (·.Name),
      ((syncAll sha256 config distribution stamp specs).run state).final name = state name) := by
  induction specs generalizing state with
  | nil => exact ⟨⟨fun _ => by rintro spec ⟨⟩, fun _ => ⟨[], rfl⟩⟩, fun _ => by rintro spec ⟨⟩,
      fun _ _ => rfl⟩
  | cons spec specs ih =>
      obtain ⟨hfirst, hrest⟩ := List.nodup_cons.mp hnames
      have hother : ∀ spec' ∈ specs, spec'.Name ≠ spec.Name := fun spec' hspec' heq =>
        hfirst (List.mem_map.mpr ⟨spec', hspec', heq⟩)
      have hmem : ∀ name, name = spec.Name → name ∈ (spec :: specs).map (·.Name) :=
        fun name heq => List.mem_map.mpr ⟨spec, List.mem_cons_self, heq.symm⟩
      by_cases hmissing : (state spec.Name).source = .missing
      · obtain ⟨hok, hfinal, hframe⟩ := @ih state hrest
        have hall : AllSync sha256 config distribution stamp (spec :: specs) state ↔
            AllSync sha256 config distribution stamp specs state := by
          refine ⟨fun h spec' hspec' => h spec' (List.mem_cons_of_mem _ hspec'), fun h => ?_⟩
          rintro spec' (_ | ⟨_, hspec'⟩) hsource
          · exact absurd hmissing hsource
          · exact h spec' hspec' hsource
        rw [syncAll_missing hmissing]
        refine ⟨hok.trans hall.symm, fun h => ?_, fun name hname => ?_⟩
        · rintro spec' (_ | ⟨_, hspec'⟩)
          · rw [if_pos hmissing]
            exact hframe spec.Name hfirst
          · exact hfinal (hall.mp h) spec' hspec'
        · exact hframe name fun hmem => hname (List.mem_cons_of_mem _ hmem)
      · cases hone : (syncOne sha256 config distribution stamp spec (state spec.Name)).result with
        | error e =>
            obtain ⟨hresult, hfinal⟩ := @syncAll_error _ _ _ _ _ _ specs hmissing _ hone
            have hnone : ¬ AllSync sha256 config distribution stamp (spec :: specs) state := by
              intro h
              obtain ⟨r, hr⟩ := h spec List.mem_cons_self hmissing
              rw [hone] at hr
              cases hr
            rw [hresult, hfinal]
            refine ⟨⟨by rintro ⟨rs, ⟨⟩⟩, fun h => absurd h hnone⟩, fun h => absurd h hnone,
              fun name hname => ?_⟩
            exact Function.update_of_ne (fun heq => hname (hmem name heq)) _ _
        | ok r =>
            obtain ⟨hresult, hall'⟩ := @syncAll_ok _ _ _ _ _ _ specs hmissing _ hone _ rfl
            obtain ⟨hok, hfinal, hframe⟩ := @ih (Function.update state spec.Name
              (syncOne sha256 config distribution stamp spec (state spec.Name)).final) hrest
            have hsame : ∀ spec' ∈ specs, Function.update state spec.Name
                (syncOne sha256 config distribution stamp spec (state spec.Name)).final spec'.Name =
                  state spec'.Name :=
              fun spec' hspec' => Function.update_of_ne (hother spec' hspec') _ _
            have hall : AllSync sha256 config distribution stamp (spec :: specs) state ↔
                AllSync sha256 config distribution stamp specs (Function.update state spec.Name
                  (syncOne sha256 config distribution stamp spec (state spec.Name)).final) := by
              constructor
              · intro h
                exact AllSync.congr (fun spec' hspec' => h spec' (List.mem_cons_of_mem _ hspec'))
                  hsame
              · intro h
                rintro spec' (_ | ⟨_, hspec'⟩) hsource
                · exact ⟨r, hone⟩
                · exact h.congr (fun spec'' hspec'' => (hsame spec'' hspec'').symm) spec' hspec'
                    hsource
            rw [hall']
            refine ⟨hresult.trans (hok.trans hall.symm), fun h => ?_, fun name hname => ?_⟩
            · rintro spec' (_ | ⟨_, hspec'⟩)
              · rw [if_neg hmissing, hframe spec.Name hfirst, Function.update_self]
              · rw [hfinal (hall.mp h) spec' hspec', hsame spec' hspec']
            · rw [hframe name fun hmem => hname (List.mem_cons_of_mem _ hmem)]
              exact Function.update_of_ne (fun heq => hname (hmem name heq)) _ _

theorem instructionSpecs_names (config : InstructionConfig) :
    ((instructionSpecs config).map (·.Name)).Nodup := by
  change ["profile/AGENTS.md", "profile/SOUL.md", "workspace/AGENTS.md"].Nodup
  decide

/-- `SyncInstructions` synchronises each instruction by itself. -/
theorem SyncInstructions_run :
    ((∃ rs, ((SyncInstructions sha256 config distribution stamp).run state).result = .ok rs) ↔
      AllSync sha256 config distribution stamp (instructionSpecs config) state) ∧
    (AllSync sha256 config distribution stamp (instructionSpecs config) state →
      ∀ spec ∈ instructionSpecs config,
        ((SyncInstructions sha256 config distribution stamp).run state).final spec.Name =
          if (state spec.Name).source = .missing then state spec.Name
          else (syncOne sha256 config distribution stamp spec (state spec.Name)).final) := by
  obtain ⟨hok, hfinal, -⟩ := @syncAll_run sha256 config distribution stamp state _
    (instructionSpecs_names config)
  unfold SyncInstructions
  cases hresult : ((syncAll sha256 config distribution stamp (instructionSpecs config)).run
      state).result with
  | error e =>
      rw [Prog.run_bind_error hresult]
      rw [hresult] at hok
      refine ⟨⟨by rintro ⟨rs, ⟨⟩⟩, fun h => ?_⟩, hfinal⟩
      obtain ⟨rs, hrs⟩ := hok.mpr h
      cases hrs
  | ok rs =>
      rw [Prog.run_bind_ok hresult]
      exact ⟨⟨fun _ => hok.mp ⟨rs, hresult⟩, fun _ => ⟨_, rfl⟩⟩, hfinal⟩

end AllInstructions

end Openlia.Instructions

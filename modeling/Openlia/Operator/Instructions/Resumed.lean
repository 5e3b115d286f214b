import Openlia.Operator.Instructions.Reviewed

/-! # Interrupted commands

A command on an instruction stops between two of its writes. What the next synchronisation makes of
it is compared with the command that runs to its end, followed by the same synchronisation.
-/

namespace Openlia.Instructions

open Crash Lib Skills

section OneInstruction

variable {sha256 : Bytes → Sha256} {language : OutputLanguage} {spec : InstructionSpec}
  {s t : InstructionFiles}

/-! ## Texts that are read as they are written -/

/-- A text with one block at most, where there are blocks. -/
def FramedText (spec : InstructionSpec) (data : Bytes) : Prop :=
  spec.Soul = true → ∃ before after, Framed data before after

/-- A canonical text that is written is read again. -/
def Settled (language : OutputLanguage) (spec : InstructionSpec) (data : Bytes) : Prop :=
  ∃ w, writeText spec language data = .ok w ∧ canonicalInstruction spec w = data

theorem FramedText.settled {data : Bytes} (h : FramedText spec data) :
    Settled language spec (canonicalInstruction spec data) := by
  cases hsoul : spec.Soul with
  | false => exact ⟨_, writeText_plain hsoul _, canonicalInstruction_plain hsoul _⟩
  | true =>
      obtain ⟨before, after, hframed⟩ := h hsoul
      rw [canonicalInstruction, hsoul, if_pos rfl, hframed.canonical]
      refine ⟨written language before after, ?_, ?_⟩
      · rw [writeText, hsoul, if_pos rfl]
        exact hframed.render_frame language
      · rw [canonicalInstruction, hsoul, if_pos rfl]
        exact hframed.canonical_written language

/-- A text that is installed from the release. -/
theorem FramedText.installed {sourceData data : Bytes} (h : FramedText spec sourceData)
    (hw : writeText spec language sourceData = .ok data) :
    canonicalInstruction spec data = canonicalInstruction spec sourceData := by
  cases hsoul : spec.Soul with
  | false =>
      rw [writeText_plain hsoul] at hw
      rw [Except.ok.inj hw]
  | true =>
      obtain ⟨before, after, hframed⟩ := h hsoul
      rw [writeText, hsoul, if_pos rfl, hframed.render] at hw
      obtain rfl := Except.ok.inj hw
      rw [canonicalInstruction, canonicalInstruction, hsoul, if_pos rfl, if_pos rfl,
        hframed.canonical, hframed.canonical_written]

/-- The texts of an instruction are framed, and the copy for review is a canonical one. -/
structure Fits (language : OutputLanguage) (spec : InstructionSpec) (s : InstructionFiles) :
    Prop where
  source : ∀ data, s.source = .regular data → FramedText spec data
  target : ∀ data, s.target = .regular data → FramedText spec data
  available : ∀ data ∈ s.available, Settled language spec data

theorem Fits.settled_seen {source data baseline : Bytes} {ownership : String}
    (hfits : Fits language spec s)
    (h : Seen sha256 language spec s source data ownership baseline) :
    Settled language spec source ∧ Settled language spec (canonicalInstruction spec data) := by
  obtain ⟨⟨sourceData, hsource, rfl, hopened⟩, -⟩ := h
  have hs := hfits.source sourceData hsource
  refine ⟨hs.settled, ?_⟩
  generalize htarget : s.target = target at hopened
  cases hopened with
  | installed hw =>
      rw [hs.installed hw]
      exact hs.settled
  | present => exact (hfits.target data htarget).settled

/-! ## What a synchronisation makes of a state -/

section Decisions

variable {source current baseline : Bytes} {ownership : String}

theorem updates_iff : Updates sha256 spec source current ownership baseline = true ↔
    spec.Workspace = false ∧ instructionHash sha256 current = instructionHash sha256 baseline ∧
      instructionHash sha256 source ≠ instructionHash sha256 baseline ∧ ownership = "managed" := by
  simp [Updates, updatesManaged, and_assoc]

theorem updates_eq_false (h : instructionHash sha256 source = instructionHash sha256 baseline ∨
    instructionHash sha256 current ≠ instructionHash sha256 baseline ∨ ownership ≠ "managed") :
    Updates sha256 spec source current ownership baseline = false := by
  rw [Bool.eq_false_iff]
  intro hup
  obtain ⟨-, hcurrent, hsource, hmanaged⟩ := updates_iff.mp hup
  rcases h with h | h | h
  · exact hsource h
  · exact h hcurrent
  · exact h hmanaged

theorem kept_of_updates (h : Updates sha256 spec source current ownership baseline = true) :
    kept sha256 spec source current ownership baseline = source ∧
      rebased sha256 spec source current ownership baseline = source ∧
      owned sha256 spec source current ownership baseline = "managed" := by
  have hk : kept sha256 spec source current ownership baseline = source := by
    rw [kept, h, if_pos rfl]
  have hr : rebased sha256 spec source current ownership baseline = source := by
    rw [rebased, h, if_pos rfl]
  refine ⟨hk, hr, ?_⟩
  rw [owned, hk, hr, if_pos rfl]
  exact (updates_iff.mp h).2.2.2

theorem kept_of_not (h : Updates sha256 spec source current ownership baseline = false) :
    kept sha256 spec source current ownership baseline = current ∧
      rebased sha256 spec source current ownership baseline = baseline ∧
      owned sha256 spec source current ownership baseline =
        if instructionHash sha256 current = instructionHash sha256 baseline then ownership
        else "customized" := by
  have hk : kept sha256 spec source current ownership baseline = current := by
    rw [kept, h, if_neg Bool.false_ne_true]
  have hr : rebased sha256 spec source current ownership baseline = baseline := by
    rw [rebased, h, if_neg Bool.false_ne_true]
  refine ⟨hk, hr, ?_⟩
  rw [owned, hk, hr]

/-- A second synchronisation decides nothing else. -/
theorem decided_again :
    kept sha256 spec source (kept sha256 spec source current ownership baseline)
        (owned sha256 spec source current ownership baseline)
        (rebased sha256 spec source current ownership baseline) =
      kept sha256 spec source current ownership baseline ∧
    owned sha256 spec source (kept sha256 spec source current ownership baseline)
        (owned sha256 spec source current ownership baseline)
        (rebased sha256 spec source current ownership baseline) =
      owned sha256 spec source current ownership baseline := by
  cases hup : Updates sha256 spec source current ownership baseline with
  | true =>
      obtain ⟨hk, hr, ho⟩ := kept_of_updates hup
      rw [hk, hr, ho]
      obtain ⟨hk', -, ho'⟩ := @kept_of_not sha256 spec source source source "managed"
        (updates_eq_false (Or.inl rfl))
      rw [if_pos rfl] at ho'
      exact ⟨hk', ho'⟩
  | false =>
      obtain ⟨hk, hr, ho⟩ := kept_of_not hup
      rw [hk, hr, ho]
      by_cases hsame : instructionHash sha256 current = instructionHash sha256 baseline
      · rw [if_pos hsame]
        obtain ⟨hk', -, ho'⟩ := kept_of_not hup
        rw [if_pos hsame] at ho'
        exact ⟨hk', ho'⟩
      · rw [if_neg hsame]
        obtain ⟨hk', -, ho'⟩ := @kept_of_not sha256 spec source current baseline "customized"
          (updates_eq_false (Or.inr (Or.inl hsame)))
        rw [if_neg hsame] at ho'
        exact ⟨hk', ho'⟩

end Decisions

/-! ## The next synchronisation -/

/-- The result of one run agrees with that of another, and its baseline with its metadata. -/
structure SameOutcome (sha256 : Bytes → Sha256) (f g : InstructionFiles) : Prop where
  target : f.target = g.target
  ownership : ∃ m m', f.metadata = some (some m) ∧ g.metadata = some (some m') ∧
    m.Ownership = m'.Ownership
  baseline : ∃ m b, f.metadata = some (some m) ∧ f.baseline = some b ∧
    instructionHash sha256 b = m.BaselineHash

variable {source source' current current' baseline baseline' w w' : Bytes}
  {ownership ownership' : String}
  {f g s' : InstructionFiles}

theorem SyncedFiles.sameOutcome_iff
    (hf : SyncedFiles sha256 spec s source current ownership baseline w f)
    (hg : SyncedFiles sha256 spec s' source' current' ownership' baseline' w' g) :
    SameOutcome sha256 f g ↔ w = w' ∧
      owned sha256 spec source current ownership baseline =
        owned sha256 spec source' current' ownership' baseline' := by
  obtain ⟨m, hm, hd⟩ := hf.metadataFile
  obtain ⟨m', hm', hd'⟩ := hg.metadataFile
  constructor
  · intro h
    obtain ⟨n, n', hn, hn', howner⟩ := h.ownership
    have htarget := h.target
    rw [hf.targetFile, hg.targetFile] at htarget
    rw [hm] at hn
    rw [hm'] at hn'
    obtain rfl := Option.some.inj (Option.some.inj hn)
    obtain rfl := Option.some.inj (Option.some.inj hn')
    exact ⟨InstructionFile.regular.inj htarget,
      hd.ownership.symm.trans (howner.trans hd'.ownership)⟩
  · rintro ⟨rfl, howner⟩
    refine ⟨hf.targetFile.trans hg.targetFile.symm, ⟨m, m', hm, hm', ?_⟩,
      ⟨m, _, hm, hf.baselineFile, hd.baselineHash.symm⟩⟩
    exact hd.ownership.trans (howner.trans hd'.ownership.symm)

/-- The files after a synchronisation are seen by the next. -/
theorem SyncedFiles.seen {data : Bytes}
    (hseen : Seen sha256 language spec s source data ownership baseline)
    (hf : SyncedFiles sha256 spec s source (canonicalInstruction spec data) ownership baseline w
      f) :
    Seen sha256 language spec f source w
      (owned sha256 spec source (canonicalInstruction spec data) ownership baseline)
      (rebased sha256 spec source (canonicalInstruction spec data) ownership baseline) := by
  obtain ⟨⟨sourceData, hsource, hcanonical, -⟩, -⟩ := hseen
  obtain ⟨m, hm, hd⟩ := hf.metadataFile
  refine ⟨⟨sourceData, hf.sourceFile.trans hsource, hcanonical, ?_⟩, ?_⟩
  · rw [hf.targetFile]
    exact .present w
  · rw [← hd.ownership]
    exact .known (hm ▸ hd.valid) hf.baselineFile hd.baselineHash.symm

/-- What a state is read as before the release takes the place of its text. -/
theorem Near.seen {data : Bytes} {updates : Bool}
    (hseen : Seen sha256 language spec s source data ownership baseline) (hrest : SameRest s t)
    (hw : updates = false → canonicalInstruction spec w = canonicalInstruction spec data)
    (h : Near s data (canonicalInstruction spec data) w updates t) :
    ∃ data', canonicalInstruction spec data' = canonicalInstruction spec data ∧
      Seen sha256 language spec t source data' ownership baseline := by
  obtain ⟨⟨sourceData, hsource, hcanonical, -⟩, hbased⟩ := hseen
  have hread : ∃ data', t.target = .regular data' ∧
      canonicalInstruction spec data' = canonicalInstruction spec data := by
    rcases h.target with htarget | ⟨hup, htarget⟩
    · exact ⟨data, htarget, rfl⟩
    · exact ⟨w, htarget, hw hup⟩
  obtain ⟨data', htarget, hsame⟩ := hread
  refine ⟨data', hsame, ⟨sourceData, hrest.source.trans hsource, hcanonical, ?_⟩, ?_⟩
  · rw [htarget]
    exact .present data'
  · rw [hsame]
    cases hbased with
    | new hnone =>
        rw [← hrest.legacyHash]
        exact .new (hrest.metadata.trans hnone)
    | known hmetadata hbaseline hhash =>
        refine .known (hrest.metadata ▸ hmetadata) ?_ hhash
        rcases h.baseline with heq | ⟨hnone, -⟩
        · exact heq.trans hbaseline
        · rw [hnone] at hmetadata
          cases hmetadata

/-! ## A synchronisation that stopped -/

theorem instructionHash_ne_digest (data data' : Bytes) :
    instructionHash sha256 data ≠ (sha256 data').1 := by
  intro h
  have hlength := congrArg (fun s : String => s.toList.length) h
  rw [instructionHash, String.toList_append, List.length_append, (sha256 data).2.1,
    (sha256 data').2.1] at hlength
  exact absurd hlength (by decide)

theorem instructionHash_of_digest {data data' : Bytes} (h : (sha256 data).1 = (sha256 data').1) :
    instructionHash sha256 data = instructionHash sha256 data' := by
  rw [instructionHash, instructionHash, h]

theorem firstOwnership_marker {marker : String} :
    firstOwnership sha256 spec (some marker) source current = "managed" ↔
      spec.Workspace = false ∧
        (marker = instructionHash sha256 current ∨ marker = (sha256 current).1) := by
  simp [firstOwnership, or_iff_not_imp_left]

theorem firstOwnership_release :
    firstOwnership sha256 spec none source current = "managed" ↔
      spec.Workspace = false ∧
        instructionHash sha256 current = instructionHash sha256 source := by
  simp [firstOwnership]

/-- The marker of a text is not that of another. -/
theorem firstOwnership_apart {legacyHash : Option String} (hmanaged :
      firstOwnership sha256 spec legacyHash source current = "managed")
    (hne : instructionHash sha256 source ≠ instructionHash sha256 current) :
    firstOwnership sha256 spec legacyHash source source ≠ "managed" := by
  intro hmanaged'
  cases legacyHash with
  | none => exact hne (firstOwnership_release.mp hmanaged).2.symm
  | some marker =>
      rcases (firstOwnership_marker.mp hmanaged).2 with h | h
      · rcases (firstOwnership_marker.mp hmanaged').2 with h' | h'
        · exact hne (h'.symm.trans h)
        · exact instructionHash_ne_digest current source (h.symm.trans h')
      · rcases (firstOwnership_marker.mp hmanaged').2 with h' | h'
        · exact instructionHash_ne_digest source current (h'.symm.trans h)
        · exact hne (instructionHash_of_digest (h'.symm.trans h))

/-- The text that the release takes the place of is there. -/
theorem target_of_updates {data : Bytes} (hfits : Fits language spec s)
    (hseen : Seen sha256 language spec s source data ownership baseline)
    (hup : Updates sha256 spec source (canonicalInstruction spec data) ownership baseline = true) :
    s.target = .regular data := by
  obtain ⟨⟨sourceData, hsource, rfl, hopened⟩, -⟩ := hseen
  obtain ⟨-, hcurrent, hne, -⟩ := updates_iff.mp hup
  generalize htarget : s.target = target at hopened
  cases hopened with
  | installed hw =>
      rw [(hfits.source sourceData hsource).installed hw] at hcurrent
      exact absurd hcurrent hne
  | present => rfl

/-- Once the text is replaced, the next synchronisation fails or gives the text to the user. -/
theorem torn_lost {data : Bytes} (hrest : SameRest s t)
    (hseen : Seen sha256 language spec s source data ownership baseline)
    (hup : Updates sha256 spec source (canonicalInstruction spec data) ownership baseline = true)
    (hsettled : canonicalInstruction spec w = source) (htorn : Torn source baseline w t)
    {data' : Bytes}
    (hseen' : Seen sha256 language spec t source' data' ownership' baseline') :
    owned sha256 spec source' (canonicalInstruction spec data') ownership' baseline' ≠
      "managed" := by
  obtain ⟨-, hcurrent, hne, hmanaged⟩ := updates_iff.mp hup
  obtain ⟨⟨sourceData, hsource, rfl, -⟩, hbased⟩ := hseen
  obtain ⟨⟨sourceData', hsource', rfl, hopened⟩, hbased'⟩ := hseen'
  obtain rfl := InstructionFile.regular.inj
    (hsource.symm.trans (hrest.source.symm.trans hsource'))
  rw [htorn.target] at hopened
  cases hopened
  rw [hsettled] at hbased' ⊢
  obtain ⟨-, -, howned⟩ := @kept_of_not sha256 spec (canonicalInstruction spec sourceData)
    (canonicalInstruction spec sourceData) baseline' ownership' (by
      rw [Bool.eq_false_iff]
      intro h
      obtain ⟨-, h, h', -⟩ := updates_iff.mp h
      exact h' h)
  rw [howned]
  intro h
  split at h
  · rename_i hhash
    cases hbased with
    | new hnone =>
        cases hbased' with
        | new _ =>
            rw [hrest.legacyHash] at h
            exact firstOwnership_apart hmanaged hne h
        | known hmetadata _ _ =>
            rw [hrest.metadata, hnone] at hmetadata
            cases hmetadata
    | known hmetadata _ hmatched =>
        cases hbased' with
        | new hnone =>
            rw [← hrest.metadata, hnone] at hmetadata
            cases hmetadata
        | known hmetadata' _ hmatched' =>
            rw [hrest.metadata, hmetadata] at hmetadata'
            obtain rfl := Option.some.inj (Except.ok.inj hmetadata')
            exact hne (hhash.trans (hmatched'.trans hmatched.symm))
  · exact absurd h (by decide)

theorem Opened.unique {sourceData data data' : Bytes} {file : InstructionFile}
    (h : Opened language spec sourceData file data)
    (h' : Opened language spec sourceData file data') : data = data' := by
  cases h with
  | installed hw =>
      cases h' with
      | installed hw' => exact Except.ok.inj (hw.symm.trans hw')
  | present =>
      cases h' with
      | present => rfl

theorem Based.unique (h : Based sha256 spec s source current ownership baseline)
    (h' : Based sha256 spec s source current ownership' baseline') :
    ownership = ownership' ∧ baseline = baseline' := by
  cases h with
  | new hnone =>
      cases h' with
      | new _ => exact ⟨rfl, rfl⟩
      | known hmetadata _ _ =>
          rw [hnone] at hmetadata
          cases hmetadata
  | known hmetadata hbaseline _ =>
      cases h' with
      | new hnone =>
          rw [hnone] at hmetadata
          cases hmetadata
      | known hmetadata' hbaseline' _ =>
          obtain rfl := Option.some.inj (Except.ok.inj (hmetadata.symm.trans hmetadata'))
          exact ⟨rfl, Option.some.inj (hbaseline.symm.trans hbaseline')⟩

theorem Seen.unique {data data' : Bytes}
    (h : Seen sha256 language spec s source data ownership baseline)
    (h' : Seen sha256 language spec s source' data' ownership' baseline') :
    source = source' ∧ data = data' ∧ ownership = ownership' ∧ baseline = baseline' := by
  obtain ⟨⟨sourceData, hsource, rfl, hopened⟩, hbased⟩ := h
  obtain ⟨⟨sourceData', hsource', rfl, hopened'⟩, hbased'⟩ := h'
  obtain rfl := InstructionFile.regular.inj (hsource.symm.trans hsource')
  obtain rfl := hopened.unique hopened'
  exact ⟨rfl, rfl, hbased.unique hbased'⟩

/-- A synchronisation replaces a text that nobody changed. -/
def ManagedUpdate (sha256 : Bytes → Sha256) (language : OutputLanguage) (spec : InstructionSpec)
    (s : InstructionFiles) : Prop :=
  ∃ source data ownership baseline, Seen sha256 language spec s source data ownership baseline ∧
    Updates sha256 spec source (canonicalInstruction spec data) ownership baseline = true

/-- The next synchronisation of a state gives what it gives of another. -/
def Resumes (sha256 : Bytes → Sha256) (language : OutputLanguage) (spec : InstructionSpec)
    (distribution : Distribution) (stamp : String) (t u : InstructionFiles) : Prop :=
  (∃ r, ((syncInstruction sha256 language spec distribution stamp).run t).result = .ok r) ∧
    SameOutcome sha256 ((syncInstruction sha256 language spec distribution stamp).run t).final
      ((syncInstruction sha256 language spec distribution stamp).run u).final

theorem Settled.kept {data : Bytes} (hsource : Settled language spec source)
    (hdata : Settled language spec (canonicalInstruction spec data)) :
    Settled language spec
      (kept sha256 spec source (canonicalInstruction spec data) ownership baseline) := by
  unfold Instructions.kept
  split
  · exact hsource
  · exact hdata

/-- A synchronisation that stops is resumed unless it has replaced a text. -/
theorem sync_interrupted {distribution distribution' : Distribution} {stamp stamp' : String}
    {r : InstructionResult} (hfits : Fits language spec s)
    (hok : ((syncInstruction sha256 language spec distribution stamp).run s).result = .ok r)
    (ht : t ∈ ((syncInstruction sha256 language spec distribution stamp).run s).trail.dropLast) :
    Resumes sha256 language spec distribution' stamp' t
        ((syncInstruction sha256 language spec distribution stamp).run s).final ↔
      ¬ (ManagedUpdate sha256 language spec s ∧ t.target ≠ s.target) := by
  obtain ⟨source, data, ownership, baseline, w, hseen, hw⟩ := seen_of_ok hok
  obtain ⟨hsource, hdata⟩ := hfits.settled_seen hseen
  obtain ⟨trail, u, r', hrun, hu, hmem⟩ :=
    @syncInstruction_run sha256 language spec distribution stamp _ _ _ _ _ _ hseen hw
  rw [hrun] at ht ⊢
  rw [List.dropLast_concat] at ht
  -- what a further synchronisation makes of the end
  have hkept : canonicalInstruction spec w =
      kept sha256 spec source (canonicalInstruction spec data) ownership baseline := by
    obtain ⟨w', hw', hcanonical⟩ := hsource.kept hdata
    obtain rfl := Except.ok.inj (hw.symm.trans hw')
    exact hcanonical
  have hseenU := hu.seen hseen
  obtain ⟨hagain, hownedAgain⟩ := @decided_again sha256 spec source
    (canonicalInstruction spec data) baseline ownership
  obtain ⟨_, g, rg, hrunU, hg, -⟩ :=
    @syncInstruction_run sha256 language spec distribution' stamp' _ _ _ _ w _ hseenU
      (by rw [hkept, hagain]; exact hw)
  obtain ⟨hrest, hplace⟩ := hmem t ht
  rw [Resumes, hrunU]
  rcases hplace with hnear | ⟨hup, htorn⟩
  · obtain ⟨data', hsame, hseenT⟩ := hnear.seen hseen hrest fun hup => by
      rw [hkept, kept, hup, if_neg Bool.false_ne_true]
    obtain ⟨_, f, rf, hrunT, hf, -⟩ :=
      @syncInstruction_run sha256 language spec distribution' stamp' _ _ _ _ w _ hseenT
        (by rw [hsame]; exact hw)
    rw [hrunT]
    refine ⟨fun _ => ?_, fun _ => ⟨⟨rf, rfl⟩, (hf.sameOutcome_iff hg).mpr ⟨rfl, ?_⟩⟩⟩
    · rintro ⟨⟨source', data'', ownership', baseline', hseen', hup⟩, hne⟩
      obtain ⟨rfl, rfl, rfl, rfl⟩ := hseen.unique hseen'
      rw [target_of_updates hfits hseen hup] at hne
      rcases hnear.target with htarget | ⟨hnot, -⟩
      · exact hne htarget
      · rw [hup] at hnot
        cases hnot
    · rw [hsame, hkept]
      exact hownedAgain.symm
  · have hcanonical : canonicalInstruction spec w = source :=
      hkept.trans (kept_of_updates hup).1
    refine ⟨?_, fun h => absurd ⟨⟨source, data, ownership, baseline, hseen, hup⟩, ?_⟩ h⟩
    · rintro ⟨⟨rt, hrt⟩, hout⟩
      obtain ⟨source', data', ownership', baseline', w', hseenT, hwT⟩ := seen_of_ok hrt
      obtain ⟨_, f, rf, hrunT, hf, -⟩ :=
        @syncInstruction_run sha256 language spec distribution' stamp' _ _ _ _ w' _ hseenT hwT
      rw [hrunT] at hout
      have howned := ((hf.sameOutcome_iff hg).mp hout).2
      rw [hkept, hownedAgain, (kept_of_updates hup).2.2] at howned
      exact absurd howned (torn_lost hrest hseen hup hcanonical htorn hseenT)
    · rw [htorn.target, target_of_updates hfits hseen hup]
      intro heq
      obtain rfl := InstructionFile.regular.inj heq
      obtain ⟨-, hcurrent, hne, -⟩ := updates_iff.mp hup
      rw [hcanonical] at hcurrent
      exact hne hcurrent

/-! ## A mutation that stopped -/

section Compared

variable {text available : Bytes}

/-- The text of the user keeps its ownership. -/
theorem customized_compare :
    owned sha256 spec source text ownership baseline = "customized" ↔
      instructionHash sha256 text ≠ instructionHash sha256 baseline ∨ ownership = "customized" := by
  cases hup : Updates sha256 spec source text ownership baseline with
  | true =>
      obtain ⟨-, htext, -, hmanaged⟩ := updates_iff.mp hup
      rw [(kept_of_updates hup).2.2]
      refine ⟨fun h => absurd h (by decide), fun h => ?_⟩
      rcases h with h | h
      · exact absurd htext h
      · exact hmanaged.symm.trans h
  | false =>
      rw [(kept_of_not hup).2.2]
      by_cases hsame : instructionHash sha256 text = instructionHash sha256 baseline
      · rw [if_pos hsame]
        exact ⟨Or.inr, fun h => h.resolve_left (not_not.mpr hsame)⟩
      · rw [if_neg hsame]
        exact ⟨fun _ => Or.inl hsame, fun _ => rfl⟩

theorem kept_of_customized
    (h : owned sha256 spec source text ownership baseline = "customized") :
    kept sha256 spec source text ownership baseline = text := by
  cases hup : Updates sha256 spec source text ownership baseline with
  | true =>
      rw [(kept_of_updates hup).2.2] at h
      exact absurd h (by decide)
  | false => exact (kept_of_not hup).1

/-- The text of a release keeps its ownership. -/
theorem managed_compare :
    owned sha256 spec source text ownership baseline = "managed" ↔
      instructionHash sha256 text = instructionHash sha256 baseline ∧ ownership = "managed" := by
  cases hup : Updates sha256 spec source text ownership baseline with
  | true =>
      obtain ⟨-, htext, -, hmanaged⟩ := updates_iff.mp hup
      rw [(kept_of_updates hup).2.2]
      exact ⟨fun _ => ⟨htext, hmanaged⟩, fun _ => rfl⟩
  | false =>
      rw [(kept_of_not hup).2.2]
      by_cases hsame : instructionHash sha256 text = instructionHash sha256 baseline
      · rw [if_pos hsame]
        exact ⟨fun h => ⟨hsame, h⟩, fun h => h.2⟩
      · rw [if_neg hsame]
        exact ⟨fun h => absurd h (by decide), fun h => absurd h.1 hsame⟩

theorem kept_congr (h : instructionHash sha256 baseline = instructionHash sha256 baseline') :
    kept sha256 spec source text ownership baseline =
      kept sha256 spec source text ownership baseline' := by
  rw [kept, kept, Updates, Updates, h]

end Compared

/-- The text that is the target after a mutation, as it is read. -/
def landed (language : OutputLanguage) (spec : InstructionSpec) (action : String)
    (current result : Bytes) : Bytes :=
  if action ≠ "keep" then
    match writeText spec language result with
    | .ok w => canonicalInstruction spec w
    | .error _ => result
  else canonicalInstruction spec current

/-- The condition on a mutation that stopped: its new baseline is not written or has the hash of the
last one, and the text with its ownership is what the last metadata say of it. -/
def MutationKept (sha256 : Bytes → Sha256) (language : OutputLanguage) (spec : InstructionSpec)
    (action : String) (s t : InstructionFiles) : Prop :=
  ∃ source current baseline metadata result ownership,
    Inspected sha256 spec s source current baseline metadata ∧
    mutatedText spec action (some baseline) (canonicalInstruction spec current)
      (upstream spec s source) = .ok (result, ownership) ∧
    (t.baseline = s.baseline ∨ instructionHash sha256 (upstream spec s source) =
      instructionHash sha256 baseline) ∧
    if ownership = "managed" then
      instructionHash sha256 (landed language spec action current result) =
        instructionHash sha256 baseline ∧ metadata.Ownership = "managed"
    else
      instructionHash sha256 (landed language spec action current result) ≠
        instructionHash sha256 baseline ∨ metadata.Ownership = "customized"

theorem mutatedText_ownership {action : String} {baseline : Option Bytes}
    {current available result : Bytes}
    (h : mutatedText spec action baseline current available = .ok (result, ownership)) :
    ownership = "customized" ∨ ownership = "managed" ∧ action = "reset" ∧ result = available := by
  unfold mutatedText at h
  split at h
  · obtain ⟨-, rfl⟩ := Prod.mk.inj (Except.ok.inj h)
    exact Or.inl rfl
  · split at h
    · rename_i hreset
      obtain ⟨rfl, rfl⟩ := Prod.mk.inj (Except.ok.inj h)
      split
      · exact Or.inl rfl
      · exact Or.inr ⟨rfl, hreset, rfl⟩
    · split at h
      · split at h
        · cases h
        · rename_i b
          cases hmerge : mergeInstructionLines b current available with
          | error e =>
              rw [hmerge] at h
              cases h
          | ok merged =>
              rw [hmerge] at h
              obtain ⟨-, rfl⟩ := Prod.mk.inj (Except.ok.inj h)
              exact Or.inl rfl
      · cases h

theorem mutationKept_iff {action : String} {source current baseline result : Bytes}
    {metadata : InstructionMetadata}
    (hi : Inspected sha256 spec s source current baseline metadata)
    (hresult : mutatedText spec action (some baseline) (canonicalInstruction spec current)
      (upstream spec s source) = .ok (result, ownership)) :
    MutationKept sha256 language spec action s t ↔
      (t.baseline = s.baseline ∨ instructionHash sha256 (upstream spec s source) =
        instructionHash sha256 baseline) ∧
      if ownership = "managed" then
        instructionHash sha256 (landed language spec action current result) =
          instructionHash sha256 baseline ∧ metadata.Ownership = "managed"
      else
        instructionHash sha256 (landed language spec action current result) ≠
          instructionHash sha256 baseline ∨ metadata.Ownership = "customized" := by
  constructor
  · rintro ⟨source', current', baseline', metadata', result', ownership', hi', hresult', h⟩
    obtain rfl := InstructionFile.regular.inj (hi.sourceFile.symm.trans hi'.sourceFile)
    obtain rfl := InstructionFile.regular.inj (hi.targetFile.symm.trans hi'.targetFile)
    obtain rfl := Option.some.inj (hi.baselineFile.symm.trans hi'.baselineFile)
    obtain rfl := Option.some.inj (Except.ok.inj (hi.metadataFile.symm.trans hi'.metadataFile))
    obtain ⟨rfl, rfl⟩ := Prod.mk.inj (Except.ok.inj (hresult.symm.trans hresult'))
    exact h
  · exact fun h => ⟨source, current, baseline, metadata, result, ownership, hi, hresult, h⟩

/-- What two states with one text come to, when the baseline of one has the last hash. -/
theorem resumes_iff {source available data : Bytes} {distribution : Distribution} {stamp : String} {u : InstructionFiles}
    (ht : Seen sha256 language spec t source data ownership baseline)
    (hu : Seen sha256 language spec u source data ownership' available)
    (hw : writeText spec language
      (kept sha256 spec source (canonicalInstruction spec data) ownership' available) = .ok w)
    (howner : ownership' = "customized" ∨ ownership' = "managed" ∧
      instructionHash sha256 (canonicalInstruction spec data) =
        instructionHash sha256 available) :
    Resumes sha256 language spec distribution stamp t u ↔
      if ownership' = "managed" then
        instructionHash sha256 (canonicalInstruction spec data) =
          instructionHash sha256 baseline ∧ ownership = "managed"
      else
        instructionHash sha256 (canonicalInstruction spec data) ≠
          instructionHash sha256 baseline ∨ ownership = "customized" := by
  obtain ⟨_, g, rg, hrunU, hg, -⟩ :=
    @syncInstruction_run sha256 language spec distribution stamp _ _ _ _ w _ hu hw
  rw [Resumes, hrunU]
  -- the ownership of the one decides
  have hdecided : ∀ r, ((syncInstruction sha256 language spec distribution stamp).run t).result =
      .ok r → SameOutcome sha256
        ((syncInstruction sha256 language spec distribution stamp).run t).final g →
      owned sha256 spec source (canonicalInstruction spec data) ownership baseline =
        owned sha256 spec source (canonicalInstruction spec data) ownership' available := by
    intro r hr hout
    obtain ⟨source', data', ownership'', baseline'', w', hseen, hw'⟩ := seen_of_ok hr
    obtain ⟨rfl, rfl, rfl, rfl⟩ := ht.unique hseen
    obtain ⟨_, f, rf, hrunT, hf, -⟩ :=
      @syncInstruction_run sha256 language spec distribution stamp _ _ _ _ w' _ hseen hw'
    rw [hrunT] at hout
    exact ((hf.sameOutcome_iff hg).mp hout).2
  have hresumed : kept sha256 spec source (canonicalInstruction spec data) ownership baseline =
        kept sha256 spec source (canonicalInstruction spec data) ownership' available →
      owned sha256 spec source (canonicalInstruction spec data) ownership baseline =
        owned sha256 spec source (canonicalInstruction spec data) ownership' available →
      (∃ r, ((syncInstruction sha256 language spec distribution stamp).run t).result = .ok r) ∧
        SameOutcome sha256
          ((syncInstruction sha256 language spec distribution stamp).run t).final g := by
    intro hkept howned
    obtain ⟨_, f, rf, hrunT, hf, -⟩ :=
      @syncInstruction_run sha256 language spec distribution stamp _ _ _ _ w _ ht
        (by rw [hkept]; exact hw)
    rw [hrunT]
    exact ⟨⟨rf, rfl⟩, (hf.sameOutcome_iff hg).mpr ⟨rfl, howned⟩⟩
  rcases howner with rfl | ⟨rfl, hsame⟩
  · rw [if_neg (by decide)]
    have hownedU := (@customized_compare sha256 spec source available "customized"
      (canonicalInstruction spec data)).mpr (Or.inr rfl)
    constructor
    · rintro ⟨⟨r, hr⟩, hout⟩
      exact customized_compare.mp ((hdecided r hr hout).trans hownedU)
    · intro hcond
      have hownedT := (@customized_compare sha256 spec source baseline ownership
        (canonicalInstruction spec data)).mpr hcond
      refine hresumed ?_ (hownedT.trans hownedU.symm)
      rw [kept_of_customized hownedT, kept_of_customized hownedU]
  · rw [if_pos rfl]
    have hownedU := (@managed_compare sha256 spec source available "managed"
      (canonicalInstruction spec data)).mpr ⟨hsame, rfl⟩
    constructor
    · rintro ⟨⟨r, hr⟩, hout⟩
      exact managed_compare.mp ((hdecided r hr hout).trans hownedU)
    · rintro ⟨hbase, rfl⟩
      refine hresumed (kept_congr (hbase.symm.trans hsame)) ?_
      exact (managed_compare.mpr ⟨hbase, rfl⟩).trans hownedU.symm

/-- What a state is read as after a mutation wrote its text. -/
theorem seen_landed {source current : Bytes} {baseline baseline' data : Bytes}
    {metadata metadata' : InstructionMetadata}
    (hi : Inspected sha256 spec s source current baseline metadata) (hsource : t.source = s.source)
    (htarget : t.target = .regular data)
    (hmetadata : readInstructionMetadata spec.Name t.metadata = .ok (some metadata'))
    (hbaseline : t.baseline = some baseline')
    (hhash : instructionHash sha256 baseline' = metadata'.BaselineHash) :
    Seen sha256 language spec t (canonicalInstruction spec source) data metadata'.Ownership
      baseline' := by
  refine ⟨⟨source, hsource.trans hi.sourceFile, rfl, ?_⟩, .known hmetadata hbaseline hhash⟩
  rw [htarget]
  exact .present data

/-- A mutation that stopped is resumed exactly when its condition holds. -/
theorem mutation_interrupted {action : String} {request : InstructionMutationRequest}
    {backup : Except String String} {distribution' : Distribution} {stamp stamp' : String}
    {r : InstructionMutationResult} {ru : InstructionResult} (hfits : Fits language spec s)
    (hok : ((mutateInstruction sha256 language spec action request backup stamp).run s).result =
      .ok r)
    (hu : ((syncInstruction sha256 language spec distribution' stamp').run
      ((mutateInstruction sha256 language spec action request backup stamp).run s).final).result =
        .ok ru)
    (ht : t ∈ ((mutateInstruction sha256 language spec action request backup stamp).run
      s).trail.dropLast) :
    Resumes sha256 language spec distribution' stamp' t
        ((mutateInstruction sha256 language spec action request backup stamp).run s).final ↔
      MutationKept sha256 language spec action s t := by
  obtain ⟨m, w, hm, hw, hfinal, hmem⟩ := mutateInstruction_ok hok
  obtain ⟨source, current, baseline, metadata, hi, -, -, hmetadata, havailable, hresult⟩ :=
    prepareMutation_ok hm
  obtain ⟨hrest, htarget, hbaseline⟩ := hmem t ht
  -- the text on the target, as it is read
  obtain ⟨data, hdata, hread⟩ : ∃ data, landedFile action s w = .regular data ∧
      canonicalInstruction spec data = landed language spec action current m.result := by
    unfold landedFile landed
    split
    · rw [hw]
      exact ⟨w, rfl, rfl⟩
    · exact ⟨current, hi.targetFile, rfl⟩
  have hdescribed : Describes sha256 spec m.available m.ownership (m.recorded sha256 stamp) := by
    have hfields : Describes sha256 spec baseline metadata.Ownership metadata :=
      ⟨readInstructionMetadata_ok hi.metadataFile ▸ hi.metadataFile, rfl, hi.matched.symm⟩
    obtain ⟨hschema, hname, hsnapshot⟩ := hfields.fields
    rw [← hmetadata] at hschema hname hsnapshot
    exact describes hschema hname hsnapshot rfl rfl
  have hseenU : Seen sha256 language spec
      ((mutateInstruction sha256 language spec action request backup stamp).run s).final
      (canonicalInstruction spec source) data m.ownership m.available := by
    rw [hfinal]
    exact @seen_landed _ language _ _ _ source current baseline _ _ metadata
      (m.recorded sha256 stamp) hi rfl hdata hdescribed.valid rfl hdescribed.baselineHash.symm
  obtain ⟨_, _, _, _, wU, hseenU', hwU⟩ := seen_of_ok hu
  obtain ⟨rfl, rfl, rfl, rfl⟩ := hseenU.unique hseenU'
  have howner : m.ownership = "customized" ∨ m.ownership = "managed" ∧
      instructionHash sha256 (canonicalInstruction spec data) =
        instructionHash sha256 m.available := by
    obtain h | ⟨h, rfl, hsame⟩ := mutatedText_ownership hresult
    · exact Or.inl h
    · refine Or.inr ⟨h, ?_⟩
      have hsettled : Settled language spec m.available := by
        rw [havailable, upstream]
        cases ha : s.available with
        | none => exact (hfits.source source hi.sourceFile).settled
        | some available => exact hfits.available available ha
      obtain ⟨w', hw', hcanonical⟩ := hsettled
      rw [hread, landed, if_pos (by decide), hsame, hw']
      exact congrArg _ hcanonical
  rw [havailable] at hresult
  rw [mutationKept_iff hi hresult, ← hread, ← havailable]
  by_cases hkept : t.baseline = s.baseline ∨
      instructionHash sha256 m.available = instructionHash sha256 baseline
  · obtain ⟨baseline', hb, hhash⟩ : ∃ baseline', t.baseline = some baseline' ∧
        instructionHash sha256 baseline' = instructionHash sha256 baseline := by
      rcases hkept with h | h
      · exact ⟨baseline, h.trans hi.baselineFile, rfl⟩
      · rcases hbaseline with h' | h'
        · exact ⟨baseline, h'.trans hi.baselineFile, rfl⟩
        · exact ⟨_, h', h⟩
    have hseenT : Seen sha256 language spec t (canonicalInstruction spec source) data
        metadata.Ownership baseline' :=
      seen_landed hi hrest.source (htarget.trans hdata) (hrest.metadata ▸ hi.metadataFile) hb
        (hhash.trans hi.matched)
    rw [resumes_iff hseenT hseenU hwU howner, hhash]
    exact ⟨fun h => ⟨hkept, h⟩, fun h => h.2⟩
  · refine ⟨?_, fun h => absurd h.1 hkept⟩
    rintro ⟨⟨rt, hrt⟩, -⟩
    rw [not_or] at hkept
    have hb := hbaseline.resolve_left hkept.1
    obtain ⟨_, _, _, _, _, hseenT, -⟩ := seen_of_ok hrt
    obtain ⟨-, hbased⟩ := hseenT
    cases hbased with
    | new hnone =>
        rw [hrest.metadata, readInstructionMetadata_ok hi.metadataFile] at hnone
        cases hnone
    | known hmetadata' hbaseline' hmatched =>
        rw [hrest.metadata, hi.metadataFile] at hmetadata'
        obtain rfl := Option.some.inj (Except.ok.inj hmetadata')
        obtain rfl := Option.some.inj (hb.symm.trans hbaseline')
        exact absurd (hmatched.trans hi.matched.symm) hkept.2

/-! ## Texts of the user -/

/-- A text that the release installed and that nobody changed. -/
def Unchanged (sha256 : Bytes → Sha256) (language : OutputLanguage) (spec : InstructionSpec)
    (s : InstructionFiles) (data : Bytes) : Prop :=
  ∃ source ownership baseline, Seen sha256 language spec s source data ownership baseline ∧
    spec.Workspace = false ∧ ownership = "managed" ∧
    instructionHash sha256 (canonicalInstruction spec data) = instructionHash sha256 baseline

/-- A text that the user wrote is still there, with the words of the language. -/
def KeepsText (sha256 : Bytes → Sha256) (language : OutputLanguage) (spec : InstructionSpec)
    (s t : InstructionFiles) : Prop :=
  ∀ data, s.target = .regular data → ¬ Unchanged sha256 language spec s data →
    ∃ w, t.target = .regular w ∧ writeText spec language (canonicalInstruction spec data) = .ok w ∧
      (FramedText spec data → canonicalInstruction spec w = canonicalInstruction spec data)

theorem syncInstruction_keepsText {distribution : Distribution} {stamp : String}
    {r : InstructionResult}
    (hok : ((syncInstruction sha256 language spec distribution stamp).run s).result = .ok r) :
    KeepsText sha256 language spec s
      ((syncInstruction sha256 language spec distribution stamp).run s).final := by
  obtain ⟨source, data, ownership, baseline, w, hseen, hw⟩ := seen_of_ok hok
  obtain ⟨_, f, _, hrun, hf, -⟩ :=
    @syncInstruction_run sha256 language spec distribution stamp _ _ _ _ w _ hseen hw
  rw [hrun]
  intro data' htarget hchanged
  obtain rfl : data = data' := by
    obtain ⟨⟨_, _, _, hopened⟩, -⟩ := hseen
    rw [htarget] at hopened
    cases hopened
    rfl
  have hnot : Updates sha256 spec source (canonicalInstruction spec data) ownership baseline =
      false := by
    rw [Bool.eq_false_iff]
    intro hup
    obtain ⟨hworkspace, hsame, -, hmanaged⟩ := updates_iff.mp hup
    exact hchanged ⟨source, ownership, baseline, hseen, hworkspace, hmanaged, hsame⟩
  rw [(kept_of_not hnot).1] at hw
  refine ⟨w, hf.targetFile, hw, fun hframed => ?_⟩
  obtain ⟨w', hw', hcanonical⟩ := @FramedText.settled language _ _ hframed
  obtain rfl := Except.ok.inj (hw.symm.trans hw')
  exact hcanonical

end OneInstruction

/-! ## All instructions -/

section AllInstructions

variable {sha256 : Bytes → Sha256} {config : InstructionConfig} {spec : InstructionSpec}
  {distribution : Distribution} {stamp : String} {state : Instructions}

/-- What is expected of `SyncInstructions` on the files a stopped command leaves, beside those it
leaves when it is not stopped. -/
structure Recovered (sha256 : Bytes → Sha256) (config : InstructionConfig)
    (distribution : Distribution) (stamp : String) (spec : InstructionSpec) (t u : Instructions) :
    Prop where
  succeeds : ∃ r, ((SyncInstructions sha256 config distribution stamp).run t).result = .ok r
  keepsText : KeepsText sha256 config.OutputLanguage spec (t spec.Name)
    (((SyncInstructions sha256 config distribution stamp).run t).final spec.Name)
  outcome : SameOutcome sha256
    (((SyncInstructions sha256 config distribution stamp).run t).final spec.Name)
    (((SyncInstructions sha256 config distribution stamp).run u).final spec.Name)
  others : ∀ other ∈ instructionSpecs config, other.Name ≠ spec.Name →
    ((SyncInstructions sha256 config distribution stamp).run t).final other.Name =
      ((SyncInstructions sha256 config distribution stamp).run u).final other.Name

theorem recovered_iff (hspec : spec ∈ instructionSpecs config) {t u : InstructionFiles}
    (ht : t.source ≠ .missing) (hu : u.source ≠ .missing) {r : InstructionStatusResult}
    (hok : ((SyncInstructions sha256 config distribution stamp).run
      (Function.update state spec.Name u)).result = .ok r) :
    Recovered sha256 config distribution stamp spec (Function.update state spec.Name t)
        (Function.update state spec.Name u) ↔
      Resumes sha256 config.OutputLanguage spec distribution stamp t u := by
  obtain ⟨hokU, hfinalU⟩ :=
    @SyncInstructions_run sha256 config distribution stamp (Function.update state spec.Name u)
  obtain ⟨hokT, hfinalT⟩ :=
    @SyncInstructions_run sha256 config distribution stamp (Function.update state spec.Name t)
  have hallU := hokU.mp ⟨r, hok⟩
  have hone : ∀ f : InstructionFiles, f.source ≠ .missing →
      (if ((Function.update state spec.Name f : Instructions) spec.Name).source = .missing then
        (Function.update state spec.Name f : Instructions) spec.Name
      else (syncOne sha256 config distribution stamp spec
        ((Function.update state spec.Name f : Instructions) spec.Name)).final) =
          (syncOne sha256 config distribution stamp spec f).final := by
    intro f hf
    rw [Function.update_self, if_neg hf]
  constructor
  · intro h
    have hallT := hokT.mp h.succeeds
    obtain ⟨rt, hrt⟩ := hallT spec hspec (by rwa [Function.update_self])
    rw [Function.update_self] at hrt
    refine ⟨⟨rt, hrt⟩, ?_⟩
    have hout := h.outcome
    rwa [hfinalT hallT spec hspec, hfinalU hallU spec hspec, hone t ht, hone u hu] at hout
  · rintro ⟨⟨rt, hrt⟩, hout⟩
    have hallT : AllSync sha256 config distribution stamp (instructionSpecs config)
        (Function.update state spec.Name t) := by
      intro other hother hsource
      by_cases hname : other.Name = spec.Name
      · obtain rfl := spec_unique hother hspec hname
        rw [Function.update_self]
        exact ⟨rt, hrt⟩
      · rw [Function.update_of_ne hname] at hsource ⊢
        have h := hallU other hother
        rw [Function.update_of_ne hname] at h
        exact h hsource
    refine ⟨hokT.mpr hallT, ?_, ?_, fun other hother hname => ?_⟩
    · rw [hfinalT hallT spec hspec, hone t ht, Function.update_self]
      exact syncInstruction_keepsText hrt
    · rw [hfinalT hallT spec hspec, hfinalU hallU spec hspec, hone t ht, hone u hu]
      exact hout
    · rw [hfinalT hallT other hother, hfinalU hallU other hother, Function.update_of_ne hname,
        Function.update_of_ne hname]

theorem onFiles_trail {α : Type} (name : String) (p : InstructionAction α) :
    ((onFiles name p).run state).trail.dropLast =
      (p.run (state name)).trail.dropLast.map (Function.update state name ·) :=
  (List.map_dropLast ..).symm

/-- What a synchronisation leaves and goes through has the text of the release. -/
theorem syncInstruction_source {language : OutputLanguage} {s t : InstructionFiles}
    {r : InstructionResult}
    (hok : ((syncInstruction sha256 language spec distribution stamp).run s).result = .ok r)
    (ht : t ∈ ((syncInstruction sha256 language spec distribution stamp).run s).trail ∨
      t = ((syncInstruction sha256 language spec distribution stamp).run s).final) :
    t.source ≠ .missing := by
  obtain ⟨source, data, ownership, baseline, w, hseen, hw⟩ := seen_of_ok hok
  obtain ⟨trail, u, _, hrun, hu, hmem⟩ :=
    @syncInstruction_run sha256 language spec distribution stamp _ _ _ _ _ _ hseen hw
  rw [hrun] at ht
  obtain ⟨⟨sourceData, hsource, -⟩, -⟩ := hseen
  have hsame : t.source = s.source := by
    rcases ht with ht | rfl
    · rcases List.mem_append.mp ht with ht | ht
      · exact (hmem t ht).rest.source
      · rw [List.mem_singleton.mp ht]
        exact hu.sourceFile
    · exact hu.sourceFile
  rw [hsame, hsource]
  exact InstructionFile.noConfusion

theorem MutateInstruction_run (hspec : spec ∈ instructionSpecs config) {action : String}
    {request : InstructionMutationRequest} {backup : Except String String}
    {r : InstructionMutationResult}
    (hok : ((MutateInstruction sha256 config spec.Name action request backup stamp).run
      state).result = .ok r) :
    (MutateInstruction sha256 config spec.Name action request backup stamp).run state =
      (onFiles spec.Name (mutateInstruction sha256 config.OutputLanguage spec action request backup
        stamp)).run state := by
  unfold MutateInstruction at hok ⊢
  split at hok
  · cases hok
  · rename_i hschema
    rw [if_neg hschema]
    cases hname : instructionSpecByName config spec.Name with
    | error e =>
        rw [hname] at hok
        cases hok
    | ok spec' =>
        obtain ⟨hspec', hsame⟩ := instructionSpecByName_ok hname
        obtain rfl := spec_unique hspec' hspec hsame
        rw [Prog.lift_ok, Prog.pure_bind']

/-- What a mutation leaves and goes through has the text of the release. -/
theorem mutateInstruction_source {language : OutputLanguage} {s t : InstructionFiles}
    {action : String} {request : InstructionMutationRequest} {backup : Except String String}
    {r : InstructionMutationResult}
    (hok : ((mutateInstruction sha256 language spec action request backup stamp).run s).result =
      .ok r)
    (ht : t ∈ ((mutateInstruction sha256 language spec action request backup stamp).run
        s).trail.dropLast ∨
      t = ((mutateInstruction sha256 language spec action request backup stamp).run s).final) :
    t.source ≠ .missing := by
  obtain ⟨m, w, hm, -, hfinal, hmem⟩ := mutateInstruction_ok hok
  obtain ⟨source, _, _, _, hi, -⟩ := prepareMutation_ok hm
  have hsame : t.source = s.source := by
    rcases ht with ht | rfl
    · exact (hmem t ht).1.source
    · rw [hfinal]
  rw [hsame, hi.sourceFile]
  exact InstructionFile.noConfusion

/-- Without a block for the language, every text is read as it is written. -/
theorem Fits.plain {language : OutputLanguage} {s : InstructionFiles} (hsoul : spec.Soul = false) :
    Fits language spec s := by
  have hframed : ∀ data, FramedText spec data := fun data h => by
    rw [hsoul] at h
    cases h
  exact ⟨fun data _ => hframed data, fun data _ => hframed data,
    fun data _ => ⟨data, writeText_plain hsoul data, canonicalInstruction_plain hsoul data⟩⟩

def agentsSpec : InstructionSpec :=
  ⟨"profile/AGENTS.md", "/openlia/profile/AGENTS.md", "/data/AGENTS.md", false, false⟩

theorem agentsSpec_mem : agentsSpec ∈ instructionSpecs exampleConfig := by decide

/-- The first synchronisation stopped after it had written the baseline. -/
def baselineState : Instructions :=
  Function.update firstState "profile/AGENTS.md"
    ((firstState "profile/AGENTS.md").setBaseline [1, 2, 3, 4, 5])

/-- The text of a release that nobody changed, when the next release is there. -/
def managedFiles : InstructionFiles :=
  { ((syncInstruction lengthSha256 english agentsSpec ⟨"1", "source"⟩ "now").run
      ⟨.regular [1, 2], .missing, none, none, none, none⟩).final with
    source := .regular [1, 2, 3] }

def managedState : Instructions :=
  Function.update firstState "profile/AGENTS.md" managedFiles

/-- The synchronisation stopped after it had written the target and the baseline. -/
def tornState : Instructions :=
  Function.update managedState "profile/AGENTS.md"
    ((managedFiles.setTarget [1, 2, 3]).setBaseline [1, 2, 3])

end AllInstructions

end Openlia.Instructions

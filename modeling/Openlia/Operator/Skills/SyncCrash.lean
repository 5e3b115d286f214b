import Openlia.Operator.Skills.SyncStatus

/-! # Interrupted synchronisation

Where a synchronisation stopped half-way, the next one goes on if the directory is gone or the
metadata still records it.
-/

namespace Openlia.Skills

open Lib Crash

variable {sha256 : Bytes → Sha256} {files : SkillFiles} {source : Dir}
  {name version sourceID : String} {calls : SyncCalls}

/-! ## Crashes -/

/-- The next synchronisation comes to the same end as if the first had not been interrupted. -/
structure Converges (sha256 : Bytes → Sha256) (before : SkillFiles) (source : Dir) (name : String)
    (again : Outcome SkillFiles String SkillResult) : Prop where
  upstream : Unmodified sha256 before name →
    (∃ r, again.result = .ok r) ∧ Current sha256 again.final source name
  kept : ¬ Unmodified sha256 before name → again.final.skill = before.skill

/-- A skill that the user has changed is never touched. -/
theorem halt_modified {crash : Option Nat} {crashed : SkillFiles}
    (h : ¬ Unmodified sha256 files name)
    (hhalt : (syncSkill sha256 calls source name version sourceID).halt files crash =
      some crashed) : crashed = files := by
  have hpending : ¬ Pending sha256 files source name := by
    rintro (hnone | ⟨t, ht, -⟩)
    · exact h (Or.inl hnone)
    · exact h (Or.inr ⟨t, ht⟩)
  obtain ⟨r, -, -, hleft, -⟩ := @syncSkill_idle sha256 files source name version sourceID calls
    hpending
  cases crash with
  | none => exact (Option.some.inj hhalt).symm.trans hleft.final
  | some n =>
      rw [Prog.halt, hleft.trail] at hhalt
      exact (List.mem_singleton.mp (List.mem_of_getElem? hhalt))

/-- Where there is nothing to do, the source is current exactly if the skill is unmodified. -/
theorem current_of_idle (h : ¬ Pending sha256 files source name) :
    Current sha256 files source name ↔ Unmodified sha256 files name := by
  constructor
  · rintro ⟨t, ht, -⟩
    exact Or.inr ⟨t, ht⟩
  · rintro (hnone | ⟨t, ht⟩)
    · exact absurd (Or.inl hnone) h
    · exact ⟨t, ht, by_contra fun hne => h (Or.inr ⟨t, ht, hne⟩)⟩

theorem Pending.unmodified (h : Pending sha256 files source name) :
    Unmodified sha256 files name := h.imp_right fun ⟨t, ht, _⟩ => ⟨t, ht⟩

/-- After a crash at any point the next synchronisation converges if and only if what the crash left
is unmodified: there is no directory, or the metadata records the one there is. -/
theorem syncSkill_after_crash {crash : Option Nat} {crashed : SkillFiles} {again : SyncCalls}
    (hhalt : (syncSkill sha256 calls source name version sourceID).halt files crash =
      some crashed) :
    Converges sha256 files source name
        ((syncSkill sha256 again source name version sourceID).run crashed) ↔
      (Unmodified sha256 files name → Unmodified sha256 crashed name ∧
        (Pending sha256 crashed source name →
          Recordable again crashed source name version sourceID)) := by
  have hkept : ¬ Unmodified sha256 files name →
      ((syncSkill sha256 again source name version sourceID).run crashed).final.skill =
        files.skill := by
    intro hmodified
    obtain rfl := halt_modified hmodified hhalt
    obtain ⟨r, -, -, hleft, -⟩ := @syncSkill_idle sha256 crashed source name version sourceID again
      fun hpending => hmodified hpending.unmodified
    rw [hleft.final]
  have hagain : ((∃ r, ((syncSkill sha256 again source name version sourceID).run crashed).result =
      .ok r) ∧ Current sha256 ((syncSkill sha256 again source name version sourceID).run
        crashed).final source name) ↔
      Unmodified sha256 crashed name ∧ (Pending sha256 crashed source name →
        Recordable again crashed source name version sourceID) := by
    by_cases hpending : Pending sha256 crashed source name
    · obtain ⟨hiff, -⟩ := @syncSkill_pending sha256 crashed source name version sourceID again
        hpending
      exact hiff.trans ⟨fun h => ⟨hpending.unmodified, fun _ => h⟩, fun h => h.2 hpending⟩
    · obtain ⟨r, -, -, hleft, -⟩ := @syncSkill_idle sha256 crashed source name version sourceID
        again hpending
      rw [hleft.final, current_of_idle hpending]
      exact ⟨fun h => ⟨h.2, fun h' => absurd h' hpending⟩, fun h => ⟨⟨r, hleft.result⟩, h.1⟩⟩
  exact ⟨fun h hu => hagain.mp (h.upstream hu), fun h => ⟨fun hu => hagain.mpr (h hu), hkept⟩⟩

/-! ## Where a crash leaves the files -/

/-- The directory is written, the metadata is still the one of before. -/
def Unrecorded (before : SkillFiles) (source : Dir) (calls : SyncCalls) (crashed : SkillFiles) :
    Prop :=
  crashed.metadata = before.metadata ∧
    ∃ t, crashed.skill = some (.directory t) ∧ (t = source ∨ t ∈ calls.copiedSkill)

/-- The directory and the metadata are written. -/
def Recorded (sha256 : Bytes → Sha256) (source : Dir) (crashed : SkillFiles) : Prop :=
  crashed.skill = some (.directory source) ∧ ∃ m, crashed.metadata = some (some m) ∧
    m.Ownership = "managed" ∧ m.ContentSHA256 = contentHash sha256 source

/-- The directory is complete. -/
def Copied (before : SkillFiles) (source : Dir) (f : SkillFiles) : Prop :=
  f.metadata = before.metadata ∧ f.skill = some (.directory source)

theorem Copied.unrecorded {before f : SkillFiles} (h : Copied before source f) :
    Unrecorded before source calls f := ⟨h.1, source, h.2, Or.inl rfl⟩

theorem copySkill_crash {before : SkillFiles} {copied : List Dir}
    (h : ∀ t ∈ copied, t ∈ calls.copiedSkill) :
    Spec (fun f => f.metadata = before.metadata) (copyDir SkillFiles.setSkill source copied)
      (Unrecorded before source calls) (fun r f => r = .ok () ∧ Copied before source f) := by
  induction copied with
  | nil => exact Spec.write (fun f hf => ⟨hf, source, rfl, Or.inl rfl⟩) fun f hf => ⟨rfl, hf, rfl⟩
  | cons t rest ih =>
      refine Spec.seq (Spec.write ?_ ?_) (ih fun u hu => h u (List.mem_cons_of_mem _ hu))
      · exact fun f hf => ⟨hf, t, rfl, Or.inr (h t List.mem_cons_self)⟩
      · exact fun f hf => ⟨rfl, hf⟩

theorem copyBase_keeps {I : SkillFiles → Prop} (hI : ∀ f e, I f → I (f.setBase e))
    (copied : List Dir) : Preserves I (copyDir SkillFiles.setBase source copied) := by
  induction copied with
  | nil => exact Preserves.write fun f hf => hI f _ hf
  | cons t rest ih => exact Preserves.bind (Preserves.write fun f hf => hI f _ hf) fun _ => ih

/-- The snapshot and the patch touch neither the directory nor the metadata. -/
theorem writeSkillBaseline_keeps {before : SkillFiles} {metadata : SkillMetadata} :
    Preserves (Copied before source) (writeSkillBaseline sha256 calls source name metadata) := by
  have hsame : ∀ {α : Type} {f : SkillFiles} {p : SkillAction α}, Copied before source f →
      Preserves (Copied before source) p →
        Spec (· = f) p (Copied before source) fun _ g => Copied before source g :=
    fun hf hp => hp.conseq (fun g hg => hg ▸ hf) (fun _ h => h) fun _ _ h => h
  have hbase : Preserves (Copied before source) (replaceBase source calls.copiedBase) := by
    refine Preserves.get_bind fun f hf => hsame hf ?_
    cases f.base with
    | none => exact copyBase_keeps (fun _ _ h => h) _
    | some e =>
        cases e with
        | other => exact Preserves.fail _
        | directory t =>
            exact Preserves.bind (Preserves.write fun g hg => hg) fun _ =>
              Preserves.write fun g hg => hg
  have hlift : ∀ {α : Type} (x : Except String α),
      Preserves (Copied before source) (Prog.lift x) := by
    intro α x
    cases x with
    | error e => exact Preserves.fail e
    | ok a => exact Preserves.pure a
  refine Preserves.bind hbase fun _ => Preserves.get_bind fun f hf => ?_
  refine hsame hf ?_
  refine Preserves.bind (hlift _) fun patch => ?_
  refine Preserves.bind (hlift _) fun _ => ?_
  exact Preserves.bind (Preserves.write fun g hg => hg) fun _ => Preserves.pure _

/-- Behind the copy the metadata is the old one or records the source. -/
theorem recorded_crash {before : SkillFiles} {installedAt : String}
    {k : SkillMetadata → SkillAction SkillResult}
    (hk : ∀ m, Preserves (Recorded sha256 source) (k m)) :
    Spec (Copied before source) (do
      let written ← writeSkillBaseline sha256 calls source name
        { newMetadata calls name (contentHash sha256 source) version sourceID with
          InstalledAt := installedAt }
      writeSkillMetadata written
      k written : SkillAction SkillResult)
      (fun f => Copied before source f ∨ Recorded sha256 source f)
      (fun _ f => Copied before source f ∨ Recorded sha256 source f) := by
  have hbaseline : Spec (Copied before source) (writeSkillBaseline sha256 calls source name
      { newMetadata calls name (contentHash sha256 source) version sourceID with
        InstalledAt := installedAt })
      (fun f => Copied before source f ∨ Recorded sha256 source f)
      (fun r f => Copied before source f ∧ ∀ m, r = .ok m →
        m.Ownership = "managed" ∧ m.ContentSHA256 = contentHash sha256 source) := by
    intro f hf
    obtain ⟨htrail, hfinal⟩ := @writeSkillBaseline_keeps sha256 source name calls before
      { newMetadata calls name (contentHash sha256 source) version sourceID with
        InstalledAt := installedAt } f hf
    refine ⟨fun t ht => Or.inl (htrail t ht), hfinal, fun m hm => ?_⟩
    obtain ⟨-, -, hwritten⟩ := @writeSkillBaseline_run sha256 f source name calls
      { newMetadata calls name (contentHash sha256 source) version sourceID with
        InstalledAt := installedAt } hf.2
    obtain ⟨patch, rfl⟩ := hwritten m hm
    exact ⟨rfl, rfl⟩
  refine Spec.bind hbaseline (fun m => ?_) fun e f hf => Or.inl hf.1
  refine Spec.bind (Q := fun _ f => Recorded sha256 source f) (Spec.write ?_ ?_) (fun _ => ?_)
    fun e f hf => Or.inr hf
  · exact fun f hf => Or.inr ⟨hf.1.2, m, rfl, hf.2 m rfl⟩
  · exact fun f hf => ⟨hf.1.2, m, rfl, hf.2 m rfl⟩
  · exact (hk m).conseq (fun _ h => h) (fun _ h => Or.inr h) fun _ _ h => Or.inr h

/-- Where an interrupted synchronisation may leave the files. -/
theorem syncSkill_interrupted {crash : Option Nat} {crashed : SkillFiles}
    (h : Pending sha256 files source name)
    (hhalt : (syncSkill sha256 calls source name version sourceID).halt files crash =
      some crashed) :
    crashed = files ∨ crashed.skill = none ∨ Unrecorded files source calls crashed ∨
      Recorded sha256 source crashed := by
  have hbehind : ∀ f, Copied files source f ∨ Recorded sha256 source f → f = files ∨
      f.skill = none ∨ Unrecorded files source calls f ∨ Recorded sha256 source f :=
    fun f hf => hf.elim (fun h => Or.inr (Or.inr (Or.inl h.unrecorded)))
      fun h => Or.inr (Or.inr (Or.inr h))
  have hspec : Spec (· = files) (syncSkill sha256 calls source name version sourceID)
      (fun f => f = files ∨ f.skill = none ∨ Unrecorded files source calls f ∨
        Recorded sha256 source f)
      (fun _ f => f = files ∨ f.skill = none ∨ Unrecorded files source calls f ∨
        Recorded sha256 source f) := by
    refine Spec.get_bind ?_
    rintro before rfl
    dsimp only
    rcases h with hnone | ⟨t, ht, hne⟩
    · rw [hnone]
      refine Spec.seq ((@copySkill_crash source calls before calls.copiedSkill fun t ht => ht).conseq
        (fun f hf => by rw [hf]) (fun f hf => Or.inr (Or.inr (Or.inl hf))) fun _ _ hf => hf) ?_
      refine (recorded_crash (fun m => ?_)).conseq (fun _ hf => hf) hbehind fun _ f hf => hbehind f hf
      exact Preserves.bind Preserves.refuse fun _ => Preserves.pure _
    · rw [ht.skill]
      dsimp only
      unfold syncDirectory
      dsimp only
      rw [if_neg fun h => ht.unforked h.2, if_pos ⟨ht.valid, ht.hash⟩, if_neg hne]
      refine Spec.seq (I := Copied before source) (Spec.seq (I := fun f => f.metadata =
        before.metadata) (Spec.write ?_ ?_) (Spec.write ?_ ?_)) ?_
      · exact fun f hf => Or.inr (Or.inl rfl)
      · rintro f rfl
        exact ⟨rfl, rfl⟩
      · exact fun f hf => Or.inr (Or.inr (Or.inl ⟨hf, source, rfl, Or.inl rfl⟩))
      · exact fun f hf => ⟨rfl, hf, rfl⟩
      · exact (recorded_crash (fun m => Preserves.pure _)).conseq (fun _ hf => hf) hbehind
          fun _ f hf => hbehind f hf
  exact hspec.halt (Or.inl rfl) (fun _ _ hf => hf) hhalt

/-- An update that stops between the directory and its metadata looks like a change of the user. -/
theorem unrecorded_update {t : Dir} {crashed : SkillFiles} (ht : Managed sha256 files name t)
    (hne : contentHash sha256 t ≠ contentHash sha256 source)
    (h : Copied files source crashed) : ¬ Unmodified sha256 crashed name := by
  rintro (hnone | ⟨u, hu⟩)
  · cases h.2.symm.trans hnone
  · have hsource : u = source := by
      have := hu.skill.symm.trans h.2
      cases this
      rfl
    subst hsource
    have hhash := hu.hash
    rw [h.1, ← ht.hash] at hhash
    exact hne hhash.symm

/-- An installation that stops before its metadata is no longer taken for one, unless metadata of
before records it. -/
theorem unrecorded_install {crashed : SkillFiles} (h : Unrecorded files source calls crashed)
    (hmetadata : (readSkillMetadata files.metadata name).State ≠ "valid") :
    ¬ Unmodified sha256 crashed name := by
  obtain ⟨hm, t, ht, -⟩ := h
  rintro (hnone | ⟨u, hu⟩)
  · cases ht.symm.trans hnone
  · have hvalid := hu.valid
    rw [hm] at hvalid
    exact hmetadata hvalid

def absentSkill : SkillFiles := ⟨none, none, none, none⟩

theorem syncSkill_interrupted_midway :
    ∃ crashed, crashed = absentSkill ∨ crashed.skill = none ∨
      Unrecorded absentSkill .empty exampleCalls crashed ∨ Recorded zeroSha256 .empty crashed := by
  have hhalt : (syncSkill zeroSha256 exampleCalls .empty "example" "1" "release").halt absentSkill
      (some 1) = some (absentSkill.setSkill (some (.directory .empty))) := rfl
  exact ⟨_, syncSkill_interrupted (.inl rfl) hhalt⟩

/-- An installation stops behind its first directory. -/
theorem install_interrupted_blocked :
    ∃ crashed, (syncSkill zeroSha256 exampleCalls .empty "example" "1" "release").halt absentSkill
        (some 1) = some crashed ∧
      ¬ Converges zeroSha256 absentSkill .empty "example"
        ((syncSkill zeroSha256 exampleCalls .empty "example" "1" "release").run crashed) := by
  refine ⟨absentSkill.setSkill (some (.directory .empty)), rfl, fun h => ?_⟩
  obtain ⟨-, t, ht, -⟩ := h.upstream (Or.inl rfl)
  exact absurd (show "unmanaged" = "valid" from ht.valid) (by decide)

theorem install_refused_resumes :
    Converges zeroSha256 absentSkill .empty "example"
      ((syncSkill zeroSha256 exampleCalls .empty "example" "1" "release").run absentSkill) := by
  have hhalt : (syncSkill zeroSha256 exampleCalls .empty "example" "1" "release").halt absentSkill
      (some 0) = some absentSkill := rfl
  refine (syncSkill_after_crash hhalt).mpr fun hu => ⟨hu, fun _ => ⟨?_, rfl, ?_, ?_, nofun, ?_⟩⟩
  · exact ⟨_, readSkillFiles_of_plain plain_empty⟩
  · decide
  · decide
  · exact fun _ => rfl

end Openlia.Skills

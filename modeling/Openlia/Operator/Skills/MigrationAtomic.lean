import Openlia.Operator.Skills.MigrationApply

/-! # A migration is all or nothing

The checks change nothing but a stale proposal, and copy what is there. From when no call
fails any more, a rollback puts all of it back, whatever the replacements have left.
-/

namespace Openlia.Skills

open Lib Faulty

section Atomic

variable {host : MigrationHost} {fails : Nat → Bool} {s s' : Counted Artefacts}
  {proposalID : String}

/-! ## Checks -/

/-- A computation that never ends well. -/
def Refuses (m : Migration Unit) : Prop := ∀ s s', m.run.run s ≠ (.ok (), s')

theorem refuses_refuse (reason : String) : Refuses (refuse reason) := by
  intro s s' h
  cases h

theorem refuses_markProposalStale (proposal : SkillMigrationProposal) (reason : String) :
    Refuses (markProposalStale host fails proposal reason) := by
  intro s s' h
  obtain ⟨⟨⟩, s₁, -, h⟩ := bind_ok h
  cases h

variable {α β : Type} {b : β}

theorem require_bind {c : Prop} [Decidable c] {otherwise : Migration Unit}
    {k : Unit → Migration β} (hotherwise : Refuses otherwise)
    (h : (require c otherwise >>= k).run.run s = (.ok b, s')) :
    c ∧ (k ()).run.run s = (.ok b, s') := by
  obtain ⟨⟨⟩, s₁, hrequire, hrest⟩ := bind_ok h
  unfold require at hrequire
  split at hrequire
  · rename_i hc
    cases hrequire
    exact ⟨hc, hrest⟩
  · exact absurd hrequire (hotherwise s s₁)

theorem orRefuse_bind {reason : String} {o : Option α} {k : α → Migration β}
    (h : (orRefuse reason o >>= k).run.run s = (.ok b, s')) :
    ∃ a, o = some a ∧ (k a).run.run s = (.ok b, s') := by
  obtain ⟨a, s₁, horRefuse, hrest⟩ := bind_ok h
  cases o with
  | none => cases horRefuse
  | some a' =>
      cases horRefuse
      exact ⟨a, rfl, hrest⟩

theorem attempt_bind {reason : String} {k : Unit → Migration β}
    (h : (attempt fails reason >>= k).run.run s = (.ok b, s')) :
    ∃ s₁, s₁.state = s.state ∧ (k ()).run.run s₁ = (.ok b, s') := by
  obtain ⟨⟨⟩, s₁, hattempt, hrest⟩ := bind_ok h
  rw [attempt, call, callOr_run] at hattempt
  split at hattempt
  · cases hattempt
  · cases hattempt
    exact ⟨⟨s.state, s.calls + 1⟩, rfl, hrest⟩

theorem readFile_bind {reason : String} {file : Artefacts → Option α} {k : α → Migration β}
    (h : (readFile fails reason file >>= k).run.run s = (.ok b, s')) :
    ∃ a s₁, file s.state = some a ∧ s₁.state = s.state ∧ (k a).run.run s₁ = (.ok b, s') := by
  obtain ⟨a, s₁, hread, hrest⟩ := bind_ok h
  unfold readFile at hread
  obtain ⟨s₂, hs₂, hget⟩ := attempt_bind hread
  obtain ⟨s₃, s₄, heq, horRefuse⟩ := bind_ok hget
  cases heq
  cases hfile : file s₂.state with
  | none =>
      rw [hfile] at horRefuse
      cases horRefuse
  | some a' =>
      rw [hfile] at horRefuse
      cases horRefuse
      rw [hs₂] at hfile
      exact ⟨a, s₁, hfile, hs₂, hrest⟩

/-- All that the checks have seen of the state and of the plan. -/
structure Checked (host : MigrationHost) (a : Artefacts) (plan : Plan) : Prop where
  fork : a.fork = some plan.oldFork
  base : a.base = some plan.oldBase
  patch : a.patch = some plan.oldPatch
  metadata : a.metadata = some plan.oldMetadata
  proposal : a.proposal = some plan.oldProposal
  readsProposal : host.readProposal plan.oldProposal = some plan.proposal
  readsMetadata : host.readMetadata plan.oldMetadata = some plan.metadata
  recordedBase : plan.proposal.OldBaseHash = plan.metadata.ContentSHA256
  forkHash : "sha256:" ++ directoryHash host.sha256 plan.oldFork = plan.proposal.CurrentForkHash
  upstream : host.bundled = some plan.source
  upstreamHash : "sha256:" ++ directoryHash host.sha256 plan.source = plan.proposal.NewBaseHash
  proposedHash : "sha256:" ++ directoryHash host.sha256 plan.proposedTree =
    plan.proposal.ProposedForkHash

theorem checkMigration_ok {plan : Plan}
    (h : (checkMigration host fails proposalID).run.run s = (.ok plan, s')) :
    s'.state = s.state ∧ Checked host s.state plan := by
  unfold checkMigration at h
  obtain ⟨s₁, hs₁, h⟩ := attempt_bind h
  obtain ⟨-, h⟩ := require_bind (refuses_refuse _) h
  obtain ⟨proposalData, s₂, hproposal, hs₂, h⟩ := readFile_bind h
  obtain ⟨proposal, hreadsProposal, h⟩ := orRefuse_bind h
  obtain ⟨-, h⟩ := require_bind (refuses_refuse _) h
  obtain ⟨-, h⟩ := require_bind (refuses_refuse _) h
  obtain ⟨-, h⟩ := require_bind (refuses_refuse _) h
  obtain ⟨s₃, hs₃, h⟩ := attempt_bind h
  obtain ⟨metadataData, s₄, hmetadata, hs₄, h⟩ := readFile_bind h
  obtain ⟨metadata, hreadsMetadata, h⟩ := orRefuse_bind h
  obtain ⟨-, h⟩ := require_bind (refuses_refuse _) h
  obtain ⟨-, h⟩ := require_bind (refuses_refuse _) h
  obtain ⟨hrecorded, h⟩ := require_bind (refuses_markProposalStale _ _) h
  obtain ⟨current, s₅, hcurrent, hs₅, h⟩ := readFile_bind h
  obtain ⟨hforkHash, h⟩ := require_bind (refuses_markProposalStale _ _) h
  obtain ⟨source, hupstream, h⟩ := orRefuse_bind h
  obtain ⟨s₆, hs₆, h⟩ := attempt_bind h
  obtain ⟨hupstreamHash, h⟩ := require_bind (refuses_markProposalStale _ _) h
  obtain ⟨s₇, hs₇, h⟩ := attempt_bind h
  obtain ⟨patch, -, h⟩ := orRefuse_bind h
  obtain ⟨-, h⟩ := require_bind (refuses_refuse _) h
  obtain ⟨-, h⟩ := require_bind (refuses_refuse _) h
  obtain ⟨-, h⟩ := require_bind (refuses_refuse _) h
  obtain ⟨s₈, hs₈, h⟩ := attempt_bind h
  obtain ⟨proposedTree, -, h⟩ := orRefuse_bind h
  obtain ⟨s₉, hs₉, h⟩ := attempt_bind h
  obtain ⟨hproposedHash, h⟩ := require_bind (refuses_refuse _) h
  obtain ⟨s₁₀, hs₁₀, h⟩ := attempt_bind h
  obtain ⟨oldMetadata, s₁₁, holdMetadata, hs₁₁, h⟩ := readFile_bind h
  obtain ⟨oldPatch, s₁₂, holdPatch, hs₁₂, h⟩ := readFile_bind h
  obtain ⟨s₁₃, hs₁₃, h⟩ := attempt_bind h
  obtain ⟨oldFork, s₁₄, holdFork, hs₁₄, h⟩ := readFile_bind h
  obtain ⟨oldBase, s₁₅, holdBase, hs₁₅, h⟩ := readFile_bind h
  cases h
  simp only [hs₁₅, hs₁₄, hs₁₃, hs₁₂, hs₁₁, hs₁₀, hs₉, hs₈, hs₇, hs₆, hs₅, hs₄, hs₃, hs₂, hs₁] at *
  -- What was read twice was the same both times.
  obtain rfl := Option.some.inj (hmetadata.symm.trans holdMetadata)
  obtain rfl := Option.some.inj (hcurrent.symm.trans holdFork)
  exact ⟨trivial, hcurrent, holdBase, holdPatch, hmetadata, hproposal, hreadsProposal,
    hreadsMetadata, hrecorded, hforkHash, hupstream, hupstreamHash, hproposedHash⟩

/-! ## Replacements -/

theorem setTree_setTree (which : Tree) (old new : Option Dir) (a : Artefacts) :
    (a.setTree which old).setTree which new = a.setTree which new := by
  cases which <;> rfl

theorem does_attempt {reason : String} {k : Unit → Migration Unit} {f : Artefacts → Artefacts}
    (h : Does fails (k ()) f) : Does fails (attempt fails reason >>= k) f :=
  (does_call _ id).bind h

theorem yields_attempt {reason : String} {k : Unit → Migration Unit} {f : Artefacts → Artefacts}
    (h : Yields (k ()) f) : Yields (attempt fails reason >>= k) f :=
  (yields_call _ id).bind h

/-- A directory is in its place whether one was there before or not. -/
theorem does_replaceDirectory (which : Tree) (source : Dir) :
    Does fails (replaceDirectory host fails which source)
      (Artefacts.setTree which (some source)) := by
  unfold replaceDirectory
  refine does_attempt (does_get fun s => ?_)
  split
  · unfold CopyDir
    refine does_attempt (((does_call _ _).bind (does_callOr _ _ _)).congr fun a => ?_)
    exact setTree_setTree which _ _ a
  · unfold AtomicCopyDir
    refine does_attempt (does_attempt (does_attempt (does_attempt (does_attempt (does_attempt
      (does_get fun s => ((does_call _ _).bind ((does_call _ _).tryCatch.bind
        (does_call _ id))).congr fun a => ?_))))))
    exact setTree_setTree which _ _ a

theorem yields_replaceDirectory (which : Tree) (source : Dir) :
    Yields (replaceDirectory host fails which source)
      (Artefacts.setTree which (some source)) := by
  unfold replaceDirectory
  refine yields_attempt (yields_get fun s => ?_)
  split
  · unfold CopyDir
    refine yields_attempt (((yields_call _ _).bind (yields_callOr _ _ _)).congr fun a => ?_)
    exact setTree_setTree which _ _ a
  · unfold AtomicCopyDir
    refine yields_attempt (yields_attempt (yields_attempt (yields_attempt (yields_attempt
      (yields_attempt (yields_get fun s => ((yields_call _ _).bind (((yields_call _ _).tryCatch
        fun e s₁ s₂ h => ?_).bind (yields_call _ id))).congr fun a => ?_))))))
    · obtain ⟨⟨⟩, s₃, -, hthrow⟩ := bind_ok h
      cases hthrow
    · exact setTree_setTree which _ _ a

/-- The artefacts when a migration has been applied. -/
def migrated (host : MigrationHost) (plan : Plan) : Artefacts where
  fork := some plan.proposedTree
  base := some plan.source
  patch := some (host.patchBytes plan.patch)
  metadata := some (host.writeMetadata (migratedMetadata host plan))
  proposal := some (host.writeProposal (appliedProposal host plan))
  lastChange := some host.changeRecord

theorem yields_replaceArtefacts (plan : Plan) :
    Yields (replaceArtefacts host fails plan) fun _ => migrated host plan :=
  ((yields_replaceDirectory _ _).bind ((yields_replaceDirectory _ _).bind
    ((yields_call _ _).bind ((yields_call _ _).bind ((yields_call _ _).bind
      ((yields_call _ _).bind (yields_call _ _))))))).congr fun _ => rfl

/-- The artefacts when the copies of a plan have been put back. -/
def restored (plan : Plan) (a : Artefacts) : Artefacts where
  fork := some plan.oldFork
  base := some plan.oldBase
  patch := some plan.oldPatch
  metadata := some plan.oldMetadata
  proposal := some plan.oldProposal
  lastChange := a.lastChange

theorem does_rollback (plan : Plan) :
    Does fails (rollbackSkillMigration host fails plan) (restored plan) :=
  ((does_replaceDirectory _ _).ignore.bind ((does_replaceDirectory _ _).ignore.bind
    ((does_call _ _).ignore.bind ((does_call _ _).ignore.bind
      (does_call _ _).ignore)))).congr fun _ => rfl

/-! ## The whole run -/

/-- The fork, its base, its patch and the two records are the same. -/
structure Unchanged (a a' : Artefacts) : Prop where
  fork : a'.fork = a.fork
  base : a'.base = a.base
  patch : a'.patch = a.patch
  metadata : a'.metadata = a.metadata
  proposal : a'.proposal = a.proposal

theorem unchanged_restored {a a' : Artefacts} {plan : Plan} (h : Checked host a plan) :
    Unchanged a (restored plan a') where
  fork := h.fork.symm
  base := h.base.symm
  patch := h.patch.symm
  metadata := h.metadata.symm
  proposal := h.proposal.symm

/-- Errors that come before the first replacement say so. -/
def Early {γ : Type} (m : Migration γ) : Prop :=
  ∀ s s' e, m.run.run s = (.error e, s') → e.rollbackAt = none

theorem Early.bind {γ : Type} {m : Migration α} {k : α → Migration γ} (hm : Early m)
    (hk : ∀ a, Early (k a)) : Early (m >>= k) := by
  intro s s' e h
  rw [run_bind] at h
  cases hrun : m.run.run s with
  | mk r s₁ =>
      rw [hrun] at h
      cases r with
      | error e' =>
          cases h
          exact hm s _ _ hrun
      | ok a => exact hk a s₁ s' e h

theorem early_pure (a : α) : Early (pure a : Migration α) := by
  intro s s' e h
  cases h

theorem early_refuse (reason : String) : Early (refuse reason : Migration α) := by
  intro s s' e h
  cases h
  rfl

theorem early_orRefuse (reason : String) (o : Option α) : Early (orRefuse reason o) := by
  cases o with
  | none => exact early_refuse reason
  | some a => exact early_pure a

theorem early_write (reason : String) (put : Artefacts → Artefacts) :
    Early (call fails ⟨reason, none⟩ put) := by
  intro s s' e h
  rw [call, callOr_run] at h
  split at h
  · cases h
    rfl
  · cases h

theorem early_readFile (reason : String) (file : Artefacts → Option α) :
    Early (readFile fails reason file) :=
  (early_write reason id).bind fun _ =>
    Early.bind (fun s s' e h => by cases h) fun s => early_orRefuse reason _

theorem early_require {c : Prop} [Decidable c] {otherwise : Migration Unit}
    (h : Early otherwise) : Early (require c otherwise) := by
  unfold require
  split
  · exact early_pure ()
  · exact h

theorem early_markProposalStale (proposal : SkillMigrationProposal) (reason : String) :
    Early (markProposalStale host fails proposal reason) :=
  (early_write _ _).bind fun _ => early_refuse _

theorem early_checkMigration : Early (checkMigration host fails proposalID) := by
  have hrefused : ∀ {γ : Type} {c : Prop} [Decidable c] {reason : String}
      {k : Unit → Migration γ}, (∀ u, Early (k u)) → Early (require c (refuse reason) >>= k) :=
    fun hk => (early_require (early_refuse _)).bind hk
  have hstale : ∀ {γ : Type} {c : Prop} [Decidable c] {proposal : SkillMigrationProposal}
      {reason : String} {k : Unit → Migration γ}, (∀ u, Early (k u)) →
      Early (require c (markProposalStale host fails proposal reason) >>= k) :=
    fun hk => (early_require (early_markProposalStale _ _)).bind hk
  have hattempt : ∀ {γ : Type} {reason : String} {k : Unit → Migration γ}, (∀ u, Early (k u)) →
      Early (attempt fails reason >>= k) := fun hk => (early_write _ id).bind hk
  unfold checkMigration
  refine hattempt fun _ => hrefused fun _ => (early_readFile _ _).bind fun _ =>
    (early_orRefuse _ _).bind fun _ => hrefused fun _ => hrefused fun _ => hrefused fun _ =>
    hattempt fun _ => (early_readFile _ _).bind fun _ => (early_orRefuse _ _).bind fun _ =>
    hrefused fun _ => hrefused fun _ => hstale fun _ => (early_readFile _ _).bind fun _ =>
    hstale fun _ => (early_orRefuse _ _).bind fun _ => hattempt fun _ => hstale fun _ =>
    hattempt fun _ => (early_orRefuse _ _).bind fun _ => hrefused fun _ => hrefused fun _ =>
    hrefused fun _ => hattempt fun _ => (early_orRefuse _ _).bind fun _ => hattempt fun _ =>
    hrefused fun _ => hattempt fun _ => (early_readFile _ _).bind fun _ =>
    (early_readFile _ _).bind fun _ => hattempt fun _ => (early_readFile _ _).bind fun _ =>
    (early_readFile _ _).bind fun _ => early_pure _

theorem rollback_run (plan : Plan) (s : Counted Artefacts) :
    ∃ s', (rollbackSkillMigration host fails plan).run.run s = (.ok (), s') := by
  unfold rollbackSkillMigration
  simp only [run_bind, ignore_run]
  exact ⟨_, rfl⟩

/-- How a run ends: before the first replacement, with a rollback, or with success. -/
theorem apply_cases {r : Except Failure SkillMigrationResult}
    (h : (ApplySkillMigration host fails proposalID).run.run s = (r, s')) :
    (∃ e : Failure, r = .error e ∧ e.rollbackAt = none) ∨
    ∃ plan, Checked host s.state plan ∧
      ((∃ reason n, r = .error ⟨reason, some n⟩ ∧
          (Calm fails n → ∃ a, s'.state = restored plan a)) ∨
        (∃ result, r = .ok result ∧ s'.state = migrated host plan)) := by
  unfold ApplySkillMigration at h
  rw [run_bind] at h
  cases hcheck : (checkMigration host fails proposalID).run.run s with
  | mk rcheck s₁ =>
      rw [hcheck] at h
      cases rcheck with
      | error e =>
          cases h
          exact .inl ⟨e, rfl, early_checkMigration _ _ _ hcheck⟩
      | ok plan =>
          refine .inr ⟨plan, (checkMigration_ok hcheck).2, ?_⟩
          dsimp only at h
          rw [run_bind, tryCatch_run] at h
          cases hreplace : (replaceArtefacts host fails plan).run.run s₁ with
          | mk rreplace s₂ =>
              rw [hreplace] at h
              cases rreplace with
              | ok u =>
                  cases h
                  exact .inr ⟨_, rfl, yields_replaceArtefacts plan _ _ hreplace⟩
              | error e =>
                  left
                  have hget : (get : Migration (Counted Artefacts)).run.run s₂ = (.ok s₂, s₂) := rfl
                  obtain ⟨s₃, hrollback⟩ := @rollback_run host fails plan s₂
                  dsimp only at h
                  rw [run_bind, hget] at h
                  dsimp only at h
                  rw [run_bind, hrollback] at h
                  cases h
                  refine ⟨e.reason, s₂.calls, rfl, fun hcalm => ⟨s₂.state, ?_⟩⟩
                  obtain ⟨n, -, hdone⟩ := does_rollback plan s₂ hcalm
                  exact congrArg (fun x => x.2.state) (hrollback.symm.trans hdone)

/-- An error after the first replacement leaves what was there before, as long as no call
of the rollback fails; and a success means that the hashes of the plan still held. -/
theorem migration_all_or_nothing (host : MigrationHost) (fails : Nat → Bool)
    (proposalID : String) (a : Artefacts) :
    (∀ reason n s', (ApplySkillMigration host fails proposalID).run.run ⟨a, 0⟩ =
        (.error ⟨reason, some n⟩, s') → Calm fails n → Unchanged a s'.state) ∧
    (∀ result s', (ApplySkillMigration host fails proposalID).run.run ⟨a, 0⟩ =
        (.ok result, s') →
      ∃ plan, Checked host a plan ∧ s'.state = migrated host plan) := by
  constructor
  · intro reason n s' h hcalm
    rcases apply_cases h with ⟨e, he, hnone⟩ | ⟨plan, hchecked, ⟨reason', n', heq, hback⟩ |
      ⟨result, heq, -⟩⟩
    · cases he
      cases hnone
    · cases heq
      obtain ⟨a', ha'⟩ := hback hcalm
      rw [ha']
      exact unchanged_restored hchecked
    · cases heq
  · intro result s' h
    rcases apply_cases h with ⟨e, he, -⟩ | ⟨plan, hchecked, ⟨reason, n, heq, -⟩ |
      ⟨result', -, hstate⟩⟩
    · cases he
    · cases heq
    · exact ⟨plan, hchecked, hstate⟩

end Atomic

/-! ## A disk that stops working -/

section FailingDisk

def sameDigest : Sha256 := ⟨String.ofList (List.replicate 64 '0'), zeros_hex⟩

def otherHash : String := "sha256:" ++ String.ofList (List.replicate 64 '1')

def sameHash : String := "sha256:" ++ sameDigest.1

def notesMigration : SkillMigrationProposal :=
  ⟨1, "p1", "notes", "pending", otherHash, sameHash, sameHash, sameHash, sameHash, sameHash, [],
    "1", "", ""⟩

def notesMetadata : SkillMetadata :=
  ⟨2, "notes", "forked", "openlia", "1", "s", artifactPath "notes", hashScope, otherHash,
    baseSnapshot "notes", patchPath "notes", sameHash, sameHash, "1", "1", "1"⟩

def notesMigrationHost : MigrationHost where
  sha256 := fun _ => sameDigest
  readProposal := fun _ => some notesMigration
  writeProposal := fun _ => [1]
  readMetadata := fun _ => some notesMetadata
  writeMetadata := fun _ => [1]
  patchBytes := fun _ => [1]
  bundled := some .empty
  proposedPatch := some ⟨1, skillPatchFormat, "notes", sameHash, []⟩
  distribution := ("2", "s")
  now := "2"
  changeRecord := [1]
  partialCopy := id

def notesArtefacts : Artefacts := ⟨some .empty, some .empty, some [], some [], some [], none⟩

def migrateNotes (fails : Nat → Bool) : Except Failure SkillMigrationResult × Counted Artefacts :=
  (ApplySkillMigration notesMigrationHost fails "p1").run.run ⟨notesArtefacts, 0⟩

/-- A disk that fails from the activation of the new fork on loses the fork, for the rollback
cannot move it back; an owner that cannot be set leaves a record of the change behind; and a
base that is not the one of the plan stops nothing. -/
theorem fork_not_moved_back :
    ((∃ e s', migrateNotes (fun i => decide (23 ≤ i)) = (.error e, s') ∧
        e.rollbackAt = some 25 ∧ s'.state.fork.isSome = false) ∧
      (∃ e s', migrateNotes (fun i => decide (i = 39)) = (.error e, s') ∧
        e.rollbackAt = some 40 ∧ s'.state.lastChange ≠ notesArtefacts.lastChange)) ∧
    (∃ result s', migrateNotes (fun _ => false) = (.ok result, s') ∧
      (notesArtefacts.base.all fun base => decide ("sha256:" ++
        directoryHash notesMigrationHost.sha256 base ≠ notesMigration.OldBaseHash)) = true) := by
  refine ⟨⟨?_, ?_⟩, ?_⟩
  · refine ⟨_, _, rfl, ?_⟩
    decide +kernel
  · refine ⟨_, _, rfl, ?_⟩
    decide +kernel
  · refine ⟨_, _, rfl, ?_⟩
    decide +kernel

end FailingDisk

end Openlia.Skills

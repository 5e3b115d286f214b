import Openlia.Ingestion.Vault

/-! # A capture is repeated

`capture` may stop behind any of its writes. The call is then made again for the same source,
with other bytes.
-/

namespace Openlia.Ingestion

open Lib Crash
open Policy (Text strip)

/-! ## Version ids -/

theorem versionNumber_versionName (n : Nat) : versionNumber (versionName n) = some n := by
  have hlist : (versionName n).toList =
      'v' :: 'e' :: 'r' :: '_' ::
        (List.replicate (3 - (Nat.toDigits 10 n).length) '0' ++ Nat.toDigits 10 n) := by
    unfold versionName
    rw [String.toList_ofList]
    rfl
  unfold versionNumber
  rw [hlist]
  have hne : List.replicate (3 - (Nat.toDigits 10 n).length) '0' ++ Nat.toDigits 10 n ≠ [] := by
    intro h
    exact Nat.toDigits_ne_nil (List.append_eq_nil_iff.mp h).2
  have hdigits : (List.replicate (3 - (Nat.toDigits 10 n).length) '0' ++
      Nat.toDigits 10 n).all Char.isDigit = true := by
    rw [List.all_eq_true]
    intro c hc
    rcases List.mem_append.mp hc with hc | hc
    · rw [(List.mem_replicate.mp hc).2]
      rfl
    · exact Nat.isDigit_of_mem_toDigits (by decide) (by decide) hc
  simp only [hne, hdigits, ne_eq, not_false_eq_true, and_self, if_true, Option.some.injEq]
  rw [Nat.ofDigitChars_append, Nat.ofDigitChars_replicate_zero, Nat.mul_zero,
    Nat.ofDigitChars_ten_toDigits]

theorem le_foldl_max {α : Type} (f : α → Nat) {l : List α} {start : Nat} :
    start ≤ l.foldl (fun n a => max n (f a)) start ∧
      ∀ a ∈ l, f a ≤ l.foldl (fun n a => max n (f a)) start := by
  induction l generalizing start with
  | nil => simp
  | cons x rest ih =>
      obtain ⟨hstart, hrest⟩ := @ih (max start (f x))
      rw [List.foldl_cons]
      refine ⟨by omega, fun a ha => ?_⟩
      rcases List.mem_cons.mp ha with rfl | ha
      · omega
      · exact hrest a ha

theorem nextVersionId_fresh {existing : List Version} {v : Version} (hv : v ∈ existing) :
    v.id ≠ nextVersionId existing := by
  intro h
  unfold nextVersionId at h
  rw [if_neg (List.ne_nil_of_mem hv)] at h
  have hle := (@le_foldl_max _ (fun v : Version => (versionNumber v.id).getD 0) existing
    existing.length).2 v hv
  rw [h, versionNumber_versionName, Option.getD_some] at hle
  omega

/-! ## The record and its blobs -/

def recorded (v : Vault) (sourceId : String) : List Version :=
  ((v.sources.get sourceId).map fun s => s.versions).getD []

/-- The source that a call is for. -/
def requestedSource (request : CaptureRequest) (fresh : Fresh) : String :=
  match request.sourceId with
  | none => fresh.sourceId
  | some raw => String.ofList (strip raw.toList)

/-- The version id of a call. -/
def targetVersion (v : Vault) (request : CaptureRequest) (sourceId : String) : String :=
  match request.versionId.filter (· ≠ "") with
  | none => nextVersionId (recorded v sourceId)
  | some raw => String.ofList (strip raw.toList)

variable (py : Python)

/-- The blob of a version is there, with the recorded hash. -/
def BlobStored (v : Vault) (version : Version) : Prop :=
  ∃ blob, v.blobs.get version.originalRef = some blob ∧ py.sha256 blob.data = version.contentSha256

/-- A version with this id and content. -/
def Listed (versions : List Version) (version : Version) : Prop :=
  ∃ w ∈ versions, w.id = version.id ∧ w.contentSha256 = version.contentSha256

def Grown (before v : Vault) : Prop :=
  ∀ key blob, before.blobs.get key = some blob → v.blobs.get key = some blob

/-- The version that a call has captured, if any. -/
def Taken (versionId : String) (version : Option Version) (v : Vault) : Prop :=
  ∀ w ∈ version, w.id = versionId ∧ w.originalRef.versionId = versionId ∧ BlobStored py v w

variable {py} {before v : Vault} {request : CaptureRequest} {fresh : Fresh}
  {sourceId versionId : String} {existing : Option Source} {version : Option Version}

theorem Grown.refl (v : Vault) : Grown v v := fun _ _ h => h

theorem BlobStored.grown {w : Version} (h : BlobStored py before w) (hg : Grown before v) :
    BlobStored py v w := by
  obtain ⟨blob, hblob, hhash⟩ := h
  exact ⟨blob, hg _ _ hblob, hhash⟩

theorem BlobStored.of_blobs {w : Version} (h : BlobStored py before w)
    (hb : v.blobs = before.blobs) :
    BlobStored py v w := by
  unfold BlobStored
  rw [hb]
  exact h

theorem Taken.of_blobs (h : Taken py versionId version before) (hb : v.blobs = before.blobs) :
    Taken py versionId version v :=
  fun w hw => ⟨(h w hw).1, (h w hw).2.1, (h w hw).2.2.of_blobs hb⟩

/-! ## The steps of a capture -/

theorem get_writeBlob (key : BlobKey) (data : Bytes) (k : BlobKey) :
    (writeBlob key data v).blobs.get k = if key = k then some ⟨key, data⟩ else v.blobs.get k :=
  Table.get_upsert _ _ _

theorem grown_writeBlob {key : BlobKey} {data : Bytes} (hfree : v.blobs.get key = none) :
    Grown v (writeBlob key data v) := by
  intro k blob hblob
  rw [get_writeBlob]
  split
  · rename_i h
    rw [h, hblob] at hfree
    cases hfree
  · exact hblob

/-- An immutable artifact is there afterwards, or nothing has changed. -/
theorem writeImmutable_spec {key : BlobKey} {data : Bytes} :
    Spec (· = before) (writeImmutable key data)
      (fun v => v.sources = before.sources ∧ Grown before v)
      (fun r v => v.sources = before.sources ∧ Grown before v ∧
        (r = .ok () → v.blobs.get key = some ⟨key, data⟩)) := by
  refine Spec.get_bind ?_
  rintro before rfl
  cases hkey : before.blobs.get key with
  | some blob =>
      refine Spec.ite (fun hdata => Spec.pure ?_) fun hdata => Spec.fail ?_
      · rintro _ rfl
        refine ⟨rfl, Grown.refl _, fun _ => ?_⟩
        rw [hkey, ← hdata, ← Table.key_of_get hkey]
      · rintro _ rfl
        exact ⟨rfl, Grown.refl _, nofun⟩
  | none =>
      refine Spec.write ?_ ?_
      · rintro _ rfl
        exact ⟨rfl, grown_writeBlob hkey⟩
      · rintro _ rfl
        exact ⟨rfl, grown_writeBlob hkey, fun _ => by rw [get_writeBlob, if_pos rfl]⟩

theorem captureOriginal_spec :
    Spec (· = before) (captureOriginal py request fresh sourceId versionId)
      (fun v => v.sources = before.sources ∧ Grown before v)
      (fun r v => v.sources = before.sources ∧ Grown before v ∧
        ∀ captured, r = .ok captured → Taken py versionId captured.1 v) := by
  unfold captureOriginal
  refine Spec.ite (fun hkind => Spec.ite (fun hurl => Spec.pure ?_) fun hurl => Spec.fail ?_)
    fun hkind => ?_
  · rintro _ rfl
    refine ⟨rfl, Grown.refl _, ?_⟩
    rintro _ ⟨⟩ w hw
    cases hw
  · rintro _ rfl
    exact ⟨rfl, Grown.refl _, nofun⟩
  · cases request.input with
    | error e =>
        refine Spec.fail ?_
        rintro _ rfl
        exact ⟨rfl, Grown.refl _, nofun⟩
    | ok input =>
        refine Spec.bind writeImmutable_spec (fun _ => Spec.pure ?_) ?_
        · rintro v ⟨hsources, hgrown, hwritten⟩
          refine ⟨hsources, hgrown, ?_⟩
          rintro _ ⟨⟩ w hw
          cases hw
          exact ⟨rfl, rfl, _, hwritten rfl, rfl⟩
        · rintro e v ⟨hsources, hgrown, -⟩
          exact ⟨hsources, hgrown, nofun⟩

/-- What a purge keeps: the records, and the version that was captured. -/
def Purging (before : Vault) (versionId : String) (version : Option Version) (v : Vault) : Prop :=
  v.sources = before.sources ∧ Taken py versionId version v

theorem removeBlobs_spec {keys : List BlobKey} (h : ∀ key ∈ keys, key.versionId ≠ versionId) :
    Spec (@Purging py before versionId version) (removeBlobs keys)
      (@Purging py before versionId version)
      (fun r v => r = .ok () ∧ @Purging py before versionId version v) := by
  induction keys with
  | nil => exact Spec.pure fun v hv => ⟨rfl, hv⟩
  | cons key rest ih =>
      have hremove : ∀ v, @Purging py before versionId version v →
          @Purging py before versionId version (removeBlob key v) := by
        rintro v ⟨hsources, htaken⟩
        refine ⟨hsources, fun w hw => ?_⟩
        obtain ⟨hid, href, blob, hblob, hhash⟩ := htaken w hw
        refine ⟨hid, href, blob, ?_, hhash⟩
        have hne : blob.key ≠ key := by
          rw [Table.key_of_get hblob]
          intro heq
          exact h key List.mem_cons_self (heq ▸ href)
        exact (Table.get_delete _ _ _).trans (by rw [hblob]; simp [hne])
      exact Spec.seq (Spec.write hremove fun v hv => ⟨rfl, hremove v hv⟩)
        (ih fun k hk => h k (List.mem_cons_of_mem key hk))

theorem rmtree_spec {removed : String} (h : removed ≠ versionId) :
    Spec (@Purging py before versionId version) (rmtree sourceId removed)
      (@Purging py before versionId version)
      (fun r v => r = .ok () ∧ @Purging py before versionId version v) := by
  refine Spec.get_bind fun v hv => ?_
  refine (removeBlobs_spec fun key hkey => ?_).conseq (fun s hs => hs ▸ hv) (fun _ hs => hs)
    fun _ _ hs => hs
  have hmem := (List.mem_filter.mp hkey).2
  simp only [Bool.and_eq_true, decide_eq_true_eq] at hmem
  exact hmem.2 ▸ h

theorem purgeVersions_spec {versions : List Version} :
    Spec (@Purging py before versionId version) (purgeVersions sourceId versionId versions)
      (@Purging py before versionId version)
      (fun r v => r = .ok () ∧ @Purging py before versionId version v) := by
  induction versions with
  | nil => exact Spec.pure fun v hv => ⟨rfl, hv⟩
  | cons old rest ih =>
      unfold purgeVersions
      refine Spec.ite (fun hold => ?_) fun _ => ih
      have hcascade : ∀ v, @Purging py before versionId version v →
          @Purging py before versionId version (deleteVersionCascade sourceId old.id v) :=
        fun v hv => ⟨hv.1, hv.2.of_blobs rfl⟩
      exact Spec.seq (Spec.write hcascade fun v hv => ⟨rfl, hcascade v hv⟩)
        (Spec.seq (rmtree_spec hold.2) ih)

/-- The older versions that stay in the record. -/
def remaining (before : Vault) (request : CaptureRequest) (sourceId versionId : String) :
    List Version :=
  if request.purgePreviousVersions then []
  else (recorded before sourceId).filter fun w => w.id ≠ versionId

/-- The record is as before; only a purge has taken blobs. -/
def Untouched (request : CaptureRequest) (before v : Vault) : Prop :=
  v.sources = before.sources ∧ (request.purgePreviousVersions = false → v.blobs = before.blobs)

theorem captureSource_spec
    (hrecord : (existing.map fun s => s.versions).getD [] = recorded before sourceId)
    (hid : ∀ old ∈ existing, old.id = sourceId) (htaken : Taken py versionId version before) :
    Spec (· = before) (captureSource py request fresh sourceId versionId existing version)
      (Untouched request before)
      (fun r v => Untouched request before v ∧ Taken py versionId version v ∧
        ∃ source, r = .ok source ∧ source.id = sourceId ∧
          source.versions = remaining before request sourceId versionId ++ version.toList) := by
  unfold captureSource
  cases existing with
  | none =>
      have hnone : remaining before request sourceId versionId = [] := by
        unfold remaining
        rw [← hrecord]
        simp
      refine Spec.pure ?_
      rintro before rfl
      exact ⟨⟨rfl, fun _ => rfl⟩, htaken, _, rfl, rfl, by rw [hnone]; rfl⟩
  | some old =>
      simp only [Option.map_some, Option.getD_some] at hrecord
      refine Spec.ite (fun hpurge => ?_) fun hpurge => ?_
      · have huntouched : ∀ v, @Purging py before versionId version v →
            Untouched request before v :=
          fun v hv => ⟨hv.1, fun h => absurd hpurge (by simp [h])⟩
        have hstart : ∀ v, v = before → @Purging py before versionId version v := by
          rintro v rfl
          exact ⟨rfl, htaken⟩
        refine Spec.seq (purgeVersions_spec.conseq hstart huntouched fun _ _ hv => hv)
          (Spec.pure fun v hv => ?_)
        refine ⟨huntouched v hv, hv.2, _, rfl, hid old rfl, ?_⟩
        unfold remaining
        rw [if_pos hpurge]
        rfl
      · have hcancel : ∀ v, v = before →
            Untouched request before (cancelOtherJobs sourceId versionId v) ∧
              Taken py versionId version (cancelOtherJobs sourceId versionId v) := by
          rintro v rfl
          exact ⟨⟨rfl, fun _ => rfl⟩, htaken.of_blobs rfl⟩
        refine Spec.seq (I := fun v => Untouched request before v ∧ Taken py versionId version v)
          (Spec.write (fun v hv => (hcancel v hv).1) fun v hv => ⟨rfl, hcancel v hv⟩)
          (Spec.pure fun v hv => ?_)
        refine ⟨hv.1, hv.2, _, rfl, hid old rfl, ?_⟩
        unfold remaining
        rw [if_neg hpurge, ← hrecord]
        rfl

theorem recorded_saveSource (source : Source) (v : Vault) :
    recorded (saveSource source v) source.id = source.versions := by
  unfold recorded saveSource
  rw [Table.get_upsert, if_pos rfl]
  rfl

/-- The record is saved. -/
def Indexed (before : Vault) (source : Source) (v : Vault) : Prop :=
  v.sources = (saveSource source before).sources ∧ v.blobs = before.blobs

theorem index_spec {source : Source} {content status : String} {intake : Intake}
    {captured : Captured} :
    Spec (· = before)
      (do
        Prog.write (saveSource source)
        upsertSourceFts source content status
        Prog.write (saveIntake intake)
        pure captured : VaultAction Captured)
      (Indexed before source)
      (fun r v => r = .ok captured ∧ Indexed before source v) := by
  have hwrite : ∀ {f : Vault → Vault}, (∀ v, (f v).sources = v.sources) →
      (∀ v, (f v).blobs = v.blobs) → Spec (Indexed before source) (Prog.write f : VaultAction Unit)
        (Indexed before source) (fun r v => r = .ok () ∧ Indexed before source v) := by
    intro f hs hb
    have hf : ∀ v, Indexed before source v → Indexed before source (f v) :=
      fun v hv => ⟨(hs v).trans hv.1, (hb v).trans hv.2⟩
    exact Spec.write hf fun v hv => ⟨rfl, hf v hv⟩
  have hsaved : ∀ v, v = before → Indexed before source (saveSource source v) := by
    rintro v rfl
    exact ⟨rfl, rfl⟩
  have hfts : Spec (Indexed before source) (upsertSourceFts source content status)
      (Indexed before source) (fun r v => r = .ok () ∧ Indexed before source v) :=
    Spec.seq (hwrite (fun _ => rfl) fun _ => rfl) (hwrite (fun _ => rfl) fun _ => rfl)
  have hintake : Spec (Indexed before source) (Prog.write (saveIntake intake) : VaultAction Unit)
      (Indexed before source) (fun r v => r = .ok () ∧ Indexed before source v) :=
    hwrite (fun _ => rfl) fun _ => rfl
  exact Spec.seq (Spec.write hsaved fun v hv => ⟨rfl, hsaved v hv⟩)
    (Spec.seq hfts (Spec.seq hintake (Spec.pure fun v hv => ⟨rfl, hv⟩)))

theorem resolveSource_ok (hnew : request.sourceId = none → v.sources.get fresh.sourceId = none)
    (h : resolveSource v request fresh = .ok (sourceId, existing)) :
    sourceId = requestedSource request fresh ∧
      (existing.map fun s => s.versions).getD [] = recorded v (requestedSource request fresh) ∧
      ∀ old ∈ existing, old.id = requestedSource request fresh := by
  unfold resolveSource at h
  unfold requestedSource
  cases hraw : request.sourceId with
  | none =>
      rw [hraw] at h
      cases h
      refine ⟨rfl, ?_, ?_⟩
      · unfold recorded
        rw [hnew hraw]
      · rintro old ⟨⟩
  | some raw =>
      rw [hraw] at h
      dsimp only at h
      split at h
      · cases h
        exact ⟨rfl, rfl, fun old hold => Table.key_of_get hold⟩
      · cases h

theorem resolveVersion_ok
    (hrecord : (existing.map fun s => s.versions).getD [] = recorded v sourceId)
    (h : resolveVersion request existing = .ok versionId) :
    versionId = targetVersion v request sourceId := by
  unfold resolveVersion at h
  unfold targetVersion
  cases hraw : request.versionId.filter (· ≠ "") with
  | none =>
      rw [hraw] at h
      cases h
      rw [hrecord]
  | some raw =>
      rw [hraw] at h
      dsimp only at h
      split at h
      · cases h
        rfl
      · cases h

theorem checkCapture_ok (hnew : request.sourceId = none → v.sources.get fresh.sourceId = none)
    (h : checkCapture v request fresh = .ok (sourceId, versionId, existing)) :
    sourceId = requestedSource request fresh ∧
      versionId = targetVersion v request (requestedSource request fresh) ∧
      (existing.map fun s => s.versions).getD [] = recorded v (requestedSource request fresh) ∧
      ∀ old ∈ existing, old.id = requestedSource request fresh := by
  unfold checkCapture at h
  split at h
  · cases h
  · obtain ⟨source, hsource, h⟩ := Lib.except_bind_ok h
    obtain ⟨version, hversion, h⟩ := Lib.except_bind_ok h
    cases h
    obtain ⟨hid, hrecord, hold⟩ := resolveSource_ok hnew hsource
    exact ⟨hid, resolveVersion_ok hrecord hversion, hrecord, hold⟩

/-! ## The interrupted call -/

/-- The record is the one before the call; only a purge has taken blobs. -/
def Unsaved (before : Vault) (request : CaptureRequest) (v : Vault) : Prop :=
  v.sources = before.sources ∧ (request.purgePreviousVersions = false → Grown before v)

/-- The record is the new one, and the captured version has its blob. -/
def Saved (py : Python) (before : Vault) (request : CaptureRequest) (sourceId versionId : String)
    (v : Vault) : Prop :=
  ∃ version, recorded v sourceId =
      remaining before request sourceId versionId ++ Option.toList version ∧
    Taken py versionId version v ∧ (request.purgePreviousVersions = false → Grown before v)

/-- Where a capture may stop. -/
def Halted (py : Python) (before : Vault) (request : CaptureRequest) (fresh : Fresh) (v : Vault) :
    Prop :=
  Unsaved before request v ∨
    Saved py before request (requestedSource request fresh)
      (targetVersion before request (requestedSource request fresh)) v

theorem recorded_of_sources {w : Vault} (h : w.sources = v.sources) (sourceId : String) :
    recorded w sourceId = recorded v sourceId := by
  unfold recorded
  rw [h]

theorem capture_spec (hnew : request.sourceId = none → before.sources.get fresh.sourceId = none) :
    Spec (· = before) (capture py request fresh) (Halted py before request fresh)
      (fun _ v => Halted py before request fresh v) := by
  have hunsaved : ∀ v, v.sources = before.sources ∧ Grown before v →
      Halted py before request fresh v :=
    fun v hv => Or.inl ⟨hv.1, fun _ => hv.2⟩
  refine Spec.get_bind ?_
  rintro before rfl
  refine Spec.bind Spec.lift ?_ ?_
  · rintro ⟨sourceId, versionId, existing⟩
    refine Spec.of_pre ?_
    rintro v ⟨rfl, hcheck⟩
    obtain ⟨rfl, rfl, hrecord, hold⟩ := checkCapture_ok hnew hcheck.symm
    refine Spec.bind (captureOriginal_spec.conseq (fun _ h => h) hunsaved fun _ _ h => h) ?_ ?_
    · rintro ⟨version, initialContent⟩
      refine Spec.of_pre ?_
      rintro w ⟨hsources, hgrown, htaken⟩
      have hgrown' : ∀ t, Untouched request w t →
          request.purgePreviousVersions = false → Grown v t := by
        intro t ht hp
        unfold Grown
        rw [ht.2 hp]
        exact hgrown
      have hrecord' := hrecord.trans (recorded_of_sources hsources _).symm
      have huntouched : ∀ t, Untouched request w t → Halted py v request fresh t :=
        fun t ht => Or.inl ⟨ht.1.trans hsources, hgrown' t ht⟩
      refine Spec.bind ((captureSource_spec hrecord' hold (htaken _ rfl)).conseq (fun _ h => h)
        huntouched fun _ _ h => h) (fun source => ?_) ?_
      · refine Spec.of_pre ?_
        rintro t ⟨ht, htaken, _, ⟨⟩, hid, hversions⟩
        have hnewRecord := recorded_saveSource source t
        rw [hid] at hnewRecord
        have hsaved : ∀ u, Indexed t source u → Halted py v request fresh u := by
          rintro u ⟨hs, hb⟩
          refine Or.inr ⟨version, ?_, htaken.of_blobs hb, fun hp => ?_⟩
          · rw [recorded_of_sources hs, hnewRecord, hversions]
            unfold remaining
            rw [recorded_of_sources hsources]
          · unfold Grown
            rw [hb]
            exact hgrown' t ht hp
        exact index_spec.conseq (fun _ h => h) hsaved fun _ u hu => hsaved u hu.2
      · exact fun _ t ht => huntouched t ht.1
    · exact fun _ t ht => hunsaved t ⟨ht.1, ht.2.1⟩
  · rintro _ t ⟨rfl, -⟩
    exact hunsaved t ⟨rfl, Grown.refl t⟩

/-! ## The repeated call -/

/-- A request to store bytes for a source, with ids that pass their checks. -/
structure Upload (request : CaptureRequest) (sourceId : String) (input : Input) : Prop where
  kind : request.kind ∈ captureKinds
  stored : request.kind ≠ "youtube"
  source : ∃ raw, request.sourceId = some raw ∧ String.ofList (strip raw.toList) = sourceId
  safeSource : safeId sourceId = true
  safeVersion : ∀ raw, request.versionId.filter (· ≠ "") = some raw →
    safeId (String.ofList (strip raw.toList)) = true
  input : request.input = .ok input

variable {input : Input}

theorem checkCapture_upload (hu : Upload request sourceId input) :
    checkCapture v request fresh =
      .ok (sourceId, targetVersion v request sourceId, v.sources.get sourceId) := by
  obtain ⟨raw, hraw, hstrip⟩ := hu.source
  have hsource : resolveSource v request fresh = .ok (sourceId, v.sources.get sourceId) := by
    unfold resolveSource
    rw [hraw]
    dsimp only
    rw [hstrip, if_pos hu.safeSource]
  have hversion : resolveVersion request (v.sources.get sourceId) =
      .ok (targetVersion v request sourceId) := by
    unfold resolveVersion targetVersion
    cases hv : request.versionId.filter (· ≠ "") with
    | none => rfl
    | some raw =>
        dsimp only
        rw [if_pos (hu.safeVersion raw hv)]
  unfold checkCapture
  rw [if_neg (not_not_intro hu.kind), hsource]
  dsimp only [Bind.bind, Except.bind]
  rw [hversion]
  rfl

/-- Other bytes under the path of the call. -/
theorem capture_conflict (hu : Upload request sourceId input) {blob : Blob}
    (hblob : v.blobs.get (originalKey sourceId (targetVersion v request sourceId) input) =
      some blob) (hdata : blob.data ≠ input.data) :
    ∃ e, ((capture py request fresh).run v).result = .error e := by
  have hwrite : ((writeImmutable (originalKey sourceId (targetVersion v request sourceId) input)
      input.data).run v).result = .error ("immutable artifact conflict: blobs/" ++ sourceId ++
        "/" ++ targetVersion v request sourceId ++ "/" ++
        ("original" ++ extension input.filename)) := by
    unfold writeImmutable
    rw [Prog.run_get_bind, hblob]
    dsimp only
    rw [if_neg hdata]
    rfl
  have horiginal : ∃ e, ((captureOriginal py request fresh sourceId
      (targetVersion v request sourceId)).run v).result = .error e := by
    unfold captureOriginal
    rw [if_neg hu.stored, hu.input]
    dsimp only
    rw [Prog.run_bind_error hwrite]
    exact ⟨_, rfl⟩
  obtain ⟨e, he⟩ := horiginal
  unfold capture
  rw [Prog.run_get_bind, checkCapture_upload hu, Prog.lift_ok, Prog.pure_bind',
    Prog.run_bind_error he]
  exact ⟨e, rfl⟩

/-- The blobs once the call has stored its bytes. -/
def Holds (v : Vault) (key : BlobKey) (data : Bytes) (w : Vault) : Prop :=
  ∀ k, w.blobs.get k = (writeBlob key data v).blobs.get k

theorem writeImmutable_free {key : BlobKey} {data : Bytes}
    (hfree : ∀ blob, v.blobs.get key = some blob → blob.data = data) :
    Spec (· = v) (writeImmutable key data) (fun _ => True)
      (fun r w => r = .ok () ∧ w.sources = v.sources ∧ Holds v key data w) := by
  refine Spec.get_bind ?_
  rintro v rfl
  cases hkey : v.blobs.get key with
  | some blob =>
      dsimp only
      rw [if_pos (hfree blob hkey)]
      refine Spec.pure ?_
      rintro v rfl
      refine ⟨rfl, rfl, fun k => ?_⟩
      rw [get_writeBlob]
      split
      · rename_i h
        rw [← h, hkey, ← hfree blob hkey, ← Table.key_of_get hkey]
      · rfl
  | none =>
      refine Spec.write (fun _ _ => trivial) ?_
      rintro v rfl
      exact ⟨rfl, rfl, fun k => rfl⟩

/-- The record of an upload. -/
def Uploaded (py : Python) (sourceId versionId : String) (input : Input) (version : Version) :
    Prop :=
  version.id = versionId ∧ version.contentSha256 = py.sha256 input.data ∧
    version.originalRef = originalKey sourceId versionId input

theorem captureOriginal_upload (hu : Upload request sourceId input)
    (hfree : ∀ blob, v.blobs.get (originalKey sourceId versionId input) = some blob →
      blob.data = input.data) :
    Spec (· = v) (captureOriginal py request fresh sourceId versionId) (fun _ => True)
      (fun r w => w.sources = v.sources ∧
        Holds v (originalKey sourceId versionId input) input.data w ∧
        ∃ version content, r = .ok (some version, content) ∧
          Uploaded py sourceId versionId input version) := by
  unfold captureOriginal
  rw [if_neg hu.stored, hu.input]
  refine Spec.seq ((writeImmutable_free hfree).conseq (fun _ h => h) (fun _ h => h)
    fun _ _ h => h) (Spec.pure fun w hw => ?_)
  exact ⟨hw.1, hw.2, _, _, rfl, rfl, rfl, rfl⟩

theorem Holds.taken {version : Version} {w : Vault}
    (hup : Uploaded py sourceId versionId input version)
    (h : Holds v (originalKey sourceId versionId input) input.data w) :
    Taken py versionId (some version) w := by
  obtain ⟨hid, hhash, href⟩ := hup
  rintro _ ⟨⟩
  refine ⟨hid, by rw [href]; rfl, ⟨originalKey sourceId versionId input, input.data⟩, ?_,
    hhash.symm⟩
  rw [href, h, get_writeBlob, if_pos rfl]

/-- What an upload leaves when its path is free or has its bytes. -/
theorem capture_upload (hu : Upload request sourceId input)
    (hfree : ∀ blob, v.blobs.get (originalKey sourceId (targetVersion v request sourceId) input) =
      some blob → blob.data = input.data) :
    (∃ captured, ((capture py request fresh).run v).result = .ok captured) ∧
      ∃ version, Uploaded py sourceId (targetVersion v request sourceId) input version ∧
        recorded ((capture py request fresh).run v).final sourceId =
          remaining v request sourceId (targetVersion v request sourceId) ++ [version] ∧
        BlobStored py ((capture py request fresh).run v).final version ∧
        (request.purgePreviousVersions = false →
          Holds v (originalKey sourceId (targetVersion v request sourceId) input) input.data
            ((capture py request fresh).run v).final) := by
  have hspec : Spec (· = v) (capture py request fresh) (fun _ => True)
      (fun r w => (∃ captured, r = .ok captured) ∧
        ∃ version, Uploaded py sourceId (targetVersion v request sourceId) input version ∧
          recorded w sourceId =
            remaining v request sourceId (targetVersion v request sourceId) ++ [version] ∧
          BlobStored py w version ∧
          (request.purgePreviousVersions = false →
            Holds v (originalKey sourceId (targetVersion v request sourceId) input)
              input.data w)) := by
    refine Spec.get_bind ?_
    rintro v rfl
    rw [checkCapture_upload hu, Prog.lift_ok, Prog.pure_bind']
    refine Spec.bind (captureOriginal_upload hu hfree) (fun captured => Spec.of_pre ?_) ?_
    · rintro w ⟨hsources, hholds, version, content, ⟨⟩, hup⟩
      have hrecord : ((v.sources.get sourceId).map fun s => s.versions).getD [] =
          recorded w sourceId := (recorded_of_sources hsources sourceId).symm
      refine Spec.bind ((captureSource_spec hrecord (fun old hold => Table.key_of_get hold)
        (hholds.taken hup)).conseq (fun _ h => h) (fun _ _ => trivial) fun _ _ h => h)
        (fun source => Spec.of_pre ?_) ?_
      · rintro t ⟨ht, htaken, _, ⟨⟩, hid, hversions⟩
        refine index_spec.conseq (fun _ h => h) (fun _ _ => trivial) ?_
        rintro r u ⟨rfl, hs, hb⟩
        have hnewRecord := recorded_saveSource source t
        rw [hid] at hnewRecord
        refine ⟨⟨_, rfl⟩, version, hup, ?_, ((htaken version rfl).2.2).of_blobs hb, fun hp k => ?_⟩
        · rw [recorded_of_sources hs, hnewRecord, hversions]
          unfold remaining
          rw [recorded_of_sources hsources]
          rfl
        · rw [hb, ht.2 hp]
          exact hholds k
      · rintro e t ⟨-, -, _, ⟨⟩, -⟩
    · rintro e w ⟨-, -, _, _, ⟨⟩, -⟩
  exact (hspec v rfl).2

/-! ## Repeating an interrupted upload -/

/-- The request names the version itself. -/
def namesVersion (request : CaptureRequest) : Bool := (request.versionId.filter (· ≠ "")).isSome

theorem targetVersion_fresh (hnamed : namesVersion request = false) {w : Version}
    (hw : w ∈ recorded v sourceId) : w.id ≠ targetVersion v request sourceId := by
  unfold targetVersion
  unfold namesVersion at hnamed
  rw [Option.isSome_eq_false_iff, Option.isNone_iff_eq_none] at hnamed
  rw [hnamed]
  exact nextVersionId_fresh hw

section Repeat

variable (py) (before crashed : Vault) (first second : CaptureRequest) (again : Fresh)
  (sourceId : String) (input : Input)

/-- The call succeeds, and the record is whole. -/
structure Repeated : Prop where
  succeeds : ∃ captured, ((capture py second again).run crashed).result = .ok captured
  keeps : first.purgePreviousVersions = false → second.purgePreviousVersions = false →
    ∀ w ∈ recorded before sourceId ++ recorded crashed sourceId,
      Listed (recorded ((capture py second again).run crashed).final sourceId) w
  stores : ∀ w ∈ recorded ((capture py second again).run crashed).final sourceId,
    BlobStored py ((capture py second again).run crashed).final w

/-- A version that the repeated call either repeats or finds in the record. -/
def Carried (w : Version) : Prop :=
  (w.id = targetVersion crashed second sourceId → w.contentSha256 = py.sha256 input.data) ∧
    (w.id ≠ targetVersion crashed second sourceId → Listed (recorded crashed sourceId) w)

/-- What a repeated call needs of the vault it meets. -/
structure Repeatable : Prop where
  /-- The path is free or has the bytes of the call. -/
  free : ∀ blob, crashed.blobs.get
    (originalKey sourceId (targetVersion crashed second sourceId) input) = some blob →
      blob.data = input.data
  /-- A version that the call names itself has these bytes. -/
  named : first.purgePreviousVersions = false → second.purgePreviousVersions = false →
    namesVersion second = true → ∀ w ∈ recorded crashed sourceId,
      w.id = targetVersion crashed second sourceId → w.contentSha256 = py.sha256 input.data
  /-- A version that the first call named itself is not lost. -/
  replaced : first.purgePreviousVersions = false → second.purgePreviousVersions = false →
    namesVersion first = true → ∀ w ∈ recorded before sourceId,
      w.id = targetVersion before first sourceId → Carried py crashed second sourceId input w
  /-- No blob of another version was purged. -/
  others : second.purgePreviousVersions = false → ∀ w ∈ recorded crashed sourceId,
    w.id ≠ targetVersion crashed second sourceId →
      BlobStored py (writeBlob (originalKey sourceId (targetVersion crashed second sourceId) input)
        input.data crashed) w

end Repeat

variable {crashed : Vault} {first second : CaptureRequest} {again : Fresh}

theorem Holds.stored_iff {key : BlobKey} {data : Bytes} {u : Vault} (h : Holds v key data u)
    (w : Version) : BlobStored py u w ↔ BlobStored py (writeBlob key data v) w := by
  unfold BlobStored
  rw [h]

theorem listed_iff_carried {version : Version}
    (hup : Uploaded py sourceId (targetVersion crashed second sourceId) input version)
    (hpurge : second.purgePreviousVersions = false) (w : Version) :
    Listed (remaining crashed second sourceId (targetVersion crashed second sourceId) ++
      [version]) w ↔
      Carried py crashed second sourceId input w := by
  obtain ⟨hid, hhash, -⟩ := hup
  unfold remaining
  rw [if_neg (by simp [hpurge])]
  constructor
  · rintro ⟨u, hu, huid, huhash⟩
    rcases List.mem_append.mp hu with hu | hu
    · obtain ⟨hu, hne⟩ := List.mem_filter.mp hu
      rw [decide_eq_true_eq, huid] at hne
      exact ⟨fun h => absurd h hne, fun _ => ⟨u, hu, huid, huhash⟩⟩
    · obtain rfl := List.mem_singleton.mp hu
      exact ⟨fun _ => huhash.symm.trans hhash, fun h => absurd (huid.symm.trans hid) h⟩
  · rintro ⟨hsame, hother⟩
    by_cases heq : w.id = targetVersion crashed second sourceId
    · exact ⟨version, by simp, hid.trans heq.symm, hhash.trans (hsame heq).symm⟩
    · obtain ⟨u, hu, huid, huhash⟩ := hother heq
      refine ⟨u, List.mem_append_left _ (List.mem_filter.mpr ⟨hu, ?_⟩), huid, huhash⟩
      rw [decide_eq_true_eq, huid]
      exact heq

/-- Only a version that a call names itself can be lost. -/
theorem Repeatable.carried (hhalt : Halted py before first fresh crashed)
    (h : Repeatable py before crashed first second (requestedSource first fresh) input)
    (hfirst : first.purgePreviousVersions = false)
    (hsecond : second.purgePreviousVersions = false) {w : Version}
    (hw : w ∈ recorded before (requestedSource first fresh) ++
      recorded crashed (requestedSource first fresh)) :
    Carried py crashed second (requestedSource first fresh) input w := by
  have hcrashed : ∀ w ∈ recorded crashed (requestedSource first fresh),
      Carried py crashed second (requestedSource first fresh) input w := by
    refine fun w hw => ⟨fun heq => ?_, fun _ => ⟨w, hw, rfl, rfl⟩⟩
    cases hnamed : namesVersion second with
    | true => exact h.named hfirst hsecond hnamed w hw heq
    | false => exact absurd heq (targetVersion_fresh hnamed hw)
  rcases List.mem_append.mp hw with hw | hw
  · rcases hhalt with hunsaved | ⟨version, hrecord, -, -⟩
    · exact hcrashed w (recorded_of_sources hunsaved.1 _ ▸ hw)
    · by_cases heq : w.id = targetVersion before first (requestedSource first fresh)
      · cases hnamed : namesVersion first with
        | true => exact h.replaced hfirst hsecond hnamed w hw heq
        | false => exact absurd heq (targetVersion_fresh hnamed hw)
      · refine hcrashed w ?_
        rw [hrecord]
        unfold remaining
        rw [if_neg (by simp [hfirst])]
        exact List.mem_append_left _ (List.mem_filter.mpr ⟨hw, by simpa using heq⟩)
  · exact hcrashed w hw

/-- A call that stops leaves the blobs of the record, unless it was purging them. -/
theorem Halted.intact (hhalt : Halted py before first fresh crashed)
    (hbefore : ∀ w ∈ recorded before (requestedSource first fresh), BlobStored py before w)
    (hpurge : first.purgePreviousVersions = false ∨ crashed.sources ≠ before.sources) :
    ∀ w ∈ recorded crashed (requestedSource first fresh), BlobStored py crashed w := by
  intro w hw
  rcases hhalt with ⟨hsources, hgrown⟩ | ⟨version, hrecord, htaken, hgrown⟩
  · rw [recorded_of_sources hsources] at hw
    rcases hpurge with hpurge | hpurge
    · exact (hbefore w hw).grown (hgrown hpurge)
    · exact absurd hsources hpurge
  · rw [hrecord] at hw
    rcases List.mem_append.mp hw with hw | hw
    · unfold remaining at hw
      split at hw
      · cases hw
      · rename_i hno
        exact (hbefore w (List.mem_filter.mp hw).1).grown (hgrown (by simpa using hno))
    · exact (htaken w (Option.mem_toList.mp hw)).2.2

/-- An upload is interrupted behind any write and repeated with any bytes. -/
theorem capture_after_crash {crash : Option Nat}
    (hcrash : (capture py first fresh).halt before crash = some crashed)
    (hnew : first.sourceId = none → before.sources.get fresh.sourceId = none)
    (hu : Upload second (requestedSource first fresh) input) :
    (Repeated py before crashed first second again (requestedSource first fresh) ↔
      Repeatable py before crashed first second (requestedSource first fresh) input) ∧
    ((∀ w ∈ recorded before (requestedSource first fresh), BlobStored py before w) →
      first.purgePreviousVersions = false ∨ crashed.sources ≠ before.sources →
        ∀ w ∈ recorded crashed (requestedSource first fresh), BlobStored py crashed w) := by
  have hhalt : Halted py before first fresh crashed :=
    (capture_spec hnew).halt (Or.inl ⟨rfl, fun _ => Grown.refl before⟩) (fun _ _ h => h) hcrash
  refine ⟨⟨fun h => ?_, fun h => ?_⟩, hhalt.intact⟩
  · have hfree : ∀ blob, crashed.blobs.get (originalKey (requestedSource first fresh)
        (targetVersion crashed second (requestedSource first fresh)) input) = some blob →
          blob.data = input.data := by
      intro blob hblob
      by_contra hdata
      obtain ⟨captured, hok⟩ := h.succeeds
      obtain ⟨e, he⟩ := @capture_conflict py crashed second again _ _ hu blob hblob hdata
      rw [hok] at he
      cases he
    obtain ⟨-, version, hup, hrecord, -, hholds⟩ :=
      @capture_upload py crashed second again _ _ hu hfree
    have hcarried : first.purgePreviousVersions = false → second.purgePreviousVersions = false →
        ∀ w ∈ recorded before (requestedSource first fresh) ++
          recorded crashed (requestedSource first fresh),
          Carried py crashed second (requestedSource first fresh) input w := by
      intro hfirst hsecond w hw
      have hkept := h.keeps hfirst hsecond w hw
      rw [hrecord] at hkept
      exact (listed_iff_carried hup hsecond w).mp hkept
    refine ⟨hfree, fun hfirst hsecond _ w hw heq => ?_, fun hfirst hsecond _ w hw _ => ?_,
      fun hsecond w hw hne => ?_⟩
    · exact (hcarried hfirst hsecond w (List.mem_append_right _ hw)).1 heq
    · exact hcarried hfirst hsecond w (List.mem_append_left _ hw)
    · refine ((hholds hsecond).stored_iff w).mp (h.stores w ?_)
      rw [hrecord]
      unfold remaining
      rw [if_neg (by simp [hsecond])]
      exact List.mem_append_left _ (List.mem_filter.mpr ⟨hw, by simpa using hne⟩)
  · obtain ⟨hok, version, hup, hrecord, hstored, hholds⟩ :=
      @capture_upload py crashed second again _ _ hu h.free
    refine ⟨hok, fun hfirst hsecond w hw => ?_, fun w hw => ?_⟩
    · rw [hrecord]
      exact (listed_iff_carried hup hsecond w).mpr (h.carried hhalt hfirst hsecond hw)
    · rw [hrecord] at hw
      rcases List.mem_append.mp hw with hw | hw
      · unfold remaining at hw
        split at hw
        · cases hw
        · rename_i hno
          have hsecond : second.purgePreviousVersions = false := by simpa using hno
          obtain ⟨hw, hne⟩ := List.mem_filter.mp hw
          exact ((hholds hsecond).stored_iff w).mpr (h.others hsecond w hw (by simpa using hne))
      · obtain rfl := List.mem_singleton.mp hw
        exact hstored

def emptyVault : Vault := ⟨Table.empty, Table.empty, Table.empty, Table.empty, []⟩

def plainPython : Python := ⟨fun data => toString data.length, fun _ => "", id⟩

/-- A text for a source. -/
def noteRequest (sourceId : Option String) (data : Bytes) : CaptureRequest where
  kind := "text"
  sourceId := sourceId
  versionId := none
  intakeId := none
  title := none
  youtubeUrl := false
  input := .ok ⟨data, "note.txt", "text/plain"⟩
  purgePreviousVersions := false
  documentType := none
  correspondent := none
  documentDate := none
  summary := none
  tags := none
  customFields := []
  operation := none
  requestedOutputs := []
  passwordProfile := none
  continuation := ""

def noteFresh : Fresh := ⟨"src_1", "intake_1", "art_1", "2025-01-01T00:00:00+00:00"⟩

theorem noteRequest_upload (data : Bytes) :
    Upload (noteRequest (some "src_1") data) "src_1" ⟨data, "note.txt", "text/plain"⟩ where
  kind := by simp [noteRequest, captureKinds]
  stored := by simp [noteRequest]
  source := ⟨"src_1", rfl, by decide⟩
  safeSource := by decide
  safeVersion := nofun
  input := rfl

/-- The vault after a crash behind the first write of a text for a new source. -/
def noteCrashed : Vault :=
  writeBlob (originalKey "src_1" "ver_001" ⟨[97], "note.txt", "text/plain"⟩) [97] emptyVault

theorem noteCrashed_halt :
    (capture plainPython (noteRequest none [97]) noteFresh).halt emptyVault (some 1) =
      some noteCrashed := rfl

theorem noteCrashed_blob (data : Bytes) :
    noteCrashed.blobs.get (originalKey "src_1"
      (targetVersion noteCrashed (noteRequest (some "src_1") data) "src_1")
        ⟨data, "note.txt", "text/plain"⟩) =
      some ⟨originalKey "src_1" "ver_001" ⟨[97], "note.txt", "text/plain"⟩, [97]⟩ := by
  unfold noteCrashed
  rw [get_writeBlob]
  exact if_pos rfl

theorem capture_after_crash_otherText :
    ∃ crashed, (capture plainPython (noteRequest none [97]) noteFresh).halt emptyVault (some 1) =
        some crashed ∧
      Upload (noteRequest (some "src_1") [98]) "src_1" ⟨[98], "note.txt", "text/plain"⟩ ∧
      ¬ Repeated plainPython emptyVault crashed (noteRequest none [97])
        (noteRequest (some "src_1") [98]) noteFresh "src_1" := by
  refine ⟨noteCrashed, noteCrashed_halt, noteRequest_upload [98], fun h => ?_⟩
  obtain ⟨captured, hok⟩ := h.succeeds
  obtain ⟨e, he⟩ := @capture_conflict plainPython noteCrashed _ noteFresh _ _
    (noteRequest_upload [98]) _ (noteCrashed_blob [98]) (by decide)
  rw [hok] at he
  cases he

theorem capture_after_crash_sameText :
    Repeated plainPython emptyVault noteCrashed (noteRequest none [97])
      (noteRequest (some "src_1") [97]) noteFresh "src_1" := by
  refine ((@capture_after_crash plainPython _ _ _ _ _ _ _ _ noteCrashed_halt (fun _ => rfl)
    (noteRequest_upload [97])).1).mpr ⟨?_, nofun, nofun, nofun⟩
  intro blob hblob
  rw [show requestedSource (noteRequest none [97]) noteFresh = "src_1" from rfl,
    noteCrashed_blob] at hblob
  cases hblob
  rfl

end Openlia.Ingestion

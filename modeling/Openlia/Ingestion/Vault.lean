import Mathlib.Data.List.Infix
import Openlia.Ingestion.Queue
import Openlia.Lib.Crash
import Openlia.Policy.Paths

/-! # The Ingestion Vault

The blobs lie on disk under their source and version, the records and the search rows in the
database. `capture` writes them one after the other.
-/

namespace Openlia.Ingestion

open Lib Crash
open Policy (Text strip)

abbrev Bytes := List UInt8

/-- `blobs/<source>/<version>/<name>`; the ids are single components. -/
structure BlobKey where
  sourceId : String
  versionId : String
  name : String
  deriving DecidableEq

structure Blob where
  key : BlobKey
  data : Bytes
  deriving DecidableEq

structure Version where
  id : String
  originalArtifactId : String
  filename : String
  contentSha256 : String
  mediaType : String
  sizeBytes : Nat
  originalRef : BlobKey
  receivedAt : String
  extractions : List String
  deriving DecidableEq

structure Processing where
  status : String
  lastJobId : Option String
  error : Option String
  errorCode : Option String
  errorSummary : Option String
  deriving DecidableEq

structure Review where
  status : String
  reasons : List String
  deriving DecidableEq

/-- A value of a custom field as text; none stands for `None`. -/
abbrev CustomFields := List (String × Option String)

structure Source where
  id : String
  kind : String
  title : String
  documentType : Option String
  correspondent : Option String
  documentDate : Option String
  tags : List String
  summary : Option String
  status : String
  processing : Processing
  review : Review
  lifecycle : String
  capturedAt : String
  customFields : CustomFields
  versions : List Version
  passwordProfile : Option String
  deriving DecidableEq

structure Intake where
  intakeId : String
  sourceId : String
  versionId : String
  capturedAt : String
  kind : String
  operation : String
  requestedOutputs : List String
  status : String
  jobId : Option String
  continuation : String
  lastError : Option String
  deriving DecidableEq

/-- A row of `intakes`; the column `source_id` is not updated with the record. -/
structure IntakeRow where
  sourceId : String
  record : Intake
  deriving DecidableEq

/-- A row of `source_fts`. -/
structure FtsRow where
  sourceId : String
  title : String
  correspondent : String
  documentType : String
  tags : String
  summary : String
  content : String
  documentDate : String
  reviewStatus : String
  processingStatus : String
  lifecycle : String
  deriving DecidableEq

structure Vault where
  blobs : Table Blob BlobKey Blob.key
  sources : Table Source String Source.id
  intakes : Table IntakeRow String fun row => row.record.intakeId
  jobs : JobTable
  fts : List FtsRow

abbrev VaultAction := Prog Vault String

/-! ## Names -/

/-- `SAFE_ID.fullmatch` -/
def safeId (s : String) : Bool :=
  match s.toList with
  | [] => false
  | c :: rest => c.isAlphanum && rest.all fun d => d.isAlphanum || d = '.' || d = '_' || d = '-'

/-- The number of an id `ver_<digits>`. -/
def versionNumber (id : String) : Option Nat :=
  match id.toList with
  | 'v' :: 'e' :: 'r' :: '_' :: digits =>
      if digits ≠ [] ∧ digits.all Char.isDigit then some (Nat.ofDigitChars 10 digits 0) else none
  | _ => none

/-- `f"ver_{n:03d}"` -/
def versionName (n : Nat) : String :=
  let digits := Nat.toDigits 10 n
  String.ofList ("ver_".toList ++ List.replicate (3 - digits.length) '0' ++ digits)

def nextVersionId (existing : List Version) : String :=
  if existing = [] then "ver_001"
  else
    versionName
      ((existing.foldl (fun n v => max n ((versionNumber v.id).getD 0)) existing.length) + 1)

/-- `str.lower` as far as its result is a letter of the extension. -/
def lowerChar (c : Char) : Char := if c = '\u212a' then 'k' else c.toLower

/-- `Path(filename).suffix.lower()`, or `.bin` when it is no plain one. -/
def extension (filename : String) : String :=
  let reversed := filename.toList.reverse
  let letters := (reversed.takeWhile (· ≠ '.')).reverse.map lowerChar
  let stem := (reversed.dropWhile (· ≠ '.')).drop 1
  if stem ≠ [] ∧ letters ≠ [] ∧ letters.length ≤ 12 ∧
      letters.all fun c => c.isDigit || c.isLower then
    String.ofList ('.' :: letters)
  else ".bin"

/-! ## The search rows -/

/-- The custom fields that have a value, as text. -/
def customFieldTokens (customFields : CustomFields) : String :=
  " ".intercalate (customFields.filterMap fun (k, v) =>
    match v with
    | none => none
    | some v => if v = "" then none else some (k ++ ": " ++ v))

/-- The content with the custom fields that it does not hold. -/
def ftsContent (content : String) (customFields : CustomFields) : String :=
  let tokens := customFieldTokens customFields
  if tokens ≠ "" ∧ ¬ tokens.toList <:+: content.toList then
    String.ofList (strip (content.toList ++ '\n' :: tokens.toList))
  else content

/-- The row of a source; an empty status falls back like a missing one. -/
def ftsRow (source : Source) (content processingStatus : String) : FtsRow where
  sourceId := source.id
  title := source.title
  correspondent := source.correspondent.getD ""
  documentType := source.documentType.getD ""
  tags := " ".intercalate source.tags
  summary := source.summary.getD ""
  content := ftsContent content source.customFields
  documentDate := source.documentDate.getD ""
  reviewStatus := if source.review.status = "" then "unreviewed" else source.review.status
  processingStatus := if processingStatus = "" then "captured" else processingStatus
  lifecycle := if source.lifecycle = "" then "active" else source.lifecycle

def deleteFts (sourceId : String) (v : Vault) : Vault :=
  { v with fts := v.fts.filter fun r => r.sourceId ≠ sourceId }

def insertFts (row : FtsRow) (v : Vault) : Vault := { v with fts := v.fts ++ [row] }

/-- The row is deleted and inserted by two statements. -/
def upsertSourceFts (source : Source) (content processingStatus : String) : VaultAction Unit := do
  Prog.write (deleteFts source.id)
  Prog.write (insertFts (ftsRow source content processingStatus))

/-! ## Records -/

def saveSource (source : Source) (v : Vault) : Vault :=
  { v with sources := v.sources.upsert source }

/-- The column `source_id` of a row that is there stays. -/
def saveIntake (intake : Intake) (v : Vault) : Vault :=
  let column := ((v.intakes.get intake.intakeId).map fun row => row.sourceId).getD intake.sourceId
  { v with intakes := v.intakes.upsert ⟨column, intake⟩ }

def writeBlob (key : BlobKey) (data : Bytes) (v : Vault) : Vault :=
  { v with blobs := v.blobs.upsert ⟨key, data⟩ }

def removeBlob (key : BlobKey) (v : Vault) : Vault :=
  { v with blobs := v.blobs.delete fun b => b.key = key }

/-- `_write_bytes` of an immutable artifact. -/
def writeImmutable (key : BlobKey) (data : Bytes) : VaultAction Unit := do
  let v ← Prog.get
  match v.blobs.get key with
  | some blob =>
      if blob.data = data then pure ()
      else Prog.fail ("immutable artifact conflict: blobs/" ++ key.sourceId ++ "/" ++
        key.versionId ++ "/" ++ key.name)
  | none => Prog.write (writeBlob key data)

def removeBlobs : List BlobKey → VaultAction Unit
  | [] => pure ()
  | key :: rest => do
      Prog.write (removeBlob key)
      removeBlobs rest

/-- `shutil.rmtree` of the directory of a version. -/
def rmtree (sourceId versionId : String) : VaultAction Unit := do
  let v ← Prog.get
  removeBlobs ((v.blobs.rows.map Blob.key).filter fun key =>
    key.sourceId = sourceId && key.versionId = versionId)

def deleteVersionCascade (sourceId versionId : String) (v : Vault) : Vault :=
  { v with jobs := deleteVersionJobs v.jobs sourceId versionId }

/-- The versions other than the new one are purged. -/
def purgeVersions (sourceId versionId : String) : List Version → VaultAction Unit
  | [] => pure ()
  | old :: rest =>
      if old.id ≠ "" ∧ old.id ≠ versionId then do
        Prog.write (deleteVersionCascade sourceId old.id)
        rmtree sourceId old.id
        purgeVersions sourceId versionId rest
      else purgeVersions sourceId versionId rest

/-! ## Capture -/

/-- What `_input_bytes` reads. -/
structure Input where
  data : Bytes
  filename : String
  mediaType : String

structure CaptureRequest where
  kind : String
  sourceId : Option String
  versionId : Option String
  intakeId : Option String
  title : Option String
  /-- The url of the request or of the source is one of YouTube. -/
  youtubeUrl : Bool
  input : Except String Input
  purgePreviousVersions : Bool
  documentType : Option String
  correspondent : Option String
  documentDate : Option String
  summary : Option String
  tags : Option (List String)
  customFields : CustomFields
  operation : Option String
  requestedOutputs : List String
  passwordProfile : Option String
  continuation : String

/-- The functions of the standard library that work on texts and bytes as a whole. -/
structure Python where
  sha256 : Bytes → String
  /-- UTF-8 without what is no text. -/
  decode : Bytes → String
  lower : Text → Text

/-- What `make_id` and the clock give to one call. -/
structure Fresh where
  sourceId : String
  intakeId : String
  artifactId : String
  timestamp : String

structure Captured where
  source : Source
  intake : Intake
  version : Option Version

def captureKinds : List String :=
  ["chat", "text", "file", "pdf", "image", "excel", "csv", "youtube"]

/-- `request.get(...) or default` -/
def orDefault (value : Option String) (default : String) : String :=
  match value with
  | none => default
  | some s => if s = "" then default else s

def cleanTags (py : Python) (tags : List String) : List String :=
  (tags.filter fun t => strip t.toList ≠ []).map fun t => String.ofList (py.lower (strip t.toList))

/-- `dict.update` -/
def updateFields (fields : CustomFields) : CustomFields → CustomFields
  | [] => fields
  | (k, v) :: rest =>
      updateFields
        (if fields.any fun f => f.1 = k then fields.map fun f => if f.1 = k then (k, v) else f
        else fields ++ [(k, v)]) rest

def newProcessing : Processing := ⟨"captured", none, none, none, none⟩

/-- The record of a source that gets a version. -/
def updatedSource (py : Python) (request : CaptureRequest) (existing : Source)
    (timestamp : String) (versions : List Version) : Source where
  id := existing.id
  kind := request.kind
  title := String.ofList ((orDefault request.title
    (if existing.title = "" then "Untitled source" else existing.title)).toList.take 240)
  documentType := request.documentType.or existing.documentType
  correspondent := request.correspondent.or existing.correspondent
  documentDate := request.documentDate.or existing.documentDate
  tags := (request.tags.map (cleanTags py)).getD existing.tags
  summary := request.summary.or existing.summary
  status := "captured"
  processing := newProcessing
  review := ⟨"needs-review", ["new_version_uploaded"]⟩
  lifecycle := if existing.lifecycle = "" then "active" else existing.lifecycle
  capturedAt := if existing.capturedAt = "" then timestamp else existing.capturedAt
  customFields := updateFields existing.customFields request.customFields
  versions := versions
  passwordProfile := request.passwordProfile.or existing.passwordProfile

def newSource (py : Python) (request : CaptureRequest) (sourceId timestamp : String)
    (versions : List Version) : Source where
  id := sourceId
  kind := request.kind
  title := String.ofList ((orDefault request.title "Untitled source").toList.take 240)
  documentType := request.documentType
  correspondent := request.correspondent
  documentDate := request.documentDate
  tags := cleanTags py (request.tags.getD [])
  summary := request.summary
  status := "captured"
  processing := newProcessing
  review := ⟨"unreviewed", []⟩
  lifecycle := "active"
  capturedAt := timestamp
  customFields := request.customFields
  versions := versions
  passwordProfile := request.passwordProfile

def newIntake (request : CaptureRequest) (fresh : Fresh) (sourceId versionId : String) :
    Intake where
  intakeId := orDefault request.intakeId fresh.intakeId
  sourceId := sourceId
  versionId := versionId
  capturedAt := fresh.timestamp
  kind := request.kind
  operation := orDefault request.operation "extract"
  requestedOutputs := if request.requestedOutputs = [] then ["text"] else request.requestedOutputs
  status := "captured"
  jobId := none
  continuation := request.continuation
  lastError := none

section Capture

variable (py : Python)

/-- The id of the source, and the source when it is there. -/
def resolveSource (v : Vault) (request : CaptureRequest) (fresh : Fresh) :
    Except String (String × Option Source) :=
  match request.sourceId with
  | none => .ok (fresh.sourceId, none)
  | some raw =>
      let sourceId := String.ofList (strip raw.toList)
      if safeId sourceId then .ok (sourceId, v.sources.get sourceId)
      else .error "invalid source id"

def resolveVersion (request : CaptureRequest) (existing : Option Source) : Except String String :=
  match request.versionId.filter (· ≠ "") with
  | none => .ok (nextVersionId ((existing.map fun s => s.versions).getD []))
  | some raw =>
      let versionId := String.ofList (strip raw.toList)
      if safeId versionId then .ok versionId else .error "invalid version id"

/-- The checks and the ids, before anything is written. -/
def checkCapture (v : Vault) (request : CaptureRequest) (fresh : Fresh) :
    Except String (String × String × Option Source) :=
  if request.kind ∉ captureKinds then .error "unsupported ingestion kind"
  else do
    let source ← resolveSource v request fresh
    let versionId ← resolveVersion request source.2
    pure (source.1, versionId, source.2)

/-- `blobs/<source>/<version>/original<extension>` -/
def originalKey (sourceId versionId : String) (input : Input) : BlobKey :=
  ⟨sourceId, versionId, "original" ++ extension input.filename⟩

/-- The blob of the original and its record; none for a video. -/
def captureOriginal (request : CaptureRequest) (fresh : Fresh) (sourceId versionId : String) :
    VaultAction (Option Version × String) :=
  if request.kind = "youtube" then
    if request.youtubeUrl then pure (none, "")
    else Prog.fail "only YouTube URLs are supported"
  else
    match request.input with
    | .error e => Prog.fail e
    | .ok input => do
        let ext := extension input.filename
        let key := originalKey sourceId versionId input
        writeImmutable key input.data
        pure (some
          { id := versionId
            originalArtifactId := fresh.artifactId
            filename := input.filename
            contentSha256 := py.sha256 input.data
            mediaType := input.mediaType
            sizeBytes := input.data.length
            originalRef := key
            receivedAt := fresh.timestamp
            extractions := [] },
          if request.kind = "chat" ∨ request.kind = "text" ∨
              ext ∈ [".txt", ".md", ".json", ".csv"] then
            py.decode (input.data.take 50000)
          else "")

def cancelOtherJobs (sourceId versionId : String) (v : Vault) : Vault :=
  { v with jobs := cancelSourceJobs v.jobs sourceId (some versionId) }

/-- What happens to the older versions, and the record with the new one. -/
def captureSource (request : CaptureRequest) (fresh : Fresh) (sourceId versionId : String)
    (existing : Option Source) (version : Option Version) : VaultAction Source :=
  match existing with
  | none => pure (newSource py request sourceId fresh.timestamp version.toList)
  | some old =>
      if request.purgePreviousVersions then do
        purgeVersions sourceId versionId old.versions
        pure (updatedSource py request old fresh.timestamp version.toList)
      else do
        Prog.write (cancelOtherJobs sourceId versionId)
        pure (updatedSource py request old fresh.timestamp
          (old.versions.filter (fun v => v.id ≠ versionId) ++ version.toList))

def capture (request : CaptureRequest) (fresh : Fresh) : VaultAction Captured := do
  let v ← Prog.get
  let (sourceId, versionId, existing) ← Prog.lift (checkCapture v request fresh)
  let (version, initialContent) ← captureOriginal py request fresh sourceId versionId
  let source ← captureSource py request fresh sourceId versionId existing version
  Prog.write (saveSource source)
  upsertSourceFts source initialContent "captured"
  let intake := newIntake request fresh sourceId versionId
  Prog.write (saveIntake intake)
  pure ⟨source, intake, version⟩

end Capture

end Openlia.Ingestion

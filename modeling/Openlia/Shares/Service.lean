import Openlia.Lib.Table
import Openlia.Shares.Capture

/-! # The share service

Shares and their files are rows of two tables. A share is made or renewed in one
transaction; a share that expired is deleted before anything else is done.
-/

namespace Openlia.Shares

open Lib Workspace
open Browser (trim)

def expirationPresets : List (String × Option Nat) :=
  [("1d", some (24 * 60 * 60 * 1000)), ("7d", some (7 * 24 * 60 * 60 * 1000)),
    ("30d", some (30 * 24 * 60 * 60 * 1000)), ("90d", some (90 * 24 * 60 * 60 * 1000)),
    ("never", none)]

structure ShareRow where
  id : String
  kind : ShareKind
  target_path : String
  title : String
  created_at : Nat
  updated_at : Nat
  expires_at : Option Nat
  expiration_preset : String
  snapshot_revision : String
  file_count : Nat
  total_bytes : Nat
  media_type : String
  metadata_json : Option String
  deriving DecidableEq

structure ShareFileRow where
  share_id : String
  path : String
  content_text : Option String
  content_blob : Option Bytes
  media_type : String
  size_bytes : Nat
  editable : Bool
  deriving DecidableEq

structure FailedLookupState where
  count : Nat
  resetAt : Nat

abbrev ShareTable := Table ShareRow String ShareRow.id

/-- The files of a share; `(share_id, path)` is the primary key. -/
abbrev ShareFileTable := Table ShareFileRow (String × String) fun f => (f.share_id, f.path)

structure ShareStore where
  shares : ShareTable
  files : ShareFileTable
  failedLookups : List (String × FailedLookupState)

abbrev ShareAction := EStateM WorkspaceError ShareStore

namespace ShareStore

/-- The stored files of a share. -/
def filesOf (s : ShareStore) (id : String) : List ShareFileRow :=
  s.files.select fun f => f.share_id == id

def deleteFiles (s : ShareStore) (id : String) : ShareStore :=
  { s with files := s.files.delete fun f => f.share_id == id }

def deleteShare (s : ShareStore) (id : String) : ShareStore :=
  { s.deleteFiles id with shares := s.shares.delete fun r => r.id == id }

def insertFiles (s : ShareStore) : List ShareFileRow → Option ShareStore
  | [] => some s
  | row :: rest =>
      match s.files.insert row with
      | none => none
      | some files => insertFiles { s with files := files } rest

end ShareStore

/-- A row of `share_files`. -/
def fileRow (shareId : String) (file : CapturedShareFile) : ShareFileRow :=
  ⟨shareId, file.path, file.contentText, file.contentBlob, file.mediaType, file.sizeBytes,
    file.editable⟩

def expired (nowMs : Nat) (row : ShareRow) : Bool := row.expires_at.any (· ≤ nowMs)

def pruneExpired (nowMs : Nat) : ShareAction Nat := do
  let s ← get
  let expiredRows := s.shares.select (expired nowMs)
  set (expiredRows.foldl (fun s row => s.deleteShare row.id) s)
  pure expiredRows.length

def computeExpiration (preset : String) (nowMs : Nat) : Option Nat :=
  ((expirationPresets.lookup preset).join).map (nowMs + ·)

def validPreset (preset : String) : Bool := (expirationPresets.lookup preset).isSome

inductive ShareSyncStatus where
  | up_to_date
  | stale
  | source_missing
  deriving DecidableEq

structure ShareSummary where
  row : ShareRow
  current_revision : Option String
  status : ShareSyncStatus

def requestError (message : String) : WorkspaceError := refusal message 400 "invalid_share_request"

def shareNotFound : WorkspaceError := refusal "share not found" 404 "share_not_found"

/-- What SQLite says of a second row with one key. -/
def constraintFailed : WorkspaceError := systemError "UNIQUE constraint failed"

section Service

variable (rt : Runtime) (limits : Limits) (services : Services) (w : World)

def toShareSummary (row : ShareRow) : ShareSummary :=
  match currentRevision rt limits services w row.kind row.target_path with
  | none => ⟨row, none, .source_missing⟩
  | some current =>
      ⟨row, some current, if current = row.snapshot_revision then .up_to_date else .stale⟩

def listShares (nowMs : Nat) (kind targetPath : Option String) :
    ShareAction (List ShareSummary) := do
  let _ ← pruneExpired nowMs
  let s ← get
  let kindFilter := (kind.map trim).filter (· ≠ "")
  let targetFilter := (targetPath.map cleanTarget).filter (· ≠ "")
  let rows := s.shares.select fun r =>
    kindFilter.all (r.kind.text = ·) && targetFilter.all (r.target_path = ·)
  pure ((rows.mergeSort fun a b => b.created_at ≤ a.created_at).map
    (toShareSummary rt limits services w))

def kindOf (kind : String) : Option ShareKind :=
  [ShareKind.workspace, .skill, .feature].find? (·.text = kind)

structure ShareCreateRequest where
  kind : Option String
  target_path : Option String
  expires_in : Option String

def createShare (nowMs : Nat) (id : String) (request : ShareCreateRequest) :
    ShareAction ShareSummary := do
  let _ ← pruneExpired nowMs
  match request.kind.bind kindOf with
  | none => throw (requestError "share kind must be 'workspace', 'skill', or 'feature'")
  | some kind =>
      match request.target_path.filter (trim · ≠ "") with
      | none => throw (requestError "target_path is required")
      | some targetPath => do
          let preset := request.expires_in.getD "30d"
          if validPreset preset = false then throw (requestError "invalid expiration preset")
          else
            match capture rt limits services w kind targetPath with
            | .error e => throw e
            | .ok snapshot => do
                let row : ShareRow :=
                  ⟨id, snapshot.kind, snapshot.targetPath, snapshot.title, nowMs, nowMs,
                    computeExpiration preset nowMs, preset, snapshot.snapshotRevision,
                    snapshot.files.length, snapshot.totalBytes, snapshot.mediaType,
                    snapshot.metadataJson⟩
                let s ← get
                match (s.shares.insert row).bind fun shares =>
                    { s with shares := shares }.insertFiles (snapshot.files.map (fileRow id)) with
                | none => throw constraintFailed
                | some s => do
                    set s
                    pure (toShareSummary rt limits services w row)

/-- The row of a share after it was captured again. -/
def ShareRow.synced (row : ShareRow) (snapshot : CapturedSnapshot) (nowMs : Nat)
    (expiresIn : Option String) : ShareRow :=
  { row with
    title := snapshot.title
    updated_at := nowMs
    expires_at :=
      match expiresIn with
      | some preset => computeExpiration preset nowMs
      | none => row.expires_at
    expiration_preset := expiresIn.getD row.expiration_preset
    snapshot_revision := snapshot.snapshotRevision
    file_count := snapshot.files.length
    total_bytes := snapshot.totalBytes
    media_type := snapshot.mediaType
    metadata_json := snapshot.metadataJson }

def syncShare (nowMs : Nat) (shareId : String) (expiresIn : Option String) :
    ShareAction ShareSummary := do
  let _ ← pruneExpired nowMs
  let s ← get
  match s.shares.get shareId with
  | none => throw shareNotFound
  | some existing =>
      if expiresIn.any (validPreset · = false) then
        throw (requestError "invalid expiration preset")
      else
        match capture rt limits services w existing.kind existing.target_path with
        | .error e => throw e
        | .ok snapshot => do
            let shares := s.shares.update (fun r => r.id == shareId)
              (fun r => r.synced snapshot nowMs expiresIn) fun _ => rfl
            match ({ s with shares := shares }.deleteFiles shareId).insertFiles
                (snapshot.files.map (fileRow shareId)) with
            | none => throw constraintFailed
            | some s => do
                set s
                pure (toShareSummary rt limits services w
                  (existing.synced snapshot nowMs expiresIn))

/-- A new expiry date, or what `syncShare` does. -/
def updateShare (nowMs : Nat) (shareId : String) (action expiresIn : Option String) :
    ShareAction ShareSummary := do
  let _ ← pruneExpired nowMs
  if action = some "sync" then syncShare rt limits services w nowMs shareId expiresIn
  else do
    let s ← get
    match s.shares.get shareId with
    | none => throw shareNotFound
    | some existing =>
        match expiresIn.filter validPreset with
        | none => throw (requestError "invalid share update request")
        | some preset => do
            let renewed := fun r : ShareRow =>
              { r with
                expires_at := computeExpiration preset nowMs
                expiration_preset := preset
                updated_at := nowMs }
            set { s with shares := s.shares.update (fun r => r.id == shareId) renewed fun _ => rfl }
            pure (toShareSummary rt limits services w (renewed existing))

end Service

def deleteShare (nowMs : Nat) (shareId : String) : ShareAction Unit := do
  let _ ← pruneExpired nowMs
  let s ← get
  match s.shares.get shareId with
  | none => throw shareNotFound
  | some _ => set (s.deleteShare shareId)

/-! ## Public access -/

/-- How many lookups may fail, and for how long a failure counts. -/
structure LookupLimits where
  failedLookupWindowMs : Nat
  maxFailedLookups : Nat

def defaultLookupLimits : LookupLimits := ⟨10 * 60 * 1000, 15⟩

section Public

variable (lookups : LookupLimits)

def assertNotRateLimited (clientKey : String) (nowMs : Nat) : ShareAction Unit := do
  let s ← get
  match s.failedLookups.lookup clientKey with
  | none => pure ()
  | some state =>
      if state.resetAt ≤ nowMs then
        set { s with failedLookups := s.failedLookups.filter (·.1 ≠ clientKey) }
      else if lookups.maxFailedLookups ≤ state.count then
        throw (refusal "too many failed share lookups" 429 "rate_limited")
      else pure ()

def recordFailedLookup (clientKey : String) (nowMs : Nat) : ShareAction Unit := do
  let s ← get
  let others := s.failedLookups.filter (·.1 ≠ clientKey)
  let state : FailedLookupState :=
    match s.failedLookups.lookup clientKey with
    | none => ⟨1, nowMs + lookups.failedLookupWindowMs⟩
    | some existing =>
        if existing.resetAt ≤ nowMs then ⟨1, nowMs + lookups.failedLookupWindowMs⟩
        else ⟨existing.count + 1, existing.resetAt⟩
  set { s with failedLookups := (clientKey, state) :: others }

def clearFailedLookups (clientKey : String) : ShareAction Unit :=
  modify fun s => { s with failedLookups := s.failedLookups.filter (·.1 ≠ clientKey) }

def lookupActivePublicShareRow (shareId clientKey : String) (nowMs : Nat) :
    ShareAction ShareRow := do
  assertNotRateLimited lookups clientKey nowMs
  let _ ← pruneExpired nowMs
  let s ← get
  match s.shares.get (trim shareId) with
  | none => do
      recordFailedLookup lookups clientKey nowMs
      throw shareNotFound
  | some row =>
      if trim shareId = "" then do
        recordFailedLookup lookups clientKey nowMs
        throw shareNotFound
      else do
        clearFailedLookups clientKey
        pure row

structure ServedFile where
  filename : String
  mediaType : String
  bytes : Bytes

/-- What a stored file is served as. -/
def ShareFileRow.served (row : ShareFileRow) : ServedFile where
  filename := String.ofList ((lastPart row.path).toList.filter fun c =>
    c ≠ '"' && c ≠ '\r' && c ≠ '\n')
  mediaType := if row.media_type = "" then "application/octet-stream" else row.media_type
  bytes :=
    match row.content_blob with
    | some blob => blob
    | none => utf8 (row.content_text.getD "")

/-- The stored file that a request finds. -/
def requestedFile (s : ShareStore) (row : ShareRow) (requestedPath : Option String) :
    Option ShareFileRow :=
  let targetPath := ((requestedPath.map trim).filter (· ≠ "")).getD row.target_path
  (s.files.get (row.id, targetPath)).or <|
    if requestedPath.any (· ≠ "") then none
    else ((s.filesOf row.id).mergeSort fun a b => (compare (utf8 a.path) (utf8 b.path)).isLE).head?

def getPublicShareBinaryFile (shareId : String) (requestedPath : Option String)
    (clientKey : String) (nowMs : Nat) : ShareAction ServedFile := do
  let row ← lookupActivePublicShareRow lookups shareId clientKey nowMs
  let s ← get
  match requestedFile s row requestedPath with
  | none => throw (refusal "shared file not found" 404 "not_found")
  | some fileRow => pure fileRow.served

end Public

end Openlia.Shares

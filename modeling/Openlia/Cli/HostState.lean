import Mathlib.Data.Finmap
import Openlia.Lib.Crash
import Openlia.Lib.Runs

/-! # The state of a Locho host

A host is known by the seed in `host.key` and the secrets in `host_state.json`.
The CLI keeps both files in a directory of its own, takes them from the target or
makes them when they are missing, and uploads them with every deployment.
-/

namespace Openlia.Cli

open Crash

abbrev Random := Vector UInt8 32

/-- The services and their secrets. -/
abbrev Secrets := Finmap fun _ : String => String

structure LochoPersistedHostState where
  SchemaVersion : Int64
  EndpointID : String
  AttachSecret : String
  ServiceSecrets : Option Secrets
  deriving DecidableEq

/-- JSON files of a state and the public keys of seeds. -/
structure HostCodec (R : Type) where
  marshal : LochoPersistedHostState → R
  unmarshal : R → Option LochoPersistedHostState
  unmarshal_marshal : ∀ state, unmarshal (marshal state) = some state
  deriveLochoEndpointID : List UInt8 → String

/-! ## Files -/

/-- A directory entry. A dangling link exists for `Lstat` only. -/
inductive Entry (α : Type) where
  | file (guarded : Bool) (contents : α)
  | dangling
  | other
  deriving DecidableEq

def Entry.regular {α : Type} : Entry α → Option α
  | .file _ contents => some contents
  | .dangling | .other => none

/-- The contents of a file with mode 0600. -/
def Entry.guarded {α : Type} : Entry α → Option α
  | .file true contents => some contents
  | _ => none

/-- The state directory; `directory` when it is one and no link to one. -/
structure StateDir (R : Type) where
  directory : Bool
  shared : Bool
  key : Option (Entry (List UInt8))
  state : Option (Entry R)
  deriving DecidableEq

structure TargetFiles (R : Type) where
  key : Option (Entry (List UInt8))
  state : Option (Entry R)
  deriving DecidableEq

structure HostWorld (R : Type) where
  dir : StateDir R
  target : TargetFiles R
  deriving DecidableEq

abbrev HostAction (R α : Type) := Prog (HostWorld R) String α

inductive Stat where
  | found
  | notExist
  | failed (e : String)

def Stat.of {α : Type} (fault : Option String) (entry : Option (Entry α)) : Stat :=
  match fault, entry with
  | some e, _ => .failed e
  | none, none | none, some .dangling => .notExist
  | none, some (.file ..) | none, some .other => .found

/-! ## What the calls of a run return -/

inductive Deployment where
  | Local
  | Remote
  deriving DecidableEq

/-- The errors of the parent directory and of the file. -/
structure WriteCalls where
  parent : Option String
  replace : Option String
  deriving DecidableEq

/-- An upload may be in place although it failed, and over SSH a part of it may be:
`cat` ends with the connection and the file is moved. -/
inductive Transfer (α : Type) where
  | done
  | refused (e : String)
  | lost (e : String)
  | cut (arrived : α) (e : String)

structure Draws where
  attach : Except String Random
  service : Except String Random

structure HostCalls (R : Type) where
  placed : Option String
  statKey : Option String
  statState : Option String
  lstatDir : Bool
  secureDir : Option String
  lstatKey : Bool
  readKey : Option String
  lstatState : Bool
  readState : Option String
  unreachable : Bool
  readTarget : Option String
  adoptKey : WriteCalls
  adoptState : WriteCalls
  repair : Draws
  seed : Except String Random
  fresh : Draws
  makeDir : Option String
  writeKey : WriteCalls
  writeState : WriteCalls
  removeKey : Bool
  saveConfig : Option String
  uploadKey : Transfer (List UInt8)
  uploadState : Transfer R

section Calls

variable {R α : Type}

def refuse (label : String) (fault : Option String) : HostAction R Unit :=
  Prog.refuse (fault.map (label ++ ·))

def labelled (label : String) (p : HostAction R α) : HostAction R α := do
  match ← Prog.attempt p with
  | .ok a => pure a
  | .error e => Prog.fail (label ++ e)

def StateDir.secured (d : StateDir R) : StateDir R := { d with shared := false }

def StateDir.setKey (d : StateDir R) (seed : List UInt8) : StateDir R :=
  { d with key := some (.file true seed) }

def StateDir.setState (d : StateDir R) (raw : R) : StateDir R :=
  { d with state := some (.file true raw) }

def StateDir.removeKey (d : StateDir R) : StateDir R := { d with key := none }

def HostWorld.mapDir (f : StateDir R → StateDir R) (w : HostWorld R) : HostWorld R :=
  { w with dir := f w.dir }

def HostWorld.mapTarget (f : TargetFiles R → TargetFiles R) (w : HostWorld R) : HostWorld R :=
  { w with target := f w.target }

def writePrivateFileAtomic (calls : WriteCalls) (put : StateDir R → StateDir R) :
    HostAction R Unit := do
  refuse "" calls.parent
  Prog.write (HostWorld.mapDir StateDir.secured)
  refuse "" calls.replace
  Prog.write (HostWorld.mapDir put)

/-- `os.Remove` of the key, whose error is dropped. -/
def removeKey (failed : Bool) : HostAction R Unit :=
  if failed then pure () else Prog.write (HostWorld.mapDir StateDir.removeKey)

end Calls

/-! ## Secrets -/

def hexDigits (b : UInt8) : List Char := [Nat.digitChar (b.toNat / 16), Nat.digitChar (b.toNat % 16)]

/-- `hex.EncodeToString`. -/
def hexString (bytes : Random) : String := String.ofList (bytes.toList.flatMap hexDigits)

def generateLochoSecretHex (draw : Except String Random) : Except String String :=
  draw.map hexString

def validLochoHexSecret (value : String) : Bool :=
  value.utf8ByteSize == 64 &&
    value.toList.all fun ch => ('0' ≤ ch && ch ≤ '9') || ('a' ≤ ch && ch ≤ 'f')

def lochoHostStateSchemaVersion : Int64 := 2

/-- A missing service has the empty string. -/
def Secrets.get (secrets : Secrets) (service : String) : String := (secrets.lookup service).getD ""

def generateLochoHostState (draws : Draws) (endpointID : String) :
    Except String LochoPersistedHostState := do
  let attachSecret ← generateLochoSecretHex draws.attach
  let workspaceSecret ← generateLochoSecretHex draws.service
  pure ⟨lochoHostStateSchemaVersion, endpointID, attachSecret,
    some (Finmap.insert "workspace-ui" workspaceSecret ∅)⟩

/-- A secret that is not valid is replaced. -/
def repairSecret (draw : Except String Random) (secret : String) : Except String String :=
  if validLochoHexSecret secret then pure secret else generateLochoSecretHex draw

/-! ## The functions -/

section Functions

variable {R : Type} (codec : HostCodec R)

/-- The repaired state, and whether it differs from the file. -/
def parseAndRepairLochoHostState (draws : Draws) (raw : R) (expectedEndpointID : String) :
    Except String (LochoPersistedHostState × Bool) :=
  match codec.unmarshal raw with
  | none => .error "locho-host state file is not valid JSON"
  | some state =>
      if state.SchemaVersion ≠ lochoHostStateSchemaVersion ∧ state.SchemaVersion ≠ 1 then
        .error ("unsupported locho-host state schema version " ++ toString state.SchemaVersion)
      else if state.EndpointID ≠ expectedEndpointID then
        .error "locho-host state endpoint_id does not match host.key"
      else do
        let services := state.ServiceSecrets.getD ∅
        let workspaceSecret := Secrets.get services "workspace-ui"
        let attach ← repairSecret draws.attach state.AttachSecret
        let service ← repairSecret draws.service workspaceSecret
        pure (⟨lochoHostStateSchemaVersion, state.EndpointID, attach,
            some (if validLochoHexSecret workspaceSecret then services
              else services.insert "workspace-ui" service)⟩,
          state.SchemaVersion != lochoHostStateSchemaVersion ||
            !validLochoHexSecret state.AttachSecret || state.ServiceSecrets.isNone ||
            !validLochoHexSecret workspaceSecret)

def writeLochoHostStateFile (calls : WriteCalls) (state : LochoPersistedHostState) :
    HostAction R Unit :=
  writePrivateFileAtomic calls (·.setState (codec.marshal state))

variable (calls : HostCalls R)

def validateLochoHostKeyFile : HostAction R String := do
  let w ← Prog.get
  match calls.lstatKey, w.dir.key.bind Entry.guarded with
  | false, some seed => do
      refuse "" calls.readKey
      if seed.length ≠ 32 then Prog.fail "locho-host key must be a 32-byte Ed25519 seed"
      else pure (codec.deriveLochoEndpointID seed)
  | _, _ => Prog.fail "locho-host key must be a regular file protected with mode 0600"

/-- The mode of a shared directory is corrected. -/
def secureStateDir : HostAction R Unit := do
  let w ← Prog.get
  if calls.lstatDir || !w.dir.directory then
    Prog.fail "locho-host state_dir must be a regular directory"
  else if w.dir.shared then do
    refuse "secure locho-host state_dir: " calls.secureDir
    Prog.write (HostWorld.mapDir StateDir.secured)
  else pure ()

def validateLochoHostStateDir : HostAction R Unit := do
  secureStateDir calls
  let endpointID ← validateLochoHostKeyFile codec calls
  let w ← Prog.get
  match calls.lstatState, w.dir.state.bind Entry.guarded with
  | false, some raw => do
      refuse "" calls.readState
      let (state, changed) ← Prog.lift (parseAndRepairLochoHostState codec calls.repair raw endpointID)
      if changed then writeLochoHostStateFile codec calls.writeState state else pure ()
  | _, _ => Prog.fail "locho-host state file must be a regular file protected with mode 0600"

/-- Takes the files of the target; a target that is not reached has none. -/
def pullTargetLochoHostState : HostAction R Bool := do
  let w ← Prog.get
  match w.target.key.bind Entry.regular, w.target.state.bind Entry.regular with
  | some seed, some raw =>
      if calls.unreachable then pure false
      else do
        refuse "" calls.readTarget
        if seed.length ≠ 32 then Prog.fail "target locho-host key has invalid length"
        else do
          let (state, _) ← Prog.lift (parseAndRepairLochoHostState codec calls.repair raw
            (codec.deriveLochoEndpointID seed))
          writePrivateFileAtomic calls.adoptKey (·.setKey seed)
          match ← Prog.attempt (writeLochoHostStateFile codec calls.adoptState state) with
          | .ok () => pure true
          | .error e => do
              removeKey calls.removeKey
              Prog.fail e
  | _, _ => pure false

/-- A new seed and new secrets. -/
def createLochoHostState : HostAction R Unit := do
  let seed ← labelled "generate locho-host key: " (Prog.lift calls.seed)
  let state ← Prog.lift (generateLochoHostState calls.fresh (codec.deriveLochoEndpointID seed.toList))
  refuse "create locho-host state directory: " calls.makeDir
  refuse "secure locho-host state directory: " calls.secureDir
  Prog.write (HostWorld.mapDir StateDir.secured)
  labelled "write locho-host key: " (writePrivateFileAtomic calls.writeKey (·.setKey seed.toList))
  match ← Prog.attempt (writeLochoHostStateFile codec calls.writeState state) with
  | .ok () => pure ()
  | .error e => do
      removeKey calls.removeKey
      Prog.fail ("write locho-host state: " ++ e)

/-- Secrets for a key that has none. -/
def completeLochoHostState : HostAction R Unit := do
  let endpointID ← validateLochoHostKeyFile codec calls
  let state ← Prog.lift (generateLochoHostState calls.fresh endpointID)
  writeLochoHostStateFile codec calls.writeState state

/-- Adopts the target's files, or makes new ones also when that failed. -/
def adoptOrCreate (deployment : Option Deployment) : HostAction R Unit := do
  let adopted ← match deployment with
    | none => pure (.ok false)
    | some _ => Prog.attempt (pullTargetLochoHostState codec calls)
  match adopted with
  | .ok true => pure ()
  | _ => createLochoHostState codec calls

structure HostConfig where
  LochoHostEnabled : Bool
  LochoHostStateDir : String

def ensureLochoHostState (deployment : Option Deployment) (config : HostConfig) :
    HostAction R Unit := do
  if !config.LochoHostEnabled then pure ()
  else do
    refuse "" calls.placed
    let w ← Prog.get
    match Stat.of calls.statKey w.dir.key, Stat.of calls.statState w.dir.state with
    | .found, .found => validateLochoHostStateDir codec calls
    | .failed e, _ => Prog.fail ("inspect locho-host key: " ++ e)
    | _, .failed e => Prog.fail ("inspect locho-host state: " ++ e)
    | .notExist, .found =>
        Prog.fail "locho-host state directory has host_state.json without host.key"
    | .found, .notExist => completeLochoHostState codec calls
    | .notExist, .notExist => adoptOrCreate codec calls deployment

/-- What an upload leaves at its destination. -/
def uploadFile {α : Type} (deployment : Deployment) (transfer : Transfer α)
    (source : Option (Entry α)) (put : Entry α → TargetFiles R → TargetFiles R) :
    HostAction R Unit :=
  -- both sources are files once `ensureLochoHostState` has answered
  match source.bind Entry.regular with
  | none => Prog.fail "read upload source: "
  | some contents =>
      match deployment, transfer with
      | _, .done => Prog.write (HostWorld.mapTarget (put (.file true contents)))
      | .Remote, .lost e => do
          Prog.write (HostWorld.mapTarget (put (.file true contents)))
          Prog.fail e
      | .Remote, .cut arrived e => do
          Prog.write (HostWorld.mapTarget (put (.file true arrived)))
          Prog.fail e
      | _, .refused e | .Local, .lost e | .Local, .cut _ e => Prog.fail e

def syncLochoHostState (deployment : Deployment) (config : HostConfig) : HostAction R Unit := do
  if !config.LochoHostEnabled then pure ()
  else do
    ensureLochoHostState codec calls (some deployment) config
    -- the default directory is written into an existing config
    refuse "save locho-host state_dir in config: "
      (if config.LochoHostStateDir = "" then calls.saveConfig else none)
    let w ← Prog.get
    labelled "upload locho-host key: "
      (uploadFile deployment calls.uploadKey w.dir.key fun e t => { t with key := some e })
    let w ← Prog.get
    labelled "upload locho-host state: "
      (uploadFile deployment calls.uploadState w.dir.state fun e t => { t with state := some e })

end Functions

/-! ## Runs -/

/-- One run of a command, with the number of its writes when it crashes. -/
inductive HostRun (R : Type) where
  | ensure (deployment : Option Deployment) (config : HostConfig) (calls : HostCalls R)
      (crash : Option Nat)
  | sync (deployment : Deployment) (config : HostConfig) (calls : HostCalls R)
      (crash : Option Nat)

def HostWorld.step {R : Type} (codec : HostCodec R) (w : HostWorld R) :
    HostRun R → Option (HostWorld R)
  | .ensure deployment config calls crash =>
      (ensureLochoHostState codec calls deployment config).halt w crash
  | .sync deployment config calls crash =>
      (syncLochoHostState codec calls deployment config).halt w crash

def HostWorld.next {R : Type} (codec : HostCodec R) (w : HostWorld R) (a : HostRun R)
    (w' : HostWorld R) : Prop :=
  w.step codec a = some w'

end Openlia.Cli

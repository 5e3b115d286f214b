import Mathlib.Data.Fintype.Defs
import Mathlib.Data.Fintype.Pi
import Mathlib.Logic.Function.Basic
import Mathlib.Tactic.Common
import Openlia.Lib.JsonText
import Openlia.Lib.Meter

/-! # Usage events and checkpoints

The collector turns the cumulative counters of Hermes into events. It keeps for
each row of Hermes a checkpoint with the highest counters it has recorded, and
records of a row what grew over them. The migration runner writes reports of the
same rows, which the collector imports with the same checkpoints. Costs are
numbers of an ordered group; digests are values of a type of their own.
-/

namespace Openlia.Usage

open Lib

inductive Token where
  | input_tokens | output_tokens | cache_read_tokens | cache_write_tokens | reasoning_tokens
deriving DecidableEq

instance : Fintype Token where
  elems :=
    {.input_tokens, .output_tokens, .cache_read_tokens, .cache_write_tokens, .reasoning_tokens}
  complete k := by cases k <;> simp

abbrev Tokens := Token → Nat

inductive Activity where
  | hermes | ingestion | migration
deriving DecidableEq

def parseActivity : String → Option Activity
  | "hermes" => some .hermes
  | "ingestion" => some .ingestion
  | "migration" => some .migration
  | _ => none

/-- `max(0, int(value or 0))` of each counter. -/
def counters (value : Token → Option Int) : Tokens := fun k => ((value k).getD 0).toNat

/-- The high-water marks of a checkpoint. -/
structure Marks (C : Type) where
  tokens : Tokens
  cost : C
  provider_cost : C
deriving DecidableEq

/-- A checkpoint of a row is under a digest, one of a report without a row under
`report:` and its id. -/
inductive CheckpointId (D : Type) where
  | digest (d : D)
  | report (id : String)
deriving DecidableEq

/-- The id of an event of a checkpoint is the checkpoint, a colon and a digest of
the marks. -/
inductive EventId (D : Type) where
  | plain (id : String)
  | marks (checkpoint : CheckpointId D) (digest : D)
deriving DecidableEq

structure UsageEvent (C D : Type) where
  id : EventId D
  activity : Activity
  provider : String
  model : String
  timestamp : Nat
  historical : Bool
  reference : String
  tokens : Option Tokens
  complete : Bool
  fallback_cost : Option C
  provider_cost : Option C

/-- A row of `session_model_usage` with the source of its session. -/
structure UsageRow (C : Type) where
  session_id : Option String
  model : Option String
  billing_provider : Option String
  billing_base_url : Option String
  billing_mode : Option String
  task : Option String
  tokens : Token → Option Int
  estimated_cost_usd : Option C
  cost_status : Option String
  actual_cost_usd : Option C
  first_seen : Option Nat
  session_source : Option String

/-- A report file. -/
structure UsageReport (C D : Type) where
  id : String
  cumulative : Bool
  activity : String
  provider : String
  model : String
  timestamp : Nat
  reference : String
  tokens : Token → Option Int
  complete : Bool
  fallback_cost : Option C
  provider_cost : Option C
  source_checkpoint : Option D

structure UsageDb (C D : Type) where
  started_at : Nat
  ingestion_ownership_since : Option Nat
  checkpoints : CheckpointId D → Option (Marks C)
  events : List (UsageEvent C D)

/-- SHA-256 and its hexadecimal digits, and the digest of the text that
`json.dumps` gives for marks; numbers of one value have one text. -/
structure UsageEnv (C D : Type) where
  sha256 : List Char → D
  sha256_injective : Function.Injective sha256
  hex : D → String
  marksDigest : Marks C → D
  marksDigest_injective : Function.Injective marksDigest

/-! ## The identity of a row -/

/-- The six strings that name a row. -/
structure RowKey where
  session : String
  model : String
  provider : String
  base : String
  mode : String
  task : String
deriving DecidableEq

def RowKey.values (v : RowKey) : List String :=
  [v.session, v.model, v.provider, v.base, v.mode, v.task]

def listText (separator : List Char) (items : List (List Char)) : List Char :=
  '[' :: (List.intercalate separator items ++ [']'])

/-- A list of strings in JSON, without blanks. -/
def identityText (code : CharCode) (v : RowKey) : List Char :=
  listText [','] (v.values.map fun s => quoteWith code s.toList)

/-- The line and the paragraph separator. -/
def isLineSeparator (c : Char) : Bool := c.toNat == 0x2028 || c.toNat == 0x2029

/-- The encoder of Go without its HTML escapes. -/
def goEscape : CharCode := escapeWith fun c => isControl c || isLineSeparator c

/-- The encoder of Go. -/
def goHtmlEscape : CharCode :=
  escapeWith fun c => isControl c || isLineSeparator c || c == '<' || c == '>' || c == '&'

variable {C D : Type}

namespace UsageRow

def rawValues (row : UsageRow C) : List (Option String) :=
  [row.session_id, row.model, row.billing_provider, row.billing_base_url, row.billing_mode,
    row.task]

/-- `row.get(k) or ""`. -/
def key (row : UsageRow C) : RowKey where
  session := row.session_id.getD ""
  model := row.model.getD ""
  provider := row.billing_provider.getD ""
  base := row.billing_base_url.getD ""
  mode := row.billing_mode.getD ""
  task := row.task.getD ""

/-- `json.dumps` of the six values. -/
def legacyText (row : UsageRow C) : List Char :=
  listText [',', ' '] (row.rawValues.map fun s =>
    match s with
    | none => ['n', 'u', 'l', 'l']
    | some s => quoteWith asciiEscape s.toList)

end UsageRow

namespace UsageEnv

def source_key (env : UsageEnv C D) (v : RowKey) : D := env.sha256 (identityText stdEscape v)

/-- The checkpoint of a row in a report of the runner. -/
def source_checkpoint (env : UsageEnv C D) (v : RowKey) : D := env.sha256 (identityText goEscape v)

def legacy_key (env : UsageEnv C D) (row : UsageRow C) : D := env.sha256 row.legacyText

end UsageEnv

/-! ## Events -/

section Import

variable [LinearOrder C] [AddCommGroup C] [DecidableEq D]

def Marks.zero : Marks C := ⟨fun _ => 0, 0, 0⟩

def orUnknown (s : String) : String := if s = "" then "unknown" else s

def clip (n : Nat) (s : String) : String := String.ofList (s.toList.take n)

/-- An event as it is stored; a negative cost is none. -/
def UsageEvent.stored (report : UsageEvent C D) : UsageEvent C D :=
  { report with
    provider := clip 256 (orUnknown report.provider)
    model := clip 256 (orUnknown report.model)
    reference := clip 512 report.reference
    fallback_cost := report.fallback_cost.filter fun cost => 0 ≤ cost
    provider_cost := report.provider_cost.filter fun cost => 0 ≤ cost }

/-- `INSERT OR IGNORE`. -/
def UsageDb.insertEvent (db : UsageDb C D) (report : UsageEvent C D) : UsageDb C D :=
  if db.events.any fun e => e.id = report.id then db
  else { db with events := db.events ++ [report.stored] }

/-- `INSERT OR REPLACE INTO usage_checkpoints`. -/
def UsageDb.checkpoint (db : UsageDb C D) (key : CheckpointId D) (high : Marks C) : UsageDb C D :=
  { db with checkpoints := Function.update db.checkpoints key (some high) }

def highTokens (current previous : Tokens) : Tokens := fun k => max (current k) (previous k)

def deltaTokens (current previous : Tokens) : Tokens := fun k => current k - previous k

def ingestionTasks : List String := ["openlia_ingestion_ocr", "openlia_document_tagger"]

def acceptedStatuses : List String := ["estimated", "actual", "included"]

namespace UsageRow

def ingestion (row : UsageRow C) : Bool := row.task.any fun t => decide (t ∈ ingestionTasks)

/-- `max(0, float(row.get("estimated_cost_usd") or 0))`. -/
def cost (row : UsageRow C) : C := max 0 (row.estimated_cost_usd.getD 0)

def accepted (row : UsageRow C) : Bool :=
  row.cost_status.any fun s => decide (s ∈ acceptedStatuses)

/-- The checkpoint of a row, also one of an earlier release. -/
def old (env : UsageEnv C D) (db : UsageDb C D) (row : UsageRow C) : Option (Marks C) :=
  (db.checkpoints (.digest (env.source_key row.key))).or
    (db.checkpoints (.digest (env.legacy_key row)))

def previous (env : UsageEnv C D) (db : UsageDb C D) (row : UsageRow C) : Marks C :=
  (row.old env db).getD .zero

def high (env : UsageEnv C D) (db : UsageDb C D) (row : UsageRow C) : Marks C where
  tokens := highTokens (counters row.tokens) (row.previous env db).tokens
  cost := max row.cost (row.previous env db).cost
  provider_cost := max (row.actual_cost_usd.getD 0) (row.previous env db).provider_cost

/-- A row that an earlier release recorded without checkpoints. -/
def baselined (env : UsageEnv C D) (db : UsageDb C D) (row : UsageRow C) : Bool :=
  row.ingestion && (row.old env db).isNone &&
    db.ingestion_ownership_since.any fun since => decide (row.first_seen.getD 0 < since)

/-- Something of the row is above its marks. -/
def Grown (env : UsageEnv C D) (db : UsageDb C D) (row : UsageRow C) : Prop :=
  (∃ k, (row.previous env db).tokens k < counters row.tokens k) ∨
    (row.previous env db).cost < row.cost ∨
      (row.previous env db).provider_cost < (row.high env db).provider_cost

instance (env : UsageEnv C D) (db : UsageDb C D) (row : UsageRow C) :
    Decidable (row.Grown env db) :=
  inferInstanceAs (Decidable (_ ∨ _ ∨ _))

/-- `openlia-migration:` and a reference. -/
def migrationReference (row : UsageRow C) : Option String :=
  (row.session_source.getD "").toList.dropPrefix? "openlia-migration:".toList |>.map String.ofList

def event (env : UsageEnv C D) (now : Nat) (db : UsageDb C D) (row : UsageRow C) :
    UsageEvent C D where
  id := .marks (.digest (env.source_key row.key)) (env.marksDigest (row.high env db))
  activity :=
    if row.ingestion then .ingestion
    else if row.session_source = some "openlia-migration" ∨ row.migrationReference.isSome then
      .migration
    else .hermes
  provider := row.billing_provider.getD ""
  model := row.model.getD ""
  timestamp := now
  historical := (row.old env db).isNone && decide (row.first_seen.getD 0 < db.started_at)
  reference := row.migrationReference.getD (row.session_id.getD "")
  tokens := some (deltaTokens (counters row.tokens) (row.previous env db).tokens)
  complete := true
  fallback_cost :=
    if row.accepted then some (max 0 (row.cost - (row.previous env db).cost)) else none
  provider_cost :=
    row.actual_cost_usd.map fun actual => max 0 (actual - (row.previous env db).provider_cost)

/-- The event statement for a row, if there is one. -/
def importEvent (env : UsageEnv C D) (now : Nat) (db : UsageDb C D) (row : UsageRow C) :
    UsageDb C D :=
  if ¬ row.baselined env db ∧ row.Grown env db then db.insertEvent (row.event env now db) else db

/-- The event statement and the checkpoint statement. -/
def importRow (env : UsageEnv C D) (now : Nat) (db : UsageDb C D) (row : UsageRow C) :
    UsageDb C D :=
  (row.importEvent env now db).checkpoint (.digest (env.source_key row.key)) (row.high env db)

end UsageRow

/-- Where the import of the rows stopped with an exception: at the row before its
event, or between its event and its checkpoint. -/
inductive Failure (C : Type) where
  | event (row : UsageRow C)
  | checkpoint (row : UsageRow C)

def importRows (env : UsageEnv C D) (now : Nat) (db : UsageDb C D) (rows : List (UsageRow C)) :
    UsageDb C D :=
  rows.foldl (fun db row => row.importRow env now db) db

/-- What a tick commits of the rows it reads; an exception is noted and what was
done before it is committed. -/
def import_hermes (env : UsageEnv C D) (now : Nat) (db : UsageDb C D) (rows : List (UsageRow C)) :
    Option (Failure C) → UsageDb C D
  | none | some (.event _) => importRows env now db rows
  | some (.checkpoint row) => row.importEvent env now (importRows env now db rows)

namespace UsageReport

def key (report : UsageReport C D) : CheckpointId D :=
  match report.source_checkpoint with
  | some shared => .digest shared
  | none => .report report.id

def previous (db : UsageDb C D) (report : UsageReport C D) : Marks C :=
  (db.checkpoints report.key).getD .zero

def high (db : UsageDb C D) (report : UsageReport C D) : Marks C where
  tokens := highTokens (counters report.tokens) (report.previous db).tokens
  cost := max (report.fallback_cost.getD 0) (report.previous db).cost
  provider_cost := max (report.provider_cost.getD 0) (report.previous db).provider_cost

def Grown (db : UsageDb C D) (report : UsageReport C D) : Prop :=
  (∃ k, (report.previous db).tokens k < counters report.tokens k) ∨
    (report.previous db).cost < report.fallback_cost.getD 0 ∨
      (report.previous db).provider_cost < report.provider_cost.getD 0

instance (db : UsageDb C D) (report : UsageReport C D) : Decidable (report.Grown db) :=
  inferInstanceAs (Decidable (_ ∨ _ ∨ _))

def event (env : UsageEnv C D) (db : UsageDb C D) (report : UsageReport C D)
    (activity : Activity) : UsageEvent C D where
  id := .marks report.key (env.marksDigest (report.high db))
  activity := activity
  provider := report.provider
  model := report.model
  timestamp := report.timestamp
  historical := false
  reference := report.reference
  tokens := some (deltaTokens (counters report.tokens) (report.previous db).tokens)
  complete := report.complete
  fallback_cost := report.fallback_cost.map fun cost => max 0 (cost - (report.previous db).cost)
  provider_cost :=
    report.provider_cost.map fun actual => max 0 (actual - (report.previous db).provider_cost)

def plainEvent (report : UsageReport C D) (activity : Activity) : UsageEvent C D where
  id := .plain (clip 512 report.id)
  activity := activity
  provider := report.provider
  model := report.model
  timestamp := report.timestamp
  historical := false
  reference := report.reference
  tokens := some (counters report.tokens)
  complete := report.complete
  fallback_cost := report.fallback_cost
  provider_cost := report.provider_cost

/-- The import of a report up to its commit; none when the activity is invalid. -/
def importReport (env : UsageEnv C D) (db : UsageDb C D) (report : UsageReport C D) :
    Option (UsageDb C D) :=
  if report.cumulative then
    if report.Grown db then
      (parseActivity report.activity).map fun activity =>
        (db.insertEvent (report.event env db activity)).checkpoint report.key (report.high db)
    else some (db.checkpoint report.key (report.high db))
  else
    (parseActivity report.activity).map fun activity =>
      db.insertEvent (report.plainEvent activity)

end UsageReport

end Import

/-! ## The reports of the runner -/

/-- The report of a row of a shared home. A row with a value that is missing ends
the export. -/
def recordSharedRuntimeUsage (env : UsageEnv C D) (path reference : String) (timestamp : Nat)
    (row : UsageRow C) : Option (UsageReport C D) := do
  let session ← row.session_id
  let model ← row.model
  let provider ← row.billing_provider
  let base ← row.billing_base_url
  let mode ← row.billing_mode
  let task ← row.task
  let input ← row.tokens .input_tokens
  let output ← row.tokens .output_tokens
  let read ← row.tokens .cache_read_tokens
  let write ← row.tokens .cache_write_tokens
  let reasoning ← row.tokens .reasoning_tokens
  let identity := listText [','] ([path, session, model, provider, base, mode, task].map
    fun s => quoteWith goHtmlEscape s.toList)
  return {
    id := "migration:" ++ env.hex (env.sha256 identity)
    cumulative := true
    activity := "migration"
    provider := provider
    model := model
    timestamp := timestamp
    reference := reference
    tokens := fun
      | .input_tokens => some input
      | .output_tokens => some output
      | .cache_read_tokens => some read
      | .cache_write_tokens => some write
      | .reasoning_tokens => some reasoning
    complete := true
    fallback_cost :=
      if row.cost_status.any fun s => decide (s ∈ acceptedStatuses) then row.estimated_cost_usd
      else none
    provider_cost := row.actual_cost_usd
    source_checkpoint := some (env.source_checkpoint ⟨session, model, provider, base, mode, task⟩) }

end Openlia.Usage

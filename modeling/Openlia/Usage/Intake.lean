import Openlia.Lib.Retry
import Openlia.Usage.Values

/-! # What a tick imports

A tick tries the report files that the directory lists first and then reads the rows of Hermes.
A report is imported in one transaction, and its file is removed afterwards.
-/

namespace Openlia.Usage.Intake

open Lib Lib.Retry

variable {F : Type}

/-- `str` of what is no text, and the digests of SHA-256 in hexadecimal. -/
structure Env (F : Type) extends Floats F where
  repr : Value F → Str
  digest : Marks (Num F) → Str
  source_key : List (Value F) → Str
  legacy_key : List (Value F) → Str
  encodable_digest : ∀ high, encodable (digest high) = true
  encodable_source_key : ∀ values, encodable (source_key values) = true

structure Event (F : Type) where
  id : Str
  activity : Activity
  provider : Str
  model : Str
  timestamp : F
  historical : Bool
  reference : Str
  tokens : Option Tokens
  complete : Bool
  fallback_cost : Option F
  provider_cost : Option F

structure Db (F : Type) where
  started_at : F
  ingestion_ownership_since : Option F
  checkpoints : Str → Option (Marks (Num F))
  events : List (Event F)

namespace Db

/-- `INSERT OR REPLACE INTO usage_checkpoints` -/
def checkpoint (db : Db F) (key : Str) (high : Marks (Num F)) : Db F :=
  { db with checkpoints := Function.update db.checkpoints key (some high) }

/-- `INSERT OR IGNORE INTO usage_events`. A timestamp of `NaN` is `NULL`, which the column refuses,
so that the event is ignored. -/
def insert (fl : Floats F) (db : Db F) (e : Event F) : Except Exn (Db F) :=
  if encodable e.id ∧ encodable e.provider ∧ encodable e.model ∧ encodable e.reference then
    .ok (if fl.isNaN e.timestamp ∨ db.events.any (fun e' => e'.id = e.id) then db
      else { db with events := db.events ++ [e] })
  else .error .value

end Db

/-! ## Events -/

def tokenName : Token → String
  | .input_tokens => "input_tokens"
  | .output_tokens => "output_tokens"
  | .cache_read_tokens => "cache_read_tokens"
  | .cache_write_tokens => "cache_write_tokens"
  | .reasoning_tokens => "reasoning_tokens"

/-- `max(0, int(value.get(key) or 0))` -/
def counter (fl : Floats F) (d : Dict F) (k : Token) : Except Exn Nat := do
  let n ← ((d.get (tokenName k)).orElse fl .zero).toInt fl
  return n.toNat

/-- What is no object has no `get`. -/
def counters (fl : Floats F) : Value F → Except Exn Tokens
  | .dict d => do
      let input ← counter fl d .input_tokens
      let output ← counter fl d .output_tokens
      let read ← counter fl d .cache_read_tokens
      let write ← counter fl d .cache_write_tokens
      let reasoning ← counter fl d .reasoning_tokens
      return fun
        | .input_tokens => input
        | .output_tokens => output
        | .cache_read_tokens => read
        | .cache_write_tokens => write
        | .reasoning_tokens => reasoning
  | _ => .error .attribute

def tokensValue (tokens : Tokens) : Value F :=
  .dict ([Token.input_tokens, .output_tokens, .cache_read_tokens, .cache_write_tokens,
    .reasoning_tokens].map fun k => (lit (tokenName k), .num (.int (tokens k))))

def activityOf : Value F → Option Activity
  | .str s =>
      if s = lit "hermes" then some .hermes
      else if s = lit "ingestion" then some .ingestion
      else if s = lit "migration" then some .migration
      else none
  | _ => none

/-- A cost that is negative or not finite is none. -/
def costOf (fl : Floats F) : Value F → Except Exn (Option F)
  | .null => .ok none
  | v => do
      let x ← v.toFloat fl
      return if fl.finite x = false ∨ fl.ltInt x 0 then none else some x

def strOf (env : Env F) : Value F → Str
  | .str s => s
  | v => env.repr v

/-- None is written as `{}`. -/
def reportTokens (fl : Floats F) (report : Dict F) : Except Exn (Option Tokens) :=
  if (report.get "tokens").truthy fl then some <$> counters fl (report.get "tokens") else .ok none

def insert_event (env : Env F) (now : F) (db : Db F) (report : Dict F) : Except Exn (Db F) := do
  let fl := env.toFloats
  let activity ← orRaise .value (activityOf (report.get "activity"))
  let fallback_cost ← costOf fl (report.get "fallback_cost")
  let provider_cost ← costOf fl (report.get "provider_cost")
  let id ← orRaise .key (report.lookup (lit "id"))
  let timestamp ← ((report.get "timestamp").orElse fl (.num (.float now))).toFloat fl
  let tokens ← reportTokens fl report
  db.insert fl {
    id := (strOf env id).take 512
    activity := activity
    provider := (strOf env ((report.get "provider").orElse fl (.str (lit "unknown")))).take 256
    model := (strOf env ((report.get "model").orElse fl (.str (lit "unknown")))).take 256
    timestamp := timestamp
    historical := (report.get "historical").truthy fl
    reference := (strOf env ((report.get "reference").orElse fl (.str []))).take 512
    tokens := tokens
    complete := (report.get "complete").truthy fl
    fallback_cost := fallback_cost
    provider_cost := provider_cost }

/-! ## Reports -/

def noMarks : Marks (Num F) := ⟨fun _ => 0, .int 0, .int 0⟩

def isHexDigit (c : Nat) : Bool := lit "0123456789abcdef" |>.elem c

/-- The digest of a row, if the report names one, or else the report itself. -/
def reportKey (env : Env F) (report : Dict F) : Except Exn Str :=
  let own := do
    let id ← orRaise .key (report.lookup (lit "id"))
    return lit "report:" ++ strOf env id
  match report.get "source_checkpoint" with
  | .str shared => if shared.length = 64 ∧ shared.all isHexDigit then .ok shared else own
  | _ => own

/-- `max(0, cost - previous)`, and nothing for no cost. -/
def costOver (fl : Floats F) (previous : Num F) : Value F → Except Exn (Value F)
  | .null => .ok .null
  | v => do
      let cost ← v.number
      let rest ← cost.sub fl previous
      return .num ((Num.int 0).max fl rest)

def grown (fl : Floats F) (previous : Marks (Num F)) (current : Tokens) (cost actual : Num F) :
    Prop :=
  (∃ k, previous.tokens k < current k) ∨ previous.cost.lt fl cost ∨
    previous.provider_cost.lt fl actual

instance (fl : Floats F) (previous : Marks (Num F)) (current : Tokens) (cost actual : Num F) :
    Decidable (grown fl previous current cost actual) :=
  inferInstanceAs (Decidable (_ ∨ _ ∨ _))

/-- The highest counters and costs so far. -/
def highMarks (fl : Floats F) (previous : Marks (Num F)) (current : Tokens) (cost actual : Num F) :
    Marks (Num F) :=
  ⟨highTokens current previous.tokens, cost.max fl previous.cost,
    actual.max fl previous.provider_cost⟩

/-- `SELECT counters FROM usage_checkpoints`; the key is bound as text. -/
def storedMarks (db : Db F) (key : Str) : Except Exn (Option (Marks (Num F))) :=
  if encodable key then .ok (db.checkpoints key) else .error .value

/-- The report with what is above the marks, under an id of the new marks. -/
def insertGrown (env : Env F) (now : F) (db : Db F) (report : Dict F) (key : Str)
    (previous : Marks (Num F)) (current : Tokens) (cost actual : Num F)
    (fallback_cost provider_cost : Value F) : Except Exn (Db F) :=
  let fl := env.toFloats
  if grown fl previous current cost actual then
    insert_event env now db
      ((((report.set "tokens" (tokensValue (deltaTokens current previous.tokens))).set
        "fallback_cost" fallback_cost).set "provider_cost" provider_cost).set "id"
          (.str (key ++ lit ":" ++ env.digest (highMarks fl previous current cost actual))))
  else .ok db

def importCumulative (env : Env F) (now : F) (db : Db F) (report : Dict F) :
    Except Exn (Db F) := do
  let fl := env.toFloats
  let key ← reportKey env report
  let old ← storedMarks db key
  let previous := old.getD noMarks
  let current ← counters fl ((report.get "tokens").orElse fl (.dict []))
  let cost ← ((report.get "fallback_cost").orElse fl .zero).number
  let actual ← ((report.get "provider_cost").orElse fl .zero).number
  let fallback_cost ← costOver fl previous.cost (report.get "fallback_cost")
  let provider_cost ← costOver fl previous.provider_cost (report.get "provider_cost")
  let db ← insertGrown env now db report key previous current cost actual fallback_cost
    provider_cost
  return db.checkpoint key (highMarks fl previous current cost actual)

/-- What is done with a report before the commit. -/
def importReport (env : Env F) (now : F) (db : Db F) : Value F → Except Exn (Db F)
  | .dict report =>
      if (Dict.get report "cumulative").truthy env.toFloats then importCumulative env now db report
      else insert_event env now db report
  | _ => .error .value

/-- `loaded` is what reading and `json.loads` give. -/
structure File (F : Type) where
  name : String
  symlink : Bool
  size : Nat
  loaded : Except Exn (Value F)

/-- After an exception the transaction is rolled back. -/
def importFile (env : Env F) (now : F) (db : Db F) (file : File F) : Outcome (Db F) :=
  if file.symlink ∨ 65536 < file.size then .refused
  else
    match file.loaded >>= importReport env now db with
    | .ok db' => .done db'
    | .error e => if e.caught then .refused else .escaped

/-! ## The rows of Hermes -/

def rowColumns : List String :=
  ["session_id", "model", "billing_provider", "billing_base_url", "billing_mode", "task"]

/-- `json.dumps` knows no bytes. -/
def rowValues (row : Dict F) : Except Exn (List (Value F)) :=
  let values := rowColumns.map row.get
  if values.any fun v => v matches .bytes _ then .error .type else .ok values

def isIngestion (row : Dict F) : Bool :=
  match row.get "task" with
  | .str s => s ∈ ingestionTasks.map lit
  | _ => false

def isAccepted (row : Dict F) : Bool :=
  match row.get "cost_status" with
  | .str s => s ∈ acceptedStatuses.map lit
  | _ => false

/-- Whether the row was first seen before; what is not asked for is not converted. -/
def seenBefore (fl : Floats F) (row : Dict F) (asked : Bool) (since : F) : Except Exn Bool :=
  if asked then do
    let first ← ((row.get "first_seen").orElse fl .zero).toFloat fl
    return fl.lt first since
  else .ok false

/-- The source of the session, which has to be a text. -/
def sessionSource (fl : Floats F) (row : Dict F) : Except Exn Str :=
  match (row.get "session_source").orElse fl (.str []) with
  | .str s => .ok s
  | .bytes _ => .error .type
  | _ => .error .attribute

/-- What the provider charged above the mark, if it charged. -/
def actualOver (fl : Floats F) (previous : Num F) : Value F → Except Exn (Value F)
  | .null => .ok .null
  | v => do
      let x ← v.toFloat fl
      costOver fl previous (.num (.float x))

/-- The event of a row that has grown. -/
def rowEvent (env : Env F) (now : F) (db : Db F) (row : Dict F) (key : Str)
    (old : Option (Marks (Num F))) (current : Tokens) (cost actual : Num F) :
    Except Exn (Db F) := do
  let fl := env.toFloats
  let previous := old.getD noMarks
  let historical ← seenBefore fl row old.isNone db.started_at
  let source ← sessionSource fl row
  let migrated := source.dropPrefix? (lit "openlia-migration:")
  let activity := if isIngestion row then "ingestion"
    else if source = lit "openlia-migration" ∨ migrated.isSome then "migration" else "hermes"
  let provider_cost ← actualOver fl previous.provider_cost (row.get "actual_cost_usd")
  let fallback_cost ← costOver fl previous.cost (if isAccepted row then .num cost else .null)
  insert_event env now db [
    (lit "id", .str (key ++ lit ":" ++ env.digest (highMarks fl previous current cost actual))),
    (lit "activity", .str (lit activity)),
    (lit "provider", row.get "billing_provider"),
    (lit "model", row.get "model"),
    (lit "timestamp", .num (.float now)),
    (lit "historical", .num (.bool historical)),
    (lit "reference", (migrated.map Value.str).getD (row.get "session_id")),
    (lit "tokens", tokensValue (deltaTokens current previous.tokens)),
    (lit "complete", .num (.bool true)),
    (lit "provider_cost", provider_cost),
    (lit "fallback_cost", fallback_cost)]

def importRow (env : Env F) (now : F) (db : Db F) (row : Dict F) : Except Exn (Db F) := do
  let fl := env.toFloats
  let values ← rowValues row
  let key := env.source_key (values.map (·.orElse fl (.str [])))
  let old := (db.checkpoints key).or (db.checkpoints (env.legacy_key values))
  let current ← counters fl (.dict row)
  let estimated ← ((row.get "estimated_cost_usd").orElse fl .zero).toFloat fl
  let actual ← ((row.get "actual_cost_usd").orElse fl .zero).toFloat fl
  let cost := (Num.int 0).max fl (.float estimated)
  let baselined ← seenBefore fl row
    (isIngestion row && old.isNone && db.ingestion_ownership_since.isSome)
    (db.ingestion_ownership_since.getD db.started_at)
  let db ← (if ¬ baselined ∧ grown fl (old.getD noMarks) current cost (.float actual) then
      rowEvent env now db row key old current cost (.float actual)
    else .ok db)
  return db.checkpoint key (highMarks fl (old.getD noMarks) current cost (.float actual))

/-- An exception ends the loop; the rows before it stay imported. -/
def importRows (env : Env F) (now : F) (db : Db F) : List (Dict F) → Db F
  | [] => db
  | row :: rest =>
      match importRow env now db row with
      | .ok db' => importRows env now db' rest
      | .error _ => db

/-- The rows are those of the table, the last seen first, unless the query fails. -/
def import_hermes (env : Env F) (now : F) (db : Db F) (rows : Except Exn (List (Dict F))) : Db F :=
  match rows with
  | .error _ => db
  | .ok rows => importRows env now db (rows.take 10000)

/-! ## Ticks -/

structure State (F : Type) where
  db : Db F
  files : List (File F)

/-- An exception that is not caught ends the tick before the rows of Hermes. -/
def tick (env : Env F) (now : F) (rows : Except Exn (List (Dict F))) (db : Db F)
    (listing : List (File F)) : State F :=
  let r := sweep (importFile env now) db (listing.take 1000)
  { db := if r.2.2 then import_hermes env now r.1 rows else r.1
    files := r.2.1 ++ listing.drop 1000 }

/-- Each tick has its time and finds the files in an order of its own. -/
inductive Ticks (env : Env F) (rows : Except Exn (List (Dict F))) :
    Nat → State F → State F → Prop where
  | none (s : State F) : Ticks env rows 0 s s
  | more {n : Nat} {s s' : State F} (now : F) {listing : List (File F)} :
      env.isNaN now = false → Ticks env rows n s s' → listing.Perm s'.files →
        Ticks env rows (n + 1) s (tick env now rows s'.db listing)

end Openlia.Usage.Intake

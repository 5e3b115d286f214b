import Openlia.Browser.ToolCalls
import Openlia.Lib.RunService
import Openlia.Lib.Table

/-! # Chat requests

The chat service keeps one row for each retry identity it has seen, and Hermes
keeps the runs. A request to run goes through up to three awaits, and between
them any other request, an answer of Hermes or a restart may come. A handler is
the rest of a request at the await it waits at. What Hermes does with the runs
it is sent, and what it has told the service of them, is part of the state.
-/

namespace Openlia.Chat

open Lib Json Browser

structure ChatError where
  status : Nat
  message : String
deriving DecidableEq

structure StoredChatRequest where
  key : String
  request_id : Nat
  session_id : String
  fingerprint : String
  run_id : Option String
  status : Option String
  retry_until : Nat
  submitted_at : Option Nat
  status_observed_at : Option Nat
deriving DecidableEq

/-- A run as the service answers with it. -/
structure ChatRun where
  request_id : Option String
  run_id : String
  session_id : Option String
  status : Option String
  status_source : Option String
  submitted_at : Option Nat
  status_observed_at : Option Nat

def terminalChatStatuses : List String :=
  ["completed", "failed", "cancelled", "interrupted", "unknown", "rejected"]

/-- The statuses that a query for an active run leaves out. -/
def endedStatuses : List String := ["completed", "failed", "cancelled", "interrupted", "rejected"]

def recordedRun (row : StoredChatRequest) : ChatRun where
  request_id := some s!"request-{row.request_id}"
  run_id := row.run_id.getD ""
  session_id := some row.session_id
  status :=
    if row.run_id.getD "" ≠ "" then some (row.status.getD "unknown")
    else if row.status = some "rejected" then some "rejected" else some "unknown"
  status_source :=
    if row.run_id.getD "" = "" ∧ row.status ≠ some "rejected" then some "unconfirmed"
    else some "recorded"
  submitted_at := row.submitted_at
  status_observed_at := row.status_observed_at

/-- An empty string counts as none. -/
def truthy (value : Option String) : Option String := value.filter fun s => s ≠ ""

/-! ## The store -/

structure ChatStore where
  chat_sessions : List (String × String)
  chat_requests : Table StoredChatRequest String StoredChatRequest.key

namespace ChatStore

def owned (db : ChatStore) (id : String) : Bool := (db.chat_sessions.lookup id).isSome

def rootId (db : ChatStore) (id : String) : String := (db.chat_sessions.lookup id).getD id

def register (db : ChatStore) (id root : String) : ChatStore :=
  if db.owned id then db
  else { db with chat_sessions := db.chat_sessions ++ [(id, db.rootId root)] }

/-- `session_id IN (SELECT id FROM chat_sessions WHERE root_id = ?)`. -/
def inConversation (db : ChatStore) (root : String) (row : StoredChatRequest) : Bool :=
  decide (db.chat_sessions.lookup row.session_id = some root)

/-- `status NOT IN (...)`, which is not true of NULL. -/
def notEnded (row : StoredChatRequest) : Bool :=
  row.status.any fun st => decide (st ∉ endedStatuses)

/-- The latest request of the conversation that may still run. -/
def previous (db : ChatStore) (id : String) : Option StoredChatRequest :=
  db.chat_requests.rows.reverse.find? fun row =>
    db.inConversation (db.rootId id) row && notEnded row

def conflicting (db : ChatStore) (id key : String) : Option StoredChatRequest :=
  db.chat_requests.rows.find? fun row =>
    db.inConversation (db.rootId id) row && row.key != key && (row.status.isNone || notEnded row)

/-- `INSERT OR IGNORE`. -/
def insertRequest (db : ChatStore) (row : StoredChatRequest) : ChatStore :=
  { db with chat_requests := (db.chat_requests.insert row).getD db.chat_requests }

def recordStatus (db : ChatStore) (now : Nat) (runId : String) (status : Option String) :
    ChatStore :=
  { db with
    chat_requests := db.chat_requests.update (fun row => row.run_id = some runId)
      (fun row => { row with status, status_observed_at := some now }) fun _ => rfl }

def recordRefusal (db : ChatStore) (now : Nat) (key : String) : ChatStore :=
  { db with
    chat_requests := db.chat_requests.update (fun row => row.key = key)
      (fun row => { row with status := some "rejected", status_observed_at := some now })
      fun _ => rfl }

def recordRun (db : ChatStore) (now : Nat) (key runId : String) (status : Option String) :
    ChatStore :=
  { db with
    chat_requests := db.chat_requests.update (fun row => row.key = key)
      (fun row => { row with run_id := some runId, status, status_observed_at := some now })
      fun _ => rfl }

end ChatStore

/-! ## What is outside the service -/

def upstreamTimeout : Nat := 20000

structure RunBody where
  session_id : String
  input : String
  model : Option String
deriving DecidableEq

/-- The key of the service at Hermes, the hash, and the retention that Hermes
advertises, by which it keeps the `Idempotency-Key` of a run. -/
structure ChatEnv where
  key : String
  sha256 : List Char → String
  sha256_injective : Function.Injective sha256
  retention_seconds : Nat

/-- `JSON.stringify` of a list of strings. -/
def stringify (xs : List String) : List Char := '[' :: (joinComma (xs.map quote) ++ [']'])

def ChatEnv.fingerprint (env : ChatEnv) (id input model : String) : String :=
  env.sha256 (stringify [id, input, model, env.key])

def ChatEnv.retention (env : ChatEnv) : Nat := env.retention_seconds * 1000

structure RunsIdempotency where
  supported : Bool
  durable : Bool

/-- The fields of a run that the service reads. -/
structure HermesRun where
  run_id : String
  session_id : Option String
  status : Option String

/-- The status of a run, and the session in which it goes on. -/
def ChatStore.observe (db : ChatStore) (now : Nat) (runId : String) (row : StoredChatRequest)
    (run : HermesRun) : ChatStore :=
  let db := db.recordStatus now runId run.status
  match truthy run.session_id with
  | none => db
  | some id => db.register id row.session_id

/-- How a call of Hermes ends; `status` is a status that is not `ok`. -/
inductive Upstream (α : Type) where
  | ok (value : α)
  | status (code : Nat)
  | unavailable
  | unreadable

def upstream {α : Type} : Upstream α → Except ChatError α
  | .ok value => .ok value
  | .status code => .error ⟨if 500 ≤ code then 502 else code, s!"hermes_request_failed_{code}"⟩
  | .unavailable => .error ⟨502, "hermes_unavailable"⟩
  | .unreadable => .error ⟨502, "chat_request_failed"⟩

/-- What Hermes has told the service: a run has ended, a request was refused. -/
inductive Heard where
  | ended (runId : String)
  | refused (i code : Nat)
deriving DecidableEq

/-- The request that was refused and the status. -/
def Heard.refusal : Heard → Option (Nat × Nat)
  | .refused i code => some (i, code)
  | .ended _ => none

def Heard.Refuses (i : Nat) : Heard → Prop
  | .refused j _ => j = i
  | .ended _ => False

instance (i : Nat) : DecidablePred (Heard.Refuses i)
  | .refused j _ => inferInstanceAs (Decidable (j = i))
  | .ended _ => inferInstanceAs (Decidable False)

/-! ## Handlers -/

/-- What a request to run holds across its awaits; `first` when there was no
request under the key. -/
structure Post where
  id : String
  input : String
  model : String
  key : String
  fingerprint : String
  first : Bool
  readAt : Nat

def Post.body (p : Post) : RunBody :=
  ⟨p.id, p.input, if p.model = "" then none else some p.model⟩

inductive Handler where
  | capabilities (p : Post)
  | previousRun (p : Post) (askedAt retryUntil : Nat) (runId : String) (row : StoredChatRequest)
  | dispatched (p : Post) (i : Nat)
  | status (askedAt : Nat) (runId : String) (row : StoredChatRequest)
  | answered (answer : Except ChatError ChatRun)

def failed (status : Nat) (message : String) : Handler := .answered (.error ⟨status, message⟩)

/-- `status` up to its call of Hermes. -/
def statusRow (db : ChatStore) (runId : String) : Except ChatError StoredChatRequest :=
  match db.chat_requests.rows.find? fun row => row.run_id = some runId with
  | none => .error ⟨404, "chat_run_not_found"⟩
  | some row =>
      if db.owned row.session_id then .ok row else .error ⟨403, "chat_session_read_only"⟩

def startStatus (db : ChatStore) (now : Nat) (runId : String) : Handler :=
  match statusRow db runId with
  | .error e => .answered (.error e)
  | .ok row => .status now runId row

/-- `/^[a-zA-Z0-9_-]{16,100}$/`. -/
def isKey (key : String) : Bool :=
  key.toList.all (fun c => c.isAlphanum || c == '_' || c == '-') &&
    decide (16 ≤ key.toList.length) && decide (key.toList.length ≤ 100)

/-- The input and the model of a valid message. -/
def chatMessage (body : List (String × Json)) : Option (String × String) :=
  match member body "input", member body "model" with
  | some (.str input), some (.str model) =>
      if trim input = "" ∨ 32000 < (utf16 input).length ∨ 200 < (utf16 model).length then none
      else some (input, model)
  | _, _ => none

/-- A request to run, up to its first await. -/
def postRun (env : ChatEnv) (db : ChatStore) (now : Nat) (id : String)
    (body : List (String × Json)) (idempotencyKey : Option String) : Handler :=
  let key := idempotencyKey.getD ""
  if db.owned id = false then failed 403 "chat_session_read_only"
  else
    match chatMessage body with
    | none => failed 400 "invalid_chat_message"
    | some (input, model) =>
        if isKey key = false then failed 400 "invalid_chat_message"
        else
          let fingerprint := env.fingerprint id input model
          match db.chat_requests.get key with
          | none => .capabilities ⟨id, input, model, key, fingerprint, true, now⟩
          | some old =>
              if old.fingerprint ≠ fingerprint then failed 409 "chat_retry_conflict"
              else
                match truthy old.run_id with
                | some runId => startStatus db now runId
                | none =>
                    if old.retry_until ≤ now then
                      failed 409 "chat_retry_window_expired_inspect_hermes"
                    else .capabilities ⟨id, input, model, key, fingerprint, false, now⟩

/-- The retention of Hermes is a finite number. -/
def supportsRetries (env : ChatEnv) (retry : Option RunsIdempotency) : Bool :=
  retry.any fun r => r.supported && r.durable && decide (60 < env.retention_seconds)

def retryUntil (env : ChatEnv) (now : Nat) : Nat :=
  now + min (23 * 3600) (env.retention_seconds - 60) * 1000

def refusals : List Nat := [400, 401, 403, 404, 409, 422, 429]

/-! ## The state and its steps -/

structure ChatState where
  now : Nat
  db : ChatStore
  handlers : List Handler
  hermes : RunService String RunBody String
  heard : List Heard

inductive ChatEvent where
  | tick (ms : Nat)
  | createSession (id : String)
  | listed (id lineageRootId : String)
  | post (id : String) (body : List (String × Json)) (idempotencyKey : Option String)
  | poll (runId : String)
  | capabilities (h : Nat) (answer : Upstream (Option RunsIdempotency))
  | status (h : Nat) (answer : Upstream HermesRun)
  | posted (h : Nat) (answer : Upstream HermesRun)
  | restart
  | receive (i : Nat) (verdict : Verdict String)
  | ended (runId : String)

namespace ChatState

def initial : ChatState := ⟨0, ⟨[], .empty⟩, [], .empty, []⟩

def setHandler (s : ChatState) (h : Nat) (handler : Handler) : ChatState :=
  { s with handlers := s.handlers.set h handler }

/-- The transaction and the request to Hermes, whose `Idempotency-Key` is the key
after a prefix. -/
def dispatch (s : ChatState) (h : Nat) (p : Post) (retryUntil : Nat) : ChatState :=
  match s.db.conflicting p.id p.key with
  | some _ => s.setHandler h (failed 409 "chat_run_already_active")
  | none =>
      { s with
        db := s.db.insertRequest ⟨p.key, s.db.chat_requests.rows.length + 1, p.id, p.fingerprint,
          none, some "dispatching", retryUntil, some s.now, some s.now⟩
        hermes := s.hermes.send s.now p.key p.body
        handlers := s.handlers.set h (.dispatched p s.hermes.sent.length) }

def capabilitiesAnswered (env : ChatEnv) (s : ChatState) (h : Nat) (p : Post)
    (answer : Upstream (Option RunsIdempotency)) : ChatState :=
  match upstream answer with
  | .error e => s.setHandler h (.answered (.error e))
  | .ok retry =>
      if supportsRetries env retry = false then
        s.setHandler h (failed 503 "chat_requires_durable_runs")
      else
        match if p.first then (s.db.previous p.id).bind fun row => truthy row.run_id else none with
        | none => s.dispatch h p (retryUntil env s.now)
        | some runId =>
            match statusRow s.db runId with
            | .error e => s.setHandler h (.answered (.error e))
            | .ok row =>
                s.setHandler h (.previousRun p s.now (retryUntil env s.now) runId row)

/-- A run that Hermes reports with one of its own statuses. -/
def heardOf (runId : String) (run : HermesRun) : List Heard :=
  if run.status.any (fun st => decide (st ∈ endedStatuses)) then [.ended runId] else []

/-- The status of a run is recorded. -/
def observe (s : ChatState) (runId : String) (row : StoredChatRequest) (run : HermesRun) :
    ChatState :=
  { s with
    db := s.db.observe s.now runId row run
    heard := s.heard ++ heardOf runId run }

/-- The rest of `status`. -/
def statusAnswered (s : ChatState) (runId : String) (row : StoredChatRequest)
    (answer : Upstream HermesRun) : ChatState × Except ChatError ChatRun :=
  match upstream answer with
  | .error e =>
      if e.status ≠ 404 then (s, .error e)
      else
        (s, .ok { recordedRun row with
          status :=
            if row.status.getD "" ∈ terminalChatStatuses then some (row.status.getD "unknown")
            else some "unknown" })
  | .ok run =>
      (s.observe runId row run, .ok ⟨some s!"request-{row.request_id}", runId, run.session_id,
        run.status, some "hermes", row.submitted_at, some s.now⟩)

def previousAnswered (s : ChatState) (h : Nat) (p : Post) (retryUntil : Nat) (runId : String)
    (row : StoredChatRequest) (answer : Upstream HermesRun) : ChatState :=
  match s.statusAnswered runId row answer with
  | (s, .error e) => s.setHandler h (.answered (.error e))
  | (s, .ok run) =>
      if run.status.getD "" ∉ terminalChatStatuses ∨ run.status = some "unknown" then
        s.setHandler h (failed 409 "chat_run_already_active")
      else s.dispatch h p retryUntil

def postedAnswered (s : ChatState) (h : Nat) (p : Post) (i : Nat) (answer : Upstream HermesRun) :
    ChatState :=
  match answer with
  | .ok run =>
      { s with
        db := s.db.recordRun s.now p.key run.run_id run.status
        heard := s.heard ++ heardOf run.run_id run
        handlers := s.handlers.set h (.answered (.ok
          ⟨none, run.run_id, run.session_id, run.status, none, none, none⟩)) }
  | .status code =>
      { s with
        db := if code ∈ refusals then s.db.recordRefusal s.now p.key else s.db
        heard := if code < 500 then s.heard ++ [.refused i code] else s.heard
        handlers := s.handlers.set h (failed (if 500 ≤ code then 502 else code)
          s!"hermes_request_failed_{code}") }
  | .unavailable => s.setHandler h (failed 502 "hermes_unavailable")
  | .unreadable => s.setHandler h (failed 502 "chat_request_failed")

/-! ## What Hermes answers -/

/-- No run has the status `rejected`, and a run is reported as ended when it has. -/
def Truthful (s : ChatState) (runId : String) (run : HermesRun) : Prop :=
  run.status ≠ some "rejected" ∧ ∀ st ∈ run.status, st ∈ endedStatuses →
    ∃ r ∈ s.hermes.runs, r.id = runId ∧ r.ended = true

/-- An answer about a run. -/
def StatusAnswer (s : ChatState) (runId : String) : Upstream HermesRun → Prop
  | .ok run => s.Truthful runId run
  | _ => True

/-- An answer to the request `i` to run: the run that it was given, or the status
with which it was refused. -/
def PostAnswer (s : ChatState) (i : Nat) : Upstream HermesRun → Prop
  | .ok run => (s.hermes.sent[i]?.bind (·.verdict)) = some (.run run.run_id) ∧
      s.Truthful run.run_id run
  | .status code => 400 ≤ code ∧
      (code < 500 → (s.hermes.sent[i]?.bind (·.verdict)) = some (.refused code))
  | _ => True

instance (s : ChatState) (runId : String) (run : HermesRun) : Decidable (s.Truthful runId run) :=
  inferInstanceAs (Decidable (_ ∧ _))

instance (s : ChatState) (runId : String) : (a : Upstream HermesRun) →
    Decidable (s.StatusAnswer runId a)
  | .ok run => inferInstanceAs (Decidable (s.Truthful runId run))
  | .status _ | .unavailable | .unreadable => .isTrue trivial

instance (s : ChatState) (i : Nat) : (a : Upstream HermesRun) → Decidable (s.PostAnswer i a)
  | .ok _ => inferInstanceAs (Decidable (_ ∧ _))
  | .status _ => inferInstanceAs (Decidable (_ ∧ _))
  | .unavailable | .unreadable => .isTrue trivial

/-- One step: the service works up to its next await, or Hermes or the clock moves
on. An answer comes at most `upstreamTimeout` after the call. -/
def step (env : ChatEnv) (s : ChatState) : ChatEvent → Option ChatState
  | .tick ms => some { s with now := s.now + ms }
  | .createSession id => some { s with db := s.db.register id id }
  | .listed id lineageRootId =>
      if s.db.owned lineageRootId then some { s with db := s.db.register id lineageRootId }
      else none
  | .post id body idempotencyKey =>
      some { s with handlers := s.handlers ++ [postRun env s.db s.now id body idempotencyKey] }
  | .poll runId => some { s with handlers := s.handlers ++ [startStatus s.db s.now runId] }
  | .capabilities h answer =>
      match s.handlers[h]? with
      | some (.capabilities p) =>
          if p.readAt + upstreamTimeout < s.now then none
          else some (capabilitiesAnswered env s h p answer)
      | _ => none
  | .status h answer =>
      match s.handlers[h]? with
      | some (.previousRun p askedAt retryUntil runId row) =>
          if askedAt + upstreamTimeout < s.now ∨ ¬ s.StatusAnswer runId answer then none
          else some (s.previousAnswered h p retryUntil runId row answer)
      | some (.status askedAt runId row) =>
          if askedAt + upstreamTimeout < s.now ∨ ¬ s.StatusAnswer runId answer then none
          else
            let (t, run) := s.statusAnswered runId row answer
            some (t.setHandler h (.answered run))
      | _ => none
  | .posted h answer =>
      match s.handlers[h]? with
      | some (.dispatched p i) =>
          if s.PostAnswer i answer then some (s.postedAnswered h p i answer) else none
      | _ => none
  | .restart => some { s with handlers := [] }
  | .receive i verdict =>
      (s.hermes.receive env.retention upstreamTimeout s.now i verdict).map fun hermes =>
        { s with hermes }
  | .ended runId => some { s with hermes := s.hermes.finish runId }

def next (env : ChatEnv) (s : ChatState) (e : ChatEvent) (t : ChatState) : Prop :=
  s.step env e = some t

end ChatState

end Openlia.Chat

import Openlia.Browser.StableJson
import Openlia.Browser.ToolCalls
import Openlia.Lib.Table

/-! # Sessions of the workspace

A session is a row under the digest of its token. Rows leave the table when they have expired, with
a logout, for a new session when the table is full, and all together when the verifier is another.
-/

namespace Openlia.Auth

open Lib
open Browser (trim utf16)

/-! ## Configuration -/

inductive AuthProvider where
  | password
  | firebase
  | none
  deriving DecidableEq

/-- What the constructor makes of the options; `allowedEmails` are the members of a set. -/
structure Config where
  authProvider : AuthProvider
  passwordHash : String
  projectId : String
  allowedEmails : List String
  nodup : allowedEmails.Nodup

def textLe (s t : String) : Prop := List.le (utf16 s) (utf16 t)

instance : DecidableRel textLe := fun s t => inferInstanceAs (Decidable (List.le (utf16 s) (utf16 t)))

/-- The text whose digest stands for what logins are checked against. -/
def verifierString (config : Config) : String :=
  match config.authProvider with
  | .firebase => "firebase:" ++ config.projectId ++ ":" ++
      ",".intercalate (config.allowedEmails.insertionSort textLe)
  | .password => config.passwordHash
  | .none => config.passwordHash

/-! ## Cookies -/

def sessionCookie : List Char := "openlia_workspace_session".toList

/-- `item.trim()` -/
def trimmedItem (item : List Char) : List Char := (trim (String.ofList item)).toList

/-- The value of the first cookie with the name. -/
def readItems : List (List Char) → Option String
  | [] => none
  | item :: items =>
      match (trimmedItem item).splitOn '=' with
      | [] => readItems items
      | name :: value =>
          if name = sessionCookie then
            let joined := List.intercalate ['='] value
            if joined = [] then none else some (String.ofList joined)
          else readItems items

/-- `header` is the `cookie` header of a request. -/
def readCookie : Option String → Option String
  | none => none
  | some header => if header = "" then none else readItems (header.toList.splitOn ';')

/-! ## The table -/

structure SessionRow where
  tokenHash : String
  createdAt : Int
  lastSeenAt : Int
  deriving DecidableEq

abbrev Sessions := Table SessionRow String SessionRow.tokenHash

structure Database where
  verifierHash : Option String
  sessions : Sessions

def maxSessionEntries : Nat := 1024

/-- The first of the rows that were created first. -/
def oldest : List SessionRow → Option SessionRow
  | [] => none
  | row :: rows =>
      match oldest rows with
      | none => some row
      | some other => if other.createdAt < row.createdAt then some other else some row

/-- The digest, and the timeouts in milliseconds. -/
structure Environment where
  digestToken : String → String
  idleTimeoutMs : Int
  absoluteTimeoutMs : Int

section Authenticator

variable (env : Environment)

/-- A row that is older than one of the timeouts. -/
def expired (now : Int) (row : SessionRow) : Bool :=
  row.lastSeenAt < now - env.idleTimeoutMs || row.createdAt < now - env.absoluteTimeoutMs

def pruneSessions (now : Int) (sessions : Sessions) : Sessions := sessions.delete (expired env now)

def deleteSession (tokenHash : String) (sessions : Sessions) : Sessions :=
  sessions.delete fun row => row.tokenHash = tokenHash

/-- The row that makes room for a new one. -/
def evicted (sessions : Sessions) : Option SessionRow :=
  if maxSessionEntries ≤ sessions.rows.length then oldest sessions.rows else none

/-- The sessions left for a new one at the time a login began. -/
def makeRoom (now : Int) (sessions : Sessions) : Sessions :=
  match evicted (pruneSessions env now sessions) with
  | none => pruneSessions env now sessions
  | some row => deleteSession row.tokenHash (pruneSessions env now sessions)

/-- A token that is in use already is refused by the primary key. -/
def createSession (now : Int) (token : String) (db : Database) : Database × Bool :=
  let sessions := makeRoom env now db.sessions
  match sessions.insert ⟨env.digestToken token, now, now⟩ with
  | some sessions => ({ db with sessions := sessions }, true)
  | none => ({ db with sessions := sessions }, false)

/-- `verified` is the answer of the check of the password or of the identity token, `now` the time
at which it began. -/
def login (verified : Bool) (now : Int) (token : String) (db : Database) : Database × Bool :=
  if verified then createSession env now token db else (db, false)

def logout (header : Option String) (db : Database) : Database :=
  match readCookie header with
  | some token => { db with sessions := deleteSession (env.digestToken token) db.sessions }
  | none => db

def touch (tokenHash : String) (now : Int) (sessions : Sessions) : Sessions :=
  sessions.update (fun row => row.tokenHash = tokenHash) (fun row => { row with lastSeenAt := now })
    fun _ => rfl

def isAuthenticated (now : Int) (header : Option String) (db : Database) : Database × Bool :=
  let sessions := pruneSessions env now db.sessions
  match readCookie header with
  | none => ({ db with sessions := sessions }, false)
  | some token =>
      let key := env.digestToken token
      match sessions.get key with
      | none => ({ db with sessions := sessions }, false)
      | some session =>
          if now - session.lastSeenAt > env.idleTimeoutMs ∨
              now - session.createdAt > env.absoluteTimeoutMs then
            ({ db with sessions := deleteSession key sessions }, false)
          else ({ db with sessions := touch key now sessions }, true)

def reconcileVerifier (config : Config) (db : Database) : Database :=
  let verifierHash := env.digestToken (verifierString config)
  if db.verifierHash = some verifierHash then db else ⟨some verifierHash, Table.empty⟩

end Authenticator

/-! ## Histories -/

inductive Event where
  | login (verified : Bool) (now : Int) (token : String)
  | logout (header : Option String)
  | request (now : Int) (header : Option String)
  | restart (config : Config)

/-- The running process and the database it has opened. -/
structure Server where
  config : Config
  database : Database

section Server

variable (env : Environment)

def start (config : Config) (db : Database) : Server := ⟨config, reconcileVerifier env config db⟩

def step (s : Server) : Event → Server
  | .login verified now token => { s with database := (login env verified now token s.database).1 }
  | .logout header => { s with database := logout env header s.database }
  | .request now header => { s with database := (isAuthenticated env now header s.database).1 }
  | .restart config => start env config s.database

/-- The server after a history, whose last event comes first. -/
def state (config : Config) : List Event → Server
  | [] => start env config ⟨none, Table.empty⟩
  | event :: history => step env (state config history) event

end Server

end Openlia.Auth

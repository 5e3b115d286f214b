import Openlia.Browser.ToolCalls
import Openlia.Lib.Crash

/-! # Scheduled jobs

The jobs file belongs to another program. It is read whole, changed and written whole by a rename.
-/

namespace Openlia.Cron

open Lib Json Crash
open Browser (trim isSpace)

/-- What is found at `jobs.json`: the value of its text where there is one. -/
inductive JobsFile where
  | missing
  | blank
  | corrupt (message : String)
  | json (value : Json)

structure CronError where
  message : String
  statusCode : Nat
  code : String
  deriving DecidableEq

/-- An error of the service, or of the runtime. -/
inductive Failure where
  | cron (e : CronError)
  | typeError
  deriving DecidableEq

/-- An error of the service. -/
def refused (message : String) (statusCode : Nat) (code : String) : Failure :=
  .cron ⟨message, statusCode, code⟩

/-! ## Expressions -/

structure FieldLimit where
  name : String
  min : Nat
  max : Nat

def fieldLimits : List FieldLimit :=
  [⟨"minute", 0, 59⟩, ⟨"hour", 0, 23⟩, ⟨"day of month", 1, 31⟩, ⟨"month", 1, 12⟩,
    ⟨"day of week", 0, 7⟩]

/-- `/^\d+$/` -/
def isDigits (s : List Char) : Bool := s ≠ [] && s.all Char.isDigit

/-- `Number` of digits. -/
def decimal (s : List Char) : Nat := s.foldl (fun n c => n * 10 + (c.toNat - 48)) 0

/-- The error of a range or a value. -/
def validateRange (limit : FieldLimit) (sub : String) (rangePart : List Char) : Option String :=
  if '-' ∈ rangePart then
    let split := rangePart.splitOn '-'
    let start := split.getD 0 []
    let stop := split.getD 1 []
    if !(isDigits start && isDigits stop) then
      some ("Invalid range in " ++ limit.name ++ ": \"" ++ sub ++ "\"")
    else
      let s := decimal start
      let e := decimal stop
      if s < limit.min ∨ s > limit.max ∨ e < limit.min ∨ e > limit.max ∨ s > e then
        some ("Range out of bounds in " ++ limit.name ++ ": \"" ++ sub ++ "\"")
      else none
  else if !isDigits rangePart then
    some ("Invalid token in " ++ limit.name ++ ": \"" ++ sub ++ "\"")
  else if decimal rangePart < limit.min ∨ decimal rangePart > limit.max then
    some ("Value out of bounds in " ++ limit.name ++ ": \"" ++ sub ++ "\" (" ++
      toString limit.min ++ "-" ++ toString limit.max ++ ")")
  else none

/-- The error of an entry between commas. -/
def validateItem (limit : FieldLimit) (sub : List Char) : Option String :=
  if sub = [] then some ("Invalid empty entry in " ++ limit.name ++ " field")
  else if sub = ['*'] then none
  else if '/' ∈ sub then
    let split := sub.splitOn '/'
    let base := split.getD 0 []
    let step := split.getD 1 []
    if base = [] ∨ isDigits step = false ∨ decimal step = 0 then
      some ("Invalid step value in " ++ limit.name ++ ": \"" ++ String.ofList sub ++ "\"")
    else if base = ['*'] then none
    else validateRange limit (String.ofList sub) base
  else validateRange limit (String.ofList sub) sub

/-- The error of an expression; none when it is valid. -/
def validateCronExpression (expression : String) : Option String :=
  let trimmed := trim expression
  if trimmed = "" then some "Cron expression cannot be empty"
  else
    let parts := (trimmed.toList.splitOnP isSpace).filter (· ≠ [])
    if parts.length ≠ 5 then
      some ("Expected 5 cron fields (minute hour dom month dow), got " ++ toString parts.length)
    else
      (fieldLimits.zip parts).findSome? fun field =>
        (field.2.splitOn ',').findSome? (validateItem field.1)

/-! ## The file -/

/-- `extra` are the members beside `jobs` of the object format. -/
structure JobsContainer where
  extra : Option (List (String × Json))
  jobs : List Json

def readJobsContainer : JobsFile → Except Failure JobsContainer
  | .missing => .ok ⟨none, []⟩
  | .blank => .ok ⟨none, []⟩
  | .corrupt message =>
      .error (refused ("Failed to parse cron jobs file: " ++ message) 500 "jobs_file_corrupt")
  | .json (.arr items) => .ok ⟨none, items⟩
  | .json (.obj members) =>
      match member members "jobs" with
      | some (.arr items) => .ok ⟨some (members.filter (·.1 ≠ "jobs")), items⟩
      | _ => .ok ⟨none, []⟩
  | .json _ => .ok ⟨none, []⟩

mutual
/-- What `JSON.stringify` keeps of a value: an overflowed number is `null`. -/
def stored : Json → Json
  | .null => .null
  | .bool b => .bool b
  | .num (.finite text ne chars) => .num (.finite text ne chars)
  | .num (.infinite _) => .null
  | .str s => .str s
  | .arr items => .arr (storedItems items)
  | .obj members => .obj (storedMembers members)

def storedItems : List Json → List Json
  | [] => []
  | x :: xs => stored x :: storedItems xs

def storedMembers : List (String × Json) → List (String × Json)
  | [] => []
  | m :: ms => (m.1, stored m.2) :: storedMembers ms
end

def outputData (container : JobsContainer) : Json :=
  match container.extra with
  | some extra => .obj (extra ++ [("jobs", .arr container.jobs)])
  | none => .arr container.jobs

abbrev CronAction := Prog JobsFile Failure

/-- `fault` is the error of writing the temporary file or of renaming it. -/
def writeJobsContainer (fault : Option String) (container : JobsContainer) : CronAction Unit :=
  match fault with
  | some e => Prog.fail (refused ("Failed to write cron jobs file: " ++ e) 500 "jobs_write_failed")
  | none => Prog.write fun _ => .json (stored (outputData container))

/-! ## Records -/

/-- `id` of a record; reading it of `null` fails. -/
def hasId (id : String) : Json → Except Failure Bool
  | .null => .error .typeError
  | .obj members =>
      match member members "id" with
      | some (.str s) => .ok (s = id)
      | _ => .ok false
  | _ => .ok false

/-- `findIndex` -/
def findIndex (id : String) : List Json → Except Failure (Option Nat)
  | [] => .ok none
  | job :: jobs => do
      if ← hasId id job then .ok (some 0)
      else (findIndex id jobs).map (·.map (· + 1))

/-- Assign a member in its place, or as the last. -/
def setMember (members : List (String × Json)) (k : String) (v : Json) : List (String × Json) :=
  match members with
  | [] => [(k, v)]
  | m :: ms => if m.1 = k then (k, v) :: ms else m :: setMember ms k v

/-- `value.trim()` -/
def trimmed : Json → Except Failure String
  | .str s => .ok (trim s)
  | _ => .error .typeError

/-- `value?.trim()`, with nothing for an empty text. -/
def trimmedText : Option Json → Except Failure (Option String)
  | none => .ok none
  | some .null => .ok none
  | some v => (trimmed v).map fun s => if s = "" then none else some s

/-- `filter(Boolean)` -/
def truthy : Json → Bool
  | .null => false
  | .bool b => b
  | .num (.finite text _ _) => text ≠ ['0'] && text ≠ ['-', '0']
  | .num (.infinite _) => true
  | .str s => s ≠ ""
  | .arr _ => true
  | .obj _ => true

def skillsOf : Option Json → Json
  | some (.arr items) => .arr (items.filter truthy)
  | _ => .arr []

/-! ## Operations -/

/-- The clock, the random id and the fault of writing of a call. -/
structure Call where
  now : String
  uuid : String
  fault : Option String

/-- The job with an id, its index and its container. -/
def existingJob (id : String) :
    CronAction (JobsContainer × Nat × List (String × Json)) := do
  let file ← Prog.get
  let container ← Prog.lift (readJobsContainer file)
  let index ← Prog.lift (findIndex id container.jobs)
  match index with
  | none => Prog.fail (refused ("Job with id \"" ++ id ++ "\" not found") 404 "job_not_found")
  | some index =>
      match container.jobs[index]? with
      | some (.obj members) => pure (container, index, members)
      | _ => Prog.fail (refused ("Job with id \"" ++ id ++ "\" not found") 404 "job_not_found")

def requiredText (value : Option Json) (message code : String) : Except Failure String := do
  match ← trimmedText value with
  | some text => .ok text
  | none => .error (refused message 400 code)

/-- `input` are the members of the request. -/
def createJob (input : List (String × Json)) (call : Call) : CronAction Json := do
  let name ← Prog.lift (requiredText (member input "name") "Job name is required" "missing_name")
  let prompt ← Prog.lift
    (requiredText (member input "prompt") "Job prompt is required" "missing_prompt")
  let schedule ← Prog.lift
    (requiredText (member input "schedule") "Schedule expression is required" "missing_schedule")
  match validateCronExpression schedule with
  | some e => Prog.fail (refused e 400 "invalid_cron")
  | none => do
      let file ← Prog.get
      let container ← Prog.lift (readJobsContainer file)
      let newJob := Json.obj [
        ("id", .str (String.ofList (call.uuid.toList.filter (· ≠ '-') |>.take 12))),
        ("name", .str name),
        ("prompt", .str prompt),
        ("schedule", .obj [("kind", .str "cron"), ("expr", .str schedule),
          ("display", .str schedule)]),
        ("skills", skillsOf (member input "skills")),
        ("state", .str (if (member input "paused").any truthy then "paused" else "scheduled")),
        ("created_at", .str call.now),
        ("updated_at", .str call.now)]
      writeJobsContainer call.fault { container with jobs := container.jobs ++ [newJob] }
      pure newJob

/-- The fields that are taken over from a job. -/
def knownFields : List String :=
  ["id", "name", "prompt", "schedule", "skills", "deliver", "state", "created_at", "updated_at"]

def takenOver (existing : List (String × Json)) : List (String × Json) :=
  knownFields.filterMap fun k => (member existing k).map (k, ·)

/-- A text of the request takes the place of a field. -/
def updateText (input : List (String × Json)) (field empty emptyCode : String)
    (updated : List (String × Json)) : Except Failure (List (String × Json)) :=
  match member input field with
  | none => .ok updated
  | some v => do
      let text ← trimmed v
      if text = "" then .error (refused empty 400 emptyCode)
      else .ok (setMember updated field (.str text))

/-- The schedule of a job with another expression. -/
def rescheduled (existing : Option Json) (expr : String) : Json :=
  match existing with
  | some (.obj members) => .obj (setMember (setMember members "expr" (.str expr)) "display" (.str expr))
  | some (.arr items) =>
      .obj ((items.mapIdx fun i v => (toString i, v)) ++
        [("expr", .str expr), ("display", .str expr)])
  | _ => .str expr

def updateSchedule (input existing updated : List (String × Json)) :
    Except Failure (List (String × Json)) :=
  match member input "schedule" with
  | none => .ok updated
  | some v => do
      let text ← trimmed v
      if text = "" then
        .error (refused "Schedule expression cannot be empty" 400 "empty_schedule")
      else
        match validateCronExpression text with
        | some e => .error (refused e 400 "invalid_cron")
        | none =>
            .ok (setMember updated "schedule" (rescheduled (member existing "schedule") text))

def updateSkills (input updated : List (String × Json)) : List (String × Json) :=
  match member input "skills" with
  | none => updated
  | some v => setMember updated "skills" (skillsOf (some v))

def updateState (input updated : List (String × Json)) :
    Except Failure (List (String × Json)) :=
  match member input "state" with
  | none => .ok updated
  | some (.str s) =>
      if s ≠ "scheduled" ∧ s ≠ "paused" then
        .error (refused "State must be either 'scheduled' or 'paused'" 400 "invalid_state")
      else .ok (setMember updated "state" (.str s))
  | some _ =>
      .error (refused "State must be either 'scheduled' or 'paused'" 400 "invalid_state")

/-- The record that takes the place of a job. -/
def updatedJob (input existing : List (String × Json)) (now : String) :
    Except Failure (List (String × Json)) := do
  let updated ← updateText input "name" "Job name cannot be empty" "empty_name"
    (takenOver existing)
  let updated ← updateText input "prompt" "Job prompt cannot be empty" "empty_prompt" updated
  let updated ← updateSchedule input existing updated
  let updated ← updateState input (updateSkills input updated)
  .ok (setMember updated "updated_at" (.str now))

def updateJob (id : String) (input : List (String × Json)) (call : Call) : CronAction Json := do
  let (container, index, existing) ← existingJob id
  let updated ← Prog.lift (updatedJob input existing call.now)
  writeJobsContainer call.fault { container with jobs := container.jobs.set index (.obj updated) }
  pure (.obj updated)

/-- The state a job is set to; without a wish, the other one. -/
def targetState (paused : Option Bool) (job : List (String × Json)) : String :=
  match paused with
  | some p => if p then "paused" else "scheduled"
  | none =>
      match member job "state" with
      | some (.str s) => if s = "paused" then "scheduled" else "paused"
      | _ => "paused"

def toggleJob (id : String) (paused : Option Bool) (call : Call) : CronAction Json := do
  let (container, index, job) ← existingJob id
  let toggled := setMember (setMember job "state" (.str (targetState paused job))) "updated_at"
    (.str call.now)
  writeJobsContainer call.fault { container with jobs := container.jobs.set index (.obj toggled) }
  pure (.obj toggled)

def deleteJob (id : String) (call : Call) : CronAction Unit := do
  let (container, index, _) ← existingJob id
  writeJobsContainer call.fault { container with jobs := container.jobs.eraseIdx index }

end Openlia.Cron

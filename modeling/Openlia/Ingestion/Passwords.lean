import Mathlib.Data.List.Sort
import Openlia.Lib.Regex
import Openlia.Lib.TomlText
import Openlia.Policy.Paths

/-! # The document-password store

Profiles of passwords are kept in one TOML file. The file is read by a TOML parser and
written line by line, with the ids as bare keys and the strings as JSON literals.
-/

namespace Openlia.Ingestion

open Lib Lib.Toml
open Policy (Text strip)

inductive PasswordFailure where
  /-- `PasswordProfileError` with its text. -/
  | profileError (text : String)
  /-- `PasswordProfileError`: the file is no TOML document. -/
  | invalidFile
  | keyError (key : Text)
  | typeError
  deriving DecidableEq

abbrev Attempt (α : Type) := Except PasswordFailure α

/-! ## What is accepted -/

def isAlphanumeric (c : Char) : Bool :=
  isDigit c || (decide ('a' ≤ c) && decide (c ≤ 'z')) || (decide ('A' ≤ c) && decide (c ≤ 'Z'))

/-- `PROFILE_RE.fullmatch`. -/
def isProfileId : Text → Bool
  | [] => false
  | c :: rest =>
      isAlphanumeric c && decide (rest.length ≤ 63) &&
        rest.all fun d => isAlphanumeric d || d = '.' || d = '_' || d = '-'

/-- The letter that a character stands for when case is ignored. -/
def foldCase (c : Char) : Char :=
  if c = 'İ' ∨ c = 'ı' then 'i'
  else if c = 'ſ' then 's'
  else if c = '\u212a' then 'k'
  else if 'A' ≤ c ∧ c ≤ 'Z' then Char.ofNat (c.toNat + 32)
  else c

def ignoreCase (text : String) : Regex :=
  .seqs (text.toList.map fun c => .char fun d => foldCase d = c)

/-- Two words, with a separator or none between them. -/
def wordPair (first second : String) : Regex :=
  .seqs [ignoreCase first,
    .alt (.char fun d => d = ' ' || d = '_' || d = '-') .empty, ignoreCase second]

def forbiddenLabel : Regex :=
  .alt (ignoreCase "oauth") <| .alt (wordPair "api" "key") <| .alt (ignoreCase "token") <|
    .alt (wordPair "private" "key") <| .alt (ignoreCase "session") <|
      .alt (ignoreCase "cookie") (wordPair "service" "credential")

def labelAccepted (label : Text) : Bool :=
  strip label ≠ [] && (forbiddenLabel.search label).isNone

/-! ## Dictionaries -/

def truthy : Value → Bool
  | .str s => s ≠ []
  | .int n => n ≠ 0
  | .strs items => !items.isEmpty
  | .table ms => !ms.isEmpty

/-- `existing and existing.get(key)`, when it is true. -/
def existingGet (existing : Option Value) (key : Text) : Attempt (Option Value) :=
  match existing with
  | none => .ok none
  | some v =>
      if truthy v = false then .ok none
      else match v with
        | .table ms => .ok ((ms.lookup key).filter truthy)
        | _ => .error .typeError

def eraseKey (ms : Members) (k : Text) : Members := ms.filter fun m => m.1 ≠ k

def keyLe (a b : Text) : Prop := (compare a b).isLE = true

instance : DecidableRel keyLe := fun a b => inferInstanceAs (Decidable ((compare a b).isLE = true))

/-- `sorted` of a dictionary. -/
def sortedKeys (ms : Members) : List Text := (ms.map Prod.fst).insertionSort keyLe

/-! ## Reading and writing -/

def labelKey : Text := "label".toList
def passwordKey : Text := "password".toList
def descriptionKey : Text := "description".toList
def hintKey : Text := "hint".toList
def patternsKey : Text := "patterns".toList
def profilesKey : Text := "profiles".toList

/-- `_read`: the profiles of the file, if there is one. -/
def read : Option Text → Attempt Members
  | none => .ok []
  | some text =>
      match loads text with
      | none => .error .invalidFile
      | some data =>
          match data.lookup profilesKey with
          | none => .ok []
          | some (.table profiles) => .ok profiles
          | some _ => .error (.profileError "password profiles must be a TOML table")

def headerText (id : Text) : Text := ('[' :: profilesKey) ++ '.' :: id ++ [']']

/-- `profile[key]`. -/
def subscript (profile : Value) (key : Text) : Attempt Value :=
  match profile with
  | .table ms =>
      match ms.lookup key with
      | none => .error (.keyError key)
      | some v => .ok v
  | _ => .error .typeError

/-- The line of a member that is written only when it is true. -/
def optionalLine (profile : Value) (key : Text) : List Text :=
  match profile with
  | .table ms => (((ms.lookup key).filter truthy).map (pairText key)).toList
  | _ => []

def profileLines (id : Text) (profile : Value) : Attempt (List Text) := do
  let label ← subscript profile labelKey
  let password ← subscript profile passwordKey
  pure ([headerText id, pairText labelKey label, pairText passwordKey password] ++
    optionalLine profile descriptionKey ++ optionalLine profile hintKey ++
    optionalLine profile patternsKey ++ [[]])

/-- The lines of `profiles[id]`. -/
def keyLines (profiles : Members) (id : Text) : Attempt (List Text) :=
  match profiles.lookup id with
  | none => .error (.keyError id)
  | some profile => profileLines id profile

/-- The file's text. -/
def render (profiles : Members) : Attempt Text := do
  let lines ← (sortedKeys profiles).mapM (keyLines profiles)
  pure (List.intercalate ['\n'] (["version = 1".toList, []] ++ lines.flatten))

/-! ## The methods -/

structure SaveArgs where
  profile_id : Text
  label : Text
  password : Option Text
  description : Option Text
  hint : Option Text
  patterns : Option (List Text)

/-- What `save` returns, and what `list` returns of each profile. -/
structure ProfileItem where
  profile_id : Text
  label : Text
  description : Option Value
  hint : Option Value
  patterns : Option Value

/-- The password that is there. -/
def existingPassword (existing : Option Value) : Attempt Value := do
  match ← existingGet existing passwordKey with
  | some (.str s) => .ok (.str s)
  | _ => .error (.profileError "document password must not be empty")

/-- The password to store: the given one, or else the one that is there. -/
def effectivePassword (password : Option Text) (existing : Option Value) : Attempt Value :=
  match password with
  | some (c :: rest) => .ok (.str (c :: rest))
  | _ => existingPassword existing

/-- An optional text: a blank one is not stored, and what is not given stays. -/
def optionalText (given : Option Text) (existing : Option Value) (key : Text) :
    Attempt (Option Value) :=
  match given with
  | some s => .ok (if strip s = [] then none else some (.str (strip s)))
  | none => existingGet existing key

def cleanedPatterns (patterns : List Text) : List Text :=
  (patterns.map strip).filter (· ≠ [])

def optionalPatterns (given : Option (List Text)) (existing : Option Value) :
    Attempt (Option Value) :=
  match given with
  | some patterns =>
      .ok (if cleanedPatterns patterns = [] then none else some (.strs (cleanedPatterns patterns)))
  | none => existingGet existing patternsKey

/-- A member that is there or not. -/
def optionalMember (key : Text) (v : Option Value) : Members := (v.map (key, ·)).toList

def save (file : Option Text) (args : SaveArgs) : Attempt (Text × ProfileItem) :=
  if isProfileId args.profile_id = false then
    .error (.profileError "profile_id must be a safe identifier")
  else if labelAccepted args.label = false then
    .error (.profileError "profile label is empty or names a service credential")
  else do
    let profiles ← read file
    let existing := profiles.lookup args.profile_id
    let password ← effectivePassword args.password existing
    let description ← optionalText args.description existing descriptionKey
    let hint ← optionalText args.hint existing hintKey
    let patterns ← optionalPatterns args.patterns existing
    let entry : Members := [(labelKey, .str (strip args.label)), (passwordKey, password)] ++
      optionalMember descriptionKey description ++ optionalMember hintKey hint ++
      optionalMember patternsKey patterns
    let text ← render (put profiles args.profile_id (.table entry))
    pure (text, ⟨args.profile_id, strip args.label, description, hint, patterns⟩)

/-- The new text of the file, or none when the profile is not there. -/
def delete (file : Option Text) (id : Text) : Attempt (Option Text) :=
  if isProfileId id = false then .error (.profileError "invalid password profile")
  else do
    let profiles ← read file
    match profiles.lookup id with
    | none => pure none
    | some _ => do
        let text ← render (eraseKey profiles id)
        pure (some text)

def listItem (id : Text) (profile : Value) : Option ProfileItem :=
  match profile with
  | .table ms =>
      match ms.lookup labelKey with
      | some (.str label) =>
          some ⟨id, label, (ms.lookup descriptionKey).filter truthy,
            (ms.lookup hintKey).filter truthy, (ms.lookup patternsKey).filter truthy⟩
      | _ => none
  | _ => none

def list (file : Option Text) : Attempt (List ProfileItem) := do
  let profiles ← read file
  pure ((sortedKeys profiles).filterMap fun id => (profiles.lookup id).bind (listItem id))

def resolve (file : Option Text) (id : Text) : Attempt Text :=
  if isProfileId id = false then .error (.profileError "invalid password profile")
  else do
    let profiles ← read file
    match (profiles.lookup id) with
    | some (.table ms) =>
        match ms.lookup passwordKey with
        | some (.str password) => .ok password
        | _ => .error (.profileError "password profile was not found")
    | _ => .error (.profileError "password profile was not found")

/-! ## Runs -/

inductive Call where
  | save (args : SaveArgs)
  | delete (id : Text)

/-- What a call returns. -/
inductive Answer where
  | saved (item : ProfileItem)
  | deleted (found : Bool)

/-- The file after a call, and its answer. A call that fails leaves the file alone. -/
def perform (file : Option Text) : Call → Option Text × Attempt Answer
  | .save args =>
      match save file args with
      | .ok (text, item) => (some text, .ok (.saved item))
      | .error e => (file, .error e)
  | .delete id =>
      match delete file id with
      | .ok (some text) => (some text, .ok (.deleted true))
      | .ok none => (file, .ok (.deleted false))
      | .error e => (file, .error e)

/-- The file after some calls, from no file at all. -/
def fileAfter (calls : List Call) : Option Text :=
  calls.foldl (fun file call => (perform file call).1) none

end Openlia.Ingestion

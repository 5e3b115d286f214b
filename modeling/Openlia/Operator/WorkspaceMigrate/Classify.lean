import Openlia.Lib.Regex
import Openlia.Operator.Migration.Intake
import Openlia.Operator.Skills.Activation

/-! # Where a legacy file goes

A path and a text decide whether a file is migrated, whether it is kept back as a secret, and the
target it gets in the workspace.
-/

namespace Openlia.WorkspaceMigrate

open Lib
open Skills (FileName Bytes filepathClean filepathBase hasPrefix)
open Intake (trimPrefix isProtectedWorkspacePath)

/-- What the runtime gives: letter case of Unicode, SHA-256 and what JSON keeps of a text. -/
structure Runtime where
  toLower : String → String
  EqualFold : String → String → Bool
  ComputeHash : Bytes → String
  jsonText : Bytes → Bytes

/-! ## Texts -/

def hasSuffix (s suffix : String) : Bool := suffix.toList.isSuffixOf s.toList

def contains (s part : String) : Bool := decide (part.toList <:+: s.toList)

def TrimPrefix (s start : String) : String := String.ofList (trimPrefix start.toList s.toList)

/-- The extension of a name, with its dot. -/
def filepathExt (name : String) : String :=
  match name.toList.reverse.span (· ≠ '.') with
  | (_, []) => ""
  | (suffix, _ :: _) => String.ofList ('.' :: suffix.reverse)

/-- The next character of a text with the number of its bytes, as `utf8.DecodeRune` reads it. -/
def decodeRune : Bytes → Char × Nat
  | [] => ('\ufffd', 0)
  | b0 :: rest =>
      let tail : Nat → Option Nat := fun n =>
        if n ≤ rest.length ∧ (rest.take n).all fun b => 0x80 ≤ b && b ≤ 0xBF then
          some ((rest.take n).foldl (fun v b => v * 64 + (b.toNat - 0x80)) 0)
        else none
      let wide : Nat → Nat → Nat → Char × Nat := fun lead n least =>
        match tail n with
        | some v =>
            let code := (b0.toNat - lead) * 64 ^ n + v
            if least ≤ code ∧ code.isValidChar then (Char.ofNat code, n + 1) else ('\ufffd', 1)
        | none => ('\ufffd', 1)
      if b0 < 0x80 then (Char.ofNat b0.toNat, 1)
      else if 0xC0 ≤ b0 ∧ b0 < 0xE0 then wide 0xC0 1 0x80
      else if 0xE0 ≤ b0 ∧ b0 < 0xF0 then wide 0xE0 2 0x800
      else if 0xF0 ≤ b0 ∧ b0 < 0xF8 then wide 0xF0 3 0x10000
      else ('\ufffd', 1)

/-- The characters an expression reads of a text; `skip` bytes belong to the last one. -/
def runesFrom : Nat → Bytes → List Char
  | _, [] => []
  | skip + 1, _ :: rest => runesFrom skip rest
  | 0, b :: rest => (decodeRune (b :: rest)).1 :: runesFrom ((decodeRune (b :: rest)).2 - 1) rest

def runes (data : Bytes) : List Char := runesFrom 0 data

/-! ## Expressions -/

/-- A letter under `(?i)`. -/
def foldChar (c : Char) : Char :=
  if c = '\u017f' then 's' else if c = '\u212a' then 'k' else c.toLower

/-- A text under `(?i)`, in small letters. -/
def folded (text : String) : Regex :=
  .seqs (text.toList.map fun c => .char fun d => foldChar d = c)

def foldedAny : List String → Regex
  | [] => .look fun _ _ => false
  | [s] => folded s
  | s :: ss => .alt (folded s) (foldedAny ss)

def isWord (c : Char) : Bool := c.isAlphanum || c = '_'

def isSpace (c : Char) : Bool := [' ', '\t', '\n', '\x0c', '\r'].contains c

def wordBoundary : Regex := .look fun prev next => prev.any isWord != next.any isWord

def textStart : Regex := .look fun prev _ => prev.isNone

def textEnd : Regex := .look fun _ next => next.isNone

/-- At least `n` characters of a class. -/
def atLeast (n : Nat) (p : Char → Bool) : Regex :=
  .seq (.seqs (List.replicate n (.char p))) (.many true p)

def envFileNamePattern : Regex := .alt (.seq textStart (folded ".env")) (folded ".env.")

def secretFileNamePattern : Regex :=
  [.seq (folded ".pem") textEnd, .seq (folded ".key") textEnd, .seq (folded ".p12") textEnd,
    .seq (folded ".pfx") textEnd].foldr .alt (foldedAny ["id_rsa", "id_ed25519"])

/-- The characters of a token. -/
def isToken (c : Char) : Bool := isWord c || c = '-'

def secretContentPatterns : List Regex :=
  [.seqs [.lit "-----BEGIN ", .opt (.lits ["RSA ", "EC ", "OPENSSH ", "DSA "]),
      .lit "PRIVATE KEY-----"],
    .seqs [wordBoundary, .lits ["sk", "ghp", "gho", "ghu", "github_pat"], .lit "_",
      atLeast 20 isToken],
    .seqs [
      .alt (.seqs [folded "api", separator, folded "key"])
        (.alt (.seqs [folded "secret", separator, folded "token"])
          (.alt (.seqs [folded "access", separator, folded "token"])
            (.seqs [folded "private", separator, folded "key"]))),
      .many true isSpace, .char fun c => c = ':' || c = '=', .many true isSpace,
      .opt quote, atLeast 16 fun c => isToken (foldChar c), .opt quote]]
where
  separator : Regex := .opt (.char fun c => c = '_' || c = '-')
  quote : Regex := .char fun c => c = '"' || c = '\''

def emptyStubRegex : Regex :=
  .seqs [wordBoundary, folded "no", .some1 true isSpace,
    .some1 true fun c => isWord (foldChar c) || isSpace c || c = '-',
    .some1 true isSpace, foldedAny ["have", "has"], .some1 true isSpace, folded "been",
    .some1 true isSpace, foldedAny ["recorded", "agreed", "approved", "defined", "planned"],
    .some1 true isSpace, folded "yet"]

def Matches (r : Regex) (text : List Char) : Bool := (r.search text).isSome

def datePattern : Regex :=
  .seqs [textStart, digits 4, .lit "-", digits 2, .lit "-", digits 2]
where
  digits (n : Nat) : Regex := .seqs (List.replicate n (.char Char.isDigit))

/-! ## What is not migrated -/

section Runtime

variable (rt : Runtime)

def IsIgnoredPath (relPath : String) : Bool :=
  let clean := String.ofList (filepathClean relPath.toList)
  let parts := (clean.toList.splitOn '/').map String.ofList
  let base := filepathBase clean
  let ext := rt.toLower (filepathExt base)
  base = ".gitkeep" || hasSuffix (rt.toLower base) ".schema.json" ||
  parts.any (fun part => [".obsidian", ".git", "node_modules", "__pycache__", ".venv", ".trash",
    ".DS_Store", "Thumbs.db"].contains part) ||
  parts.length = 1 && ["SOUL.md", "IDENTITY.md", "DREAMS.md"].contains base ||
  parts.head?.any (fun first => ["skills", "tools", "prompts", "agents"].contains first) ||
  contains clean ".dreams" || contains clean "/dreaming/" || hasPrefix clean "dreaming/" ||
  [".sh", ".py", ".js", ".mjs", ".cjs", ".ts", ".css", ".go", ".rb"].contains ext

def IsEmptyStub (data : Bytes) : Bool :=
  data.length ≤ 500 && Matches emptyStubRegex (runes data)

def DetectSecretContent (filename : String) (data : Bytes) : Bool :=
  let base := filepathBase filename
  Matches envFileNamePattern base.toList || Matches secretFileNamePattern base.toList ||
  filename = "sources/document-passwords.toml" ||
  isProtectedWorkspacePath filename.toList || isProtectedWorkspacePath base.toList ||
  secretContentPatterns.any fun pattern => Matches pattern (runes data)

/-! ## Targets -/

/-- What the classification of a file gives. -/
structure Adapted where
  targetPath : String
  domain : String
  adaptedContent : Bytes
  rationale : String
  deriving DecidableEq

def CanonicalDomains : List String :=
  ["calendar", "areas", "people", "ideas", "tasks", "travel", "knowledge", "archive", "inbox",
    "goals", "decisions", "monitors", "shopping", "finance"]

def ClassifyAndAdaptFile (relPath : String) (data : Bytes) : Adapted :=
  let lowerPath := rt.toLower relPath
  let base := filepathBase relPath
  if relPath = "USER.md" then
    ⟨"people/user-context.md", "people", data, "User context and communication preferences"⟩
  else if hasPrefix lowerPath "travel/" then
    ⟨"travel/" ++ TrimPrefix relPath "travel/", "travel", data,
      "Travel note preserved under travel"⟩
  else if hasPrefix lowerPath "learning/" then
    ⟨"knowledge/learning/" ++ TrimPrefix relPath "learning/", "knowledge", data,
      "Learning note preserved under knowledge/learning"⟩
  else if hasPrefix lowerPath "memory/" then
    ⟨"archive/memory/" ++ TrimPrefix relPath "memory/", "archive", data,
      "Daily memory log preserved under archive/memory"⟩
  else if hasPrefix lowerPath "maintenance/" then
    ⟨"knowledge/maintenance/" ++ TrimPrefix relPath "maintenance/", "knowledge", data,
      "Maintenance record under knowledge/maintenance"⟩
  else if contains lowerPath "profile" || contains lowerPath "contact" then
    ⟨"people/" ++ base, "people", data, "Personal profile and identity details"⟩
  else if contains lowerPath "preference" then
    ⟨"people/" ++ base, "people", data, "Personal preferences"⟩
  else if contains lowerPath "commute" || contains lowerPath "routine" then
    ⟨"areas/" ++ base, "areas", data, "Personal routine preserved under areas"⟩
  else if contains lowerPath "calendar" || contains lowerPath "holiday" ||
      Matches datePattern base.toList then
    ⟨"calendar/" ++ base, "calendar", data, "Calendar note preserved under calendar"⟩
  else if contains lowerPath "idea" then
    ⟨"ideas/" ++ base, "ideas", data, "Idea note preserved under ideas"⟩
  else if contains lowerPath "task" || contains lowerPath "todo" || contains lowerPath "queue" then
    ⟨"tasks/" ++ base, "tasks", data, "Task record preserved under tasks"⟩
  else
    ⟨"inbox/" ++ base, "inbox", data, "Unclassified note routed to inbox for review"⟩

/-- `ActiveDirectories` are the directories of the workspace that are not hidden, by name. -/
def ClassifyAndAdaptFileWithProfile (relPath : String) (data : Bytes)
    (ActiveDirectories : List String) : Adapted :=
  let parts := (relPath.toList.splitOn '/').map String.ofList
  match parts with
  | topDir :: _ :: _ =>
      match ActiveDirectories.find? (rt.EqualFold topDir) with
      | some activeDir =>
          ⟨activeDir ++ "/" ++ TrimPrefix relPath (topDir ++ "/"), activeDir, data,
            "Preserved under active workspace directory " ++ activeDir⟩
      | none => ClassifyAndAdaptFile rt relPath data
  | _ => ClassifyAndAdaptFile rt relPath data

end Runtime

end Openlia.WorkspaceMigrate

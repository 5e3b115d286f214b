import Mathlib.Data.List.Infix
import Openlia.Browser.ToolCalls
import Openlia.Lib.Regex

/-! # Paths of the workspace

A request names a file by a relative path. What is protected, hidden or editable is
decided by the path alone.
-/

namespace Openlia.Workspace

open Lib
open Browser (utf16)

abbrev Bytes := List UInt8

/-- What the runtime gives: letter case and locale of Unicode, SHA-256 and the YAML library. -/
structure Runtime where
  toLowerCase : String → String
  localeCompare : String → String → Ordering
  sha256 : Bytes → String
  /-- The document in the bytes of a file, if they are one. -/
  parseYaml : Bytes → Option Json

structure WorkspaceError where
  message : String
  status : Nat
  code : String
  currentRevision : Option String
  deriving DecidableEq

/-- An error without a revision. -/
def refusal (message : String) (status : Nat) (code : String) : WorkspaceError :=
  ⟨message, status, code, none⟩

/-! ## Strings -/

def startsWith (s start : String) : Bool := start.toList.isPrefixOf s.toList

def endsWith (s suffix : String) : Bool := suffix.toList.isSuffixOf s.toList

def includes (s part : String) : Bool := decide (part.toList <:+: s.toList)

def replaceAll (s : String) (old new : Char) : String :=
  String.ofList (s.toList.map fun c => if c = old then new else c)

/-- `split("/")`. -/
def splitSlash (s : String) : List String := (s.toList.splitOn '/').map String.ofList

def joinSlash (parts : List String) : String := "/".intercalate parts

/-- `split("/").at(-1)`. -/
def lastPart (s : String) : String := (splitSlash s).getLast?.getD ""

/-- `replace(/^\/+/, "")`. -/
def dropSlashes (s : String) : String := String.ofList (s.toList.dropWhile (· = '/'))

/-! ## Kinds of paths -/

section Kinds

variable (rt : Runtime)

def fileExtension (path : String) : String :=
  let base := lastPart path
  match (base.toList.splitOn '.').reverse with
  | suffix :: _ :: _ => rt.toLowerCase (String.ofList ('.' :: suffix))
  | _ => ""

def editableExtensions : List String :=
  [".md", ".markdown", ".txt", ".yaml", ".yml", ".json", ".toml", ".csv", ".journal", ".hledger",
    ".rem", ".remind", ".openui"]

def minionCodeExtensions : List String := [".py", ".ts", ".js", ".sh", ".bash"]

def isEditablePath (relativePath : String) : Bool :=
  editableExtensions.contains (fileExtension rt relativePath) ||
    startsWith relativePath "minions/" &&
      minionCodeExtensions.contains (fileExtension rt relativePath)

def protectedDirectoryNames : List String :=
  ["browser-profile", "cache", "logs", "mcp-tokens", "node_modules", "pairing", "sessions",
    "__pycache__", ".venv", ".pytest_cache"]

def memoryDocumentPrefix : String := "@memories/"

def isMemoryDocument (path : String) : Bool := startsWith path memoryDocumentPrefix

def protectedPath (path : String) : Bool :=
  let lowerPath := rt.toLowerCase (replaceAll path '\\' '/')
  let parts := splitSlash lowerPath
  let basename := parts.getLast?.getD ""
  lowerPath == "@memories" || startsWith lowerPath memoryDocumentPrefix ||
    lowerPath == "sources/document-passwords.toml" || lowerPath == ".env" ||
    startsWith lowerPath ".env." || endsWith lowerPath ".env" || includes lowerPath ".secret" ||
    endsWith lowerPath ".pem" || endsWith lowerPath ".key" || endsWith lowerPath ".p12" ||
    endsWith lowerPath ".pfx" || basename == "auth.json" ||
    parts.any (protectedDirectoryNames.contains ·) || basename == ".gitignore" ||
    parts.any (fun part => part == ".git" || part == ".env" || startsWith part ".env.") ||
    basename == "agents.md" || basename == "claude.md" || basename == ".cursorrules"

def templatePaths : List String :=
  ["areas/area-template.md", "calendar/event-note-template.md", "decisions/decision-template.md",
    "finance/finance-template.md", "goals/goal-template.md", "ideas/idea-template.md",
    "monitors/monitor-template.md", "people/person-template.md", "shopping/item-template.md",
    "tasks/task-template.md", "travel/trip-template.md"]

def workspaceSettingsFile : String := "workspace-ui.yaml"

def configurationBasenames : List String :=
  ["assistant-policy.schema.json", "assistant-policy.yaml", "feature.schema.json",
    "workspace.schema.json", "workspace.yaml", workspaceSettingsFile]

def navigationHiddenBasenames : List String := [".ds_store", ".gitkeep", "desktop.ini", "thumbs.db"]

def isTemplateOrSchemaPath (path : String) : Bool :=
  let normalized := rt.toLowerCase (replaceAll path '\\' '/')
  endsWith (lastPart normalized) "-template.md" || endsWith (lastPart normalized) ".schema.json" ||
    templatePaths.contains normalized

def isConfigurationPath (path : String) : Bool :=
  configurationBasenames.contains (lastPart (rt.toLowerCase (replaceAll path '\\' '/')))

structure WorkspaceSettings where
  enable_memory_editing : Bool
  hide_configuration_files : Bool
  hide_template_schema_files : Bool
  schema : Nat
  deriving DecidableEq

def defaultWorkspaceSettings : WorkspaceSettings := ⟨false, true, true, 1⟩

def hiddenFromNavigator (path : String) (settings : WorkspaceSettings) : Bool :=
  let basename := lastPart (rt.toLowerCase (replaceAll path '\\' '/'))
  navigationHiddenBasenames.contains basename || startsWith basename "._" ||
    (settings.hide_template_schema_files && isTemplateOrSchemaPath rt path) ||
    (settings.hide_configuration_files && isConfigurationPath rt path)

/-- The length of a string in UTF-16 code units. -/
def jsLength (s : String) : Nat := (utf16 s).length

def validateRelativePath (value : String) (settings : WorkspaceSettings) :
    Except WorkspaceError String :=
  if value = "" ∨ 1024 < jsLength value ∨ value.toList.contains '\x00' then
    .error (refusal "invalid workspace path" 400 "invalid_path")
  else if startsWith value "/" ∨ value.toList.contains '\\' then
    .error (refusal "invalid workspace path" 400 "invalid_path")
  else if (splitSlash value).any fun part => part == "" || part == "." || part == ".." then
    .error (refusal "invalid workspace path" 400 "invalid_path")
  else if protectedPath rt value then
    .error (refusal "workspace path is protected" 403 "protected_path")
  else if hiddenFromNavigator rt value settings then
    .error (refusal "workspace path is not available in the navigator" 403 "hidden_path")
  else .ok value

end Kinds

theorem validateRelativePath_ok {rt : Runtime} {value path : String} {settings : WorkspaceSettings}
    (h : validateRelativePath rt value settings = .ok path) : path = value := by
  unfold validateRelativePath at h
  split_ifs at h
  exact (Except.ok.inj h).symm

end Openlia.Workspace

import Openlia.Browser.ToolCalls
import Openlia.Lib.Address

/-! # Routes of the client

A route is written to the address bar as a path and a query, and read from there when the page is
loaded. Links with the scheme `openlia:` are read by the same function.
-/

namespace Openlia.Client

open Lib.Percent Lib.Address

inductive MainTab
  | chat | documents | minions | skills | shares | ingestion | gitActivity | configuration
  | schedule | usage | migration | maintainer
  deriving DecidableEq

inductive WorkspaceView
  | edit | preview | info
  deriving DecidableEq

structure WorkspaceRoute where
  tab : Option MainTab := none
  path : Option Text := none
  view : Option WorkspaceView := none
  filter : Option Text := none
  scenario : Option Text := none
  minionId : Option Text := none
  minionFile : Option Text := none
  skill : Option Text := none
  skillFile : Option Text := none
  shareId : Option Text := none
  ingestionId : Option Text := none
  migrationId : Option Text := none
  deriving DecidableEq

/-! ## Texts -/

/-- `x || undefined` -/
def truthy (x : Option Text) : Option Text := x.filter (· ≠ [])

def trim (s : Text) : Text :=
  ((s.dropWhile Browser.isSpace).reverse.dropWhile Browser.isSpace).reverse

def isSlash (c : Char) : Bool := c = '/'

/-- `replace(/^\/+/, "")` -/
def withoutLeadingSlashes (s : Text) : Text := s.dropWhile isSlash

/-- `replace(/\/+$/, "")` -/
def withoutTrailingSlashes (s : Text) : Text := (s.reverse.dropWhile isSlash).reverse

def safeDecodeURIComponent (s : Text) : Text := (decodeURIComponent s).getD s

/-- What follows a beginning. -/
def after (start : String) (s : Text) : Option Text :=
  if start.toList.isPrefixOf s then some (s.drop start.length) else none

/-- `split("/").filter(Boolean)` -/
def parts (s : Text) : List Text := (s.splitOn '/').filter (· ≠ [])

def slashed (segments : List Text) : Text := ['/'].intercalate segments

def MEMORY_DOCUMENT_PREFIX : String := "@memories/"

def isMemoryDocument (path : Text) : Bool := MEMORY_DOCUMENT_PREFIX.toList.isPrefixOf path

def memoryFilename (path : Text) : Text := path.drop MEMORY_DOCUMENT_PREFIX.length

def memoryDocumentPath (name : Text) : Text := MEMORY_DOCUMENT_PREFIX.toList ++ name

def WorkspaceView.text : WorkspaceView → String
  | .edit => "edit"
  | .preview => "preview"
  | .info => "info"

def validView (s : Text) : Option WorkspaceView :=
  [WorkspaceView.edit, .preview, .info].find? fun view => view.text.toList = s

def MainTab.text : MainTab → String
  | .chat => "chat"
  | .documents => "documents"
  | .minions => "minions"
  | .skills => "skills"
  | .shares => "shares"
  | .ingestion => "ingestion"
  | .gitActivity => "git-activity"
  | .configuration => "configuration"
  | .schedule => "schedule"
  | .usage => "usage"
  | .migration => "migration"
  | .maintainer => "maintainer"

def validTab (s : Text) : Option MainTab :=
  [MainTab.chat, .minions, .skills, .shares, .documents, .ingestion, .gitActivity, .configuration,
    .schedule, .usage, .migration, .maintainer].find? fun tab => tab.text.toList = s

/-! ## Links to skills -/

def COMMON_FILE_EXTENSIONS : List Text :=
  [".md", ".markdown", ".txt", ".yaml", ".yml", ".json", ".toml", ".py", ".sh", ".bash", ".js",
    ".ts", ".csv"].map String.toList

def SKILL_SUBDIRECTORIES : List Text :=
  ["scripts", "templates", "references", "docs", "tests", "assets", "data"].map String.toList

/-- `toLowerCase`, where it gives a letter of ASCII: the Kelvin sign becomes one too. -/
def lower (c : Char) : Char := if c = '\u212A' then 'k' else c.toLower

/-- The last dot begins the extension; one at the front begins none. -/
def hasFileExtension (name : Text) : Bool :=
  let extension := name.reverse.takeWhile (· ≠ '.')
  (extension.length + 1 < name.length) &&
    COMMON_FILE_EXTENSIONS.contains (('.' :: extension.reverse).map lower)

structure SkillLink where
  skillId : Text
  skillFile : Option Text := none

/-- `parseSkillRemainder` without known ids. -/
def parseSkillRemainder (remainder : Text) : SkillLink :=
  match parts (withoutTrailingSlashes (withoutLeadingSlashes remainder)) with
  | [] => ⟨[], none⟩
  | [p0] => ⟨p0, none⟩
  | [p0, p1] =>
      if hasFileExtension p1 then ⟨p0, some p1⟩ else ⟨slashed [p0, p1], none⟩
  | p0 :: p1 :: rest =>
      if hasFileExtension p1 || SKILL_SUBDIRECTORIES.contains p1 then ⟨p0, some (slashed (p1 :: rest))⟩
      else ⟨slashed [p0, p1], some (slashed rest)⟩

/-! ## Reading -/

/-- `/minions/<id>/<file>`, after it was decoded. -/
def minionRoute (raw : Text) : WorkspaceRoute :=
  match parts (safeDecodeURIComponent raw) with
  | [] => { tab := some .minions }
  | [id] => { tab := some .minions, minionId := some id }
  | id :: file => { tab := some .minions, minionId := some id, minionFile := some (slashed file) }

/-- `if (raw) x = safeDecodeURIComponent(raw)` -/
def named (raw : Text) : Option Text := (truthy (some raw)).map safeDecodeURIComponent

def parseLink (host raw : Text) : WorkspaceRoute :=
  let host := String.ofList (host.map Char.toLower)
  if host = "memory" then { tab := some .documents, path := (named raw).map memoryDocumentPath }
  else if host = "workspace" then { tab := some .documents, path := named raw }
  else if host = "minions" ∨ host = "minion" then minionRoute raw
  else if host = "skills" then
    match (named raw).map parseSkillRemainder with
    | none => { tab := some .skills }
    | some link => { tab := some .skills, skill := some link.skillId, skillFile := link.skillFile }
  else if host = "shares" then { tab := some .shares }
  else if host = "git-activity" then { tab := some .gitActivity }
  else if host = "ingestion" ∨ host = "source" ∨ host = "sources" then
    { tab := some .ingestion, ingestionId := named raw }
  else if host = "migration" then { tab := some .migration, migrationId := named raw }
  else if host = "maintainer" then { tab := some .maintainer }
  else if host = "chat" then { tab := some .chat }
  else if host = "usage" then { tab := some .usage }
  else if host = "schedule" ∨ host = "cron" then { tab := some .schedule }
  else if host = "configuration" then { tab := some .configuration }
  else {}

def parsePathname (pathname : Text) : WorkspaceRoute :=
  if let some raw := after "/share/" pathname then { shareId := named (withoutTrailingSlashes raw) }
  else if pathname = "/shares".toList ∨ (after "/shares/" pathname).isSome then
    { tab := some .shares }
  else if let some raw := after "/memory/" pathname then
    { tab := some .documents, path := some (memoryDocumentPath (safeDecodeURIComponent raw)) }
  else if let some raw := after "/files/" pathname then
    { tab := some .documents, path := named raw }
  else if pathname = "/files".toList then { tab := some .documents }
  else if let some raw := after "/file/" pathname then
    { tab := some .documents, path := named raw }
  else if pathname = "/file".toList then { tab := some .documents }
  else if let some raw := after "/minions/" pathname then minionRoute (withoutTrailingSlashes raw)
  else if pathname = "/minions".toList then { tab := some .minions }
  else if let some raw := after "/skills/" pathname then { tab := some .skills, skill := named raw }
  else if pathname = "/skills".toList then { tab := some .skills }
  else if let some raw := after "/ingestion/" pathname then
    { tab := some .ingestion, ingestionId := named raw }
  else if pathname = "/ingestion".toList then { tab := some .ingestion }
  else if let some raw := after "/migration/" pathname then
    { tab := some .migration, migrationId := named raw }
  else if pathname = "/migration".toList then { tab := some .migration }
  else if pathname = "/maintainer".toList ∨ (after "/maintainer/" pathname).isSome then
    { tab := some .maintainer }
  else if pathname = "/git-activity".toList ∨ (after "/git-activity/" pathname).isSome then
    { tab := some .gitActivity }
  else if pathname = "/chat".toList then { tab := some .chat }
  else if pathname = "/usage".toList then { tab := some .usage }
  else if pathname = "/schedule".toList ∨ (after "/schedule/" pathname).isSome then
    { tab := some .schedule }
  else if pathname = "/configuration".toList then { tab := some .configuration }
  else {}

/-- A parameter that is there and not empty takes the place of what the path says. -/
def orParam (param : Option Text) (value : Option Text) : Option Text :=
  match truthy param with
  | some s => some (trim s)
  | none => value

def parseRoute (url : Url) : WorkspaceRoute :=
  let params := parseForm url.query
  let get := fun name : String => params.lookup name.toList
  let place :=
    if url.protocol = "openlia:".toList then
      parseLink url.host (withoutLeadingSlashes url.pathname)
    else parsePathname url.pathname
  let tab := ((get "tab").bind validTab).or place.tab
  let tab := if (truthy (get "minion")).isSome then some .minions else tab
  let tab := if (truthy (get "skill")).isSome then some .skills else tab
  let path := (truthy place.path).or (((truthy ((get "path").or (get "file")))).map trim)
  { filter := truthy ((get "filter").or (get "q"))
    ingestionId := truthy (orParam (get "ingestion") place.ingestionId)
    migrationId := truthy (orParam (get "migration") place.migrationId)
    minionFile := orParam (get "minionFile") place.minionFile
    minionId := truthy (orParam (get "minion") place.minionId)
    path := truthy (path.map withoutLeadingSlashes)
    scenario := truthy (get "scenario")
    shareId := truthy place.shareId
    skill := truthy (orParam (get "skill") place.skill)
    skillFile := orParam (get "skillFile") place.skillFile
    tab := tab
    view := (get "view").bind validView }

/-! ## Writing -/

/-- `split("/").map(encodeURIComponent).join("/")`, without the slashes in front. -/
def encodeSegments (s : Text) : Text :=
  slashed (((withoutLeadingSlashes s).splitOn '/').map encodeURIComponent)

def pathnameOf (route : WorkspaceRoute) : Text :=
  if let some id := truthy route.shareId then "/share/".toList ++ encodeURIComponent id
  else if route.tab = some .shares then "/shares".toList
  else if route.tab = some .chat then "/chat".toList
  else if route.tab = some .usage then "/usage".toList
  else if route.tab = some .schedule then "/schedule".toList
  else if route.tab = some .gitActivity then "/git-activity".toList
  else if route.tab = some .configuration then "/configuration".toList
  else if let some id := truthy route.minionId then "/minions/".toList ++ encodeURIComponent id
  else if route.tab = some .minions then "/minions".toList
  else if let some skill := truthy route.skill then "/skills/".toList ++ encodeSegments skill
  else if route.tab = some .skills then "/skills".toList
  else if route.tab = some .ingestion then
    match truthy route.ingestionId with
    | some id => "/ingestion/".toList ++ encodeURIComponent id
    | none => "/ingestion".toList
  else if route.tab = some .migration then
    match truthy route.migrationId with
    | some id => "/migration/".toList ++ encodeURIComponent id
    | none => "/migration".toList
  else if route.tab = some .maintainer then "/maintainer".toList
  else
    match truthy route.path with
    | none => "/".toList
    | some path =>
        if isMemoryDocument path then
          "/memory/".toList ++ encodeURIComponent (memoryFilename path)
        else "/files/".toList ++ encodeSegments path

/-- `if (value) params.set(name, value)` -/
def param (name : String) (value : Option Text) : List (Text × Text) :=
  ((truthy value).map (name.toList, ·)).toList

def paramsOf (route : WorkspaceRoute) : List (Text × Text) :=
  param "scenario" route.scenario ++
  (param "view" (route.view.map fun view => view.text.toList) ++
  (param "filter" route.filter ++
  (param "skillFile" route.skillFile ++
  (param "minionFile" route.minionFile ++
  param "ingestion"
    (if pathnameOf route = "/ingestion".toList then route.ingestionId else none)))))

def buildRouteUrl (route : WorkspaceRoute) : Text :=
  withQuery (pathnameOf route) (serialize (paramsOf route))

def localhost : Url := ⟨"http:".toList, "localhost".toList, "/".toList, []⟩

/-- `parseRoute(buildRouteUrl(route))` -/
def reread (route : WorkspaceRoute) : WorkspaceRoute :=
  parseRoute (resolve localhost (buildRouteUrl route))

end Openlia.Client

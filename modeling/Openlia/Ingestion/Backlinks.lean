import Mathlib.Data.Char
import Mathlib.Data.List.Infix
import Mathlib.Data.List.Lex
import Mathlib.Data.List.Sort
import Openlia.Ingestion.Pages
import Openlia.Lib.Rewriting

/-! # Citations in workspace files

Files of the workspace cite sources by their URIs. When a source is deleted its citations
are rewritten: links of records, comments of ledgers, and what is left of them.
-/

namespace Openlia.Ingestion

open Lib
open Policy (Text strip isSpace)

/-! ## Files -/

/-- What a file holds: a text, or bytes that are no UTF-8 and what is left of them when the
wrong ones are ignored. -/
inductive Content where
  | utf8 (text : Text)
  | broken (shown : Text)
  deriving DecidableEq

/-- A file of the workspace; its path is relative to the root. -/
structure WorkspaceFile where
  dirs : List Text
  name : Text
  content : Content
  deriving DecidableEq

/-- `as_posix()`. -/
def WorkspaceFile.rel (f : WorkspaceFile) : Text := List.intercalate ['/'] (f.dirs ++ [f.name])

/-- The line breaks that reading in text mode makes of all of them. -/
def universalNewlines : Text → Text
  | [] => []
  | '\r' :: '\n' :: s => '\n' :: universalNewlines s
  | c :: s => (if c = '\r' then '\n' else c) :: universalNewlines s

/-- `read_text(encoding="utf-8", errors="ignore")`. -/
def Content.shown : Content → Text
  | .utf8 text => universalNewlines text
  | .broken shown => universalNewlines shown

/-! ## Expressions -/

/-- `openlia://sources?/{escaped_id}` -/
def citedUri (id : Text) : Regex :=
  .seq (.lit "openlia://source") <| .seq (.opt (.lit "s")) <| .seq (.lit "/") <|
    .lit (String.ofList id)

/-- `[^\s)]` -/
def isLinkFragment (c : Char) : Bool := !isSpace c && c ≠ ')'

/-- `[^\s)"']` -/
def isBareFragment (c : Char) : Bool := isLinkFragment c && c ≠ '"' && c ≠ '\''

/-- `(?:#...+)?` -/
def optFragment (p : Char → Bool) : Regex := .opt (.seq (.lit "#") (.some1 true p))

def uriPattern (id : Text) : Regex :=
  .seq (citedUri id) <| .opt <| .seq (.lit "#") <| .seq (idGroup "version") <|
    .opt (.seq (.lit "/p") (.some1 true isDecimal))

def ledgerCommentPattern (id : Text) : Regex :=
  .seq (.lit ";") <| .seq (.many true isSpace) <| .seq (.lit "source:") <|
    .seq (.many true isSpace) <| .seq (citedUri id) (optFragment isLinkFragment)

def mdLinkPattern (id : Text) : Regex :=
  .seq (.lit "[") <| .seq (.group "label" (.some1 true fun c => c ≠ ']')) <| .seq (.lit "](") <|
    .seq (citedUri id) <| .seq (optFragment isLinkFragment) (.lit ")")

def bareUriPattern (id : Text) : Regex := .seq (citedUri id) (optFragment isBareFragment)

/-! ## `find_backlinks` -/

structure Backlink where
  path : Text
  domain : Text
  filename : Text
  lineNumber : Nat
  pinnedVersionID : Option Text
  lineExcerpt : Text
  deriving DecidableEq

def targetTokens (id : Text) : List Text :=
  ["openlia://source/".toList ++ id, "openlia://sources/".toList ++ id]

def cites (id text : Text) : Bool := (targetTokens id).any fun token => decide (token <:+: text)

def citingSuffixes : List Text :=
  [".md", ".rem", ".hledger", ".journal", ".yaml", ".json"].map String.toList

/-- The files that are looked at. -/
def WorkspaceFile.scanned (f : WorkspaceFile) : Bool :=
  f.dirs.all (fun d => d.head? ≠ some '.' && d ≠ "sources".toList && d ≠ "node_modules".toList) &&
    citingSuffixes.any (fun suffix => suffix.isSuffixOf f.name) &&
    !"inbox/ingestion/".toList.isPrefixOf f.rel

/-- `re.fullmatch(r"p\d+", version)` -/
def isPageText (version : Text) : Bool :=
  match version with
  | 'p' :: digits => digits ≠ [] && digits.all isDecimal
  | _ => false

def pinnedVersion (id line : Text) : Option Text :=
  ((uriPattern id).search line).bind fun m =>
    (orNone (m.2.group "version")).filter fun version => !isPageText version

/-- The first line that cites, with its number. -/
def citingLine (id text : Text) : Option (Text × Nat) :=
  ((splitlines text).zipIdx 1).find? fun line => cites id line.1

def backlinkOf (id : Text) (f : WorkspaceFile) : Backlink :=
  let line := citingLine id f.content.shown
  { path := f.rel
    domain := if f.dirs = [] then "workspace".toList else f.dirs.headD []
    filename := f.name
    lineNumber := (line.map Prod.snd).getD 1
    pinnedVersionID := line.bind fun line => pinnedVersion id line.1
    lineExcerpt := (line.map fun line => (strip line.1).take 200).getD [] }

def findBacklinks (files : List WorkspaceFile) (id : Text) : List Backlink :=
  ((files.filter fun f => f.scanned && cites id f.content.shown).map (backlinkOf id)).insertionSort
    fun a b => a.path ≤ b.path

/-! ## `annotate_deleted_backlinks` -/

def deletedMarker (id : Text) : Text := "(deleted source: ".toList ++ id ++ [')']

def deletedComment (id : Text) : Text := "; source-deleted: ".toList ++ id

/-- `[\1 (deleted source: {source_id})]` -/
def deletedLink (id label : Text) : Text := '[' :: label ++ ' ' :: deletedMarker id ++ [']']

/-- `filepath.suffix in {".hledger", ".journal"}`: a name that is all suffix has none. -/
def isLedger (name : Text) : Bool :=
  [".hledger", ".journal"].any fun suffix =>
    suffix.toList.isSuffixOf name && suffix.toList.length < name.length

def annotateText (ledger : Bool) (id text : Text) : Text :=
  if ledger then
    (bareUriPattern id).sub (fun _ => deletedMarker id)
      ((ledgerCommentPattern id).sub (fun _ => deletedComment id) text)
  else
    (bareUriPattern id).sub (fun _ => deletedMarker id)
      ((mdLinkPattern id).sub (fun m => deletedLink id (m.group "label")) text)

/-- `UnicodeDecodeError` is no `OSError`, so nothing catches it. -/
inductive DeleteError where
  | unicodeDecode (path : Text)
  | vault
  deriving DecidableEq

/-- The file at a path with another text. -/
def writeText (files : List WorkspaceFile) (path text : Text) : List WorkspaceFile :=
  files.map fun f => if f.rel = path then { f with content := .utf8 text } else f

/-- One backlink after the other; the paths of the files that were rewritten. -/
def annotateBacklinks (id : Text) :
    List Backlink → List WorkspaceFile → List WorkspaceFile × Except DeleteError (List Text)
  | [], files => (files, .ok [])
  | item :: items, files =>
      match files.find? fun f => f.rel = item.path with
      | none => annotateBacklinks id items files
      | some f =>
          match f.content with
          | .broken _ => (files, .error (.unicodeDecode item.path))
          | .utf8 text =>
              let original := universalNewlines text
              let updated := annotateText (isLedger f.name) id original
              if updated = original then annotateBacklinks id items files
              else
                let rest := annotateBacklinks id items (writeText files item.path updated)
                (rest.1, rest.2.map (item.path :: ·))

def annotateDeletedBacklinks (files : List WorkspaceFile) (id : Text) :
    List WorkspaceFile × Except DeleteError (List Text) :=
  annotateBacklinks id (findBacklinks files id) files

/-! ## `delete_document` -/

structure DeletedDocument where
  sourceID : Text
  backlinks : List Backlink
  annotatedFiles : List Text
  deriving DecidableEq

/-- The vault of the service, with what it answers. -/
structure VaultCalls (V : Type) where
  loadSource : V → Text → Bool
  deleteSource : V → Text → V

def deleteDocument {V : Type} (calls : VaultCalls V) (vault : V) (files : List WorkspaceFile)
    (sourceID : Text) (annotate : Bool) :
    V × List WorkspaceFile × Except DeleteError DeletedDocument :=
  let id := ((parseSourceUri sourceID).map SourceReference.sourceID).getD (strip sourceID)
  if calls.loadSource vault id then
    let annotated := if annotate then annotateDeletedBacklinks files id else (files, .ok [])
    match annotated.2 with
    | .error e => (vault, annotated.1, .error e)
    | .ok modified =>
        (calls.deleteSource vault id, annotated.1, .ok ⟨id, findBacklinks files id, modified⟩)
  else (vault, files, .error .vault)

end Openlia.Ingestion

import Openlia.Ingestion.References
import Openlia.Lib.RegexMatches

/-! # Pages of an extracted text

The outline finds the pages of a text by the lines that an expression matches, a slice by
the first place where the marker of the page stands. A text without such lines has the
pages that form feeds part.
-/

namespace Openlia.Ingestion

open Lib
open Policy (Text strip isSpace)

def formFeed : Char := '\x0c'

def pageHeader : Text := "## Page ".toList

/-- `f"## Page {page}"`. -/
def pageMarker (page : Nat) : Text := pageHeader ++ Nat.toDigits 10 page

/-! ## A slice -/

def extractPageSlice (text : Text) (page : Option Int) (maxChars : Int) : Option Text :=
  let limit := (max 100 (min (if maxChars = 0 then 50000 else maxChars) 200000)).toNat
  if text = [] then none
  else match shownPage page with
    | none => some (text.take limit)
    | some page =>
        let marker := pageMarker page.toNat
        match text.dropInfix? marker with
        | some (_, after) =>
            let remainder := ((after.dropInfix? ('\n' :: pageHeader)).map Prod.fst).getD after
            some ((strip (marker ++ remainder)).take limit)
        | none =>
            match (text.splitOn formFeed)[page.toNat - 1]? with
            | some formPage => some ((strip formPage).take limit)
            | none => some (text.take limit)

/-! ## The outline -/

/-- `(?:^|\n)## Page (\d+)\s*\n` -/
def pageMarkerPattern : Regex :=
  .seq (.alt (.look fun prev _ => prev = none) (.lit "\n")) <| .seq (.lit "## Page ") <|
    .seq (.group "page" (.some1 true isDecimal)) <| .seq (.many true isSpace) (.lit "\n")

structure OutlineEntry where
  page : Int
  preview : Text
  chars : Nat
  deriving DecidableEq

/-- Where `str.splitlines` breaks a line. -/
def isLineBreak (c : Char) : Bool :=
  let n := c.toNat
  (10 ≤ n && n ≤ 13) || (28 ≤ n && n ≤ 30) || n = 0x85 || n = 0x2028 || n = 0x2029

/-- `str.splitlines`. -/
def splitlines : Text → List Text
  | [] => []
  | '\r' :: '\n' :: s => [] :: splitlines s
  | c :: s =>
      if isLineBreak c then [] :: splitlines s
      else match splitlines s with
        | [] => [[c]]
        | l :: ls => (c :: l) :: ls

/-- The first line that is not blank. -/
def previewOf (empty : String) (chunk : Text) : Text :=
  match ((splitlines chunk).map strip).filter (· ≠ []) with
  | [] => empty.toList
  | line :: _ => line.take 140

def outlineEntry (page : Int) (chunk : Text) : OutlineEntry :=
  ⟨page, previewOf "(empty page)" chunk, chunk.length⟩

/-- Each marker with the place where its page ends. -/
def pageEnds (text : Text) : List (Nat × Cursor) → List ((Nat × Cursor) × Nat)
  | [] => []
  | [m] => [(m, text.length)]
  | m :: m' :: rest => (m, m'.1) :: pageEnds text (m' :: rest)

/-- The entry of a marker: its page goes from the end of the marker to the next one. -/
def markedEntry (text : Text) (x : (Nat × Cursor) × Nat) : OutlineEntry :=
  outlineEntry (intOf (x.1.2.group "page")) (strip ((text.take x.2).drop x.1.2.before.length))

/-- The texts between form feeds that are not blank. -/
def formPages (text : Text) : List Text := ((text.splitOn formFeed).map strip).filter (· ≠ [])

def buildPageOutline (text : Text) : Nat × List OutlineEntry :=
  if strip text = [] then (0, [])
  else match pageEnds text (pageMarkerPattern.findIter text) with
    | x :: xs => ((x :: xs).length, (x :: xs).map (markedEntry text))
    | [] =>
        if 1 < (formPages text).length then
          ((formPages text).length, (formPages text).mapIdx fun i chunk =>
            outlineEntry (i + 1 : Nat) chunk)
        else (1, [⟨1, previewOf "(empty)" text, text.length⟩])

/-! ## What the adapter writes -/

/-- The last form feed of `pdftotext` ends a page. -/
def splitPdfPages (text : Text) (pages : Nat) : List Text :=
  let split := text.splitOn formFeed
  let pageTexts :=
    if pages < split.length ∧ strip (split.getLastD []) = [] then split.dropLast else split
  (pageTexts ++ List.replicate (pages - pageTexts.length) []).take pages

/-- `f"## Page {page}\n\n{text}\n"`. -/
def pageBlock (text : Text) (page : Nat) : Text := pageMarker page ++ "\n\n".toList ++ text ++ ['\n']

def joinPages (texts : List Text) : Text :=
  List.intercalate ['\n'] ((texts.zipIdx 1).map fun x => pageBlock x.1 x.2)

/-- The texts of the pages; `vision` reads a page that has none. -/
def pdfPageTexts (text : Text) (pages : Nat) (vision : Nat → Text) : List Text :=
  (splitPdfPages text pages).mapIdx fun i t => if strip t = [] then vision (i + 1) else strip t

/-- What `_pdf` publishes. -/
def pdfMarkdown (text : Text) (pages : Nat) (vision : Nat → Text) : Text :=
  let pageTexts := splitPdfPages text pages
  if pageTexts.all fun t => strip t ≠ [] then
    if 1 < pageTexts.length then joinPages (pageTexts.map strip) else text
  else joinPages (pdfPageTexts text pages vision)

end Openlia.Ingestion

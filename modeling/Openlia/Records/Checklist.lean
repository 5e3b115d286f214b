import Mathlib.Algebra.Group.Nat.Defs
import Mathlib.Data.List.Infix
import Mathlib.Data.List.Sort
import Openlia.Browser.ToolCalls
import Openlia.Lib.Lines
import Openlia.Lib.Regex

/-! # Checklists of a record

A record is a Markdown text, perhaps with YAML before it. Its headings of the second
level have checklists. An item is found again by the number of its line, and toggled
in the text.
-/

namespace Openlia.Records

open Lib
open Browser (isSpace)

abbrev Text := List Char

def isBlank (c : Char) : Bool := c = ' ' || c = '\t'

def trim (s : Text) : Text := ((s.dropWhile isSpace).reverse.dropWhile isSpace).reverse

/-! ## Frontmatter -/

/-- `\r?\n`. -/
def newline? : Text → Option Text
  | '\n' :: s => some s
  | '\r' :: '\n' :: s => some s
  | _ => none

/-- `---[ \t]*`. -/
def dashes? : Text → Option Text
  | '-' :: '-' :: '-' :: s => some (s.dropWhile isBlank)
  | _ => none

/-- `^---[ \t]*\r?\n`. -/
def opening? (content : Text) : Option Text := (dashes? content).bind newline?

/-- `\r?\n---[ \t]*`. -/
def closing? (s : Text) : Option Text := (newline? s).bind dashes?

/-- `[\s\S]*?` up to the first place where the frontmatter is closed. -/
def afterClosing (ends : Text → Option Text) : Text → Option Text
  | [] => none
  | c :: s =>
      match (closing? (c :: s)).bind ends with
      | some body => some body
      | none => afterClosing ends s

/-- `(?:\r?\n|$)`. -/
def endsLine (s : Text) : Option Text :=
  match newline? s with
  | some body => some body
  | none => if s = [] then some [] else none

/-- `\r?\n?` after the blanks. -/
def endsAnywhere (s : Text) : Option Text :=
  match newline? s with
  | some body => some body
  | none =>
      match s with
      | '\r' :: body => some body
      | body => some body

/-- The text after the frontmatter, if there is one. -/
def bodyAfter (ends : Text → Option Text) (content : Text) : Text :=
  ((opening? content).bind (afterClosing ends)).getD content

/-! ## Lines -/

section Patterns

open Regex

def isDot (c : Char) : Bool :=
  !(c = '\n' || c = '\r' || c.toNat = 0x2028 || c.toNat = 0x2029)

/-- `[ \t]{0,3}` before the rest. -/
def indented (r : Regex) : Regex := seqs [opt (.char isBlank), opt (.char isBlank),
  opt (.char isBlank), r]

/-- Three or more of a character. -/
def run3 (c : Char) : Regex :=
  seqs [.char (· = c), .char (· = c), .char (· = c), .many true (· = c)]

/-- `^[ \t]{0,3}(`{3,}|~{3,})`. -/
def fencePattern : Regex := indented (.group "1" (.alt (run3 '\x60') (run3 '~')))

/-- `[ \t]+(.+?)[ \t]*#*[ \t]*$`. -/
def titlePattern : Regex := seqs [some1 true isBlank, .group "1" (some1 false isDot),
  .many true isBlank, .many true (· = '#'), .many true isBlank, .look fun _ next => next = none]

/-- `^[ \t]{0,3}#[ \t]+(.+?)[ \t]*#*[ \t]*$`. -/
def h1Pattern : Regex := indented (.seq (.char (· = '#')) titlePattern)

/-- `^[ \t]{0,3}##[ \t]+(.+?)[ \t]*#*[ \t]*$`. -/
def h2Pattern : Regex := indented (.seq (.char (· = '#')) (.seq (.char (· = '#')) titlePattern))

/-- What the first group matched. -/
def match1 (pattern : Regex) (line : Text) : Option Text :=
  (pattern.matchAt [] line).map (·.group "1")

end Patterns

def isMarker (c : Char) : Bool := c = '-' || c = '*' || c = '+'

def isFlag (c : Char) : Bool := c = ' ' || c = 'x' || c = 'X'

/-- `[ \t]+(.*)$` after the bracket. -/
def itemText (s : Text) : Option Text :=
  if (s.head?.any isBlank) && (s.dropWhile isBlank).all isDot then some (s.dropWhile isBlank)
  else none

/-- `^[ \t]*[-*+][ \t]+\[([ xX])\][ \t]+(.*)$`: the flag and the text. -/
def task? (line : Text) : Option (Char × Text) :=
  match line.dropWhile isBlank with
  | marker :: s =>
      if isMarker marker && s.head?.any isBlank then
        match s.dropWhile isBlank with
        | '[' :: flag :: ']' :: r =>
            if isFlag flag then (itemText r).map fun text => (flag, text) else none
        | _ => none
      else none
  | [] => none

/-! ## The parser -/

structure ChecklistItem where
  index : Nat
  text : String
  checked : Bool
  lineIndex : Nat
  deriving DecidableEq

/-- The names that every object has. -/
def inheritedNames : List String :=
  ["constructor", "__defineGetter__", "__defineSetter__", "hasOwnProperty", "__lookupGetter__",
    "__lookupSetter__", "isPrototypeOf", "propertyIsEnumerable", "toString", "valueOf",
    "__proto__", "toLocaleString"]

abbrev Checklists := List (String × List ChecklistItem)

structure Parser where
  title : Text
  checklists : Checklists
  currentHeading : Option String
  /-- The character and the length of the open code fence. -/
  codeFence : Option (Char × Nat)
  deriving DecidableEq

def start : Parser := ⟨[], [], none, none⟩

/-- An empty list for a heading that has none; an inherited name has a value already. -/
def openChecklist (checklists : Checklists) (heading : String) : Checklists :=
  if (checklists.lookup heading).isSome || inheritedNames.contains heading then checklists
  else checklists ++ [(heading, [])]

/-- `none` is the error of a value that is no list. -/
def pushItem (checklists : Checklists) (heading : String) (line : Nat) (flag : Char)
    (text : Text) : Option Checklists :=
  match checklists.lookup heading with
  | none => none
  | some _ => some (checklists.map fun entry =>
      if entry.1 = heading then (entry.1, entry.2 ++
        [⟨entry.2.length, String.ofList (trim text), flag = 'x' || flag = 'X', line⟩])
      else entry)

def closesFence (fence : Char × Nat) (line : Text) : Bool :=
  match match1 fencePattern line with
  | some run => run.head? = some fence.1 && decide (fence.2 ≤ run.length) && trim line = run
  | none => false

def parseLine (s : Parser) (idx : Nat) (line : Text) : Option Parser :=
  match s.codeFence with
  | some fence => some (if closesFence fence line then { s with codeFence := none } else s)
  | none =>
      match match1 fencePattern line with
      | some run => some { s with codeFence := some (run.head?.getD ' ', run.length) }
      | none =>
          match match1 h1Pattern line, s.title with
          | some title, [] => some { s with title := trim title }
          | _, _ =>
              match match1 h2Pattern line with
              | some heading =>
                  let heading := String.ofList (trim heading)
                  some { s with
                    checklists := openChecklist s.checklists heading
                    currentHeading := some heading }
              | none =>
                  match s.currentHeading, task? line with
                  | some heading, some (flag, text) =>
                      (pushItem s.checklists heading idx flag text).map fun checklists =>
                        { s with checklists := checklists }
                  | _, _ => some s

def parseLines : Parser → Nat → List Text → Option Parser
  | s, _, [] => some s
  | s, idx, line :: lines => (parseLine s idx line).bind fun s => parseLines s (idx + 1) lines

/-- The title and the checklists of `parseMarkdownRecord`. -/
def parseMarkdownRecord (content : Text) : Option Parser :=
  parseLines start 0 (splitLines (bodyAfter endsLine content))

/-! ## Reading a checklist -/

/-- A key that objects list before the others, in the order of the numbers. It is the
usual text of a number. -/
def arrayIndex? (key : String) : Option Nat :=
  let n := key.toList.foldl (fun n c => n * 10 + (c.toNat - '0'.toNat)) 0
  if toString n = key ∧ n < 2 ^ 32 - 1 then some n else none

/-- `Object.entries`. -/
def entries (checklists : Checklists) : Checklists :=
  (checklists.filter fun e => (arrayIndex? e.1).isSome).mergeSort
      (fun a b => decide ((arrayIndex? a.1).getD 0 ≤ (arrayIndex? b.1).getD 0)) ++
    checklists.filter fun e => !(arrayIndex? e.1).isSome

/-- Numbers the items of all headings. -/
def renumber (items : List ChecklistItem) : List ChecklistItem :=
  items.mapIdx fun i item => { item with index := i }

section Checklist

variable (toLowerCase : String → String)

def normalizeHeading (heading : String) : String :=
  toLowerCase (String.ofList (trim heading.toList))

/-- `none` is an exception. -/
def extractMarkdownChecklist (content : Text) (heading : Option String) :
    Option (List ChecklistItem) :=
  (parseMarkdownRecord content).map fun parsed =>
    match heading.filter fun h => trim h.toList ≠ [] with
    | some h => (((entries parsed.checklists).find? fun e =>
        normalizeHeading toLowerCase e.1 = normalizeHeading toLowerCase h).map (·.2)).getD []
    | none => renumber ((entries parsed.checklists).flatMap (·.2))

/-! ## Toggling -/

/-- `^(\s*[-*+]\s+\[)[ xX](\])`: where the flag is. -/
def flagPlace? (line : Text) : Option Nat :=
  match line.dropWhile isSpace with
  | marker :: s =>
      if isMarker marker && s.head?.any isSpace then
        match s.dropWhile isSpace with
        | '[' :: flag :: ']' :: _ =>
            if isFlag flag then
              some ((line.takeWhile isSpace).length + 1 + (s.takeWhile isSpace).length + 1)
            else none
        | _ => none
      else none
  | [] => none

/-- The line with another flag. -/
def replaceFlag (line : Text) (flag : Char) : Text :=
  match flagPlace? line with
  | some place => line.set place flag
  | none => line

def newlineOf (body : Text) : Text := if ['\r', '\n'] <:+: body then ['\r', '\n'] else ['\n']

def flagOf (checked : Bool) : Char := if checked then 'x' else ' '

def toggleRecordChecklistItem (content : Text) (heading : Option String) (itemIndex : Nat)
    (checked : Option Bool) : Option Text :=
  let body := bodyAfter endsAnywhere content
  let before := content.take (content.length - body.length)
  let newline := newlineOf body
  let lines := splitSep newline body
  (extractMarkdownChecklist toLowerCase body heading).map fun items =>
    match items[itemIndex]? with
    | none => content
    | some item =>
        match lines[item.lineIndex]? with
        | none => content
        | some line =>
            before ++ List.intercalate newline (lines.set item.lineIndex
              (replaceFlag line (flagOf (checked.getD !item.checked))))

end Checklist

end Openlia.Records

import Openlia.Lib.JsonText

/-! # TOML documents

The part of TOML 1.0 that consists of table headers and of pairs with bare keys, one to a
line. Values are basic strings, arrays of basic strings and decimal integers. Everything
else is read as an error.
-/

namespace Openlia.Lib.Toml

inductive Value where
  | str (text : List Char)
  | int (n : Nat)
  | strs (items : List (List Char))
  | table (members : List (List Char × Value))

abbrev Members := List (List Char × Value)

/-! ## Basic strings -/

def hexValue (c : Char) : Option Nat :=
  if '0' ≤ c ∧ c ≤ '9' then some (c.toNat - 48)
  else if 'a' ≤ c ∧ c ≤ 'f' then some (c.toNat - 87)
  else if 'A' ≤ c ∧ c ≤ 'F' then some (c.toNat - 55)
  else none

def hexNumber (digits : List Char) : Option Nat :=
  digits.foldlM (fun n c => (hexValue c).map (16 * n + ·)) 0

/-- An escaped number is a Unicode scalar value, so no half of a surrogate pair. -/
def scalar (n : Nat) : Option Char :=
  if n < 0xd800 ∨ (0xe000 ≤ n ∧ n < 0x110000) then some (Char.ofNat n) else none

/-- The characters a backslash may stand before, and what they mean. -/
def simpleEscapes : List (Char × Char) :=
  [('b', '\x08'), ('t', '\t'), ('n', '\n'), ('f', '\x0c'), ('r', '\r'), ('"', '"'), ('\\', '\\')]

/-- What a backslash in a basic string begins. -/
def escaped : List Char → Option (Char × List Char)
  | 'u' :: rest =>
      if rest.length < 4 then none
      else ((hexNumber (rest.take 4)).bind scalar).map (·, rest.drop 4)
  | 'U' :: rest =>
      if rest.length < 8 then none
      else ((hexNumber (rest.take 8)).bind scalar).map (·, rest.drop 8)
  | x :: rest => (simpleEscapes.lookup x).map (·, rest)
  | [] => none

/-- One character of a basic string: a tab or anything that is no control. -/
def stringChar : List Char → Option (Char × List Char)
  | '\\' :: rest => escaped rest
  | c :: rest => if (c.toNat < 32 ∧ c ≠ '\t') ∨ c.toNat = 127 then none else some (c, rest)
  | [] => none

/-- The rest of a basic string after its opening quote, in at most so many characters. -/
def stringRest : Nat → List Char → Option (List Char × List Char)
  | 0, _ => none
  | _ + 1, '"' :: rest => some ([], rest)
  | fuel + 1, text => do
      let (c, rest) ← stringChar text
      let (s, rest) ← stringRest fuel rest
      pure (c :: s, rest)

def basicString : List Char → Option (List Char × List Char)
  | '"' :: rest => stringRest rest.length rest
  | _ => none

/-! ## Values -/

/-- The rest of an array after an item. -/
def arrayRest : Nat → List Char → Option (List (List Char) × List Char)
  | 0, _ => none
  | _ + 1, ']' :: rest => some ([], rest)
  | fuel + 1, ',' :: ' ' :: text => do
      let (s, rest) ← basicString text
      let (items, rest) ← arrayRest fuel rest
      pure (s :: items, rest)
  | _ + 1, _ => none

/-- An array after its opening bracket. -/
def array : List Char → Option (List (List Char) × List Char)
  | ']' :: rest => some ([], rest)
  | text => do
      let (s, rest) ← basicString text
      let (items, rest) ← arrayRest rest.length rest
      pure (s :: items, rest)

def isDigit (c : Char) : Bool := decide ('0' ≤ c) && decide (c ≤ '9')

/-- A decimal integer without leading zeros. -/
def integer (text : List Char) : Option Nat :=
  if text = [] ∨ ¬ text.all isDigit ∨ (text.head? = some '0' ∧ text ≠ ['0']) then none
  else some (text.foldl (fun n c => 10 * n + (c.toNat - 48)) 0)

/-- A value that ends its line. -/
def value : List Char → Option Value
  | '"' :: rest =>
      match basicString ('"' :: rest) with
      | some (s, []) => some (.str s)
      | _ => none
  | '[' :: rest =>
      match array rest with
      | some (items, []) => some (.strs items)
      | _ => none
  | text => (integer text).map .int

/-! ## Lines -/

def isBare (c : Char) : Bool :=
  isDigit c || (decide ('a' ≤ c) && decide (c ≤ 'z')) || (decide ('A' ≤ c) && decide (c ≤ 'Z')) ||
    c = '-' || c = '_'

def bareKey (key : List Char) : Bool := key ≠ [] && key.all isBare

inductive Line where
  | blank
  | header (keys : List (List Char))
  | pair (key : List Char) (v : Value)

/-- A table header after its opening bracket. -/
def headerRest (text : List Char) : Option Line :=
  if text.getLast? = some ']' then
    let keys := text.dropLast.splitOn '.'
    if keys.all bareKey then some (.header keys) else none
  else none

def pairLine (text : List Char) : Option Line :=
  let key := text.takeWhile isBare
  match text.dropWhile isBare with
  | ' ' :: '=' :: ' ' :: rest => if key = [] then none else (value rest).map (.pair key)
  | _ => none

def parseLine : List Char → Option Line
  | [] => some .blank
  | '[' :: rest => headerRest rest
  | text => pairLine text

/-! ## Documents -/

/-- Replace the value of a key, or add the key. -/
def put (ms : Members) (k : List Char) (v : Value) : Members :=
  if (ms.lookup k).isSome then ms.map fun m => if m.1 = k then (k, v) else m else ms ++ [(k, v)]

/-- Change the table that a list of keys leads to; tables on the way are created. -/
def modify (f : Members → Option Members) : List (List Char) → Members → Option Members
  | [], ms => f ms
  | k :: ks, ms =>
      match ms.lookup k with
      | none => (modify f ks []).map fun t => put ms k (.table t)
      | some (.table t) => (modify f ks t).map fun t => put ms k (.table t)
      | some _ => none

structure Document where
  root : Members
  /-- The header of the table that the next pair belongs to. -/
  current : List (List Char)
  declared : List (List (List Char))

/-- Neither a table nor a key is defined twice. -/
def Document.step (d : Document) : Line → Option Document
  | .blank => some d
  | .header keys =>
      if keys ∈ d.declared then none
      else (modify some keys d.root).map fun root => ⟨root, keys, keys :: d.declared⟩
  | .pair k v =>
      (modify (fun ms => if (ms.lookup k).isSome then none else some (put ms k v))
        d.current d.root).map fun root => { d with root }

def loads (text : List Char) : Option Members := do
  let lines ← (text.splitOn '\n').mapM parseLine
  let d ← lines.foldlM Document.step ⟨[], [], []⟩
  pure d.root

end Openlia.Lib.Toml

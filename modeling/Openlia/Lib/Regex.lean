import Mathlib.Tactic.Common

/-! # Backtracking regular expressions

Expressions and their matches as a backtracking engine finds them: the first
match in the order the alternatives are tried, at the leftmost position that
has one. A repetition repeats one class of characters.
-/

namespace Openlia.Lib

/-- A position in a text, with the groups matched on the way to it. -/
structure Cursor where
  /-- The text before the position, nearest character first. -/
  before : List Char
  after : List Char
  groups : List (String × List Char)

/-- What a group matched; the last match counts. -/
def Cursor.group (s : Cursor) (name : String) : List Char := (s.groups.lookup name).getD []

inductive Regex where
  | empty
  | char (p : Char → Bool)
  /-- A condition on the characters beside the position; it consumes nothing. -/
  | look (p : Option Char → Option Char → Bool)
  | seq (r s : Regex)
  | alt (r s : Regex)
  | many (greedy : Bool) (p : Char → Bool)
  | group (name : String) (r : Regex)

namespace Regex

variable {β : Type}

/-- Repeat a class: try to go on first when greedy, to stop first when not. -/
def runMany (greedy : Bool) (p : Char → Bool) (k : Cursor → Option β)
    (groups : List (String × List Char)) : List Char → List Char → Option β
  | before, [] => k ⟨before, [], groups⟩
  | before, c :: after =>
      let stop := k ⟨before, c :: after, groups⟩
      if p c then
        let more := runMany greedy p k groups (c :: before) after
        if greedy then more.or stop else stop.or more
      else stop

/-- Match at a position, and go on from where the match ends. -/
def run : Regex → (Cursor → Option β) → Cursor → Option β
  | .empty, k, s => k s
  | .char p, k, s =>
      match s.after with
      | [] => none
      | c :: after => if p c then k ⟨c :: s.before, after, s.groups⟩ else none
  | .look p, k, s => if p s.before.head? s.after.head? then k s else none
  | .seq r t, k, s => r.run (fun s' => t.run k s') s
  | .alt r t, k, s => (r.run k s).or (t.run k s)
  | .many greedy p, k, s => runMany greedy p k s.groups s.before s.after
  | .group name r, k, s =>
      r.run (fun s' =>
        let matched := s.after.take (s.after.length - s'.after.length)
        k { s' with groups := (name, matched) :: s'.groups }) s

attribute [local simp] runMany run

/-- The end of the match at a position. -/
def matchAt (r : Regex) (before after : List Char) : Option Cursor :=
  r.run some ⟨before, after, []⟩

/-- The leftmost match, with the number of characters before it. -/
def searchFrom (r : Regex) (before : List Char) : List Char → Option (Nat × Cursor)
  | [] => (r.matchAt before []).map fun s => (before.length, s)
  | c :: after =>
      match r.matchAt before (c :: after) with
      | some s => some (before.length, s)
      | none => searchFrom r (c :: before) after

def search (r : Regex) (text : List Char) : Option (Nat × Cursor) := r.searchFrom [] text

/-- The matches of an expression that consumes something, each from the end of
the one before. -/
def findIterFrom (r : Regex) : Nat → List Char → List Char → List (Nat × Cursor)
  | 0, _, _ => []
  | n + 1, before, after =>
      match r.searchFrom before after with
      | none => []
      | some m => m :: findIterFrom r n m.2.before m.2.after

def findIter (r : Regex) (text : List Char) : List (Nat × Cursor) :=
  r.findIterFrom (text.length + 1) [] text

/-! ## Building expressions -/

def seqs : List Regex → Regex
  | [] => .empty
  | [r] => r
  | r :: rs => .seq r (seqs rs)

def lit (text : String) : Regex := seqs (text.toList.map fun c => .char fun d => d = c)

/-- One of some texts. -/
def lits : List String → Regex
  | [] => .look fun _ _ => false
  | [s] => lit s
  | s :: ss => .alt (lit s) (lits ss)

/-- One or more. -/
def some1 (greedy : Bool) (p : Char → Bool) : Regex := .seq (.char p) (.many greedy p)

/-- `^` of a multi-line expression. -/
def lineStart : Regex := .look fun prev _ => prev = none || prev = some '\n'

/-- `$` of a multi-line expression. -/
def lineEnd : Regex := .look fun _ next => next = none || next = some '\n'

/-- `r` or nothing. -/
def opt (r : Regex) : Regex := .alt r .empty

/-! ## First matches -/

/-- The engine goes from `s` to `t` first, if what follows matches there. -/
def Reaches (r : Regex) (s t : Cursor) : Prop :=
  ∀ (β : Type) (k : Cursor → Option β) (b : β), k t = some b → r.run k s = some b

/-- No match starts at `s`. -/
def Fails (r : Regex) (s : Cursor) : Prop :=
  ∀ (β : Type) (k : Cursor → Option β), r.run k s = none

section Reaches

variable {r r' : Regex} {s t u : Cursor} {p : Char → Bool} {c : Char}
  {before after xs : List Char} {groups : List (String × List Char)}

theorem Reaches.matchAt (h : r.Reaches ⟨before, after, []⟩ t) :
    r.matchAt before after = some t := h _ some t rfl

theorem Reaches.seq (h : r.Reaches s t) (h' : r'.Reaches t u) : (r.seq r').Reaches s u :=
  fun β k b hk => h β _ b (h' β k b hk)

theorem reaches_empty : Regex.empty.Reaches s s := fun _ _ _ hk => hk

theorem reaches_char (hc : p c = true) :
    (Regex.char p).Reaches ⟨before, c :: after, groups⟩ ⟨c :: before, after, groups⟩ := by
  intro β k b hk
  show (if p c then k ⟨c :: before, after, groups⟩ else none) = some b
  rw [if_pos hc]
  exact hk

theorem reaches_look {q : Option Char → Option Char → Bool}
    (h : q s.before.head? s.after.head? = true) : (Regex.look q).Reaches s s := by
  intro β k b hk
  rw [run, if_pos h]
  exact hk

theorem Reaches.left (h : r.Reaches s t) : (r.alt r').Reaches s t := by
  intro β k b hk
  rw [run, h β k b hk, Option.some_or]

theorem Reaches.right (h : r'.Reaches s t) (hfails : r.Fails s) : (r.alt r').Reaches s t := by
  intro β k b hk
  rw [run, hfails, Option.none_or]
  exact h β k b hk

theorem Fails.seq (h : r.Fails s) : (r.seq r').Fails s := fun β _ => h β _

theorem fails_char (h : ∀ c ∈ after.head?, p c = false) :
    (Regex.char p).Fails ⟨before, after, groups⟩ := by
  intro β k
  cases after with
  | nil => rfl
  | cons c after =>
      show (if p c then k ⟨c :: before, after, groups⟩ else none) = none
      rw [if_neg (by simp [h c rfl])]

/-- A greedy repetition goes as far as it can first. -/
theorem reaches_many (hxs : xs.all p = true) (hstop : ∀ c ∈ after.head?, p c = false) :
    (Regex.many true p).Reaches ⟨before, xs ++ after, groups⟩
      ⟨xs.reverse ++ before, after, groups⟩ := by
  intro β k b hk
  rw [run]
  induction xs generalizing before with
  | nil =>
      cases after with
      | nil => exact hk
      | cons c after =>
          rw [List.nil_append, runMany, if_neg (by simp [hstop c rfl])]
          exact hk
  | cons c xs ih =>
      rw [List.all_cons, Bool.and_eq_true] at hxs
      have hmore : runMany true p k groups (c :: before) (xs ++ after) = some b := by
        refine ih hxs.2 ?_
        rw [List.reverse_cons, List.append_assoc] at hk
        exact hk
      rw [List.cons_append, runMany, if_pos hxs.1, if_pos rfl, hmore, Option.some_or]

theorem reaches_some1 (hc : p c = true) (hxs : xs.all p = true)
    (hstop : ∀ c ∈ after.head?, p c = false) :
    (Regex.some1 true p).Reaches ⟨before, (c :: xs) ++ after, groups⟩
      ⟨(c :: xs).reverse ++ before, after, groups⟩ := by
  have hmany := @reaches_many p (c :: before) after xs groups hxs hstop
  have hend : (c :: xs).reverse ++ before = xs.reverse ++ (c :: before) := by simp
  rw [hend]
  exact (reaches_char hc).seq hmany

/-- A group keeps what was matched. -/
theorem Reaches.group {before' : List Char} (name : String)
    (h : r.Reaches ⟨before, xs ++ after, groups⟩ ⟨before', after, groups⟩) :
    (Regex.group name r).Reaches ⟨before, xs ++ after, groups⟩
      ⟨before', after, (name, xs) :: groups⟩ := by
  intro β k b hk
  refine h β _ b ?_
  have htaken : (xs ++ after).take ((xs ++ after).length - after.length) = xs := by
    rw [List.length_append, Nat.add_sub_cancel, List.take_left]
  dsimp only
  rw [htaken]
  exact hk

theorem reaches_chars (cs : List Char) :
    (seqs (cs.map fun c => .char fun d => d = c)).Reaches ⟨before, cs ++ after, groups⟩
      ⟨cs.reverse ++ before, after, groups⟩ := by
  induction cs generalizing before with
  | nil => exact reaches_empty
  | cons c cs ih =>
      have hchar : (Regex.char fun d => decide (d = c)).Reaches
          ⟨before, c :: (cs ++ after), groups⟩ ⟨c :: before, cs ++ after, groups⟩ :=
        reaches_char (decide_eq_true rfl)
      have hend : (c :: cs).reverse ++ before = cs.reverse ++ (c :: before) := by simp
      rw [hend]
      cases cs with
      | nil => exact hchar
      | cons d cs => exact hchar.seq ih

theorem reaches_lit (text : String) :
    (lit text).Reaches ⟨before, text.toList ++ after, groups⟩
      ⟨text.toList.reverse ++ before, after, groups⟩ := reaches_chars text.toList

end Reaches

end Regex

end Openlia.Lib

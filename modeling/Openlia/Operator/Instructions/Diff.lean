import Openlia.Lib.CommonSublist
import Openlia.Operator.Instructions.Commands

/-! # The instruction difference

A table of lengths is filled from its last cell to its first, and a walk through it
marks each line of both texts.
-/

namespace Openlia.Instructions.Diff

open Lib Skills

/-! ## The table -/

abbrev Table := List (List Nat)

def Table.at (lcs : Table) (left right : Nat) : Nat := (lcs[left]?.getD [])[right]?.getD 0

def Table.put (lcs : Table) (left right n : Nat) : Table :=
  lcs.modify left fun row => row.set right n

section Lcs

variable (fromLines toLines : List Line)

def cell (lcs : Table) (left right : Nat) : Nat :=
  if fromLines[left]? = toLines[right]? then lcs.at (left + 1) (right + 1) + 1
  else if lcs.at left (right + 1) ≤ lcs.at (left + 1) right then lcs.at (left + 1) right
  else lcs.at left (right + 1)

/-- The inner loop, from `right` on downwards. -/
def fillRow (left : Nat) : Nat → Table → Table
  | 0, lcs => lcs
  | right + 1, lcs =>
      fillRow left right (lcs.put left right (cell fromLines toLines lcs left right))

/-- The outer loop. -/
def fillRows : Nat → Table → Table
  | 0, lcs => lcs
  | left + 1, lcs => fillRows left (fillRow fromLines toLines left toLines.length lcs)

def filled : Table :=
  fillRows fromLines toLines fromLines.length
    (List.replicate (fromLines.length + 1) (List.replicate (toLines.length + 1) 0))

/-! ## The walk -/

inductive Mark where
  | context
  | removed
  | added
  deriving DecidableEq

def Mark.sign : Mark → UInt8
  | .context => 0x20
  | .removed => 0x2D
  | .added => 0x2B

/-- The second loop; `n` bounds the number of its steps. -/
def walk (lcs : Table) : Nat → Nat → Nat → List (Mark × Line)
  | 0, _, _ => []
  | n + 1, left, right =>
      match fromLines[left]?, toLines[right]? with
      | none, none => []
      | some l, none => (.removed, l) :: walk lcs n (left + 1) right
      | none, some r => (.added, r) :: walk lcs n left (right + 1)
      | some l, some r =>
          if l = r then (.context, l) :: walk lcs n (left + 1) (right + 1)
          else if lcs.at left (right + 1) ≤ lcs.at (left + 1) right then
            (.removed, l) :: walk lcs n (left + 1) right
          else (.added, r) :: walk lcs n left (right + 1)

def script : List (Mark × Line) :=
  walk fromLines toLines (filled fromLines toLines) (fromLines.length + toLines.length) 0 0

end Lcs

def header (fromName toName : String) : Bytes :=
  text ("--- " ++ fromName ++ "\n+++ " ++ toName ++ "\n")

def simpleInstructionDiff (fromName : String) (old : Bytes) (toName : String) (new : Bytes) :
    Bytes :=
  if old = new then []
  else header fromName toName ++
    (script (trimmedLines old) (trimmedLines new)).flatMap fun d =>
      d.1.sign :: d.2 ++ [newline]

/-! ## Filling the table -/

/-- A table with a row more than there are lines, and a column more. -/
structure Sized (lcs : Table) (rows columns : Nat) : Prop where
  rows : lcs.length = rows + 1
  columns : ∀ row ∈ lcs, row.length = columns + 1

section Table

variable {lcs : Table} {rows columns left right left' right' n : Nat}

theorem Sized.put (h : Sized lcs rows columns) (left right n : Nat) :
    Sized (lcs.put left right n) rows columns := by
  refine ⟨(List.length_modify ..).trans h.rows, fun row hrow => ?_⟩
  obtain ⟨k, hk⟩ := List.mem_iff_getElem?.mp hrow
  rw [Table.put, List.getElem?_modify] at hk
  obtain ⟨row', hrow', rfl⟩ := Option.map_eq_some_iff.mp hk
  have hlength := h.columns row' (List.mem_of_getElem? hrow')
  split
  · rw [List.length_set, hlength]
  · exact hlength

theorem at_put_self (h : Sized lcs rows columns) (hleft : left ≤ rows) (hright : right ≤ columns) :
    (lcs.put left right n).at left right = n := by
  obtain ⟨row, hrow⟩ : ∃ row, lcs[left]? = some row :=
    ⟨_, List.getElem?_eq_getElem (by rw [h.rows]; omega)⟩
  have hlength := h.columns row (List.mem_of_getElem? hrow)
  rw [Table.at, Table.put, List.getElem?_modify_eq, hrow]
  show (row.set right n)[right]?.getD 0 = n
  rw [List.getElem?_set_self (by omega)]
  rfl

theorem at_put_of_ne (h : left ≠ left' ∨ right ≠ right') :
    (lcs.put left right n).at left' right' = lcs.at left' right' := by
  rw [Table.at, Table.put, Table.at, List.getElem?_modify]
  cases lcs[left']? with
  | none => rfl
  | some row =>
      show (if left = left' then row.set right n else row)[right']?.getD 0 = row[right']?.getD 0
      split
      · rename_i hleft
        have hright : right ≠ right' := h.resolve_left fun hne => hne hleft
        rw [List.getElem?_set_ne hright]
      · rfl

end Table

section Filled

variable {fromLines toLines : List Line} {lcs : Table} {left right i j : Nat}

/-- The cells from the place on, in the order in which they are filled, are lengths of
longest common sublists. -/
structure Filled (fromLines toLines : List Line) (left right : Nat) (lcs : Table) : Prop where
  sized : Sized lcs fromLines.length toLines.length
  border : ∀ i, lcs.at i toLines.length = 0
  cells : ∀ i j, left < i ∨ left = i ∧ right ≤ j → i ≤ fromLines.length → j ≤ toLines.length →
    IsLongest (lcs.at i j) (fromLines.drop i) (toLines.drop j)

theorem drop_of_getElem? {l : List Line} {x : Line} {i : Nat} (h : l[i]? = some x) :
    l.drop i = x :: l.drop (i + 1) := by
  obtain ⟨hi, rfl⟩ := List.getElem?_eq_some_iff.mp h
  exact List.drop_eq_getElem_cons hi

/-- One cell from the cells beside it. -/
theorem Filled.cell (h : Filled fromLines toLines left (right + 1) lcs)
    (hleft : left < fromLines.length) (hright : right < toLines.length) :
    IsLongest (cell fromLines toLines lcs left right) (fromLines.drop left)
      (toLines.drop right) := by
  have hl := List.getElem?_eq_getElem hleft
  have hr := List.getElem?_eq_getElem hright
  have hnext := h.cells (left + 1) (right + 1) (Or.inl (Nat.lt_succ_self left)) hleft hright
  have hbelow := h.cells (left + 1) right (Or.inl (Nat.lt_succ_self left)) hleft hright.le
  have hbeside := h.cells left (right + 1) (Or.inr ⟨rfl, Nat.le_refl _⟩) hleft.le hright
  rw [drop_of_getElem? hl] at hbeside
  rw [drop_of_getElem? hr] at hbelow
  rw [Diff.cell, hl, hr, drop_of_getElem? hl, drop_of_getElem? hr]
  by_cases heq : fromLines[left] = toLines[right]
  · rw [if_pos (congrArg some heq), heq]
    exact hnext.cons _
  · have hmax := hbelow.cons_of_ne heq hbeside
    rw [if_neg fun hsome => heq (Option.some.inj hsome)]
    split
    · rename_i hle
      rwa [max_eq_left hle] at hmax
    · rename_i hle
      rwa [max_eq_right (Nat.le_of_not_le hle)] at hmax

theorem Filled.put (h : Filled fromLines toLines left (right + 1) lcs)
    (hleft : left < fromLines.length) (hright : right < toLines.length) :
    Filled fromLines toLines left right
      (lcs.put left right (Diff.cell fromLines toLines lcs left right)) := by
  refine ⟨h.sized.put _ _ _, fun i => ?_, fun i j hij hi hj => ?_⟩
  · rw [at_put_of_ne (Or.inr hright.ne), h.border i]
  · by_cases hplace : left = i ∧ right = j
    · obtain ⟨rfl, rfl⟩ := hplace
      rw [at_put_self h.sized hleft.le hright.le]
      exact h.cell hleft hright
    · rw [at_put_of_ne (by omega)]
      exact h.cells i j (by omega) hi hj

theorem Filled.fillRow (h : Filled fromLines toLines left right lcs)
    (hleft : left < fromLines.length) (hright : right ≤ toLines.length) :
    Filled fromLines toLines left 0 (fillRow fromLines toLines left right lcs) := by
  induction right generalizing lcs with
  | zero => exact h
  | succ right ih => exact ih (h.put hleft hright) (Nat.le_of_succ_le hright)

/-- In the last column nothing is left of the second text. -/
theorem Filled.nextRow (h : Filled fromLines toLines (left + 1) 0 lcs) :
    Filled fromLines toLines left toLines.length lcs := by
  refine ⟨h.sized, h.border, fun i j hij hi hj => ?_⟩
  rcases hij with hij | ⟨rfl, hij⟩
  · exact h.cells i j (by omega) hi hj
  · obtain rfl : toLines.length = j := by omega
    rw [h.border, List.drop_length]
    exact isLongest_nil_right _

theorem Filled.fillRows (h : Filled fromLines toLines left 0 lcs)
    (hleft : left ≤ fromLines.length) :
    Filled fromLines toLines 0 0 (fillRows fromLines toLines left lcs) := by
  induction left generalizing lcs with
  | zero => exact h
  | succ left ih => exact ih (h.nextRow.fillRow hleft (Nat.le_refl _)) (Nat.le_of_succ_le hleft)

theorem filled_spec (fromLines toLines : List Line) :
    Filled fromLines toLines 0 0 (filled fromLines toLines) := by
  have hzero : ∀ i j, Table.at (List.replicate (fromLines.length + 1)
      (List.replicate (toLines.length + 1) 0)) i j = 0 := by
    intro i j
    rw [Table.at, List.getElem?_replicate]
    split
    · rw [Option.getD_some, List.getElem?_replicate]
      split <;> rfl
    · rfl
  refine Filled.fillRows ⟨⟨List.length_replicate, fun row hrow => ?_⟩, fun i => hzero i _,
    fun i j hij hi hj => ?_⟩ (Nat.le_refl _)
  · rw [List.eq_of_mem_replicate hrow, List.length_replicate]
  · rw [hzero, List.drop_of_length_le (by omega)]
    exact isLongest_nil_left _

end Filled

/-! ## The walk through the table -/

/-- The lines with some marks. -/
def linesWith (marks : List Mark) (s : List (Mark × Line)) : List Line :=
  (s.filter fun d => d.1 ∈ marks).map (·.2)

/-- A script of the rest of both texts. -/
structure IsScript (fromLines toLines : List Line) (s : List (Mark × Line)) : Prop where
  old : linesWith [.context, .removed] s = fromLines
  new : linesWith [.context, .added] s = toLines
  longest : IsLongest (linesWith [.context] s).length fromLines toLines

section Walk

variable {fromLines toLines ls rs : List Line} {lcs : Table} {left right n : Nat} {l r : Line}
  {s : List (Mark × Line)}

theorem IsScript.context (h : IsScript ls rs s) (l : Line) :
    IsScript (l :: ls) (l :: rs) ((.context, l) :: s) :=
  ⟨congrArg (l :: ·) h.old, congrArg (l :: ·) h.new, h.longest.cons l⟩

theorem IsScript.removed (h : IsScript ls rs s) (l : Line)
    (hlongest : IsLongest (linesWith [.context] s).length (l :: ls) rs) :
    IsScript (l :: ls) rs ((.removed, l) :: s) := ⟨congrArg (l :: ·) h.old, h.new, hlongest⟩

theorem IsScript.added (h : IsScript ls rs s) (r : Line)
    (hlongest : IsLongest (linesWith [.context] s).length ls (r :: rs)) :
    IsScript ls (r :: rs) ((.added, r) :: s) := ⟨h.old, congrArg (r :: ·) h.new, hlongest⟩

/-- The walk takes one line, or the same line of both, at each step. -/
theorem isScript_walk (h : Filled fromLines toLines 0 0 lcs)
    (hn : fromLines.length - left + (toLines.length - right) ≤ n)
    (hleft : left ≤ fromLines.length) (hright : right ≤ toLines.length) :
    IsScript (fromLines.drop left) (toLines.drop right)
      (walk fromLines toLines lcs n left right) := by
  induction n generalizing left right with
  | zero =>
      rw [List.drop_of_length_le (by omega), List.drop_of_length_le (by omega)]
      exact ⟨rfl, rfl, isLongest_nil_left _⟩
  | succ n ih =>
      rw [walk]
      cases hl : fromLines[left]? with
      | none =>
          have hend : fromLines.drop left = [] :=
            List.drop_of_length_le (List.getElem?_eq_none_iff.mp hl)
          cases hr : toLines[right]? with
          | none =>
              rw [hend, List.drop_of_length_le (List.getElem?_eq_none_iff.mp hr)]
              exact ⟨rfl, rfl, isLongest_nil_left _⟩
          | some r =>
              obtain ⟨hlt, -⟩ := List.getElem?_eq_some_iff.mp hr
              have hrest := @ih left (right + 1) (by omega) hleft hlt
              rw [hend] at hrest ⊢
              rw [drop_of_getElem? hr]
              exact hrest.added r
                ((isLongest_nil_left _).unique hrest.longest ▸ isLongest_nil_left _)
      | some l =>
          obtain ⟨hlt, -⟩ := List.getElem?_eq_some_iff.mp hl
          cases hr : toLines[right]? with
          | none =>
              have hend : toLines.drop right = [] :=
                List.drop_of_length_le (List.getElem?_eq_none_iff.mp hr)
              have hrest := @ih (left + 1) right (by omega) hlt hright
              rw [hend] at hrest ⊢
              rw [drop_of_getElem? hl]
              exact hrest.removed l
                ((isLongest_nil_right _).unique hrest.longest ▸ isLongest_nil_right _)
          | some r =>
              obtain ⟨hlt', -⟩ := List.getElem?_eq_some_iff.mp hr
              have hcell := h.cells left right (by omega) hleft hright
              have hbelow := h.cells (left + 1) right (by omega) hlt hright
              have hbeside := h.cells left (right + 1) (by omega) hleft hlt'
              rw [drop_of_getElem? hl, drop_of_getElem? hr] at hcell
              rw [drop_of_getElem? hr] at hbelow
              rw [drop_of_getElem? hl] at hbeside
              dsimp only
              by_cases heq : l = r
              · rw [if_pos heq, drop_of_getElem? hl, drop_of_getElem? hr, ← heq]
                exact (ih (by omega) hlt hlt').context l
              · have hmax := hbelow.cons_of_ne heq hbeside
                rw [if_neg heq]
                split
                · rename_i hle
                  rw [max_eq_left hle] at hmax
                  have hrest := @ih (left + 1) right (by omega) hlt hright
                  rw [drop_of_getElem? hr] at hrest
                  rw [drop_of_getElem? hl, drop_of_getElem? hr]
                  exact hrest.removed l (hbelow.unique hrest.longest ▸ hmax)
                · rename_i hle
                  rw [max_eq_right (Nat.le_of_not_le hle)] at hmax
                  have hrest := @ih left (right + 1) (by omega) hleft hlt'
                  rw [drop_of_getElem? hl] at hrest
                  rw [drop_of_getElem? hl, drop_of_getElem? hr]
                  exact hrest.added r (hbeside.unique hrest.longest ▸ hmax)

theorem isScript_script (fromLines toLines : List Line) :
    IsScript fromLines toLines (script fromLines toLines) :=
  isScript_walk (filled_spec fromLines toLines) (Nat.le_refl _) (Nat.zero_le _) (Nat.zero_le _)

/-! ## The difference that the commands show -/

theorem isLongest_lcs (ls rs : List Line) : IsLongest (Instructions.lcs ls rs) ls rs := by
  induction ls generalizing rs with
  | nil => exact isLongest_nil_left rs
  | cons l ls ih =>
      induction rs with
      | nil => exact isLongest_nil_right (l :: ls)
      | cons r rs ih' =>
          show IsLongest (if l = r then Instructions.lcs ls rs + 1
            else max (Instructions.lcs ls (r :: rs)) (Instructions.lcs (l :: ls) rs)) _ _
          by_cases heq : l = r
          · rw [if_pos heq, ← heq]
            exact (ih rs).cons l
          · rw [if_neg heq]
            exact (ih (r :: rs)).cons_of_ne heq ih'

/-- The walk goes by the lengths of the rests. -/
theorem walk_eq (h : Filled fromLines toLines 0 0 lcs)
    (hn : fromLines.length - left + (toLines.length - right) ≤ n)
    (hleft : left ≤ fromLines.length) (hright : right ≤ toLines.length) :
    (walk fromLines toLines lcs n left right).map (fun d => (d.1.sign, d.2)) =
      diffLines (fromLines.drop left) (toLines.drop right) := by
  induction n generalizing left right with
  | zero =>
      rw [List.drop_of_length_le (by omega), List.drop_of_length_le (by omega)]
      rfl
  | succ n ih =>
      rw [walk]
      cases hl : fromLines[left]? with
      | none =>
          have hend : fromLines.drop left = [] :=
            List.drop_of_length_le (List.getElem?_eq_none_iff.mp hl)
          cases hr : toLines[right]? with
          | none =>
              rw [hend, List.drop_of_length_le (List.getElem?_eq_none_iff.mp hr)]
              rfl
          | some r =>
              obtain ⟨hlt, -⟩ := List.getElem?_eq_some_iff.mp hr
              have hrest := @ih left (right + 1) (by omega) hleft hlt
              rw [hend] at hrest ⊢
              rw [drop_of_getElem? hr]
              exact congrArg ((0x2B, r) :: ·) hrest
      | some l =>
          obtain ⟨hlt, -⟩ := List.getElem?_eq_some_iff.mp hl
          cases hr : toLines[right]? with
          | none =>
              have hend : toLines.drop right = [] :=
                List.drop_of_length_le (List.getElem?_eq_none_iff.mp hr)
              have hrest := @ih (left + 1) right (by omega) hlt hright
              rw [hend] at hrest ⊢
              rw [drop_of_getElem? hl]
              exact congrArg ((0x2D, l) :: ·) hrest
          | some r =>
              obtain ⟨hlt', -⟩ := List.getElem?_eq_some_iff.mp hr
              have hbelow := (h.cells (left + 1) right (by omega) hlt hright).unique
                (isLongest_lcs _ _)
              have hbeside := (h.cells left (right + 1) (by omega) hleft hlt').unique
                (isLongest_lcs _ _)
              rw [drop_of_getElem? hr] at hbelow
              rw [drop_of_getElem? hl] at hbeside
              rw [hbelow, hbeside, drop_of_getElem? hl, drop_of_getElem? hr]
              show _ = if l = r then (0x20, l) :: diffLines _ _
                else if Instructions.lcs (l :: fromLines.drop (left + 1))
                      (toLines.drop (right + 1)) ≤
                    Instructions.lcs (fromLines.drop (left + 1))
                      (r :: toLines.drop (right + 1)) then
                  (0x2D, l) :: diffLines _ (r :: _)
                else (0x2B, r) :: diffLines (l :: _) _
              rw [← drop_of_getElem? hl, ← drop_of_getElem? hr]
              dsimp only
              split
              · exact congrArg ((0x20, l) :: ·) (ih (by omega) hlt hlt')
              · split
                · exact congrArg ((0x2D, l) :: ·) (ih (by omega) hlt hright)
                · exact congrArg ((0x2B, r) :: ·) (ih (by omega) hleft hlt')

end Walk

/-- The table and the walk give the difference of the model of the commands. -/
theorem simpleInstructionDiff_eq (fromName : String) (old : Bytes) (toName : String)
    (new : Bytes) : simpleInstructionDiff fromName old toName new =
      Instructions.simpleInstructionDiff fromName old toName new := by
  have hscript := walk_eq (filled_spec (trimmedLines old) (trimmedLines new)) (Nat.le_refl _)
    (Nat.zero_le _) (Nat.zero_le _)
  rw [List.drop_zero, List.drop_zero] at hscript
  rw [simpleInstructionDiff, Instructions.simpleInstructionDiff, ← hscript, List.flatMap_map]
  rfl

/-! ## What the output says -/

/-- The lines of an output with one of some signs, without the sign. -/
def linesSigned (signs : Bytes) (output : Bytes) : List Line :=
  (lines output).filterMap fun line =>
    match line with
    | [] => none
    | sign :: line => if sign ∈ signs then some line else none

section Output

variable {fromLines toLines : List Line} {s : List (Mark × Line)}

/-- Each line of the script is a line of the output. -/
theorem lines_rendered (h : ∀ d ∈ s, newline ∉ d.2) :
    lines (s.flatMap fun d => d.1.sign :: d.2 ++ [newline]) =
      s.map (fun d => d.1.sign :: d.2) ++ [[]] := by
  have hjoin : joinLines (s.map (fun d => d.1.sign :: d.2) ++ [[]]) =
      s.flatMap fun d => d.1.sign :: d.2 ++ [newline] := by
    clear h
    induction s with
    | nil => rfl
    | cons d s ih =>
        obtain ⟨l, ls, hls⟩ := List.exists_cons_of_ne_nil
          (show s.map (fun d => d.1.sign :: d.2) ++ [[]] ≠ [] by simp)
        rw [List.map_cons, List.cons_append, List.flatMap_cons, ← ih, hls, joinLines,
          List.intercalate_cons_cons, List.append_assoc, List.append_assoc]
        rfl
  rw [← hjoin]
  refine lines_joinLines (fun l hl => ?_) (by simp)
  rcases List.mem_append.mp hl with hl | hl
  · obtain ⟨d, hd, rfl⟩ := List.mem_map.mp hl
    intro hmem
    rcases List.mem_cons.mp hmem with hsign | hmem
    · cases hmark : d.1 <;> rw [hmark] at hsign <;> exact absurd hsign (by decide)
    · exact h d hd hmem
  · rw [List.mem_singleton.mp hl]
    exact List.not_mem_nil

theorem linesSigned_rendered (marks : List Mark) (h : ∀ d ∈ s, newline ∉ d.2) :
    linesSigned (marks.map Mark.sign) (s.flatMap fun d => d.1.sign :: d.2 ++ [newline]) =
      linesWith marks s := by
  have hsign : ∀ mark, mark.sign ∈ marks.map Mark.sign ↔ mark ∈ marks := by
    intro mark
    refine List.mem_map_of_injective fun a b hab => ?_
    cases a <;> cases b <;> first | rfl | exact absurd hab (by decide)
  have hread : ((fun line : Line => match line with
        | [] => none
        | sign :: line => if sign ∈ marks.map Mark.sign then some line else none) ∘
      fun d : Mark × Line => d.1.sign :: d.2) =
        fun d => if d.1 ∈ marks then some d.2 else none :=
    funext fun d => if_congr (hsign d.1) rfl rfl
  rw [linesSigned, lines_rendered h, List.filterMap_append, List.filterMap_map, hread]
  refine (List.append_nil _).trans ?_
  clear h
  induction s with
  | nil => rfl
  | cons d s ih =>
      rw [List.filterMap_cons, ih, linesWith, linesWith, List.filter_cons]
      by_cases hmark : d.1 ∈ marks
      · rw [if_pos hmark, if_pos (decide_eq_true hmark)]
        rfl
      · rw [if_neg hmark, if_neg fun h => hmark (of_decide_eq_true h)]

/-- A script has lines of its texts only. -/
theorem IsScript.mem (h : IsScript fromLines toLines s) {d : Mark × Line} (hd : d ∈ s) :
    d.2 ∈ fromLines ∨ d.2 ∈ toLines := by
  have hwith : ∀ marks, d.1 ∈ marks → d.2 ∈ linesWith marks s := fun marks hmark =>
    List.mem_map.mpr ⟨d, List.mem_filter.mpr ⟨hd, decide_eq_true hmark⟩, rfl⟩
  rw [← h.old, ← h.new]
  cases hmark : d.1 with
  | context => exact Or.inl (hwith _ (by rw [hmark]; decide))
  | removed => exact Or.inl (hwith _ (by rw [hmark]; decide))
  | added => exact Or.inr (hwith _ (by rw [hmark]; decide))

end Output

/-- Equal texts have no difference. Otherwise the lines without the added ones are those
of the old text, the lines without the removed ones are those of the new text, and no
common subsequence is longer than the context. -/
theorem instruction_diff_shortest (fromName : String) (old : Bytes) (toName : String)
    (new : Bytes) :
    (old = new → simpleInstructionDiff fromName old toName new = []) ∧
      (old ≠ new → ∃ body,
        simpleInstructionDiff fromName old toName new = header fromName toName ++ body ∧
        linesSigned [0x20, 0x2D] body = trimmedLines old ∧
        linesSigned [0x20, 0x2B] body = trimmedLines new ∧
        IsLongest (linesSigned [0x20] body).length (trimmedLines old) (trimmedLines new)) := by
  refine ⟨fun h => if_pos h, fun h => ⟨_, if_neg h, ?_⟩⟩
  have hscript := isScript_script (trimmedLines old) (trimmedLines new)
  have hlines : ∀ d ∈ script (trimmedLines old) (trimmedLines new), newline ∉ d.2 := by
    intro d hd
    rcases hscript.mem hd with hmem | hmem <;> exact newline_notMem_lines hmem
  refine ⟨?_, ?_, ?_⟩
  · exact (linesSigned_rendered [.context, .removed] hlines).trans hscript.old
  · exact (linesSigned_rendered [.context, .added] hlines).trans hscript.new
  · have hcontext := linesSigned_rendered [.context] hlines
    exact hcontext ▸ hscript.longest

/-- The difference of a text and itself has no line of it. -/
theorem equal_texts_no_lines :
    simpleInstructionDiff "baseline" [97, 10] "local" [97, 10] = [] ∧
      linesSigned [0x20, 0x2D] [] ≠ trimmedLines [97, 10] := by
  decide +kernel

end Openlia.Instructions.Diff

import Mathlib.Data.List.Basic
import Mathlib.Tactic.Common

/-! # Texts in parts

A text is split at a separator, or into lines that end with either line break. One
element of a part is one element of the text, at the place where the part starts.
-/

namespace Openlia.Lib

/-! ## Joined parts -/

section Join

variable {α : Type} {sep l : List α} {ls : List (List α)} {j k : Nat} {b : α}

theorem intercalate_nil_cons (h : ls ≠ []) :
    List.intercalate sep ([] :: ls) = sep ++ List.intercalate sep ls := by
  obtain ⟨l, ls, rfl⟩ := List.exists_cons_of_ne_nil h
  rw [List.intercalate_cons_cons, List.nil_append]

theorem intercalate_modifyHead {c : α} (h : ls ≠ []) :
    List.intercalate sep (ls.modifyHead (c :: ·)) = c :: List.intercalate sep ls := by
  obtain ⟨l, ls, rfl⟩ := List.exists_cons_of_ne_nil h
  cases ls with
  | nil => simp
  | cons l' ls =>
      rw [List.modifyHead_cons, List.intercalate_cons_cons, List.intercalate_cons_cons]
      simp

/-- Where a part starts in the joined text. -/
def partStart (sep : List α) : List (List α) → Nat → Nat
  | _, 0 => 0
  | [], _ + 1 => 0
  | l :: ls, j + 1 => l.length + sep.length + partStart sep ls j

/-- Other elements in a part are other elements of the text. -/
theorem intercalate_set (hl : ls[j]? = some l) (hk : k < l.length) :
    List.intercalate sep (ls.set j (l.set k b)) =
      (List.intercalate sep ls).set (partStart sep ls j + k) b := by
  induction ls generalizing j with
  | nil => simp at hl
  | cons l' ls ih =>
      cases j with
      | zero =>
          obtain rfl := Option.some.inj hl
          rw [List.set_cons_zero, partStart, Nat.zero_add]
          cases ls with
          | nil => simp
          | cons l₂ ls =>
              rw [List.intercalate_cons_cons, List.intercalate_cons_cons, List.append_assoc,
                List.append_assoc, List.set_append_left _ _ hk]
      | succ j =>
          rw [List.getElem?_cons_succ] at hl
          have hne : ls ≠ [] := by
            rintro rfl
            simp at hl
          obtain ⟨l₂, ls, rfl⟩ := List.exists_cons_of_ne_nil hne
          have hne' : (l₂ :: ls).set j (l.set k b) ≠ [] := by simp
          obtain ⟨l₃, ls', hset⟩ := List.exists_cons_of_ne_nil hne'
          have hrest := ih hl
          rw [hset] at hrest
          rw [List.set_cons_succ, hset, List.intercalate_cons_cons, List.intercalate_cons_cons,
            hrest, partStart, List.set_append_right _ _ (by rw [List.length_append]; omega)]
          congr 2
          rw [List.length_append]
          omega

theorem partStart_lt (hl : ls[j]? = some l) (hk : k < l.length) :
    partStart sep ls j + k < (List.intercalate sep ls).length := by
  induction ls generalizing j with
  | nil => simp at hl
  | cons l' ls ih =>
      cases j with
      | zero =>
          obtain rfl := Option.some.inj hl
          rw [partStart, Nat.zero_add]
          cases ls with
          | nil => simpa using hk
          | cons l₂ ls =>
              rw [List.intercalate_cons_cons, List.length_append, List.length_append]
              omega
      | succ j =>
          rw [List.getElem?_cons_succ] at hl
          have hrest := ih hl
          cases ls with
          | nil => simp at hl
          | cons l₂ ls =>
              rw [partStart, List.intercalate_cons_cons, List.length_append, List.length_append]
              omega

end Join

/-! ## Splitting at a separator -/

section Split

variable {α : Type} [DecidableEq α] (sep : List α)

/-- The parts after some elements that belong to a separator. -/
def splitSkip : Nat → List α → List (List α)
  | _, [] => [[]]
  | k + 1, _ :: s => splitSkip k s
  | 0, c :: s =>
      if sep <+: c :: s then [] :: splitSkip (sep.length - 1) s
      else (splitSkip 0 s).modifyHead (c :: ·)

/-- The parts between the separators, as they are found from the left. -/
def splitSep (s : List α) : List (List α) := splitSkip sep 0 s

variable {sep} {s : List α} {k : Nat}

theorem splitSkip_drop (h : k ≤ s.length) : splitSkip sep k s = splitSep sep (s.drop k) := by
  induction k generalizing s with
  | zero => rfl
  | succ k ih =>
      cases s with
      | nil => simp at h
      | cons c s =>
          rw [splitSkip, List.drop_succ_cons]
          exact ih (Nat.le_of_succ_le_succ h)

theorem splitSep_ne_nil : splitSep sep s ≠ [] := by
  suffices h : ∀ k, splitSkip sep k s ≠ [] from h 0
  induction s with
  | nil => exact fun k => List.cons_ne_nil _ _
  | cons c s ih =>
      intro k
      cases k with
      | succ k => exact ih k
      | zero =>
          rw [splitSkip]
          split
          · exact List.cons_ne_nil _ _
          · simpa using ih 0

theorem splitSep_separator (hsep : sep ≠ []) (s : List α) :
    splitSep sep (sep ++ s) = [] :: splitSep sep s := by
  obtain ⟨c, cs, rfl⟩ := List.exists_cons_of_ne_nil hsep
  have hskip : splitSkip (c :: cs) cs.length (cs ++ s) = splitSep (c :: cs) s := by
    rw [splitSkip_drop (by simp), List.drop_left]
  rw [splitSep, List.cons_append, splitSkip, if_pos ⟨s, by simp⟩, List.length_cons,
    Nat.add_sub_cancel, hskip]

theorem splitSep_cons {c : α} (h : ¬ sep <+: c :: s) :
    splitSep sep (c :: s) = (splitSep sep s).modifyHead (c :: ·) := by
  rw [splitSep, splitSkip, if_neg h]
  rfl

/-- The parts joined again are the text. -/
theorem intercalate_splitSep (hsep : sep ≠ []) (s : List α) :
    List.intercalate sep (splitSep sep s) = s := by
  induction h : s.length using Nat.strongRecOn generalizing s with
  | ind n ih =>
      by_cases hseparator : sep <+: s
      · obtain ⟨r, rfl⟩ := hseparator
        have hpos := List.length_pos_iff.mpr hsep
        have hr := ih r.length (by rw [← h, List.length_append]; omega) r rfl
        rw [splitSep_separator hsep, intercalate_nil_cons splitSep_ne_nil, hr]
      · cases s with
        | nil => simp [splitSep, splitSkip]
        | cons c s =>
            have hs := ih s.length (by rw [← h]; simp) s rfl
            rw [splitSep_cons hseparator, intercalate_modifyHead splitSep_ne_nil, hs]

end Split

/-! ## First occurrences -/

section Occurrences

variable {α : Type} {c : α} {sep cs before after zs rest : List α}

/-- What begins like no later part of itself is found whole on one side. -/
theorem isPrefix_left (hc : c ∉ cs) (hzs : zs ≠ []) (hrest : ∀ d ∈ rest.head?, d = c)
    (h : c :: cs <+: zs ++ rest) : c :: cs <+: zs := by
  rcases List.prefix_or_prefix_of_prefix h (List.prefix_append zs rest) with hleft | ⟨tail, htail⟩
  · exact hleft
  · rw [← htail, List.prefix_append_right_inj] at h
    cases tail with
    | nil => exact ⟨[], by simp [← htail]⟩
    | cons d tail =>
        obtain ⟨more, hmore⟩ := h
        obtain rfl : d = c := hrest d (by rw [← hmore, List.cons_append]; rfl)
        obtain ⟨z, zs, rfl⟩ := List.exists_cons_of_ne_nil hzs
        rw [List.cons_append, List.cons.injEq] at htail
        exact absurd (htail.2 ▸ List.mem_append_right zs List.mem_cons_self) hc

variable [DecidableEq α]

/-- The place after some elements is the first one. -/
theorem dropInfix?_append
    (h : ∀ ys zs, before = ys ++ zs → zs ≠ [] → ¬ sep <+: zs ++ (sep ++ after)) :
    (before ++ (sep ++ after)).dropInfix? sep = some (before, after) := by
  rw [List.dropInfix?_eq_some_iff]
  refine ⟨⟨sep, by rw [List.append_assoc], beq_self_eq_true sep⟩, fun ys sep' rest heq hsep => ?_⟩
  obtain rfl := eq_of_beq hsep
  by_contra hlt
  rw [List.append_assoc] at heq
  rcases List.append_eq_append_iff.mp heq with ⟨zs, hys, -⟩ | ⟨zs, hbefore, hrest⟩
  · rw [hys, List.length_append] at hlt
    omega
  · refine h ys zs hbefore ?_ ⟨rest, hrest⟩
    rintro rfl
    rw [hbefore, List.length_append] at hlt
    simp at hlt

/-- What stands before the first separator, or the whole text where there is none. -/
theorem dropInfix?_fst (hc : c ∉ cs) (h : ¬ c :: cs <:+: before)
    (hrest : rest = [] ∨ c :: cs <+: rest) :
    (((before ++ rest).dropInfix? (c :: cs)).map Prod.fst).getD (before ++ rest) = before := by
  rcases hrest with rfl | ⟨after, rfl⟩
  · rw [List.append_nil]
    cases hfound : before.dropInfix? (c :: cs) with
    | none => rfl
    | some x =>
        obtain ⟨⟨sep, hsplit, hsep⟩, -⟩ := List.dropInfix?_eq_some_iff.mp hfound
        obtain rfl := eq_of_beq hsep
        exact absurd ⟨x.1, x.2, hsplit.symm⟩ h
  · rw [dropInfix?_append]
    · rfl
    · intro ys zs hbefore hzs hprefix
      have hleft := isPrefix_left hc hzs (by simp) hprefix
      exact h (hbefore ▸ hleft.isInfix.trans (List.suffix_append ys zs).isInfix)

end Occurrences

/-! ## Lines -/

/-- `split(/\r?\n/)`. -/
def splitLines : List Char → List (List Char)
  | [] => [[]]
  | '\r' :: '\n' :: s => [] :: splitLines s
  | '\n' :: s => [] :: splitLines s
  | c :: s => (splitLines s).modifyHead (c :: ·)

/-- Where a line starts. -/
def lineStart : List Char → Nat → Nat
  | _, 0 => 0
  | [], _ + 1 => 0
  | '\r' :: '\n' :: s, j + 1 => 2 + lineStart s j
  | '\n' :: s, j + 1 => 1 + lineStart s j
  | _ :: s, j + 1 => 1 + lineStart s (j + 1)

section Lines

variable {s l : List Char} {c b : Char} {j k : Nat}

/-- No line break starts here. -/
def Inline (c : Char) (s : List Char) : Prop := c ≠ '\n' ∧ ¬ (c = '\r' ∧ s.head? = some '\n')

theorem Inline.set (h : Inline c s) (hb : b ≠ '\n') : Inline c (s.set k b) := by
  refine ⟨h.1, fun hcr => h.2 ⟨hcr.1, ?_⟩⟩
  obtain ⟨-, hhead⟩ := hcr
  cases s with
  | nil => simp at hhead
  | cons d s =>
      cases k with
      | zero =>
          rw [List.set_cons_zero] at hhead
          exact absurd (Option.some.inj hhead) hb
      | succ k => exact hhead

theorem splitLines_cons (h : Inline c s) :
    splitLines (c :: s) = (splitLines s).modifyHead (c :: ·) := by
  rw [splitLines]
  · rintro s' rfl rfl
    exact h.2 ⟨rfl, rfl⟩
  · exact h.1

theorem lineStart_cons (h : Inline c s) : lineStart (c :: s) (j + 1) = 1 + lineStart s (j + 1) := by
  rw [lineStart]
  · rintro s' rfl rfl
    exact h.2 ⟨rfl, rfl⟩
  · exact h.1

/-- How a text begins. -/
theorem lines_cases {P : List Char → Prop} (hnil : P []) (hcrlf : ∀ s, P s → P ('\r' :: '\n' :: s))
    (hlf : ∀ s, P s → P ('\n' :: s)) (hchar : ∀ c s, Inline c s → P s → P (c :: s))
    (s : List Char) : P s := by
  induction s using splitLines.induct with
  | case1 => exact hnil
  | case2 s ih => exact hcrlf s ih
  | case3 s ih => exact hlf s ih
  | case4 c s hcr hlf' ih =>
      refine hchar c s ⟨fun h => hlf' h, ?_⟩ ih
      rintro ⟨rfl, hs⟩
      obtain ⟨s', rfl⟩ : ∃ s', s = '\n' :: s' := by
        cases s with
        | nil => cases hs
        | cons d s' =>
            cases hs
            exact ⟨s', rfl⟩
      exact hcr s' rfl rfl

theorem splitLines_ne_nil (s : List Char) : splitLines s ≠ [] := by
  induction s using lines_cases with
  | hnil => exact List.cons_ne_nil _ _
  | hcrlf s ih => exact List.cons_ne_nil _ _
  | hlf s ih => exact List.cons_ne_nil _ _
  | hchar c s h ih =>
      rw [splitLines_cons h]
      simpa using ih

/-- A line stands in the text where it starts. -/
theorem getElem?_lineStart (hl : (splitLines s)[j]? = some l) (hk : k < l.length) :
    s[lineStart s j + k]? = l[k]? := by
  induction s using lines_cases generalizing j l k with
  | hnil =>
      cases j with
      | zero =>
          cases hl
          simp at hk
      | succ j => simp [splitLines] at hl
  | hcrlf s ih =>
      rw [splitLines] at hl
      cases j with
      | zero =>
          cases hl
          simp at hk
      | succ j =>
          rw [lineStart, ← ih hl hk, Nat.add_assoc, Nat.add_comm 2, List.getElem?_cons_succ,
            List.getElem?_cons_succ]
  | hlf s ih =>
      rw [splitLines] at hl
      cases j with
      | zero =>
          cases hl
          simp at hk
      | succ j => rw [lineStart, ← ih hl hk, Nat.add_assoc, Nat.add_comm 1, List.getElem?_cons_succ]
  | hchar c s h ih =>
      obtain ⟨l₀, ls, hs⟩ := List.exists_cons_of_ne_nil (splitLines_ne_nil s)
      rw [splitLines_cons h, hs, List.modifyHead_cons] at hl
      rw [hs] at ih
      cases j with
      | zero =>
          obtain rfl := Option.some.inj hl
          rw [lineStart, Nat.zero_add]
          cases k with
          | zero => rfl
          | succ k =>
              rw [List.getElem?_cons_succ, List.getElem?_cons_succ,
                ← @ih l₀ 0 k rfl (Nat.lt_of_succ_lt_succ hk), lineStart, Nat.zero_add]
      | succ j =>
          rw [lineStart_cons h, ← @ih l (j + 1) k hl hk, Nat.add_assoc, Nat.add_comm 1,
            List.getElem?_cons_succ]

/-- A character that is no line break. -/
def NoBreak (c : Char) : Prop := c ≠ '\n' ∧ c ≠ '\r'

/-- Another character in a line changes that line only. -/
theorem splitLines_set (hl : (splitLines s)[j]? = some l) (hk : k < l.length)
    (hold : ∀ d, l[k]? = some d → NoBreak d) (hb : NoBreak b) :
    splitLines (s.set (lineStart s j + k) b) = (splitLines s).set j (l.set k b) := by
  induction s using lines_cases generalizing j l k with
  | hnil =>
      cases j with
      | zero =>
          cases hl
          simp at hk
      | succ j => simp [splitLines] at hl
  | hcrlf s ih =>
      rw [splitLines] at hl ⊢
      cases j with
      | zero =>
          cases hl
          simp at hk
      | succ j =>
          rw [lineStart, Nat.add_assoc, Nat.add_comm 2, List.set_cons_succ, List.set_cons_succ,
            splitLines, ih hl hk hold, List.set_cons_succ]
  | hlf s ih =>
      rw [splitLines] at hl ⊢
      cases j with
      | zero =>
          cases hl
          simp at hk
      | succ j =>
          rw [lineStart, Nat.add_assoc, Nat.add_comm 1, List.set_cons_succ, splitLines,
            ih hl hk hold, List.set_cons_succ]
  | hchar c s h ih =>
      obtain ⟨l₀, ls, hs⟩ := List.exists_cons_of_ne_nil (splitLines_ne_nil s)
      rw [splitLines_cons h, hs, List.modifyHead_cons] at hl ⊢
      rw [hs] at ih
      cases j with
      | zero =>
          obtain rfl := Option.some.inj hl
          rw [lineStart, Nat.zero_add]
          cases k with
          | zero =>
              have hinline : Inline b s := ⟨hb.1, fun hcr => hb.2 hcr.1⟩
              rw [List.set_cons_zero, splitLines_cons hinline, hs]
              rfl
          | succ k =>
              have hk' : k < l₀.length := Nat.lt_of_succ_lt_succ hk
              have hrest := @ih l₀ 0 k rfl hk' (fun d hd => hold d hd)
              rw [lineStart, Nat.zero_add] at hrest
              rw [List.set_cons_succ, splitLines_cons (h.set hb.1), hrest]
              rfl
      | succ j =>
          have hrest := @ih l (j + 1) k hl hk hold
          rw [lineStart_cons h, Nat.add_assoc, Nat.add_comm 1, List.set_cons_succ,
            splitLines_cons (h.set hb.1), hrest]
          rfl

/-! ## Texts with one kind of line break -/

/-- Every line break is `newline`. -/
def Uniform (newline : List Char) : List Char → Prop
  | [] => True
  | '\r' :: '\n' :: s => newline = ['\r', '\n'] ∧ Uniform newline s
  | '\n' :: s => newline = ['\n'] ∧ Uniform newline s
  | _ :: s => Uniform newline s

variable {newline : List Char}

theorem uniform_cons (h : Inline c s) : Uniform newline (c :: s) ↔ Uniform newline s := by
  rw [Uniform]
  · rintro s' rfl rfl
    exact h.2 ⟨rfl, rfl⟩
  · exact h.1

theorem not_prefix_of_inline (hnewline : newline = ['\n'] ∨ newline = ['\r', '\n'])
    (h : Inline c s) : ¬ newline <+: c :: s := by
  rcases hnewline with rfl | rfl
  · rintro ⟨r, hr⟩
    exact h.1 (List.cons.inj hr).1.symm
  · rintro ⟨r, hr⟩
    obtain ⟨rfl, hs⟩ := List.cons.inj hr
    exact h.2 ⟨rfl, by rw [← hs]; rfl⟩

/-- Then the parts at the line break are the lines, and start where these do. -/
theorem splitSep_uniform (hnewline : newline = ['\n'] ∨ newline = ['\r', '\n'])
    (h : Uniform newline s) : splitSep newline s = splitLines s ∧
      ∀ j, j < (splitLines s).length → partStart newline (splitLines s) j = lineStart s j := by
  have hne : newline ≠ [] := by
    rcases hnewline with rfl | rfl <;> exact List.cons_ne_nil _ _
  have hbreak : ∀ s, splitSep newline s = splitLines s ∧
      (∀ j, j < (splitLines s).length → partStart newline (splitLines s) j = lineStart s j) →
      splitSep newline (newline ++ s) = [] :: splitLines s ∧
      ∀ j, j < (splitLines s).length →
        partStart newline ([] :: splitLines s) (j + 1) = newline.length + lineStart s j := by
    rintro s ⟨hsplit, hstart⟩
    refine ⟨by rw [splitSep_separator hne, hsplit], fun j hj => ?_⟩
    rw [partStart, List.length_nil, Nat.zero_add, hstart j hj]
  induction s using lines_cases with
  | hnil =>
      refine ⟨rfl, fun j hj => ?_⟩
      obtain rfl : j = 0 := Nat.lt_one_iff.mp hj
      rfl
  | hcrlf s ih =>
      obtain ⟨rfl, h⟩ := h
      obtain ⟨hsplit, hstart⟩ := hbreak s (ih h)
      rw [splitLines]
      refine ⟨hsplit, fun j hj => ?_⟩
      cases j with
      | zero => rfl
      | succ j => exact hstart j (Nat.lt_of_succ_lt_succ hj)
  | hlf s ih =>
      obtain ⟨rfl, h⟩ := h
      obtain ⟨hsplit, hstart⟩ := hbreak s (ih h)
      rw [splitLines]
      refine ⟨hsplit, fun j hj => ?_⟩
      cases j with
      | zero => rfl
      | succ j => exact hstart j (Nat.lt_of_succ_lt_succ hj)
  | hchar c s hc ih =>
      obtain ⟨hsplit, hstart⟩ := ih ((uniform_cons hc).mp h)
      rw [splitLines_cons hc, splitSep_cons (not_prefix_of_inline hnewline hc), hsplit]
      refine ⟨rfl, fun j hj => ?_⟩
      obtain ⟨l₀, ls, hs⟩ := List.exists_cons_of_ne_nil (splitLines_ne_nil s)
      rw [hs] at hstart hj ⊢
      cases j with
      | zero => rfl
      | succ j =>
          rw [lineStart_cons hc, ← hstart (j + 1) hj, List.modifyHead_cons, partStart, partStart,
            List.length_cons]
          omega

end Lines

end Openlia.Lib

import Mathlib.Data.List.TakeWhile
import Mathlib.Tactic.Common

/-! # Texts cut at separators

A text is cut at the first occurrence of an element, at all of them, or into words with runs of
blanks between them.
-/

namespace Openlia.Lib

variable {α : Type} {a b s t l rest : List α} {c : α}

/-- Two lists are cut alike at the first occurrence of an element. -/
theorem cut_inj (ha : c ∉ a) (hb : c ∉ b) (h : a ++ c :: s = b ++ c :: t) : a = b ∧ s = t := by
  induction a generalizing b with
  | nil =>
      cases b with
      | nil => exact ⟨rfl, (List.cons.inj h).2⟩
      | cons d b =>
          obtain rfl := (List.cons.inj h).1
          exact absurd List.mem_cons_self hb
  | cons d a ih =>
      cases b with
      | nil =>
          obtain rfl := (List.cons.inj h).1
          exact absurd List.mem_cons_self ha
      | cons e b =>
          obtain ⟨rfl, htail⟩ := List.cons.inj h
          obtain ⟨rfl, rfl⟩ := ih (fun hm => ha (List.mem_cons_of_mem _ hm))
            (fun hm => hb (List.mem_cons_of_mem _ hm)) htail
          exact ⟨rfl, rfl⟩

/-- What does not have an element stands on one side of it. -/
theorem infix_around (hl : c ∉ l) (hne : l ≠ []) (h : l <:+: a ++ c :: b) : l <:+: a ∨ l <:+: b := by
  rcases List.infix_append_iff.mp h with hleft | hright | ⟨l₁, l₂, rfl, hl₁, hl₂⟩
  · exact .inl hleft
  · rcases List.infix_cons_iff.mp hright with hprefix | hinside
    · obtain ⟨d, l, rfl⟩ := List.exists_cons_of_ne_nil hne
      obtain ⟨tail, htail⟩ := hprefix
      rw [List.cons_append, List.cons.injEq] at htail
      exact absurd (htail.1 ▸ List.mem_cons_self) hl
    · exact .inr hinside
  · cases l₂ with
    | nil => exact .inl (by simpa using hl₁.isInfix)
    | cons d l₂ =>
        obtain ⟨tail, htail⟩ := hl₂
        rw [List.cons_append, List.cons.injEq] at htail
        exact absurd (htail.1 ▸ List.mem_append_right l₁ List.mem_cons_self) hl

/-! ## Parts -/

section Parts

variable [DecidableEq α]

/-- A part of a list has no separator and only elements of the list. -/
theorem of_mem_splitOn (h : l ∈ s.splitOn c) : c ∉ l ∧ ∀ x ∈ l, x ∈ s := by
  induction s generalizing l with
  | nil =>
      rw [List.splitOn_nil, List.mem_singleton] at h
      simp [h]
  | cons b s ih =>
      rw [List.splitOn_cons_eq_if_modifyHead] at h
      split at h
      · rcases List.mem_cons.mp h with rfl | h
        · simp
        · exact ⟨(ih h).1, fun x hx => List.mem_cons_of_mem _ ((ih h).2 x hx)⟩
      · rename_i hb
        obtain ⟨first, others, hsplit⟩ := List.exists_cons_of_ne_nil (List.splitOn_ne_nil c s)
        rw [hsplit, List.modifyHead_cons] at h
        rw [hsplit] at ih
        rcases List.mem_cons.mp h with rfl | h
        · obtain ⟨hfirst, hmem⟩ := ih List.mem_cons_self
          have hne : c ≠ b := fun hcb => hb (by simp [hcb])
          refine ⟨by simp [hne, hfirst], fun x hx => ?_⟩
          rcases List.mem_cons.mp hx with rfl | hx
          · exact List.mem_cons_self
          · exact List.mem_cons_of_mem _ (hmem x hx)
        · obtain ⟨hl, hmem⟩ := ih (List.mem_cons_of_mem _ h)
          exact ⟨hl, fun x hx => List.mem_cons_of_mem _ (hmem x hx)⟩

/-- A list without the separator, or one that is cut at the first and the second one. -/
theorem splitOn_cases (c : α) (s : List α) : c ∉ s ∨ ∃ a b rest parts, c ∉ a ∧ c ∉ b ∧
    s = a ++ c :: (b ++ rest) ∧ (rest = [] ∨ c ∈ rest) ∧ s.splitOn c = a :: b :: parts := by
  by_cases hmem : c ∈ s
  · obtain ⟨a, after, rfl, ha⟩ := List.eq_append_cons_of_mem hmem
    by_cases hafter : c ∈ after
    · obtain ⟨b, rest, rfl, hb⟩ := List.eq_append_cons_of_mem hafter
      exact Or.inr ⟨a, b, c :: rest, rest.splitOn c, ha, hb, rfl, Or.inr List.mem_cons_self,
        by rw [List.splitOn_append_cons_self_of_not_mem ha,
          List.splitOn_append_cons_self_of_not_mem hb]⟩
    · exact Or.inr ⟨a, after, [], [], ha, hafter, by simp, Or.inl rfl,
        by rw [List.splitOn_append_cons_self_of_not_mem ha, List.splitOn_eq_singleton hafter]⟩
  · exact Or.inl hmem

theorem takeWhile_ne_eq_self (h : c ∉ s) : s.takeWhile (· ≠ c) = s := by
  rw [List.takeWhile_eq_self_iff]
  exact fun d hd => decide_eq_true fun heq => h (heq ▸ hd)

theorem dropWhile_ne_eq_nil (h : c ∉ s) : s.dropWhile (· ≠ c) = [] := by
  have hall := List.takeWhile_append_dropWhile (p := fun d => decide (d ≠ c)) (l := s)
  rw [takeWhile_ne_eq_self h] at hall
  simpa using hall

theorem takeWhile_ne_append (h : c ∉ a) (s : List α) : (a ++ c :: s).takeWhile (· ≠ c) = a := by
  have hall : ∀ d ∈ a, decide (d ≠ c) = true := fun d hd => decide_eq_true fun heq => h (heq ▸ hd)
  rw [List.takeWhile_append_of_pos hall]
  simp

theorem dropWhile_ne_append (h : c ∉ a) (s : List α) :
    (a ++ c :: s).dropWhile (· ≠ c) = c :: s := by
  have hall := List.takeWhile_append_dropWhile (p := fun d => decide (d ≠ c)) (l := a ++ c :: s)
  rw [takeWhile_ne_append h] at hall
  exact List.append_cancel_left hall

/-- The list up to a second separator. -/
def firstTwo (c : α) (s : List α) : List α :=
  match s.splitOn c with
  | a :: b :: _ => a ++ c :: b
  | _ => s

theorem firstTwo_of_notMem (h : c ∉ s) : firstTwo c s = s := by
  rw [firstTwo, List.splitOn_eq_singleton h]

theorem firstTwo_eq {parts : List (List α)} (h : s.splitOn c = a :: b :: parts) :
    firstTwo c s = a ++ c :: b := by
  rw [firstTwo, h]

theorem mem_of_mem_firstTwo {d : α} (h : d ∈ firstTwo c s) : d ∈ s := by
  rcases splitOn_cases c s with hs | ⟨a, b, rest, parts, -, -, rfl, -, hsplit⟩
  · rwa [firstTwo_of_notMem hs] at h
  · rw [firstTwo_eq hsplit] at h
    simp only [List.mem_append, List.mem_cons] at h ⊢
    tauto

theorem firstTwo_eq_self_iff : firstTwo c s = s ↔ s.count c ≤ 1 := by
  rcases splitOn_cases c s with h | ⟨a, b, rest, parts, ha, hb, rfl, hrest, hsplit⟩
  · simp [firstTwo_of_notMem h, List.count_eq_zero_of_not_mem h]
  · rw [firstTwo_eq hsplit]
    rcases hrest with rfl | hrest
    · simp [List.count_eq_zero_of_not_mem ha, List.count_eq_zero_of_not_mem hb]
    · have hpos := List.count_pos_iff.mpr hrest
      have hne : rest ≠ [] := List.ne_nil_of_mem hrest
      constructor
      · intro h
        simp [hne] at h
      · intro h
        simp at h
        omega

end Parts

/-! ## Joined parts -/

section Joined

variable {ps qs : List (List α)}

theorem mem_intercalate {d : α} (h : c ∈ [d].intercalate ps) : c = d ∨ ∃ p ∈ ps, c ∈ p := by
  induction ps with
  | nil => cases h
  | cons p ps ih =>
      cases ps with
      | nil => exact Or.inr ⟨p, List.mem_cons_self, by simpa using h⟩
      | cons q ps =>
          rw [List.intercalate_cons_cons, List.mem_append, List.mem_append] at h
          rcases h with (h | h) | h
          · exact Or.inr ⟨p, List.mem_cons_self, h⟩
          · exact Or.inl (List.mem_singleton.mp h)
          · rcases ih h with hd | ⟨r, hr, hc⟩
            · exact Or.inl hd
            · exact Or.inr ⟨r, List.mem_cons_of_mem p hr, hc⟩

theorem intercalate_append (hp : ps ≠ []) (hq : qs ≠ []) :
    [c].intercalate (ps ++ qs) = [c].intercalate ps ++ c :: [c].intercalate qs := by
  induction ps with
  | nil => exact absurd rfl hp
  | cons p ps ih =>
      cases ps with
      | nil => simp [List.intercalate_cons_of_ne_nil, hq]
      | cons p' ps =>
          have htail := ih (by simp)
          simp only [List.cons_append, List.intercalate_cons_cons] at htail ⊢
          rw [htail]
          simp

/-- Parts that are not empty and have no separator are determined by the joined list. -/
theorem intercalate_inj [DecidableEq α] (hp : ∀ p ∈ ps, c ∉ p ∧ p ≠ [])
    (hq : ∀ q ∈ qs, c ∉ q ∧ q ≠ []) (h : [c].intercalate ps = [c].intercalate qs) : ps = qs := by
  have hsplit : ∀ {rs : List (List α)}, (∀ r ∈ rs, c ∉ r ∧ r ≠ []) → rs ≠ [] →
      ([c].intercalate rs).splitOn c = rs := fun hr hne =>
    List.splitOn_intercalate c (fun r hr' => (hr r hr').1) hne
  have hnil : ∀ {rs : List (List α)}, (∀ r ∈ rs, c ∉ r ∧ r ≠ []) → [c].intercalate rs = [] →
      rs = [] := by
    intro rs hr hrs
    by_contra hne
    have hsingle := hsplit hr hne
    rw [hrs, List.splitOn_nil] at hsingle
    exact (hr [] (hsingle ▸ List.mem_singleton_self [])).2 rfl
  by_cases hps : ps = []
  · subst hps
    exact (hnil hq h.symm).symm
  · have hqs : qs ≠ [] := by
      rintro rfl
      exact hps (hnil hp h)
    rw [← hsplit hp hps, h, hsplit hq hqs]

/-- A list comes before a longer one that begins with it. -/
theorem compare_append [Ord α] [Std.ReflCmp (α := α) compare] (s : List α) (c : α) (t : List α) :
    compare s (s ++ c :: t) = .lt := by
  induction s with
  | nil => rfl
  | cons d s ih =>
      have hd : compare d d = .eq := Std.ReflCmp.compare_self
      rw [List.cons_append, List.compare_cons_cons, ih, hd]
      rfl

end Joined

/-! ## Words -/

section Words

variable {blank : α → Bool} {w : List α} {ws ws' : List (List α)}

/-- Words with blanks between them, and perhaps around them. -/
inductive WordsOf (blank : α → Bool) : List (List α) → List α → Prop
  | none {s : List α} : (∀ c ∈ s, blank c = true) → WordsOf blank [] s
  | word {before w rest : List α} {ws : List (List α)} : (∀ c ∈ before, blank c = true) → w ≠ [] →
      (∀ c ∈ w, blank c = false) → (∀ c ∈ rest.head?, blank c = true) → WordsOf blank ws rest →
      WordsOf blank (w :: ws) (before ++ (w ++ rest))

/-- The runs without blanks. -/
def words (blank : α → Bool) (s : List α) : List (List α) := (s.splitOnP blank).filter (· ≠ [])

theorem words_blank (hc : blank c = true) (s : List α) : words blank (c :: s) = words blank s := by
  rw [words, List.splitOnP_cons_eq_if_modifyHead, if_pos hc]
  simp [words]

theorem words_blanks (h : ∀ c ∈ a, blank c = true) (s : List α) :
    words blank (a ++ s) = words blank s := by
  induction a with
  | nil => rfl
  | cons c a ih =>
      rw [List.cons_append, words_blank (h c List.mem_cons_self)]
      exact ih fun d hd => h d (List.mem_cons_of_mem c hd)

theorem words_word (hne : w ≠ []) (hw : ∀ c ∈ w, blank c = false)
    (hrest : ∀ c ∈ rest.head?, blank c = true) :
    words blank (w ++ rest) = w :: words blank rest := by
  cases rest with
  | nil =>
      rw [List.append_nil, words, List.splitOnP_eq_singleton hw]
      simp [words, hne]
  | cons c rest =>
      have hc := hrest c rfl
      rw [words_blank hc, words, List.splitOnP_append_cons_of_forall_mem hw c hc]
      simp [words, hne]

theorem WordsOf.eq_words (h : WordsOf blank ws s) : words blank s = ws := by
  induction h with
  | @none s h => simpa [words] using words_blanks h []
  | word hbefore hne hw hrest _ ih => rw [words_blanks hbefore, words_word hne hw hrest, ih]

theorem WordsOf.cons (hc : blank c = true) (h : WordsOf blank ws s) : WordsOf blank ws (c :: s) := by
  cases h with
  | none hs => exact .none (List.forall_mem_cons.mpr ⟨hc, hs⟩)
  | word hbefore hne hw hrest h =>
      exact .word (List.forall_mem_cons.mpr ⟨hc, hbefore⟩) hne hw hrest h

/-- Every list consists of words. -/
theorem exists_wordsOf (blank : α → Bool) (s : List α) : ∃ ws, WordsOf blank ws s := by
  have hnil : ∀ c ∈ ([] : List α), blank c = true := fun c hc => nomatch hc
  induction s with
  | nil => exact ⟨[], .none hnil⟩
  | cons c s ih =>
      obtain ⟨ws, h⟩ := ih
      cases hc : blank c with
      | true => exact ⟨ws, h.cons hc⟩
      | false =>
          have hsingle : ∀ d ∈ [c], blank d = false := by simpa using hc
          cases h with
          | none hs =>
              refine ⟨[[c]], .word hnil (List.cons_ne_nil c []) hsingle (fun d hd => ?_) (.none hs)⟩
              exact hs d (List.mem_of_mem_head? hd)
          | @word before w rest ws hbefore hne hw hrest h =>
              cases before with
              | nil =>
                  exact ⟨(c :: w) :: ws, .word hnil (List.cons_ne_nil c w)
                    (List.forall_mem_cons.mpr ⟨hc, hw⟩) hrest h⟩
              | cons d before =>
                  refine ⟨[c] :: w :: ws, .word hnil (List.cons_ne_nil c []) hsingle
                    (fun e he => ?_) (.word hbefore hne hw hrest h)⟩
                  exact hbefore e (by simp_all)

theorem wordsOf_iff : WordsOf blank ws s ↔ words blank s = ws := by
  constructor
  · exact WordsOf.eq_words
  · rintro rfl
    obtain ⟨ws, h⟩ := exists_wordsOf blank s
    rwa [h.eq_words]

theorem WordsOf.append (h : WordsOf blank ws s) (ht : ∀ c ∈ t, blank c = true) :
    WordsOf blank ws (s ++ t) := by
  induction h with
  | none hs => exact .none (List.forall_mem_append.mpr ⟨hs, ht⟩)
  | @word before w rest ws hbefore hne hw hrest _ ih =>
      rw [List.append_assoc, List.append_assoc]
      refine .word hbefore hne hw (fun c hc => ?_) ih
      cases rest with
      | nil => exact ht c (List.mem_of_mem_head? hc)
      | cons d rest => exact hrest c hc

/-- Blanks around the words are of no account. -/
theorem words_trim (s : List α) :
    words blank ((s.dropWhile blank).reverse.dropWhile blank).reverse = words blank s := by
  have hfront : words blank (s.dropWhile blank) = words blank s := by
    conv_rhs => rw [← List.takeWhile_append_dropWhile (p := blank) (l := s)]
    exact (words_blanks (fun c hc => List.mem_takeWhile_imp hc) _).symm
  rw [← hfront]
  generalize s.dropWhile blank = t
  have hback : t = (t.reverse.dropWhile blank).reverse ++ (t.reverse.takeWhile blank).reverse := by
    rw [← List.reverse_append, List.takeWhile_append_dropWhile, List.reverse_reverse]
  conv_rhs => rw [hback]
  have hwords := wordsOf_iff.mpr (rfl : words blank (t.reverse.dropWhile blank).reverse = _)
  refine (hwords.append fun c hc => ?_).eq_words.symm
  exact List.mem_takeWhile_imp (List.mem_reverse.mp hc)

end Words

end Openlia.Lib

import Openlia.Cron.Jobs
import Openlia.Lib.Separators

/-! # Cron expressions

What `validateCronExpression` accepts, compared with the grammar of the five fields. An item is
split at its separators and only the first two pieces are looked at, so that what follows a second
separator is never read.
-/

namespace Openlia.Cron

open Lib
open Browser (trim isSpace)

abbrev Text := List Char

/-! ## The grammar -/

/-- `n` -/
structure Bounded (limit : FieldLimit) (n : Text) : Prop where
  digits : isDigits n = true
  lower : limit.min ≤ decimal n
  upper : decimal n ≤ limit.max

/-- `*`, `n` or `n-m` -/
inductive Range (limit : FieldLimit) : Text → Prop
  | any : Range limit ['*']
  | value {n : Text} : Bounded limit n → Range limit n
  | span {n m : Text} : Bounded limit n → Bounded limit m → decimal n ≤ decimal m →
      Range limit (n ++ '-' :: m)

/-- A range, with a step or without. -/
inductive Item (limit : FieldLimit) : Text → Prop
  | plain {s : Text} : Range limit s → Item limit s
  | stepped {s step : Text} : Range limit s → isDigits step = true → 0 < decimal step →
      Item limit (s ++ '/' :: step)

/-- Items with commas between them. -/
def Field (limit : FieldLimit) (field : Text) : Prop :=
  ∃ items : List Text, items ≠ [] ∧ field = [','].intercalate items ∧ ∀ item ∈ items, Item limit item

def Expression (expression : String) : Prop :=
  ∃ fields, WordsOf isSpace fields expression.toList ∧ List.Forall₂ Field fieldLimits fields

/-! ## What is read -/

/-- What is read of an item. -/
def readPart (item : Text) : Text :=
  match item.splitOn '/' with
  | base :: step :: _ => firstTwo '-' base ++ '/' :: step
  | _ => firstTwo '-' item

/-- An item without a second `/`, and without a second `-` before it. -/
def Single (item : Text) : Prop :=
  item.count '/' ≤ 1 ∧ (item.takeWhile (· ≠ '/')).count '-' ≤ 1

instance (item : Text) : Decidable (Single item) := inferInstanceAs (Decidable (_ ∧ _))

def SingleSeparators (expression : String) : Prop :=
  ∀ field ∈ words isSpace expression.toList, ∀ item ∈ field.splitOn ',', Single item

instance (expression : String) : Decidable (SingleSeparators expression) :=
  inferInstanceAs (Decidable (∀ field ∈ _, ∀ item ∈ _, _))

/-- An expression of the grammar when what follows a second separator is dropped. -/
def ExpressionWhenCut (expression : String) : Prop :=
  ∃ fields, WordsOf isSpace fields expression.toList ∧
    List.Forall₂ (fun limit field => ∀ item ∈ field.splitOn ',', Item limit (readPart item))
      fieldLimits fields

/-! ## Items -/

section Items

variable {limit : FieldLimit} {s item : Text} {c : Char}

theorem isDigits_notMem (h : isDigits s = true) (hc : c.isDigit = false) : c ∉ s := by
  rw [isDigits, Bool.and_eq_true, List.all_eq_true] at h
  intro hmem
  rw [h.2 c hmem] at hc
  cases hc

theorem not_range_nil : ¬ Range limit [] := by
  generalize hs : ([] : Text) = s
  intro h
  cases h with
  | any => cases hs
  | value hn =>
      subst hs
      exact absurd hn.digits (by decide)
  | span => simp at hs

theorem Range.notMem (h : Range limit s) (hc : c.isDigit = false) (hstar : c ≠ '*')
    (hdash : c ≠ '-') : c ∉ s := by
  cases h with
  | any => simpa using hstar
  | value hn => exact isDigits_notMem hn.digits hc
  | span hn hm =>
      have hn := isDigits_notMem hn.digits hc
      have hm := isDigits_notMem hm.digits hc
      simp_all

theorem Range.slash (h : Range limit s) : '/' ∉ s := h.notMem (by decide) (by decide) (by decide)

theorem Range.count_dash (h : Range limit s) : s.count '-' ≤ 1 := by
  have hdash : ∀ {n : Text}, Bounded limit n → n.count '-' = 0 := fun hn =>
    List.count_eq_zero_of_not_mem (isDigits_notMem hn.digits (by decide))
  cases h with
  | any => decide
  | value hn => rw [hdash hn]; omega
  | span hn hm _ => simp [hdash hn, hdash hm]

theorem Item.comma (h : Item limit s) : ',' ∉ s := by
  have hrange : ∀ {t : Text}, Range limit t → ',' ∉ t := fun h =>
    h.notMem (by decide) (by decide) (by decide)
  cases h with
  | plain h => exact hrange h
  | stepped h hstep _ =>
      have hs := hrange h
      have hstep := isDigits_notMem hstep (c := ',') (by decide)
      simp_all

/-- An item of the grammar has no second separator. -/
theorem Item.single (h : Item limit s) : Single s := by
  cases h with
  | plain h =>
      rw [Single, takeWhile_ne_eq_self h.slash, List.count_eq_zero_of_not_mem h.slash]
      exact ⟨by omega, h.count_dash⟩
  | stepped h hstep _ =>
      have hstep := List.count_eq_zero_of_not_mem (isDigits_notMem hstep (c := '/') (by decide))
      rw [Single, takeWhile_ne_append h.slash]
      refine ⟨?_, h.count_dash⟩
      simp [List.count_eq_zero_of_not_mem h.slash, hstep]

/-- An item is read whole when it has no second separator. -/
theorem readPart_eq_self_iff : readPart item = item ↔ Single item := by
  rcases splitOn_cases '/' item with h | ⟨base, step, rest, parts, hbase, hstep, rfl, hrest, hsplit⟩
  · rw [readPart, List.splitOn_eq_singleton h, Single, takeWhile_ne_eq_self h,
      List.count_eq_zero_of_not_mem h, firstTwo_eq_self_iff]
    simp
  · have hcount : (base ++ '/' :: (step ++ rest)).count '/' ≤ 1 ↔ rest = [] := by
      simp only [List.count_append, List.count_cons_self, List.count_eq_zero_of_not_mem hbase,
        List.count_eq_zero_of_not_mem hstep]
      rcases hrest with rfl | hrest
      · simp
      · have hpos := List.count_pos_iff.mpr hrest
        exact ⟨fun h => by omega, fun h => absurd h (List.ne_nil_of_mem hrest)⟩
    rw [readPart, hsplit, Single, takeWhile_ne_append hbase, hcount, ← firstTwo_eq_self_iff]
    constructor
    · intro h
      obtain ⟨hbase', hrest'⟩ := cut_inj (fun hm => hbase (mem_of_mem_firstTwo hm)) hbase h
      exact ⟨by simpa using hrest', hbase'⟩
    · rintro ⟨rfl, h⟩
      simp [h]

/-- A range is accepted by its first two pieces. -/
theorem validateRange_iff (limit : FieldLimit) (sub : String) (hs : s ≠ ['*']) :
    validateRange limit sub s = none ↔ Range limit (firstTwo '-' s) := by
  rcases splitOn_cases '-' s with h | ⟨n, m, rest, parts, hn, -, rfl, -, hsplit⟩
  · rw [validateRange, if_neg h, firstTwo_of_notMem h]
    constructor
    · intro hnone
      split at hnone
      · cases hnone
      · rename_i hdigits
        split at hnone
        · cases hnone
        · exact Range.value ⟨by simpa using hdigits, by omega, by omega⟩
    · intro hrange
      cases hrange with
      | any => exact absurd rfl hs
      | value hv =>
          have hlower := hv.lower
          have hupper := hv.upper
          rw [if_neg (by simp [hv.digits]), if_neg (by omega)]
      | span => simp at h
  · rw [validateRange, if_pos (by simp), firstTwo_eq hsplit, hsplit]
    simp only [List.getD_cons_zero, List.getD_cons_succ]
    constructor
    · intro hnone
      split at hnone
      · cases hnone
      · rename_i hdigits
        split at hnone
        · cases hnone
        · have hdigits : isDigits n = true ∧ isDigits m = true := by simpa using hdigits
          exact Range.span ⟨hdigits.1, by omega, by omega⟩ ⟨hdigits.2, by omega, by omega⟩ (by omega)
    · generalize htext : n ++ '-' :: m = text
      intro hrange
      cases hrange with
      | any => simpa using congrArg (List.count '-') htext
      | value hv => exact absurd (htext ▸ by simp) (isDigits_notMem hv.digits (c := '-') (by decide))
      | span hn' hm' hle =>
          obtain ⟨rfl, rfl⟩ := cut_inj hn (isDigits_notMem hn'.digits (by decide)) htext
          have hlower := hn'.lower
          have hupper := hm'.upper
          rw [if_neg (by simp [hn'.digits, hm'.digits]), if_neg (by omega)]

theorem item_iff_range (h : '/' ∉ s) : Item limit s ↔ Range limit s := by
  constructor
  · intro hi
    cases hi with
    | plain hr => exact hr
    | stepped => simp at h
  · exact Item.plain

theorem item_stepped_iff {step : Text} (h : '/' ∉ s) : Item limit (s ++ '/' :: step) ↔
    Range limit s ∧ isDigits step = true ∧ 0 < decimal step := by
  constructor
  · generalize htext : s ++ '/' :: step = text
    intro hi
    cases hi with
    | plain hr => exact absurd (htext ▸ by simp) hr.slash
    | stepped hr hd hpos =>
        obtain ⟨rfl, rfl⟩ := cut_inj h hr.slash htext
        exact ⟨hr, hd, hpos⟩
  · intro h
    exact Item.stepped h.1 h.2.1 h.2.2

/-- The code accepts an item when what it reads of it is one of the grammar. -/
theorem validateItem_iff : validateItem limit item = none ↔ Item limit (readPart item) := by
  have hany : Range limit (firstTwo '-' ['*']) := Range.any
  rcases splitOn_cases '/' item with h | ⟨base, step, rest, parts, hbase, -, rfl, -, hsplit⟩
  · rw [readPart, List.splitOn_eq_singleton h,
      item_iff_range fun hm => h (mem_of_mem_firstTwo hm), validateItem]
    by_cases hnil : item = []
    · subst hnil
      exact iff_of_false nofun not_range_nil
    · rw [if_neg hnil]
      by_cases hstar : item = ['*']
      · subst hstar
        exact iff_of_true rfl hany
      · rw [if_neg hstar, if_neg h]
        exact validateRange_iff limit _ hstar
  · have hstar : base ++ '/' :: (step ++ rest) ≠ ['*'] := by
      intro heq
      simpa using congrArg (List.count '/') heq
    rw [readPart, hsplit, item_stepped_iff fun hm => hbase (mem_of_mem_firstTwo hm), validateItem,
      if_neg (by simp), if_neg hstar, if_pos (by simp), hsplit]
    simp only [List.getD_cons_zero, List.getD_cons_succ]
    by_cases hbad : base = [] ∨ isDigits step = false ∨ decimal step = 0
    · rw [if_pos hbad]
      refine iff_of_false nofun fun h => ?_
      rcases hbad with rfl | hbad | hbad
      · exact not_range_nil h.1
      · simp [hbad] at h
      · omega
    · simp only [not_or, Bool.not_eq_false] at hbad
      have hstep : isDigits step = true ∧ 0 < decimal step := ⟨hbad.2.1, by omega⟩
      rw [if_neg (by simp [hbad])]
      by_cases hbase' : base = ['*']
      · subst hbase'
        exact iff_of_true rfl ⟨hany, hstep⟩
      · rw [if_neg hbase', validateRange_iff limit _ hbase']
        simp [hstep]

end Items

/-! ## Expressions -/

theorem trim_toList (s : String) :
    (trim s).toList = ((s.toList.dropWhile isSpace).reverse.dropWhile isSpace).reverse := by
  rw [trim, String.toList_ofList]

/-- The items of a field are its parts between commas. -/
theorem field_iff {limit : FieldLimit} {field : Text} :
    Field limit field ↔ ∀ item ∈ field.splitOn ',', Item limit item := by
  constructor
  · rintro ⟨items, hne, rfl, hitems⟩
    rwa [List.splitOn_intercalate _ (fun item hitem => (hitems item hitem).comma) hne]
  · intro h
    exact ⟨field.splitOn ',', List.splitOn_ne_nil _ _, (List.intercalate_splitOn _).symm, h⟩

theorem expression_iff {expression : String} : Expression expression ↔
    List.Forall₂ Field fieldLimits (words isSpace expression.toList) := by
  simp [Expression, wordsOf_iff]

theorem Expression.single {expression : String} (h : Expression expression) :
    SingleSeparators expression := by
  rw [expression_iff, List.forall₂_iff_zip] at h
  intro field hfield item hitem
  obtain ⟨i, hi, rfl⟩ := List.mem_iff_getElem.mp hfield
  have hlimit : i < fieldLimits.length := h.1 ▸ hi
  have hmem : (fieldLimits[i], (words isSpace expression.toList)[i]) ∈
      fieldLimits.zip (words isSpace expression.toList) := by
    rw [List.mem_iff_getElem]
    exact ⟨i, by simp [hlimit, hi], by simp⟩
  exact (field_iff.mp (h.2 hmem) item hitem).single

/-- The code accepts what is an expression as far as it is read. -/
theorem validateCronExpression_iff {expression : String} :
    validateCronExpression expression = none ↔ ExpressionWhenCut expression := by
  have hwords : (((trim expression).toList.splitOnP isSpace).filter (· ≠ [])) =
      words isSpace expression.toList := by
    rw [trim_toList]
    exact words_trim _
  have hlength : fieldLimits.length = 5 := rfl
  simp only [ExpressionWhenCut, wordsOf_iff, exists_eq_left', List.forall₂_iff_zip]
  unfold validateCronExpression
  dsimp only
  rw [hwords]
  by_cases hempty : trim expression = ""
  · have hnil : words isSpace expression.toList = [] := by
      rw [← hwords, hempty]
      rfl
    rw [if_pos hempty, hnil]
    exact iff_of_false nofun fun h => nomatch h.1
  · rw [if_neg hempty]
    by_cases hfive : (words isSpace expression.toList).length = 5
    · rw [if_neg (fun h => h hfive), List.findSome?_eq_none_iff, hlength, hfive]
      simp [validateItem_iff, List.findSome?_eq_none_iff]
    · rw [if_pos hfive]
      exact iff_of_false nofun fun h => hfive (h.1.symm.trans hlength)

/-- Without second separators everything is read. -/
theorem expressionWhenCut_iff {expression : String} (h : SingleSeparators expression) :
    ExpressionWhenCut expression ↔ Expression expression := by
  rw [expression_iff]
  simp only [ExpressionWhenCut, wordsOf_iff, exists_eq_left', List.forall₂_iff_zip]
  refine and_congr_right fun _ => ?_
  have hitem : ∀ {limit : FieldLimit} {field : Text},
      (limit, field) ∈ fieldLimits.zip (words isSpace expression.toList) →
      ((∀ item ∈ field.splitOn ',', Item limit (readPart item)) ↔ Field limit field) := by
    intro limit field hmem
    have hsingle := h field (List.of_mem_zip hmem).2
    rw [field_iff]
    refine forall₂_congr fun item hitem => ?_
    rw [readPart_eq_self_iff.mpr (hsingle item hitem)]
  constructor
  · intro hall limit field hmem
    exact (hitem hmem).mp (hall hmem)
  · intro hall limit field hmem
    exact (hitem hmem).mpr (hall hmem)

/-- The code accepts exactly the grammar where no separator is repeated, and where the expression
is none even without what follows the repeated ones. -/
theorem accepts_grammar_iff (expression : String) :
    (validateCronExpression expression = none ↔ Expression expression) ↔
      SingleSeparators expression ∨ ¬ ExpressionWhenCut expression := by
  rw [validateCronExpression_iff]
  constructor
  · intro h
    by_cases hcut : ExpressionWhenCut expression
    · exact Or.inl (h.mp hcut).single
    · exact Or.inr hcut
  · rintro (hsingle | hcut)
    · exact expressionWhenCut_iff hsingle
    · refine iff_of_false hcut fun h => hcut ?_
      exact (expressionWhenCut_iff h.single).mpr h

/-- A range with three bounds and a step with a second step are accepted. -/
theorem repeated_separators_accepted :
    (validateCronExpression "1-5-x * * * *" = none ∧ ¬ Expression "1-5-x * * * *") ∧
      validateCronExpression "*/5/x * * * *" = none ∧ ¬ Expression "*/5/x * * * *" := by
  refine ⟨⟨by decide +kernel, fun h => ?_⟩, by decide +kernel, fun h => ?_⟩
  · exact absurd h.single (by decide +kernel)
  · exact absurd h.single (by decide +kernel)

end Openlia.Cron

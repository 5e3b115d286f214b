import Openlia.Ingestion.PagesAgree
import Openlia.Lib.Separators

/-! # The pages that the adapter publishes

Texts of pages are published one after the other, each after its marker. Where every page
but the last has a text and no text holds what looks like a marker, each page is found
again under its number.
-/

namespace Openlia.Ingestion

open Lib
open Policy (Text strip isSpace)

section Published

variable {texts : List Text} {t before after gap : Text} {i k n : Nat}

/-- The pages from some number on. -/
def joinFrom (k : Nat) (texts : List Text) : Text :=
  List.intercalate ['\n'] ((texts.zipIdx k).map fun x => pageBlock x.1 x.2)

theorem joinPages_eq (texts : List Text) : joinPages texts = joinFrom 1 texts := rfl

/-- What follows a page. -/
def pagesAfter (k : Nat) (texts : List Text) : Text :=
  if texts = [] then [] else '\n' :: joinFrom (k + 1) texts

theorem joinFrom_cons (k : Nat) (t : Text) (texts : List Text) :
    joinFrom k (t :: texts) = pageBlock t k ++ pagesAfter k texts := by
  cases texts with
  | nil => simp [joinFrom, pagesAfter]
  | cons t' texts =>
      rw [joinFrom, List.zipIdx_cons, List.map_cons, List.zipIdx_cons, List.map_cons,
        List.intercalate_cons_cons, pagesAfter, if_neg (List.cons_ne_nil _ _), List.append_assoc]
      rfl

theorem newline_toList₂ : "\n\n".toList = ['\n', '\n'] := rfl

/-- The text of a page between its marker and the next one. -/
def pageBody (t : Text) : Text := "\n\n".toList ++ t ++ ['\n']

theorem pageBlock_eq (t : Text) (k : Nat) : pageBlock t k = pageMarker k ++ pageBody t := by
  rw [pageBlock, pageBody]
  simp only [List.append_assoc]

theorem pagesAfter_cases (k : Nat) (texts : List Text) :
    pagesAfter k texts = [] ∨ '\n' :: pageHeader <+: pagesAfter k texts := by
  cases texts with
  | nil => exact .inl rfl
  | cons t texts =>
      right
      rw [pagesAfter, if_neg (List.cons_ne_nil _ _), joinFrom_cons, pageBlock_eq, pageMarker]
      simp only [List.append_assoc]
      exact ⟨_, rfl⟩

/-- Texts that the marker of a page does not get lost among: no line begins like a marker,
every page but the last has a text, the marker of a page stands in no earlier one, and no
page is longer than a slice. -/
structure PagesClear (texts : List Text) : Prop where
  lines : ∀ t ∈ texts, ¬ '\n' :: pageHeader <:+: '\n' :: t
  shown : ∀ t ∈ texts.dropLast, strip t ≠ []
  first : ∀ i j, i < j → j < texts.length → ∀ t ∈ texts[i]?, ¬ pageMarker (j + 1) <:+: t
  short : ∀ i, ∀ t ∈ texts[i]?, (strip (pageBlock t (i + 1))).length ≤ sliceLimit

/-! ## Slices -/

theorem digits_length_le {m n : Nat} (h : m ≤ n) :
    (Nat.toDigits 10 m).length ≤ (Nat.toDigits 10 n).length := by
  rw [Nat.length_toDigits_le_iff (by decide) Nat.length_toDigits_pos]
  refine Nat.lt_of_le_of_lt h ?_
  rw [← Nat.length_toDigits_le_iff (by decide) Nat.length_toDigits_pos]

/-- The marker of a page stands in none of an earlier page. -/
theorem not_infix_marker {m n : Nat} (h : m < n) : ¬ pageMarker n <:+: pageMarker m := by
  intro hinfix
  have hlength := digits_length_le (Nat.le_of_lt h)
  have heq : pageMarker n = pageMarker m := by
    refine hinfix.eq_of_length_le ?_
    rw [pageMarker, pageMarker, List.length_append, List.length_append]
    omega
  have hdigits := List.append_cancel_left heq
  have hint := congrArg intOf hdigits
  rw [intOf_toDigits, intOf_toDigits] at hint
  omega

theorem not_infix_block {m : Text} (hm : '\n' ∉ m) (hne : m ≠ []) (hmarker : ¬ m <:+: pageMarker k)
    (h : ¬ m <:+: t) : ¬ m <:+: pageBlock t k := by
  have hnil : ¬ m <:+: [] := fun hinfix => hne (List.infix_nil.mp hinfix)
  have hsplit : pageBlock t k = pageMarker k ++ '\n' :: ([] ++ '\n' :: (t ++ '\n' :: [])) := by
    rw [pageBlock_eq, pageBody, newline_toList₂]
    simp
  rw [hsplit]
  intro hinfix
  rcases infix_around_newline hm hne hinfix with hleft | hright
  · exact hmarker hleft
  · rcases infix_around_newline hm hne hright with hempty | hrest
    · exact hnil hempty
    · exact (infix_around_newline hm hne hrest).elim h hnil

/-- Where a page stands among the pages. -/
theorem exists_joinFrom (hi : texts[i]? = some t) :
    ∃ pre, joinFrom k texts = pre ++ (pageMarker (k + i) ++
        (pageBody t ++ pagesAfter (k + i) (texts.drop (i + 1)))) ∧
      (∀ c ∈ pre.getLast?, c = '\n') ∧
      ∀ m : Text, '\n' ∉ m → m ≠ [] → (∀ j < i, ¬ m <:+: pageMarker (k + j)) →
        (∀ j < i, ∀ t' ∈ texts[j]?, ¬ m <:+: t') → ¬ m <:+: pre := by
  induction i generalizing k texts with
  | zero =>
      cases texts with
      | nil => cases hi
      | cons t' texts =>
          cases hi
          refine ⟨[], ?_, by simp, fun m _ hne _ _ hinfix => hne (List.infix_nil.mp hinfix)⟩
          rw [joinFrom_cons, pageBlock_eq, List.append_assoc]
          rfl
  | succ i ih =>
      cases texts with
      | nil => cases hi
      | cons t' texts =>
          rw [List.getElem?_cons_succ] at hi
          obtain ⟨pre, hpre, hlast, hfree⟩ := ih (k := k + 1) hi
          have hne : texts ≠ [] := by
            rintro rfl
            cases hi
          have hnumber : k + 1 + i = k + (i + 1) := by omega
          rw [hnumber] at hpre
          refine ⟨pageBlock t' k ++ '\n' :: pre, ?_, ?_, ?_⟩
          · rw [joinFrom_cons, pagesAfter, if_neg hne, hpre, List.drop_succ_cons]
            simp only [List.append_assoc, List.cons_append]
          · intro c hc
            rw [List.getLast?_append_cons] at hc
            cases pre with
            | nil =>
                cases hc
                rfl
            | cons d pre => exact hlast c hc
          · intro m hm hmne hmarkers htexts hinfix
            rcases infix_around_newline hm hmne hinfix with hleft | hright
            · exact not_infix_block hm hmne (hmarkers 0 (Nat.succ_pos i))
                (htexts 0 (Nat.succ_pos i) t' rfl) hleft
            · refine hfree m hm hmne (fun j hj => ?_) (fun j hj => ?_) hright
              · have hmarker := hmarkers (j + 1) (Nat.succ_lt_succ hj)
                rwa [← Nat.add_assoc, Nat.add_right_comm] at hmarker
              · exact htexts (j + 1) (Nat.succ_lt_succ hj)

/-- No line of a page with its line breaks begins like a marker. -/
theorem not_infix_pageBody (h : ¬ '\n' :: pageHeader <:+: '\n' :: t) :
    ¬ '\n' :: pageHeader <:+: pageBody t := by
  have hbody : pageBody t = '\n' :: ('\n' :: t ++ ['\n']) := rfl
  rw [hbody, List.infix_cons_iff, not_or]
  constructor
  · rintro ⟨tail, htail⟩
    rw [pageHeader_eq] at htail
    simp at htail
  · rintro ⟨ys, zs, hsplit⟩
    rcases List.eq_nil_or_concat zs with rfl | ⟨zs, c, rfl⟩
    · have hlast := congrArg List.getLast? hsplit
      rw [List.append_nil, List.getLast?_append_cons, List.getLast?_append_cons] at hlast
      exact absurd hlast (by decide)
    · rw [List.concat_eq_append, ← List.append_assoc] at hsplit
      exact h ⟨ys, zs, (List.append_inj' hsplit rfl).1⟩

theorem PagesClear.slice (h : PagesClear texts) (hi : texts[i]? = some t) :
    ∃ slice, extractPageSlice (joinPages texts) (some (i + 1 : Nat)) sliceLimit = some slice ∧
      strip (withoutMarker (i + 1) slice) = strip t := by
  obtain ⟨pre, hjoin, hlast, hfree⟩ := exists_joinFrom (k := 1) hi
  rw [Nat.add_comm 1 i] at hjoin
  have hlt : i < texts.length := (List.getElem?_eq_some_iff.mp hi).1
  have hfirst : ¬ pageMarker (i + 1) <:+: pre := by
    refine hfree _ (newline_notMem_marker _) (marker_ne_nil _) (fun j hj => ?_) fun j hj => ?_
    · exact not_infix_marker (by omega)
    · exact h.first j i hj hlt
  have hbody := not_infix_pageBody (h.lines t (List.mem_of_getElem? hi))
  have hslice := extractPageSlice_marker (Nat.succ_pos i) hlast hfirst hbody
    (pagesAfter_cases (i + 1) (texts.drop (i + 1)))
  have hshort : (pageMarker (i + 1) ++ rstrip (pageBody t)).length ≤ sliceLimit := by
    rw [← strip_marker, ← pageBlock_eq]
    exact h.short i t hi
  rw [← hjoin, List.take_of_length_le hshort] at hslice
  refine ⟨_, hslice, ?_⟩
  have hbreaks : ("\n\n".toList).all isSpace = true := by decide
  rw [withoutMarker_append, strip_rstrip, pageBody, List.append_assoc, strip_append_left hbreaks,
    strip_append_right (by decide)]

/-! ## The outline -/

/-- The number of a line is all its digits. -/
theorem digits_eq {l : MarkerLine} {rest : Text}
    (h : l.digits ++ (l.white ++ ['\n'] ++ rest) = Nat.toDigits 10 k ++ '\n' :: after) :
    l.digits = Nat.toDigits 10 k ∧ l.white ++ ['\n'] ++ rest = '\n' :: after := by
  have hspace : (l.white ++ ['\n']).all isSpace = true := by
    rw [List.all_append, l.space]
    rfl
  rcases List.append_eq_append_iff.mp h with ⟨more, hdigits, hrest⟩ | ⟨more, hdigits, hrest⟩
  · cases more with
    | nil => exact ⟨by rw [hdigits, List.append_nil], hrest⟩
    | cons c more =>
        have hc : isSpace c = true := by
          obtain ⟨d, spaces, hspaces⟩ := List.exists_cons_of_ne_nil
            (List.append_ne_nil_of_right_ne_nil l.white (List.cons_ne_nil '\n' []))
          rw [hspaces, List.cons_append, List.cons_append, List.cons.injEq] at hrest
          rw [hspaces, List.all_cons, Bool.and_eq_true] at hspace
          exact hrest.1 ▸ hspace.1
        have hmem : c ∈ Nat.toDigits 10 k := hdigits ▸ List.mem_append_right _ List.mem_cons_self
        rw [not_space_of_digit hmem] at hc
        cases hc
  · cases more with
    | nil => exact ⟨by rw [hdigits, List.append_nil], hrest.symm⟩
    | cons c more =>
        rw [List.cons_append, List.cons.injEq] at hrest
        have hmem : c ∈ l.digits := hdigits ▸ List.mem_append_right _ List.mem_cons_self
        have hdecimal := List.all_eq_true.mp l.decimal c hmem
        rw [← hrest.1] at hdecimal
        exact absurd hdecimal (by decide)

/-- Which text the search goes on with after a marker. -/
theorem marker_found (hplace : before ≠ [] ∧ gap = ['\n'] ∨ before = [] ∧ gap = []) :
    ∃ (l : MarkerLine) (rest : Text),
      pageMarkerPattern.searchFrom before (gap ++ joinFrom k (t :: texts)) =
        some (before.length, lineEnd l before rest) ∧
      l.digits = Nat.toDigits 10 k ∧
      l.white ++ ['\n'] ++ rest = pageBody t ++ pagesAfter k texts := by
  have hjoin : joinFrom k (t :: texts) =
      pageHeader ++ (Nat.toDigits 10 k ++ (pageBody t ++ pagesAfter k texts)) := by
    rw [joinFrom_cons, pageBlock_eq, pageMarker]
    simp only [List.append_assoc]
  have hsome : pageMarkerPattern.matchAt before (gap ++ joinFrom k (t :: texts)) ≠ none := by
    intro hnone
    refine Regex.matchAt_eq_none.mp hnone _ (pageMarker_matches.mpr
      ⟨⟨gap, Nat.toDigits 10 k, ['\n'], Nat.toDigits_ne_nil, toDigits_decimal k, rfl⟩,
        t ++ ['\n'] ++ pagesAfter k texts, ?_, ?_, rfl⟩)
    · exact hplace.imp And.right And.symm
    · rw [hjoin, MarkerLine.line, pageBody, newline_toList₂]
      simp
  obtain ⟨c, hc⟩ := Option.ne_none_iff_exists'.mp hsome
  obtain ⟨c, hmatch, heq⟩ := Regex.matches_of_run hc
  cases heq
  obtain ⟨l, rest, hstart, htext, rfl⟩ := pageMarker_matches.mp hmatch
  have hgap : l.start = gap := by
    rcases hplace with ⟨hbefore, hgap⟩ | ⟨hbefore, hgap⟩
    · rw [hgap]
      exact hstart.resolve_right fun hnone => hbefore hnone.2
    · rcases hstart with hbreak | ⟨hnone, -⟩
      · rw [hgap, hjoin, hbreak, pageHeader_eq] at htext
        simp at htext
      · rw [hnone, hgap]
  rw [hgap] at htext
  have hline := List.append_cancel_left htext
  rw [hjoin, MarkerLine.line, List.append_assoc] at hline
  have hnumber : l.digits ++ (l.white ++ ['\n'] ++ rest) =
      Nat.toDigits 10 k ++ '\n' :: ('\n' :: t ++ ['\n'] ++ pagesAfter k texts) := by
    rw [← List.append_assoc]
    exact (List.append_cancel_left hline).symm
  obtain ⟨hdigits, hrest⟩ := digits_eq hnumber
  exact ⟨l, rest, Regex.searchFrom_of_matchAt hc, hdigits, hrest⟩

/-- What stands between the end of a marker and the next page holds no marker. -/
theorem rest_of_page {l : MarkerLine} {rest : Text} (hlines : ¬ '\n' :: pageHeader <:+: '\n' :: t)
    (hshown : texts ≠ [] → strip t ≠ [])
    (h : l.white ++ ['\n'] ++ rest = pageBody t ++ pagesAfter k texts) :
    ∃ gap, rest = gap ++ pagesAfter k texts ∧ ¬ '\n' :: pageHeader <:+: gap := by
  have hfront : l.white ++ ['\n'] <+: pageBody t := by
    by_cases hnil : texts = []
    · refine ⟨rest, ?_⟩
      rw [h, pagesAfter, if_pos hnil, List.append_nil]
    · rcases List.prefix_or_prefix_of_prefix (h ▸ List.prefix_append _ rest)
        (List.prefix_append (pageBody t) (pagesAfter k texts)) with hleft | hright
      · exact hleft
      · refine absurd (strip_eq_nil_iff.mpr ?_) (hshown hnil)
        rw [List.all_eq_true]
        intro c hc
        have hspace : (l.white ++ ['\n']).all isSpace = true := by
          rw [List.all_append, l.space]
          rfl
        refine List.all_eq_true.mp hspace c (hright.subset ?_)
        rw [pageBody]
        simp [hc]
  obtain ⟨gap, hgap⟩ := hfront
  refine ⟨gap, ?_, fun hinfix => ?_⟩
  · rw [← hgap, List.append_assoc _ gap] at h
    exact List.append_cancel_left h
  · exact not_infix_pageBody hlines (hgap ▸ hinfix.trans (List.suffix_append _ gap).isInfix)

/-- Where no line begins like a marker none is found. -/
theorem searchFrom_none (hbefore : before ≠ []) (h : ¬ '\n' :: pageHeader <:+: gap) :
    pageMarkerPattern.searchFrom before gap = none := by
  cases hsearch : pageMarkerPattern.searchFrom before gap with
  | none => rfl
  | some m =>
      obtain ⟨skipped, l, rest, hplace, hgap, -⟩ := found_marker hsearch
      have hl : l.start = ['\n'] := hplace.resolve_right fun hnone => hbefore
        (List.append_eq_nil_iff.mp hnone.2).2
      refine absurd ⟨skipped, l.digits ++ (l.white ++ ['\n']) ++ rest, ?_⟩ h
      rw [hgap, hl, MarkerLine.line]
      simp

theorem searchFrom_gap (hbefore : before ≠ []) (h : ¬ '\n' :: pageHeader <:+: gap) :
    pageMarkerPattern.searchFrom before (gap ++ ('\n' :: joinFrom k texts)) =
      pageMarkerPattern.searchFrom (gap.reverse ++ before) ('\n' :: joinFrom k texts) := by
  refine Regex.searchFrom_append fun ys zs hgap hzs c hmatch => ?_
  obtain ⟨l, rest, hplace, htext, -⟩ := pageMarker_matches.mp hmatch
  have hl : l.start = ['\n'] := hplace.resolve_right fun hnone => hbefore
    (List.append_eq_nil_iff.mp hnone.2).2
  have hfound : '\n' :: pageHeader <+: zs ++ ('\n' :: joinFrom k texts) := by
    rw [htext, hl, MarkerLine.line, List.append_assoc]
    exact ⟨_, rfl⟩
  have hleft := isPrefix_left newline_notMem_header hzs (by simp) hfound
  exact h (hgap ▸ hleft.isInfix.trans (List.suffix_append ys zs).isInfix)

theorem numbers_found (hbefore : before ≠ []) (hgap : ¬ '\n' :: pageHeader <:+: gap)
    (hlines : ∀ t ∈ texts, ¬ '\n' :: pageHeader <:+: '\n' :: t)
    (hshown : ∀ t ∈ texts.dropLast, strip t ≠ [])
    (hn : (gap ++ pagesAfter k texts).length < n) :
    (pageMarkerPattern.findIterFrom n before (gap ++ pagesAfter k texts)).map
      (fun m => m.2.group "page") = (List.range' (k + 1) texts.length).map (Nat.toDigits 10) := by
  induction texts generalizing k n before gap with
  | nil =>
      cases n with
      | zero => rfl
      | succ n =>
          have hnone : pageMarkerPattern.searchFrom before (gap ++ pagesAfter k []) = none := by
            rw [pagesAfter, if_pos rfl, List.append_nil]
            exact searchFrom_none hbefore hgap
          rw [Regex.findIterFrom, hnone]
          rfl
  | cons t texts ih =>
      cases n with
      | zero => cases hn
      | succ n =>
          have hafter : pagesAfter k (t :: texts) = '\n' :: joinFrom (k + 1) (t :: texts) := by
            rw [pagesAfter, if_neg (List.cons_ne_nil _ _)]
          have hinside : gap.reverse ++ before ≠ [] :=
            List.append_ne_nil_of_right_ne_nil _ hbefore
          obtain ⟨l, rest, hsearch, hdigits, hrest⟩ :=
            @marker_found texts t (gap.reverse ++ before) ['\n'] (k + 1) (.inl ⟨hinside, rfl⟩)
          have hlast : texts ≠ [] → strip t ≠ [] := by
            intro hne
            refine hshown t ?_
            rw [List.dropLast_cons_of_ne_nil hne]
            exact List.mem_cons_self
          obtain ⟨gap', hgap', hfree⟩ := rest_of_page (hlines t List.mem_cons_self) hlast hrest
          have hnext : lineEnd l (gap.reverse ++ before) rest =
              ⟨(l.start ++ l.line).reverse ++ (gap.reverse ++ before),
                gap' ++ pagesAfter (k + 1) texts, [("page", l.digits)]⟩ := by
            rw [lineEnd, hgap']
          rw [hafter, Regex.findIterFrom, searchFrom_gap hbefore hgap]
          rw [← List.singleton_append, hsearch, hnext]
          rw [List.map_cons, ih, List.length_cons, List.range'_succ, List.map_cons, ← hdigits]
          · rfl
          · exact List.append_ne_nil_of_right_ne_nil _ hinside
          · exact hfree
          · exact fun t' ht' => hlines t' (List.mem_cons_of_mem _ ht')
          · intro t' ht'
            refine hshown t' ?_
            have hne : texts ≠ [] := by
              rintro rfl
              cases ht'
            rw [List.dropLast_cons_of_ne_nil hne]
            exact List.mem_cons_of_mem _ ht'
          · have hlength := congrArg List.length hrest
            rw [hafter, joinFrom_cons, pageBlock_eq] at hn
            rw [← hgap']
            simp only [List.length_append, List.length_cons, List.length_nil] at hn hlength ⊢
            omega

theorem pageEnds_map_fst (text : Text) (ms : List (Nat × Cursor)) :
    (pageEnds text ms).map Prod.fst = ms := by
  fun_induction pageEnds text ms with
  | case1 => rfl
  | case2 => rfl
  | case3 m m' rest ih => rw [List.map_cons, ih]

theorem PagesClear.numbers (h : PagesClear texts) :
    (pageMarkerPattern.findIter (joinPages texts)).map (fun m => m.2.group "page") =
      (List.range' 1 texts.length).map (Nat.toDigits 10) := by
  cases texts with
  | nil => rfl
  | cons t texts =>
      obtain ⟨l, rest, hsearch, hdigits, hrest⟩ := @marker_found texts t [] [] 1 (.inr ⟨rfl, rfl⟩)
      have hlast : texts ≠ [] → strip t ≠ [] := by
        intro hne
        refine h.shown t ?_
        rw [List.dropLast_cons_of_ne_nil hne]
        exact List.mem_cons_self
      obtain ⟨gap, hgap, hfree⟩ := rest_of_page (h.lines t List.mem_cons_self) hlast hrest
      have hnext : lineEnd l [] rest =
          ⟨(l.start ++ l.line).reverse ++ [], gap ++ pagesAfter 1 texts, [("page", l.digits)]⟩ := by
        rw [lineEnd, hgap]
      have hinside : (l.start ++ l.line).reverse ++ [] ≠ [] := by
        simp [MarkerLine.line, pageHeader_eq]
      have htail := @numbers_found texts ((l.start ++ l.line).reverse ++ []) gap 1
        (joinPages (t :: texts)).length hinside hfree
        (fun t' ht' => h.lines t' (List.mem_cons_of_mem _ ht')) (fun t' ht' => h.shown t' ?_) ?_
      · rw [Regex.findIter, Regex.findIterFrom, joinPages_eq, ← List.nil_append (joinFrom 1 _),
          hsearch, hnext]
        rw [List.map_cons, List.nil_append, ← joinPages_eq, htail, List.length_cons,
          List.range'_succ, List.map_cons, ← hdigits]
        rfl
      · have hne : texts ≠ [] := by
          rintro rfl
          cases ht'
        rw [List.dropLast_cons_of_ne_nil hne]
        exact List.mem_cons_of_mem _ ht'
      · have hlength := congrArg List.length hrest
        rw [joinPages_eq, joinFrom_cons, pageBlock_eq, ← hgap]
        simp only [pageMarker, pageHeader_eq, List.length_append, List.length_cons,
          List.length_nil] at hlength ⊢
        omega

/-- The outline has one entry for each page. -/
theorem PagesClear.outline (h : PagesClear texts) :
    (buildPageOutline (joinPages texts)).2.map OutlineEntry.page =
      (List.range' 1 texts.length).map Nat.cast := by
  cases htexts : texts with
  | nil => rfl
  | cons t rest =>
      have hnumbers := h.numbers
      rw [htexts] at hnumbers
      have hshown : strip (joinPages (t :: rest)) ≠ [] := by
        rw [ne_eq, strip_eq_nil_iff, joinPages_eq, joinFrom_cons, pageBlock_eq, pageMarker,
          pageHeader_eq]
        simp [isSpace]
      rw [buildPageOutline, if_neg hshown]
      cases hends : pageEnds (joinPages (t :: rest))
          (pageMarkerPattern.findIter (joinPages (t :: rest))) with
      | nil =>
          have hnone := pageEnds_map_fst (joinPages (t :: rest))
            (pageMarkerPattern.findIter (joinPages (t :: rest)))
          rw [hends] at hnone
          rw [← hnone] at hnumbers
          simp at hnumbers
      | cons x xs =>
          have hfst := pageEnds_map_fst (joinPages (t :: rest))
            (pageMarkerPattern.findIter (joinPages (t :: rest)))
          rw [hends] at hfst
          dsimp only
          have hpages : ((x :: xs).map (markedEntry (joinPages (t :: rest)))).map
              OutlineEntry.page = ((x :: xs).map Prod.fst).map
                fun m => intOf (m.2.group "page") := by
            rw [List.map_map, List.map_map]
            rfl
          have hints : ((x :: xs).map Prod.fst).map (fun m => intOf (m.2.group "page")) =
              (((x :: xs).map Prod.fst).map fun m => m.2.group "page").map intOf := by
            simp only [List.map_map]
            rfl
          rw [hpages, hints, hfst, hnumbers, List.map_map]
          exact List.map_congr_left fun i _ => intOf_toDigits i

/-! ## A single page -/

/-- A page that is published as it is: the only text that form feeds part, without markers. -/
structure RawPage (text : Text) (pages : Nat) : Prop where
  unmarked : ¬ pageHeader <:+: text
  count : (formPages text).length = pages
  short : ∀ part ∈ (text.splitOn formFeed)[0]?, (strip part).length ≤ sliceLimit

theorem formPages_eq_nil_iff {text : Text} : formPages text = [] ↔ strip text = [] := by
  rw [formPages, List.filter_eq_nil_iff, strip_eq_nil_iff, List.all_eq_true]
  constructor
  · intro h c hc
    have hjoined : c ∈ List.intercalate [formFeed] (text.splitOn formFeed) := by
      rwa [List.intercalate_splitOn]
    rcases mem_intercalate hjoined with hfeed | ⟨part, hpart, hmem⟩
    · rw [hfeed]
      rfl
    · have hblank : strip part = [] := by
        simpa using h (strip part) (List.mem_map_of_mem hpart)
      exact List.all_eq_true.mp (strip_eq_nil_iff.mp hblank) c hmem
  · intro h chunk hchunk
    obtain ⟨part, hpart, rfl⟩ := List.mem_map.mp hchunk
    have hblank : strip part = [] := by
      rw [strip_eq_nil_iff, List.all_eq_true]
      exact fun c hc => h c ((infix_of_mem_splitOn hpart).subset hc)
    simp [hblank]

theorem splitPdfPages_length (text : Text) (pages : Nat) :
    (splitPdfPages text pages).length = pages := by
  simp only [splitPdfPages, List.length_take, List.length_append, List.length_replicate]
  omega

/-- The first page is what stands before the first form feed. -/
theorem splitPdfPages_head (text : Text) :
    (splitPdfPages text 1)[0]? = (text.splitOn formFeed)[0]? := by
  obtain ⟨part, parts, hparts⟩ := List.exists_cons_of_ne_nil (List.splitOn_ne_nil formFeed text)
  have hhead : ∀ (rest : List Text) (m : Nat), ((part :: rest ++ List.replicate m []).take 1)[0]? =
      some part := fun _ _ => rfl
  simp only [splitPdfPages, hparts]
  split
  · rename_i hlast
    obtain ⟨next, parts, rfl⟩ : ∃ next rest, parts = next :: rest :=
      List.exists_cons_of_ne_nil fun hnil => by simp [hnil] at hlast
    rw [List.dropLast_cons_of_ne_nil (List.cons_ne_nil _ _)]
    exact hhead _ _
  · exact hhead _ _

/-! ## What the adapter publishes -/

/-- When the pages of a PDF are found again. -/
def PdfClear (text : Text) (pages : Nat) (vision : Nat → Text) : Prop :=
  if (∀ t ∈ splitPdfPages text pages, strip t ≠ []) ∧ pages ≤ 1 then RawPage text pages
  else PagesClear (pdfPageTexts text pages vision)

theorem pdfPageTexts_of_text {text : Text} {pages : Nat} {vision : Nat → Text}
    (h : ∀ t ∈ splitPdfPages text pages, strip t ≠ []) :
    pdfPageTexts text pages vision = (splitPdfPages text pages).map strip := by
  refine List.ext_getElem? fun i => ?_
  rw [pdfPageTexts, List.getElem?_mapIdx, List.getElem?_map]
  cases ht : (splitPdfPages text pages)[i]? with
  | none => rfl
  | some t => simp [h t (List.mem_of_getElem? ht)]

theorem RawPage.outline {text : Text} {pages : Nat} (h : RawPage text pages) (hpages : pages ≤ 1) :
    (buildPageOutline text).2.map OutlineEntry.page = (List.range' 1 pages).map Nat.cast := by
  have hnone : pageMarkerPattern.findIter text = [] := by
    rw [Regex.findIter, Regex.findIterFrom]
    cases hsearch : pageMarkerPattern.searchFrom [] text with
    | none => rfl
    | some m =>
        obtain ⟨skipped, l, rest, -, htext, -⟩ := found_marker hsearch
        refine absurd ⟨skipped ++ l.start, l.digits ++ (l.white ++ ['\n']) ++ rest, ?_⟩ h.unmarked
        rw [htext, MarkerLine.line]
        simp only [List.append_assoc]
  have hcount := h.count
  rw [buildPageOutline, hnone]
  by_cases hblank : strip text = []
  · rw [if_pos hblank]
    rw [formPages_eq_nil_iff.mpr hblank, List.length_nil] at hcount
    rw [← hcount]
    rfl
  · have hone : pages = 1 := by
      have hpos := List.length_pos_iff.mpr (mt formPages_eq_nil_iff.mp hblank)
      omega
    rw [if_neg hblank, pageEnds]
    dsimp only
    rw [if_neg (by omega), hone]
    rfl

theorem RawPage.slice {text : Text} {pages : Nat} {vision : Nat → Text} (h : RawPage text pages)
    (hpages : pages ≤ 1) (hshown : ∀ t ∈ splitPdfPages text pages, strip t ≠ [])
    (hi : (pdfPageTexts text pages vision)[i]? = some t) :
    ∃ slice, extractPageSlice text (some (i + 1 : Nat)) sliceLimit = some slice ∧
      strip (withoutMarker (i + 1) slice) = strip t := by
  rw [pdfPageTexts_of_text hshown, List.getElem?_map, Option.map_eq_some_iff] at hi
  obtain ⟨part, hpart, rfl⟩ := hi
  have hlt : i < (splitPdfPages text pages).length := (List.getElem?_eq_some_iff.mp hpart).1
  rw [splitPdfPages_length] at hlt
  obtain ⟨rfl, rfl⟩ : i = 0 ∧ pages = 1 := by omega
  rw [splitPdfPages_head] at hpart
  have hmarker : ¬ pageMarker (0 + 1) <:+: text := fun hinfix =>
    h.unmarked ((List.prefix_append _ _).isInfix.trans hinfix)
  have hinside : strip part <:+: text :=
    (infix_strip part).trans (infix_of_mem_splitOn (List.mem_of_getElem? hpart))
  have hne : text ≠ [] := by
    rintro rfl
    cases h.count
  have hslice := extractPageSlice_formFeed (Nat.succ_pos 0) hmarker hpart hne
  rw [List.take_of_length_le (h.short part hpart)] at hslice
  refine ⟨strip part, hslice, ?_⟩
  rw [withoutMarker_of_unmarked hmarker hinside]

end Published

section TwoPages

def noVision (_ : Nat) : Text := []

def twoPages : Text := "one\x0ctwo\x0c".toList

theorem twoPages_clear : PdfClear twoPages 2 noVision := by
  have htexts : pdfPageTexts twoPages 2 noVision = ["one".toList, "two".toList] := by
    decide +kernel
  rw [PdfClear, if_neg (by omega), htexts]
  refine ⟨by decide +kernel, by decide +kernel, ?_, ?_⟩
  · intro i j hij hj
    obtain ⟨rfl, rfl⟩ : i = 0 ∧ j = 1 := by
      rw [List.length_cons, List.length_cons, List.length_nil] at hj
      omega
    decide +kernel
  · intro i t ht
    match i, ht with
    | 0, ht =>
        cases ht
        decide +kernel
    | 1, ht =>
        cases ht
        decide +kernel

def mentioningPages : Text := "see ## Page 2\x0ctwo\x0c".toList

end TwoPages

end Openlia.Ingestion

import Mathlib.Data.List.DropRight
import Mathlib.Data.List.TakeWhile
import Openlia.Ingestion.Pages
import Openlia.Lib.Lines
import Openlia.Lib.Separators

/-! # The outline and the slice

Both agree on a page when its marker stands nowhere before it and no line of the page
begins like one.
-/

namespace Openlia.Ingestion

open Lib
open Policy (Text strip isSpace)

/-! ## Stripped texts -/

section Strip

variable {s x y : Text}

/-- Spaces at the end are dropped. -/
def rstrip (s : Text) : Text := s.rdropWhile isSpace

theorem strip_eq (s : Text) : strip s = rstrip (s.dropWhile isSpace) := rfl

theorem rstrip_eq_nil_iff : rstrip x = [] ↔ x.all isSpace = true := by
  rw [rstrip, List.rdropWhile_eq_nil_iff, List.all_eq_true]

theorem rstrip_append (s y : Text) :
    rstrip (s ++ y) = if rstrip y = [] then rstrip s else s ++ rstrip y := by
  rw [rstrip, rstrip, rstrip, List.rdropWhile, List.rdropWhile, List.rdropWhile,
    List.reverse_append, List.dropWhile_append]
  simp only [List.isEmpty_iff, List.reverse_eq_nil_iff]
  split
  · rfl
  · rw [List.reverse_append, List.reverse_reverse]

theorem strip_append_left (hx : x.all isSpace = true) (s : Text) : strip (x ++ s) = strip s := by
  rw [strip_eq, List.dropWhile_append_of_pos (List.all_eq_true.mp hx), strip_eq]

theorem strip_append_right (hx : x.all isSpace = true) (s : Text) : strip (s ++ x) = strip s := by
  rw [strip_eq, List.dropWhile_append, strip_eq]
  split
  · rename_i hempty
    rw [List.isEmpty_iff.mp hempty, List.dropWhile_eq_nil_iff.mpr (List.all_eq_true.mp hx)]
  · rw [rstrip_append, if_pos (rstrip_eq_nil_iff.mpr hx)]

theorem strip_rstrip (s : Text) : strip (rstrip s) = strip s := by
  have htail : (s.rtakeWhile isSpace).all isSpace = true := by
    rw [List.all_eq_true]
    exact fun c hc => List.mem_rtakeWhile_imp hc
  have hs : s = rstrip s ++ s.rtakeWhile isSpace := (List.rdropWhile_append_rtakeWhile ..).symm
  rw [hs, strip_append_right htail, ← hs]

theorem strip_eq_nil_iff : strip s = [] ↔ s.all isSpace = true := by
  constructor
  · intro h
    rw [strip_eq, rstrip_eq_nil_iff] at h
    rw [← List.takeWhile_append_dropWhile (p := isSpace) (l := s), List.all_append, h,
      Bool.and_true, List.all_eq_true]
    exact fun c hc => List.mem_takeWhile_imp hc
  · intro h
    rw [strip_eq, List.dropWhile_eq_nil_iff.mpr (List.all_eq_true.mp h)]
    rfl

theorem exists_not_space (h : strip s ≠ []) : ∃ c ∈ s, isSpace c = false := by
  by_contra hall
  refine h (strip_eq_nil_iff.mpr (List.all_eq_true.mpr fun c hc => ?_))
  by_contra hspace
  exact hall ⟨c, hc, Bool.eq_false_iff.mpr hspace⟩

end Strip

/-! ## Markers -/

section Markers

variable {text before body rest white : Text} {page : Nat}

theorem pageHeader_eq : pageHeader = '#' :: "# Page ".toList := rfl

theorem newline_notMem_header : '\n' ∉ pageHeader := by decide

theorem newline_notMem_marker (page : Nat) : '\n' ∉ pageMarker page := by
  rw [pageMarker, List.mem_append, not_or]
  refine ⟨newline_notMem_header, fun h => ?_⟩
  have hid := List.all_eq_true.mp (toDigits_idChar page) _ h
  exact absurd hid (by decide)

theorem not_space_of_digit {c : Char} (h : c ∈ Nat.toDigits 10 page) : isSpace c = false := by
  have huri := isUriChar_of_id (List.all_eq_true.mp (toDigits_idChar page) c h)
  simp only [isUriChar, Bool.and_eq_true, decide_eq_true_eq] at huri
  exact not_space_of_range huri

theorem rstrip_digits (page : Nat) : rstrip (Nat.toDigits 10 page) = Nat.toDigits 10 page := by
  rw [rstrip, List.rdropWhile_eq_self_iff]
  intro hne
  rw [not_space_of_digit (List.getLast_mem hne)]
  exact Bool.false_ne_true

theorem rstrip_marker (page : Nat) : rstrip (pageMarker page) = pageMarker page := by
  rw [pageMarker, rstrip_append, rstrip_digits, if_neg Nat.toDigits_ne_nil]

/-- A marker keeps its ends, and what follows loses its spaces at the end. -/
theorem strip_marker (page : Nat) (body : Text) :
    strip (pageMarker page ++ body) = pageMarker page ++ rstrip body := by
  have hhead : (pageMarker page ++ body).dropWhile isSpace = pageMarker page ++ body := by
    rw [pageMarker, pageHeader_eq, List.append_assoc, List.cons_append, List.dropWhile_cons,
      if_neg (by decide)]
  rw [strip_eq, hhead, rstrip_append]
  split
  · rename_i hblank
    rw [hblank, List.append_nil, rstrip_marker]
  · rfl

/-- A marker after a line break is the first one where none stands before it. -/
theorem dropInfix?_marker (hlast : ∀ c ∈ before.getLast?, c = '\n')
    (hfirst : ¬ pageMarker page <:+: before) :
    (before ++ (pageMarker page ++ rest)).dropInfix? (pageMarker page) = some (before, rest) := by
  refine dropInfix?_append fun ys zs hbefore hzs hfound => ?_
  rcases List.prefix_or_prefix_of_prefix hfound (List.prefix_append zs _) with hleft | hright
  · exact hfirst (hbefore ▸ hleft.isInfix.trans (List.suffix_append ys zs).isInfix)
  · obtain ⟨front, c, rfl⟩ := (List.eq_nil_or_concat zs).resolve_left hzs
    have hc : c = '\n' := by
      refine hlast c ?_
      rw [hbefore]
      simp
    refine newline_notMem_marker page (hright.subset ?_)
    rw [← hc]
    simp

/-- The longest text that a slice gives. -/
def sliceLimit : Nat := 200000

/-- The slice of a page that has its own marker first. -/
theorem extractPageSlice_marker (hpage : 0 < page) (hlast : ∀ c ∈ before.getLast?, c = '\n')
    (hfirst : ¬ pageMarker page <:+: before) (hbody : ¬ '\n' :: pageHeader <:+: body)
    (hrest : rest = [] ∨ '\n' :: pageHeader <+: rest) :
    extractPageSlice (before ++ (pageMarker page ++ (body ++ rest))) (some page) sliceLimit =
      some ((pageMarker page ++ rstrip body).take sliceLimit) := by
  have hne : before ++ (pageMarker page ++ (body ++ rest)) ≠ [] := by
    rw [pageMarker, pageHeader_eq]
    simp
  have hshown : shownPage (some (page : Int)) = some (page : Int) := by
    simp [shownPage, hpage]
  have hrun : extractPageSlice (before ++ (pageMarker page ++ (body ++ rest))) (some page) sliceLimit =
      some ((strip (pageMarker page ++ (((body ++ rest).dropInfix? ('\n' :: pageHeader)).map
        Prod.fst).getD (body ++ rest))).take sliceLimit) := by
    rw [extractPageSlice, if_neg hne, hshown]
    dsimp only
    rw [Int.toNat_natCast, dropInfix?_marker hlast hfirst]
    rfl
  rw [hrun, dropInfix?_fst newline_notMem_header hbody hrest, strip_marker]

end Markers

/-! ## Marker lines -/

section MarkerLines

variable {before after : Text} {t : Cursor} {n : Nat}

/-- A line that the expression matches: the line break before it, the number of the page,
and the spaces up to the last line break. -/
structure MarkerLine where
  start : Text
  digits : Text
  white : Text
  digits_ne : digits ≠ []
  decimal : digits.all isDecimal = true
  space : white.all isSpace = true

namespace MarkerLine

/-- What follows the line break before it. -/
def line (l : MarkerLine) : Text := pageHeader ++ (l.digits ++ (l.white ++ ['\n']))

/-- Where it may stand: after a line break, or at the start of the text. -/
def After (l : MarkerLine) (before : Text) : Prop :=
  l.start = ['\n'] ∨ l.start = [] ∧ before = []

end MarkerLine

theorem header_toList : "## Page ".toList = pageHeader := rfl

theorem newline_toList : "\n".toList = ['\n'] := rfl

/-- Where a match of the line ends. -/
def lineEnd (l : MarkerLine) (before rest : Text) : Cursor :=
  ⟨(l.start ++ l.line).reverse ++ before, rest, [("page", l.digits)]⟩

theorem pageMarker_matches : pageMarkerPattern.Matches ⟨before, after, []⟩ t ↔
    ∃ (l : MarkerLine) (rest : Text), l.After before ∧ after = l.start ++ (l.line ++ rest) ∧
      t = lineEnd l before rest := by
  constructor
  · rintro ⟨s₁, hstart, s₂, hheader, s₃, ⟨s₄, hdigits, rfl⟩, s₅, ⟨white, rest, hwhite, hspace, rfl⟩,
      hend⟩
    have hs₁ : ∃ start rest₁, (start = ['\n'] ∨ start = [] ∧ before = []) ∧
        after = start ++ rest₁ ∧ s₁ = ⟨start.reverse ++ before, rest₁, []⟩ := by
      rcases hstart with ⟨hprev, rfl⟩ | hbreak
      · refine ⟨[], after, .inr ⟨rfl, ?_⟩, rfl, rfl⟩
        simpa using hprev
      · obtain ⟨rest₁, hafter, rfl⟩ := Regex.matches_lit.mp hbreak
        exact ⟨['\n'], rest₁, .inl rfl, hafter, rfl⟩
    obtain ⟨start, rest₁, hplace, hafter₁, rfl⟩ := hs₁
    obtain ⟨rest₂, hafter₂, rfl⟩ := Regex.matches_lit.mp hheader
    obtain ⟨digits, rest₃, hafter₃, hne, hall, rfl⟩ := Regex.matches_some1.mp hdigits
    obtain ⟨rest₅, hafter₅, rfl⟩ := Regex.matches_lit.mp hend
    dsimp only at hafter₂ hafter₃ hafter₅ hwhite
    refine ⟨⟨start, digits, white, hne, hall, hspace⟩, rest₅, hplace, ?_, ?_⟩
    · rw [hafter₁, hafter₂, hafter₃, hwhite, hafter₅, header_toList, newline_toList]
      simp only [MarkerLine.line, List.append_assoc]
    · rw [lineEnd, MarkerLine.line, hafter₃, Regex.take_sub_length, header_toList, newline_toList]
      simp only [List.reverse_append, List.append_assoc]
  · rintro ⟨l, rest, hplace, hafter, rfl⟩
    have hstart : (Regex.alt (.look fun prev _ => decide (prev = none)) (.lit "\n")).Matches
        ⟨before, after, []⟩ ⟨l.start.reverse ++ before, l.line ++ rest, []⟩ := by
      rcases hplace with hbreak | ⟨hnone, hbefore⟩
      · exact .inr (Regex.matches_lit.mpr ⟨l.line ++ rest, by rw [hafter, hbreak]; rfl, by
          rw [hbreak]; rfl⟩)
      · exact .inl ⟨by simp [hbefore], by rw [hafter, hnone]; rfl⟩
    refine ⟨_, hstart, _, Regex.matches_lit.mpr ⟨l.digits ++ (l.white ++ ['\n']) ++ rest, ?_, rfl⟩, _,
      ⟨_, Regex.matches_some1.mpr ⟨l.digits, l.white ++ ['\n'] ++ rest, ?_, l.digits_ne, l.decimal,
        rfl⟩, rfl⟩, _, ⟨l.white, ['\n'] ++ rest, ?_, l.space, rfl⟩,
      Regex.matches_lit.mpr ⟨rest, ?_, ?_⟩⟩
    · simp only [MarkerLine.line, header_toList, List.append_assoc]
    · simp only [List.append_assoc]
    · simp only [List.append_assoc]
    · rw [newline_toList]
    · simp only [lineEnd, MarkerLine.line, header_toList, newline_toList, List.reverse_append,
        List.append_assoc, Regex.take_sub_length]

/-- A page of a text: what stands before its line, the line, the rest of the page, and what
follows it. -/
structure PageAt (text : Text) (x : (Nat × Cursor) × Nat) (before : Text) (l : MarkerLine)
    (body rest : Text) : Prop where
  text_eq : text = before ++ (l.start ++ (l.line ++ (body ++ rest)))
  place : l.After before.reverse
  start_eq : x.1.1 = before.length
  cursor : x.1.2 = lineEnd l before.reverse (body ++ rest)
  stop_eq : x.2 = (before ++ (l.start ++ (l.line ++ body))).length
  rest_eq : rest = [] ∨ '\n' :: pageHeader <+: rest

theorem found_marker {m : Nat × Cursor} (h : pageMarkerPattern.searchFrom before after = some m) :
    ∃ (skipped : Text) (l : MarkerLine) (rest : Text), l.After (skipped.reverse ++ before) ∧
      after = skipped ++ (l.start ++ (l.line ++ rest)) ∧ m.1 = before.length + skipped.length ∧
      m.2 = lineEnd l (skipped.reverse ++ before) rest := by
  obtain ⟨skipped, rest₁, hafter, hstart, hrun, -⟩ := Regex.searchFrom_eq_some h
  obtain ⟨end', hmatch, heq⟩ := Regex.matches_of_run hrun
  obtain ⟨l, rest, hplace, hrest₁, hm⟩ := pageMarker_matches.mp hmatch
  rw [Option.some.inj heq] at hm
  exact ⟨skipped, l, rest, hplace, by rw [hafter, hrest₁], hstart, hm⟩

/-- Inside of a text the next line found follows a line break. -/
theorem next_marker {m : Nat × Cursor} {ms : List (Nat × Cursor)} (hbefore : before ≠ [])
    (h : pageMarkerPattern.findIterFrom n before after = m :: ms) :
    ∃ body rest, after = body ++ rest ∧ '\n' :: pageHeader <+: rest ∧
      m.1 = before.length + body.length := by
  cases n with
  | zero => cases h
  | succ n =>
      rw [Regex.findIterFrom] at h
      cases hsearch : pageMarkerPattern.searchFrom before after with
      | none =>
          rw [hsearch] at h
          cases h
      | some m' =>
          rw [hsearch] at h
          obtain ⟨skipped, l, rest, hplace, hafter, hstart, -⟩ := found_marker hsearch
          cases h
          refine ⟨skipped, _, hafter, ?_, hstart⟩
          have hl : l.start = ['\n'] := hplace.resolve_right fun hnone => hbefore
            (List.append_eq_nil_iff.mp hnone.2).2
          rw [hl, MarkerLine.line, List.append_assoc]
          exact ⟨_, rfl⟩

theorem exists_pageAt {text : Text} (htext : text = before.reverse ++ after) :
    ∀ x ∈ pageEnds text (pageMarkerPattern.findIterFrom n before after),
      ∃ pre l body rest, PageAt text x pre l body rest := by
  induction n generalizing before after with
  | zero => simp [Regex.findIterFrom, pageEnds]
  | succ n ih =>
      intro x hx
      rw [Regex.findIterFrom] at hx
      cases hsearch : pageMarkerPattern.searchFrom before after with
      | none =>
          rw [hsearch] at hx
          cases hx
      | some m =>
          rw [hsearch] at hx
          obtain ⟨skipped, l, rest, hplace, hafter, hstart, hm⟩ := found_marker hsearch
          have hpre : (before.reverse ++ skipped).reverse = skipped.reverse ++ before := by simp
          have hnext : text = m.2.before.reverse ++ m.2.after := by
            rw [htext, hafter, hm]
            simp [lineEnd]
          have hsplit : text = (before.reverse ++ skipped) ++ (l.start ++ (l.line ++ rest)) := by
            rw [htext, hafter, List.append_assoc]
          cases htail : pageMarkerPattern.findIterFrom n m.2.before m.2.after with
          | nil =>
              dsimp only at hx
              rw [htail, pageEnds, List.mem_singleton] at hx
              subst hx
              refine ⟨before.reverse ++ skipped, l, rest, [], ?_, ?_, ?_, ?_, ?_, .inl rfl⟩
              · rw [List.append_nil, hsplit]
              · rwa [hpre]
              · simp [hstart]
              · rw [hpre, List.append_nil]
                exact hm
              · rw [hsplit]
          | cons m' ms =>
              dsimp only at hx
              rw [htail, pageEnds, List.mem_cons] at hx
              rcases hx with rfl | hx
              · have hinside : m.2.before ≠ [] := by
                  rw [hm]
                  simp [lineEnd, MarkerLine.line]
                obtain ⟨body, rest', hrest, hbreak, hnextStart⟩ := next_marker hinside htail
                have hrest₂ : rest = body ++ rest' := by
                  rw [← hrest, hm]
                  rfl
                refine ⟨before.reverse ++ skipped, l, body, rest', ?_, ?_, ?_, ?_, ?_, .inr hbreak⟩
                · rw [hsplit, hrest₂]
                · rwa [hpre]
                · simp [hstart]
                · rw [hpre, ← hrest₂]
                  exact hm
                · rw [hnextStart, hm]
                  simp only [lineEnd, List.length_append, List.length_reverse]
                  omega
              · exact ih hnext x (htail ▸ hx)

end MarkerLines

/-! ## Entries and slices -/

/-- A slice without the marker at its start. -/
def withoutMarker (page : Nat) (slice : Text) : Text :=
  if pageMarker page <+: slice then slice.drop (pageMarker page).length else slice

/-- The entry tells the length and the first line of the slice. -/
def Describes (entry : OutlineEntry) (slice : Text) : Prop :=
  (strip (withoutMarker entry.page.toNat slice)).length = entry.chars ∧
    previewOf "(empty page)" (strip (withoutMarker entry.page.toNat slice)) = entry.preview

section Entries

variable {text before body rest : Text} {x : (Nat × Cursor) × Nat} {l : MarkerLine} {page : Nat}

/-- The marker of a page is written as a slice looks for it, stands nowhere before the page,
and no line of the page begins like one. -/
structure OwnMarker (text : Text) (x : (Nat × Cursor) × Nat) : Prop where
  number : ∃ page, 0 < page ∧ x.1.2.group "page" = Nat.toDigits 10 page
  first : ¬ pageHeader ++ x.1.2.group "page" <:+: text.take x.1.1
  whole : ¬ '\n' :: pageHeader <:+: (text.take x.2).drop (x.1.1 + 1)
  short : (strip ((text.take x.2).drop x.1.1)).length ≤ sliceLimit

theorem withoutMarker_append (page : Nat) (body : Text) :
    withoutMarker page (pageMarker page ++ body) = body := by
  rw [withoutMarker, if_pos (List.prefix_append _ _), List.drop_left]

theorem PageAt.start_space (h : PageAt text x before l body rest) :
    l.start.all isSpace = true := by
  rcases h.place with hstart | ⟨hstart, -⟩
  · rw [hstart]
    rfl
  · rw [hstart]
    rfl

theorem PageAt.last (h : PageAt text x before l body rest) :
    ∀ c ∈ (before ++ l.start).getLast?, c = '\n' := by
  rcases h.place with hstart | ⟨hstart, hbefore⟩
  · rw [hstart]
    simp
  · rw [hstart, List.reverse_eq_nil_iff.mp hbefore]
    simp

theorem PageAt.take_eq (h : PageAt text x before l body rest) :
    text.take x.2 = before ++ (l.start ++ (l.line ++ body)) := by
  have hsplit : text = (before ++ (l.start ++ (l.line ++ body))) ++ rest := by
    rw [h.text_eq]
    simp only [List.append_assoc]
  rw [h.stop_eq, hsplit, List.take_left]

theorem PageAt.take_start (h : PageAt text x before l body rest) : text.take x.1.1 = before := by
  rw [h.start_eq, h.text_eq, List.take_left]

theorem PageAt.group_eq (h : PageAt text x before l body rest) :
    x.1.2.group "page" = l.digits := by
  rw [h.cursor]
  rfl

theorem PageAt.page_text (h : PageAt text x before l body rest) :
    (text.take x.2).drop x.1.2.before.length = body := by
  have hend : x.1.2.before.length = (before ++ (l.start ++ l.line)).length := by
    rw [h.cursor]
    simp only [lineEnd, List.length_append, List.length_reverse]
    omega
  have hsplit : before ++ (l.start ++ (l.line ++ body)) = (before ++ (l.start ++ l.line)) ++ body := by
    simp only [List.append_assoc]
  rw [h.take_eq, hend, hsplit, List.drop_left]

/-- A text without line breaks stands on one side of a line break. -/
theorem infix_around_newline {m xs ys : Text} (hm : '\n' ∉ m) (hne : m ≠ [])
    (h : m <:+: xs ++ '\n' :: ys) : m <:+: xs ∨ m <:+: ys := infix_around hm hne h

theorem marker_ne_nil (page : Nat) : pageMarker page ≠ [] := by
  rw [pageMarker, pageHeader_eq]
  exact List.cons_ne_nil _ _

/-- The entry of a page with its own marker describes the slice of the page. -/
theorem PageAt.agrees (h : PageAt text x before l body rest) (hown : OwnMarker text x) :
    ∃ slice, extractPageSlice text (some (markedEntry text x).page) sliceLimit = some slice ∧
      Describes (markedEntry text x) slice := by
  obtain ⟨page, hpage, hdigits⟩ := hown.number
  rw [h.group_eq] at hdigits
  have hnumber : (markedEntry text x).page = (page : Int) := by
    show intOf (x.1.2.group "page") = page
    rw [h.group_eq, hdigits, intOf_toDigits]
  have hfirst : ¬ pageMarker page <:+: before ++ l.start := by
    have hown' := hown.first
    rw [h.group_eq, hdigits, h.take_start] at hown'
    rcases h.place with hstart | ⟨hstart, -⟩
    · rw [hstart]
      intro hinfix
      rcases infix_around_newline (newline_notMem_marker page) (marker_ne_nil page) hinfix with
        hleft | hright
      · exact hown' hleft
      · exact marker_ne_nil page (List.infix_nil.mp hright)
    · rwa [hstart, List.append_nil]
  have hline : l.line ++ body = pageMarker page ++ (l.white ++ ['\n'] ++ body) := by
    rw [MarkerLine.line, hdigits, pageMarker]
    simp only [List.append_assoc]
  have hpageText : (text.take x.2).drop x.1.1 =
      l.start ++ (pageMarker page ++ (l.white ++ ['\n'] ++ body)) := by
    rw [h.take_eq, h.start_eq, List.drop_left, hline]
  have hbody : ¬ '\n' :: pageHeader <:+: l.white ++ ['\n'] ++ body := by
    obtain ⟨c, cs, hcs⟩ := List.exists_cons_of_ne_nil
      (List.append_ne_nil_of_right_ne_nil l.start (marker_ne_nil page))
    have hdrop : (text.take x.2).drop (x.1.1 + 1) = cs ++ (l.white ++ ['\n'] ++ body) := by
      rw [← List.drop_drop, hpageText, ← List.append_assoc, hcs]
      rfl
    intro hinfix
    exact hown.whole (hdrop ▸ hinfix.trans (List.suffix_append _ _).isInfix)
  have htext : text = (before ++ l.start) ++
      (pageMarker page ++ ((l.white ++ ['\n'] ++ body) ++ rest)) := by
    have hassoc : l.line ++ (body ++ rest) = (l.line ++ body) ++ rest := by
      rw [List.append_assoc]
    rw [h.text_eq, hassoc, hline]
    simp only [List.append_assoc]
  have hshort : (pageMarker page ++ rstrip (l.white ++ ['\n'] ++ body)).length ≤ sliceLimit := by
    rw [← strip_marker, ← strip_append_left h.start_space, ← hpageText]
    exact hown.short
  refine ⟨pageMarker page ++ rstrip (l.white ++ ['\n'] ++ body), ?_, ?_⟩
  · have hslice := extractPageSlice_marker hpage h.last hfirst hbody h.rest_eq
    rw [← htext] at hslice
    rw [hnumber, hslice, List.take_of_length_le hshort]
  · have hwhite : (l.white ++ ['\n']).all isSpace = true := by
      rw [List.all_append, l.space]
      rfl
    have hstripped : strip (withoutMarker (markedEntry text x).page.toNat
        (pageMarker page ++ rstrip (l.white ++ ['\n'] ++ body))) = strip body := by
      rw [hnumber, Int.toNat_natCast, withoutMarker_append, strip_rstrip, strip_append_left hwhite]
    rw [Describes, hstripped, markedEntry, h.page_text]
    exact ⟨rfl, rfl⟩

/-! ### Texts without marker lines -/

theorem dropInfix?_eq_none {m : Text} (h : ¬ m <:+: text) : text.dropInfix? m = none := by
  cases hfound : text.dropInfix? m with
  | none => rfl
  | some parts =>
      obtain ⟨⟨m', hsplit, hm'⟩, -⟩ := List.dropInfix?_eq_some_iff.mp hfound
      obtain rfl := eq_of_beq hm'
      exact absurd ⟨parts.1, parts.2, hsplit.symm⟩ h

theorem infix_intercalate {sep part : Text} {parts : List Text} (h : part ∈ parts) :
    part <:+: List.intercalate sep parts := by
  induction parts with
  | nil => cases h
  | cons head parts ih =>
      cases parts with
      | nil =>
          refine ⟨[], [], ?_⟩
          rw [List.mem_singleton.mp h, List.intercalate_singleton]
          simp
      | cons next parts =>
          rw [List.intercalate_cons_cons]
          rcases List.mem_cons.mp h with rfl | hrest
          · exact ((List.prefix_append part sep).trans (List.prefix_append _ _)).isInfix
          · exact (ih hrest).trans (List.suffix_append _ _).isInfix

theorem infix_of_mem_splitOn {sep : Char} {part : Text} (h : part ∈ text.splitOn sep) :
    part <:+: text := by
  have hinfix : part <:+: List.intercalate [sep] (text.splitOn sep) := infix_intercalate h
  rwa [List.intercalate_splitOn] at hinfix

theorem infix_strip (s : Text) : strip s <:+: s := by
  have hfront : strip s <+: s.dropWhile isSpace := List.rdropWhile_prefix isSpace _
  exact hfront.isInfix.trans (List.dropWhile_suffix _).isInfix

/-- The slice of a page between form feeds. -/
theorem extractPageSlice_formFeed {part : Text} (hpage : 0 < page)
    (hmarker : ¬ pageMarker page <:+: text)
    (hpart : (text.splitOn formFeed)[page - 1]? = some part) (hne : text ≠ []) :
    extractPageSlice text (some page) sliceLimit = some ((strip part).take sliceLimit) := by
  have hshown : shownPage (some (page : Int)) = some (page : Int) := by
    simp [shownPage, hpage]
  rw [extractPageSlice, if_neg hne, hshown]
  dsimp only
  rw [Int.toNat_natCast, dropInfix?_eq_none hmarker]
  dsimp only
  rw [hpart]
  rfl

theorem withoutMarker_of_unmarked {slice : Text} (hmarker : ¬ pageMarker page <:+: text)
    (hslice : slice <:+: text) : withoutMarker page slice = slice := by
  rw [withoutMarker, if_neg fun h => hmarker (h.isInfix.trans hslice)]

theorem strip_strip (s : Text) : strip (strip s) = strip s := by
  have hlead : (s.takeWhile isSpace).all isSpace = true := by
    rw [List.all_eq_true]
    exact fun c hc => List.mem_takeWhile_imp hc
  calc strip (strip s) = strip (s.dropWhile isSpace) := strip_rstrip _
    _ = strip (s.takeWhile isSpace ++ s.dropWhile isSpace) := (strip_append_left hlead _).symm
    _ = strip s := by rw [List.takeWhile_append_dropWhile]

/-- No blank text stands before a page between form feeds, and no marker of one stands in the
text. -/
structure FeedPages (text : Text) : Prop where
  leading : formPages text <+: (text.splitOn formFeed).map strip
  unmarked : ∀ i < (formPages text).length, ¬ pageMarker (i + 1) <:+: text
  short : ∀ chunk ∈ formPages text, chunk.length ≤ sliceLimit

/-- A text of one page without form feeds and outer spaces. -/
structure PlainPage (text : Text) : Prop where
  unmarked : ¬ pageMarker 1 <:+: text
  noFeed : formFeed ∉ text
  stripped : strip text = text
  short : text.length ≤ sliceLimit

theorem FeedPages.agrees (h : FeedPages text) {i : Nat} {chunk : Text}
    (hi : (formPages text)[i]? = some chunk) :
    ∃ slice, extractPageSlice text (some (outlineEntry (i + 1 : Nat) chunk).page) sliceLimit =
      some slice ∧ Describes (outlineEntry (i + 1 : Nat) chunk) slice := by
  have hlt : i < (formPages text).length := (List.getElem?_eq_some_iff.mp hi).1
  have hpart : ((text.splitOn formFeed).map strip)[i]? = some chunk := by
    obtain ⟨tail, htail⟩ := h.leading
    rw [← htail, List.getElem?_append_left hlt, hi]
  rw [List.getElem?_map, Option.map_eq_some_iff] at hpart
  obtain ⟨part, hpart, rfl⟩ := hpart
  have hmem := List.mem_of_getElem? hi
  have hinfix : strip part <:+: text :=
    (infix_strip part).trans (infix_of_mem_splitOn (List.mem_of_getElem? hpart))
  have hne : text ≠ [] := by
    rintro rfl
    rw [List.infix_nil.mp hinfix] at hmem
    exact of_decide_eq_true (List.mem_filter.mp hmem).2 rfl
  refine ⟨strip part, ?_, ?_⟩
  · have hslice := extractPageSlice_formFeed (Nat.succ_pos i) (h.unmarked i hlt) hpart hne
    rwa [List.take_of_length_le (h.short _ hmem)] at hslice
  · rw [Describes, outlineEntry, Int.toNat_natCast,
      withoutMarker_of_unmarked (h.unmarked i hlt) hinfix, strip_strip]
    exact ⟨rfl, rfl⟩

theorem isSpace_of_lineBreak {c : Char} (h : isLineBreak c = true) : isSpace c = true := by
  simp only [isLineBreak, isSpace] at h ⊢
  grind

/-- What is no space is on some line. -/
theorem mem_splitlines {c : Char} (hc : isSpace c = false) (h : c ∈ text) :
    ∃ line ∈ splitlines text, c ∈ line := by
  fun_induction splitlines text with
  | case1 => cases h
  | case2 s ih =>
      have hs : c ∈ s := by
        rcases List.mem_cons.mp h with rfl | h
        · exact absurd hc (by decide)
        · rcases List.mem_cons.mp h with rfl | h
          · exact absurd hc (by decide)
          · exact h
      obtain ⟨line, hline, hmem⟩ := ih hs
      exact ⟨line, List.mem_cons_of_mem _ hline, hmem⟩
  | case3 d s hcrlf hbreak ih =>
      have hs : c ∈ s := by
        rcases List.mem_cons.mp h with rfl | h
        · rw [isSpace_of_lineBreak hbreak] at hc
          cases hc
        · exact h
      obtain ⟨line, hline, hmem⟩ := ih hs
      exact ⟨line, List.mem_cons_of_mem _ hline, hmem⟩
  | case4 d s hcrlf hbreak hnone ih =>
      rcases List.mem_cons.mp h with rfl | hs
      · exact ⟨[c], List.mem_cons_self, List.mem_cons_self⟩
      · obtain ⟨line, hline, -⟩ := ih hs
        rw [hnone] at hline
        cases hline
  | case5 d s hcrlf hbreak line lines hlines ih =>
      rcases List.mem_cons.mp h with rfl | hs
      · exact ⟨c :: line, List.mem_cons_self, List.mem_cons_self⟩
      · obtain ⟨line', hline, hmem⟩ := ih hs
        rw [hlines, List.mem_cons] at hline
        rcases hline with rfl | hline
        · exact ⟨d :: line', List.mem_cons_self, List.mem_cons_of_mem _ hmem⟩
        · exact ⟨line', List.mem_cons_of_mem _ hline, hmem⟩

theorem previewOf_of_ne (h : strip text ≠ []) (empty empty' : String) :
    previewOf empty text = previewOf empty' text := by
  have hlines : ((splitlines text).map strip).filter (· ≠ []) ≠ [] := by
    obtain ⟨c, hmem, hc⟩ := exists_not_space h
    obtain ⟨line, hline, hcline⟩ := mem_splitlines hc hmem
    have hstrip : strip line ≠ [] := fun hblank => by
      rw [List.all_eq_true.mp (strip_eq_nil_iff.mp hblank) c hcline] at hc
      cases hc
    exact List.ne_nil_of_mem (List.mem_filter.mpr
      ⟨List.mem_map_of_mem hline, decide_eq_true hstrip⟩)
  unfold previewOf
  cases hfilter : ((splitlines text).map strip).filter (· ≠ []) with
  | nil => exact absurd hfilter hlines
  | cons line lines => rfl

theorem PlainPage.agrees (h : PlainPage text) (hne : strip text ≠ []) :
    ∃ slice, extractPageSlice text (some 1) sliceLimit = some slice ∧
      Describes ⟨1, previewOf "(empty)" text, text.length⟩ slice := by
  refine ⟨text, ?_, ?_⟩
  · have hpart : (text.splitOn formFeed)[1 - 1]? = some text := by
      rw [List.splitOn_eq_singleton h.noFeed]
      rfl
    have hslice := extractPageSlice_formFeed Nat.one_pos h.unmarked hpart (h.stripped ▸ hne)
    rwa [h.stripped, List.take_of_length_le h.short] at hslice
  · have hwithout : withoutMarker (1 : Int).toNat text = text :=
      withoutMarker_of_unmarked h.unmarked List.infix_rfl
    rw [Describes, hwithout, h.stripped]
    exact ⟨rfl, previewOf_of_ne hne _ _⟩

/-- When the outline and the slices of a text find the same pages. -/
def PagesFound (text : Text) : Prop :=
  match pageEnds text (pageMarkerPattern.findIter text) with
  | x :: xs => ∀ y ∈ x :: xs, OwnMarker text y
  | [] => if 1 < (formPages text).length then FeedPages text else PlainPage text

/-- Each entry of the outline describes the slice of its page. -/
theorem PagesFound.agrees (h : strip text ≠ [] → PagesFound text) :
    ∀ entry ∈ (buildPageOutline text).2,
      ∃ slice, extractPageSlice text (some entry.page) sliceLimit = some slice ∧
        Describes entry slice := by
  intro entry hentry
  rw [buildPageOutline] at hentry
  by_cases hblank : strip text = []
  · rw [if_pos hblank] at hentry
    cases hentry
  · rw [if_neg hblank] at hentry
    have hfound := h hblank
    rw [PagesFound] at hfound
    cases hends : pageEnds text (pageMarkerPattern.findIter text) with
    | cons x xs =>
        rw [hends] at hentry hfound
        obtain ⟨y, hy, rfl⟩ := List.mem_map.mp hentry
        have htext : text = [].reverse ++ text := rfl
        obtain ⟨before, l, body, rest, hpage⟩ := exists_pageAt htext y (hends ▸ hy)
        exact hpage.agrees (hfound y hy)
    | nil =>
        rw [hends] at hentry hfound
        dsimp only at hentry hfound
        by_cases hfeeds : 1 < (formPages text).length
        · rw [if_pos hfeeds] at hentry hfound
          obtain ⟨i, hi, rfl⟩ := List.mem_mapIdx.mp hentry
          exact hfound.agrees (List.getElem?_eq_getElem hi)
        · rw [if_neg hfeeds] at hentry hfound
          rw [List.mem_singleton.mp hentry]
          exact hfound.agrees hblank

end Entries

end Openlia.Ingestion

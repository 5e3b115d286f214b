import Mathlib.Data.List.Infix
import Openlia.Operator.Skills.Rebase

/-! # The output language in a text

One block of a text is managed: it names the language of answers. The block may be cut out of the
text and be written anew; the lines around it stay.
-/

namespace Openlia.Instructions

open Skills

/-! ## Lines -/

abbrev Line := Bytes

/-- The characters of `unicode.IsSpace` in UTF-8. -/
def spaces : List Bytes :=
  [[0x9], [0xA], [0xB], [0xC], [0xD], [0x20], [0xC2, 0x85], [0xC2, 0xA0], [0xE1, 0x9A, 0x80],
    [0xE2, 0x80, 0x80], [0xE2, 0x80, 0x81], [0xE2, 0x80, 0x82], [0xE2, 0x80, 0x83],
    [0xE2, 0x80, 0x84], [0xE2, 0x80, 0x85], [0xE2, 0x80, 0x86], [0xE2, 0x80, 0x87],
    [0xE2, 0x80, 0x88], [0xE2, 0x80, 0x89], [0xE2, 0x80, 0x8A], [0xE2, 0x80, 0xA8],
    [0xE2, 0x80, 0xA9], [0xE2, 0x80, 0xAF], [0xE2, 0x81, 0x9F], [0xE3, 0x80, 0x80]]

/-- `n` bounds the number of characters. -/
def trimLeft (characters : List Bytes) : Nat → Bytes → Bytes
  | 0, l => l
  | n + 1, l =>
      match characters.find? (·.isPrefixOf l) with
      | none => l
      | some c => trimLeft characters n (l.drop c.length)

def trimRight (characters : List Bytes) (l : Bytes) : Bytes :=
  (trimLeft (characters.map List.reverse) l.length l.reverse).reverse

def TrimSpace (l : Bytes) : Bytes := trimRight spaces (trimLeft spaces l.length l)

theorem trimLeft_suffix (characters : List Bytes) (n : Nat) (l : Bytes) :
    trimLeft characters n l <:+ l := by
  induction n generalizing l with
  | zero => exact List.suffix_rfl
  | succ n ih =>
      rw [trimLeft]
      split
      · exact List.suffix_rfl
      · exact (ih _).trans (List.drop_suffix _ _)

theorem trimRight_prefix (characters : List Bytes) (l : Bytes) :
    trimRight characters l <+: l := by
  have h := trimLeft_suffix (characters.map List.reverse) l.length l.reverse
  rw [trimRight, ← List.reverse_suffix, List.reverse_reverse]
  exact h

/-- A line that starts with a byte of no blank. -/
theorem trimSpace_prefix {b : UInt8} {l : Bytes} (hb : l.head? = some b)
    (hblank : ∀ c ∈ spaces, c.head?.any (· != b) = true) : TrimSpace l <+: l := by
  have hnone : spaces.find? (·.isPrefixOf l) = none := by
    refine List.find?_eq_none.mpr fun c hc hprefix => ?_
    obtain ⟨rest, rfl⟩ := List.isPrefixOf_iff_prefix.mp hprefix
    have hhead := hblank c hc
    cases c with
    | nil => cases hhead
    | cons x c =>
        rw [List.cons_append, List.head?_cons] at hb
        rw [List.head?_cons, Option.any_some, Option.some.inj hb] at hhead
        simp at hhead
  have htrim : trimLeft spaces l.length l = l := by
    cases l with
    | nil => rfl
    | cons x l => rw [List.length_cons, trimLeft, hnone]
  rw [TrimSpace, htrim]
  exact trimRight_prefix _ _

def lines (data : Bytes) : List Line := data.splitOn newline

def joinLines (ls : List Line) : Bytes := [newline].intercalate ls

theorem lines_joinLines {ls : List Line} (hline : ∀ l ∈ ls, newline ∉ l) (hne : ls ≠ []) :
    lines (joinLines ls) = ls :=
  List.splitOn_intercalate newline hline hne

theorem newline_notMem_lines {data : Bytes} {l : Line} (h : l ∈ lines data) : newline ∉ l :=
  newline_notMem h

/-! ## The block -/

def outputLanguageBlockStart : Line := text "<!-- BEGIN OPENLIA MANAGED OUTPUT LANGUAGE -->"

def outputLanguageBlockEnd : Line := text "<!-- END OPENLIA MANAGED OUTPUT LANGUAGE -->"

def isLetter (c : Char) : Bool := ('a' ≤ c && c ≤ 'z') || ('A' ≤ c && c ≤ 'Z')

def isDigit (c : Char) : Bool := '0' ≤ c && c ≤ '9'

/-- Whether `validateOutputLanguage` takes a value. -/
def validateOutputLanguage (value : String) : Bool :=
  match value.toList.splitOn '-' with
  | [] => false
  | first :: rest =>
      (2 ≤ first.length && first.length ≤ 8 && first.all isLetter) &&
        rest.all fun part =>
          1 ≤ part.length && part.length ≤ 8 && part.all fun c => isLetter c || isDigit c

/-- A language of a valid configuration. -/
structure OutputLanguage where
  tag : String
  valid : validateOutputLanguage tag = true

def english : OutputLanguage := ⟨"en", by decide⟩

def outputLanguageBody (language : OutputLanguage) : List Line :=
  [text "## Output language", text "",
    text "Use `" ++ text language.tag ++
      text "` as the default language for user-facing responses. If the current",
    text "user message explicitly requests another language, follow that request for that response."]

def outputLanguageBlock (language : OutputLanguage) : List Line :=
  outputLanguageBlockStart :: (outputLanguageBody language ++ [outputLanguageBlockEnd])

def normalizeLines : Bool → List Line → List Line
  | _, [] => []
  | inBlock, line :: rest =>
      if TrimSpace line = outputLanguageBlockStart then
        outputLanguageBlockStart :: outputLanguageBlockEnd :: normalizeLines true rest
      else if inBlock then
        normalizeLines (decide (TrimSpace line ≠ outputLanguageBlockEnd)) rest
      else line :: normalizeLines false rest

def normalizeOutputLanguageBlock (data : Bytes) : Bytes :=
  joinLines (normalizeLines false (lines data))

/-- The loop over the lines, with the indices of the first and the last line of the block. -/
def scanBlock : List Line → Nat → Option Nat → Option Nat →
    Except String (Option Nat × Option Nat)
  | [], _, start, stop => .ok (start, stop)
  | line :: rest, index, start, stop =>
      if TrimSpace line = outputLanguageBlockStart then
        if start.isSome then
          .error "SOUL.md contains duplicate managed output language blocks"
        else scanBlock rest (index + 1) (some index) stop
      else if TrimSpace line = outputLanguageBlockEnd then
        if start.isNone ∨ stop.isSome then
          .error "SOUL.md contains an invalid managed output language block"
        else scanBlock rest (index + 1) start (some index)
      else scanBlock rest (index + 1) start stop

/-- The lines before a block that is appended. -/
def paddedLines (ls : List Line) : List Line :=
  if ls.getLast? = some [] then ls else ls ++ [[]]

def renderOutputLanguageBlock (data : Bytes) (language : OutputLanguage) : Except String Bytes :=
  match scanBlock (lines data) 0 none none with
  | .error e => .error e
  | .ok (some _, none) =>
      .error "SOUL.md contains an incomplete managed output language block"
  | .ok (some start, some stop) =>
      .ok (joinLines ((lines data).take start ++ outputLanguageBlock language ++
        (lines data).drop (stop + 1)))
  | .ok (none, _) => .ok (joinLines (paddedLines (lines data) ++ outputLanguageBlock language))

/-- `canonicalInstruction` for a text with a block. -/
def canonicalOutputLanguage (data : Bytes) : Bytes :=
  if outputLanguageBlockStart <:+: data then normalizeOutputLanguageBlock data
  else
    match renderOutputLanguageBlock data english with
    | .ok withBlock => normalizeOutputLanguageBlock withBlock
    | .error _ => normalizeOutputLanguageBlock data

/-! ## Texts with one block -/

/-- A line that is no marker of the block. -/
def Plain (l : Line) : Prop :=
  TrimSpace l ≠ outputLanguageBlockStart ∧ TrimSpace l ≠ outputLanguageBlockEnd

/-- Lines with one block between `before` and `after`. -/
structure BlockedLines (ls before after : List Line) : Prop where
  block : ∃ start body stop, ls = before ++ start :: (body ++ stop :: after) ∧
    TrimSpace start = outputLanguageBlockStart ∧ TrimSpace stop = outputLanguageBlockEnd ∧
    ∀ l ∈ body, Plain l
  before : ∀ l ∈ before, Plain l
  after : ∀ l ∈ after, Plain l

/-- A text without a block. -/
def Unmarked (data : Bytes) : Prop :=
  ¬ outputLanguageBlockStart <:+: data ∧ ∀ l ∈ lines data, Plain l

/-- A text with one block, or with none. -/
def Framed (data : Bytes) (before after : List Line) : Prop :=
  BlockedLines (lines data) before after ∨
    Unmarked data ∧ before = paddedLines (lines data) ∧ after = []

/-- The text without the words of the block. -/
def frame (before after : List Line) : Bytes :=
  joinLines (before ++ outputLanguageBlockStart :: outputLanguageBlockEnd :: after)

/-- The text with the words of the block. -/
def written (language : OutputLanguage) (before after : List Line) : Bytes :=
  joinLines (before ++ outputLanguageBlock language ++ after)

theorem trimSpace_start : TrimSpace outputLanguageBlockStart = outputLanguageBlockStart := by
  decide +kernel

theorem trimSpace_end : TrimSpace outputLanguageBlockEnd = outputLanguageBlockEnd := by
  decide +kernel

theorem start_ne_end : outputLanguageBlockStart ≠ outputLanguageBlockEnd := by decide

section Scanning

variable {before after body : List Line} {s e : Line}

theorem normalizeLines_outside {ls : List Line} (h : ∀ l ∈ ls, Plain l) (rest : List Line) :
    normalizeLines false (ls ++ rest) = ls ++ normalizeLines false rest := by
  induction ls with
  | nil => rfl
  | cons l ls ih =>
      rw [List.cons_append, normalizeLines, if_neg (h l List.mem_cons_self).1,
        if_neg Bool.false_ne_true, ih fun x hx => h x (List.mem_cons_of_mem _ hx),
        List.cons_append]

theorem normalizeLines_inside (h : ∀ l ∈ body, Plain l) (he : TrimSpace e = outputLanguageBlockEnd)
    (rest : List Line) : normalizeLines true (body ++ e :: rest) = normalizeLines false rest := by
  induction body with
  | nil =>
      rw [List.nil_append, normalizeLines, if_neg (he ▸ start_ne_end.symm), if_pos rfl, he]
      rfl
  | cons l ls ih =>
      have hl := h l List.mem_cons_self
      rw [List.cons_append, normalizeLines, if_neg hl.1, if_pos rfl, decide_eq_true hl.2]
      exact ih fun x hx => h x (List.mem_cons_of_mem _ hx)

theorem BlockedLines.normalize {ls : List Line} (h : BlockedLines ls before after) :
    normalizeLines false ls =
      before ++ outputLanguageBlockStart :: outputLanguageBlockEnd :: after := by
  obtain ⟨⟨s, body, e, rfl, hs, he, hbody⟩, hbefore, hafter⟩ := h
  have hrest := normalizeLines_outside hafter []
  rw [List.append_nil, normalizeLines, List.append_nil] at hrest
  rw [normalizeLines_outside hbefore, normalizeLines, if_pos hs, normalizeLines_inside hbody he,
    hrest]

theorem scanBlock_outside {ls : List Line} (h : ∀ l ∈ ls, Plain l) (rest : List Line) (i : Nat)
    (start stop : Option Nat) :
    scanBlock (ls ++ rest) i start stop = scanBlock rest (i + ls.length) start stop := by
  induction ls generalizing i with
  | nil => rfl
  | cons l ls ih =>
      have hl := h l List.mem_cons_self
      rw [List.cons_append, scanBlock, if_neg hl.1, if_neg hl.2,
        ih fun x hx => h x (List.mem_cons_of_mem _ hx), List.length_cons, Nat.add_right_comm,
        Nat.add_assoc]

theorem scanBlock_plain {ls : List Line} (h : ∀ l ∈ ls, Plain l) (i : Nat)
    (start stop : Option Nat) : scanBlock ls i start stop = .ok (start, stop) := by
  have := scanBlock_outside h [] i start stop
  rw [List.append_nil] at this
  exact this

theorem BlockedLines.scan {ls : List Line} (h : BlockedLines ls before after) :
    ∃ s body e, ls = before ++ s :: (body ++ e :: after) ∧
      scanBlock ls 0 none none =
        .ok (some before.length, some (before.length + 1 + body.length)) := by
  obtain ⟨⟨s, body, e, rfl, hs, he, hbody⟩, hbefore, hafter⟩ := h
  refine ⟨s, body, e, rfl, ?_⟩
  rw [scanBlock_outside hbefore, Nat.zero_add, scanBlock, if_pos hs, if_neg (by decide),
    scanBlock_outside hbody, scanBlock, if_neg (he ▸ start_ne_end.symm), if_pos he,
    if_neg (by simp), scanBlock_plain hafter]

end Scanning

/-! ## The lines of the block -/

/-- A line that starts with a byte of no blank and of no marker. -/
theorem plain_of_head {b : UInt8} {l : Line} (hb : l.head? = some b) (hne : b ≠ 0x3C)
    (hblank : ∀ c ∈ spaces, c.head?.any (· != b) = true) : Plain l := by
  have hprefix := trimSpace_prefix hb hblank
  have hmarker : ∀ m : Line, m.head? = some 0x3C → TrimSpace l ≠ m := by
    intro m hm h
    rw [h] at hprefix
    obtain ⟨rest, rfl⟩ := hprefix
    rw [List.head?_append, hm] at hb
    exact hne (Option.some.inj hb).symm
  exact ⟨hmarker _ (by decide), hmarker _ (by decide)⟩

theorem outputLanguageBody_plain (language : OutputLanguage) :
    ∀ l ∈ outputLanguageBody language, Plain l := by
  have hempty : Plain (text "") := by
    constructor
    · decide
    · decide
  intro l hl
  simp only [outputLanguageBody, List.mem_cons, List.not_mem_nil, or_false] at hl
  obtain rfl | rfl | rfl | rfl := hl
  · exact @plain_of_head 0x23 _ (by decide) (by decide) (by decide)
  · exact hempty
  · refine @plain_of_head 0x55 _ ?_ (by decide) (by decide)
    rw [List.append_assoc, List.head?_append, show (text "Use `").head? = some 0x55 by decide]
    rfl
  · exact @plain_of_head 0x75 _ (by decide) (by decide) (by decide)

/-- A character of a part, or the separator. -/
theorem mem_parts {s : List Char} {a c : Char} (hc : c ∈ s) :
    c = a ∨ ∃ part ∈ s.splitOn a, c ∈ part := by
  induction s with
  | nil => cases hc
  | cons b s ih =>
      obtain ⟨first, others, hsplit⟩ := List.exists_cons_of_ne_nil (List.splitOn_ne_nil a s)
      rw [List.splitOn_cons_eq_if_modifyHead]
      rw [hsplit] at ih ⊢
      split
      · rename_i hab
        rcases List.mem_cons.mp hc with rfl | hc
        · exact Or.inl (beq_iff_eq.mp hab)
        · obtain h | ⟨part, hpart, h⟩ := ih hc
          · exact Or.inl h
          · exact Or.inr ⟨part, List.mem_cons_of_mem _ hpart, h⟩
      · rw [List.modifyHead_cons]
        rcases List.mem_cons.mp hc with rfl | hc
        · exact Or.inr ⟨_, List.mem_cons_self, List.mem_cons_self⟩
        · obtain h | ⟨part, hpart, h⟩ := ih hc
          · exact Or.inl h
          · rcases List.mem_cons.mp hpart with rfl | hpart
            · exact Or.inr ⟨_, List.mem_cons_self, List.mem_cons_of_mem _ h⟩
            · exact Or.inr ⟨part, List.mem_cons_of_mem _ hpart, h⟩

theorem OutputLanguage.mem_tag (language : OutputLanguage) {c : Char}
    (hc : c ∈ language.tag.toList) : c = '-' ∨ isLetter c = true ∨ isDigit c = true := by
  obtain h | ⟨part, hpart, hmem⟩ := @mem_parts _ '-' _ hc
  · exact Or.inl h
  · have hvalid := language.valid
    unfold validateOutputLanguage at hvalid
    split at hvalid
    · cases hvalid
    · rename_i first rest hsplit
      rw [hsplit] at hpart
      simp only [Bool.and_eq_true, List.all_eq_true, Bool.or_eq_true, decide_eq_true_eq] at hvalid
      rcases List.mem_cons.mp hpart with rfl | hpart
      · exact Or.inr (Or.inl (hvalid.1.2 c hmem))
      · exact Or.inr ((hvalid.2 part hpart).2 c hmem)

theorem newline_notMem_tag (language : OutputLanguage) : newline ∉ text language.tag := by
  intro h
  obtain ⟨c, hc, hbyte⟩ := List.mem_flatMap.mp h
  have hrange : 45 ≤ c.val.toNat ∧ c.val.toNat ≤ 122 := by
    have htag := language.mem_tag hc
    simp only [isLetter, isDigit, Bool.or_eq_true, Bool.and_eq_true, decide_eq_true_eq, Char.le_def,
      UInt32.le_iff_toNat_le] at htag
    rcases htag with rfl | (h | h) | h
    · decide
    · exact ⟨Nat.le_trans (by decide) h.1, h.2⟩
    · exact ⟨Nat.le_trans (by decide) h.1, Nat.le_trans h.2 (by decide)⟩
    · exact ⟨Nat.le_trans (by decide) h.1, Nat.le_trans h.2 (by decide)⟩
  unfold String.utf8EncodeChar at hbyte
  simp only at hbyte
  rw [if_pos (Nat.le_trans hrange.2 (by decide)), List.mem_singleton] at hbyte
  have hnat := congrArg UInt8.toNat hbyte
  rw [UInt8.toNat_ofNat_of_lt' (Nat.lt_of_le_of_lt hrange.2 (by decide))] at hnat
  exact absurd (hnat ▸ hrange.1) (by decide)

theorem newline_notMem_outputLanguageBlock (language : OutputLanguage) :
    ∀ l ∈ outputLanguageBlock language, newline ∉ l := by
  intro l hl
  simp only [outputLanguageBlock, outputLanguageBody, List.cons_append, List.nil_append,
    List.mem_cons, List.not_mem_nil, or_false] at hl
  obtain rfl | rfl | rfl | rfl | rfl | rfl := hl
  · decide
  · decide
  · decide
  · rw [List.mem_append, List.mem_append, not_or, not_or]
    exact ⟨⟨by decide, newline_notMem_tag language⟩, by decide⟩
  · decide
  · decide

/-! ## Writing the block again -/

section Framed

variable {data : Bytes} {before after : List Line} {language : OutputLanguage}

theorem BlockedLines.render (h : BlockedLines (lines data) before after)
    (language : OutputLanguage) :
    renderOutputLanguageBlock data language = .ok (written language before after) := by
  obtain ⟨s, body, e, hlines, hscan⟩ := h.scan
  have hdrop : (before ++ s :: (body ++ e :: after)).drop (before.length + 1 + body.length + 1) =
      after := by
    rw [Nat.add_assoc, Nat.add_assoc, List.drop_append, List.drop_of_length_le (Nat.le_add_right _ _),
      List.nil_append, Nat.add_sub_cancel_left, Nat.add_comm 1, List.drop_succ_cons,
      List.drop_append, List.drop_of_length_le (Nat.le_succ _), List.nil_append,
      Nat.add_sub_cancel_left]
    rfl
  rw [renderOutputLanguageBlock, hscan]
  dsimp only
  rw [hlines, hdrop, List.take_left, written]

theorem BlockedLines.canonical (h : BlockedLines (lines data) before after) :
    normalizeOutputLanguageBlock data = frame before after := by
  rw [normalizeOutputLanguageBlock, h.normalize, frame]

theorem Unmarked.render (h : Unmarked data) (language : OutputLanguage) :
    renderOutputLanguageBlock data language =
      .ok (written language (paddedLines (lines data)) []) := by
  rw [renderOutputLanguageBlock, scanBlock_plain h.2, written, List.append_nil]

/-- The lines around the block. -/
structure Outer (ls : List Line) : Prop where
  plain : ∀ l ∈ ls, Plain l
  line : ∀ l ∈ ls, newline ∉ l

theorem Outer.padded {ls : List Line} (h : Outer ls) : Outer (paddedLines ls) := by
  unfold paddedLines
  split
  · exact h
  · have hblank : Plain [] := by
      constructor
      · decide
      · decide
    constructor
    · intro l hl
      rcases List.mem_append.mp hl with hl | hl
      · exact h.plain l hl
      · exact List.mem_singleton.mp hl ▸ hblank
    · intro l hl
      rcases List.mem_append.mp hl with hl | hl
      · exact h.line l hl
      · exact List.mem_singleton.mp hl ▸ List.not_mem_nil

theorem Framed.outer (h : Framed data before after) : Outer before ∧ Outer after := by
  obtain h | ⟨hunmarked, rfl, rfl⟩ := h
  · obtain ⟨⟨s, body, e, hlines, -⟩, hbefore, hafter⟩ := h
    have hmem : ∀ l, l ∈ before ∨ l ∈ after → newline ∉ l := by
      intro l hl
      refine @newline_notMem_lines data _ ?_
      rw [hlines]
      simp only [List.mem_append, List.mem_cons]
      tauto
    exact ⟨⟨hbefore, fun l hl => hmem l (Or.inl hl)⟩, ⟨hafter, fun l hl => hmem l (Or.inr hl)⟩⟩
  · have houter : Outer (lines data) := ⟨hunmarked.2, fun l hl => newline_notMem_lines hl⟩
    exact ⟨houter.padded, by rintro l ⟨⟩, by rintro l ⟨⟩⟩

/-- A text that is put together from lines has its block between them. -/
theorem blocked_joined {start stop : Line} {body : List Line} (hbefore : Outer before)
    (hafter : Outer after) (hstart : TrimSpace start = outputLanguageBlockStart)
    (hstop : TrimSpace stop = outputLanguageBlockEnd) (hbody : ∀ l ∈ body, Plain l)
    (hline : ∀ l ∈ start :: (body ++ [stop]), newline ∉ l) :
    BlockedLines (lines (joinLines (before ++ start :: (body ++ stop :: after)))) before after := by
  refine ⟨⟨start, body, stop, lines_joinLines ?_ (by simp), hstart, hstop, hbody⟩,
    hbefore.plain, hafter.plain⟩
  intro l hl
  simp only [List.mem_append, List.mem_cons, List.not_mem_nil, or_false] at hl hline
  rcases hl with hl | rfl | hl | rfl | hl
  · exact hbefore.line l hl
  · exact hline l (Or.inl rfl)
  · exact hline l (Or.inr (Or.inl hl))
  · exact hline l (Or.inr (Or.inr rfl))
  · exact hafter.line l hl

theorem Framed.blocked_frame (h : Framed data before after) :
    BlockedLines (lines (frame before after)) before after := by
  obtain ⟨hbefore, hafter⟩ := h.outer
  refine @blocked_joined _ _ _ _ [] hbefore hafter trimSpace_start trimSpace_end
    (by rintro l ⟨⟩) ?_
  intro l hl
  simp only [List.nil_append, List.mem_cons, List.not_mem_nil, or_false] at hl
  rcases hl with rfl | rfl
  · decide
  · decide

theorem Framed.blocked_written (h : Framed data before after) (language : OutputLanguage) :
    BlockedLines (lines (written language before after)) before after := by
  obtain ⟨hbefore, hafter⟩ := h.outer
  have hjoined := blocked_joined hbefore hafter trimSpace_start trimSpace_end
    (outputLanguageBody_plain language) (newline_notMem_outputLanguageBlock language)
  rw [written, outputLanguageBlock, List.append_assoc, List.cons_append, List.append_assoc]
  exact hjoined

theorem Framed.render (h : Framed data before after) (language : OutputLanguage) :
    renderOutputLanguageBlock data language =
      .ok (written language before after) := by
  obtain h | ⟨h, rfl, rfl⟩ := h
  · exact h.render language
  · exact h.render language

/-- The canonical text holds what is around the block. -/
theorem Framed.canonical (h : Framed data before after) :
    canonicalOutputLanguage data = frame before after := by
  unfold canonicalOutputLanguage
  rw [h.render]
  split
  · obtain h | ⟨h, -⟩ := h
    · exact h.canonical
    · rename_i hmark
      exact absurd hmark h.1
  · exact (h.blocked_written english).canonical

/-- Writing a canonical text and reading it again. -/
theorem Framed.canonical_written (h : Framed data before after) (language : OutputLanguage) :
    canonicalOutputLanguage (written language before after) = frame before after :=
  Framed.canonical (Or.inl (h.blocked_written language))

theorem Framed.render_frame (h : Framed data before after) (language : OutputLanguage) :
    renderOutputLanguageBlock (frame before after) language = .ok (written language before after) :=
  h.blocked_frame.render language

end Framed

end Openlia.Instructions

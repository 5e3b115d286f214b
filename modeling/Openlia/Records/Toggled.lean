import Openlia.Records.Frontmatter
import Openlia.Records.Parsed

/-! # Toggling changes one item

The item is found by the number of its line in the text that the parser takes. It is
written on the line with the number that the parser gives for the text that the toggle
takes. Both have to be the same line of the content.
-/

namespace Openlia.Records

open Lib

/-! ## The flag of an item -/

/-- Where the flag of an item is in the content. -/
def itemPlace (content : Text) (item : ChecklistItem) : Option Nat :=
  let body := bodyAfter endsLine content
  (splitLines body)[item.lineIndex]?.bind fun line => (flagPlace? line).map fun place =>
    content.length - body.length + (lineStart body item.lineIndex + place)

theorem drop_of_suffix {body content : Text} (h : body <:+ content) :
    content.drop (content.length - body.length) = body := by
  obtain ⟨before, rfl⟩ := h
  rw [List.length_append, Nat.add_sub_cancel, List.drop_left]

theorem isFlag_flagOf (c : Bool) : isFlag (flagOf c) = true := by
  cases c <;> rfl

theorem flagOf_checked (c : Bool) : (flagOf c = 'x' || flagOf c = 'X') = c := by
  cases c <;> rfl

theorem noBreak_of_isFlag {f : Char} (h : isFlag f = true) : NoBreak f := by
  rcases flag_cases h with rfl | rfl | rfl <;> exact ⟨by decide, by decide⟩

section Item

variable {toLowerCase : String → String} {content : Text} {heading : Option String}
  {items : List ChecklistItem} {item : ChecklistItem} {i place : Nat} {flag f : Char}

theorem flipped_set (hplace : 0 < place) (hbracket : content[place - 1]? = some '[')
    (hflag : content[place]? = some flag) (hisFlag : isFlag flag = true) (hf : isFlag f = true) :
    Flipped content (content.set place f) := by
  obtain ⟨k, rfl⟩ : ∃ k, place = k + 1 := ⟨place - 1, by omega⟩
  rw [Nat.add_sub_cancel] at hbracket
  have hdrop : content.drop k = '[' :: flag :: content.drop (k + 2) := by
    rw [List.drop_eq_getElem?_toList_append, hbracket, List.drop_eq_getElem?_toList_append,
      hflag]
    rfl
  have hsplit : content = content.take k ++ '[' :: flag :: content.drop (k + 2) := by
    rw [← hdrop, List.take_append_drop]
  have hk : (content.take k).length = k := by
    obtain ⟨hk, -⟩ := List.getElem?_eq_some_iff.mp hflag
    rw [List.length_take]
    omega
  refine ⟨content.take k, content.drop (k + 2), flag, f, hsplit, ?_, hisFlag, hf⟩
  conv_lhs => rw [hsplit]
  rw [List.set_append_right _ _ (by omega), hk, Nat.add_sub_cancel_left]
  rfl

/-- The flag of an item stands between brackets in the content, and another flag there
is another flag of the item. -/
theorem extract_set (hitems : extractMarkdownChecklist toLowerCase content heading = some items)
    (hitem : items[i]? = some item) (c : Bool) :
    ∃ place flag, itemPlace content item = some place ∧ content[place]? = some flag ∧
      item.checked = (flag = 'x' || flag = 'X') ∧
      extractMarkdownChecklist toLowerCase (content.set place (flagOf c)) heading =
        some (items.modify i fun item => { item with checked := c }) := by
  obtain ⟨hnodup, hread⟩ := extract_items hitems
  obtain ⟨line, place, flag, text, hline, htask, hchecked⟩ :=
    hread item (List.mem_of_getElem? hitem)
  have hdrop := drop_of_suffix (bodyAfter_suffix endsLine_consumes content)
  generalize hbody : bodyAfter endsLine content = body at hline hdrop
  generalize hn : content.length - body.length = n at hdrop
  obtain ⟨hplace, hbracket, hflag⟩ := htask.bracket
  have hat : ∀ k, content[n + k]? = body[k]? := fun k => by rw [← hdrop, List.getElem?_drop]
  have hflag' : content[n + (lineStart body item.lineIndex + place)]? = some flag := by
    rw [hat, getElem?_lineStart hline htask.length, hflag]
  have hbracket' : content[n + (lineStart body item.lineIndex + place) - 1]? = some '[' := by
    have hpred : n + (lineStart body item.lineIndex + place) - 1 =
        n + (lineStart body item.lineIndex + (place - 1)) := by omega
    rw [hpred, hat, getElem?_lineStart hline (by have := htask.length; omega), hbracket]
  have hf := isFlag_flagOf c
  -- The body starts at the same place.
  have hbody' : bodyAfter endsLine
      (content.set (n + (lineStart body item.lineIndex + place)) (flagOf c)) =
        body.set (lineStart body item.lineIndex + place) (flagOf c) := by
    have hlength := bodyAfter_flipped
      (flipped_set (by omega) hbracket' hflag' htask.flag hf)
    have hdrop' := drop_of_suffix (bodyAfter_suffix endsLine_consumes
      (content.set (n + (lineStart body item.lineIndex + place)) (flagOf c)))
    rw [hlength, hbody, List.length_set, hn, List.drop_set, if_neg (by omega), hdrop,
      Nat.add_sub_cancel_left] at hdrop'
    exact hdrop'.symm
  have hparsed : parseMarkdownRecord
      (content.set (n + (lineStart body item.lineIndex + place)) (flagOf c)) =
        (parseMarkdownRecord content).map (Parser.check item.lineIndex c) := by
    rw [parseMarkdownRecord, parseMarkdownRecord, hbody', hbody,
      splitLines_set hline htask.length (fun d hd => ?_) (noBreak_of_isFlag hf)]
    · have hflags := @parseLines_flag start 0 _ _ c _ _ _ _ _ hline htask hf (flagOf_checked c)
      rw [Nat.zero_add] at hflags
      exact hflags
    · rw [hflag] at hd
      exact Option.some.inj hd ▸ noBreak_of_isFlag htask.flag
  refine ⟨n + (lineStart body item.lineIndex + place), flag, ?_, hflag', hchecked, ?_⟩
  · rw [itemPlace, hbody, hn, hline, Option.bind_some, htask.flagPlace?]
    rfl
  · rw [extract_check hparsed, hitems, Option.map_some, map_check hnodup hitem]

end Item

/-! ## Where the toggle writes -/

/-- Where the toggle writes a flag. It takes the line with the number of the item in the
checklist of its own body; `none` is an exception. -/
def writtenPlace (toLowerCase : String → String) (content : Text) (heading : Option String)
    (itemIndex : Nat) : Option (Option Nat) :=
  let body := bodyAfter endsAnywhere content
  let lines := splitSep (newlineOf body) body
  (extractMarkdownChecklist toLowerCase body heading).map fun items =>
    items[itemIndex]?.bind fun item => lines[item.lineIndex]?.bind fun line =>
      (flagPlace? line).map fun place =>
        content.length - body.length + (partStart (newlineOf body) lines item.lineIndex + place)

theorem newlineOf_cases (body : Text) :
    newlineOf body = ['\n'] ∨ newlineOf body = ['\r', '\n'] := by
  unfold newlineOf
  split
  · exact Or.inr rfl
  · exact Or.inl rfl

theorem newlineOf_ne_nil (body : Text) : newlineOf body ≠ [] := by
  rcases newlineOf_cases body with h | h <;> rw [h] <;> exact List.cons_ne_nil _ _

theorem flagPlace?_lt {line : Text} {place : Nat} (h : flagPlace? line = some place) :
    place < line.length := by
  unfold flagPlace? at h
  cases hline : line.dropWhile Browser.isSpace with
  | nil =>
      rw [hline] at h
      cases h
  | cons marker s =>
      rw [hline] at h
      dsimp only at h
      split at h
      · split at h
        · rename_i flag r hs
          split at h
          · obtain rfl := Option.some.inj h
            have hlength := congrArg List.length
              (List.takeWhile_append_dropWhile (p := Browser.isSpace) (l := line))
            have hlength' := congrArg List.length
              (List.takeWhile_append_dropWhile (p := Browser.isSpace) (l := s))
            rw [List.length_append, hline, List.length_cons] at hlength
            rw [List.length_append, hs] at hlength'
            simp only [List.length_cons] at hlength'
            omega
          · cases h
        · cases h
      · cases h

section Toggle

variable (toLowerCase : String → String) (content : Text) (heading : Option String)
  (itemIndex : Nat)

/-- The toggle writes one flag, or nothing. -/
theorem toggle_eq (c : Bool) :
    toggleRecordChecklistItem toLowerCase content heading itemIndex (some c) =
      (writtenPlace toLowerCase content heading itemIndex).map fun place =>
        place.elim content fun place => content.set place (flagOf c) := by
  unfold toggleRecordChecklistItem writtenPlace
  have hsuffix := bodyAfter_suffix endsAnywhere_consumes content
  have hdrop := drop_of_suffix hsuffix
  generalize bodyAfter endsAnywhere content = body at hsuffix hdrop
  have hjoin := intercalate_splitSep (newlineOf_ne_nil body) body
  have hbefore := List.take_append_drop (content.length - body.length) content
  rw [hdrop] at hbefore
  dsimp only
  rw [Option.map_map]
  congr 1
  funext items
  rw [Function.comp_apply]
  cases items[itemIndex]? with
  | none => rfl
  | some item =>
      rw [Option.bind_some]
      dsimp only
      cases hline : (splitSep (newlineOf body) body)[item.lineIndex]? with
      | none => rfl
      | some line =>
          rw [Option.bind_some, Option.getD_some]
          dsimp only
          unfold replaceFlag
          cases hplace : flagPlace? line with
          | none =>
              dsimp only
              obtain ⟨hlt, rfl⟩ := List.getElem?_eq_some_iff.mp hline
              rw [List.set_getElem_self, hjoin, hbefore]
              rfl
          | some place =>
              dsimp only
              have hlength : (content.take (content.length - body.length)).length =
                  content.length - body.length := by
                rw [List.length_take]
                omega
              generalize content.length - body.length = n at hbefore hlength
              rw [intercalate_set hline (flagPlace?_lt hplace), hjoin]
              show _ = content.set (n + (partStart _ _ item.lineIndex + place)) _
              conv_rhs => rw [← hbefore]
              rw [List.set_append_right _ _ (by omega), hlength, Nat.add_sub_cancel_left]

variable {toLowerCase content heading itemIndex}

theorem writtenPlace_lt {place : Nat}
    (h : writtenPlace toLowerCase content heading itemIndex = some (some place)) :
    place < content.length := by
  unfold writtenPlace at h
  have hlength := (bodyAfter_suffix endsAnywhere_consumes content).length_le
  generalize bodyAfter endsAnywhere content = body at h hlength
  obtain ⟨items, -, h⟩ := Option.map_eq_some_iff.mp h
  obtain ⟨item, -, h⟩ := Option.bind_eq_some_iff.mp h
  obtain ⟨line, hline, h⟩ := Option.bind_eq_some_iff.mp h
  obtain ⟨k, hk, rfl⟩ := Option.map_eq_some_iff.mp h
  have hlt := @partStart_lt _ (newlineOf body) _ _ _ _ hline (flagPlace?_lt hk)
  rw [intercalate_splitSep (newlineOf_ne_nil body)] at hlt
  omega

theorem modify_checked {items : List ChecklistItem} {item : ChecklistItem} {c : Bool}
    (hitem : items[itemIndex]? = some item) :
    (items.modify itemIndex fun item => { item with checked := c }) = items ↔ item.checked = c := by
  constructor
  · intro h
    have hget : (items.modify itemIndex fun item => { item with checked := c })[itemIndex]? =
        items[itemIndex]? := by rw [h]
    rw [List.getElem?_modify_eq, hitem] at hget
    exact (congrArg ChecklistItem.checked (Option.some.inj hget)).symm
  · rintro rfl
    obtain ⟨hlt, rfl⟩ := List.getElem?_eq_some_iff.mp hitem
    rw [List.modify_eq_set_getElem?, hitem]
    exact List.set_getElem_self hlt

end Toggle

/-! ## The right line -/

/-- The toggle leaves the other items and the rest of the content. -/
def TogglesItem (toLowerCase : String → String) (content : Text) (heading : Option String)
    (itemIndex : Nat) (c : Bool) : Prop :=
  ∀ items item, extractMarkdownChecklist toLowerCase content heading = some items →
    items[itemIndex]? = some item →
    ∃ content' place,
      toggleRecordChecklistItem toLowerCase content heading itemIndex (some c) = some content' ∧
      extractMarkdownChecklist toLowerCase content' heading =
        some (items.modify itemIndex fun item => { item with checked := c }) ∧
      itemPlace content item = some place ∧ content'.length = content.length ∧
      ∀ k, k ≠ place → content'[k]? = content[k]?

/-- Both texts have the item on the same line, or the item has the flag already and none
is changed elsewhere. -/
def SameLine (toLowerCase : String → String) (content : Text) (heading : Option String)
    (itemIndex : Nat) (c : Bool) : Prop :=
  ∀ items item, extractMarkdownChecklist toLowerCase content heading = some items →
    items[itemIndex]? = some item →
    writtenPlace toLowerCase content heading itemIndex = some (itemPlace content item) ∨
      item.checked = c ∧ ∃ place, writtenPlace toLowerCase content heading itemIndex = some place ∧
        ∀ k, place = some k → content[k]? = some (flagOf c)

theorem togglesItem_iff (toLowerCase : String → String) (content : Text)
    (heading : Option String) (itemIndex : Nat) (c : Bool) :
    TogglesItem toLowerCase content heading itemIndex c ↔
      SameLine toLowerCase content heading itemIndex c := by
  unfold TogglesItem SameLine
  refine forall_congr' fun items => forall_congr' fun item => forall_congr' fun hitems =>
    forall_congr' fun hitem => ?_
  obtain ⟨place, flag, hplace, hflag, hchecked, hextract⟩ := extract_set hitems hitem c
  rw [toggle_eq, hplace]
  constructor
  · rintro ⟨content', place', hcontent, hitems', hsome, hlength, hsame⟩
    obtain rfl := Option.some.inj hsome
    obtain ⟨written, hwritten, rfl⟩ := Option.map_eq_some_iff.mp hcontent
    have hsameItems : extractMarkdownChecklist toLowerCase content heading = some
        (items.modify itemIndex fun item => { item with checked := c }) → item.checked = c :=
      fun h => (modify_checked hitem).mp (Option.some.inj (h.symm.trans hitems))
    cases written with
    | none => exact Or.inr ⟨hsameItems hitems', none, hwritten, fun _ h => nomatch h⟩
    | some k =>
        by_cases hk : k = place
        · exact Or.inl (by rw [hwritten, hk])
        · -- Nothing may change elsewhere.
          have hget := hsame k hk
          have hlt := writtenPlace_lt hwritten
          rw [Option.elim_some, List.getElem?_set_self hlt] at hget
          obtain ⟨_, hget'⟩ := List.getElem?_eq_some_iff.mp hget.symm
          rw [Option.elim_some, ← hget', List.set_getElem_self] at hitems'
          refine Or.inr ⟨hsameItems hitems', some k, hwritten, fun k' h => ?_⟩
          obtain rfl := Option.some.inj h
          exact hget.symm
  · rintro (hwritten | ⟨hc, written, hwritten, hsame⟩)
    · refine ⟨content.set place (flagOf c), place, by rw [hwritten]; rfl, hextract, rfl,
        List.length_set, fun k hk => List.getElem?_set_ne hk.symm⟩
    · have hcontent : (written.elim content fun place => content.set place (flagOf c)) =
          content := by
        cases written with
        | none => rfl
        | some k =>
            obtain ⟨hk, hget⟩ := List.getElem?_eq_some_iff.mp (hsame k rfl)
            show content.set k (flagOf c) = content
            rw [← hget, List.set_getElem_self]
      exact ⟨content, place, by rw [hwritten, Option.map_some, hcontent],
        by rw [hitems, (modify_checked hitem).mpr hc], rfl, rfl, fun k _ => rfl⟩

/-- Both functions take the same body, which has no frontmatter of its own and one kind
of line break. -/
structure OneReading (content : Text) : Prop where
  same : bodyAfter endsAnywhere content = bodyAfter endsLine content
  once : bodyAfter endsLine (bodyAfter endsLine content) = bodyAfter endsLine content
  uniform : Uniform (newlineOf (bodyAfter endsLine content)) (bodyAfter endsLine content)

theorem OneReading.sameLine {content : Text} (h : OneReading content)
    (toLowerCase : String → String) (heading : Option String) (itemIndex : Nat) (c : Bool) :
    SameLine toLowerCase content heading itemIndex c := by
  intro items item hitems hitem
  left
  have hbody : extractMarkdownChecklist toLowerCase (bodyAfter endsLine content) heading =
      some items := by
    rw [← hitems]
    unfold extractMarkdownChecklist parseMarkdownRecord
    rw [h.once]
  obtain ⟨hnodup, hread⟩ := extract_items hitems
  obtain ⟨line, place, flag, text, hline, htask, -⟩ := hread item (List.mem_of_getElem? hitem)
  obtain ⟨hsplit, hstart⟩ := splitSep_uniform (newlineOf_cases _) h.uniform
  obtain ⟨hlt, -⟩ := List.getElem?_eq_some_iff.mp hline
  unfold writtenPlace itemPlace
  dsimp only
  rw [h.same, hbody, Option.map_some, hitem, Option.bind_some, hsplit, hline, Option.bind_some,
    Option.bind_some, hstart _ hlt]

/-- Toggling changes the one item exactly if both readings of the content have it on the
same line, or nothing has to change. This is so for a content with one reading. -/
theorem checklist_item_toggled (toLowerCase : String → String) (content : Text)
    (heading : Option String) (itemIndex : Nat) (c : Bool) :
    (TogglesItem toLowerCase content heading itemIndex c ↔
      SameLine toLowerCase content heading itemIndex c) ∧
      (OneReading content → TogglesItem toLowerCase content heading itemIndex c) :=
  ⟨togglesItem_iff toLowerCase content heading itemIndex c, fun h =>
    (togglesItem_iff toLowerCase content heading itemIndex c).mpr
      (h.sameLine toLowerCase heading itemIndex c)⟩

/-- With a line break of either kind the second item is checked instead of the first. -/
theorem other_item_toggled :
    ¬ TogglesItem id "## A\n- [ ] x\r\n- [ ] y\r\n".toList none 0 true := by
  intro h
  have hitems : extractMarkdownChecklist id "## A\n- [ ] x\r\n- [ ] y\r\n".toList none =
      some [⟨0, "x", false, 1⟩, ⟨1, "y", false, 2⟩] := by decide +kernel
  have htoggle : toggleRecordChecklistItem id "## A\n- [ ] x\r\n- [ ] y\r\n".toList none 0
      (some true) = some "## A\n- [ ] x\r\n- [x] y\r\n".toList := by decide +kernel
  have hitems' : extractMarkdownChecklist id "## A\n- [ ] x\r\n- [x] y\r\n".toList none =
      some [⟨0, "x", false, 1⟩, ⟨1, "y", true, 2⟩] := by decide +kernel
  obtain ⟨content', place, hcontent, hextract, -⟩ := h _ _ hitems rfl
  rw [htoggle] at hcontent
  cases hcontent
  rw [hitems'] at hextract
  exact absurd (Option.some.inj hextract) (by decide)

end Openlia.Records

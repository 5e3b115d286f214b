import Openlia.Records.Tasks

/-! # What the parser reads

Every item is a task of its own line. Another flag on this line is another flag of the
item, and nothing else.
-/

namespace Openlia.Records

open Lib

/-! ## Another flag -/

/-- The item of the line is checked or not. -/
def check (line : Nat) (c : Bool) (item : ChecklistItem) : ChecklistItem :=
  if item.lineIndex = line then { item with checked := c } else item

def checkAll (line : Nat) (c : Bool) (checklists : Checklists) : Checklists :=
  checklists.map fun e => (e.1, e.2.map (check line c))

def Parser.check (line : Nat) (c : Bool) (s : Parser) : Parser :=
  { s with checklists := checkAll line c s.checklists }

section Check

variable {s s' : Parser} {checklists : Checklists} {heading : String} {li idx j place : Nat}
  {c : Bool} {flag f : Char} {line text : Text} {lines : List Text} {item : ChecklistItem}

theorem lookup_checkAll (li : Nat) (c : Bool) (checklists : Checklists) (heading : String) :
    (checkAll li c checklists).lookup heading =
      (checklists.lookup heading).map (List.map (check li c)) := by
  induction checklists with
  | nil => rfl
  | cons e checklists ih =>
      rw [checkAll, List.map_cons, List.lookup_cons, List.lookup_cons]
      cases heading == e.1 with
      | true => rfl
      | false => exact ih

theorem openChecklist_checkAll : openChecklist (checkAll li c checklists) heading =
    checkAll li c (openChecklist checklists heading) := by
  rw [openChecklist, openChecklist, lookup_checkAll, Option.isSome_map]
  split
  · rfl
  · rw [checkAll, checkAll, List.map_append]
    rfl

/-- The item that is read from a line. -/
def readItem (index : Nat) (text : Text) (flag : Char) (idx : Nat) : ChecklistItem :=
  ⟨index, String.ofList (trim text), flag = 'x' || flag = 'X', idx⟩

/-- Items are pushed as before, the last one perhaps with another flag. -/
theorem pushItem_checkAll
    (hread : ∀ index, readItem index text f idx = check li c (readItem index text flag idx)) :
    pushItem (checkAll li c checklists) heading idx f text =
      (pushItem checklists heading idx flag text).map (checkAll li c) := by
  rw [pushItem, pushItem, lookup_checkAll]
  cases checklists.lookup heading with
  | none => rfl
  | some items =>
      rw [Option.map_some, Option.map_some]
      dsimp only
      rw [checkAll, checkAll, List.map_map, List.map_map]
      congr 2
      funext e
      by_cases he : e.1 = heading
      · rw [Function.comp_apply, Function.comp_apply, if_pos he, if_pos he, List.map_append,
          List.length_map]
        exact congrArg (fun item => (e.1, e.2.map (check li c) ++ [item])) (hread e.2.length)
      · rw [Function.comp_apply, Function.comp_apply, if_neg he, if_neg he]

/-- What a line can do to the checklists. -/
theorem parseLine_shape (title : Text) (currentHeading : Option String)
    (codeFence : Option (Char × Nat)) (idx : Nat) (line : Text) :
    (∃ title' fence', ∀ checklists, parseLine ⟨title, checklists, currentHeading, codeFence⟩ idx
        line = some ⟨title', checklists, currentHeading, fence'⟩) ∨
      (∃ heading, ∀ checklists, parseLine ⟨title, checklists, currentHeading, codeFence⟩ idx line =
        some ⟨title, openChecklist checklists heading, some heading, none⟩) ∨
      ∃ heading flag text, task? line = some (flag, text) ∧
        ∀ checklists, parseLine ⟨title, checklists, currentHeading, codeFence⟩ idx line =
          (pushItem checklists heading idx flag text).map fun checklists =>
            ⟨title, checklists, some heading, none⟩ := by
  unfold parseLine
  cases codeFence with
  | some fence =>
      dsimp only
      cases closesFence fence line with
      | true => exact Or.inl ⟨title, none, fun _ => rfl⟩
      | false => exact Or.inl ⟨title, some fence, fun _ => rfl⟩
  | none =>
      dsimp only
      cases match1 fencePattern line with
      | some run => exact Or.inl ⟨title, _, fun _ => rfl⟩
      | none =>
          dsimp only
          cases match1 h1Pattern line <;> cases title
          case some.nil title => exact Or.inl ⟨trim title, none, fun _ => rfl⟩
          -- The line is no title.
          all_goals
            dsimp only
            cases match1 h2Pattern line with
            | some heading => exact Or.inr (Or.inl ⟨_, fun _ => rfl⟩)
            | none =>
                cases currentHeading with
                | none => exact Or.inl ⟨_, none, fun _ => rfl⟩
                | some heading =>
                    cases task? line with
                    | none => exact Or.inl ⟨_, none, fun _ => rfl⟩
                    | some task => exact Or.inr (Or.inr ⟨heading, _, _, rfl, fun _ => rfl⟩)

/-- A task is an item of the heading that it stands under. -/
theorem IsTask.parseLine (h : IsTask line place flag text) (s : Parser) (idx : Nat) :
    parseLine s idx line =
      match s.codeFence, s.currentHeading with
      | none, some heading => (pushItem s.checklists heading idx flag text).map fun checklists =>
          { s with checklists := checklists }
      | _, _ => some s := by
  unfold Records.parseLine closesFence
  rw [h.no_fence, h.no_heading.1, h.no_heading.2, h.task?]
  cases s.codeFence with
  | some fence => rfl
  | none =>
      cases s.currentHeading with
      | none => rfl
      | some heading => rfl

/-- A step on another line. -/
theorem parseLine_check (h : idx ≠ li) :
    parseLine (s.check li c) idx line = (parseLine s idx line).map (Parser.check li c) := by
  obtain ⟨title, checklists, currentHeading, codeFence⟩ := s
  rcases parseLine_shape title currentHeading codeFence idx line with
    ⟨title', fence', hline⟩ | ⟨heading, hline⟩ | ⟨heading, flag, text, -, hline⟩
  · rw [hline]
    exact hline _
  · rw [hline]
    exact (hline _).trans (by rw [openChecklist_checkAll]; rfl)
  · have hread : ∀ index, readItem index text flag idx =
        check li c (readItem index text flag idx) := fun index => (if_neg h).symm
    rw [hline, Option.map_map]
    exact (hline _).trans (by rw [pushItem_checkAll hread, Option.map_map]; rfl)

/-- The step on the line itself. -/
theorem parseLine_flag (h : IsTask line place flag text) (hf : isFlag f = true)
    (hc : (f = 'x' || f = 'X') = c) :
    parseLine (s.check idx c) idx (line.set place f) =
      (parseLine s idx line).map (Parser.check idx c) := by
  obtain ⟨title, checklists, currentHeading, codeFence⟩ := s
  rw [h.parseLine, (h.set hf).parseLine]
  cases codeFence with
  | some fence => rfl
  | none =>
      cases currentHeading with
      | none => rfl
      | some heading =>
          have hread : ∀ index, readItem index text f idx =
              check idx c (readItem index text flag idx) := by
            intro index
            rw [check, readItem, readItem, if_pos rfl, hc]
          show (pushItem (checkAll idx c checklists) heading idx f text).map _ = _
          rw [pushItem_checkAll hread, Option.map_map]
          exact (Option.map_map (Parser.check idx c) (⟨title, ·, some heading, none⟩) _).symm

theorem parseLines_check (h : li < idx) :
    parseLines (s.check li c) idx lines = (parseLines s idx lines).map (Parser.check li c) := by
  induction lines generalizing s idx with
  | nil => rfl
  | cons line lines ih =>
      rw [parseLines, parseLines, parseLine_check (Nat.ne_of_gt h)]
      cases parseLine s idx line with
      | none => rfl
      | some s' => exact ih (Nat.lt_succ_of_lt h)

/-- All lines, one of them with another flag. -/
theorem parseLines_flag (hl : lines[j]? = some line) (ht : IsTask line place flag text)
    (hf : isFlag f = true) (hc : (f = 'x' || f = 'X') = c) :
    parseLines (s.check (idx + j) c) idx (lines.set j (line.set place f)) =
      (parseLines s idx lines).map (Parser.check (idx + j) c) := by
  induction lines generalizing s idx j with
  | nil => simp at hl
  | cons line' lines ih =>
      cases j with
      | zero =>
          obtain rfl := Option.some.inj hl
          rw [List.set_cons_zero, parseLines, parseLines]
          show ((parseLine (s.check idx c) idx _).bind _) = _
          rw [parseLine_flag ht hf hc]
          cases parseLine s idx line' with
          | none => rfl
          | some s' => exact parseLines_check (Nat.lt_succ_self idx)
      | succ j =>
          rw [List.set_cons_succ, parseLines, parseLines, parseLine_check (by omega)]
          cases parseLine s idx line' with
          | none => rfl
          | some s' =>
              have hrest := @ih s' (idx + 1) j hl
              rw [Nat.add_assoc, Nat.add_comm 1] at hrest
              exact hrest

end Check

/-! ## The items -/

/-- The lines of all items. -/
def places (checklists : Checklists) : List Nat :=
  checklists.flatMap fun e => e.2.map (·.lineIndex)

/-- The item says what stands on its line. -/
def ReadFrom (lines : List Text) (item : ChecklistItem) : Prop :=
  ∃ line place flag text, lines[item.lineIndex]? = some line ∧ IsTask line place flag text ∧
    item.checked = (flag = 'x' || flag = 'X')

/-- The checklists of the lines before a line. -/
structure Items (lines : List Text) (idx : Nat) (checklists : Checklists) : Prop where
  keys : (checklists.map (·.1)).Nodup
  places : (places checklists).Nodup
  before : ∀ place ∈ Records.places checklists, place < idx
  read : ∀ e ∈ checklists, ∀ item ∈ e.2, ReadFrom lines item

section Items

variable {s s' : Parser} {checklists checklists' : Checklists} {heading : String} {idx : Nat}
  {flag : Char} {line text : Text} {lines rest : List Text}

theorem Items.later (h : Items lines idx checklists) : Items lines (idx + 1) checklists :=
  ⟨h.keys, h.places, fun place hplace => Nat.lt_succ_of_lt (h.before place hplace), h.read⟩

theorem not_mem_keys (h : checklists.lookup heading = none) :
    heading ∉ checklists.map (·.1) := by
  intro hmem
  obtain ⟨e, he, rfl⟩ := List.mem_map.mp hmem
  have hne := List.lookup_eq_none_iff.mp h e he
  exact absurd hne (by simp)

theorem Items.openChecklist (h : Items lines idx checklists) :
    Items lines idx (openChecklist checklists heading) := by
  unfold Records.openChecklist
  split
  · exact h
  · rename_i hnew
    have hnone : checklists.lookup heading = none := by
      cases hlookup : checklists.lookup heading with
      | none => rfl
      | some items => exact absurd (by rw [hlookup]; rfl) hnew
    have hplaces : Records.places (checklists ++ [(heading, [])]) = Records.places checklists := by
      simp [Records.places]
    refine ⟨?_, hplaces ▸ h.places, hplaces ▸ h.before, fun e he item hitem => ?_⟩
    · rw [List.map_append]
      exact h.keys.append (List.nodup_singleton _) fun key hkey hkey' => by
        obtain rfl := List.mem_singleton.mp hkey'
        exact not_mem_keys hnone hkey
    · rcases List.mem_append.mp he with he | he
      · exact h.read e he item hitem
      · obtain rfl := List.mem_singleton.mp he
        cases hitem

/-- A pushed item has a line of its own. -/
theorem places_pushItem (hkeys : (checklists.map (·.1)).Nodup)
    (h : pushItem checklists heading idx flag text = some checklists') :
    (places checklists').Perm (idx :: places checklists) := by
  unfold pushItem at h
  cases hlookup : checklists.lookup heading with
  | none =>
      rw [hlookup] at h
      cases h
  | some items =>
      rw [hlookup] at h
      cases h
      induction checklists with
      | nil => cases hlookup
      | cons e checklists ih =>
          rw [List.map_cons, List.nodup_cons] at hkeys
          rw [List.map_cons, places, List.flatMap_cons, places, List.flatMap_cons]
          by_cases he : e.1 = heading
          · -- No other checklist has this heading.
            have hother : ∀ e' ∈ checklists, ¬ e'.1 = heading := by
              rintro e' he' rfl
              exact hkeys.1 (he ▸ List.mem_map.mpr ⟨e', he', rfl⟩)
            have hrest : (checklists.map fun entry => if entry.1 = heading then (entry.1, entry.2 ++
                [(⟨entry.2.length, String.ofList (trim text), flag = 'x' || flag = 'X', idx⟩ :
                  ChecklistItem)]) else entry) = checklists := by
              refine (List.map_congr_left fun e' he' => ?_).trans (List.map_id _)
              exact if_neg (hother e' he')
            rw [hrest, if_pos he, List.map_append, List.append_assoc]
            exact List.perm_middle
          · rw [if_neg he]
            have hlookup' : checklists.lookup heading = some items := by
              rw [List.lookup_cons] at hlookup
              have hbeq : (heading == e.1) = false := beq_eq_false_iff_ne.mpr fun h => he h.symm
              rw [hbeq] at hlookup
              exact hlookup
            exact ((ih hkeys.2 hlookup').append_left _).trans List.perm_middle

theorem keys_pushItem (h : pushItem checklists heading idx flag text = some checklists') :
    checklists'.map (·.1) = checklists.map (·.1) := by
  unfold pushItem at h
  cases hlookup : checklists.lookup heading with
  | none =>
      rw [hlookup] at h
      cases h
  | some items =>
      rw [hlookup] at h
      cases h
      rw [List.map_map]
      refine List.map_congr_left fun e _ => ?_
      rw [Function.comp_apply]
      split <;> rfl

theorem mem_pushItem (h : pushItem checklists heading idx flag text = some checklists')
    {e : String × List ChecklistItem} (he : e ∈ checklists') {item : ChecklistItem}
    (hitem : item ∈ e.2) :
    (∃ e ∈ checklists, item ∈ e.2) ∨ ∃ index, item = readItem index text flag idx := by
  unfold pushItem at h
  cases hlookup : checklists.lookup heading with
  | none =>
      rw [hlookup] at h
      cases h
  | some items =>
      rw [hlookup] at h
      cases h
      obtain ⟨e', he', rfl⟩ := List.mem_map.mp he
      split at hitem
      · rcases List.mem_append.mp hitem with hitem | hitem
        · exact Or.inl ⟨e', he', hitem⟩
        · exact Or.inr ⟨e'.2.length, List.mem_singleton.mp hitem⟩
      · exact Or.inl ⟨e', he', hitem⟩

theorem Items.pushItem (h : Items lines idx checklists) (hline : lines[idx]? = some line)
    (htask : task? line = some (flag, text))
    (hpush : pushItem checklists heading idx flag text = some checklists') :
    Items lines (idx + 1) checklists' := by
  have hplaces := places_pushItem h.keys hpush
  refine ⟨keys_pushItem hpush ▸ h.keys, ?_, fun place hplace => ?_, fun e he item hitem => ?_⟩
  · refine hplaces.nodup_iff.mpr (List.nodup_cons.mpr ⟨fun hidx => ?_, h.places⟩)
    exact Nat.lt_irrefl idx (h.before idx hidx)
  · rcases List.mem_cons.mp (hplaces.mem_iff.mp hplace) with rfl | hplace
    · exact Nat.lt_succ_self _
    · exact Nat.lt_succ_of_lt (h.before place hplace)
  · rcases mem_pushItem hpush he hitem with ⟨e, he, hitem⟩ | ⟨index, rfl⟩
    · exact h.read e he item hitem
    · obtain ⟨place, ht⟩ := isTask_of_task? htask
      exact ⟨line, place, flag, text, hline, ht, rfl⟩

/-- One line. -/
theorem Items.parseLine (h : Items lines idx s.checklists) (hline : lines[idx]? = some line)
    (hs : parseLine s idx line = some s') : Items lines (idx + 1) s'.checklists := by
  obtain ⟨title, checklists, currentHeading, codeFence⟩ := s
  rcases parseLine_shape title currentHeading codeFence idx line with
    ⟨title', fence', hshape⟩ | ⟨heading, hshape⟩ | ⟨heading, flag, text, htask, hshape⟩
  · rw [hshape] at hs
    cases hs
    exact h.later
  · rw [hshape] at hs
    cases hs
    exact h.later.openChecklist
  · rw [hshape] at hs
    obtain ⟨checklists', hpush, rfl⟩ := Option.map_eq_some_iff.mp hs
    exact h.pushItem hline htask hpush

/-- All lines. -/
theorem Items.parseLines (h : Items lines idx s.checklists) (hrest : rest = lines.drop idx)
    (hs : parseLines s idx rest = some s') : ∃ n, Items lines n s'.checklists := by
  induction rest generalizing s idx with
  | nil =>
      cases hs
      exact ⟨idx, h⟩
  | cons line rest ih =>
      have hline : lines[idx]? = some line := by
        rw [← List.head?_drop, ← hrest]
        rfl
      have hrest' : rest = lines.drop (idx + 1) := by
        rw [← List.tail_drop, ← hrest]
        rfl
      obtain ⟨s₁, hstep, hs⟩ := Option.bind_eq_some_iff.mp hs
      exact ih (h.parseLine hline hstep) hrest' hs

end Items

theorem items_of_parseMarkdownRecord {content : Text} {s : Parser}
    (h : parseMarkdownRecord content = some s) :
    ∃ n, Items (splitLines (bodyAfter endsLine content)) n s.checklists := by
  have hstart : Items (splitLines (bodyAfter endsLine content)) 0 start.checklists :=
    ⟨List.nodup_nil, List.nodup_nil, fun _ h => (nomatch h), fun _ h => (nomatch h)⟩
  exact hstart.parseLines rfl h

/-! ## The checklist of a heading -/

theorem perm_entries (checklists : Checklists) : (entries checklists).Perm checklists :=
  ((List.mergeSort_perm _ _).append_right _).trans (List.filter_append_perm _ _)

theorem entries_checkAll (li : Nat) (c : Bool) (checklists : Checklists) :
    entries (checkAll li c checklists) = checkAll li c (entries checklists) := by
  unfold entries checkAll
  rw [List.map_append, List.filter_map, List.filter_map]
  congr 1
  exact (List.map_mergeSort (f := fun e : String × List ChecklistItem =>
    (e.1, e.2.map (check li c))) fun _ _ _ _ => rfl).symm

theorem renumber_check (li : Nat) (c : Bool) (items : List ChecklistItem) :
    renumber (items.map (check li c)) = (renumber items).map (check li c) := by
  apply List.ext_getElem?
  intro k
  unfold renumber
  rw [List.getElem?_mapIdx, List.getElem?_map, List.getElem?_map, List.getElem?_mapIdx]
  cases items[k]? with
  | none => rfl
  | some item =>
      simp only [Option.map_some, check]
      split <;> rfl

section Extracted

variable {toLowerCase : String → String} {content content' : Text} {heading : Option String}
  {items : List ChecklistItem} {item : ChecklistItem} {li i : Nat} {c : Bool}

/-- The list of one heading, or of all headings. -/
theorem extract_shape (toLowerCase : String → String) (heading : Option String) :
    (∃ p : String → Bool, ∀ content, extractMarkdownChecklist toLowerCase content heading =
        (parseMarkdownRecord content).map fun s =>
          (((entries s.checklists).find? fun e => p e.1).map (·.2)).getD []) ∨
      ∀ content, extractMarkdownChecklist toLowerCase content heading =
        (parseMarkdownRecord content).map fun s =>
          renumber ((entries s.checklists).flatMap (·.2)) := by
  unfold extractMarkdownChecklist
  cases heading.filter fun h => trim h.toList ≠ [] with
  | some h => exact Or.inl ⟨fun key => normalizeHeading toLowerCase key =
      normalizeHeading toLowerCase h, fun _ => rfl⟩
  | none => exact Or.inr fun _ => rfl

/-- The same checklist, with the item of the line checked or not. -/
theorem extract_check (h : parseMarkdownRecord content' =
      (parseMarkdownRecord content).map (Parser.check li c)) :
    extractMarkdownChecklist toLowerCase content' heading =
      (extractMarkdownChecklist toLowerCase content heading).map (List.map (check li c)) := by
  rcases extract_shape toLowerCase heading with ⟨p, hshape⟩ | hshape
  · rw [hshape, hshape, h, Option.map_map, Option.map_map]
    congr 1
    funext s
    rw [Function.comp_apply, Function.comp_apply, Parser.check, entries_checkAll, checkAll,
      List.find?_map]
    show (((entries s.checklists).find? fun e => p e.1).map _ |>.map _).getD [] = _
    cases (entries s.checklists).find? fun e => p e.1 with
    | none => rfl
    | some e => rfl
  · rw [hshape, hshape, h, Option.map_map, Option.map_map]
    congr 1
    funext s
    rw [Function.comp_apply, Function.comp_apply, ← renumber_check, Parser.check,
      entries_checkAll, checkAll, List.flatMap_map, List.map_flatMap]

theorem renumber_lineIndex (items : List ChecklistItem) :
    (renumber items).map (·.lineIndex) = items.map (·.lineIndex) := by
  apply List.ext_getElem?
  intro k
  rw [renumber, List.getElem?_map, List.getElem?_map, List.getElem?_mapIdx, Option.map_map]
  rfl

/-- Each item is on a line of its own. -/
theorem extract_items (h : extractMarkdownChecklist toLowerCase content heading = some items) :
    (items.map (·.lineIndex)).Nodup ∧
      ∀ item ∈ items, ReadFrom (splitLines (bodyAfter endsLine content)) item := by
  have hread : ∀ s, parseMarkdownRecord content = some s →
      (places (entries s.checklists)).Nodup ∧ ∀ e ∈ entries s.checklists, ∀ item ∈ e.2,
        ReadFrom (splitLines (bodyAfter endsLine content)) item := by
    intro s hs
    obtain ⟨n, hread⟩ := items_of_parseMarkdownRecord hs
    have hperm := perm_entries s.checklists
    exact ⟨(hperm.flatMap_right _).nodup_iff.mpr hread.places,
      fun e he => hread.read e (hperm.mem_iff.mp he)⟩
  rcases extract_shape toLowerCase heading with ⟨p, hshape⟩ | hshape
  · rw [hshape] at h
    obtain ⟨s, hs, rfl⟩ := Option.map_eq_some_iff.mp h
    obtain ⟨hplaces, hitems⟩ := hread s hs
    cases hfind : (entries s.checklists).find? fun e => p e.1 with
    | none => exact ⟨List.nodup_nil, fun _ h => nomatch h⟩
    | some e =>
        have he := List.mem_of_find?_eq_some hfind
        exact ⟨(List.nodup_flatMap.mp hplaces).1 e he, hitems e he⟩
  · rw [hshape] at h
    obtain ⟨s, hs, rfl⟩ := Option.map_eq_some_iff.mp h
    obtain ⟨hplaces, hitems⟩ := hread s hs
    refine ⟨?_, fun item hitem => ?_⟩
    · rw [renumber_lineIndex, List.map_flatMap]
      exact hplaces
    · obtain ⟨k, hk, rfl⟩ := List.mem_mapIdx.mp hitem
      obtain ⟨e, he, hitem⟩ := List.mem_flatMap.mp (List.getElem_mem hk)
      exact hitems e he ((entries s.checklists).flatMap (·.2))[k] hitem

/-- The item of one line is one item. -/
theorem map_check (hnodup : (items.map (·.lineIndex)).Nodup) (hitem : items[i]? = some item) :
    items.map (check item.lineIndex c) = items.modify i fun item => { item with checked := c } := by
  apply List.ext_getElem?
  intro k
  rw [List.getElem?_map, List.getElem?_modify]
  cases hk : items[k]? with
  | none => rfl
  | some item' =>
      show some (check item.lineIndex c item') = some (if i = k then _ else item')
      rw [check]
      by_cases hik : i = k
      · obtain rfl : item = item' := by
          rw [hik, hk] at hitem
          exact (Option.some.inj hitem).symm
        rw [if_pos rfl, if_pos hik]
      · have hline : item'.lineIndex ≠ item.lineIndex := by
          intro heq
          obtain ⟨hi, rfl⟩ := List.getElem?_eq_some_iff.mp hitem
          obtain ⟨hk, rfl⟩ := List.getElem?_eq_some_iff.mp hk
          have hi' : i < (items.map (·.lineIndex)).length := by rwa [List.length_map]
          have hk' : k < (items.map (·.lineIndex)).length := by rwa [List.length_map]
          have hsame : (items.map (·.lineIndex))[i] = (items.map (·.lineIndex))[k] := by
            rw [List.getElem_map, List.getElem_map, heq]
          exact hik (hnodup.getElem_inj_iff.mp hsame)
        rw [if_neg hline, if_neg hik]

end Extracted

end Openlia.Records

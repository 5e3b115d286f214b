import Openlia.Client.Route

/-! # Routes read back

The path that is built for a target is read back as this target, where neither the browser nor the
reader takes something out of it: a segment of dots, a slash in the id of a minion, slashes in
front of the id of a skill, blanks around the name of a file.
-/

namespace Openlia.Client

open Lib Lib.Percent Lib.Address

/-! ## Targets -/

abbrev Name := { s : Text // s ≠ [] }

abbrev FilePath := { s : Text // ∀ part ∈ s.splitOn '/', part ≠ [] ∧ ¬ IsDots part }

abbrev OtherTab := { tab : MainTab // tab ≠ .documents }

/-- What a route is about. -/
inductive Target
  | file (path : FilePath)
  | memory (name : Text)
  | minion (id : Name) (file : Option Name)
  | skill (id : Name) (file : Option Name)
  | share (id : Name)
  | ingestion (id : Name)
  | migration (id : Name)
  | tab (tab : OtherTab)

def Target.route : Target → WorkspaceRoute
  | .file path => { tab := some .documents, path := some path.1 }
  | .memory name => { tab := some .documents, path := some (memoryDocumentPath name) }
  | .minion id f => { tab := some .minions, minionId := some id.1, minionFile := f.map (·.1) }
  | .skill id f => { tab := some .skills, skill := some id.1, skillFile := f.map (·.1) }
  | .share id => { shareId := some id.1 }
  | .ingestion id => { tab := some .ingestion, ingestionId := some id.1 }
  | .migration id => { tab := some .migration, migrationId := some id.1 }
  | .tab t => { tab := some t.1 }

def routeTo (target : Target) (view : Option WorkspaceView) (filter scenario : Option Name) :
    WorkspaceRoute :=
  { target.route with
    view := view, filter := filter.map (·.1), scenario := scenario.map (·.1) }

/-- Nothing is taken out of the names. -/
def Target.Restorable : Target → Prop
  | .file _ => True
  | .memory name => ¬ IsDots name
  | .minion id f => '/' ∉ id.1 ∧ ¬ IsDots id.1 ∧ ∀ name ∈ f, trim name.1 = name.1
  | .skill id f => id.1.head? ≠ some '/' ∧ (∀ part ∈ id.1.splitOn '/', ¬ IsDots part) ∧
      ∀ name ∈ f, trim name.1 = name.1
  | .share id => ¬ IsDots id.1
  | .ingestion id => ¬ IsDots id.1
  | .migration id => ¬ IsDots id.1
  | .tab _ => True

/-! ## Queries -/

section Queries

variable {route : WorkspaceRoute} {segments : List Text}

@[simp] theorem truthy_none : truthy none = none := rfl

@[simp] theorem truthy_nil : truthy (some []) = none := rfl

theorem truthy_some {s : Text} (h : s ≠ []) : truthy (some s) = some s := by
  simp [truthy, Option.filter, h]

@[simp] theorem truthy_truthy (x : Option Text) : truthy (truthy x) = truthy x := by
  cases x with
  | none => rfl
  | some s => by_cases h : s = [] <;> simp [truthy, Option.filter, h]

@[simp] theorem truthy_name (x : Option Name) : truthy (x.map (·.1)) = x.map (·.1) := by
  cases x with
  | none => rfl
  | some n => exact truthy_some n.2

theorem lookup_param (name other : String) (value : Option Text) (rest : List (Text × Text)) :
    (param name value ++ rest).lookup other.toList =
      if other = name then (truthy value).or (rest.lookup other.toList)
      else rest.lookup other.toList := by
  unfold param
  cases truthy value with
  | none => simp
  | some s =>
      by_cases h : other = name
      · subst h
        simp
      · have hne : (other.toList == name.toList) = false := by
          simpa using fun heq => h (String.toList_inj.mp heq)
        simp [h, List.lookup_cons, hne]

theorem lookup_param_last (name other : String) (value : Option Text) :
    (param name value).lookup other.toList = if other = name then truthy value else none := by
  have h := lookup_param name other value []
  simpa using h

theorem validView_text (view : Option WorkspaceView) :
    (truthy (view.map fun view => view.text.toList)).bind validView = view := by
  cases view with
  | none => rfl
  | some view => cases view <;> rfl

/-- What is read of a route, after its path was read. -/
def completed (place route : WorkspaceRoute) : WorkspaceRoute :=
  { tab := place.tab
    path := truthy ((truthy place.path).map withoutLeadingSlashes)
    view := route.view
    filter := truthy route.filter
    scenario := truthy route.scenario
    minionId := truthy place.minionId
    minionFile := orParam route.minionFile place.minionFile
    skill := truthy place.skill
    skillFile := orParam route.skillFile place.skillFile
    shareId := truthy place.shareId
    ingestionId := truthy place.ingestionId
    migrationId := truthy place.migrationId }

theorem reread_eq (hpath : pathnameOf route = joined segments) (hne : segments ≠ [])
    (hplain : ∀ s ∈ segments, Plain s)
    (hid : segments ≠ ["ingestion".toList] ∨ route.ingestionId = none) :
    reread route = completed (parsePathname (joined (dotless [] segments))) route := by
  have hnone : truthy (if pathnameOf route = "/ingestion".toList then route.ingestionId else none) =
      none := by
    rcases hid with hid | hid
    · rw [hpath, if_neg, truthy_none]
      intro h
      have hsplit := congrArg (fun s => (s.drop 1).splitOn '/') h
      simp only [joined, List.drop_succ_cons, List.drop_zero] at hsplit
      rw [List.splitOn_intercalate '/' (fun s hs hc => (hplain s hs '/' hc).2.1 rfl) hne] at hsplit
      exact hid (hsplit.trans (by decide))
    · rw [hid, ite_self, truthy_none]
  rw [reread, buildRouteUrl, hpath, resolve_joined localhost hne hplain fun c => queryKeep_serialize]
  have hlocal : localhost.protocol ≠ "openlia:".toList := by decide
  simp only [parseRoute, parseForm_serialize, paramsOf, lookup_param, lookup_param_last, hlocal, hnone]
  simp [orParam, completed, validView_text]

end Queries

/-! ## Paths with one name -/

section Names

variable {word name : Text}

theorem dotless_name (hword : ¬ IsDots word) (hplain : encodeURIComponent word = word) :
    dotless [] [word, encodeURIComponent name] =
      if name = ['.', '.'] then [[]] else if name = ['.'] then [word, []]
      else [word, encodeURIComponent name] := by
  have hdots := fun s => encode_dots (s := s) percent_of_componentKeep (by decide)
  have hfirst := hdots word
  change (isSingleDot (encodeURIComponent word) = true ↔ _) ∧
    (isDoubleDot (encodeURIComponent word) = true ↔ _) at hfirst
  have hname := hdots name
  change (isSingleDot (encodeURIComponent name) = true ↔ _) ∧
    (isDoubleDot (encodeURIComponent name) = true ↔ _) at hname
  rw [hplain] at hfirst
  rw [IsDots, not_or] at hword
  simp only [dotless, hfirst, hname, hword, if_false]
  simp

theorem joined_name (word name : Text) : joined [word, name] = ('/' :: word) ++ '/' :: name := by
  simp [joined]

theorem named_encode (h : name ≠ []) : named (encodeURIComponent name) = some name := by
  have hne : encodeURIComponent name ≠ [] := by
    intro hnil
    have hdecode := decode_encodeURIComponent name
    rw [hnil] at hdecode
    exact h (Option.some.inj hdecode).symm
  rw [named, truthy_some hne, Option.map_some, safeDecodeURIComponent, decode_encodeURIComponent,
    Option.getD_some]

theorem withoutTrailingSlashes_encode (name : Text) :
    withoutTrailingSlashes (encodeURIComponent name) = encodeURIComponent name := by
  have hlast : ∀ c ∈ (encodeURIComponent name).reverse, isSlash c = false := by
    intro c hc
    exact decide_eq_false (plain_encodeURIComponent name c (List.mem_reverse.mp hc)).2.1
  rw [withoutTrailingSlashes]
  cases hrev : (encodeURIComponent name).reverse with
  | nil => rw [List.dropWhile_nil, ← hrev, List.reverse_reverse]
  | cons c l =>
      rw [List.dropWhile_cons_of_neg (by simp [hlast c (hrev ▸ List.mem_cons_self)]), ← hrev,
        List.reverse_reverse]

/-- What is left of a path with one name after a word. -/
theorem joined_dotless_name (hword : ¬ IsDots word) (hplain : encodeURIComponent word = word) :
    joined (dotless [] [word, encodeURIComponent name]) =
      if name = ['.', '.'] then ['/']
      else ('/' :: word) ++ '/' :: if name = ['.'] then [] else encodeURIComponent name := by
  rw [dotless_name hword hplain]
  split_ifs
  · rfl
  · exact joined_name _ _
  · exact joined_name _ _

theorem isDots_iff : IsDots name ↔ name = ['.', '.'] ∨ name = ['.'] := or_comm

end Names

/-! ## Targets read back -/

section Targets

variable {view : Option WorkspaceView} {filter scenario : Option Name} {target : Target}
  {place : WorkspaceRoute}

theorem completed_iff :
    completed place (routeTo target view filter scenario) = routeTo target view filter scenario ↔
      place.tab = target.route.tab ∧
      truthy ((truthy place.path).map withoutLeadingSlashes) = target.route.path ∧
      truthy place.minionId = target.route.minionId ∧
      orParam target.route.minionFile place.minionFile = target.route.minionFile ∧
      truthy place.skill = target.route.skill ∧
      orParam target.route.skillFile place.skillFile = target.route.skillFile ∧
      truthy place.shareId = target.route.shareId ∧
      truthy place.ingestionId = target.route.ingestionId ∧
      truthy place.migrationId = target.route.migrationId := by
  simp only [completed, routeTo, truthy_name, WorkspaceRoute.mk.injEq, true_and]

theorem plain_words : ∀ word ∈ ["share".toList, "ingestion".toList, "migration".toList,
    "minions".toList, "memory".toList, "skills".toList, "files".toList],
    ¬ IsDots word ∧ encodeURIComponent word = word ∧ Plain word := by decide

/-- Dots leave nothing of a name, and two of them nothing of the word before it. -/
theorem reread_name {route : WorkspaceRoute} {word name : Text} {read : Text → WorkspaceRoute}
    (hword : word ∈ ["share".toList, "ingestion".toList, "migration".toList, "minions".toList,
      "memory".toList, "skills".toList, "files".toList])
    (hpath : pathnameOf route = joined [word, encodeURIComponent name])
    (hread : ∀ raw, parsePathname (('/' :: word) ++ '/' :: raw) = read raw) :
    reread route = completed (if name = ['.', '.'] then {}
      else read (if name = ['.'] then [] else encodeURIComponent name)) route := by
  obtain ⟨hdots, hencoded, hplain⟩ := plain_words word hword
  have hsegments : ∀ s ∈ [word, encodeURIComponent name], Plain s := by
    intro s hs
    rcases List.mem_cons.mp hs with rfl | hs
    · exact hplain
    · exact List.mem_singleton.mp hs ▸ plain_encodeURIComponent name
  rw [reread_eq hpath (List.cons_ne_nil _ _) hsegments (Or.inl (by simp)),
    joined_dotless_name hdots hencoded]
  congr 1
  split
  · rfl
  · exact hread _

theorem withoutTrailingSlashes_nil : withoutTrailingSlashes [] = [] := rfl

theorem named_nil : named [] = none := rfl

theorem reread_share (id : Name) : reread (routeTo (.share id) view filter scenario) =
    routeTo (.share id) view filter scenario ↔ ¬ IsDots id.1 := by
  have hpath : pathnameOf (routeTo (.share id) view filter scenario) =
      joined ["share".toList, encodeURIComponent id.1] := by
    simp only [pathnameOf, routeTo, Target.route, truthy_some id.2, joined_name]
    rfl
  have hread : ∀ raw, parsePathname (('/' :: "share".toList) ++ '/' :: raw) =
      { shareId := named (withoutTrailingSlashes raw) } := fun raw => rfl
  rw [reread_name (by simp) hpath hread, completed_iff, isDots_iff]
  by_cases htwo : id.1 = ['.', '.']
  · simp [htwo, Target.route]
  · by_cases hone : id.1 = ['.']
    · simp [hone, Target.route, withoutTrailingSlashes_nil, named_nil]
    · simp [htwo, hone, withoutTrailingSlashes_encode, named_encode id.2, truthy_some id.2, orParam,
        Target.route]

theorem reread_ingestion (id : Name) : reread (routeTo (.ingestion id) view filter scenario) =
    routeTo (.ingestion id) view filter scenario ↔ ¬ IsDots id.1 := by
  have hpath : pathnameOf (routeTo (.ingestion id) view filter scenario) =
      joined ["ingestion".toList, encodeURIComponent id.1] := by
    simp only [pathnameOf, routeTo, Target.route, truthy_none, truthy_some id.2, joined_name]
    rfl
  have hread : ∀ raw, parsePathname (('/' :: "ingestion".toList) ++ '/' :: raw) =
      { tab := some .ingestion, ingestionId := named raw } := fun raw => rfl
  rw [reread_name (by simp) hpath hread, completed_iff, isDots_iff]
  by_cases htwo : id.1 = ['.', '.']
  · simp [htwo, Target.route]
  · by_cases hone : id.1 = ['.']
    · simp [hone, Target.route, named_nil]
    · simp [htwo, hone, named_encode id.2, truthy_some id.2, orParam, Target.route]

theorem reread_migration (id : Name) : reread (routeTo (.migration id) view filter scenario) =
    routeTo (.migration id) view filter scenario ↔ ¬ IsDots id.1 := by
  have hpath : pathnameOf (routeTo (.migration id) view filter scenario) =
      joined ["migration".toList, encodeURIComponent id.1] := by
    simp only [pathnameOf, routeTo, Target.route, truthy_none, truthy_some id.2, joined_name]
    rfl
  have hread : ∀ raw, parsePathname (('/' :: "migration".toList) ++ '/' :: raw) =
      { tab := some .migration, migrationId := named raw } := fun raw => rfl
  rw [reread_name (by simp) hpath hread, completed_iff, isDots_iff]
  by_cases htwo : id.1 = ['.', '.']
  · simp [htwo, Target.route]
  · by_cases hone : id.1 = ['.']
    · simp [hone, Target.route, named_nil]
    · simp [htwo, hone, named_encode id.2, truthy_some id.2, orParam, Target.route]

@[simp] theorem orParam_none (value : Option Text) : orParam none value = value := rfl

theorem orParam_file (f : Option Name) : orParam (f.map (·.1)) none = f.map (·.1) ↔
    ∀ name ∈ f, trim name.1 = name.1 := by
  cases f with
  | none => simp [orParam]
  | some name => simp [orParam, truthy_some name.2]

theorem parts_of_notMem {s : Text} (h : '/' ∉ s) (hne : s ≠ []) : parts s = [s] := by
  simp [parts, List.splitOn_eq_singleton h, hne]

/-- The id that is read has no slash. -/
theorem minionRoute_id {raw id : Text} (h : (minionRoute raw).minionId = some id) : '/' ∉ id := by
  have hparts : ∀ part ∈ parts (safeDecodeURIComponent raw), '/' ∉ part :=
    fun part hpart => (of_mem_splitOn (List.mem_of_mem_filter hpart)).1
  unfold minionRoute at h
  split at h
  · cases h
  · rename_i part heq
    obtain rfl := Option.some.inj h
    exact hparts part (by simp [heq])
  · rename_i part file _ heq
    obtain rfl := Option.some.inj h
    exact hparts part (by simp [heq])

theorem minionRoute_encode {id : Text} (h : '/' ∉ id) (hne : id ≠ []) :
    minionRoute (withoutTrailingSlashes (encodeURIComponent id)) =
      { tab := some .minions, minionId := some id } := by
  rw [withoutTrailingSlashes_encode, minionRoute, safeDecodeURIComponent, decode_encodeURIComponent,
    Option.getD_some, parts_of_notMem h hne]

theorem reread_minion (id : Name) (f : Option Name) :
    reread (routeTo (.minion id f) view filter scenario) =
      routeTo (.minion id f) view filter scenario ↔
      '/' ∉ id.1 ∧ ¬ IsDots id.1 ∧ ∀ name ∈ f, trim name.1 = name.1 := by
  have hpath : pathnameOf (routeTo (.minion id f) view filter scenario) =
      joined ["minions".toList, encodeURIComponent id.1] := by
    simp only [pathnameOf, routeTo, Target.route, truthy_none, truthy_some id.2, joined_name]
    rfl
  have hread : ∀ raw, parsePathname (('/' :: "minions".toList) ++ '/' :: raw) =
      minionRoute (withoutTrailingSlashes raw) := fun raw => rfl
  rw [reread_name (by simp) hpath hread, completed_iff, isDots_iff]
  by_cases htwo : id.1 = ['.', '.']
  · simp [htwo, Target.route]
  · by_cases hone : id.1 = ['.']
    · have hnil : minionRoute [] = { tab := some .minions } := rfl
      simp [hone, Target.route, withoutTrailingSlashes_nil, hnil]
    · by_cases hslash : '/' ∈ id.1
      · simp only [htwo, hone, if_false, hslash, not_true, false_and, iff_false]
        intro h
        have hid : truthy (minionRoute (withoutTrailingSlashes (encodeURIComponent id.1))).minionId =
          some id.1 := h.2.2.1
        exact minionRoute_id (Option.filter_eq_some_iff.mp hid).1 hslash
      · simp only [htwo, hone, hslash, if_false, minionRoute_encode hslash id.2, Target.route,
          truthy_none, truthy_some id.2, Option.map_none, orParam_none, orParam_file, true_and,
          and_true, or_self, not_false_eq_true]

theorem reread_memory (name : Text) : reread (routeTo (.memory name) view filter scenario) =
    routeTo (.memory name) view filter scenario ↔ ¬ IsDots name := by
  have hne : memoryDocumentPath name ≠ [] := by simp [memoryDocumentPath, MEMORY_DOCUMENT_PREFIX]
  have hpath : pathnameOf (routeTo (.memory name) view filter scenario) =
      joined ["memory".toList, encodeURIComponent name] := by
    simp only [pathnameOf, routeTo, Target.route, truthy_none, truthy_some hne, joined_name]
    rfl
  have hread : ∀ raw, parsePathname (('/' :: "memory".toList) ++ '/' :: raw) =
      { tab := some .documents, path := some (memoryDocumentPath (safeDecodeURIComponent raw)) } :=
    fun raw => rfl
  rw [reread_name (by simp) hpath hread, completed_iff, isDots_iff]
  have hfront : ∀ s, withoutLeadingSlashes (memoryDocumentPath s) = memoryDocumentPath s :=
    fun s => rfl
  by_cases htwo : name = ['.', '.']
  · simp [htwo, Target.route]
  · by_cases hone : name = ['.']
    · have hnil : truthy ((truthy (some (memoryDocumentPath (safeDecodeURIComponent [])))).map
          withoutLeadingSlashes) ≠ some (memoryDocumentPath ['.']) := by decide
      simp only [hone, if_true, or_true, not_true, iff_false]
      exact fun h => hnil h.2.1
    · simp [htwo, hone, truthy_some hne, hfront, orParam, Target.route, safeDecodeURIComponent,
        decode_encodeURIComponent]

/-! ### Names in segments -/

theorem joined_cons (word : Text) {segments : List Text} (hne : segments ≠ []) :
    joined (word :: segments) = ('/' :: word) ++ '/' :: slashed segments := by
  rw [joined, slashed, List.intercalate_cons_of_ne_nil hne]
  simp

theorem plain_segments {word : Text} (hword : word ∈ ["share".toList, "ingestion".toList,
    "migration".toList, "minions".toList, "memory".toList, "skills".toList, "files".toList])
    (l : List Text) : ∀ s ∈ word :: l.map encodeURIComponent, Plain s := by
  intro s hs
  rcases List.mem_cons.mp hs with rfl | hs
  · exact (plain_words _ hword).2.2
  · obtain ⟨t, -, rfl⟩ := List.mem_map.mp hs
    exact plain_encodeURIComponent t

theorem withoutLeadingSlashes_eq_self_iff {s : Text} :
    withoutLeadingSlashes s = s ↔ s.head? ≠ some '/' := by
  cases s with
  | nil => simp [withoutLeadingSlashes]
  | cons c s =>
      by_cases hc : c = '/'
      · subst hc
        simp only [withoutLeadingSlashes, List.head?_cons, ne_eq, not_true, iff_false]
        rw [List.dropWhile_cons_of_pos (by decide)]
        intro h
        have hlength := (List.dropWhile_sublist isSlash (l := s)).length_le
        rw [h, List.length_cons] at hlength
        omega
      · rw [withoutLeadingSlashes, List.dropWhile_cons_of_neg (by simpa [isSlash] using hc)]
        simp [hc]

/-- Segments without dots are resolved to themselves. -/
theorem dotless_encode {word : Text} {l : List Text} (hword : ¬ IsDots word)
    (hencoded : encodeURIComponent word = word) (h : ∀ s ∈ l, ¬ IsDots s) :
    dotless [] (word :: l.map encodeURIComponent) = word :: l.map encodeURIComponent := by
  refine (dotless_eq fun s hs => ?_).trans (List.nil_append _)
  have hdots : ∀ t : Text, ¬ IsDots t → isSingleDot (encodeURIComponent t) = false ∧
      isDoubleDot (encodeURIComponent t) = false := by
    intro t ht
    have hencode := encode_dots (s := t) percent_of_componentKeep (by decide)
    rw [IsDots, not_or] at ht
    exact ⟨Bool.eq_false_iff.mpr fun heq => ht.1 (hencode.1.mp heq),
      Bool.eq_false_iff.mpr fun heq => ht.2 (hencode.2.mp heq)⟩
  rcases List.mem_cons.mp hs with rfl | hs
  · exact hencoded ▸ hdots s hword
  · obtain ⟨t, ht, rfl⟩ := List.mem_map.mp hs
    exact hdots t (h t ht)

theorem named_slashed {l : List Text} (h : slashed l ≠ []) :
    named (slashed (l.map encodeURIComponent)) = some (slashed l) := by
  have hdecode : decodeURIComponent (slashed (l.map encodeURIComponent)) = some (slashed l) :=
    decode_intercalate (by decide) l
  have hne : slashed (l.map encodeURIComponent) ≠ [] := by
    intro hnil
    rw [hnil] at hdecode
    exact h (Option.some.inj hdecode).symm
  rw [named, truthy_some hne, Option.map_some, safeDecodeURIComponent, hdecode, Option.getD_some]

theorem slashed_splitOn (s : Text) : slashed (s.splitOn '/') = s := List.intercalate_splitOn '/'

theorem joined_encodeSegments {word s : Text} (h : withoutLeadingSlashes s = s) :
    joined (word :: (s.splitOn '/').map encodeURIComponent) =
      ('/' :: word) ++ '/' :: encodeSegments s := by
  rw [joined_cons word (by simp), encodeSegments, h]

theorem FilePath.front (path : FilePath) : path.1 ≠ [] ∧ withoutLeadingSlashes path.1 = path.1 := by
  obtain ⟨s, hs⟩ := path
  have hne : s ≠ [] := by
    rintro rfl
    exact (hs [] (by simp)).1 rfl
  refine ⟨hne, withoutLeadingSlashes_eq_self_iff.mpr fun hhead => ?_⟩
  cases s with
  | nil => cases hhead
  | cons c s =>
      obtain rfl := Option.some.inj hhead
      have hsplit : ('/' :: s).splitOn '/' = [] :: s.splitOn '/' :=
        List.splitOn_append_cons_self_of_not_mem List.not_mem_nil s
      exact (hs [] (hsplit ▸ List.mem_cons_self)).1 rfl

/-- The document of a memory is named by no dots when its path has no segment of dots. -/
theorem FilePath.memory (path : FilePath) (h : isMemoryDocument path.1 = true) :
    path.1 = memoryDocumentPath (memoryFilename path.1) ∧ ¬ IsDots (memoryFilename path.1) := by
  obtain ⟨name, hname⟩ := List.isPrefixOf_iff_prefix.mp h
  have hfile : memoryFilename path.1 = name := by
    rw [← hname]
    rfl
  rw [hfile]
  refine ⟨hname.symm, fun hdots => ?_⟩
  have hnot : '/' ∉ name := by
    rcases hdots with rfl | rfl <;> decide
  have hsplit : path.1.splitOn '/' = ["@memories".toList, name] := by
    have hcut : path.1 = "@memories".toList ++ '/' :: name := hname.symm
    rw [hcut, List.splitOn_append_cons_self_of_not_mem (by decide), List.splitOn_eq_singleton hnot]
  exact (path.2 name (by simp [hsplit])).2 hdots

theorem reread_file (path : FilePath) :
    reread (routeTo (.file path) view filter scenario) = routeTo (.file path) view filter scenario := by
  obtain ⟨hne, hfront⟩ := path.front
  by_cases hmemory : isMemoryDocument path.1 = true
  · obtain ⟨hpath, hdots⟩ := path.memory hmemory
    have hroute : routeTo (.file path) view filter scenario =
        routeTo (.memory (memoryFilename path.1)) view filter scenario := by
      rw [routeTo, routeTo, Target.route, Target.route, ← hpath]
    rw [hroute]
    exact (reread_memory _).mpr hdots
  · have hpath : pathnameOf (routeTo (.file path) view filter scenario) =
        joined ("files".toList :: (path.1.splitOn '/').map encodeURIComponent) := by
      rw [joined_encodeSegments hfront]
      simp only [pathnameOf, routeTo, Target.route, truthy_none, truthy_some hne, hmemory]
      rfl
    have hsegments : (path.1.splitOn '/').map encodeURIComponent ≠ [] := by
      simp
    have hdots := (plain_words "files".toList (by simp)).1
    have hread : ∀ raw, parsePathname (('/' :: "files".toList) ++ '/' :: raw) =
        { tab := some .documents, path := named raw } := fun raw => rfl
    rw [reread_eq hpath (List.cons_ne_nil _ _) (plain_segments (by simp) _) (Or.inr rfl),
      dotless_encode hdots (by decide) fun s hs => (path.2 s hs).2, joined_cons _ hsegments, hread,
      named_slashed (by rwa [slashed_splitOn]), slashed_splitOn, completed_iff]
    simp [truthy_some hne, hfront, Target.route]

theorem reread_tab (t : OtherTab) :
    reread (routeTo (.tab t) view filter scenario) = routeTo (.tab t) view filter scenario := by
  obtain ⟨t, ht⟩ := t
  have hpath : pathnameOf (routeTo (.tab ⟨t, ht⟩) view filter scenario) = joined [t.text.toList] := by
    cases t <;> first | rfl | exact absurd rfl ht
  have hplain : ∀ s ∈ [t.text.toList], Plain s := by
    cases t <;> decide
  have hread : parsePathname (joined (dotless [] [t.text.toList])) = { tab := some t } := by
    cases t <;> first | rfl | exact absurd rfl ht
  rw [reread_eq hpath (List.cons_ne_nil _ _) hplain (Or.inr rfl), hread, completed_iff]
  simp [Target.route]

/-! ### Skills -/

theorem after_eq_some {start : String} {s raw : Text} (h : after start s = some raw) :
    s = start.toList ++ raw := by
  unfold after at h
  split at h
  · rename_i hprefix
    obtain ⟨rest, rfl⟩ := List.isPrefixOf_iff_prefix.mp hprefix
    rw [← String.length_toList, List.drop_left, Option.some.injEq] at h
    rw [h]
  · cases h

theorem skill_ite {p : Prop} [Decidable p] {a b : WorkspaceRoute} {id : Text} (ha : a.skill = none)
    (h : (if p then a else b).skill = some id) : b.skill = some id := by
  split at h
  · rw [ha] at h
    cases h
  · exact h

theorem skill_after {x : Option Text} {a : Text → WorkspaceRoute} {b : WorkspaceRoute} {id : Text}
    (ha : ∀ raw, (a raw).skill = none)
    (h : (if let some raw := x then a raw else b).skill = some id) : b.skill = some id := by
  cases x with
  | none => exact h
  | some raw =>
      rw [ha raw] at h
      cases h

theorem minionRoute_skill (raw : Text) : (minionRoute raw).skill = none := by
  unfold minionRoute
  split <;> rfl

/-- An id is read only where the path goes on after the word for skills. -/
theorem parsePathname_skill {pathname id : Text} (h : (parsePathname pathname).skill = some id) :
    ∃ raw, pathname = "/skills/".toList ++ raw ∧ named raw = some id := by
  unfold parsePathname at h
  replace h := skill_after (fun _ => rfl) h
  replace h := skill_ite rfl h
  replace h := skill_after (fun _ => rfl) h
  replace h := skill_after (fun _ => rfl) h
  replace h := skill_ite rfl h
  replace h := skill_after (fun _ => rfl) h
  replace h := skill_ite rfl h
  replace h := skill_after (fun _ => minionRoute_skill _) h
  replace h := skill_ite rfl h
  cases hafter : after "/skills/" pathname with
  | none =>
      rw [hafter] at h
      replace h := skill_ite rfl h
      replace h := skill_after (fun _ => rfl) h
      replace h := skill_ite rfl h
      replace h := skill_after (fun _ => rfl) h
      iterate 7 replace h := skill_ite rfl h
      cases h
  | some raw =>
      rw [hafter] at h
      exact ⟨raw, after_eq_some hafter, h⟩

theorem mem_splitOn_front {s part : Text} (h : part ∈ (withoutLeadingSlashes s).splitOn '/') :
    part ∈ s.splitOn '/' := by
  induction s with
  | nil => exact h
  | cons c s ih =>
      by_cases hc : c = '/'
      · subst hc
        have hsplit : ('/' :: s).splitOn '/' = [] :: s.splitOn '/' :=
          List.splitOn_append_cons_self_of_not_mem List.not_mem_nil s
        rw [withoutLeadingSlashes, List.dropWhile_cons_of_pos (by decide)] at h
        exact hsplit ▸ List.mem_cons_of_mem _ (ih h)
      · rwa [withoutLeadingSlashes, List.dropWhile_cons_of_neg (by simpa [isSlash] using hc)] at h

theorem exists_map {α β : Type} {f : α → β} {P : α → Prop} {l : List β}
    (h : ∀ b ∈ l, ∃ a, P a ∧ b = f a) : ∃ l' : List α, l = l'.map f ∧ ∀ a ∈ l', P a := by
  induction l with
  | nil => exact ⟨[], rfl, fun a ha => nomatch ha⟩
  | cons b l ih =>
      obtain ⟨a, ha, rfl⟩ := h b List.mem_cons_self
      obtain ⟨l', rfl, hl'⟩ := ih fun b hb => h b (List.mem_cons_of_mem _ hb)
      exact ⟨a :: l', rfl, List.forall_mem_cons.mpr ⟨ha, hl'⟩⟩

theorem slashed_of_named {l : List Text} {id : Text}
    (h : named (slashed (l.map encodeURIComponent)) = some id) : slashed l = id := by
  obtain ⟨raw, hraw, hid⟩ := Option.map_eq_some_iff.mp h
  obtain rfl := Option.some.inj (Option.filter_eq_some_iff.mp hraw).1
  have hdecode : decodeURIComponent (slashed (l.map encodeURIComponent)) = some (slashed l) :=
    decode_intercalate (by decide) l
  rwa [safeDecodeURIComponent, hdecode, Option.getD_some] at hid

/-- No segment of an id that is read consists of dots, for these are resolved before. -/
theorem parsePathname_dotless {l : List Text} {id : Text} (hl : ∀ s ∈ l, '/' ∉ s)
    (h : (parsePathname (joined (dotless [] (l.map encodeURIComponent)))).skill = some id) :
    ∀ part ∈ id.splitOn '/', ¬ IsDots part := by
  obtain ⟨raw, hraw, hnamed⟩ := parsePathname_skill h
  have hmem : ∀ s ∈ dotless [] (l.map encodeURIComponent), ∃ u, (¬ IsDots u ∧ '/' ∉ u) ∧
      s = encodeURIComponent u := by
    intro s hs
    rcases mem_dotless hs with hs | rfl | ⟨hs, hsingle, hdouble⟩
    · cases hs
    · exact ⟨[], by decide, rfl⟩
    · obtain ⟨u, hu, rfl⟩ := List.mem_map.mp hs
      have hencode := encode_dots (s := u) percent_of_componentKeep (by decide)
      refine ⟨u, ⟨fun hdots => ?_, hl u hu⟩, rfl⟩
      rcases hdots with hdots | hdots
      · exact absurd (hencode.1.mpr hdots) (by simpa [encodeURIComponent] using hsingle)
      · exact absurd (hencode.2.mpr hdots) (by simpa [encodeURIComponent] using hdouble)
  obtain ⟨l', hl', hparts⟩ := exists_map hmem
  have hfirst : (['/'].intercalate (l'.map encodeURIComponent)) = "skills".toList ++ '/' :: raw := by
    rw [hl', joined] at hraw
    exact (List.cons.inj hraw).2
  have hplain : ∀ s ∈ l'.map encodeURIComponent, '/' ∉ s := by
    intro s hs hslash
    obtain ⟨u, -, rfl⟩ := List.mem_map.mp hs
    exact (plain_encodeURIComponent u '/' hslash).2.1 rfl
  have hne : l' ≠ [] := by
    rintro rfl
    cases hfirst
  have hsplit := List.splitOn_intercalate '/' hplain (by simpa using hne)
  rw [hfirst, List.splitOn_append_cons_self_of_not_mem (by decide)] at hsplit
  cases l' with
  | nil => exact absurd rfl hne
  | cons u rest =>
      rw [List.map_cons, List.cons.injEq] at hsplit
      have hraw' : raw = slashed (rest.map encodeURIComponent) := by
        rw [← hsplit.2, slashed_splitOn]
      rw [hraw'] at hnamed
      obtain rfl := slashed_of_named hnamed
      have hrest : rest ≠ [] := by
        rintro rfl
        exact List.splitOn_ne_nil '/' raw hsplit.2
      have hrestParts := fun s hs => hparts s (List.mem_cons_of_mem u hs)
      rw [slashed, List.splitOn_intercalate '/' (fun s hs => (hrestParts s hs).2) hrest]
      exact fun s hs => (hrestParts s hs).1

theorem reread_skill (id : Name) (f : Option Name) :
    reread (routeTo (.skill id f) view filter scenario) =
      routeTo (.skill id f) view filter scenario ↔
      id.1.head? ≠ some '/' ∧ (∀ part ∈ id.1.splitOn '/', ¬ IsDots part) ∧
        ∀ name ∈ f, trim name.1 = name.1 := by
  have hsegments : ((withoutLeadingSlashes id.1).splitOn '/').map encodeURIComponent ≠ [] := by simp
  have hpath : pathnameOf (routeTo (.skill id f) view filter scenario) =
      joined ("skills".toList :: ((withoutLeadingSlashes id.1).splitOn '/').map encodeURIComponent) := by
    rw [joined_cons _ hsegments]
    simp only [pathnameOf, routeTo, Target.route, truthy_none, truthy_some id.2]
    rfl
  obtain ⟨hword, hencoded, -⟩ := plain_words "skills".toList (by simp)
  rw [reread_eq hpath (List.cons_ne_nil _ _) (plain_segments (by simp) _) (Or.inr rfl), completed_iff]
  by_cases hdots : ∀ part ∈ id.1.splitOn '/', ¬ IsDots part
  · have hread : ∀ raw, parsePathname (('/' :: "skills".toList) ++ '/' :: raw) =
        { tab := some .skills, skill := named raw } := fun raw => rfl
    rw [dotless_encode hword hencoded fun s hs => hdots s (mem_splitOn_front hs),
      joined_cons _ hsegments, hread, ← withoutLeadingSlashes_eq_self_iff]
    have hid : truthy (named (slashed
        (((withoutLeadingSlashes id.1).splitOn '/').map encodeURIComponent))) = some id.1 ↔
        withoutLeadingSlashes id.1 = id.1 := by
      constructor
      · intro h
        have hslashed := slashed_of_named (Option.filter_eq_some_iff.mp h).1
        rwa [slashed_splitOn] at hslashed
      · intro h
        rw [h, named_slashed (by rw [slashed_splitOn]; exact id.2), slashed_splitOn,
          truthy_some id.2]
    simp only [Target.route, truthy_none, Option.map_none, orParam_none, hid, orParam_file, true_and,
      and_true]
    exact and_congr_right fun _ => (and_iff_right hdots).symm
  · refine iff_of_false (fun h => hdots ?_) fun h => hdots h.2.1
    have hskill := (Option.filter_eq_some_iff.mp h.2.2.2.2.1).1
    have hmap : "skills".toList :: ((withoutLeadingSlashes id.1).splitOn '/').map encodeURIComponent =
        ("skills".toList :: (withoutLeadingSlashes id.1).splitOn '/').map encodeURIComponent := by
      rw [List.map_cons, hencoded]
    rw [hmap] at hskill
    refine parsePathname_dotless (fun s hs => ?_) hskill
    rcases List.mem_cons.mp hs with rfl | hs
    · decide
    · exact (of_mem_splitOn hs).1

/-- A route is read back just where nothing is taken out of its names. -/
theorem route_round_trip_iff (target : Target) (view : Option WorkspaceView)
    (filter scenario : Option Name) :
    reread (routeTo target view filter scenario) = routeTo target view filter scenario ↔
      target.Restorable := by
  cases target with
  | file path => exact iff_of_true (reread_file path) trivial
  | memory name => exact reread_memory name
  | minion id f => exact reread_minion id f
  | skill id f => exact reread_skill id f
  | share id => exact reread_share id
  | ingestion id => exact reread_ingestion id
  | migration id => exact reread_migration id
  | tab t => exact iff_of_true (reread_tab t) trivial

end Targets

/-! ## Names that are not read back -/

def menu : Name := ⟨"menu".toList, by decide⟩

def notes : Name := ⟨" notes.md".toList, by decide⟩

def nested : Name := ⟨"a/b".toList, by decide⟩

/-- The name of a file loses a blank in front of it, and the id of a minion what follows a slash. -/
theorem names_not_read_back :
    reread (routeTo (.minion menu (some notes)) none none none) =
      { tab := some .minions, minionId := some "menu".toList, minionFile := some "notes.md".toList } ∧
    reread (routeTo (.minion menu (some notes)) none none none) ≠
      routeTo (.minion menu (some notes)) none none none ∧
    reread (routeTo (.minion nested none) none none none) =
      { tab := some .minions, minionId := some "a".toList, minionFile := some "b".toList } := by
  decide +kernel

end Openlia.Client

import Openlia.Ingestion.Backlinks

/-! # Deleting a cited source

The files that cite a source are rewritten one after the other. If all of them are UTF-8, no
citation is left; if one is not, the deletion stops there and the source stays.
-/

namespace Openlia.Ingestion

open Lib
open Policy (Text strip)

variable {id p token text : Text} {files : List WorkspaceFile} {f : WorkspaceFile}

/-! ## Line breaks -/

theorem prefix_of_universalNewlines (hp : '\n' ∉ p) (h : p <+: universalNewlines text) :
    p <+: text := by
  fun_induction universalNewlines text generalizing p with
  | case1 => exact h
  | case2 s ih =>
      cases p with
      | nil => exact List.nil_prefix
      | cons c p => exact absurd (List.cons_prefix_cons.mp h).1 fun hc => hp (hc ▸ List.mem_cons_self)
  | case3 c s _ ih =>
      cases p with
      | nil => exact List.nil_prefix
      | cons d p =>
          obtain ⟨hd, hp'⟩ := List.cons_prefix_cons.mp h
          have hdc : d = c := by
            split at hd
            · exact absurd List.mem_cons_self (hd ▸ hp)
            · exact hd
          exact List.cons_prefix_cons.mpr ⟨hdc, ih (fun hm => hp (List.mem_cons_of_mem d hm)) hp'⟩

theorem infix_of_universalNewlines (hp : '\n' ∉ p) (hne : p ≠ [])
    (h : p <:+: universalNewlines text) : p <:+: text := by
  fun_induction universalNewlines text with
  | case1 => exact h
  | case2 s ih =>
      rcases infix_around (a := []) hp hne h with hnil | hs
      · exact absurd (List.infix_nil.mp hnil) hne
      · exact (ih hs).trans ⟨['\r', '\n'], [], by simp⟩
  | case3 c s hlast ih =>
      rcases List.infix_cons_iff.mp h with hprefix | hs
      · refine (prefix_of_universalNewlines hp ?_).isInfix
        rwa [universalNewlines]
        exact hlast
      · exact (ih hs).trans (List.suffix_cons c s).isInfix

/-! ## Tokens -/

theorem token_cases (h : token ∈ targetTokens id) : ∃ plural, (plural = [] ∨ plural = ['s']) ∧
    token = "openlia://source".toList ++ (plural ++ ('/' :: id)) := by
  simp only [targetTokens, List.mem_cons, List.not_mem_nil, or_false] at h
  rcases h with rfl | rfl
  · exact ⟨[], .inl rfl, rfl⟩
  · exact ⟨['s'], .inr rfl, rfl⟩

theorem notMem_token {c : Char} (hid : isSafeId id = true) (h : token ∈ targetTokens id)
    (hc : isIdChar c = false) (hscheme : c ∉ "openlia://sources/".toList) : c ∉ token := by
  have hnot : c ∉ id := fun hm => by
    rw [List.all_eq_true.mp (isSafeId_all hid) c hm] at hc
    contradiction
  obtain ⟨plural, hplural | hplural, rfl⟩ := token_cases h <;> subst hplural <;>
    simp_all

theorem token_ne_nil (h : token ∈ targetTokens id) : token ≠ [] := by
  obtain ⟨plural, -, rfl⟩ := token_cases h
  exact List.cons_ne_nil _ _

theorem bareUri_matches (h : token ∈ targetTokens id) (s : Cursor) (hs : token <+: s.after) :
    ∃ t, (bareUriPattern id).Matches s t := by
  obtain ⟨plural, hplural, rfl⟩ := token_cases h
  obtain ⟨rest, hrest⟩ := hs
  have hlit : ∀ (text : String) {u : Cursor} {after : Text}, u.after = text.toList ++ after →
      ∃ t, (Regex.lit text).Matches u t ∧ t.after = after := fun _ _ _ ha =>
    ⟨_, Regex.matches_lit.mpr ⟨_, ha, rfl⟩, rfl⟩
  simp only [List.append_assoc] at hrest
  obtain ⟨u, hu, hafter⟩ := hlit _ hrest.symm
  have hopt : ∃ v, (Regex.opt (.lit "s")).Matches u v ∧ v.after = '/' :: (id ++ rest) := by
    rcases hplural with rfl | rfl
    · exact ⟨u, .inr rfl, hafter⟩
    · obtain ⟨v, hv, ha⟩ := hlit "s" hafter
      exact ⟨v, .inl hv, ha⟩
  obtain ⟨v, hv, hafter⟩ := hopt
  obtain ⟨w, hw, hafter⟩ := hlit "/" hafter
  obtain ⟨t, ht, -⟩ := @hlit (String.ofList id) w rest (by
    rw [hafter, String.toList_ofList]
    rfl)
  exact ⟨t, t, ⟨u, hu, v, hv, w, hw, ht⟩, .inr rfl⟩

theorem bareUri_consumes (s t : Cursor) (h : (bareUriPattern id).Matches s t) :
    t.after.length < s.after.length := by
  obtain ⟨w, ⟨u, hu, hrest⟩, hfragment⟩ := h
  obtain ⟨after, hafter, rfl⟩ := Regex.matches_lit.mp hu
  have hw := Regex.Matches.length_le (r := .seq _ (.seq _ _)) hrest
  have ht := hfragment.length_le
  rw [hafter, List.length_append]
  have hpos : 0 < "openlia://source".toList.length := by decide
  dsimp only at hw
  omega

/-! ## Files -/

theorem not_cites_annotateText (hid : isSafeId id = true) (ledger : Bool) (text : Text) :
    cites id (annotateText ledger id text) = false := by
  rw [cites, List.any_eq_false]
  intro token htoken hcites
  have hinfix := of_decide_eq_true hcites
  have hsub : ∀ text, ¬ token <:+: (bareUriPattern id).sub (fun _ => deletedMarker id) text := by
    refine Regex.not_infix_sub (c := '(') (d := ')') (bareUri_matches htoken) bareUri_consumes
      (fun _ => ⟨"deleted source: ".toList ++ id, rfl, fun hmid => ?_⟩) (token_ne_nil htoken)
      (notMem_token hid htoken rfl (by decide)) (notMem_token hid htoken rfl (by decide))
    -- a token is longer than what stands between the parentheses
    obtain ⟨plural, -, rfl⟩ := token_cases htoken
    have hlength := hmid.length_le
    simp at hlength
    omega
  unfold annotateText at hinfix
  split at hinfix
  · exact hsub _ hinfix
  · exact hsub _ hinfix

theorem cites_of_universalNewlines (hid : isSafeId id = true)
    (h : cites id (universalNewlines text) = true) : cites id text = true := by
  obtain ⟨token, htoken, hcites⟩ := List.any_eq_true.mp h
  exact List.any_eq_true.mpr ⟨token, htoken, decide_eq_true (infix_of_universalNewlines
    (notMem_token hid htoken rfl (by decide)) (token_ne_nil htoken) (of_decide_eq_true hcites))⟩

def annotated (id : Text) (f : WorkspaceFile) : WorkspaceFile :=
  match f.content with
  | .utf8 text =>
      { f with content := .utf8 (annotateText (isLedger f.name) id (universalNewlines text)) }
  | .broken _ => f

/-- The files with those at some paths annotated. -/
def annotatedAt (id : Text) (paths : List Text) (files : List WorkspaceFile) :
    List WorkspaceFile :=
  files.map fun f => if paths.contains f.rel then annotated id f else f

def Decodable (f : WorkspaceFile) : Prop := ∃ text, f.content = .utf8 text

@[simp] theorem annotated_rel : (annotated id f).rel = f.rel := by
  unfold annotated
  split <;> rfl

theorem not_cites_annotated (hid : isSafeId id = true) (h : Decodable f) :
    cites id (annotated id f).content.shown = false := by
  obtain ⟨text, htext⟩ := h
  rw [annotated, htext, Bool.eq_false_iff]
  intro hcites
  have hnone := not_cites_annotateText hid (isLedger f.name) (universalNewlines text)
  rw [cites_of_universalNewlines hid hcites] at hnone
  contradiction

/-! ## One file after the other -/

theorem find_rel (hfiles : (files.map WorkspaceFile.rel).Nodup) (hf : f ∈ files) :
    (files.find? fun g => g.rel = f.rel) = some f := by
  cases hfind : files.find? fun g => g.rel = f.rel with
  | none => simpa using List.find?_eq_none.mp hfind f hf
  | some g =>
      have hrel : g.rel = f.rel := by simpa using List.find?_some hfind
      rw [List.inj_on_of_nodup_map hfiles (List.mem_of_find?_eq_some hfind) hf hrel]

theorem writeText_eq (hfiles : (files.map WorkspaceFile.rel).Nodup) (hf : f ∈ files)
    (htext : f.content = .utf8 text) :
    writeText files f.rel (annotateText (isLedger f.name) id (universalNewlines text)) =
      annotatedAt id [f.rel] files := by
  refine List.map_congr_left fun g hg => ?_
  simp only [List.contains_iff_mem, List.mem_singleton]
  split
  · rename_i hrel
    rw [List.inj_on_of_nodup_map hfiles hg hf hrel, annotated, htext]
  · rfl

/-- A file that is found is annotated; one that is no UTF-8 ends the loop. -/
theorem annotateBacklinks_cons {item : Backlink} (items : List Backlink)
    (hid : isSafeId id = true) (hfiles : (files.map WorkspaceFile.rel).Nodup) (hf : f ∈ files)
    (hrel : f.rel = item.path) (hcites : cites id f.content.shown = true) :
    (¬ Decodable f ∧
      annotateBacklinks id (item :: items) files = (files, .error (.unicodeDecode f.rel))) ∨
    (Decodable f ∧ annotateBacklinks id (item :: items) files =
      ((annotateBacklinks id items (annotatedAt id [f.rel] files)).1,
        (annotateBacklinks id items (annotatedAt id [f.rel] files)).2.map (f.rel :: ·))) := by
  rw [annotateBacklinks, ← hrel, find_rel hfiles hf]
  dsimp only
  cases hcontent : f.content with
  | broken shown =>
      refine .inl ⟨?_, rfl⟩
      rintro ⟨text, htext⟩
      cases hcontent.symm.trans htext
  | utf8 text =>
      have hchanged : annotateText (isLedger f.name) id (universalNewlines text) ≠
          universalNewlines text := by
        intro hsame
        have hnone := not_cites_annotateText hid (isLedger f.name) (universalNewlines text)
        rw [hcontent] at hcites
        rw [hsame, show cites id (universalNewlines text) = true from hcites] at hnone
        contradiction
      refine .inr ⟨⟨text, hcontent⟩, ?_⟩
      dsimp only
      rw [if_neg hchanged, writeText_eq hfiles hf hcontent]

theorem annotatedAt_cons {path : Text} {paths : List Text} (h : path ∉ paths) :
    annotatedAt id paths (annotatedAt id [path] files) = annotatedAt id (path :: paths) files := by
  rw [annotatedAt, annotatedAt, annotatedAt, List.map_map]
  refine List.map_congr_left fun g _ => ?_
  by_cases hrel : g.rel = path
  · simp [hrel, h]
  · simp [hrel]

theorem annotatedAt_rel (paths : List Text) :
    (annotatedAt id paths files).map WorkspaceFile.rel = files.map WorkspaceFile.rel := by
  rw [annotatedAt, List.map_map]
  refine List.map_congr_left fun g _ => ?_
  rw [Function.comp_apply]
  split
  · exact annotated_rel
  · rfl

/-- Either all files are annotated, or those before one that is no UTF-8. -/
theorem annotateBacklinks_spec {items : List Backlink} (hid : isSafeId id = true)
    (hfiles : (files.map WorkspaceFile.rel).Nodup) (hitems : (items.map Backlink.path).Nodup)
    (hcited : ∀ item ∈ items, ∃ f ∈ files, f.rel = item.path ∧ cites id f.content.shown = true) :
    ((∀ f ∈ files, f.rel ∈ items.map Backlink.path → Decodable f) ∧
      annotateBacklinks id items files =
        (annotatedAt id (items.map Backlink.path) files, .ok (items.map Backlink.path))) ∨
    ∃ f ∈ files, ¬ Decodable f ∧ ∃ paths, paths ++ [f.rel] <+: items.map Backlink.path ∧
        annotateBacklinks id items files =
          (annotatedAt id paths files, .error (.unicodeDecode f.rel)) := by
  induction items generalizing files with
  | nil =>
      refine .inl ⟨fun f _ h => absurd h List.not_mem_nil, ?_⟩
      simp [annotateBacklinks, annotatedAt]
  | cons item items ih =>
      rw [List.map_cons, List.nodup_cons] at hitems
      obtain ⟨f, hf, hrel, hcites⟩ := hcited item List.mem_cons_self
      rcases annotateBacklinks_cons items hid hfiles hf hrel hcites with
        ⟨hbroken, hstop⟩ | ⟨hdecodable, hstep⟩
      · refine .inr ⟨f, hf, hbroken, [], by simp [hrel], ?_⟩
        simp [hstop, annotatedAt]
      · rw [hrel] at hstep
        have hsame : ∀ {g}, g.rel ∈ items.map Backlink.path →
            (g ∈ annotatedAt id [item.path] files ↔ g ∈ files) := by
          intro g hg
          have hne : g.rel ≠ item.path := fun heq => hitems.1 (heq ▸ hg)
          simp only [annotatedAt, List.mem_map, List.contains_iff_mem, List.mem_singleton]
          constructor
          · rintro ⟨g', hg', rfl⟩
            split at hne
            · rename_i heq
              exact absurd heq (annotated_rel ▸ hne)
            · rwa [if_neg hne]
          · exact fun hg => ⟨g, hg, if_neg hne⟩
        have hnodup : ((annotatedAt id [item.path] files).map WorkspaceFile.rel).Nodup := by
          rwa [annotatedAt_rel]
        have hrest : ∀ item' ∈ items, ∃ g ∈ annotatedAt id [item.path] files,
            g.rel = item'.path ∧ cites id g.content.shown = true := by
          intro item' hitem'
          obtain ⟨g, hg, hpath, hcites⟩ := hcited item' (List.mem_cons_of_mem _ hitem')
          exact ⟨g, (hsame (hpath ▸ List.mem_map_of_mem hitem')).mpr hg, hpath, hcites⟩
        rcases ih hnodup hitems.2 hrest with
          ⟨hall, heq⟩ | ⟨g, hg, hbroken, paths, hpaths, heq⟩
        · refine .inl ⟨fun g hg hmem => ?_, ?_⟩
          · rw [List.map_cons, List.mem_cons] at hmem
            rcases hmem with hitem | hmem
            · exact List.inj_on_of_nodup_map hfiles hg hf (hitem.trans hrel.symm) ▸ hdecodable
            · exact hall g ((hsame hmem).mpr hg) hmem
          · rw [hstep, heq, annotatedAt_cons hitems.1]
            rfl
        · refine .inr ⟨g, (hsame (hpaths.subset (by simp))).mp hg, hbroken, item.path :: paths,
            List.cons_prefix_cons.mpr ⟨rfl, hpaths⟩, ?_⟩
          have hpath : item.path ∉ paths := fun h =>
            hitems.1 (hpaths.subset (List.mem_append_left _ h))
          rw [hstep, heq, annotatedAt_cons hpath]
          rfl

/-! ## All of them -/

theorem mem_findBacklinks {item : Backlink} : item ∈ findBacklinks files id ↔
    ∃ f ∈ files, (f.scanned && cites id f.content.shown) = true ∧ backlinkOf id f = item := by
  rw [findBacklinks, (List.perm_insertionSort _ _).mem_iff, List.mem_map]
  simp only [List.mem_filter, and_assoc]

theorem findBacklinks_nodup (hfiles : (files.map WorkspaceFile.rel).Nodup) :
    ((findBacklinks files id).map Backlink.path).Nodup := by
  rw [findBacklinks, ((List.perm_insertionSort _ _).map _).nodup_iff, List.map_map]
  exact (List.filter_sublist.map _).nodup hfiles

def fullVault : VaultCalls Unit := ⟨fun _ _ => true, fun vault _ => vault⟩

def citingNote : WorkspaceFile :=
  ⟨["notes".toList], "a.md".toList, .utf8 "[Bill](openlia://source/s1#v2)\r\n".toList⟩

end Openlia.Ingestion

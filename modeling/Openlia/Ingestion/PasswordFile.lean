import Openlia.Ingestion.Passwords

/-! # The file of a map

The calls describe a map from ids to entries. The entries of a map are written as a
document that is read back as their tables.
-/

namespace Openlia.Ingestion

open Lib Lib.Toml
open Policy (Text strip)

/-! ## The map that the calls describe -/

/-- A profile; what it does not have is empty. -/
structure Entry where
  label : Text
  password : Text
  description : Text
  hint : Text
  patterns : List Text
  deriving DecidableEq

abbrev PasswordMap := Text → Option Entry

/-- A password that is not given stays what it is. -/
def storedPassword (given : Option Text) (existing : Option Entry) : Option Text :=
  match given with
  | some (c :: rest) => some (c :: rest)
  | _ => (existing.map Entry.password).filter (· ≠ [])

/-- A text that is not given stays what it is. -/
def storedText (given : Option Text) (existing : Option Entry) (field : Entry → Text) : Text :=
  match given with
  | some s => strip s
  | none => (existing.map field).getD []

def storedPatterns (given : Option (List Text)) (existing : Option Entry) : List Text :=
  match given with
  | some patterns => cleanedPatterns patterns
  | none => (existing.map Entry.patterns).getD []

def storedEntry (args : SaveArgs) (existing : Option Entry) (password : Text) : Entry :=
  ⟨strip args.label, password, storedText args.description existing Entry.description,
    storedText args.hint existing Entry.hint, storedPatterns args.patterns existing⟩

def textMember (s : Text) : Option Value := if s = [] then none else some (.str s)

def patternsMember (items : List Text) : Option Value :=
  if items = [] then none else some (.strs items)

def Entry.item (id : Text) (e : Entry) : ProfileItem :=
  ⟨id, e.label, textMember e.description, textMember e.hint, patternsMember e.patterns⟩

/-- The entry that a call of `save` describes, or why there is none. -/
def accepted (m : PasswordMap) (args : SaveArgs) : Attempt Entry :=
  if isProfileId args.profile_id = false then
    .error (.profileError "profile_id must be a safe identifier")
  else if labelAccepted args.label = false then
    .error (.profileError "profile label is empty or names a service credential")
  else match storedPassword args.password (m args.profile_id) with
    | none => .error (.profileError "document password must not be empty")
    | some password => .ok (storedEntry args (m args.profile_id) password)

def describe (m : PasswordMap) : Call → PasswordMap × Attempt Answer
  | .save args =>
      match accepted m args with
      | .error e => (m, .error e)
      | .ok entry =>
          (Function.update m args.profile_id (some entry),
            .ok (.saved (entry.item args.profile_id)))
  | .delete id =>
      if isProfileId id = false then (m, .error (.profileError "invalid password profile"))
      else (Function.update m id none, .ok (.deleted (m id).isSome))

/-- The map that some calls describe, from the empty map. -/
def described (calls : List Call) : PasswordMap :=
  calls.foldl (fun m call => (describe m call).1) fun _ => none

/-- The store answers every call as the map says. -/
structure Faithful (file : Option Text) (m : PasswordMap) : Prop where
  resolve : ∀ id, isProfileId id = true → resolve file id =
    match m id with
    | some e => .ok e.password
    | none => .error (.profileError "password profile was not found")
  list : ∃ items, list file = .ok items ∧
    (items.map ProfileItem.profile_id).Pairwise (fun a b => compare a b = .lt) ∧
    ∀ item, item ∈ items ↔ ∃ id e, m id = some e ∧ item = e.item id
  answer : ∀ call, (perform file call).2 = (describe m call).2

/-! ## What can be written -/

/-- The strings that a call of `save` is given. -/
def SaveArgs.strings (args : SaveArgs) : List Text :=
  args.label :: (args.password.toList ++ args.description.toList ++ args.hint.toList ++
    (args.patterns.getD []))

/-- A save that is accepted has an id without dots, and strings of the basic plane. -/
def Writable (m : PasswordMap) : Call → Prop
  | .save args => (∃ entry, accepted m args = .ok entry) →
      '.' ∉ args.profile_id ∧ ∀ s ∈ args.strings, ∀ c ∈ s, InPlane c
  | .delete _ => True

def Entry.Plain (e : Entry) : Prop :=
  (∀ c ∈ e.label, InPlane c) ∧ (∀ c ∈ e.password, InPlane c) ∧
    (∀ c ∈ e.description, InPlane c) ∧ (∀ c ∈ e.hint, InPlane c) ∧
    ∀ s ∈ e.patterns, ∀ c ∈ s, InPlane c

def Entry.members (e : Entry) : Members :=
  [(labelKey, .str e.label), (passwordKey, .str e.password)] ++
    optionalMember descriptionKey (textMember e.description) ++
    optionalMember hintKey (textMember e.hint) ++
    optionalMember patternsKey (patternsMember e.patterns)

/-- The profiles are the entries of the map. -/
structure Tables (profiles : Members) (m : PasswordMap) : Prop where
  nodup : (profiles.map Prod.fst).Nodup
  lookup : ∀ id, profiles.lookup id = (m id).map fun e => .table e.members

/-- The profiles are the entries of a map that can be written. -/
structure Shows (profiles : Members) (m : PasswordMap) : Prop extends Tables profiles m where
  bare : ∀ id e, m id = some e → bareKey id = true
  profileId : ∀ id e, m id = some e → isProfileId id = true
  plain : ∀ id e, m id = some e → e.Plain

/-! ## Lookups -/

section Lookups

variable {ms : Members} {k k' : Text} {v : Value} {keys : List Text}

theorem lookup_isSome : (ms.lookup k).isSome = true ↔ k ∈ ms.map Prod.fst := by
  rw [← not_iff_not, Bool.not_eq_true, Option.isSome_eq_false_iff, Option.isNone_iff_eq_none,
    List.lookup_eq_none_iff]
  constructor
  · rintro h hmem
    obtain ⟨p, hp, rfl⟩ := List.mem_map.mp hmem
    exact absurd (h p hp) (by simp)
  · intro h p hp
    rw [bne_iff_ne]
    rintro rfl
    exact h (List.mem_map_of_mem hp)

theorem keys_put (ms : Members) (k : Text) (v : Value) :
    (put ms k v).map Prod.fst =
      if (ms.lookup k).isSome then ms.map Prod.fst else ms.map Prod.fst ++ [k] := by
  unfold put
  split
  · rw [List.map_map]
    refine List.map_congr_left fun p _ => ?_
    simp only [Function.comp_apply]
    split
    · rename_i hp
      exact hp.symm
    · rfl
  · rw [List.map_append]
    rfl

theorem nodup_put (h : (ms.map Prod.fst).Nodup) : ((put ms k v).map Prod.fst).Nodup := by
  rw [keys_put]
  split
  · exact h
  · rename_i hnone
    rw [lookup_isSome] at hnone
    refine List.nodup_append.mpr ⟨h, List.nodup_singleton k, fun a ha b hb => ?_⟩
    rw [List.mem_singleton.mp hb]
    rintro rfl
    exact hnone ha

theorem lookup_cons_ite (a : Text) (w : Value) (ms : Members) (k : Text) :
    ((a, w) :: ms).lookup k = if k = a then some w else ms.lookup k := by
  by_cases h : k = a
  · subst h
    simp
  · rw [List.lookup_cons, beq_eq_false_iff_ne.mpr h, if_neg h]

theorem lookup_replace (ms : Members) (k : Text) (v : Value) (k' : Text) :
    (ms.map fun m => if m.1 = k then (k, v) else m).lookup k' =
      if k' = k then (ms.lookup k).map fun _ => v else ms.lookup k' := by
  induction ms with
  | nil => simp
  | cons p ms ih =>
      obtain ⟨a, w⟩ := p
      rw [List.map_cons]
      by_cases ha : a = k
      · subst ha
        rw [if_pos rfl, lookup_cons_ite, ih, lookup_cons_ite, lookup_cons_ite]
        by_cases hk : k' = a <;> simp [hk]
      · rw [if_neg ha, lookup_cons_ite, ih, lookup_cons_ite, lookup_cons_ite]
        by_cases hk : k' = k
        · subst hk
          simp [Ne.symm ha]
        · simp [hk]

theorem lookup_put (ms : Members) (k : Text) (v : Value) (k' : Text) :
    (put ms k v).lookup k' = if k' = k then some v else ms.lookup k' := by
  unfold put
  split
  · rename_i h
    obtain ⟨w, hw⟩ := Option.isSome_iff_exists.mp h
    rw [lookup_replace, hw]
    rfl
  · rename_i h
    have hnone := Option.not_isSome_iff_eq_none.mp h
    rw [List.lookup_append, lookup_cons_ite, List.lookup_nil]
    by_cases hk : k' = k
    · subst hk
      simp [hnone]
    · simp [hk]

theorem lookup_eraseKey (ms : Members) (k k' : Text) :
    (eraseKey ms k).lookup k' = if k' = k then none else ms.lookup k' := by
  induction ms with
  | nil => simp [eraseKey]
  | cons p ms ih =>
      obtain ⟨a, w⟩ := p
      rw [eraseKey, List.filter_cons, lookup_cons_ite]
      by_cases ha : a = k
      · subst ha
        rw [if_neg (by simp)]
        exact ih.trans (by by_cases hk : k' = a <;> simp [hk])
      · rw [if_pos (by simpa using ha), lookup_cons_ite]
        refine (congrArg _ ih).trans ?_
        by_cases hk : k' = a
        · subst hk
          simp [ha]
        · simp [hk]

theorem nodup_eraseKey (h : (ms.map Prod.fst).Nodup) :
    ((eraseKey ms k).map Prod.fst).Nodup :=
  h.sublist (List.filter_sublist.map Prod.fst)

/-- The members of some keys. -/
theorem lookup_filterMap (keys : List Text) (g : Text → Option Value) (k : Text) :
    (keys.filterMap fun k => (g k).map (k, ·)).lookup k = if k ∈ keys then g k else none := by
  induction keys with
  | nil => simp
  | cons a keys ih =>
      rw [List.filterMap_cons]
      cases hg : g a with
      | none =>
          rw [Option.map_none, ih]
          by_cases hk : k = a
          · subst hk
            simp [hg]
          · simp [hk]
      | some w =>
          rw [Option.map_some, lookup_cons_ite, ih]
          by_cases hk : k = a
          · subst hk
            simp [hg]
          · simp [hk]

theorem mem_sortedKeys : k ∈ sortedKeys ms ↔ k ∈ ms.map Prod.fst := List.mem_insertionSort _

theorem nodup_sortedKeys (h : (ms.map Prod.fst).Nodup) : (sortedKeys ms).Nodup :=
  (List.perm_insertionSort _ _).nodup_iff.mpr h

instance : Std.Total keyLe where
  total a b := by
    unfold keyLe
    have hswap : compare b a = (compare a b).swap := Std.OrientedCmp.eq_swap
    rw [hswap]
    cases compare a b <;> simp

instance : IsTrans Text keyLe where
  trans _ _ _ hab hbc := Std.TransCmp.isLE_trans hab hbc

theorem sortedKeys_lt (h : (ms.map Prod.fst).Nodup) :
    (sortedKeys ms).Pairwise fun a b => compare a b = .lt := by
  have hsorted : (sortedKeys ms).Pairwise keyLe := List.pairwise_insertionSort keyLe _
  refine (hsorted.and (nodup_sortedKeys h)).imp fun {a b} hab => ?_
  have hle := hab.1
  unfold keyLe at hle
  have hne : compare a b ≠ .eq := fun heq => hab.2 (Std.LawfulEqCmp.eq_of_compare heq)
  cases hc : compare a b with
  | lt => rfl
  | eq => exact absurd hc hne
  | gt => rw [hc] at hle; cases hle

end Lookups

/-! ## The lines of an entry -/

theorem filter_textMember (s : Text) : (textMember s).filter truthy = textMember s := by
  unfold textMember
  split
  · rfl
  · rename_i h
    simp [truthy, h]

theorem filter_patternsMember (items : List Text) :
    (patternsMember items).filter truthy = patternsMember items := by
  unfold patternsMember
  split
  · rfl
  · rename_i h
    simp [truthy, h]

/-- Every member is found under its key. -/
theorem Entry.lookup_members (e : Entry) :
    e.members.lookup labelKey = some (.str e.label) ∧
    e.members.lookup passwordKey = some (.str e.password) ∧
    e.members.lookup descriptionKey = textMember e.description ∧
    e.members.lookup hintKey = textMember e.hint ∧
    e.members.lookup patternsKey = patternsMember e.patterns := by
  unfold members
  cases textMember e.description <;> cases textMember e.hint <;>
    cases patternsMember e.patterns <;> exact ⟨rfl, rfl, rfl, rfl, rfl⟩

theorem Entry.nodup_members (e : Entry) : (e.members.map Prod.fst).Nodup := by
  unfold members
  cases textMember e.description <;> cases textMember e.hint <;>
    cases patternsMember e.patterns <;>
      simp only [optionalMember, Option.map_none, Option.map_some, Option.toList_none,
        Option.toList_some, List.append_nil, List.cons_append, List.nil_append, List.map_cons,
        List.map_nil] <;> decide

theorem Entry.plain_members {e : Entry} (h : e.Plain) :
    ∀ p ∈ e.members, bareKey p.1 = true ∧ p.2.Plain := by
  obtain ⟨hlabel, hpassword, hdescription, hhint, hpatterns⟩ := h
  have htext : ∀ key s, bareKey key = true → (∀ c ∈ s, InPlane c) →
      ∀ p ∈ optionalMember key (textMember s), bareKey p.1 = true ∧ p.2.Plain := by
    intro key s hkey hs p hp
    unfold textMember at hp
    split at hp
    · cases hp
    · rw [List.mem_singleton.mp hp]
      exact ⟨hkey, plain_str hs⟩
  have hkeys : bareKey labelKey = true ∧ bareKey passwordKey = true ∧
      bareKey patternsKey = true := by decide
  intro p hp
  simp only [members, List.cons_append, List.nil_append, List.mem_cons, List.mem_append] at hp
  rcases hp with rfl | rfl | (hp | hp) | hp
  · exact ⟨hkeys.1, plain_str hlabel⟩
  · exact ⟨hkeys.2.1, plain_str hpassword⟩
  · exact htext _ _ (by decide) hdescription p hp
  · exact htext _ _ (by decide) hhint p hp
  · unfold patternsMember at hp
    split at hp
    · cases hp
    · rw [List.mem_singleton.mp hp]
      exact ⟨hkeys.2.2, plain_strs hpatterns⟩

def entryLines (id : Text) (e : Entry) : List Line :=
  .header [profilesKey, id] :: (e.members.map fun p => Line.pair p.1 p.2) ++ [.blank]

theorem profileLines_members (id : Text) (e : Entry) :
    profileLines id (.table e.members) = .ok ((entryLines id e).map lineText) := by
  obtain ⟨hlabel, hpassword, hdescription, hhint, hpatterns⟩ := e.lookup_members
  have hmember : ∀ key v, (optionalMember key v).map (fun p => pairText p.1 p.2) =
      (v.map (pairText key)).toList := by
    intro key v
    cases v <;> rfl
  simp only [profileLines, subscript, optionalLine, hlabel, hpassword, hdescription, hhint,
    hpatterns, filter_textMember, filter_patternsMember]
  simp only [entryLines, Entry.members, List.map_append, List.map_cons, List.map_map,
    Function.comp_def, lineText, hmember]
  simp [headerText, pure, Except.pure, bind, Except.bind]

theorem plain_entryLines {id : Text} {e : Entry} (hid : bareKey id = true) (he : e.Plain) :
    ∀ l ∈ entryLines id e, l.Plain := by
  intro l hl
  simp only [entryLines, List.mem_cons, List.mem_append, List.mem_map, List.cons_append,
    List.not_mem_nil, or_false] at hl
  rcases hl with rfl | ⟨p, hp, rfl⟩ | rfl
  · refine ⟨by simp, fun key hkey => ?_⟩
    simp only [List.mem_cons, List.not_mem_nil, or_false] at hkey
    rcases hkey with rfl | rfl
    · decide
    · exact hid
  · exact Entry.plain_members he p hp
  · trivial

/-! ## The document of some entries -/

section Documents

variable {done rest : List (Text × Entry)} {id : Text} {e : Entry} {m : PasswordMap}

def versionKey : Text := "version".toList

def documentLines (entries : List (Text × Entry)) : List Line :=
  [.pair versionKey (.int 1), .blank] ++ entries.flatMap fun p => entryLines p.1 p.2

def profileTables (entries : List (Text × Entry)) : Members :=
  entries.map fun p => (p.1, .table p.2.members)

/-- The document after the lines of some entries. -/
def documentRoot (entries : List (Text × Entry)) : Members :=
  (versionKey, .int 1) ::
    if entries = [] then [] else [(profilesKey, .table (profileTables entries))]

/-- The document while a table is being filled. -/
def openRoot (done : List (Text × Entry)) (id : Text) (t : Members) : Members :=
  [(versionKey, .int 1)] ++ [(profilesKey, .table (profileTables done ++ [(id, .table t)]))]

theorem lookup_version : ([(versionKey, .int 1)] : Members).lookup profilesKey = none := rfl

theorem lookup_profileTables (h : id ∉ done.map Prod.fst) :
    (profileTables done).lookup id = none := by
  rw [List.lookup_eq_none_iff]
  intro p hp
  obtain ⟨q, hq, rfl⟩ := List.mem_map.mp hp
  rw [bne_iff_ne]
  rintro rfl
  exact h (List.mem_map_of_mem hq)

theorem modify_header (h : id ∉ done.map Prod.fst) :
    modify some [profilesKey, id] (documentRoot done) = some (openRoot done id []) := by
  unfold documentRoot
  split
  · rename_i hdone
    subst hdone
    rw [modify_new lookup_version, modify_new rfl]
    rfl
  · have hroot : Toml.modify some [profilesKey, id]
        ([(versionKey, .int 1)] ++ [(profilesKey, .table (profileTables done))]) = _ :=
      modify_last lookup_version
    rw [modify_new (lookup_profileTables h)] at hroot
    exact hroot

theorem modify_open (h : id ∉ done.map Prod.fst) (f : Members → Option Members) (t : Members) :
    modify f [profilesKey, id] (openRoot done id t) = (f t).map (openRoot done id) := by
  rw [openRoot, modify_last lookup_version, modify_last (lookup_profileTables h), modify_nil,
    Option.map_map]
  rfl

theorem openRoot_members (done : List (Text × Entry)) (id : Text) (e : Entry) :
    openRoot done id e.members = documentRoot (done ++ [(id, e)]) := by
  simp [openRoot, documentRoot, profileTables]

theorem foldlM_entryLines {current : List Text} {declared : List (List Text)}
    (hnew : id ∉ done.map Prod.fst) (hdeclared : [profilesKey, id] ∉ declared) :
    (entryLines id e).foldlM Document.step ⟨documentRoot done, current, declared⟩ =
      some ⟨documentRoot (done ++ [(id, e)]), [profilesKey, id],
        [profilesKey, id] :: declared⟩ := by
  have hpairs := @foldlM_pairs [] _ ([profilesKey, id] :: declared) (openRoot done id) e.members
    (modify_open hnew) (by simpa using e.nodup_members)
  rw [entryLines, List.cons_append, List.foldlM_cons, Document.step, if_neg hdeclared,
    modify_header hnew]
  simp only [Option.map_some, Option.bind_eq_bind, Option.bind_some]
  rw [List.foldlM_append, hpairs, List.nil_append, openRoot_members]
  rfl

/-- Entry after entry, the document grows by their tables. -/
theorem foldlM_entries {current : List Text} {declared : List (List Text)}
    (hnodup : ((done ++ rest).map Prod.fst).Nodup)
    (hdeclared : ∀ keys ∈ declared, ∃ id ∈ done.map Prod.fst, keys = [profilesKey, id]) :
    ((rest.flatMap fun p => entryLines p.1 p.2).foldlM Document.step
      ⟨documentRoot done, current, declared⟩).map Document.root =
        some (documentRoot (done ++ rest)) := by
  induction rest generalizing done current declared with
  | nil => simp
  | cons p rest ih =>
      have hnew : p.1 ∉ done.map Prod.fst := by
        rw [List.map_append, List.nodup_append] at hnodup
        exact fun hmem => hnodup.2.2 _ hmem p.1 (by simp) rfl
      have hfresh : [profilesKey, p.1] ∉ declared := by
        intro hmem
        obtain ⟨id, hid, heq⟩ := hdeclared _ hmem
        simp only [List.cons.injEq, and_true, true_and] at heq
        exact hnew (heq ▸ hid)
      rw [List.flatMap_cons, List.foldlM_append, foldlM_entryLines hnew hfresh, Option.bind_eq_bind,
        Option.bind_some, ih (by simpa using hnodup) ?_]
      · simp
      · intro keys hkeys
        rcases List.mem_cons.mp hkeys with rfl | hkeys
        · exact ⟨p.1, by simp, rfl⟩
        · obtain ⟨id, hid, heq⟩ := hdeclared keys hkeys
          refine ⟨id, ?_, heq⟩
          rw [List.map_append]
          exact List.mem_append_left _ hid

/-- The text of some entries is read as their tables. -/
theorem read_documentLines {entries : List (Text × Entry)} (hnodup : (entries.map Prod.fst).Nodup)
    (hplain : ∀ p ∈ entries, bareKey p.1 = true ∧ p.2.Plain) :
    read (some (List.intercalate ['\n'] ((documentLines entries).map lineText))) =
      .ok (profileTables entries) := by
  have hlines : ∀ l ∈ documentLines entries, l.Plain := by
    intro l hl
    simp only [documentLines, List.mem_append, List.mem_cons, List.not_mem_nil, or_false,
      List.mem_flatMap] at hl
    rcases hl with (rfl | rfl) | ⟨p, hp, hl⟩
    · exact ⟨by decide, rfl, forall_of_all (by decide)⟩
    · trivial
    · exact plain_entryLines (hplain p hp).1 (hplain p hp).2 l hl
  have hfold := @foldlM_entries [] entries [] [] hnodup (by simp)
  have hload := loads_lines (by simp [documentLines]) hlines
  have hstart : (documentLines entries).foldlM Document.step ⟨[], [], []⟩ =
      (entries.flatMap fun p => entryLines p.1 p.2).foldlM Document.step
        ⟨documentRoot [], [], []⟩ := rfl
  rw [hstart, hfold, List.nil_append] at hload
  rw [read, hload]
  by_cases hentries : entries = []
  · subst hentries
    rfl
  · rw [documentRoot, if_neg hentries]
    rfl

end Documents

end Openlia.Ingestion

import Openlia.Ingestion.PasswordFile

/-! # The store is a map

As long as ids have no dots and the stored strings have no character beyond the basic
plane, the file shows the map that the calls describe, and every answer is the map's.
-/

namespace Openlia.Ingestion

open Lib Lib.Toml
open Policy (Text strip isSpace)

/-! ## Writing shows the map -/

section Writing

variable {profiles : Members} {m : PasswordMap} {file : Option Text} {args : SaveArgs}

theorem Tables.mem_keys (h : Tables profiles m) (id : Text) :
    id ∈ profiles.map Prod.fst ↔ (m id).isSome = true := by
  rw [← lookup_isSome, h.lookup, Option.isSome_map]

/-- The entries of the map, in the order of their ids. -/
def sortedEntries (profiles : Members) (m : PasswordMap) : List (Text × Entry) :=
  (sortedKeys profiles).filterMap fun id => (m id).map (id, ·)

theorem mem_sortedEntries (h : Tables profiles m) {id : Text} {e : Entry} :
    (id, e) ∈ sortedEntries profiles m ↔ m id = some e := by
  simp only [sortedEntries, List.mem_filterMap, Option.map_eq_some_iff, Prod.mk.injEq,
    mem_sortedKeys, h.mem_keys]
  constructor
  · rintro ⟨id', -, e', hm, rfl, rfl⟩
    exact hm
  · intro hm
    exact ⟨id, by rw [hm]; rfl, e, hm, rfl, rfl⟩

theorem map_sortedEntries (h : Tables profiles m) :
    (sortedEntries profiles m).map Prod.fst = sortedKeys profiles := by
  have hall : ∀ keys : List Text, (∀ id ∈ keys, (m id).isSome = true) →
      (keys.filterMap fun id => (m id).map (id, ·)).map Prod.fst = keys := by
    intro keys hkeys
    induction keys with
    | nil => rfl
    | cons id keys ih =>
        obtain ⟨e, he⟩ := Option.isSome_iff_exists.mp (hkeys id List.mem_cons_self)
        rw [List.filterMap_cons, he, Option.map_some, List.map_cons,
          ih fun id' hid' => hkeys id' (List.mem_cons_of_mem id hid')]
  exact hall _ fun id hid => (h.mem_keys id).mp (mem_sortedKeys.mp hid)

theorem render_tables (h : Tables profiles m) :
    render profiles = .ok (List.intercalate ['\n']
      ((documentLines (sortedEntries profiles m)).map lineText)) := by
  have hmapM : ∀ keys : List Text, (∀ id ∈ keys, (m id).isSome = true) →
      keys.mapM (keyLines profiles) =
        .ok ((keys.filterMap fun id => (m id).map (id, ·)).map fun p =>
          (entryLines p.1 p.2).map lineText) := by
    intro keys hkeys
    induction keys with
    | nil => rfl
    | cons id keys ih =>
        obtain ⟨e, he⟩ := Option.isSome_iff_exists.mp (hkeys id List.mem_cons_self)
        have hlines : keyLines profiles id = .ok ((entryLines id e).map lineText) := by
          rw [keyLines, h.lookup id, he]
          exact profileLines_members id e
        rw [List.mapM_cons, ih fun id' hid' => hkeys id' (List.mem_cons_of_mem id hid'), hlines,
          List.filterMap_cons, he]
        rfl
  rw [render, hmapM _ fun id hid => (h.mem_keys id).mp (mem_sortedKeys.mp hid)]
  simp only [documentLines, List.map_append, List.map_flatMap]
  rfl

/-- What is written is read back as the same map. -/
theorem Shows.written (h : Shows profiles m) :
    ∃ text profiles', render profiles = .ok text ∧ read (some text) = .ok profiles' ∧
      Shows profiles' m := by
  have hnodup : ((sortedEntries profiles m).map Prod.fst).Nodup := by
    rw [map_sortedEntries h.toTables]
    exact nodup_sortedKeys h.nodup
  have hentry : ∀ p ∈ sortedEntries profiles m, m p.1 = some p.2 := fun p hp =>
    (mem_sortedEntries h.toTables).mp hp
  refine ⟨_, profileTables (sortedEntries profiles m), render_tables h.toTables,
    read_documentLines hnodup fun p hp => ⟨h.bare _ _ (hentry p hp), h.plain _ _ (hentry p hp)⟩,
    ⟨⟨?_, fun id => ?_⟩, h.bare, h.profileId, h.plain⟩⟩
  · rw [profileTables, List.map_map]
    exact hnodup
  · have htables : profileTables (sortedEntries profiles m) =
        (sortedKeys profiles).filterMap fun id =>
          ((m id).map fun e => .table e.members).map (id, ·) := by
      rw [profileTables, sortedEntries, List.map_filterMap]
      simp only [Option.map_map]
      rfl
    rw [htables, lookup_filterMap]
    split
    · rfl
    · rename_i hmem
      rw [mem_sortedKeys, h.mem_keys, Bool.not_eq_true, Option.isSome_eq_false_iff,
        Option.isNone_iff_eq_none] at hmem
      rw [hmem]
      rfl

theorem Tables.put (h : Tables profiles m) (id : Text) (e : Entry) :
    Tables (put profiles id (.table e.members)) (Function.update m id (some e)) := by
  refine ⟨nodup_put h.nodup, fun id' => ?_⟩
  rw [lookup_put, h.lookup]
  by_cases hne : id' = id
  · subst hne
    simp
  · simp [hne]

theorem Tables.erase (h : Tables profiles m) (id : Text) :
    Tables (eraseKey profiles id) (Function.update m id none) := by
  refine ⟨nodup_eraseKey h.nodup, fun id' => ?_⟩
  rw [lookup_eraseKey, h.lookup]
  by_cases hne : id' = id
  · subst hne
    simp
  · simp [hne]

theorem update_cases {id id' : Text} {o : Option Entry} {e : Entry}
    (h : Function.update m id o id' = some e) : id' = id ∧ o = some e ∨ m id' = some e := by
  by_cases hne : id' = id
  · subst hne
    rw [Function.update_self] at h
    exact .inl ⟨rfl, h⟩
  · rw [Function.update_of_ne hne] at h
    exact .inr h

theorem Shows.put {id : Text} {e : Entry} (h : Shows profiles m) (hbare : bareKey id = true)
    (hid : isProfileId id = true) (he : e.Plain) :
    Shows (put profiles id (.table e.members)) (Function.update m id (some e)) where
  toTables := h.toTables.put id e
  bare id' e' h' := by
    rcases update_cases h' with ⟨rfl, -⟩ | h'
    · exact hbare
    · exact h.bare id' e' h'
  profileId id' e' h' := by
    rcases update_cases h' with ⟨rfl, -⟩ | h'
    · exact hid
    · exact h.profileId id' e' h'
  plain id' e' h' := by
    rcases update_cases h' with ⟨-, heq⟩ | h'
    · exact Option.some.inj heq ▸ he
    · exact h.plain id' e' h'

theorem Shows.erase (h : Shows profiles m) (id : Text) :
    Shows (eraseKey profiles id) (Function.update m id none) where
  toTables := h.toTables.erase id
  bare id' e' h' := h.bare id' e' ((update_cases h').resolve_left fun hn => nomatch hn.2)
  profileId id' e' h' := h.profileId id' e' ((update_cases h').resolve_left fun hn => nomatch hn.2)
  plain id' e' h' := h.plain id' e' ((update_cases h').resolve_left fun hn => nomatch hn.2)

/-! ## What a call does -/

theorem existingGet_members (e : Entry) (key : Text) :
    existingGet (some (.table e.members)) key = .ok ((e.members.lookup key).filter truthy) := rfl

theorem existingPassword_tables (existing : Option Entry) :
    existingPassword (existing.map fun e => .table e.members) =
      match (existing.map Entry.password).filter (· ≠ []) with
      | some password => .ok (.str password)
      | none => .error (.profileError "document password must not be empty") := by
  cases existing with
  | none => rfl
  | some e =>
      rw [existingPassword, Option.map_some, existingGet_members, e.lookup_members.2.1,
        Option.map_some]
      by_cases he : e.password = []
      · rw [Option.filter_some_neg (by simpa [truthy] using he),
          Option.filter_some_neg (by simpa using he)]
        rfl
      · rw [Option.filter_some_pos (by simpa [truthy] using he),
          Option.filter_some_pos (by simpa using he)]
        rfl

theorem effectivePassword_tables (given : Option Text) (existing : Option Entry) :
    effectivePassword given (existing.map fun e => .table e.members) =
      match storedPassword given existing with
      | some password => .ok (.str password)
      | none => .error (.profileError "document password must not be empty") := by
  rcases given with _ | _ | ⟨c, rest⟩
  · exact existingPassword_tables existing
  · exact existingPassword_tables existing
  · rfl

theorem optionalText_tables (given : Option Text) (existing : Option Entry) {key : Text}
    {field : Entry → Text} (hkey : ∀ e : Entry, e.members.lookup key = textMember (field e)) :
    optionalText given (existing.map fun e => .table e.members) key =
      .ok (textMember (storedText given existing field)) := by
  cases given with
  | some s => rfl
  | none =>
      cases existing with
      | none => rfl
      | some e =>
          rw [optionalText, Option.map_some, existingGet_members, hkey, filter_textMember]
          rfl

theorem optionalPatterns_tables (given : Option (List Text)) (existing : Option Entry) :
    optionalPatterns given (existing.map fun e => .table e.members) =
      .ok (patternsMember (storedPatterns given existing)) := by
  cases given with
  | some patterns => rfl
  | none =>
      cases existing with
      | none => rfl
      | some e =>
          rw [optionalPatterns, Option.map_some, existingGet_members,
            e.lookup_members.2.2.2.2, filter_patternsMember]
          rfl

theorem save_tables (h : Tables profiles m) (hread : read file = .ok profiles) :
    save file args =
      match accepted m args with
      | .error e => .error e
      | .ok entry =>
          (render (Toml.put profiles args.profile_id (.table entry.members))).map fun text =>
            (text, entry.item args.profile_id) := by
  unfold save accepted
  split
  · rfl
  · split
    · rfl
    · rw [hread]
      simp only [bind, Except.bind, h.lookup, effectivePassword_tables]
      cases storedPassword args.password (m args.profile_id) with
      | none => rfl
      | some password =>
          simp only [optionalText_tables _ _ fun e => e.lookup_members.2.2.1,
            optionalText_tables _ _ fun e => e.lookup_members.2.2.2.1, optionalPatterns_tables]
          rfl

/-- The file shows a map that can be written. -/
def Stored (file : Option Text) (m : PasswordMap) : Prop :=
  ∃ profiles, read file = .ok profiles ∧ Shows profiles m

theorem listItem_members (id : Text) (e : Entry) :
    listItem id (.table e.members) = some (e.item id) := by
  obtain ⟨hlabel, -, hdescription, hhint, hpatterns⟩ := e.lookup_members
  simp only [listItem, hlabel, hdescription, hhint, hpatterns, filter_textMember,
    filter_patternsMember, Entry.item]

theorem list_tables (h : Tables profiles m) (hread : read file = .ok profiles) :
    list file = .ok ((sortedEntries profiles m).map fun p => p.2.item p.1) := by
  have hitem : (fun id => (profiles.lookup id).bind (listItem id)) =
      fun id => ((m id).map (id, ·)).map fun p => p.2.item p.1 := by
    funext id
    rw [h.lookup]
    cases m id with
    | none => rfl
    | some e => exact listItem_members id e
  rw [list, hread, sortedEntries, List.map_filterMap, ← hitem]
  rfl

theorem resolve_tables (h : Tables profiles m) (hread : read file = .ok profiles) {id : Text}
    (hid : isProfileId id = true) :
    resolve file id =
      match m id with
      | some e => .ok e.password
      | none => .error (.profileError "password profile was not found") := by
  rw [resolve, hid, if_neg (by simp), hread]
  simp only [bind, Except.bind, h.lookup]
  cases m id with
  | none => rfl
  | some e => simp only [Option.map_some, e.lookup_members.2.1]

theorem perform_tables (h : Tables profiles m) (hread : read file = .ok profiles) (call : Call) :
    (perform file call).2 = (describe m call).2 := by
  cases call with
  | save args =>
      rw [perform, describe, save_tables h hread]
      cases accepted m args with
      | error e => rfl
      | ok entry =>
          simp only [render_tables (h.put args.profile_id entry)]
          rfl
  | delete id =>
      rw [perform, describe, delete]
      by_cases hid : isProfileId id = false
      · rw [if_pos hid, if_pos hid]
      · rw [if_neg hid, if_neg hid, hread]
        simp only [bind, Except.bind, h.lookup]
        cases m id with
        | none => rfl
        | some e =>
            simp only [Option.map_some, render_tables (h.erase id)]
            rfl

theorem Stored.faithful (h : Stored file m) : Faithful file m := by
  obtain ⟨profiles, hread, hshows⟩ := h
  have htables := hshows.toTables
  refine ⟨fun id hid => resolve_tables htables hread hid, ⟨_, list_tables htables hread, ?_, ?_⟩,
    perform_tables htables hread⟩
  · rw [List.map_map]
    have hids : (sortedEntries profiles m).map (ProfileItem.profile_id ∘ fun p => p.2.item p.1) =
        sortedKeys profiles := map_sortedEntries htables
    rw [hids]
    exact sortedKeys_lt htables.nodup
  · intro item
    simp only [List.mem_map, Prod.exists, mem_sortedEntries htables]
    exact ⟨fun ⟨id, e, hm, heq⟩ => ⟨id, e, hm, heq.symm⟩,
      fun ⟨id, e, hm, heq⟩ => ⟨id, e, hm, heq.symm⟩⟩

/-! ## Runs -/

theorem mem_strip {s : Text} {c : Char} (h : c ∈ strip s) : c ∈ s := by
  have hdrop : ∀ l : Text, ∀ d ∈ l.dropWhile isSpace, d ∈ l :=
    fun l => (List.dropWhile_sublist isSpace).subset
  exact hdrop _ _ (List.mem_reverse.mp (hdrop _ _ (List.mem_reverse.mp h)))

theorem bareKey_of_profileId {id : Text} (h : isProfileId id = true) (hdot : '.' ∉ id) :
    bareKey id = true := by
  have hbare : ∀ c, isAlphanumeric c = true → isBare c = true := by
    intro c hc
    unfold isBare
    unfold isAlphanumeric at hc
    rw [hc]
    rfl
  cases id with
  | nil => cases h
  | cons c rest =>
      simp only [isProfileId, Bool.and_eq_true, List.all_eq_true, Bool.or_eq_true,
        decide_eq_true_eq] at h
      refine bareKey_iff.mpr ⟨by simp, fun d hd => ?_⟩
      rcases List.mem_cons.mp hd with rfl | hmem
      · exact hbare d h.1.1
      · rcases h.2 d hmem with ((hd' | rfl) | rfl) | rfl
        · exact hbare d hd'
        · exact absurd hd hdot
        · rfl
        · rfl

theorem accepted_inv {e : Entry} (h : accepted m args = .ok e) :
    isProfileId args.profile_id = true ∧ ∃ password,
      storedPassword args.password (m args.profile_id) = some password ∧
        e = storedEntry args (m args.profile_id) password := by
  unfold accepted at h
  split at h
  · cases h
  · rename_i hid
    split at h
    · cases h
    · split at h
      · cases h
      · rename_i password hpassword
        exact ⟨by simpa using hid, password, hpassword, (Except.ok.inj h).symm⟩

theorem accepted_plain {e : Entry} (h : accepted m args = .ok e)
    (hm : ∀ id e, m id = some e → e.Plain)
    (hstrings : ∀ s ∈ args.strings, ∀ c ∈ s, InPlane c) : e.Plain := by
  obtain ⟨-, password, hpassword, rfl⟩ := accepted_inv h
  have hstrip : ∀ s ∈ args.strings, ∀ c ∈ strip s, InPlane c :=
    fun s hs c hc => hstrings s hs c (mem_strip hc)
  -- a text is given, or it is what the entry had
  have htext : ∀ (given : Option Text) (field : Entry → Text), (∀ s ∈ given, s ∈ args.strings) →
      (∀ e, e.Plain → ∀ c ∈ field e, InPlane c) →
      ∀ c ∈ storedText given (m args.profile_id) field, InPlane c := by
    intro given field hgiven hfield c hc
    cases given with
    | some s => exact hstrip s (hgiven s rfl) c hc
    | none =>
        cases hm' : m args.profile_id with
        | none => rw [hm'] at hc; cases hc
        | some e =>
            rw [hm'] at hc
            exact hfield e (hm _ _ hm') c hc
  refine ⟨hstrip _ (by simp [SaveArgs.strings]), ?_,
    htext _ _ (by simp +contextual [SaveArgs.strings]) fun e he => he.2.2.1,
    htext _ _ (by simp +contextual [SaveArgs.strings]) fun e he => he.2.2.2.1, ?_⟩
  · have hkept : (∃ given, args.password = some given ∧ given = password) ∨
        ∃ e, m args.profile_id = some e ∧ e.password = password := by
      rcases hgiven : args.password with _ | _ | ⟨c, rest⟩ <;> rw [hgiven] at hpassword
      · obtain ⟨hmap, -⟩ := Option.filter_eq_some_iff.mp hpassword
        exact .inr (Option.map_eq_some_iff.mp hmap)
      · obtain ⟨hmap, -⟩ := Option.filter_eq_some_iff.mp hpassword
        exact .inr (Option.map_eq_some_iff.mp hmap)
      · exact .inl ⟨_, rfl, Option.some.inj hpassword⟩
    rcases hkept with ⟨given, hgiven, rfl⟩ | ⟨e, he, rfl⟩
    · exact hstrings given (by simp [SaveArgs.strings, hgiven])
    · exact (hm _ e he).2.1
  · intro s hs
    cases hgiven : args.patterns with
    | some patterns =>
        simp only [storedEntry, storedPatterns, hgiven, cleanedPatterns, List.mem_filter,
          List.mem_map] at hs
        obtain ⟨⟨p, hp, rfl⟩, -⟩ := hs
        exact hstrip p (by simp [SaveArgs.strings, hgiven, hp])
    | none =>
        simp only [storedEntry, storedPatterns, hgiven] at hs
        cases hm' : m args.profile_id with
        | none => rw [hm'] at hs; cases hs
        | some e =>
            rw [hm'] at hs
            exact (hm _ e hm').2.2.2.2 s hs

theorem Stored.perform {call : Call} (h : Stored file m) (hcall : Writable m call) :
    Stored (perform file call).1 (describe m call).1 := by
  obtain ⟨profiles, hread, hshows⟩ := h
  have htables := hshows.toTables
  cases call with
  | save args =>
      rw [Ingestion.perform, describe, save_tables htables hread]
      cases haccepted : accepted m args with
      | error e => exact ⟨profiles, hread, hshows⟩
      | ok entry =>
          obtain ⟨hdot, hstrings⟩ := hcall ⟨entry, haccepted⟩
          have hid := (accepted_inv haccepted).1
          obtain ⟨text, profiles', hrender, hread', hshows'⟩ :=
            (hshows.put (bareKey_of_profileId hid hdot) hid
              (accepted_plain haccepted hshows.plain hstrings)).written
          simp only [hrender]
          exact ⟨profiles', hread', hshows'⟩
  | delete id =>
      rw [Ingestion.perform, describe, delete]
      by_cases hid : isProfileId id = false
      · rw [if_pos hid, if_pos hid]
        exact ⟨profiles, hread, hshows⟩
      · rw [if_neg hid, if_neg hid, hread]
        simp only [bind, Except.bind, htables.lookup]
        cases hm : m id with
        | none =>
            have hsame : Function.update m id none = m := by
              rw [← hm, Function.update_eq_self]
            rw [hsame]
            exact ⟨profiles, hread, hshows⟩
        | some e =>
            obtain ⟨text, profiles', hrender, hread', hshows'⟩ := (hshows.erase id).written
            simp only [Option.map_some, hrender]
            exact ⟨profiles', hread', hshows'⟩

end Writing

/-- Every accepted save of the calls can be written. -/
def AllWritable (calls : List Call) : Prop :=
  ∀ before call after, calls = before ++ call :: after → Writable (described before) call

theorem stored_of_writable {calls : List Call} (h : AllWritable calls) :
    Stored (fileAfter calls) (described calls) := by
  induction calls using List.reverseRecOn with
  | nil => exact ⟨[], rfl, ⟨⟨List.nodup_nil, fun _ => rfl⟩, nofun, nofun, nofun⟩⟩
  | append_singleton calls call ih =>
      have hcall : Writable (described calls) call := h calls call [] rfl
      have hbefore : AllWritable calls := fun before c after heq =>
        h before c (after ++ [call]) (by rw [heq]; simp)
      have hstep := (ih hbefore).perform hcall
      rwa [fileAfter, described, List.foldl_concat, List.foldl_concat]

/-- After any calls whose saves can be written, the store is the map that they describe. -/
theorem passwords_faithful {calls : List Call} (h : AllWritable calls) :
    Faithful (fileAfter calls) (described calls) :=
  (stored_of_writable h).faithful

/-- Save a profile with a label and a password only. -/
def saveCall (id password : String) : Call :=
  .save ⟨id.toList, "Bank".toList, some password.toList, none, none, none⟩

theorem strings_inPlane {args : SaveArgs}
    (h : (args.strings.all fun s => s.all fun c => decide (InPlane c)) = true) :
    ∀ s ∈ args.strings, ∀ c ∈ s, InPlane c :=
  fun s hs => forall_of_all (List.all_eq_true.mp h s hs)

theorem passwords_faithful_twoSaves :
    resolve (fileAfter [saveCall "bank" "öl", saveCall "bank" "p\"w", .delete "x".toList])
      "bank".toList = .ok "p\"w".toList ∧
    Faithful (fileAfter [saveCall "bank" "öl", saveCall "bank" "p\"w", .delete "x".toList])
      (described [saveCall "bank" "öl", saveCall "bank" "p\"w", .delete "x".toList]) := by
  refine ⟨by decide +kernel, passwords_faithful fun before call after h => ?_⟩
  have hmem : call ∈ [saveCall "bank" "öl", saveCall "bank" "p\"w", .delete "x".toList] := by
    rw [h]
    simp
  simp only [List.mem_cons, List.not_mem_nil, or_false] at hmem
  rcases hmem with rfl | rfl | rfl
  · exact fun _ => ⟨by decide, strings_inPlane (by decide)⟩
  · exact fun _ => ⟨by decide, strings_inPlane (by decide)⟩
  · trivial

/-- A dot in an id makes a nested table, and a character beyond the basic plane makes the
file unreadable. -/
theorem passwords_lost :
    ¬ Faithful (fileAfter [saveCall "a.b" "x"]) (described [saveCall "a.b" "x"]) ∧
    ¬ Faithful (fileAfter [saveCall "a" "🔑"]) (described [saveCall "a" "🔑"]) := by
  refine ⟨fun h => ?_, fun h => ?_⟩
  · have hresolve := h.resolve "a.b".toList (by decide)
    have hlost : resolve (fileAfter [saveCall "a.b" "x"]) "a.b".toList =
        .error (.profileError "password profile was not found") := by decide +kernel
    have hsaved : (described [saveCall "a.b" "x"] "a.b".toList).isSome = true := by
      decide +kernel
    obtain ⟨e, he⟩ := Option.isSome_iff_exists.mp hsaved
    rw [hlost, he] at hresolve
    cases hresolve
  · have hresolve := h.resolve "a".toList (by decide)
    have hlost : resolve (fileAfter [saveCall "a" "🔑"]) "a".toList = .error .invalidFile := by
      decide +kernel
    rw [hlost] at hresolve
    split at hresolve
    · cases hresolve
    · cases hresolve

end Openlia.Ingestion

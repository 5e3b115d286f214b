import Openlia.Lib.Regex

/-! # What an expression can match

Where a match may end, whatever the engine tries first. The engine ends a match only
there, and it finds a match wherever there is one.
-/

namespace Openlia.Lib.Regex

/-- A match of the expression leads from `s` to `t`. -/
def Matches : Regex → Cursor → Cursor → Prop
  | .empty, s, t => t = s
  | .char p, s, t => ∃ c after, s.after = c :: after ∧ p c = true ∧
      t = ⟨c :: s.before, after, s.groups⟩
  | .look p, s, t => p s.before.head? s.after.head? = true ∧ t = s
  | .seq r r', s, t => ∃ u, r.Matches s u ∧ r'.Matches u t
  | .alt r r', s, t => r.Matches s t ∨ r'.Matches s t
  | .many _ p, s, t => ∃ xs after, s.after = xs ++ after ∧ xs.all p = true ∧
      t = ⟨xs.reverse ++ s.before, after, s.groups⟩
  | .group name r, s, t => ∃ u, r.Matches s u ∧
      t = { u with groups := (name, s.after.take (s.after.length - u.after.length)) :: u.groups }

variable {β : Type} {r : Regex} {k : Cursor → Option β} {s t : Cursor} {b : β}

section Repetition

variable {greedy : Bool} {p : Char → Bool} {groups : List (String × List Char)}
  {before after xs : List Char}

theorem of_runMany (h : runMany greedy p k groups before after = some b) :
    ∃ xs rest, after = xs ++ rest ∧ xs.all p = true ∧
      k ⟨xs.reverse ++ before, rest, groups⟩ = some b := by
  induction after generalizing before with
  | nil => exact ⟨[], [], rfl, rfl, h⟩
  | cons c after ih =>
      have hstop : k ⟨before, c :: after, groups⟩ = some b → ∃ xs rest, c :: after = xs ++ rest ∧
          xs.all p = true ∧ k ⟨xs.reverse ++ before, rest, groups⟩ = some b :=
        fun hk => ⟨[], c :: after, rfl, rfl, hk⟩
      have hmore : p c = true → runMany greedy p k groups (c :: before) after = some b →
          ∃ xs rest, c :: after = xs ++ rest ∧ xs.all p = true ∧
            k ⟨xs.reverse ++ before, rest, groups⟩ = some b := by
        intro hc hrun
        obtain ⟨xs, rest, hafter, hall, hk⟩ := ih hrun
        refine ⟨c :: xs, rest, by rw [hafter, List.cons_append], by simp [hc, hall], ?_⟩
        rw [List.reverse_cons, List.append_assoc]
        exact hk
      rw [runMany] at h
      by_cases hc : p c = true
      · rw [if_pos hc] at h
        cases greedy with
        | true =>
            rcases Option.or_eq_some_iff.mp h with hrun | ⟨-, hk⟩
            · exact hmore hc hrun
            · exact hstop hk
        | false =>
            rcases Option.or_eq_some_iff.mp h with hk | ⟨-, hrun⟩
            · exact hstop hk
            · exact hmore hc hrun
      · rw [if_neg hc] at h
        exact hstop h

theorem isSome_runMany (hxs : xs.all p = true)
    (hk : (k ⟨xs.reverse ++ before, after, groups⟩).isSome) :
    (runMany greedy p k groups before (xs ++ after)).isSome := by
  induction xs generalizing before with
  | nil =>
      cases after with
      | nil => exact hk
      | cons c after =>
          rw [List.nil_append, runMany]
          cases greedy <;> split <;> simp_all
  | cons c xs ih =>
      rw [List.all_cons, Bool.and_eq_true] at hxs
      rw [List.reverse_cons, List.append_assoc] at hk
      have hmore : (runMany greedy p k groups (c :: before) (xs ++ after)).isSome := ih hxs.2 hk
      rw [List.cons_append, runMany, if_pos hxs.1]
      cases greedy <;> simp [hmore]

end Repetition

/-- The engine ends a match only where the expression has one. -/
theorem matches_of_run (h : r.run k s = some b) : ∃ t, r.Matches s t ∧ k t = some b := by
  induction r generalizing k s with
  | empty => exact ⟨s, rfl, h⟩
  | char p =>
      rw [run] at h
      cases hafter : s.after with
      | nil => simp [hafter] at h
      | cons c after =>
          rw [hafter] at h
          by_cases hc : p c = true
          · exact ⟨_, ⟨c, after, hafter, hc, rfl⟩, by simpa [hc] using h⟩
          · simp [hc] at h
  | look p =>
      rw [run] at h
      by_cases hp : p s.before.head? s.after.head? = true
      · exact ⟨s, ⟨hp, rfl⟩, by rwa [if_pos hp] at h⟩
      · simp [hp] at h
  | seq r r' ih ih' =>
      obtain ⟨u, hu, hrun⟩ := ih h
      obtain ⟨t, ht, hk⟩ := ih' hrun
      exact ⟨t, ⟨u, hu, ht⟩, hk⟩
  | alt r r' ih ih' =>
      rw [run] at h
      rcases Option.or_eq_some_iff.mp h with hleft | ⟨-, hright⟩
      · obtain ⟨t, ht, hk⟩ := ih hleft
        exact ⟨t, .inl ht, hk⟩
      · obtain ⟨t, ht, hk⟩ := ih' hright
        exact ⟨t, .inr ht, hk⟩
  | many greedy p =>
      obtain ⟨xs, rest, hafter, hall, hk⟩ := of_runMany h
      exact ⟨_, ⟨xs, rest, hafter, hall, rfl⟩, hk⟩
  | group name r ih =>
      obtain ⟨u, hu, hk⟩ := ih h
      exact ⟨_, ⟨u, hu, rfl⟩, hk⟩

/-- The engine tries every match until one goes on. -/
theorem Matches.isSome_run (h : r.Matches s t) (hk : (k t).isSome) : (r.run k s).isSome := by
  induction r generalizing k s t with
  | empty =>
      cases h
      exact hk
  | char p =>
      obtain ⟨c, after, hafter, hc, rfl⟩ := h
      rw [run, hafter]
      simpa [hc] using hk
  | look p =>
      obtain ⟨hp, rfl⟩ := h
      rwa [run, if_pos hp]
  | seq r r' ih ih' =>
      obtain ⟨u, hu, ht⟩ := h
      exact ih hu (ih' ht hk)
  | alt r r' ih ih' =>
      rw [run, Option.isSome_or, Bool.or_eq_true]
      exact h.imp (ih · hk) (ih' · hk)
  | many greedy p =>
      obtain ⟨xs, after, hafter, hall, rfl⟩ := h
      rw [run, hafter]
      exact isSome_runMany hall hk
  | group name r ih =>
      obtain ⟨u, hu, rfl⟩ := h
      exact ih hu hk

/-! ## Matches of what expressions are built from -/

theorem matches_chars {cs : List Char} :
    (seqs (cs.map fun c => .char fun d => d = c)).Matches s t ↔
      ∃ after, s.after = cs ++ after ∧ t = ⟨cs.reverse ++ s.before, after, s.groups⟩ := by
  induction cs generalizing s with
  | nil => exact ⟨fun h => ⟨s.after, rfl, h⟩, fun ⟨after, ha, ht⟩ => by
      cases s
      cases ha
      exact ht⟩
  | cons c cs ih =>
      have hcons : (seqs ((c :: cs).map fun c => .char fun d => d = c)).Matches s t ↔
          ∃ after, s.after = c :: after ∧ (seqs (cs.map fun c => .char fun d => d = c)).Matches
            ⟨c :: s.before, after, s.groups⟩ t := by
        have hchar : ∀ u, (Regex.char fun d => decide (d = c)).Matches s u ↔
            ∃ after, s.after = c :: after ∧ u = ⟨c :: s.before, after, s.groups⟩ := by
          intro u
          constructor
          · rintro ⟨d, after, ha, hd, rfl⟩
            obtain rfl := of_decide_eq_true hd
            exact ⟨after, ha, rfl⟩
          · rintro ⟨after, ha, rfl⟩
            exact ⟨c, after, ha, decide_eq_true rfl, rfl⟩
        cases cs with
        | nil => exact hchar t
        | cons d cs =>
            constructor
            · rintro ⟨u, hu, ht⟩
              obtain ⟨after, ha, rfl⟩ := (hchar u).mp hu
              exact ⟨after, ha, ht⟩
            · rintro ⟨after, ha, ht⟩
              exact ⟨_, (hchar _).mpr ⟨after, ha, rfl⟩, ht⟩
      rw [hcons]
      constructor
      · rintro ⟨after, ha, ht⟩
        obtain ⟨rest, hrest, rfl⟩ := ih.mp ht
        dsimp only at hrest
        refine ⟨rest, by rw [ha, hrest, List.cons_append], ?_⟩
        rw [List.reverse_cons, List.append_assoc]
        rfl
      · rintro ⟨rest, hrest, rfl⟩
        refine ⟨cs ++ rest, hrest, ih.mpr ⟨rest, rfl, ?_⟩⟩
        rw [List.reverse_cons, List.append_assoc]
        rfl

theorem matches_lit {text : String} :
    (lit text).Matches s t ↔ ∃ after, s.after = text.toList ++ after ∧
      t = ⟨text.toList.reverse ++ s.before, after, s.groups⟩ := matches_chars

theorem matches_some1 {greedy : Bool} {p : Char → Bool} :
    (some1 greedy p).Matches s t ↔ ∃ xs after, s.after = xs ++ after ∧ xs ≠ [] ∧
      xs.all p = true ∧ t = ⟨xs.reverse ++ s.before, after, s.groups⟩ := by
  constructor
  · rintro ⟨u, ⟨c, after, ha, hc, rfl⟩, xs, rest, hrest, hxs, rfl⟩
    dsimp only at hrest
    refine ⟨c :: xs, rest, by rw [ha, hrest, List.cons_append], List.cons_ne_nil _ _,
      by simp [hc, hxs], ?_⟩
    rw [List.reverse_cons, List.append_assoc]
    rfl
  · rintro ⟨xs, after, ha, hne, hxs, rfl⟩
    obtain ⟨c, xs, rfl⟩ := List.exists_cons_of_ne_nil hne
    rw [List.all_cons, Bool.and_eq_true] at hxs
    refine ⟨_, ⟨c, xs ++ after, ha, hxs.1, rfl⟩, xs, after, rfl, hxs.2, ?_⟩
    rw [List.reverse_cons, List.append_assoc]
    rfl

/-- What a group of a match has matched. -/
theorem take_sub_length (xs ys : List Char) :
    (xs ++ ys).take ((xs ++ ys).length - ys.length) = xs := by
  rw [List.length_append, Nat.add_sub_cancel, List.take_left]

/-! ## Searching -/

variable {before text xs : List Char} {i : Nat}

theorem matchAt_eq_none : r.matchAt before text = none ↔ ∀ t, ¬ r.Matches ⟨before, text, []⟩ t := by
  constructor
  · intro h t ht
    have hsome := ht.isSome_run (k := some) rfl
    rw [matchAt] at h
    rw [h] at hsome
    cases hsome
  · intro h
    cases hrun : r.matchAt before text with
    | none => rfl
    | some t =>
        obtain ⟨u, hu, -⟩ := matches_of_run hrun
        exact absurd hu (h u)

/-- A match is found where nothing before it matches. -/
theorem searchFrom_eq_some (h : r.searchFrom before text = some (i, t)) :
    ∃ skipped rest, text = skipped ++ rest ∧ i = before.length + skipped.length ∧
      r.matchAt (skipped.reverse ++ before) rest = some t ∧
      ∀ ys zs, skipped = ys ++ zs → zs ≠ [] →
        r.matchAt (ys.reverse ++ before) (zs ++ rest) = none := by
  induction text generalizing before with
  | nil =>
      rw [searchFrom] at h
      cases hmatch : r.matchAt before [] with
      | none =>
          rw [hmatch] at h
          cases h
      | some u =>
          rw [hmatch] at h
          cases h
          exact ⟨[], [], rfl, rfl, hmatch, by simp⟩
  | cons c text ih =>
      rw [searchFrom] at h
      cases hmatch : r.matchAt before (c :: text) with
      | some u =>
          rw [hmatch] at h
          cases h
          exact ⟨[], c :: text, rfl, rfl, hmatch, by simp⟩
      | none =>
          rw [hmatch] at h
          obtain ⟨skipped, rest, rfl, rfl, hm, hfirst⟩ := ih h
          refine ⟨c :: skipped, rest, rfl, by simp only [List.length_cons]; omega, ?_, ?_⟩
          · rw [List.reverse_cons, List.append_assoc]
            exact hm
          · intro ys zs hskipped hzs
            cases ys with
            | nil => rwa [← List.nil_append zs, ← hskipped]
            | cons d ys =>
                rw [List.cons_append, List.cons.injEq] at hskipped
                rw [← hskipped.1, List.reverse_cons, List.append_assoc]
                exact hfirst ys zs hskipped.2 hzs

theorem searchFrom_eq_none (h : r.searchFrom before text = none) :
    ∀ ys zs, text = ys ++ zs → r.matchAt (ys.reverse ++ before) zs = none := by
  induction text generalizing before with
  | nil =>
      rw [searchFrom, Option.map_eq_none_iff] at h
      intro ys zs htext
      obtain ⟨rfl, rfl⟩ := List.append_eq_nil_iff.mp htext.symm
      exact h
  | cons c text ih =>
      rw [searchFrom] at h
      cases hmatch : r.matchAt before (c :: text) with
      | some u =>
          rw [hmatch] at h
          cases h
      | none =>
          rw [hmatch] at h
          intro ys zs htext
          cases ys with
          | nil => rwa [← List.nil_append zs, ← htext]
          | cons d ys =>
              rw [List.cons_append, List.cons.injEq] at htext
              rw [← htext.1, List.reverse_cons, List.append_assoc]
              exact ih h ys zs htext.2

theorem searchFrom_of_matchAt (h : r.matchAt before text = some t) :
    r.searchFrom before text = some (before.length, t) := by
  cases text with
  | nil =>
      rw [searchFrom, h]
      rfl
  | cons c text => rw [searchFrom, h]

/-- Where nothing matches the search goes on. -/
theorem searchFrom_append (h : ∀ ys zs, xs = ys ++ zs → zs ≠ [] → ∀ t,
      ¬ r.Matches ⟨ys.reverse ++ before, zs ++ text, []⟩ t) :
    r.searchFrom before (xs ++ text) = r.searchFrom (xs.reverse ++ before) text := by
  induction xs generalizing before with
  | nil => rfl
  | cons c xs ih =>
      have hnone : r.matchAt before (c :: (xs ++ text)) = none :=
        matchAt_eq_none.mpr (h [] (c :: xs) rfl (List.cons_ne_nil _ _))
      rw [List.cons_append, searchFrom, hnone]
      dsimp only
      rw [ih, List.reverse_cons, List.append_assoc]
      · rfl
      · intro ys zs hxs hne t
        have hfails := h (c :: ys) zs (by rw [hxs, List.cons_append]) hne t
        rwa [List.reverse_cons, List.append_assoc] at hfails

end Openlia.Lib.Regex

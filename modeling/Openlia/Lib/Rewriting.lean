import Openlia.Lib.RegexMatches
import Openlia.Lib.Separators

/-! # Matches substituted

What an expression matches is replaced from left to right. A text that is found wherever it
starts is gone afterwards, if no replacement brings it back.
-/

namespace Openlia.Lib.Regex

/-- `re.sub` of an expression that consumes something. -/
def subFrom (r : Regex) (replace : Cursor → List Char) : Nat → List Char → List Char → List Char
  | 0, _, after => after
  | n + 1, before, after =>
      match r.searchFrom before after with
      | none => after
      | some m =>
          after.take (m.1 - before.length) ++ (replace m.2 ++ subFrom r replace n m.2.before m.2.after)

def sub (r : Regex) (replace : Cursor → List Char) (text : List Char) : List Char :=
  r.subFrom replace (text.length + 1) [] text

variable {r : Regex} {s t : Cursor} {p : List Char}

theorem Matches.length_le (h : r.Matches s t) : t.after.length ≤ s.after.length := by
  induction r generalizing s t with
  | empty => rw [h]
  | char p =>
      obtain ⟨c, after, hafter, -, rfl⟩ := h
      rw [hafter]
      exact Nat.le_succ _
  | look p => rw [h.2]
  | seq r r' ih ih' =>
      obtain ⟨u, hu, ht⟩ := h
      exact (ih' ht).trans (ih hu)
  | alt r r' ih ih' => exact h.elim ih ih'
  | many greedy p =>
      obtain ⟨xs, after, hafter, -, rfl⟩ := h
      rw [hafter, List.length_append]
      exact Nat.le_add_left _ _
  | group name r ih =>
      obtain ⟨u, hu, rfl⟩ := h
      exact @ih s u hu

/-- A text is gone when it is matched wherever it starts, and each replacement stands between two
characters that it does not have. -/
theorem not_infix_sub {replace : Cursor → List Char} {c d : Char}
    (hmatch : ∀ s, p <+: s.after → ∃ t, r.Matches s t)
    (hconsume : ∀ s t, r.Matches s t → t.after.length < s.after.length)
    (hreplace : ∀ t, ∃ mid, replace t = c :: (mid ++ [d]) ∧ ¬ p <:+: mid) (hne : p ≠ [])
    (hc : c ∉ p) (hd : d ∉ p) (text : List Char) : ¬ p <:+: r.sub replace text := by
  suffices hfrom : ∀ n before after, after.length < n → ¬ p <:+: r.subFrom replace n before after from
    hfrom _ _ _ (Nat.lt_succ_self _)
  have hstart : ∀ before s, p <+: s → r.matchAt before s ≠ none := by
    intro before s hp hnone
    obtain ⟨t, ht⟩ := hmatch ⟨before, s, []⟩ hp
    exact matchAt_eq_none.mp hnone t ht
  intro n
  induction n with
  | zero => exact fun before after hlt => absurd hlt (Nat.not_lt_zero _)
  | succ n ih =>
      intro before after hlt hinfix
      rw [subFrom] at hinfix
      cases hsearch : r.searchFrom before after with
      | none =>
          rw [hsearch] at hinfix
          obtain ⟨ys, zs, hafter⟩ := hinfix
          rw [List.append_assoc] at hafter
          exact hstart _ _ (List.prefix_append p zs) (searchFrom_eq_none hsearch ys _ hafter.symm)
      | some m =>
          rw [hsearch] at hinfix
          obtain ⟨skipped, rest, rfl, hi, hat, hfirst⟩ := searchFrom_eq_some hsearch
          obtain ⟨t, ht, heq⟩ := matches_of_run hat
          obtain rfl := Option.some.inj heq
          have hshort : m.2.after.length < rest.length := hconsume _ _ ht
          obtain ⟨mid, hmid, hfree⟩ := hreplace m.2
          dsimp only at hinfix
          rw [hi, Nat.add_sub_cancel_left, List.take_left, hmid, List.cons_append,
            List.append_assoc, List.singleton_append] at hinfix
          rw [List.length_append] at hlt
          -- the text cannot reach over either end of the replacement
          rcases infix_around hc hne hinfix with hskipped | hinfix
          · obtain ⟨ys, zs, rfl⟩ := hskipped
            refine hstart _ (p ++ zs ++ rest) ?_ (hfirst ys (p ++ zs) (List.append_assoc ..) ?_)
            · rw [List.append_assoc]
              exact List.prefix_append ..
            · exact List.append_ne_nil_of_left_ne_nil hne zs
          · rcases infix_around hd hne hinfix with hinside | hrest
            · exact hfree hinside
            · exact ih _ _ (by omega) hrest

end Openlia.Lib.Regex

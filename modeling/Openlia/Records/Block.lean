import Openlia.Records.Frontmatter

/-! # The block of a frontmatter

What stands between the dashes is replaced and found again: the first line stays, and
the text is closed where it was as long as no line of the block is made of dashes.
-/

namespace Openlia.Records

/-! ## Finding the block -/

/-- `([\s\S]*?)\r?\n---[ \t]*(?:\r?\n|$)([\s\S]*)$`. -/
def block? : Text → Option (Text × Text)
  | [] => none
  | c :: s =>
      match (closing? (c :: s)).bind endsLine with
      | some body => some ([], body)
      | none => (block? s).map fun (block, body) => (c :: block, body)

/-- `content.match(/^---[ \t]*\r?\n([\s\S]*?)\r?\n---[ \t]*(?:\r?\n|$)([\s\S]*)$/)`. -/
def frontmatter? (content : Text) : Option (Text × Text) := (opening? content).bind block?

/-- No line but the first closes the block. -/
def Unclosed (block : Text) : Prop := ∀ b, b <:+ block → (closing? b).bind endsLine = none

section Block

variable {s rest block body tail : Text}

theorem block?_split (h : block? s = some (block, body)) :
    ∃ tail, s = block ++ tail ∧ (closing? tail).bind endsLine = some body := by
  induction s generalizing block with
  | nil => cases h
  | cons c s ih =>
      unfold block? at h
      cases hclosing : (closing? (c :: s)).bind endsLine with
      | some body' =>
          rw [hclosing] at h
          cases h
          exact ⟨c :: s, rfl, hclosing⟩
      | none =>
          rw [hclosing] at h
          obtain ⟨⟨block', body'⟩, hblock, heq⟩ := Option.map_eq_some_iff.mp h
          cases heq
          obtain ⟨tail, rfl, htail⟩ := ih hblock
          exact ⟨tail, rfl, htail⟩

/-- A text that begins a line begins with its break. -/
theorem newline?_cases (h : newline? s = some rest) :
    s = '\n' :: rest ∨ s = '\r' :: '\n' :: rest := by
  unfold newline? at h
  split at h
  · cases h
    exact .inl rfl
  · cases h
    exact .inr rfl
  · cases h

theorem closing?_newline (h : (closing? tail).bind endsLine = some body) :
    ∃ rest, newline? tail = some rest := by
  unfold closing? at h
  cases hnewline : newline? tail with
  | none =>
      rw [hnewline] at h
      cases h
  | some rest => exact ⟨rest, rfl⟩

/-- The break after a text is not taken for a part of one within it. -/
theorem newline?_append (hs : s ≠ []) (hlast : s.getLast? ≠ some '\r')
    (h : newline? (s ++ tail) = some rest) :
    ∃ rest', newline? s = some rest' ∧ rest = rest' ++ tail := by
  rcases s with _ | ⟨c, _ | ⟨d, s⟩⟩
  · exact absurd rfl hs
  · rcases newline?_cases h with heq | heq
    · cases heq
      exact ⟨[], rfl, rfl⟩
    · cases heq
      exact absurd rfl hlast
  · rcases newline?_cases h with heq | heq
    · cases heq
      exact ⟨d :: s, rfl, rfl⟩
    · cases heq
      exact ⟨s, rfl, rfl⟩

theorem dashes?_append (htail : newline? tail = some rest)
    (h : dashes? (s ++ tail) = some body) :
    ∃ body', dashes? s = some body' ∧ body = body' ++ tail ∧ body' <:+ s := by
  have hblank : tail.dropWhile isBlank = tail := by
    rcases newline?_cases htail with rfl | rfl <;> rfl
  have hdash : ∀ t, tail ≠ '-' :: t := by
    rcases newline?_cases htail with rfl | rfl <;> exact fun t ht => by cases ht
  have hdashes : ∀ t, dashes? t = some body →
      ∃ u, t = '-' :: '-' :: '-' :: u ∧ body = u.dropWhile isBlank := by
    intro t ht
    unfold dashes? at ht
    split at ht
    · cases ht
      exact ⟨_, rfl, rfl⟩
    · cases ht
  obtain ⟨u, hu, rfl⟩ := hdashes _ h
  rcases s with _ | ⟨c, _ | ⟨d, _ | ⟨e, s⟩⟩⟩
  · exact absurd hu (hdash _)
  · exact absurd (List.cons.inj hu).2 (hdash _)
  · exact absurd (List.cons.inj (List.cons.inj hu).2).2 (hdash _)
  · cases hu
    refine ⟨s.dropWhile isBlank, rfl, ?_, (List.dropWhile_suffix _).trans
      ⟨['-', '-', '-'], rfl⟩⟩
    show (s ++ tail).dropWhile isBlank = s.dropWhile isBlank ++ tail
    rw [List.dropWhile_append]
    split
    · rename_i hnil
      rw [hblank, List.isEmpty_iff.mp hnil, List.nil_append]
    · rfl

/-- Where a text is not closed, it is not closed with what follows on the next line. -/
theorem closing?_append (hs : s ≠ []) (hlast : s.getLast? ≠ some '\r')
    (htail : newline? tail = some rest) (h : (closing? s).bind endsLine = none) :
    (closing? (s ++ tail)).bind endsLine = none := by
  by_contra hne
  obtain ⟨body, hbody⟩ := Option.ne_none_iff_exists'.mp hne
  obtain ⟨after, hclosing, hends⟩ := Option.bind_eq_some_iff.mp hbody
  obtain ⟨line, hline, hdashes⟩ := Option.bind_eq_some_iff.mp hclosing
  obtain ⟨line', hline', rfl⟩ := newline?_append hs hlast hline
  obtain ⟨after', hafter', rfl, hsuffix⟩ := dashes?_append htail hdashes
  rw [closing?, hline', Option.bind_some, hafter', Option.bind_some] at h
  have hend : endsLine after' ≠ none := by
    by_cases hnil : after' = []
    · rw [hnil]
      exact Option.some_ne_none _
    · have hlast' : after'.getLast? ≠ some '\r' := by
        obtain ⟨u, hu⟩ := hsuffix.trans (newline?_consumes s line' hline')
        rwa [← hu, List.getLast?_append_of_ne_nil _ hnil] at hlast
      intro hnone
      unfold endsLine at hends hnone
      cases hbreak : newline? (after' ++ tail) with
      | some t =>
          obtain ⟨t', ht', -⟩ := newline?_append hnil hlast' hbreak
          rw [ht'] at hnone
          cases hnone
      | none =>
          rw [hbreak] at hends
          dsimp only at hends
          rw [if_neg (by simp [hnil])] at hends
          cases hends
  exact hend h

theorem block?_append (hblock : Unclosed block) (hlast : block.getLast? ≠ some '\r')
    (h : (closing? tail).bind endsLine = some body) :
    block? (block ++ tail) = some (block, body) := by
  obtain ⟨rest, htail⟩ := closing?_newline h
  induction block with
  | nil =>
      cases tail with
      | nil => cases htail
      | cons c tail =>
          rw [List.nil_append]
          unfold block?
          rw [h]
  | cons c block ih =>
      have hnone := closing?_append (List.cons_ne_nil c block) hlast htail
        (hblock _ List.suffix_rfl)
      rw [List.cons_append] at hnone ⊢
      unfold block?
      rw [hnone, ih (fun b hb => hblock b (hb.trans (List.suffix_cons c block)))]
      · rfl
      · cases block with
        | nil => exact nofun
        | cons d block => exact hlast

/-! ## The first line -/

/-- The opening line can stand before any text. -/
theorem opening?_split (h : opening? s = some rest) :
    ∃ line, s = line ++ '\n' :: rest ∧ '\n' ∉ line ∧
      ∀ rest', opening? (line ++ '\n' :: rest') = some rest' := by
  obtain ⟨after, hdashes, hnewline⟩ := Option.bind_eq_some_iff.mp h
  unfold dashes? at hdashes
  split at hdashes
  · rename_i u
    cases hdashes
    obtain ⟨hrun, hline⟩ := eq_run_append isBlank u
    have hnot : '\n' ∉ u.takeWhile isBlank := fun hmem => by
      cases List.all_eq_true.mp hrun _ hmem
    rcases newline?_cases hnewline with heq | heq
    · refine ⟨'-' :: '-' :: '-' :: u.takeWhile isBlank, ?_, by simpa using hnot, ?_⟩
      · rw [List.cons_append, List.cons_append, List.cons_append, ← heq, ← hline]
      · intro rest'
        show (newline? ((u.takeWhile isBlank ++ '\n' :: rest').dropWhile isBlank)) = _
        rw [(dropWhile_run hrun (by decide : isBlank '\n' = false)).1]
        rfl
    · refine ⟨'-' :: '-' :: '-' :: (u.takeWhile isBlank ++ ['\r']), ?_, by simpa using hnot, ?_⟩
      · rw [List.cons_append, List.cons_append, List.cons_append, List.append_assoc,
          List.singleton_append, ← heq, ← hline]
      · intro rest'
        show (newline? ((u.takeWhile isBlank ++ ['\r'] ++ '\n' :: rest').dropWhile isBlank)) = _
        rw [List.append_assoc, List.singleton_append,
          (dropWhile_run hrun (by decide : isBlank '\r' = false)).1]
        rfl
  · cases hdashes

/-- The parts of a text with frontmatter. -/
theorem frontmatter?_split (h : frontmatter? s = some (block, body)) :
    ∃ line tail, s = line ++ '\n' :: (block ++ tail) ∧ '\n' ∉ line ∧
      (closing? tail).bind endsLine = some body ∧
      ∀ block', Unclosed block' → block'.getLast? ≠ some '\r' →
        frontmatter? (line ++ '\n' :: (block' ++ tail)) = some (block', body) := by
  obtain ⟨rest, hopening, hblock⟩ := Option.bind_eq_some_iff.mp h
  obtain ⟨line, rfl, hline, hopens⟩ := opening?_split hopening
  obtain ⟨tail, rfl, htail⟩ := block?_split hblock
  refine ⟨line, tail, rfl, hline, htail, fun block' hunclosed hlast => ?_⟩
  rw [frontmatter?, hopens, Option.bind_some]
  exact block?_append hunclosed hlast htail

/-- The body is the one that is shown. -/
theorem bodyAfter_of_frontmatter? (h : frontmatter? s = some (block, body)) :
    bodyAfter endsLine s = body := by
  obtain ⟨rest, hopening, hblock⟩ := Option.bind_eq_some_iff.mp h
  have hafter : ∀ t, afterClosing endsLine t = (block? t).map Prod.snd := by
    intro t
    induction t with
    | nil => rfl
    | cons c t ih =>
        unfold afterClosing block?
        cases (closing? (c :: t)).bind endsLine with
        | some body' => rfl
        | none =>
            dsimp only
            rw [ih, Option.map_map]
            rfl
  rw [bodyAfter, hopening, Option.bind_some, hafter, hblock]
  rfl

theorem bodyAfter_of_none (h : frontmatter? s = none) : bodyAfter endsLine s = s := by
  have hafter : ∀ t, block? t = none → afterClosing endsLine t = none := by
    intro t ht
    induction t with
    | nil => rfl
    | cons c t ih =>
        unfold block? at ht
        unfold afterClosing
        cases hclosing : (closing? (c :: t)).bind endsLine with
        | some body' =>
            rw [hclosing] at ht
            cases ht
        | none =>
            rw [hclosing] at ht
            exact ih (Option.map_eq_none_iff.mp ht)
  unfold bodyAfter
  cases hopening : opening? s with
  | none => rfl
  | some rest =>
      rw [frontmatter?, hopening] at h
      rw [Option.bind_some, hafter rest h]
      rfl

end Block

end Openlia.Records

import Openlia.Usage.Collector

/-! # The identity of a row in two languages

The collector and the runner hash a JSON list of six strings. The two texts are
one text unless a string holds a line or paragraph separator, which only Go
escapes; texts of different rows always differ, and no text of an earlier release
is one of these.
-/

namespace Openlia.Usage

open Lib

theorem isLineSeparator_lt {c : Char} (h : isLineSeparator c = true) : c.toNat < 65536 := by
  simp only [isLineSeparator, Bool.or_eq_true, beq_iff_eq] at h
  omega

theorem isControl_lt {c : Char} (h : isControl c = true) : c.toNat < 65536 := by
  simp only [isControl, decide_eq_true_eq] at h
  omega

theorem goHex_lt (c : Char) (h : (isControl c || isLineSeparator c) = true) : c.toNat < 65536 :=
  (Bool.or_eq_true _ _ ▸ h).elim isControl_lt isLineSeparator_lt

/-- What the literals of two encoders tell of the strings. -/
structure Encoders (code code' : CharCode) : Prop where
  compatible : code.Compatible code'
  divergent : code.Divergent code'
  noQuote : ∀ {c : Char} {r r' : List Char}, code c ++ r ≠ '"' :: r'
  noQuote' : ∀ {c : Char} {r r' : List Char}, code' c ++ r ≠ '"' :: r'

theorem stdStd : Encoders stdEscape stdEscape where
  compatible := escapeWith_compatible (fun _ => isControl_lt) fun _ => isControl_lt
  divergent := escapeWith_divergent _ _
  noQuote := escapeWith_noQuote
  noQuote' := escapeWith_noQuote

theorem goStd : Encoders goEscape stdEscape where
  compatible := escapeWith_compatible goHex_lt fun _ => isControl_lt
  divergent := escapeWith_divergent _ _
  noQuote := escapeWith_noQuote
  noQuote' := escapeWith_noQuote

theorem asciiStd : Encoders asciiEscape stdEscape where
  compatible := asciiEscape_compatible fun _ => isControl_lt
  divergent := asciiEscape_divergent fun _ => isControl_lt
  noQuote := asciiEscape_noQuote
  noQuote' := escapeWith_noQuote

section Texts

variable {code code' : CharCode}

theorem Encoders.literal (h : Encoders code code') {s t : String} {r r' : List Char}
    (he : quoteWith code s.toList ++ r = quoteWith code' t.toList ++ r') :
    s = t ∧ (∀ c ∈ s.toList, code c = code' c) ∧ r = r' := by
  obtain ⟨hst, hagree, hr⟩ := quoteWith_compatible h.compatible h.divergent h.noQuote h.noQuote' he
  exact ⟨String.toList_injective hst, hagree, hr⟩

/-- The codes agree in every string of the row. -/
def Agree (code code' : CharCode) (v : RowKey) : Prop :=
  ∀ s ∈ v.values, ∀ c ∈ s.toList, code c = code' c

theorem listText_six (code : CharCode) (v : RowKey) :
    identityText code v = '[' :: (quoteWith code v.session.toList ++
      ',' :: (quoteWith code v.model.toList ++ ',' :: (quoteWith code v.provider.toList ++
        ',' :: (quoteWith code v.base.toList ++ ',' :: (quoteWith code v.mode.toList ++
          ',' :: (quoteWith code v.task.toList ++ [']'])))))) := by
  simp [identityText, listText, RowKey.values, List.intercalate, List.intersperse]

/-- Identities that are one text are identities of one row in which the codes agree. -/
theorem Encoders.identity (h : Encoders code code') {v w : RowKey}
    (he : identityText code v = identityText code' w) : v = w ∧ Agree code code' v := by
  rw [listText_six, listText_six] at he
  obtain ⟨h₁, a₁, he⟩ := h.literal (List.cons.inj he).2
  obtain ⟨h₂, a₂, he⟩ := h.literal (List.cons.inj he).2
  obtain ⟨h₃, a₃, he⟩ := h.literal (List.cons.inj he).2
  obtain ⟨h₄, a₄, he⟩ := h.literal (List.cons.inj he).2
  obtain ⟨h₅, a₅, he⟩ := h.literal (List.cons.inj he).2
  obtain ⟨h₆, a₆, -⟩ := h.literal (List.cons.inj he).2
  constructor
  · cases v
    cases w
    simp_all only
  · simp only [Agree, RowKey.values, List.mem_cons, List.not_mem_nil, or_false, forall_eq_or_imp,
      forall_eq]
    exact ⟨a₁, a₂, a₃, a₄, a₅, a₆⟩

theorem identityText_congr {v : RowKey} (h : Agree code code' v) :
    identityText code v = identityText code' v := by
  unfold identityText
  congr 1
  exact List.map_congr_left fun s hs => quoteWith_congr (h s hs)

end Texts

/-- A string of the row holds a line or a paragraph separator. -/
def RowKey.Separated (v : RowKey) : Prop := ∃ s ∈ v.values, s.toList.any isLineSeparator = true

instance (v : RowKey) : Decidable v.Separated :=
  inferInstanceAs (Decidable (∃ s ∈ v.values, s.toList.any isLineSeparator = true))

/-- Go and Python write a character differently when it is a separator. -/
theorem goEscape_eq_iff (c : Char) : goEscape c = stdEscape c ↔ isLineSeparator c = false := by
  unfold goEscape stdEscape
  constructor
  · intro h
    by_contra hsep
    rw [Bool.not_eq_false] at hsep
    have hnone : shortEscape c = none := by
      cases hs : shortEscape c with
      | none => rfl
      | some x =>
          have hall : ∀ p ∈ shortEscapes, isLineSeparator p.1 = false := by decide
          rw [hall _ (mem_shortEscapes hs)] at hsep
          cases hsep
    have hcontrol : isControl c = false := by
      simp only [isLineSeparator, Bool.or_eq_true, beq_iff_eq] at hsep
      simp only [isControl, decide_eq_false_iff_not]
      omega
    rw [escapeWith, escapeWith, hnone] at h
    simp [hsep, hcontrol, unicodeEscape] at h
  · intro hsep
    rw [escapeWith, escapeWith, hsep, Bool.or_false]

theorem agree_goStd_iff (v : RowKey) : Agree goEscape stdEscape v ↔ ¬ v.Separated := by
  unfold Agree RowKey.Separated
  simp only [goEscape_eq_iff, not_exists, not_and, List.any_eq_true, not_exists, not_and,
    Bool.not_eq_true]

section Keys

variable {C D : Type} {env : UsageEnv C D} {v w : RowKey}

theorem source_key_injective (h : env.source_key v = env.source_key w) : v = w :=
  (stdStd.identity (env.sha256_injective h)).1

theorem eq_of_source_checkpoint (h : env.source_checkpoint v = env.source_key w) :
    v = w ∧ ¬ v.Separated := by
  obtain ⟨hvw, hagree⟩ := goStd.identity (env.sha256_injective h)
  exact ⟨hvw, (agree_goStd_iff v).mp hagree⟩

/-- The two identities of a row are equal unless a string of it is separated. -/
theorem source_checkpoint_eq_iff (env : UsageEnv C D) (v : RowKey) :
    env.source_checkpoint v = env.source_key v ↔ ¬ v.Separated := by
  constructor
  · exact fun h => (eq_of_source_checkpoint h).2
  · intro h
    exact congrArg env.sha256 (identityText_congr ((agree_goStd_iff v).mpr h))

/-- An earlier release has other checkpoints. -/
theorem legacy_key_ne (row : UsageRow C) (v : RowKey) : env.legacy_key row ≠ env.source_key v := by
  intro h
  have he := env.sha256_injective h
  rw [listText_six, UsageRow.legacyText, listText] at he
  simp only [UsageRow.rawValues, List.map_cons, List.map_nil, List.intercalate, List.intersperse,
    List.flatten_cons, List.cons.injEq, true_and, List.append_assoc] at he
  cases hs : row.session_id with
  | none => simp [hs, quoteWith] at he
  | some s =>
      rw [hs] at he
      obtain ⟨-, -, hr⟩ := asciiStd.literal he
      simp [quoteWith] at hr

end Keys

end Openlia.Usage

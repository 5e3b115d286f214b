import Mathlib.Tactic.Common

/-! # JSON string literals

An encoder writes a string literal character by character between two quotes.
It is described by the word it writes for each character; encoders differ in the
characters they write as `\uXXXX`. When no word is a prefix of another
character's word and none starts with a quote, a literal followed by anything
determines the string and what follows it.
-/

namespace Openlia.Lib

/-- The word an encoder writes for a character inside a literal. -/
abbrev CharCode := Char → List Char

/-- Whatever follows, a word is not mistaken for another character's word nor
for the closing quote. -/
structure CharCode.Decodable (code : CharCode) : Prop where
  cancel : ∀ {c d : Char} {r r' : List Char}, code c ++ r = code d ++ r' → c = d
  noQuote : ∀ {c : Char} {r r' : List Char}, code c ++ r ≠ '"' :: r'

/-- A string literal. -/
def quoteWith (code : CharCode) (s : List Char) : List Char :=
  '"' :: (s.flatMap code ++ ['"'])

theorem flatMap_cancel {code : CharCode} (h : code.Decodable) {s t r r' : List Char}
    (he : s.flatMap code ++ '"' :: r = t.flatMap code ++ '"' :: r') : s = t ∧ r = r' := by
  induction s generalizing t with
  | nil =>
      cases t with
      | nil => simpa using he
      | cons d t =>
          rw [List.flatMap_cons, List.append_assoc] at he
          exact absurd he.symm h.noQuote
  | cons c s ih =>
      cases t with
      | nil =>
          rw [List.flatMap_cons, List.append_assoc] at he
          exact absurd he h.noQuote
      | cons d t =>
          rw [List.flatMap_cons, List.flatMap_cons, List.append_assoc, List.append_assoc] at he
          obtain rfl := h.cancel he
          obtain ⟨rfl, hr⟩ := ih (List.append_cancel_left he)
          exact ⟨rfl, hr⟩

/-- A literal and what follows it can be told apart. -/
theorem quoteWith_cancel {code : CharCode} (h : code.Decodable) {s t r r' : List Char}
    (he : quoteWith code s ++ r = quoteWith code t ++ r') : s = t ∧ r = r' := by
  simp only [quoteWith, List.cons_append, List.append_assoc, List.cons.injEq, true_and,
    List.nil_append] at he
  exact flatMap_cancel h he

/-- Two codes under which a character never begins two equal texts unless its
words are one word. -/
def CharCode.Divergent (code code' : CharCode) : Prop :=
  ∀ {c : Char} {r r' : List Char}, code c ++ r = code' c ++ r' → code c = code' c

theorem quoteWith_agree {code code' : CharCode} (h : code.Divergent code') {s r r' : List Char}
    (he : quoteWith code s ++ r = quoteWith code' s ++ r') :
    (∀ c ∈ s, code c = code' c) ∧ r = r' := by
  simp only [quoteWith, List.cons_append, List.append_assoc, List.cons.injEq, true_and,
    List.nil_append] at he
  induction s with
  | nil => simpa using he
  | cons c s ih =>
      rw [List.flatMap_cons, List.flatMap_cons, List.append_assoc, List.append_assoc] at he
      have hc := h he
      rw [hc] at he
      obtain ⟨hs, hr⟩ := ih (List.append_cancel_left he)
      refine ⟨fun d hd => ?_, hr⟩
      rcases List.mem_cons.mp hd with rfl | hd
      · exact hc
      · exact hs d hd

/-- Words of two codes that begin one text are words of one character. -/
def CharCode.Compatible (code code' : CharCode) : Prop :=
  ∀ {c d : Char} {r r' : List Char}, code c ++ r = code' d ++ r' → c = d

/-- Literals of two codes that begin one text are literals of one string, in which
the codes agree. -/
theorem quoteWith_compatible {code code' : CharCode} (hc : code.Compatible code')
    (hd : code.Divergent code') (hq : ∀ {c : Char} {r r' : List Char}, code c ++ r ≠ '"' :: r')
    (hq' : ∀ {c : Char} {r r' : List Char}, code' c ++ r ≠ '"' :: r') {s t r r' : List Char}
    (he : quoteWith code s ++ r = quoteWith code' t ++ r') :
    s = t ∧ (∀ c ∈ s, code c = code' c) ∧ r = r' := by
  have hst : s = t := by
    simp only [quoteWith, List.cons_append, List.append_assoc, List.cons.injEq, true_and,
      List.nil_append] at he
    induction s generalizing t with
    | nil =>
        cases t with
        | nil => rfl
        | cons d t =>
            rw [List.flatMap_cons, List.append_assoc] at he
            exact absurd he.symm hq'
    | cons c s ih =>
        cases t with
        | nil =>
            rw [List.flatMap_cons, List.append_assoc] at he
            exact absurd he hq
        | cons d t =>
            rw [List.flatMap_cons, List.flatMap_cons, List.append_assoc, List.append_assoc] at he
            obtain rfl := hc he
            rw [hd he] at he
            rw [ih (List.append_cancel_left he)]
  subst hst
  exact ⟨rfl, quoteWith_agree hd he⟩

theorem quoteWith_congr {code code' : CharCode} {s : List Char} (h : ∀ c ∈ s, code c = code' c) :
    quoteWith code s = quoteWith code' s := by
  have : s.flatMap code = s.flatMap code' := by
    induction s with
    | nil => rfl
    | cons c s ih =>
        rw [List.flatMap_cons, List.flatMap_cons, h c List.mem_cons_self,
          ih fun d hd => h d (List.mem_cons_of_mem c hd)]
  rw [quoteWith, quoteWith, this]

/-! ## The escapes of JSON -/

/-- A lowercase hexadecimal digit. -/
def hexDigit (n : Nat) : Char := if n < 10 then Char.ofNat (48 + n) else Char.ofNat (87 + n)

theorem hexDigit_inj : ∀ m < 16, ∀ n < 16, hexDigit m = hexDigit n → m = n := by decide

/-- `\uXXXX`, for a character of the basic plane. -/
def unicodeEscape (c : Char) : List Char :=
  ['\\', 'u', hexDigit (c.toNat / 4096 % 16), hexDigit (c.toNat / 256 % 16),
    hexDigit (c.toNat / 16 % 16), hexDigit (c.toNat % 16)]

/-- The characters with an escape of two characters, and the second of these. -/
def shortEscapes : List (Char × Char) :=
  [('"', '"'), ('\\', '\\'), ('\x08', 'b'), ('\x0c', 'f'), ('\n', 'n'), ('\r', 'r'), ('\t', 't')]

def shortEscape (c : Char) : Option Char := shortEscapes.lookup c

/-- Escape the quote, the backslash and the named controls by their short form
and the characters in `hex` by `\uXXXX`; write the others as they are. -/
def escapeWith (hex : Char → Bool) : CharCode := fun c =>
  match shortEscape c with
  | some x => ['\\', x]
  | none => if hex c then unicodeEscape c else [c]

theorem mem_shortEscapes {c x : Char} (h : shortEscape c = some x) : (c, x) ∈ shortEscapes := by
  obtain ⟨l₁, l₂, he, -⟩ := List.lookup_eq_some_iff.mp h
  exact he ▸ by simp

theorem shortEscape_inj {c d x : Char} (hc : shortEscape c = some x) (hd : shortEscape d = some x) :
    c = d :=
  have hinj : ∀ p ∈ shortEscapes, ∀ q ∈ shortEscapes, p.2 = q.2 → p.1 = q.1 := by decide
  hinj _ (mem_shortEscapes hc) _ (mem_shortEscapes hd) rfl

theorem shortEscape_ne_u {c x : Char} (h : shortEscape c = some x) : x ≠ 'u' :=
  have hne : ∀ p ∈ shortEscapes, p.2 ≠ 'u' := by decide
  hne _ (mem_shortEscapes h)

theorem unicodeEscape_inj {c d : Char} (hc : c.toNat < 65536) (hd : d.toNat < 65536)
    {r r' : List Char} (h : unicodeEscape c ++ r = unicodeEscape d ++ r') : c = d := by
  simp only [unicodeEscape, List.cons_append, List.cons.injEq, true_and, List.nil_append] at h
  obtain ⟨h₁, h₂, h₃, h₄, -⟩ := h
  have h₁ := hexDigit_inj _ (Nat.mod_lt _ (by omega)) _ (Nat.mod_lt _ (by omega)) h₁
  have h₂ := hexDigit_inj _ (Nat.mod_lt _ (by omega)) _ (Nat.mod_lt _ (by omega)) h₂
  have h₃ := hexDigit_inj _ (Nat.mod_lt _ (by omega)) _ (Nat.mod_lt _ (by omega)) h₃
  have h₄ := hexDigit_inj _ (Nat.mod_lt _ (by omega)) _ (Nat.mod_lt _ (by omega)) h₄
  exact Char.toNat_inj.mp (by omega)

/-- A word is one character other than the quote and the backslash, or starts
with a backslash. -/
theorem escapeWith_cases (hex : Char → Bool) (c : Char) :
    (∃ x, shortEscape c = some x ∧ escapeWith hex c = ['\\', x]) ∨
    (hex c = true ∧ shortEscape c = none ∧ escapeWith hex c = unicodeEscape c) ∨
    (hex c = false ∧ c ≠ '"' ∧ c ≠ '\\' ∧ escapeWith hex c = [c]) := by
  unfold escapeWith
  cases hs : shortEscape c with
  | some x => exact .inl ⟨x, rfl, rfl⟩
  | none =>
      cases hh : hex c with
      | true => exact .inr (.inl ⟨rfl, rfl, by simp⟩)
      | false =>
          refine .inr (.inr ⟨rfl, ?_, ?_, by simp⟩)
          · rintro rfl
            cases hs
          · rintro rfl
            cases hs

/-- Two encoders of this kind write one text for one character only. -/
theorem escapeWith_compatible {hex hex' : Char → Bool} (hhex : ∀ c, hex c = true → c.toNat < 65536)
    (hhex' : ∀ c, hex' c = true → c.toNat < 65536) :
    (escapeWith hex).Compatible (escapeWith hex') := by
  intro c d r r' h
  rcases escapeWith_cases hex c with ⟨x, hx, hc⟩ | ⟨hc', -, hc⟩ | ⟨-, -, hne, hc⟩ <;>
    rcases escapeWith_cases hex' d with ⟨y, hy, hd⟩ | ⟨hd', -, hd⟩ | ⟨-, -, hne', hd⟩ <;>
    rw [hc, hd] at h
  · simp only [List.cons_append, List.cons.injEq, true_and] at h
    exact shortEscape_inj hx (h.1 ▸ hy)
  · simp only [unicodeEscape, List.cons_append, List.cons.injEq, true_and] at h
    exact absurd h.1 (shortEscape_ne_u hx)
  · simp only [List.cons_append, List.cons.injEq] at h
    exact absurd h.1.symm hne'
  · simp only [unicodeEscape, List.cons_append, List.cons.injEq, true_and] at h
    exact absurd h.1.symm (shortEscape_ne_u hy)
  · exact unicodeEscape_inj (hhex c hc') (hhex' d hd') h
  · simp only [unicodeEscape, List.cons_append, List.cons.injEq] at h
    exact absurd h.1.symm hne'
  · simp only [List.cons_append, List.cons.injEq] at h
    exact absurd h.1 hne
  · simp only [unicodeEscape, List.cons_append, List.cons.injEq] at h
    exact absurd h.1 hne
  · simp only [List.cons_append, List.cons.injEq] at h
    exact h.1

theorem escapeWith_noQuote {hex : Char → Bool} {c : Char} {r r' : List Char} :
    escapeWith hex c ++ r ≠ '"' :: r' := by
  intro h
  rcases escapeWith_cases hex c with ⟨x, -, hc⟩ | ⟨-, -, hc⟩ | ⟨-, hne, -, hc⟩ <;> rw [hc] at h
  · simp at h
  · simp [unicodeEscape] at h
  · simp only [List.cons_append, List.cons.injEq] at h
    exact hne h.1

theorem escapeWith_decodable {hex : Char → Bool} (hhex : ∀ c, hex c = true → c.toNat < 65536) :
    (escapeWith hex).Decodable where
  cancel h := escapeWith_compatible hhex hhex h
  noQuote := escapeWith_noQuote

/-- Two encoders of this kind write different first characters where they differ. -/
theorem escapeWith_divergent (hex hex' : Char → Bool) :
    (escapeWith hex).Divergent (escapeWith hex') := by
  intro c r r' h
  rcases escapeWith_cases hex c with ⟨x, hx, hc⟩ | ⟨-, hs, hc⟩ | ⟨-, -, hne, hc⟩ <;>
    rcases escapeWith_cases hex' c with ⟨y, hy, hd⟩ | ⟨-, hs', hd⟩ | ⟨-, -, hne', hd⟩
  · rw [hc, hd, Option.some.inj (hx.symm.trans hy)]
  · rw [hs'] at hx
    cases hx
  · rw [hc, hd] at h
    exact absurd (List.cons.inj h).1.symm hne'
  · rw [hs] at hy
    cases hy
  · rw [hc, hd]
  · rw [hc, hd] at h
    exact absurd (List.cons.inj h).1.symm hne'
  · rw [hc, hd] at h
    exact absurd (List.cons.inj h).1 hne
  · rw [hc, hd] at h
    exact absurd (List.cons.inj h).1 hne
  · rw [hc, hd]

/-- The C0 controls, which no JSON text may hold as they are. -/
def isControl (c : Char) : Bool := decide (c.toNat < 32)

/-- `JSON.stringify` and Python's `json.dumps(ensure_ascii=False)`. -/
def stdEscape : CharCode := escapeWith isControl

theorem stdEscape_decodable : stdEscape.Decodable :=
  escapeWith_decodable fun c h => by
    simp only [isControl, decide_eq_true_eq] at h
    omega

/-! ## ASCII -/

/-- Two escapes, for a character beyond the basic plane. -/
def surrogateEscape (c : Char) : List Char :=
  let high := 0xd800 + (c.toNat - 0x10000) / 1024
  let low := 0xdc00 + (c.toNat - 0x10000) % 1024
  ['\\', 'u', hexDigit (high / 4096 % 16), hexDigit (high / 256 % 16), hexDigit (high / 16 % 16),
    hexDigit (high % 16), '\\', 'u', hexDigit (low / 4096 % 16), hexDigit (low / 256 % 16),
    hexDigit (low / 16 % 16), hexDigit (low % 16)]

/-- A character of the basic plane that is not printable ASCII. -/
def isPlaneNonAscii (c : Char) : Bool :=
  decide (c.toNat < 32) || decide (126 < c.toNat) && decide (c.toNat < 65536)

/-- Python's `json.dumps`, which writes ASCII only. -/
def asciiEscape : CharCode := fun c =>
  if 65536 ≤ c.toNat then surrogateEscape c else escapeWith isPlaneNonAscii c

theorem isPlaneNonAscii_lt (c : Char) (h : isPlaneNonAscii c = true) : c.toNat < 65536 := by
  simp only [isPlaneNonAscii, Bool.or_eq_true, decide_eq_true_eq, Bool.and_eq_true] at h
  omega

/-- No character of the basic plane has the digits of a high surrogate. -/
theorem surrogateEscape_ne {c d : Char} {r r' : List Char} (hd : d.toNat < 65536)
    (hc : 65536 ≤ c.toNat) : surrogateEscape c ++ r ≠ unicodeEscape d ++ r' := by
  intro h
  simp only [surrogateEscape, unicodeEscape, List.cons_append, List.cons.injEq, true_and,
    List.nil_append] at h
  obtain ⟨h₁, h₂, -⟩ := h
  have h₁ := hexDigit_inj _ (Nat.mod_lt _ (by omega)) _ (Nat.mod_lt _ (by omega)) h₁
  have h₂ := hexDigit_inj _ (Nat.mod_lt _ (by omega)) _ (Nat.mod_lt _ (by omega)) h₂
  have hmax : c.toNat < 0x110000 := by
    rcases c.valid with hv | hv
    · exact Nat.lt_trans hv (by decide)
    · exact hv.2
  rcases d.valid with hv | hv
  · have hlt : d.toNat < 0xd800 := hv
    omega
  · have hlt : 0xdfff < d.toNat := hv.1
    omega

section Ascii

variable {hex : Char → Bool} (hhex : ∀ c, hex c = true → c.toNat < 65536)
include hhex

theorem asciiEscape_compatible : asciiEscape.Compatible (escapeWith hex) := by
  intro c d r r' h
  unfold asciiEscape at h
  split at h
  · rename_i hc
    rcases escapeWith_cases hex d with ⟨y, hy, hd⟩ | ⟨hd', -, hd⟩ | ⟨-, -, hne, hd⟩ <;> rw [hd] at h
    · simp only [surrogateEscape, List.cons_append, List.cons.injEq, true_and] at h
      exact absurd h.1.symm (shortEscape_ne_u hy)
    · exact absurd h (surrogateEscape_ne (hhex d hd') hc)
    · simp only [surrogateEscape, List.cons_append, List.cons.injEq] at h
      exact absurd h.1.symm hne
  · exact escapeWith_compatible isPlaneNonAscii_lt hhex h

theorem asciiEscape_divergent : asciiEscape.Divergent (escapeWith hex) := by
  intro c r r' h
  by_cases hc : 65536 ≤ c.toNat
  · have hword : asciiEscape c = surrogateEscape c := if_pos hc
    rw [hword] at h
    rcases escapeWith_cases hex c with ⟨y, hy, hd⟩ | ⟨hd', -, -⟩ | ⟨-, -, hne, hd⟩
    · rw [hd] at h
      simp only [surrogateEscape, List.cons_append, List.cons.injEq, true_and] at h
      exact absurd h.1.symm (shortEscape_ne_u hy)
    · exact absurd (hhex c hd') (Nat.not_lt.mpr hc)
    · rw [hd] at h
      simp only [surrogateEscape, List.cons_append, List.cons.injEq] at h
      exact absurd h.1.symm hne
  · have hword : asciiEscape c = escapeWith isPlaneNonAscii c := if_neg hc
    rw [hword] at h ⊢
    exact escapeWith_divergent _ _ h

end Ascii

theorem asciiEscape_noQuote {c : Char} {r r' : List Char} : asciiEscape c ++ r ≠ '"' :: r' := by
  unfold asciiEscape
  split
  · simp [surrogateEscape]
  · exact escapeWith_noQuote

end Openlia.Lib

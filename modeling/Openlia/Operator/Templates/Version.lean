import Mathlib.Data.List.TakeWhile
import Mathlib.Data.Prod.Lex
import Openlia.Lib.Numerals
import Openlia.Lib.Separators

/-! # The version gate

A template names the least runtime it works with. The operator and the UI compare it
with the deployed runtime, each in its own language.
-/

namespace Openlia.Templates

open Lib

abbrev Text := List Char

/-! ## The patterns -/

/-- `(0|[1-9][0-9]*)`. -/
def component? : Text → Option (Text × Text)
  | [] => none
  | c :: s =>
      if c = '0' then some (['0'], s)
      else if c.isDigit then some (c :: s.takeWhile Char.isDigit, s.dropWhile Char.isDigit)
      else none

/-- One character. -/
def char? (c : Char) : Text → Option Text
  | [] => none
  | d :: s => if d = c then some s else none

structure Release where
  major : Text
  minor : Text
  patch : Text
  deriving DecidableEq

/-- `(0|[1-9][0-9]*)\.(0|[1-9][0-9]*)\.(0|[1-9][0-9]*)`. -/
def release? (s : Text) : Option (Release × Text) := do
  let (major, s) ← component? s
  let (minor, s) ← (char? '.' s).bind component?
  let (patch, s) ← (char? '.' s).bind component?
  some (⟨major, minor, patch⟩, s)

/-- `^>=(0|[1-9][0-9]*)\.(0|[1-9][0-9]*)\.(0|[1-9][0-9]*)$`. -/
def minimumPattern (requirement : Text) : Option Release := do
  let s ← (char? '>' requirement).bind (char? '=')
  let (minimum, s) ← release? s
  if s = [] then some minimum else none

def isIdentifierChar (c : Char) : Bool := c.isAlphanum || c = '-'

/-- `^[0-9A-Za-z-]+(?:\.[0-9A-Za-z-]+)*$`. -/
def dotted (s : Text) : Bool :=
  (s.splitOn '.').all fun part => part ≠ [] && part.all isIdentifierChar

/-- `^(?:\+[0-9A-Za-z-]+(?:\.[0-9A-Za-z-]+)*)?$`. -/
def isBuild : Text → Bool
  | [] => true
  | c :: s => c = '+' && dotted s

/-- The fourth group is empty where it matches nothing. -/
structure Runtime where
  release : Release
  prerelease : Text
  deriving DecidableEq

/-- `^v?(0|[1-9][0-9]*)\.(0|[1-9][0-9]*)\.(0|[1-9][0-9]*)` and then
`(-[0-9A-Za-z-]+(?:\.[0-9A-Za-z-]+)*)?(?:\+[0-9A-Za-z-]+(?:\.[0-9A-Za-z-]+)*)?$`. -/
def runtimePattern (version : Text) : Option Runtime := do
  let (release, s) ← release? ((char? 'v' version).getD version)
  match char? '-' s with
  | some s =>
      if dotted (s.takeWhile (· ≠ '+')) && isBuild (s.dropWhile (· ≠ '+')) then
        some ⟨release, '-' :: s.takeWhile (· ≠ '+')⟩
      else none
  | none => if isBuild s then some ⟨release, []⟩ else none

/-- The loop over the three groups: the first difference decides. -/
def firstDifference : List (Text × Text) → Option Bool
  | [] => none
  | (actual, minimum) :: rest =>
      if actual.length ≠ minimum.length then some (decide (minimum.length < actual.length))
      else if actual ≠ minimum then some (decide (minimum < actual))
      else firstDifference rest

def groups (actual minimum : Release) : List (Text × Text) :=
  [(actual.major, minimum.major), (actual.minor, minimum.minor), (actual.patch, minimum.patch)]

/-! ## The operator -/

namespace Go

/-- `strings.Trim` of the digits. -/
def trimDigits (s : Text) : Text :=
  ((s.dropWhile Char.isDigit).reverse.dropWhile Char.isDigit).reverse

def leadingZero (part : Text) : Bool :=
  1 < part.length && part.head? = some '0' && trimDigits part = []

section Go

-- The text of `%q`.
variable (quote : Text → String)

def validateOpenLiaRequirement (requirement : Text) : Except String Unit :=
  if requirement ≠ [] ∧ minimumPattern requirement = none then
    .error ("requires.openlia must be a minimum stable version such as \">=1.2.3\", got " ++
      quote requirement)
  else .ok ()

def invalidVersion (version : Text) : Except String Bool :=
  .error ("invalid deployed runtime version " ++ quote version)

def runtimeMeetsMinimum (version requirement : Text) : Except String Bool := do
  validateOpenLiaRequirement quote requirement
  match runtimePattern version with
  | none => invalidVersion quote version
  | some actual =>
      if actual.prerelease ≠ [] ∧ ((actual.prerelease.drop 1).splitOn '.').any leadingZero then
        invalidVersion quote version
      else
        match minimumPattern requirement with
        | none => .ok true
        | some minimum =>
            .ok ((firstDifference (groups actual.release minimum)).getD
              (actual.prerelease = []))

end Go

end Go

/-! ## The UI -/

namespace Ui

structure WorkspaceError where
  message : String
  status : Nat
  code : String

/-- `/^0[0-9]+$/`. -/
def leadingZero : Text → Bool
  | [] => false
  | c :: s => c = '0' && (s ≠ [] && s.all Char.isDigit)

def runtimeMeetsMinimum (version requirement : Text) : Except WorkspaceError Bool :=
  match minimumPattern requirement with
  | none => .error ⟨"requires.openlia must be a minimum stable version such as \">=1.2.3\"", 400,
      "invalid_template_compatibility"⟩
  | some minimum =>
      let invalid : Except WorkspaceError Bool :=
        .error ⟨"Deployed Workspace UI release identity has an invalid runtime version", 409,
          "runtime_identity_unavailable"⟩
      match runtimePattern version with
      | none => invalid
      | some actual =>
          if actual.prerelease ≠ [] ∧ ((actual.prerelease.drop 1).splitOn '.').any leadingZero then
            invalid
          else
            .ok ((firstDifference (groups actual.release minimum)).getD (actual.prerelease = []))

end Ui

/-! ## Both agree -/

theorem trimDigits_eq_nil (s : Text) : Go.trimDigits s = [] ↔ s.all Char.isDigit = true := by
  rw [Go.trimDigits, List.reverse_eq_nil_iff, List.dropWhile_eq_nil_iff, List.all_eq_true]
  constructor
  · intro h c hc
    rw [← @List.takeWhile_append_dropWhile _ Char.isDigit s] at hc
    rcases List.mem_append.mp hc with hc | hc
    · exact List.mem_takeWhile_imp hc
    · exact h c (List.mem_reverse.mpr hc)
  · intro h c hc
    exact h c ((List.dropWhile_suffix _).subset (List.mem_reverse.mp hc))

theorem leadingZero_eq (part : Text) : Go.leadingZero part = Ui.leadingZero part := by
  rw [Bool.eq_iff_iff]
  cases part with
  | nil => simp [Go.leadingZero, Ui.leadingZero]
  | cons c s =>
      simp only [Go.leadingZero, Ui.leadingZero, Bool.and_eq_true, decide_eq_true_eq,
        trimDigits_eq_nil, List.all_cons, List.head?_cons, Option.some.injEq, List.length_cons]
      have hlength : 1 < s.length + 1 ↔ s ≠ [] := by
        rw [← List.length_pos_iff]
        omega
      rw [hlength]
      constructor
      · rintro ⟨⟨hs, hc⟩, -, hdigits⟩
        exact ⟨hc, hs, hdigits⟩
      · rintro ⟨rfl, hs, hdigits⟩
        exact ⟨⟨hs, rfl⟩, rfl, hdigits⟩

theorem runtimeMeetsMinimum_agree (quote : Text → String) {version requirement : Text}
    (h : requirement ≠ []) : (Go.runtimeMeetsMinimum quote version requirement).toOption =
      (Ui.runtimeMeetsMinimum version requirement).toOption := by
  have hzero : Go.leadingZero = Ui.leadingZero := funext leadingZero_eq
  unfold Go.runtimeMeetsMinimum Ui.runtimeMeetsMinimum Go.validateOpenLiaRequirement
  rw [hzero]
  cases hminimum : minimumPattern requirement with
  | none =>
      rw [if_pos ⟨h, rfl⟩]
      rfl
  | some minimum =>
      rw [if_neg fun h => nomatch h.2]
      show Except.toOption (match runtimePattern version with | none => _ | some actual => _) = _
      cases runtimePattern version with
      | none => rfl
      | some actual =>
          dsimp only
          split <;> rfl

/-! ## Well-formed versions -/

/-- The components are numerals. -/
structure Release.Valid (r : Release) : Prop where
  major : IsNumeral r.major
  minor : IsNumeral r.minor
  patch : IsNumeral r.patch

def Release.text (r : Release) : Text := r.major ++ '.' :: (r.minor ++ '.' :: r.patch)

/-- The numbers, compared one after the other. -/
def Release.number (r : Release) : ℕ ×ₗ ℕ ×ₗ ℕ :=
  toLex (value r.major, toLex (value r.minor, value r.patch))

structure Minimum where
  release : Release
  valid : release.Valid

def Minimum.text (m : Minimum) : Text := '>' :: '=' :: m.release.text

structure Version where
  v : Bool
  release : Release
  prerelease : Option Text
  build : Option Text
  valid : release.Valid
  identifiers : ∀ s ∈ prerelease, dotted s = true
  numbers : ∀ s ∈ prerelease, (s.splitOn '.').any Ui.leadingZero = false
  metadata : ∀ s ∈ build, dotted s = true

def after (c : Char) : Option Text → Text
  | none => []
  | some s => c :: s

def Version.text (w : Version) : Text :=
  (if w.v then ['v'] else []) ++ (w.release.text ++ (after '-' w.prerelease ++ after '+' w.build))

/-- The numeric order, with a prerelease before its release. -/
def Version.Meets (w : Version) (m : Minimum) : Prop :=
  m.release.number < w.release.number ∨
    m.release.number = w.release.number ∧ w.prerelease = none

section Patterns

variable {a s t : Text} {c : Char} {r : Release}

theorem char?_cons (c : Char) (s : Text) : char? c (c :: s) = some s := if_pos rfl

theorem char?_eq_some (h : char? c s = some t) : s = c :: t := by
  cases s with
  | nil => cases h
  | cons d s =>
      by_cases hd : d = c
      · rw [char?, if_pos hd] at h
        rw [hd, Option.some.inj h]
      · rw [char?, if_neg hd] at h
        cases h

/-- What follows a numeral does not begin with a digit. -/
def NoDigit (s : Text) : Prop := ∀ c ∈ s.head?, c.isDigit = false

theorem component?_append (ha : IsNumeral a) (hs : NoDigit s) :
    component? (a ++ s) = some (a, s) := by
  obtain ⟨c, b, rfl⟩ := List.exists_cons_of_ne_nil ha.ne_nil
  have hdigits := ha.digits
  rw [List.all_cons, Bool.and_eq_true] at hdigits
  rw [List.cons_append, component?]
  by_cases hc : c = '0'
  · subst hc
    obtain rfl := (List.cons.inj (ha.leading rfl)).2
    exact if_pos rfl
  · have htake : (b ++ s).takeWhile Char.isDigit = b ∧ (b ++ s).dropWhile Char.isDigit = s := by
      obtain ⟨-, hb⟩ := hdigits
      have hstop : s.takeWhile Char.isDigit = [] ∧ s.dropWhile Char.isDigit = s := by
        cases s with
        | nil => exact ⟨rfl, rfl⟩
        | cons d s =>
            rw [List.takeWhile_cons, List.dropWhile_cons, hs d rfl]
            exact ⟨rfl, rfl⟩
      rw [List.all_eq_true] at hb
      rw [List.takeWhile_append_of_pos hb, List.dropWhile_append_of_pos hb, hstop.1, hstop.2,
        List.append_nil]
      exact ⟨rfl, rfl⟩
    rw [if_neg hc, if_pos hdigits.1, htake.1, htake.2]

theorem component?_eq_some (h : component? s = some (a, t)) : IsNumeral a ∧ s = a ++ t := by
  cases s with
  | nil => cases h
  | cons c s =>
      rw [component?] at h
      by_cases hc : c = '0'
      · rw [if_pos hc] at h
        cases h
        exact ⟨⟨List.cons_ne_nil _ _, by decide, fun _ => rfl⟩, by rw [hc]; rfl⟩
      · rw [if_neg hc] at h
        by_cases hdigit : c.isDigit = true
        · rw [if_pos hdigit] at h
          cases h
          refine ⟨⟨List.cons_ne_nil _ _, ?_, fun h => absurd (Option.some.inj h) hc⟩, ?_⟩
          · rw [List.all_cons, hdigit, List.all_takeWhile]
            rfl
          · rw [List.cons_append, List.takeWhile_append_dropWhile]
        · rw [if_neg hdigit] at h
          cases h

theorem noDigit_cons (hc : c.isDigit = false) : NoDigit (c :: s) := by
  intro d hd
  obtain rfl := Option.some.inj hd
  exact hc

theorem release?_append (hr : r.Valid) (hs : NoDigit s) : release? (r.text ++ s) = some (r, s) := by
  have htext : r.text ++ s = r.major ++ '.' :: (r.minor ++ '.' :: (r.patch ++ s)) := by
    simp [Release.text]
  have hdot : ∀ s : Text, NoDigit ('.' :: s) := fun s => noDigit_cons (by decide)
  unfold release?
  rw [htext, component?_append hr.major (hdot _)]
  show ((char? '.' _).bind component?).bind _ = _
  rw [char?_cons, Option.bind_some, component?_append hr.minor (hdot _)]
  show ((char? '.' _).bind component?).bind _ = _
  rw [char?_cons, Option.bind_some, component?_append hr.patch hs]
  rfl

theorem release?_eq_some (h : release? s = some (r, t)) : r.Valid ∧ s = r.text ++ t := by
  unfold release? at h
  obtain ⟨⟨major, s₁⟩, hmajor, h₁⟩ := Option.bind_eq_some_iff.mp h
  obtain ⟨⟨minor, s₂⟩, hminor, h₂⟩ := Option.bind_eq_some_iff.mp h₁
  obtain ⟨⟨patch, s₃⟩, hpatch, h₃⟩ := Option.bind_eq_some_iff.mp h₂
  clear h h₁ h₂
  obtain ⟨s₁', hdot, hminor⟩ := Option.bind_eq_some_iff.mp hminor
  obtain ⟨s₂', hdot', hpatch⟩ := Option.bind_eq_some_iff.mp hpatch
  obtain ⟨hnumeral, rfl⟩ := component?_eq_some hmajor
  obtain ⟨hnumeral', rfl⟩ := component?_eq_some hminor
  obtain ⟨hnumeral'', rfl⟩ := component?_eq_some hpatch
  cases h₃
  refine ⟨⟨hnumeral, hnumeral', hnumeral''⟩, ?_⟩
  rw [char?_eq_some hdot, char?_eq_some hdot', Release.text]
  simp

theorem minimumPattern_text (m : Minimum) : minimumPattern m.text = some m.release := by
  have hrelease := release?_append m.valid (s := []) fun c hc => nomatch hc
  rw [List.append_nil] at hrelease
  unfold minimumPattern Minimum.text
  rw [char?_cons, Option.bind_some, char?_cons]
  show (release? m.release.text).bind _ = _
  rw [hrelease]
  rfl

theorem minimumPattern_eq_some (h : minimumPattern s = some r) :
    ∃ m : Minimum, m.text = s ∧ m.release = r := by
  unfold minimumPattern at h
  obtain ⟨s₁, hs, h₁⟩ := Option.bind_eq_some_iff.mp h
  obtain ⟨⟨r', s₂⟩, hr, h₂⟩ := Option.bind_eq_some_iff.mp h₁
  obtain ⟨s₃, hgreater, hequals⟩ := Option.bind_eq_some_iff.mp hs
  clear h h₁ hs
  obtain ⟨hvalid, rfl⟩ := release?_eq_some hr
  dsimp only at h₂
  by_cases hend : s₂ = []
  · rw [if_pos hend] at h₂
    cases h₂
    refine ⟨⟨r, hvalid⟩, ?_, rfl⟩
    rw [char?_eq_some hgreater, char?_eq_some hequals, hend, List.append_nil]
    rfl
  · rw [if_neg hend] at h₂
    cases h₂

/-- A plus ends the prerelease. -/
theorem plus_notMem (h : dotted s = true) : '+' ∉ s := by
  intro hmem
  rw [dotted, List.all_eq_true] at h
  have hjoin : ['.'].intercalate (s.splitOn '.') = s := List.intercalate_splitOn '.'
  rw [← hjoin] at hmem
  rcases mem_intercalate hmem with hplus | ⟨part, hpart, hplus⟩
  · exact absurd hplus (by decide)
  · have hall := h part hpart
    rw [Bool.and_eq_true, List.all_eq_true] at hall
    exact absurd (hall.2 '+' hplus) (by decide)

theorem isBuild_after {build : Option Text} (h : ∀ s ∈ build, dotted s = true) :
    isBuild (after '+' build) = true := by
  cases build with
  | none => rfl
  | some s => exact h s rfl

theorem isBuild_eq_true (h : isBuild s = true) :
    ∃ build : Option Text, s = after '+' build ∧ ∀ s ∈ build, dotted s = true := by
  cases s with
  | nil => exact ⟨none, rfl, fun _ h => nomatch h⟩
  | cons c s =>
      rw [isBuild, Bool.and_eq_true, decide_eq_true_eq] at h
      refine ⟨some s, by rw [h.1]; rfl, fun t ht => ?_⟩
      obtain rfl := Option.some.inj ht
      exact h.2

theorem noDigit_after (w : Version) : NoDigit (after '-' w.prerelease ++ after '+' w.build) := by
  cases w.prerelease with
  | some s => exact noDigit_cons (by decide)
  | none =>
      cases w.build with
      | some s => exact noDigit_cons (by decide)
      | none => exact fun c hc => nomatch hc

/-- What the pattern reads from a well-formed version. -/
theorem runtimePattern_text (w : Version) :
    runtimePattern w.text = some ⟨w.release, after '-' w.prerelease⟩ := by
  have hv : (char? 'v' w.text).getD w.text =
      w.release.text ++ (after '-' w.prerelease ++ after '+' w.build) := by
    unfold Version.text
    cases w.v with
    | true => rfl
    | false =>
        obtain ⟨c, s, hmajor⟩ := List.exists_cons_of_ne_nil w.valid.major.ne_nil
        have hdigits := w.valid.major.digits
        rw [hmajor, List.all_cons, Bool.and_eq_true] at hdigits
        have hc : c ≠ 'v' := by
          rintro rfl
          exact absurd hdigits.1 (by decide)
        have hnone : ∀ t : Text, char? 'v' (c :: t) = none := fun t => if_neg hc
        rw [Release.text, hmajor]
        exact congrArg (fun o : Option Text => o.getD _) (hnone _)
  unfold runtimePattern
  rw [hv, release?_append w.valid (noDigit_after w)]
  show (match char? '-' (after '-' w.prerelease ++ after '+' w.build) with
    | some s => _
    | none => _) = _
  cases hpre : w.prerelease with
  | none =>
      have hdash : char? '-' (after '-' none ++ after '+' w.build) = none := by
        cases w.build with
        | none => rfl
        | some s => rfl
      rw [hdash]
      exact if_pos (isBuild_after w.metadata)
  | some s =>
      have hplus := plus_notMem (w.identifiers s hpre)
      have hne : ∀ c ∈ s, decide (c ≠ '+') = true := by
        rintro c hc
        exact decide_eq_true fun h => hplus (h ▸ hc)
      have hstop : (after '+' w.build).takeWhile (· ≠ '+') = [] ∧
          (after '+' w.build).dropWhile (· ≠ '+') = after '+' w.build := by
        cases w.build <;> exact ⟨rfl, rfl⟩
      rw [show after '-' (some s) ++ after '+' w.build = '-' :: (s ++ after '+' w.build) from rfl,
        char?_cons]
      dsimp only
      rw [List.takeWhile_append_of_pos hne, List.dropWhile_append_of_pos hne, hstop.1, hstop.2,
        List.append_nil, w.identifiers s hpre, isBuild_after w.metadata]
      rfl

/-- What the pattern reads is a well-formed version, but for the numbers of a prerelease. -/
theorem runtimePattern_eq_some {actual : Runtime} (h : runtimePattern s = some actual)
    (hnumbers : ¬ (actual.prerelease ≠ [] ∧
      ((actual.prerelease.drop 1).splitOn '.').any Ui.leadingZero = true)) :
    ∃ w : Version, w.text = s := by
  unfold runtimePattern at h
  obtain ⟨⟨release, s₁⟩, hrelease, h₁⟩ := Option.bind_eq_some_iff.mp h
  clear h
  obtain ⟨hvalid, htext⟩ := release?_eq_some hrelease
  have hv : ∃ v : Bool, s = (if v then ['v'] else []) ++ (release.text ++ s₁) := by
    rw [← htext]
    cases hchar : char? 'v' s with
    | none => exact ⟨false, rfl⟩
    | some t => exact ⟨true, char?_eq_some hchar⟩
  obtain ⟨v, rfl⟩ := hv
  dsimp only at h₁
  cases hdash : char? '-' s₁ with
  | none =>
      rw [hdash] at h₁
      dsimp only at h₁
      by_cases hbuild : isBuild s₁ = true
      · obtain ⟨build, rfl, hdotted⟩ := isBuild_eq_true hbuild
        exact ⟨⟨v, release, none, build, hvalid, (fun _ h => nomatch h), (fun _ h => nomatch h),
          hdotted⟩, rfl⟩
      · rw [if_neg hbuild] at h₁
        cases h₁
  | some t =>
      rw [hdash] at h₁
      dsimp only at h₁
      by_cases hgood : (dotted (t.takeWhile (· ≠ '+')) && isBuild (t.dropWhile (· ≠ '+'))) = true
      · rw [if_pos hgood] at h₁
        cases h₁
        rw [Bool.and_eq_true] at hgood
        obtain ⟨build, hrest, hdotted⟩ := isBuild_eq_true hgood.2
        have hzeros : ((t.takeWhile (· ≠ '+')).splitOn '.').any Ui.leadingZero = false := by
          rw [← Bool.not_eq_true]
          exact fun h => hnumbers ⟨List.cons_ne_nil _ _, h⟩
        refine ⟨⟨v, release, some (t.takeWhile (· ≠ '+')), build, hvalid, ?_, ?_, hdotted⟩, ?_⟩
        · rintro _ ⟨⟩
          exact hgood.1
        · rintro _ ⟨⟩
          exact hzeros
        · rw [char?_eq_some hdash, Version.text, ← hrest]
          show _ ++ (_ ++ ('-' :: t.takeWhile _ ++ t.dropWhile _)) = _
          rw [List.cons_append, List.takeWhile_append_dropWhile]
      · rw [if_neg hgood] at h₁
        cases h₁

end Patterns

/-! ## Comparing the groups -/

section Compare

variable {a m : Text} {rest : List (Text × Text)} {actual minimum : Release}

/-- The first difference of two lists of numerals is one of their numbers. -/
theorem firstDifference_cons (ha : IsNumeral a) (hm : IsNumeral m) :
    firstDifference ((a, m) :: rest) =
      if value a = value m then firstDifference rest else some (decide (value m < value a)) := by
  rw [firstDifference]
  by_cases heq : a = m
  · rw [if_neg fun h => h (by rw [heq]), if_neg fun h => h heq, if_pos (by rw [heq])]
  · rw [if_neg fun h => heq (value_inj ha hm h)]
    have hlt := value_lt_iff_length ha hm
    by_cases hlength : a.length = m.length
    · have hlt' : value m < value a ↔ m < a := by
        rw [hlt]
        exact ⟨fun h => (h.resolve_left (by omega)).2, fun h => Or.inr ⟨hlength.symm, h⟩⟩
      rw [if_neg fun h => h hlength, if_pos heq, decide_eq_decide.mpr hlt']
    · have hlt' : value m < value a ↔ m.length < a.length := by
        rw [hlt]
        exact ⟨fun h => h.resolve_right fun h => hlength h.1.symm, Or.inl⟩
      rw [if_pos hlength, decide_eq_decide.mpr hlt']

theorem number_lt_iff : minimum.number < actual.number ↔
    value minimum.major < value actual.major ∨ value minimum.major = value actual.major ∧
      (value minimum.minor < value actual.minor ∨ value minimum.minor = value actual.minor ∧
        value minimum.patch < value actual.patch) := by
  rw [Release.number, Release.number, Prod.Lex.toLex_lt_toLex, Prod.Lex.toLex_lt_toLex]

theorem number_eq_iff : minimum.number = actual.number ↔
    value minimum.major = value actual.major ∧ value minimum.minor = value actual.minor ∧
      value minimum.patch = value actual.patch := by
  rw [Release.number, Release.number, toLex_inj, Prod.mk.injEq, toLex_inj, Prod.mk.injEq]

theorem firstDifference_groups (ha : actual.Valid) (hm : minimum.Valid) (last : Bool) :
    (firstDifference (groups actual minimum)).getD last = true ↔
      minimum.number < actual.number ∨ minimum.number = actual.number ∧ last = true := by
  rw [groups, firstDifference_cons ha.major hm.major, firstDifference_cons ha.minor hm.minor,
    firstDifference_cons ha.patch hm.patch, number_lt_iff, number_eq_iff]
  by_cases hmajor : value actual.major = value minimum.major
  · rw [if_pos hmajor]
    by_cases hminor : value actual.minor = value minimum.minor
    · rw [if_pos hminor]
      by_cases hpatch : value actual.patch = value minimum.patch
      · rw [if_pos hpatch]
        simp [firstDifference, hmajor, hminor, hpatch]
      · rw [if_neg hpatch]
        simp [hmajor, hminor, Ne.symm hpatch]
    · rw [if_neg hminor]
      simp [hmajor, Ne.symm hminor]
  · rw [if_neg hmajor]
    simp [Ne.symm hmajor]

end Compare

/-- A well-formed version and a minimum are compared by their numbers. -/
theorem ui_eq (w : Version) (m : Minimum) : ∃ meets,
    Ui.runtimeMeetsMinimum w.text m.text = .ok meets ∧ (meets = true ↔ w.Meets m) := by
  refine ⟨_, ?_, (firstDifference_groups w.valid m.valid (after '-' w.prerelease = [])).trans ?_⟩
  · unfold Ui.runtimeMeetsMinimum
    rw [minimumPattern_text, runtimePattern_text]
    refine if_neg ?_
    rintro ⟨hne, hzero⟩
    cases hpre : w.prerelease with
    | none => exact hne (by rw [hpre]; rfl)
    | some s =>
        rw [hpre] at hzero
        exact Bool.false_ne_true ((w.numbers s hpre).symm.trans hzero)
  · unfold Version.Meets
    rw [decide_eq_true_eq]
    cases w.prerelease <;> simp [after]

/-- Only well-formed versions and minimums are compared. -/
theorem ui_ok {version requirement : Text} {meets : Bool}
    (h : Ui.runtimeMeetsMinimum version requirement = .ok meets) :
    (∃ w : Version, w.text = version) ∧ ∃ m : Minimum, m.text = requirement := by
  unfold Ui.runtimeMeetsMinimum at h
  cases hminimum : minimumPattern requirement with
  | none =>
      rw [hminimum] at h
      cases h
  | some minimum =>
      rw [hminimum] at h
      obtain ⟨m, hm, -⟩ := minimumPattern_eq_some hminimum
      cases hruntime : runtimePattern version with
      | none =>
          rw [hruntime] at h
          cases h
      | some actual =>
          rw [hruntime] at h
          dsimp only at h
          by_cases hzero : actual.prerelease ≠ [] ∧
              ((actual.prerelease.drop 1).splitOn '.').any Ui.leadingZero = true
          · rw [if_pos hzero] at h
            cases h
          · exact ⟨runtimePattern_eq_some hruntime hzero, m, hm⟩

/-- Where there is a requirement, both sides answer the same or both fail: they compare the
numbers of well-formed texts, with a prerelease below its release, and fail for others. -/
theorem version_gate (quote : Text → String) :
    (∀ version requirement : Text, requirement ≠ [] →
      (Go.runtimeMeetsMinimum quote version requirement).toOption =
        (Ui.runtimeMeetsMinimum version requirement).toOption) ∧
      (∀ (w : Version) (m : Minimum), ∃ meets,
        Go.runtimeMeetsMinimum quote w.text m.text = .ok meets ∧
        Ui.runtimeMeetsMinimum w.text m.text = .ok meets ∧ (meets = true ↔ w.Meets m)) ∧
      ∀ (version requirement : Text) (meets : Bool),
        Ui.runtimeMeetsMinimum version requirement = .ok meets →
        (∃ w : Version, w.text = version) ∧ ∃ m : Minimum, m.text = requirement := by
  refine ⟨fun version requirement h => runtimeMeetsMinimum_agree quote h, fun w m => ?_,
    fun version requirement meets h => ui_ok h⟩
  obtain ⟨meets, hui, hmeets⟩ := ui_eq w m
  refine ⟨meets, ?_, hui, hmeets⟩
  have hagree := @runtimeMeetsMinimum_agree quote w.text m.text (List.cons_ne_nil _ _)
  rw [hui] at hagree
  cases hgo : Go.runtimeMeetsMinimum quote w.text m.text with
  | error e =>
      rw [hgo] at hagree
      cases hagree
  | ok meets' =>
      rw [hgo] at hagree
      cases hagree
      rfl

/-- A prerelease does not meet its own release, though their numbers are the same; and an
empty requirement is one for the operator only. -/
theorem prerelease_below :
    (Go.runtimeMeetsMinimum String.ofList "1.2.3-rc.1".toList ">=1.2.3".toList).toOption =
        some false ∧
      (Go.runtimeMeetsMinimum String.ofList "1.2.3".toList []).toOption = some true ∧
      (Ui.runtimeMeetsMinimum "1.2.3".toList []).toOption = none := by
  decide +kernel

end Openlia.Templates

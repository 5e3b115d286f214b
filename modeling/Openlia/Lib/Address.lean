import Mathlib.Data.List.Infix
import Openlia.Lib.Percent

/-! # Addresses

A reference that begins with a slash is resolved against an address: its dot segments go, and what
may not stand in an address is percent-encoded.
-/

namespace Openlia.Lib.Address

open Percent

structure Url where
  protocol : Text
  host : Text
  pathname : Text
  query : Text
  deriving DecidableEq

def isControl (c : Char) : Bool := c.toNat ≤ 0x20

def trimControls (s : Text) : Text :=
  ((s.dropWhile isControl).reverse.dropWhile isControl).reverse

def pathKeep (c : Char) : Bool := 0x20 < c.toNat && c.toNat ≤ 0x7E && c ∉ "\"#<>?^`\x7b\x7d".toList

def queryKeep (c : Char) : Bool := 0x20 < c.toNat && c.toNat ≤ 0x7E && c ∉ "\"#<>'".toList

def isSingleDot (segment : Text) : Bool :=
  [".".toList, "%2e".toList, "%2E".toList].contains segment

def isDoubleDot (segment : Text) : Bool :=
  ["..".toList, ".%2e".toList, ".%2E".toList, "%2e.".toList, "%2E.".toList,
    "%2e%2e".toList, "%2e%2E".toList, "%2E%2e".toList, "%2E%2E".toList].contains segment

/-- The segments of a path after those before it. A dot segment at the end leaves an empty one. -/
def dotless : List Text → List Text → List Text
  | path, [] => path
  | path, [s] =>
      if isDoubleDot s then path.dropLast ++ [[]]
      else if isSingleDot s then path ++ [[]]
      else path ++ [s]
  | path, s :: rest =>
      if isDoubleDot s then dotless path.dropLast rest
      else if isSingleDot s then dotless path rest
      else dotless (path ++ [s]) rest

def joined (segments : List Text) : Text := '/' :: ['/'].intercalate segments

/-- The path of a reference without its first slash. -/
def normalize (path : Text) : Text :=
  joined (dotless [] ((encode pathKeep (path.map fun c => if c = '\\' then '/' else c)).splitOn '/'))

/-- `new URL(reference, base)`, for references that begin with one slash. -/
def resolve (base : Url) (reference : Text) : Url :=
  let s := ((trimControls reference).filter (· ∉ ['\t', '\n', '\r'])).takeWhile (· ≠ '#')
  { base with
    pathname := normalize ((s.takeWhile (· ≠ '?')).drop 1)
    query := encode queryKeep ((s.dropWhile (· ≠ '?')).drop 1) }

/-- A query is put after a path. -/
def withQuery (path query : Text) : Text := if query = [] then path else path ++ '?' :: query

theorem toNat_of_alphanum {c : Char} (h : c.isAlphanum = true) :
    0x20 < c.toNat ∧ c.toNat ≤ 0x7E := by
  delta Char.isAlphanum Char.isAlpha Char.isUpper Char.isLower Char.isDigit at h
  simp only [Bool.or_eq_true, Bool.and_eq_true, decide_eq_true_eq, UInt32.le_iff_toNat_le] at h
  change (65 ≤ c.toNat ∧ c.toNat ≤ 90 ∨ 97 ≤ c.toNat ∧ c.toNat ≤ 122) ∨
    48 ≤ c.toNat ∧ c.toNat ≤ 57 at h
  omega

theorem pathKeep_alphanum {c : Char} (h : c.isAlphanum = true) : pathKeep c = true := by
  have hrange := toNat_of_alphanum h
  have hnone : ∀ d ∈ "\"#<>?^`\x7b\x7d".toList, d.isAlphanum = false :=
    forall_mem_of_all (by decide)
  simp only [pathKeep, Bool.and_eq_true, decide_eq_true_eq]
  exact ⟨hrange, fun hmem => by simp [hnone c hmem] at h⟩

theorem queryKeep_alphanum {c : Char} (h : c.isAlphanum = true) : queryKeep c = true := by
  have hrange := toNat_of_alphanum h
  have hnone : ∀ d ∈ "\"#<>'".toList, d.isAlphanum = false :=
    forall_mem_of_all (by decide)
  simp only [queryKeep, Bool.and_eq_true, decide_eq_true_eq]
  exact ⟨hrange, fun hmem => by simp [hnone c hmem] at h⟩

theorem queryKeep_serialize {params : List (Text × Text)} {c : Char} (h : c ∈ serialize params) :
    queryKeep c = true := by
  rcases mem_serialize h with h | h
  · exact queryKeep_alphanum h
  · exact (forall_mem_of_all (by decide) : ∀ c ∈ "*-._+%=&".toList, queryKeep c = true) c h

/-- What may stand in a segment as it is. -/
def Plain (segment : Text) : Prop := ∀ c ∈ segment, pathKeep c = true ∧ c ≠ '/' ∧ c ≠ '\\'

instance (segment : Text) : Decidable (Plain segment) := List.decidableBAll _ _

theorem plain_encodeURIComponent (s : Text) : Plain (encodeURIComponent s) := by
  intro c hc
  have hall : ∀ c ∈ "-_.!~*'()%".toList, pathKeep c = true ∧ c ≠ '/' ∧ c ≠ '\\' :=
    forall_mem_of_all (by decide)
  have halpha : c.isAlphanum = true → pathKeep c = true ∧ c ≠ '/' ∧ c ≠ '\\' := by
    intro h
    refine ⟨pathKeep_alphanum h, ?_, ?_⟩ <;> rintro rfl <;> revert h <;> decide
  rcases mem_encode hc with h | rfl | h
  · rw [componentKeep, Bool.or_eq_true, decide_eq_true_eq] at h
    rcases h with h | h
    · exact halpha h
    · exact hall c ((forall_mem_of_all (by decide) :
        ∀ c ∈ "-_.!~*'()".toList, c ∈ "-_.!~*'()%".toList) c h)
  · exact hall '%' (by decide)
  · exact halpha h

/-! ## Dot segments -/

section Dots

variable {path segments : List Text} {s : Text} {keep : Char → Bool}

def IsDots (s : Text) : Prop := s = ['.'] ∨ s = ['.', '.']

instance (s : Text) : Decidable (IsDots s) := inferInstanceAs (Decidable (_ ∨ _))

theorem dotless_cons (s : Text) (hne : segments ≠ []) : dotless path (s :: segments) =
    if isDoubleDot s then dotless path.dropLast segments
    else if isSingleDot s then dotless path segments
    else dotless (path ++ [s]) segments := by
  cases segments with
  | nil => exact absurd rfl hne
  | cons t rest => rfl

theorem dotless_eq (h : ∀ s ∈ segments, isSingleDot s = false ∧ isDoubleDot s = false) :
    dotless path segments = path ++ segments := by
  induction segments generalizing path with
  | nil => simp [dotless]
  | cons s rest ih =>
      have hs := h s List.mem_cons_self
      have hrest : ∀ t ∈ rest, isSingleDot t = false ∧ isDoubleDot t = false :=
        fun t ht => h t (List.mem_cons_of_mem s ht)
      by_cases hne : rest = []
      · subst hne
        simp [dotless, hs]
      · rw [dotless_cons s hne, hs.1, hs.2]
        simp [ih hrest]

/-- Only segments without dots are left. -/
theorem mem_dotless (h : s ∈ dotless path segments) :
    s ∈ path ∨ s = [] ∨ s ∈ segments ∧ isSingleDot s = false ∧ isDoubleDot s = false := by
  induction segments generalizing path with
  | nil => exact Or.inl h
  | cons t rest ih =>
      have hstep : ∀ {before : List Text}, (∀ u ∈ before, u ∈ path ∨ u = t ∧
          isSingleDot t = false ∧ isDoubleDot t = false) → s ∈ dotless before rest →
          s ∈ path ∨ s = [] ∨ s ∈ t :: rest ∧ isSingleDot s = false ∧ isDoubleDot s = false := by
        intro before hbefore hs
        rcases ih hs with hs | rfl | ⟨hs, hdots⟩
        · rcases hbefore s hs with hs | ⟨rfl, hdots⟩
          · exact Or.inl hs
          · exact Or.inr (Or.inr ⟨List.mem_cons_self, hdots⟩)
        · exact Or.inr (Or.inl rfl)
        · exact Or.inr (Or.inr ⟨List.mem_cons_of_mem t hs, hdots⟩)
      have hlast : ∀ {before : List Text} {u : Text}, (∀ v ∈ before, v ∈ path) →
          (u = [] ∨ u = t ∧ isSingleDot t = false ∧ isDoubleDot t = false) → s ∈ before ++ [u] →
          s ∈ path ∨ s = [] ∨ s ∈ t :: rest ∧ isSingleDot s = false ∧ isDoubleDot s = false := by
        intro before u hbefore hu hs
        rcases List.mem_append.mp hs with hs | hs
        · exact Or.inl (hbefore s hs)
        · obtain rfl := List.mem_singleton.mp hs
          rcases hu with rfl | ⟨rfl, hdots⟩
          · exact Or.inr (Or.inl rfl)
          · exact Or.inr (Or.inr ⟨List.mem_cons_self, hdots⟩)
      have hdrop : ∀ v ∈ path.dropLast, v ∈ path := fun v hv => List.mem_of_mem_dropLast hv
      by_cases hne : rest = []
      · subst hne
        rw [dotless] at h
        split at h
        · exact hlast hdrop (Or.inl rfl) h
        · split at h
          · exact hlast (fun v hv => hv) (Or.inl rfl) h
          · exact hlast (fun v hv => hv) (Or.inr ⟨rfl, by simpa using ‹¬isSingleDot t = true›,
              by simpa using ‹¬isDoubleDot t = true›⟩) h
      · rw [dotless_cons t hne] at h
        split at h
        · exact hstep (fun u hu => Or.inl (hdrop u hu)) h
        · split at h
          · exact hstep (fun u hu => Or.inl hu) h
          · refine hstep (fun u hu => ?_) h
            rcases List.mem_append.mp hu with hu | hu
            · exact Or.inl hu
            · exact Or.inr ⟨List.mem_singleton.mp hu, by simpa using ‹¬isSingleDot t = true›,
                by simpa using ‹¬isDoubleDot t = true›⟩

/-- A percent-encoded segment is one of dots just where it says so. -/
theorem encode_dots (hkeep : ∀ c, keep c = true → c ≠ '%') (hdot : keep '.' = true) :
    (isSingleDot (encode keep s) = true ↔ s = ['.']) ∧
      (isDoubleDot (encode keep s) = true ↔ s = ['.', '.']) := by
  have hdecode := decodeURIComponent_encode hkeep s
  have hread : ∀ {e d : Text}, encode keep s = e → decodeURIComponent e = some d → s = d := by
    intro e d he hd
    rw [he, hd] at hdecode
    exact (Option.some.inj hdecode).symm
  constructor
  · constructor
    · intro h
      simp only [isSingleDot, List.contains_iff_mem, List.mem_cons, List.not_mem_nil, or_false] at h
      rcases h with h | h | h <;> exact hread h (by decide)
    · rintro rfl
      rw [encode_of_keep (by simpa using hdot)]
      decide
  · constructor
    · intro h
      simp only [isDoubleDot, List.contains_iff_mem, List.mem_cons, List.not_mem_nil, or_false] at h
      rcases h with h | h | h | h | h | h | h | h | h <;> exact hread h (by decide)
    · rintro rfl
      rw [encode_of_keep (by simpa using hdot)]
      decide

end Dots

/-! ## Resolved references -/

section Resolved

variable {segments : List Text} {path query : Text}

theorem trimControls_eq {s : Text} (h : ∀ c ∈ s, isControl c = false) : trimControls s = s := by
  have hdrop : ∀ {t : Text}, (∀ c ∈ t, isControl c = false) → t.dropWhile isControl = t := by
    intro t ht
    cases t with
    | nil => rfl
    | cons c t => rw [List.dropWhile_cons, ht c List.mem_cons_self]; rfl
  rw [trimControls, hdrop h, hdrop (fun c hc => h c (List.mem_reverse.mp hc)), List.reverse_reverse]

/-- What needs no encoding is resolved to itself, without the dot segments. -/
theorem resolve_joined (base : Url) (hne : segments ≠ [])
    (hsegments : ∀ s ∈ segments, Plain s)
    (hquery : ∀ c ∈ query, queryKeep c = true) :
    resolve base (withQuery (joined segments) query) =
      { base with pathname := joined (dotless [] segments), query := query } := by
  have hpath : ∀ c ∈ joined segments, pathKeep c = true ∧ c ≠ '\\' := by
    intro c hc
    rcases List.mem_cons.mp hc with rfl | hc
    · decide
    · rcases mem_intercalate hc with rfl | ⟨s, hs, hc⟩
      · decide
      · exact ⟨(hsegments s hs c hc).1, (hsegments s hs c hc).2.2⟩
  have hplain : ∀ {c : Char}, pathKeep c = true ∨ queryKeep c = true ∨ c = '?' →
      isControl c = false ∧ c ≠ '#' ∧ c ∉ ['\t', '\n', '\r'] := by
    intro c hc
    have hcontrol : isControl c = false := by
      rcases hc with hc | hc | rfl
      · simp only [pathKeep, Bool.and_eq_true, decide_eq_true_eq] at hc
        simpa [isControl] using hc.1.1
      · simp only [queryKeep, Bool.and_eq_true, decide_eq_true_eq] at hc
        simpa [isControl] using hc.1.1
      · decide
    refine ⟨hcontrol, ?_, ?_⟩
    · rintro rfl
      revert hc
      decide
    · intro hmem
      have hall : ∀ c ∈ ['\t', '\n', '\r'], isControl c = true :=
        forall_mem_of_all (by decide)
      rw [hall c hmem] at hcontrol
      cases hcontrol
  have hmark : '?' ∉ joined segments := fun h => absurd (hpath '?' h).1 (by decide)
  have hall : ∀ c ∈ withQuery (joined segments) query,
      pathKeep c = true ∨ queryKeep c = true ∨ c = '?' := by
    intro c hc
    unfold withQuery at hc
    split at hc
    · exact Or.inl (hpath c hc).1
    · rcases List.mem_append.mp hc with hc | hc
      · exact Or.inl (hpath c hc).1
      · rcases List.mem_cons.mp hc with rfl | hc
        · exact Or.inr (Or.inr rfl)
        · exact Or.inr (Or.inl (hquery c hc))
  have hread : ((trimControls (withQuery (joined segments) query)).filter
      (· ∉ ['\t', '\n', '\r'])).takeWhile (· ≠ '#') = withQuery (joined segments) query := by
    rw [trimControls_eq fun c hc => (hplain (hall c hc)).1, List.filter_eq_self.mpr fun c hc =>
      decide_eq_true (hplain (hall c hc)).2.2]
    exact takeWhile_ne_eq_self fun hc => (hplain (hall '#' hc)).2.1 rfl
  have hparts : (withQuery (joined segments) query).takeWhile (· ≠ '?') = joined segments ∧
      ((withQuery (joined segments) query).dropWhile (· ≠ '?')).drop 1 = query := by
    unfold withQuery
    split
    · rename_i hnil
      rw [takeWhile_ne_eq_self hmark, dropWhile_ne_eq_nil hmark, hnil]
      exact ⟨rfl, rfl⟩
    · rw [takeWhile_ne_append hmark, dropWhile_ne_append hmark]
      exact ⟨rfl, rfl⟩
  have hslashed : (['/'].intercalate segments).map (fun c => if c = '\\' then '/' else c) =
      ['/'].intercalate segments := by
    refine (List.map_congr_left fun c hc => ?_).trans (List.map_id _)
    rw [if_neg (hpath c (List.mem_cons_of_mem _ hc)).2]
    rfl
  rw [resolve, hread, hparts.1, hparts.2, encode_of_keep hquery, joined, List.drop_succ_cons,
    List.drop_zero, normalize, hslashed,
    encode_of_keep fun c hc => (hpath c (List.mem_cons_of_mem _ hc)).1,
    List.splitOn_intercalate '/' (fun s hs hc => (hsegments s hs '/' hc).2.1 rfl) hne]

end Resolved

end Openlia.Lib.Address

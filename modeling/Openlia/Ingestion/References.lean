import Mathlib.Tactic.IntervalCases
import Openlia.Ingestion.Passwords

/-! # Source URIs

`openlia://source/<id>` with a version, a version and a page, or a page in its fragment.
The version and the page without a version are two alternatives of one expression, and
the version is tried first.
-/

namespace Openlia.Ingestion

open Lib
open Policy (Text strip isSpace)

/-- Where the digits zero of the decimal digits (`Nd`) are. -/
def decimalZeros : List Nat :=
  [0x30, 0x660, 0x6F0, 0x7C0, 0x966, 0x9E6, 0xA66, 0xAE6, 0xB66, 0xBE6, 0xC66, 0xCE6, 0xD66, 0xDE6,
    0xE50, 0xED0, 0xF20, 0x1040, 0x1090, 0x17E0, 0x1810, 0x1946, 0x19D0, 0x1A80, 0x1A90, 0x1B50,
    0x1BB0, 0x1C40, 0x1C50, 0xA620, 0xA8D0, 0xA900, 0xA9D0, 0xA9F0, 0xAA50, 0xABF0, 0xFF10, 0x104A0,
    0x10D30, 0x11066, 0x110F0, 0x11136, 0x111D0, 0x112F0, 0x11450, 0x114D0, 0x11650, 0x116C0,
    0x11730, 0x118E0, 0x11950, 0x11C50, 0x11D50, 0x11DA0, 0x11F50, 0x16A60, 0x16AC0, 0x16B50,
    0x1D7CE, 0x1D7D8, 0x1D7E2, 0x1D7EC, 0x1D7F6, 0x1E140, 0x1E2F0, 0x1E4F0, 0x1E950, 0x1FBF0]

def digitValue (c : Char) : Option Nat :=
  (decimalZeros.find? fun z => z ≤ c.toNat && c.toNat < z + 10).map fun z => c.toNat - z

/-- `\d`. -/
def isDecimal (c : Char) : Bool := (digitValue c).isSome

/-- `int` of a text of digits. -/
def intOf (text : Text) : Int :=
  text.foldl (fun n c => 10 * n + ((digitValue c).getD 0 : Nat)) 0

/-- `[A-Za-z0-9._-]`. -/
def isIdChar (c : Char) : Bool := isAlphanumeric c || c = '.' || c = '_' || c = '-'

/-- `SAFE_ID.fullmatch`. -/
def isSafeId : Text → Bool
  | [] => false
  | c :: rest => isAlphanumeric c && rest.all isIdChar

def idGroup (name : String) : Regex :=
  .group name (.seq (.char isAlphanumeric) (.many true isIdChar))

def pageGroup (name : String) : Regex := .group name (.some1 true isDecimal)

/-- A version and perhaps its page, or a page. -/
def fragment : Regex :=
  .seq (.lit "#") <| .alt
    (.seq (idGroup "version") (.opt (.seq (.lit "/p") (pageGroup "version page"))))
    (.seq (.lit "p") (pageGroup "page"))

/-- `SOURCE_URI_PATTERN`. The text is stripped, so `$` is its end. -/
def sourceUriPattern : Regex :=
  .seq (.look fun prev _ => prev = none) <| .seq (.lit "openlia://source") <|
    .seq (.opt (.lit "s")) <| .seq (.lit "/") <| .seq (idGroup "source") <|
      .seq (.opt fragment) (.look fun _ next => next = none)

def shownPage (page : Option Int) : Option Int := page.filter fun p => 0 < p

/-- `f"p{page}"`. -/
def pageText (p : Int) : Text := 'p' :: Nat.toDigits 10 p.toNat

def buildSourceUri (sourceID : Text) (versionID : Option Text) (page : Option Int) : Text :=
  let base := "openlia://source/".toList ++ strip sourceID
  match versionID.filter (· ≠ []), shownPage page with
  | some v, some p => base ++ '#' :: v ++ '/' :: pageText p
  | none, some p => base ++ '#' :: pageText p
  | some v, none => base ++ '#' :: v
  | none, none => base

structure SourceReference where
  sourceID : Text
  versionID : Option Text
  page : Option Int
  deriving DecidableEq

/-- A text that is not empty. -/
def orNone (text : Text) : Option Text := if text = [] then none else some text

def parseSourceUri (uri : Text) : Option SourceReference :=
  (sourceUriPattern.matchAt [] (strip uri)).map fun m =>
    { sourceID := m.group "source"
      versionID := orNone (m.group "version")
      page := ((orNone (m.group "version page")).or (orNone (m.group "page"))).map intOf }

/-- What `get_document_payload` opens. -/
def openedDocument (rawID : Text) (versionID : Option Text) (page : Option Int) :
    SourceReference :=
  match parseSourceUri rawID with
  | none => ⟨strip rawID, versionID.filter (· ≠ []), page⟩
  | some parsed =>
      ⟨parsed.sourceID, (versionID.filter (· ≠ [])).or parsed.versionID, page.or parsed.page⟩

/-! ## What the characters are -/

theorem isIdChar_of_alphanumeric {c : Char} (h : isAlphanumeric c = true) : isIdChar c = true := by
  simp [isIdChar, h]

theorem isSafeId_all {id : Text} (h : isSafeId id = true) : id.all isIdChar = true := by
  cases id with
  | nil => cases h
  | cons c rest =>
      obtain ⟨hc, hrest⟩ := (Bool.and_eq_true _ _).mp h
      rw [List.all_cons, isIdChar_of_alphanumeric hc, Bool.true_and]
      exact hrest

theorem isIdChar_range {c : Char} (h : isIdChar c = true) : 45 ≤ c.toNat ∧ c.toNat ≤ 122 := by
  have hle : ∀ a b : Char, a ≤ b ↔ a.toNat ≤ b.toNat := fun _ _ => Iff.rfl
  simp only [isIdChar, isAlphanumeric, Lib.Toml.isDigit, Bool.or_eq_true, Bool.and_eq_true,
    decide_eq_true_eq, hle] at h
  rcases h with ((((h | h) | h) | rfl) | rfl) | rfl
  · exact ⟨Nat.le_trans (by decide) h.1, Nat.le_trans h.2 (by decide)⟩
  · exact ⟨Nat.le_trans (by decide) h.1, Nat.le_trans h.2 (by decide)⟩
  · exact ⟨Nat.le_trans (by decide) h.1, Nat.le_trans h.2 (by decide)⟩
  · decide
  · decide
  · decide

theorem not_space_of_range {c : Char} (h : 33 ≤ c.toNat ∧ c.toNat ≤ 126) : isSpace c = false := by
  simp only [isSpace]
  grind

theorem strip_of_not_space {s : Text} (h : s.all (fun c => !isSpace c) = true) : strip s = s := by
  have hdrop : ∀ l : Text, l.all (fun c => !isSpace c) = true → l.dropWhile isSpace = l := by
    intro l hl
    cases l with
    | nil => rfl
    | cons c l =>
        rw [List.all_cons, Bool.and_eq_true, Bool.not_eq_true'] at hl
        rw [List.dropWhile_cons, if_neg (by simp [hl.1])]
  unfold strip
  rw [hdrop s h, hdrop s.reverse (by rw [List.all_reverse]; exact h), List.reverse_reverse]

/-- A character of a URI. -/
def isUriChar (c : Char) : Bool := 33 ≤ c.toNat && c.toNat ≤ 126

theorem isUriChar_of_id {c : Char} (h : isIdChar c = true) : isUriChar c = true := by
  have hrange := isIdChar_range h
  simp only [isUriChar, Bool.and_eq_true, decide_eq_true_eq]
  omega

theorem strip_uri {s : Text} (h : s.all isUriChar = true) : strip s = s := by
  refine strip_of_not_space ?_
  rw [List.all_eq_true] at h ⊢
  intro c hc
  have hrange := h c hc
  simp only [isUriChar, Bool.and_eq_true, decide_eq_true_eq] at hrange
  rw [not_space_of_range hrange]
  rfl

theorem strip_safeId {id : Text} (h : isSafeId id = true) : strip id = id := by
  refine strip_uri ?_
  rw [List.all_eq_true]
  exact fun c hc => isUriChar_of_id (List.all_eq_true.mp (isSafeId_all h) c hc)

/-! ## Digits -/

theorem digitValue_digitChar {d : Nat} (h : d < 10) : digitValue d.digitChar = some d := by
  interval_cases d <;> decide

theorem isIdChar_digitChar {d : Nat} (h : d < 10) : isIdChar d.digitChar = true := by
  interval_cases d <;> decide

theorem mem_toDigits {n : Nat} {c : Char} (h : c ∈ Nat.toDigits 10 n) :
    ∃ d < 10, c = d.digitChar := by
  induction n using Nat.strongRecOn with
  | ind n ih =>
      by_cases hn : n < 10
      · rw [Nat.toDigits_of_lt_base hn, List.mem_singleton] at h
        exact ⟨n, hn, h⟩
      · rw [Nat.toDigits_of_base_le (by decide) (Nat.le_of_not_lt hn), List.mem_append] at h
        rcases h with h | h
        · exact ih (n / 10) (Nat.div_lt_self (by omega) (by decide)) h
        · exact ⟨n % 10, Nat.mod_lt n (by decide), List.mem_singleton.mp h⟩

theorem toDigits_decimal (n : Nat) : (Nat.toDigits 10 n).all isDecimal = true := by
  rw [List.all_eq_true]
  intro c hc
  obtain ⟨d, hd, rfl⟩ := mem_toDigits hc
  rw [isDecimal, digitValue_digitChar hd]
  rfl

theorem toDigits_idChar (n : Nat) : (Nat.toDigits 10 n).all isIdChar = true := by
  rw [List.all_eq_true]
  intro c hc
  obtain ⟨d, hd, rfl⟩ := mem_toDigits hc
  exact isIdChar_digitChar hd

theorem intOf_toDigits (n : Nat) : intOf (Nat.toDigits 10 n) = n := by
  induction n using Nat.strongRecOn with
  | ind n ih =>
      by_cases hn : n < 10
      · rw [Nat.toDigits_of_lt_base hn]
        simp [intOf, digitValue_digitChar hn]
      · have hdiv := ih (n / 10) (Nat.div_lt_self (by omega) (by decide))
        rw [Nat.toDigits_of_base_le (by decide) (Nat.le_of_not_lt hn)]
        unfold intOf at hdiv ⊢
        rw [List.foldl_append, hdiv, List.foldl_cons, List.foldl_nil,
          digitValue_digitChar (Nat.mod_lt n (by decide))]
        simp only [Option.getD_some]
        omega

/-! ## Matching -/

section Matching

variable {id v : Text} {before before' after rest : List Char}
  {groups groups' : List (String × List Char)}

theorem idGroup_reaches (name : String) (h : isSafeId id = true)
    (hstop : ∀ c ∈ after.head?, isIdChar c = false) :
    (idGroup name).Reaches ⟨before, id ++ after, groups⟩
      ⟨id.reverse ++ before, after, (name, id) :: groups⟩ := by
  cases id with
  | nil => cases h
  | cons c rest =>
      obtain ⟨hc, hrest⟩ := (Bool.and_eq_true _ _).mp h
      refine Regex.Reaches.group name ?_
      have hend : (c :: rest).reverse ++ before = rest.reverse ++ (c :: before) := by simp
      rw [hend]
      exact (Regex.reaches_char hc).seq (Regex.reaches_many hrest hstop)

theorem pageGroup_reaches (name : String) (n : Nat) :
    (pageGroup name).Reaches ⟨before, Nat.toDigits 10 n, groups⟩
      ⟨(Nat.toDigits 10 n).reverse ++ before, [], (name, Nat.toDigits 10 n) :: groups⟩ := by
  have hdecimal := toDigits_decimal n
  generalize hdigits : Nat.toDigits 10 n = digits at hdecimal ⊢
  cases digits with
  | nil => exact absurd hdigits Nat.toDigits_ne_nil
  | cons c xs =>
      rw [List.all_cons, Bool.and_eq_true] at hdecimal
      have hmany := @Regex.reaches_some1 isDecimal c before [] xs groups hdecimal.1 hdecimal.2
        (by simp)
      have hgroup := hmany.group name
      rw [List.append_nil] at hgroup
      exact hgroup

/-- What a URI matches, when its fragment matches to the end. -/
theorem uri_reaches (hid : isSafeId id = true) (hstop : ∀ c ∈ after.head?, isIdChar c = false)
    (hfragment : ∀ before, ∃ before', (Regex.opt fragment).Reaches
      ⟨before, after, [("source", id)]⟩ ⟨before', [], groups'⟩) :
    ∃ before', sourceUriPattern.matchAt [] ("openlia://source/".toList ++ id ++ after) =
      some ⟨before', [], groups'⟩ := by
  have hscheme := @Regex.reaches_lit [] ('/' :: (id ++ after)) [] "openlia://source"
  have hplural : (Regex.opt (.lit "s")).Reaches
      ⟨"openlia://source".toList.reverse ++ [], '/' :: (id ++ after), []⟩
      ⟨"openlia://source".toList.reverse ++ [], '/' :: (id ++ after), []⟩ := by
    refine Regex.reaches_empty.right (Regex.fails_char ?_)
    rintro c hc
    cases hc
    rfl
  have hslash := @Regex.reaches_lit ("openlia://source".toList.reverse ++ []) (id ++ after) [] "/"
  obtain ⟨before', hfrag⟩ := hfragment
    (id.reverse ++ ("/".toList.reverse ++ ("openlia://source".toList.reverse ++ [])))
  refine ⟨before', Regex.Reaches.matchAt ?_⟩
  have htext : "openlia://source/".toList ++ id ++ after =
      "openlia://source".toList ++ '/' :: (id ++ after) := by
    have hscheme : "openlia://source/".toList = "openlia://source".toList ++ ['/'] := by decide
    rw [hscheme]
    simp
  rw [htext]
  exact (Regex.reaches_look rfl).seq <| hscheme.seq <| hplural.seq <| hslash.seq <|
    (idGroup_reaches "source" hid hstop).seq <| hfrag.seq (Regex.reaches_look rfl)

theorem hash_reaches : (Regex.lit "#").Reaches ⟨before, '#' :: rest, groups⟩
    ⟨'#' :: before, rest, groups⟩ := Regex.reaches_lit "#"

/-- No fragment. -/
theorem fragment_none : (Regex.opt fragment).Reaches ⟨before, [], groups⟩ ⟨before, [], groups⟩ := by
  have hhash : (Regex.lit "#").Fails ⟨before, [], groups⟩ := Regex.fails_char (by simp)
  exact Regex.reaches_empty.right hhash.seq

/-- A version, and nothing after it. -/
theorem fragment_version (hv : isSafeId v = true) :
    (Regex.opt fragment).Reaches ⟨before, '#' :: v, groups⟩
      ⟨v.reverse ++ '#' :: before, [], ("version", v) :: groups⟩ := by
  have hgroup := @idGroup_reaches v ('#' :: before) [] groups "version" hv nofun
  rw [List.append_nil] at hgroup
  have hpage : (Regex.opt (.seq (.lit "/p") (pageGroup "version page"))).Reaches
      ⟨v.reverse ++ '#' :: before, [], ("version", v) :: groups⟩
      ⟨v.reverse ++ '#' :: before, [], ("version", v) :: groups⟩ :=
    Regex.reaches_empty.right (Regex.Fails.seq (Regex.Fails.seq (Regex.fails_char nofun)))
  exact (hash_reaches.seq (hgroup.seq hpage).left).left

/-- A version and a page. -/
theorem fragment_versionPage (hv : isSafeId v = true) (n : Nat) :
    (Regex.opt fragment).Reaches ⟨before, '#' :: v ++ '/' :: 'p' :: Nat.toDigits 10 n, groups⟩
      ⟨(Nat.toDigits 10 n).reverse ++ ("/p".toList.reverse ++ (v.reverse ++ '#' :: before)), [],
        ("version page", Nat.toDigits 10 n) :: ("version", v) :: groups⟩ := by
  have hgroup := @idGroup_reaches v ('#' :: before) ('/' :: 'p' :: Nat.toDigits 10 n) groups
    "version" hv (by rintro c hc; cases hc; decide)
  have hlit := @Regex.reaches_lit (v.reverse ++ '#' :: before) (Nat.toDigits 10 n)
    (("version", v) :: groups) "/p"
  exact (hash_reaches.seq (hgroup.seq (hlit.seq (pageGroup_reaches _ n)).left).left).left

end Matching

/-! ## Round trips -/

section RoundTrips

variable {id v : Text} {page : Option Int} {p : Int}

theorem uriChars_id (h : isSafeId id = true) : id.all isUriChar = true := by
  rw [List.all_eq_true]
  exact fun c hc => isUriChar_of_id (List.all_eq_true.mp (isSafeId_all h) c hc)

theorem uriChars_digits (n : Nat) : (Nat.toDigits 10 n).all isUriChar = true := by
  rw [List.all_eq_true]
  exact fun c hc => isUriChar_of_id (List.all_eq_true.mp (toDigits_idChar n) c hc)

theorem safeId_ne_nil (h : isSafeId v = true) : v ≠ [] := by
  rintro rfl
  cases h

theorem shownPage_pos (h : shownPage page = some p) : 0 < p := by
  simpa using (Option.filter_eq_some_iff.mp h).2

theorem intOf_page (hp : 0 < p) : intOf (Nat.toDigits 10 p.toNat) = p := by
  rw [intOf_toDigits]
  omega

/-- What is parsed of a URI, when its fragment matches to the end. -/
theorem parse_of_fragment {fragmentText : Text} {groups : List (String × List Char)}
    (hid : isSafeId id = true) (hchars : fragmentText.all isUriChar = true)
    (hstop : ∀ c ∈ fragmentText.head?, isIdChar c = false)
    (hfragment : ∀ before, ∃ before', (Regex.opt fragment).Reaches
      ⟨before, fragmentText, [("source", id)]⟩ ⟨before', [], groups⟩) :
    parseSourceUri ("openlia://source/".toList ++ id ++ fragmentText) =
      some ⟨(groups.lookup "source").getD [], orNone ((groups.lookup "version").getD []),
        ((orNone ((groups.lookup "version page").getD [])).or
          (orNone ((groups.lookup "page").getD []))).map intOf⟩ := by
  obtain ⟨before', hmatch⟩ := uri_reaches hid hstop hfragment
  have hstrip : strip ("openlia://source/".toList ++ id ++ fragmentText) =
      "openlia://source/".toList ++ id ++ fragmentText := by
    refine strip_uri ?_
    rw [List.all_append, List.all_append, uriChars_id hid, hchars]
    decide
  rw [parseSourceUri, hstrip, hmatch]
  rfl

theorem hash_stops : ∀ c ∈ ('#' :: v).head?, isIdChar c = false := by
  rintro c hc
  cases hc
  decide

theorem parse_plain (hid : isSafeId id = true) :
    parseSourceUri ("openlia://source/".toList ++ id) = some ⟨id, none, none⟩ := by
  have hparse := @parse_of_fragment id [] [("source", id)] hid rfl nofun
    fun before => ⟨before, fragment_none⟩
  rw [List.append_nil] at hparse
  exact hparse

theorem parse_version (hid : isSafeId id = true) (hv : isSafeId v = true) :
    parseSourceUri ("openlia://source/".toList ++ id ++ '#' :: v) = some ⟨id, some v, none⟩ := by
  have hchars : ('#' :: v).all isUriChar = true := by
    rw [List.all_cons, uriChars_id hv]
    decide
  rw [parse_of_fragment hid hchars hash_stops fun before => ⟨_, fragment_version hv⟩]
  show some (⟨id, orNone v, none⟩ : SourceReference) = _
  rw [orNone, if_neg (safeId_ne_nil hv)]

theorem parse_versionPage (hid : isSafeId id = true) (hv : isSafeId v = true) (hp : 0 < p) :
    parseSourceUri ("openlia://source/".toList ++ id ++ '#' :: v ++ '/' :: pageText p) =
      some ⟨id, some v, some p⟩ := by
  have hchars : ('#' :: v ++ '/' :: pageText p).all isUriChar = true := by
    rw [List.all_append, List.all_cons, List.all_cons, pageText, List.all_cons, uriChars_id hv,
      uriChars_digits]
    decide
  rw [List.append_assoc, parse_of_fragment hid hchars hash_stops
    fun before => ⟨_, fragment_versionPage hv p.toNat⟩]
  show some (⟨id, orNone v, ((orNone (Nat.toDigits 10 p.toNat)).or none).map intOf⟩ :
    SourceReference) = _
  rw [orNone, orNone, if_neg (safeId_ne_nil hv), if_neg Nat.toDigits_ne_nil, Option.or_none,
    Option.map_some, intOf_page hp]

/-- A page without a version is taken for a version. -/
theorem parse_page (hid : isSafeId id = true) (p : Int) :
    parseSourceUri ("openlia://source/".toList ++ id ++ '#' :: pageText p) =
      some ⟨id, some (pageText p), none⟩ := by
  refine parse_version hid ?_
  show (isAlphanumeric 'p' && (Nat.toDigits 10 p.toNat).all isIdChar) = true
  rw [toDigits_idChar]
  decide

/-- The URI parses to what it was built of, and opens it. -/
structure UriRoundTrip (id : Text) (version : Option Text) (page : Option Int) : Prop where
  parses : parseSourceUri (buildSourceUri id version page) = some ⟨id, version, shownPage page⟩
  opens : openedDocument (buildSourceUri id version page) none none =
    ⟨id, version, shownPage page⟩

/-- A parsed URI opens what it parses to. -/
theorem opened_of_parse {uri : Text} {r : SourceReference} (h : parseSourceUri uri = some r) :
    openedDocument uri none none = r := by
  rw [openedDocument, h]
  rfl

theorem UriRoundTrip.of_parse {version : Option Text} (h : parseSourceUri (buildSourceUri id version
    page) = some ⟨id, version, shownPage page⟩) : UriRoundTrip id version page :=
  ⟨h, opened_of_parse h⟩

/-- A URI round-trips exactly when it has a version or no page. -/
theorem uri_round_trip_iff {version : Option Text} (hid : isSafeId id = true)
    (hversion : ∀ v, version = some v → isSafeId v = true) (page : Option Int) :
    UriRoundTrip id version page ↔ version ≠ none ∨ shownPage page = none := by
  have hstrip := strip_safeId hid
  -- the four shapes of a fragment
  cases version with
  | none =>
      cases hpage : shownPage page with
      | none =>
          have hbuild : buildSourceUri id none page = "openlia://source/".toList ++ id := by
            simp only [buildSourceUri, hpage, hstrip, Option.filter_none]
          refine ⟨fun _ => .inr rfl, fun _ => .of_parse ?_⟩
          rw [hbuild, hpage]
          exact parse_plain hid
      | some p =>
          have hbuild : buildSourceUri id none page =
              "openlia://source/".toList ++ id ++ '#' :: pageText p := by
            simp only [buildSourceUri, hpage, hstrip, Option.filter_none]
          refine ⟨fun h => ?_, fun h => ?_⟩
          · have hparses := h.parses
            rw [hbuild, parse_page hid] at hparses
            cases hparses
          · rcases h with h | h
            · exact absurd rfl h
            · cases h
  | some v =>
      have hv := hversion v rfl
      have hfilter : (some v).filter (· ≠ []) = some v := by simp [safeId_ne_nil hv]
      refine ⟨fun _ => .inl (Option.some_ne_none v), fun _ => .of_parse ?_⟩
      cases hpage : shownPage page with
      | none =>
          have hbuild : buildSourceUri id (some v) page =
              "openlia://source/".toList ++ id ++ '#' :: v := by
            simp only [buildSourceUri, hpage, hstrip, hfilter]
          rw [hbuild]
          exact parse_version hid hv
      | some p =>
          have hbuild : buildSourceUri id (some v) page =
              "openlia://source/".toList ++ id ++ '#' :: v ++ '/' :: pageText p := by
            simp only [buildSourceUri, hpage, hstrip, hfilter]
          rw [hbuild]
          exact parse_versionPage hid hv (shownPage_pos hpage)

end RoundTrips

/-- The third page of a version. -/
theorem uri_round_trip_invoice :
    UriRoundTrip "src_1".toList (some "ver_001".toList) (some 3) :=
  (uri_round_trip_iff (by decide) (by rintro v hv; cases hv; decide) (some 3)).mpr
    (.inl (Option.some_ne_none _))

/-- Page five of a source opens a version `p5`. -/
theorem page_opens_version :
    openedDocument (buildSourceUri "src_1".toList none (some 5)) none none =
        ⟨"src_1".toList, some "p5".toList, none⟩ ∧
      ¬ UriRoundTrip "src_1".toList none (some 5) := by
  have hopen : openedDocument (buildSourceUri "src_1".toList none (some 5)) none none =
      ⟨"src_1".toList, some "p5".toList, none⟩ := by decide
  refine ⟨hopen, fun h => ?_⟩
  have hopens := h.opens
  rw [hopen] at hopens
  cases hopens

end Openlia.Ingestion

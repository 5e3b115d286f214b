import Openlia.Lib.Separators

/-! # Percent-encoded texts

UTF-8 is read by a machine that takes one byte at a time. Components of addresses and the pairs of
a query are percent-encoded texts, which are read back with it.
-/

namespace Openlia.Lib.Percent

abbrev Text := List Char

/-- What is tested of each character of a text. -/
theorem forall_mem_of_all {s : Text} {P : Char → Prop} [DecidablePred P]
    (h : s.all (fun c => decide (P c)) = true) : ∀ c ∈ s, P c :=
  fun c hc => of_decide_eq_true (List.all_eq_true.mp h c hc)

/-! ## UTF-8 -/

/-- The bytes of a character. -/
def utf8 (c : Char) : List Nat :=
  let n := c.toNat
  if n < 0x80 then [n]
  else if n < 0x800 then [0xC0 + n / 64, 0x80 + n % 64]
  else if n < 0x10000 then [0xE0 + n / 4096, 0x80 + n / 64 % 64, 0x80 + n % 64]
  else [0xF0 + n / 262144, 0x80 + n / 4096 % 64, 0x80 + n / 64 % 64, 0x80 + n % 64]

/-- Part of a character: the bits so far, the bounds of the next byte and how many follow it. -/
structure Pending where
  bits : Nat
  lower : Nat
  upper : Nat
  more : Nat

def first (b : Nat) : Option (Option Char × Option Pending) :=
  if b < 0x80 then some (some (Char.ofNat b), none)
  else if b < 0xC2 then none
  else if b < 0xE0 then some (none, some ⟨b - 0xC0, 0x80, 0xBF, 0⟩)
  else if b < 0xF0 then
    some (none, some ⟨b - 0xE0, if b = 0xE0 then 0xA0 else 0x80, if b = 0xED then 0x9F else 0xBF, 1⟩)
  else if b < 0xF5 then
    some (none, some ⟨b - 0xF0, if b = 0xF0 then 0x90 else 0x80, if b = 0xF4 then 0x8F else 0xBF, 2⟩)
  else none

/-- One byte; none where it cannot stand there. -/
def next (st : Option Pending) (b : Nat) : Option (Option Char × Option Pending) :=
  match st with
  | none => first b
  | some p =>
      if p.lower ≤ b ∧ b ≤ p.upper then
        match p.more with
        | 0 => some (some (Char.ofNat (p.bits * 64 + (b - 0x80))), none)
        | more + 1 => some (none, some ⟨p.bits * 64 + (b - 0x80), 0x80, 0xBF, more⟩)
      else none

def feed : Option Pending → List Nat → Option (Text × Option Pending)
  | st, [] => some ([], st)
  | st, b :: bytes => do
      let (c, st) ← next st b
      let (out, st) ← feed st bytes
      some (c.toList ++ out, st)

def replacement : Char := '\uFFFD'

/-- A replacement character stands for what is no UTF-8; a byte that does not go on with a
character may begin another one. -/
def nextOrReplacement (st : Option Pending) (b : Nat) : Text × Option Pending :=
  match next st b with
  | some (c, st) => (c.toList, st)
  | none =>
      if st.isNone then ([replacement], none)
      else match first b with
        | some (c, st) => (replacement :: c.toList, st)
        | none => ([replacement, replacement], none)

def decodeFrom : Option Pending → List Nat → Text
  | st, [] => if st.isNone then [] else [replacement]
  | st, b :: bytes =>
      (nextOrReplacement st b).1 ++ decodeFrom (nextOrReplacement st b).2 bytes

def decodeUtf8 (bytes : List Nat) : Text := decodeFrom none bytes

section Utf8

variable {c : Char} {st st' : Option Pending} {bytes : List Nat} {out : Text}

theorem toNat_valid (c : Char) : c.toNat < 0xD800 ∨ 0xDFFF < c.toNat ∧ c.toNat < 0x110000 := c.valid

theorem utf8_lt (c : Char) : ∀ b ∈ utf8 c, b < 256 := by
  have hvalid := toNat_valid c
  simp only [utf8]
  split_ifs <;> simp only [List.mem_cons, List.not_mem_nil, or_false] <;> omega

/-- The bytes of a character are read as this character. -/
theorem feed_utf8 (c : Char) : feed none (utf8 c) = some ([c], none) := by
  have hvalid := toNat_valid c
  have hlast : ∀ n, n = c.toNat → Char.ofNat n = c := fun n hn => hn ▸ Char.ofNat_toNat c
  simp only [utf8]
  split_ifs with h1 h2 h3
  · simp [feed, next, first, h1]
  · simp only [feed, next, first]
    rw [if_neg (by omega), if_neg (by omega), if_pos (by omega)]
    simp only [Option.bind_eq_bind, Option.bind_some]
    rw [if_pos (by omega), hlast _ (by omega)]
    rfl
  · simp only [feed, next, first]
    rw [if_neg (by omega), if_neg (by omega), if_neg (by omega), if_pos (by omega)]
    simp only [Option.bind_eq_bind, Option.bind_some]
    rw [if_pos (by split_ifs <;> omega)]
    simp only [Option.bind_some]
    rw [if_pos (by omega), hlast _ (by omega)]
    rfl
  · simp only [feed, next, first]
    rw [if_neg (by omega), if_neg (by omega), if_neg (by omega), if_neg (by omega),
      if_pos (by omega)]
    simp only [Option.bind_eq_bind, Option.bind_some]
    rw [if_pos (by split_ifs <;> omega)]
    simp only [Option.bind_some]
    rw [if_pos (by omega)]
    simp only [Option.bind_some]
    rw [if_pos (by omega), hlast _ (by omega)]
    rfl

theorem decodeFrom_feed (h : feed st bytes = some (out, st')) (rest : List Nat) :
    decodeFrom st (bytes ++ rest) = out ++ decodeFrom st' rest := by
  induction bytes generalizing st out with
  | nil =>
      cases h
      rfl
  | cons b bytes ih =>
      simp only [feed, Option.bind_eq_bind, Option.bind_eq_some_iff] at h
      obtain ⟨⟨c, mid⟩, hnext, ⟨tail, last⟩, hfeed, heq⟩ := h
      cases heq
      have hstep : nextOrReplacement st b = (c.toList, mid) := by rw [nextOrReplacement, hnext]
      rw [List.cons_append, decodeFrom, hstep, ih hfeed, List.append_assoc]

theorem decodeUtf8_flatMap (s : Text) : decodeUtf8 (s.flatMap utf8) = s := by
  unfold decodeUtf8
  induction s with
  | nil => rfl
  | cons c s ih => rw [List.flatMap_cons, decodeFrom_feed (feed_utf8 c), ih, List.singleton_append]

end Utf8

/-! ## Percent-encoding -/

def hexDigit (n : Nat) : Char := if n < 10 then Char.ofNat (48 + n) else Char.ofNat (55 + n)

def hexValue (c : Char) : Option Nat :=
  if '0' ≤ c ∧ c ≤ '9' then some (c.toNat - 48)
  else if 'A' ≤ c ∧ c ≤ 'F' then some (c.toNat - 55)
  else if 'a' ≤ c ∧ c ≤ 'f' then some (c.toNat - 87)
  else none

theorem hexValue_hexDigit : ∀ n < 16, hexValue (hexDigit n) = some n := by decide

theorem hexDigit_alphanum : ∀ n < 16, (hexDigit n).isAlphanum = true := by decide

def percentByte (b : Nat) : Text := ['%', hexDigit (b / 16), hexDigit (b % 16)]

/-- Characters that are not kept are written as the bytes of UTF-8. -/
def encode (keep : Char → Bool) (s : Text) : Text :=
  s.flatMap fun c => if keep c then [c] else (utf8 c).flatMap percentByte

def decodeComponentFrom : Option Pending → Text → Option Text
  | st, [] => if st.isNone then some [] else none
  | st, '%' :: high :: low :: rest => do
      let high ← hexValue high
      let low ← hexValue low
      let (c, st) ← next st (16 * high + low)
      (decodeComponentFrom st rest).map (c.toList ++ ·)
  | st, c :: rest =>
      if c ≠ '%' ∧ st.isNone then (decodeComponentFrom none rest).map (c :: ·) else none

def componentKeep (c : Char) : Bool := c.isAlphanum || c ∈ "-_.!~*'()".toList

def encodeURIComponent (s : Text) : Text := encode componentKeep s

/-- `decodeURIComponent`; none where it throws. -/
def decodeURIComponent (s : Text) : Option Text := decodeComponentFrom none s

/-- The bytes that percent-encoded ones stand for; other characters stand for their own bytes. -/
def percentDecode : Text → List Nat
  | '%' :: high :: low :: rest =>
      match hexValue high, hexValue low with
      | some a, some b => (16 * a + b) :: percentDecode rest
      | _, _ => utf8 '%' ++ percentDecode (high :: low :: rest)
  | c :: rest => utf8 c ++ percentDecode rest
  | [] => []

section Encoding

variable {keep : Char → Bool} {s t out : Text} {st st' : Option Pending} {bytes : List Nat}

theorem encode_cons (c : Char) (s : Text) : encode keep (c :: s) =
    (if keep c then [c] else (utf8 c).flatMap percentByte) ++ encode keep s := rfl

theorem encode_of_keep (h : ∀ c ∈ s, keep c = true) : encode keep s = s := by
  induction s with
  | nil => rfl
  | cons c s ih =>
      rw [encode_cons, if_pos (h c List.mem_cons_self), ih fun d hd => h d (List.mem_cons_of_mem c hd)]
      rfl

theorem mem_encode {c : Char} (h : c ∈ encode keep s) :
    keep c = true ∨ c = '%' ∨ c.isAlphanum = true := by
  obtain ⟨d, -, hd⟩ := List.mem_flatMap.mp h
  split at hd
  · rename_i hkeep
    exact Or.inl (List.mem_singleton.mp hd ▸ hkeep)
  · obtain ⟨b, hb, hc⟩ := List.mem_flatMap.mp hd
    have hlt := utf8_lt d b hb
    simp only [percentByte, List.mem_cons, List.not_mem_nil, or_false] at hc
    rcases hc with rfl | rfl | rfl
    · exact Or.inr (Or.inl rfl)
    · exact Or.inr (Or.inr (hexDigit_alphanum _ (by omega)))
    · exact Or.inr (Or.inr (hexDigit_alphanum _ (by omega)))

theorem hexValue_byte {b : Nat} (h : b < 256) : hexValue (hexDigit (b / 16)) = some (b / 16) ∧
    hexValue (hexDigit (b % 16)) = some (b % 16) ∧ 16 * (b / 16) + b % 16 = b :=
  ⟨hexValue_hexDigit _ (by omega), hexValue_hexDigit _ (by omega), by omega⟩

theorem decodeComponentFrom_feed (hbytes : ∀ b ∈ bytes, b < 256)
    (h : feed st bytes = some (out, st')) (rest : Text) :
    decodeComponentFrom st (bytes.flatMap percentByte ++ rest) =
      (decodeComponentFrom st' rest).map (out ++ ·) := by
  induction bytes generalizing st out with
  | nil =>
      cases h
      simp
  | cons b bytes ih =>
      simp only [feed, Option.bind_eq_bind, Option.bind_eq_some_iff] at h
      obtain ⟨⟨c, mid⟩, hnext, ⟨tail, last⟩, hfeed, heq⟩ := h
      cases heq
      obtain ⟨hhigh, hlow, hbyte⟩ := hexValue_byte (hbytes b List.mem_cons_self)
      simp only [List.flatMap_cons, percentByte, List.cons_append, List.nil_append]
      rw [decodeComponentFrom, hhigh, hlow]
      simp only [Option.bind_eq_bind, Option.bind_some, hbyte, hnext]
      rw [ih (fun b hb => hbytes b (List.mem_cons_of_mem _ hb)) hfeed, Option.map_map]
      simp [Function.comp_def]

theorem decodeComponentFrom_plain {c : Char} (h : c ≠ '%') (rest : Text) :
    decodeComponentFrom none (c :: rest) = (decodeComponentFrom none rest).map (c :: ·) := by
  rw [decodeComponentFrom, if_pos ⟨h, rfl⟩]
  exact fun high low rest heq => absurd heq h

theorem decodeComponentFrom_encode (hkeep : ∀ c, keep c = true → c ≠ '%') (s rest : Text) :
    decodeComponentFrom none (encode keep s ++ rest) =
      (decodeComponentFrom none rest).map (s ++ ·) := by
  induction s with
  | nil => simp [encode]
  | cons c s ih =>
      rw [encode_cons, List.append_assoc]
      split
      · rename_i hc
        rw [List.singleton_append, decodeComponentFrom_plain (hkeep c hc), ih, Option.map_map]
        rfl
      · rw [decodeComponentFrom_feed (utf8_lt c) (feed_utf8 c), ih, Option.map_map]
        rfl

/-- What was encoded is read back. -/
theorem decodeURIComponent_encode (hkeep : ∀ c, keep c = true → c ≠ '%') (s : Text) :
    decodeURIComponent (encode keep s) = some s := by
  have h := decodeComponentFrom_encode hkeep s []
  rwa [List.append_nil, decodeComponentFrom, if_pos Option.isNone_none, Option.map_some,
    List.append_nil] at h

theorem percentDecode_plain {c : Char} (h : c ≠ '%') (rest : Text) :
    percentDecode (c :: rest) = utf8 c ++ percentDecode rest := by
  rw [percentDecode]
  exact fun high low rest heq => absurd heq h

theorem percentDecode_bytes (h : ∀ b ∈ bytes, b < 256) (rest : Text) :
    percentDecode (bytes.flatMap percentByte ++ rest) = bytes ++ percentDecode rest := by
  induction bytes with
  | nil => rfl
  | cons b bytes ih =>
      obtain ⟨hhigh, hlow, hbyte⟩ := hexValue_byte (h b List.mem_cons_self)
      simp only [List.flatMap_cons, percentByte, List.cons_append, List.nil_append]
      rw [percentDecode, hhigh, hlow]
      simp only [hbyte]
      rw [ih fun b hb => h b (List.mem_cons_of_mem _ hb)]

theorem percentDecode_encode (hkeep : ∀ c, keep c = true → c ≠ '%') (s : Text) :
    percentDecode (encode keep s) = s.flatMap utf8 := by
  induction s with
  | nil => rfl
  | cons c s ih =>
      rw [encode_cons, List.flatMap_cons]
      split
      · rename_i hc
        rw [List.singleton_append, percentDecode_plain (hkeep c hc), ih]
      · rw [percentDecode_bytes (utf8_lt c), ih]

theorem percent_of_componentKeep (c : Char) (h : componentKeep c = true) : c ≠ '%' := by
  rintro rfl
  revert h
  decide

theorem decode_encodeURIComponent (s : Text) :
    decodeURIComponent (encodeURIComponent s) = some s :=
  decodeURIComponent_encode percent_of_componentKeep s

/-- Components with a separator between them are read back together. -/
theorem decode_intercalate {c : Char} (hc : c ≠ '%') (l : List Text) :
    decodeURIComponent ([c].intercalate (l.map encodeURIComponent)) = some ([c].intercalate l) := by
  induction l with
  | nil => rfl
  | cons s l ih =>
      cases l with
      | nil => simpa using decode_encodeURIComponent s
      | cons t l =>
          rw [List.map_cons] at ih ⊢
          rw [List.map_cons, List.intercalate_cons_cons, List.intercalate_cons_cons,
            List.append_assoc, List.append_assoc, decodeURIComponent, encodeURIComponent,
            decodeComponentFrom_encode percent_of_componentKeep, List.singleton_append,
            decodeComponentFrom_plain hc]
          rw [decodeURIComponent] at ih
          rw [ih]
          rfl

end Encoding

/-! ## Queries -/

def formKeep (c : Char) : Bool := c.isAlphanum || c ∈ "*-._ ".toList

def spaceToPlus (c : Char) : Char := if c = ' ' then '+' else c

def plusToSpace (c : Char) : Char := if c = '+' then ' ' else c

/-- One component of `application/x-www-form-urlencoded`. -/
def formEncode (s : Text) : Text := (encode formKeep s).map spaceToPlus

def formDecode (s : Text) : Text := decodeUtf8 (percentDecode (s.map plusToSpace))

/-- `URLSearchParams.toString` -/
def serialize (params : List (Text × Text)) : Text :=
  ['&'].intercalate (params.map fun p => formEncode p.1 ++ '=' :: formEncode p.2)

/-- The pairs of a query. -/
def parseForm (query : Text) : List (Text × Text) :=
  ((query.splitOn '&').filter (· ≠ [])).map fun part =>
    (formDecode (part.takeWhile (· ≠ '=')), formDecode ((part.dropWhile (· ≠ '=')).drop 1))

section Queries

variable {s : Text} {c : Char}

theorem mem_formEncode (h : c ∈ formEncode s) :
    c.isAlphanum = true ∨ c ∈ "*-._+%".toList := by
  obtain ⟨d, hd, rfl⟩ := List.mem_map.mp h
  rcases mem_encode hd with hkeep | rfl | halpha
  · rw [formKeep, Bool.or_eq_true, decide_eq_true_eq] at hkeep
    rcases hkeep with halpha | hmem
    · by_cases hspace : d = ' '
      · subst hspace
        decide
      · rw [spaceToPlus, if_neg hspace]
        exact Or.inl halpha
    · have hall : ∀ d ∈ "*-._ ".toList, spaceToPlus d ∈ "*-._+%".toList :=
        forall_mem_of_all (by decide)
      exact Or.inr (hall d hmem)
  · decide
  · by_cases hspace : d = ' '
    · subst hspace
      decide
    · rw [spaceToPlus, if_neg hspace]
      exact Or.inl halpha

theorem mem_serialize {params : List (Text × Text)} (h : c ∈ serialize params) :
    c.isAlphanum = true ∨ c ∈ "*-._+%=&".toList := by
  have hform : ∀ {s : Text}, c ∈ formEncode s → c.isAlphanum = true ∨ c ∈ "*-._+%=&".toList :=
    fun hc => (mem_formEncode hc).imp_right fun hmem =>
      (forall_mem_of_all (by decide) : ∀ c ∈ "*-._+%".toList, c ∈ "*-._+%=&".toList) c hmem
  rcases mem_intercalate h with rfl | ⟨part, hpart, hc⟩
  · decide
  · obtain ⟨p, -, rfl⟩ := List.mem_map.mp hpart
    rcases List.mem_append.mp hc with hc | hc
    · exact hform hc
    · rcases List.mem_cons.mp hc with rfl | hc
      · decide
      · exact hform hc

theorem formDecode_formEncode (s : Text) : formDecode (formEncode s) = s := by
  have hkeep : ∀ c, formKeep c = true → c ≠ '%' := by
    rintro c hc rfl
    revert hc
    decide
  have hplain : ((encode formKeep s).map spaceToPlus).map plusToSpace = encode formKeep s := by
    rw [List.map_map]
    refine (List.map_congr_left fun c hc => ?_).trans (List.map_id _)
    have hplus : c ≠ '+' := by
      rintro rfl
      rcases mem_encode hc with h | h | h <;> revert h <;> decide
    by_cases hspace : c = ' '
    · subst hspace
      rfl
    · simp [spaceToPlus, plusToSpace, hspace, hplus]
  rw [formDecode, formEncode, hplain, percentDecode_encode hkeep, decodeUtf8_flatMap]

/-- The pairs of a query are read back. -/
theorem parseForm_serialize (params : List (Text × Text)) : parseForm (serialize params) = params := by
  have hnot : ∀ (s : Text), '&' ∉ formEncode s ∧ '=' ∉ formEncode s := by
    intro s
    constructor <;> intro h <;> rcases mem_formEncode h with h | h <;> revert h <;> decide
  have hpart : ∀ part ∈ params.map fun p => formEncode p.1 ++ '=' :: formEncode p.2,
      '&' ∉ part ∧ part ≠ [] := by
    intro part hp
    obtain ⟨p, -, rfl⟩ := List.mem_map.mp hp
    simp [hnot]
  by_cases hparams : params = []
  · subst hparams
    rfl
  · rw [parseForm, serialize, List.splitOn_intercalate '&' (fun part hp => (hpart part hp).1)
      (by simpa using hparams), List.filter_eq_self.mpr (fun part hp => by simpa using (hpart part hp).2),
      List.map_map]
    refine (List.map_congr_left fun p _ => ?_).trans (List.map_id _)
    have hcut := takeWhile_ne_append (hnot p.1).2 (formEncode p.2)
    have hrest := dropWhile_ne_append (hnot p.1).2 (formEncode p.2)
    simp only [Function.comp_apply, hcut, hrest, List.drop_succ_cons, List.drop_zero,
      formDecode_formEncode]
    rfl

end Queries

end Openlia.Lib.Percent

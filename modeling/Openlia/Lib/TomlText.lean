import Openlia.Lib.Toml

/-! # JSON literals in TOML documents

A JSON string in ASCII is a basic string of TOML, except that TOML knows no surrogate
pairs: a character beyond the basic plane makes the literal an error.
-/

namespace Openlia.Lib.Toml

/-- The character has a single JSON escape. -/
def InPlane (c : Char) : Prop := c.toNat < 65536

instance : DecidablePred InPlane := fun c => inferInstanceAs (Decidable (c.toNat < 65536))

theorem forall_of_all {P : Char → Prop} [DecidablePred P] {l : List Char}
    (h : (l.all fun c => decide (P c)) = true) : ∀ c ∈ l, P c :=
  fun c hc => of_decide_eq_true (List.all_eq_true.mp h c hc)

/-! ## Escapes -/

theorem hexValue_hexDigit : ∀ n < 16, hexValue (hexDigit n) = some n := by decide

theorem hexNumber_digits (n : Nat) (hn : n < 65536) :
    hexNumber [hexDigit (n / 4096 % 16), hexDigit (n / 256 % 16), hexDigit (n / 16 % 16),
      hexDigit (n % 16)] = some n := by
  have hdigit : ∀ k, hexValue (hexDigit (k % 16)) = some (k % 16) :=
    fun k => hexValue_hexDigit _ (Nat.mod_lt k (by decide))
  simp only [hexNumber, List.foldlM_cons, List.foldlM_nil, hdigit, Option.map_some,
    Option.bind_eq_bind, Option.bind_some, Option.pure_def]
  congr 1
  omega

theorem scalar_toNat (c : Char) : scalar c.toNat = some c := by
  have hvalid : c.toNat < 0xd800 ∨ (0xe000 ≤ c.toNat ∧ c.toNat < 0x110000) := by
    have h := c.valid
    simp only [UInt32.isValidChar, Nat.isValidChar] at h
    simp only [Char.toNat]
    omega
  rw [scalar, if_pos hvalid, Char.ofNat_toNat]

theorem stringChar_unicodeEscape {c : Char} (hc : InPlane c) (r : List Char) :
    stringChar (unicodeEscape c ++ r) = some (c, r) := by
  simp only [unicodeEscape, List.cons_append, List.nil_append, stringChar, escaped]
  rw [if_neg (by simp)]
  simp only [List.take_succ_cons, List.take_zero, List.drop_succ_cons, List.drop_zero,
    hexNumber_digits _ hc, Option.bind_some, scalar_toNat, Option.map_some]

theorem stringChar_asciiEscape {c : Char} (hc : InPlane c) (r : List Char) :
    stringChar (asciiEscape c ++ r) = some (c, r) := by
  have hshort : ∀ p ∈ shortEscapes, ∀ t, stringChar ('\\' :: p.2 :: t) = some (p.1, t) := by
    intro p hp t
    simp only [shortEscapes, List.mem_cons, List.not_mem_nil, or_false] at hp
    rcases hp with rfl | rfl | rfl | rfl | rfl | rfl | rfl <;> rfl
  rw [asciiEscape, if_neg (Nat.not_le.mpr hc)]
  rcases escapeWith_cases isPlaneNonAscii c with
    ⟨x, hx, he⟩ | ⟨-, -, he⟩ | ⟨hplain, -, hslash, he⟩
  · rw [he]
    exact hshort _ (mem_shortEscapes hx) r
  · rw [he]
    exact stringChar_unicodeEscape hc r
  · rw [he]
    have hprint : ¬ ((c.toNat < 32 ∧ c ≠ '\t') ∨ c.toNat = 127) := by
      simp only [isPlaneNonAscii, Bool.or_eq_false_iff, decide_eq_false_iff_not,
        Bool.and_eq_false_iff] at hplain
      have := hc
      simp only [InPlane] at this
      omega
    rw [List.singleton_append, stringChar, if_neg hprint]
    exact hslash

theorem asciiEscape_ne_nil (c : Char) : asciiEscape c ≠ [] := by
  intro h
  unfold asciiEscape at h
  split at h
  · cases h
  · rcases escapeWith_cases isPlaneNonAscii c with ⟨x, -, he⟩ | ⟨-, -, he⟩ | ⟨-, -, -, he⟩ <;>
      rw [he] at h <;> cases h

/-! ## Strings -/

theorem stringRest_char {text rest : List Char} {c : Char} {fuel : Nat}
    (hquote : ∀ r, text ≠ '"' :: r) (hchar : stringChar text = some (c, rest)) :
    stringRest (fuel + 1) text = (stringRest fuel rest).map fun p => (c :: p.1, p.2) := by
  rw [stringRest]
  · rw [hchar]
    simp only [Option.bind_eq_bind, Option.bind_some]
    cases stringRest fuel rest <;> rfl
  · exact hquote

theorem stringRest_escape {s r : List Char} {fuel : Nat} (hs : ∀ c ∈ s, InPlane c)
    (hfuel : s.length < fuel) :
    stringRest fuel (s.flatMap asciiEscape ++ '"' :: r) = some (s, r) := by
  induction s generalizing fuel with
  | nil =>
      cases fuel with
      | zero => exact absurd hfuel (by simp)
      | succ fuel => rfl
  | cons c s ih =>
      cases fuel with
      | zero => exact absurd hfuel (by simp)
      | succ fuel =>
          rw [List.flatMap_cons, List.append_assoc,
            stringRest_char (fun _ => asciiEscape_noQuote)
              (stringChar_asciiEscape (hs c List.mem_cons_self) _),
            ih (fun d hd => hs d (List.mem_cons_of_mem c hd)) (by simpa using hfuel)]
          rfl

/-- The characters are fewer than those that follow the opening quote. -/
theorem length_lt_escape (s r : List Char) :
    s.length < (s.flatMap asciiEscape ++ '"' :: r).length := by
  induction s with
  | nil => simp
  | cons c s ih =>
      have hpos := List.length_pos_iff.mpr (asciiEscape_ne_nil c)
      simp only [List.flatMap_cons, List.append_assoc, List.length_append,
        List.length_cons] at ih ⊢
      omega

theorem quoteWith_append (s r : List Char) :
    quoteWith asciiEscape s ++ r = '"' :: (s.flatMap asciiEscape ++ '"' :: r) := by
  simp [quoteWith]

theorem basicString_quote {s : List Char} (r : List Char) (hs : ∀ c ∈ s, InPlane c) :
    basicString (quoteWith asciiEscape s ++ r) = some (s, r) := by
  rw [quoteWith_append, basicString]
  exact stringRest_escape hs (length_lt_escape s r)

/-! ## Values -/

/-- `json.dumps` of a list of strings. -/
def jsonStrings : List (List Char) → List Char
  | [] => ['[', ']']
  | s :: items =>
      '[' :: (quoteWith asciiEscape s ++
        (items.flatMap fun t => ',' :: ' ' :: quoteWith asciiEscape t) ++ [']'])

theorem arrayRest_items {items : List (List Char)} {r : List Char} {fuel : Nat}
    (hitems : ∀ s ∈ items, ∀ c ∈ s, InPlane c) (hfuel : items.length < fuel) :
    arrayRest fuel ((items.flatMap fun t => ',' :: ' ' :: quoteWith asciiEscape t) ++ ']' :: r) =
      some (items, r) := by
  induction items generalizing fuel with
  | nil =>
      cases fuel with
      | zero => exact absurd hfuel (by simp)
      | succ fuel => rfl
  | cons s items ih =>
      cases fuel with
      | zero => exact absurd hfuel (by simp)
      | succ fuel =>
          simp only [List.flatMap_cons, List.cons_append, List.append_assoc, arrayRest,
            basicString_quote _ (hitems s List.mem_cons_self), Option.bind_eq_bind,
            Option.bind_some]
          rw [ih (fun t ht => hitems t (List.mem_cons_of_mem s ht)) (by simpa using hfuel)]
          rfl

theorem length_lt_items (items : List (List Char)) (r : List Char) :
    items.length <
      ((items.flatMap fun t => ',' :: ' ' :: quoteWith asciiEscape t) ++ ']' :: r).length := by
  induction items with
  | nil => simp
  | cons s items ih =>
      simp only [List.flatMap_cons, List.append_assoc, List.length_append,
        List.length_cons] at ih ⊢
      omega

theorem value_str {s : List Char} (hs : ∀ c ∈ s, InPlane c) :
    value (quoteWith asciiEscape s) = some (.str s) := by
  have hquote := quoteWith_append s []
  rw [List.append_nil] at hquote
  have hbasic := basicString_quote [] hs
  rw [List.append_nil, hquote] at hbasic
  rw [hquote, value, hbasic]

theorem value_strs {items : List (List Char)} (hitems : ∀ s ∈ items, ∀ c ∈ s, InPlane c) :
    value (jsonStrings items) = some (.strs items) := by
  cases items with
  | nil => rfl
  | cons s items =>
      have harray : array (quoteWith asciiEscape s ++
          (items.flatMap fun t => ',' :: ' ' :: quoteWith asciiEscape t) ++ [']']) =
            some (s :: items, []) := by
        rw [List.append_assoc, array]
        · rw [basicString_quote _ (hitems s List.mem_cons_self)]
          simp only [Option.bind_eq_bind, Option.bind_some]
          rw [arrayRest_items (fun t ht => hitems t (List.mem_cons_of_mem s ht))
            (length_lt_items items [])]
          rfl
        · rw [quoteWith_append]
          rintro r h
          cases h
      rw [jsonStrings, value, harray]

/-! ## Lines -/

/-- A printable character of ASCII. -/
def Printable (c : Char) : Prop := 32 ≤ c.toNat ∧ c.toNat ≤ 126

instance : DecidablePred Printable := fun c =>
  inferInstanceAs (Decidable (32 ≤ c.toNat ∧ c.toNat ≤ 126))

theorem printable_hexDigit : ∀ n < 16, Printable (hexDigit n) := by decide

theorem printable_asciiEscape (c : Char) : ∀ d ∈ asciiEscape c, Printable d := by
  have hdigit : ∀ k, Printable (hexDigit (k % 16)) :=
    fun k => printable_hexDigit _ (Nat.mod_lt k (by decide))
  have hmark : Printable '\\' ∧ Printable 'u' := by decide
  unfold asciiEscape
  split
  · simp only [surrogateEscape, List.forall_mem_cons, hdigit, hmark, true_and]
    simp
  · rename_i hc
    rcases escapeWith_cases isPlaneNonAscii c with
      ⟨x, hx, he⟩ | ⟨-, -, he⟩ | ⟨hplain, -, -, he⟩
    · have hshort : ∀ p ∈ shortEscapes, Printable p.2 := by decide
      rw [he]
      simp [hmark, hshort _ (mem_shortEscapes hx)]
    · rw [he, unicodeEscape]
      simp [hmark, hdigit]
    · rw [he]
      simp only [isPlaneNonAscii, Bool.or_eq_false_iff, decide_eq_false_iff_not,
        Bool.and_eq_false_iff] at hplain
      intro d hd
      rw [List.mem_singleton.mp hd]
      constructor <;> omega

theorem printable_quote (s : List Char) : ∀ d ∈ quoteWith asciiEscape s, Printable d := by
  intro d hd
  simp only [quoteWith, List.mem_cons, List.mem_append, List.mem_flatMap, List.not_mem_nil,
    or_false] at hd
  rcases hd with rfl | ⟨c, -, hd⟩ | rfl
  · decide
  · exact printable_asciiEscape c d hd
  · decide

theorem printable_jsonStrings (items : List (List Char)) :
    ∀ d ∈ jsonStrings items, Printable d := by
  cases items with
  | nil => exact forall_of_all (by decide)
  | cons s items =>
      intro d hd
      simp only [jsonStrings, List.mem_cons, List.mem_append, List.mem_flatMap, List.not_mem_nil,
        or_false] at hd
      rcases hd with rfl | (hd | ⟨t, -, rfl | rfl | hd⟩) | rfl
      · decide
      · exact printable_quote s d hd
      · decide
      · decide
      · exact printable_quote t d hd
      · decide

theorem printable_ne_newline {c : Char} (h : Printable c) : c ≠ '\n' := by
  rintro rfl
  exact absurd h (by decide)

theorem bareKey_iff {key : List Char} :
    bareKey key = true ↔ key ≠ [] ∧ ∀ c ∈ key, isBare c = true := by
  simp [bareKey]

/-- A line that starts with a bare key. -/
theorem parseLine_pair {key : List Char} (text : List Char) (hkey : bareKey key = true) :
    parseLine (key ++ ' ' :: '=' :: ' ' :: text) = (value text).map (.pair key) := by
  obtain ⟨hne, hbare⟩ := bareKey_iff.mp hkey
  have htake : (key ++ ' ' :: '=' :: ' ' :: text).takeWhile isBare = key := by
    rw [List.takeWhile_append_of_pos hbare, List.takeWhile_cons_of_neg (by decide),
      List.append_nil]
  have hdrop : (key ++ ' ' :: '=' :: ' ' :: text).dropWhile isBare =
      ' ' :: '=' :: ' ' :: text := by
    rw [List.dropWhile_append_of_pos hbare, List.dropWhile_cons_of_neg (by decide)]
  have hline : parseLine (key ++ ' ' :: '=' :: ' ' :: text) =
      pairLine (key ++ ' ' :: '=' :: ' ' :: text) := by
    obtain ⟨c, rest, rfl⟩ := List.exists_cons_of_ne_nil hne
    rw [List.cons_append, parseLine]
    · simp
    · intro r h
      rw [(List.cons.inj h).1] at hbare
      exact absurd (hbare '[' List.mem_cons_self) (by decide)
  simp only [hline, pairLine, htake, hdrop, if_neg hne]

theorem bareKey_noDot {key : List Char} (hkey : bareKey key = true) : '.' ∉ key := by
  intro h
  exact absurd ((bareKey_iff.mp hkey).2 '.' h) (by decide)

theorem parseLine_header {keys : List (List Char)} (hne : keys ≠ [])
    (hkeys : ∀ key ∈ keys, bareKey key = true) :
    parseLine ('[' :: (List.intercalate ['.'] keys ++ [']'])) = some (.header keys) := by
  have hsplit : (List.intercalate ['.'] keys).splitOn '.' = keys :=
    List.splitOn_intercalate '.' (fun key hkey => bareKey_noDot (hkeys key hkey)) hne
  rw [parseLine, headerRest, if_pos (by simp), List.dropLast_concat, hsplit]
  simp only [List.all_eq_true]
  rw [if_pos hkeys]

/-! ## Written lines -/

mutual

/-- `json.dumps`. -/
def dumps : Value → List Char
  | .str s => quoteWith asciiEscape s
  | .int n => Nat.toDigits 10 n
  | .strs items => jsonStrings items
  | .table ms => '{' :: (dumpsMembers ms ++ ['}'])

def dumpsMembers : List (List Char × Value) → List Char
  | [] => []
  | (k, v) :: ms =>
      quoteWith asciiEscape k ++ ':' :: ' ' :: dumps v ++
        (if ms.isEmpty then [] else ',' :: ' ' :: dumpsMembers ms)

end

def pairText (key : List Char) (v : Value) : List Char := key ++ ' ' :: '=' :: ' ' :: dumps v

def lineText : Line → List Char
  | .blank => []
  | .header keys => '[' :: (List.intercalate ['.'] keys ++ [']'])
  | .pair key v => pairText key v

theorem notMem_intercalate {a : Char} {sep : List Char} {ls : List (List Char)} (hsep : a ∉ sep)
    (hls : ∀ l ∈ ls, a ∉ l) : a ∉ List.intercalate sep ls := by
  induction ls with
  | nil => exact List.not_mem_nil
  | cons l ls ih =>
      have hrest := ih fun l' hl' => hls l' (List.mem_cons_of_mem l hl')
      have hfirst := hls l List.mem_cons_self
      cases ls with
      | nil => simpa using hfirst
      | cons l' ls =>
          rw [List.intercalate_cons_cons]
          simp [hfirst, hsep, hrest]

/-- The text of the value is one line, and is read as the value. -/
def Value.Plain (v : Value) : Prop := value (dumps v) = some v ∧ ∀ c ∈ dumps v, Printable c

theorem plain_str {s : List Char} (hs : ∀ c ∈ s, InPlane c) : (Value.str s).Plain := by
  rw [Value.Plain, dumps]
  exact ⟨value_str hs, printable_quote s⟩

theorem plain_strs {items : List (List Char)} (hitems : ∀ s ∈ items, ∀ c ∈ s, InPlane c) :
    (Value.strs items).Plain := by
  rw [Value.Plain, dumps]
  exact ⟨value_strs hitems, printable_jsonStrings items⟩

def Line.Plain : Line → Prop
  | .blank => True
  | .header keys => keys ≠ [] ∧ ∀ key ∈ keys, bareKey key = true
  | .pair key v => bareKey key = true ∧ v.Plain

theorem parseLine_lineText {line : Line} (h : line.Plain) :
    parseLine (lineText line) = some line := by
  cases line with
  | blank => rfl
  | header keys => exact parseLine_header h.1 h.2
  | pair key v => rw [lineText, pairText, parseLine_pair _ h.1, h.2.1, Option.map_some]

theorem lineText_noNewline {line : Line} (h : line.Plain) : '\n' ∉ lineText line := by
  have hbare : ∀ key, bareKey key = true → '\n' ∉ key := fun key hkey hmem =>
    absurd ((bareKey_iff.mp hkey).2 '\n' hmem) (by decide)
  cases line with
  | blank => exact List.not_mem_nil
  | header keys =>
      intro hmem
      rw [lineText, List.mem_cons, List.mem_append, List.mem_singleton] at hmem
      rcases hmem with hmem | hmem | hmem
      · cases hmem
      · exact notMem_intercalate (by decide) (fun key hkey => hbare key (h.2 key hkey)) hmem
      · cases hmem
  | pair key v =>
      intro hmem
      simp only [lineText, pairText, List.mem_append, List.mem_cons] at hmem
      rcases hmem with hmem | hmem | hmem | hmem | hmem
      · exact hbare key h.1 hmem
      · cases hmem
      · cases hmem
      · cases hmem
      · exact printable_ne_newline (h.2.2 _ hmem) rfl

/-- Lines that are read one by one are read as a document. -/
theorem loads_lines {lines : List Line} (hne : lines ≠ []) (hplain : ∀ l ∈ lines, l.Plain) :
    loads (List.intercalate ['\n'] (lines.map lineText)) =
      (lines.foldlM Document.step ⟨[], [], []⟩).map Document.root := by
  have hsplit : (List.intercalate ['\n'] (lines.map lineText)).splitOn '\n' =
      lines.map lineText := by
    refine List.splitOn_intercalate '\n' (fun text htext => ?_) (by simpa using hne)
    obtain ⟨line, hline, rfl⟩ := List.mem_map.mp htext
    exact lineText_noNewline (hplain line hline)
  have hparse : ∀ ls : List Line, (∀ l ∈ ls, l.Plain) →
      (ls.map lineText).mapM parseLine = some ls := by
    intro ls hls
    induction ls with
    | nil => rfl
    | cons l ls ih =>
        rw [List.map_cons, List.mapM_cons, parseLine_lineText (hls l List.mem_cons_self),
          ih fun l' hl' => hls l' (List.mem_cons_of_mem l hl')]
        rfl
  rw [loads, hsplit, hparse lines hplain]
  simp only [Option.bind_eq_bind, Option.bind_some]
  cases lines.foldlM Document.step ⟨[], [], []⟩ <;> rfl

/-! ## Documents -/

section Documents

variable {ms t : Members} {k : List Char} {ks path : List (List Char)} {v v' : Value}
  {f : Members → Option Members}

theorem put_new (h : ms.lookup k = none) (v : Value) : put ms k v = ms ++ [(k, v)] := by
  rw [put, h]
  rfl

theorem lookup_append_new (h : ms.lookup k = none) : (ms ++ [(k, v)]).lookup k = some v := by
  rw [List.lookup_append, h]
  simp

theorem put_last (h : ms.lookup k = none) : put (ms ++ [(k, v)]) k v' = ms ++ [(k, v')] := by
  have hkeep : ms.map (fun m => if m.1 = k then (k, v') else m) = ms := by
    refine List.map_congr_left (fun m hm => if_neg ?_) |>.trans (List.map_id _)
    rintro rfl
    exact absurd (List.lookup_eq_none_iff.mp h m hm) (by simp)
  rw [put, lookup_append_new h, if_pos Option.isSome_some, List.map_append, hkeep]
  simp

@[simp] theorem modify_nil : modify f [] ms = f ms := rfl

/-- The first table of its name is created. -/
theorem modify_new (h : ms.lookup k = none) :
    modify f (k :: ks) ms = (modify f ks []).map fun t => ms ++ [(k, .table t)] := by
  rw [modify, h]
  simp only [put_new h]

/-- The last table is changed. -/
theorem modify_last (h : ms.lookup k = none) :
    modify f (k :: ks) (ms ++ [(k, .table t)]) =
      (modify f ks t).map fun t => ms ++ [(k, .table t)] := by
  rw [modify, lookup_append_new h]
  simp only [put_last h]

/-- The pairs after a header fill its table. -/
theorem foldlM_pairs {declared : List (List (List Char))} (root : Members → Members)
    (pairs : Members)
    (hroot : ∀ f t, modify f path (root t) = (f t).map root)
    (hnodup : ((t ++ pairs).map Prod.fst).Nodup) :
    (pairs.map fun p => Line.pair p.1 p.2).foldlM Document.step ⟨root t, path, declared⟩ =
      some ⟨root (t ++ pairs), path, declared⟩ := by
  induction pairs generalizing t with
  | nil => simp
  | cons p pairs ih =>
      have hnew : t.lookup p.1 = none := by
        rw [List.lookup_eq_none_iff]
        intro q hq
        rw [List.map_append, List.nodup_append] at hnodup
        have hne := hnodup.2.2 q.1 (List.mem_map_of_mem hq) p.1 (by simp)
        simpa using hne.symm
      rw [List.map_cons, List.foldlM_cons]
      have hstep : Document.step ⟨root t, path, declared⟩ (.pair p.1 p.2) =
          some ⟨root (t ++ [p]), path, declared⟩ := by
        rw [Document.step, hroot, hnew]
        simp [put_new hnew]
      rw [hstep, Option.bind_eq_bind, Option.bind_some, ih (by simpa using hnodup)]
      simp

end Documents

end Openlia.Lib.Toml

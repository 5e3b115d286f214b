import Mathlib.Data.List.Sort
import Openlia.Lib.Json

/-! # The canonical text of tool arguments

`stableJson` writes the members of an object in the order of their keys. Two
arguments have one text exactly when they are the same JSON value, as long as no
number has overflowed: an infinity is written `null`.
-/

namespace Openlia.Browser

open Lib Json

/-- The UTF-16 code units of a character. -/
def codeUnits (c : Char) : List Nat :=
  if c.toNat < 65536 then [c.toNat]
  else [55296 + (c.toNat - 65536) / 1024, 56320 + (c.toNat - 65536) % 1024]

/-- The code units of a string, by which strings are ordered. -/
def utf16 (s : String) : List Nat := s.toList.flatMap codeUnits

/-- The order of `Object.keys(value).sort()`. -/
def keyLe {α : Type} (m n : String × α) : Prop := List.le (utf16 m.1) (utf16 n.1)

instance {α : Type} : DecidableRel (keyLe (α := α)) := fun m n =>
  inferInstanceAs (Decidable (List.le (utf16 m.1) (utf16 n.1)))

def joinComma : List (List Char) → List Char
  | [] => []
  | [t] => t
  | t :: t' :: ts => t ++ ',' :: joinComma (t' :: ts)

def quote (s : String) : List Char := quoteWith stdEscape s.toList

def numberText : JsonNumber → List Char
  | .finite text _ _ => text
  | .infinite _ => "null".toList

def memberText (m : String × List Char) : List Char := quote m.1 ++ ':' :: m.2

mutual
def stableJson : Json → List Char
  | .null => "null".toList
  | .bool true => "true".toList
  | .bool false => "false".toList
  | .num n => numberText n
  | .str s => quote s
  | .arr items => '[' :: (joinComma (stableItems items) ++ [']'])
  | .obj members =>
      '{' :: (joinComma (((stableMembers members).insertionSort keyLe).map memberText) ++ ['}'])

def stableItems : List Json → List (List Char)
  | [] => []
  | x :: xs => stableJson x :: stableItems xs

def stableMembers : List (String × Json) → List (String × List Char)
  | [] => []
  | m :: ms => (m.1, stableJson m.2) :: stableMembers ms
end

attribute [local simp] stableJson stableItems stableMembers

theorem stableMembers_eq_map (ms : List (String × Json)) :
    stableMembers ms = ms.map fun m => (m.1, stableJson m.2) := by
  induction ms with
  | nil => rfl
  | cons m ms ih => rw [stableMembers, ih, List.map_cons]

/-- The members of an object, sorted, and then written. -/
theorem stableJson_obj (ms : List (String × Json)) :
    stableJson (.obj ms) = '{' :: (joinComma ((ms.insertionSort keyLe).map fun m =>
      memberText (m.1, stableJson m.2)) ++ ['}']) := by
  rw [stableJson, stableMembers_eq_map, ← List.map_insertionSort (r := keyLe) (s := keyLe)]
  · simp [List.map_map, Function.comp_def]
  · intro a _ b _
    exact Iff.rfl

/-! ## One text, one value -/

/-- What follows a value does not continue a number. -/
def Ends (r : List Char) : Prop := ∀ c ∈ r.head?, isNumberChar c = false

/-- The first character of a text tells what kind of value follows. -/
def charKind (c : Char) : Nat :=
  if c = 'n' then 0 else if c = 't' then 1 else if c = 'f' then 2 else if c = '"' then 3
  else if c = '[' then 4 else if c = '{' then 5 else if isNumberChar c then 6 else 7

def jsonKind : Json → Nat
  | .null => 0
  | .bool true => 1
  | .bool false => 2
  | .str _ => 3
  | .arr _ => 4
  | .obj _ => 5
  | .num _ => 6

theorem charKind_of_isNumberChar {c : Char} (h : isNumberChar c = true) : charKind c = 6 := by
  have hall : ("0123456789+-.e".toList.all fun c => charKind c == 6) = true := by decide
  simpa using List.all_eq_true.mp hall c (by simpa [isNumberChar] using h)

theorem stableJson_head {v : Json} (h : Plain v) :
    ∃ c t, stableJson v = c :: t ∧ charKind c = jsonKind v := by
  match v, h with
  | .null, _ => exact ⟨'n', _, rfl, rfl⟩
  | .bool true, _ => exact ⟨'t', _, rfl, rfl⟩
  | .bool false, _ => exact ⟨'f', _, rfl, rfl⟩
  | .num (.finite (c :: text) _ chars), _ =>
      rw [List.all_cons, Bool.and_eq_true] at chars
      exact ⟨c, text, rfl, charKind_of_isNumberChar chars.1⟩
  | .str s, _ => exact ⟨'"', _, rfl, rfl⟩
  | .arr xs, _ => exact ⟨'[', _, by rw [stableJson], rfl⟩
  | .obj ms, _ => exact ⟨'{', _, by rw [stableJson], rfl⟩

theorem jsonKind_eq {v w : Json} (hv : Plain v) (hw : Plain w) {r r' : List Char}
    (h : stableJson v ++ r = stableJson w ++ r') : jsonKind v = jsonKind w := by
  obtain ⟨c, t, hc, hk⟩ := stableJson_head hv
  obtain ⟨d, t', hd, hk'⟩ := stableJson_head hw
  rw [hc, hd] at h
  rw [← hk, ← hk', (List.cons.inj h).1]

/-- No value begins like the end of a list. -/
theorem stableJson_ne_close {v : Json} (hv : Plain v) {c : Char} (hc : charKind c = 7)
    {r r' : List Char} : stableJson v ++ r ≠ c :: r' := by
  intro h
  obtain ⟨d, t, hd, hk⟩ := stableJson_head hv
  rw [hd] at h
  rw [(List.cons.inj h).1, hc] at hk
  cases v with
  | bool b => cases b <;> cases hk
  | _ => cases hk

theorem digits_cancel {s t r r' : List Char} (hs : s.all isNumberChar = true)
    (ht : t.all isNumberChar = true) (hr : Ends r) (hr' : Ends r') (h : s ++ r = t ++ r') :
    s = t ∧ r = r' := by
  induction s generalizing t with
  | nil =>
      cases t with
      | nil => exact ⟨rfl, h⟩
      | cons d t =>
          rw [List.all_cons, Bool.and_eq_true] at ht
          rw [List.nil_append] at h
          have hd := hr d (by rw [h]; rfl)
          rw [ht.1] at hd
          cases hd
  | cons c s ih =>
      rw [List.all_cons, Bool.and_eq_true] at hs
      cases t with
      | nil =>
          rw [List.nil_append] at h
          have hc := hr' c (by rw [← h]; rfl)
          rw [hs.1] at hc
          cases hc
      | cons d t =>
          rw [List.all_cons, Bool.and_eq_true] at ht
          rw [List.cons_append, List.cons_append, List.cons.injEq] at h
          obtain ⟨rfl, h⟩ := h
          obtain ⟨rfl, hr⟩ := ih hs.2 ht.2 h
          exact ⟨rfl, hr⟩

theorem ends_of_close {c : Char} (h : isNumberChar c = false) (r : List Char) : Ends (c :: r) := by
  intro d hd
  obtain rfl : c = d := by simpa using hd
  exact h

theorem joinComma_cons (t : List Char) (ts : List (List Char)) :
    joinComma (t :: ts) = t ++ ts.flatMap (',' :: ·) := by
  induction ts generalizing t with
  | nil => simp [joinComma]
  | cons u ts ih => rw [joinComma, ih u, List.flatMap_cons, List.cons_append]

section Joined

variable {α : Type} {text : α → List Char} {R : α → α → Prop} {close : Char}

/-- The rest of a list, after its first element. -/
theorem tail_cancel (hclose : isNumberChar close = false) (hne : close ≠ ',') {xs ys : List α}
    (hdet : ∀ x ∈ xs, ∀ y ∈ ys, ∀ r r', Ends r → Ends r' → text x ++ r = text y ++ r' →
      R x y ∧ r = r') {r r' : List Char}
    (h : (xs.map text).flatMap (',' :: ·) ++ close :: r =
      (ys.map text).flatMap (',' :: ·) ++ close :: r') : List.Forall₂ R xs ys ∧ r = r' := by
  have hends : ∀ (zs : List α) r, Ends ((zs.map text).flatMap (',' :: ·) ++ close :: r) := by
    intro zs r
    cases zs with
    | nil => exact ends_of_close hclose r
    | cons z zs => exact ends_of_close (by decide) _
  induction xs generalizing ys with
  | nil =>
      cases ys with
      | nil => exact ⟨.nil, (List.cons.inj h).2⟩
      | cons y ys => exact absurd (List.cons.inj h).1 hne
  | cons x xs ih =>
      cases ys with
      | nil => exact absurd (List.cons.inj h).1.symm hne
      | cons y ys =>
          simp only [List.map_cons, List.flatMap_cons, List.cons_append, List.append_assoc,
            List.cons.injEq, true_and] at h
          obtain ⟨hR, hrest⟩ := hdet x List.mem_cons_self y List.mem_cons_self _ _ (hends xs r)
            (hends ys r') h
          obtain ⟨hRs, hr⟩ := ih (fun x hx y hy => hdet x (List.mem_cons_of_mem _ hx) y
            (List.mem_cons_of_mem _ hy)) hrest
          exact ⟨.cons hR hRs, hr⟩

theorem joinComma_cancel (hclose : isNumberChar close = false) (hne : close ≠ ',') {xs ys : List α}
    (hdet : ∀ x ∈ xs, ∀ y ∈ ys, ∀ r r', Ends r → Ends r' → text x ++ r = text y ++ r' →
      R x y ∧ r = r')
    (hxs : ∀ x ∈ xs, ∀ r r', text x ++ r ≠ close :: r')
    (hys : ∀ y ∈ ys, ∀ r r', text y ++ r ≠ close :: r') {r r' : List Char}
    (h : joinComma (xs.map text) ++ close :: r = joinComma (ys.map text) ++ close :: r') :
    List.Forall₂ R xs ys ∧ r = r' := by
  have hends : ∀ (zs : List α) r, Ends ((zs.map text).flatMap (',' :: ·) ++ close :: r) := by
    intro zs r
    cases zs with
    | nil => exact ends_of_close hclose r
    | cons z zs => exact ends_of_close (by decide) _
  cases xs with
  | nil =>
      cases ys with
      | nil => exact ⟨.nil, (List.cons.inj h).2⟩
      | cons y ys =>
          rw [List.map_cons, joinComma_cons, List.append_assoc] at h
          exact absurd h.symm (hys y List.mem_cons_self _ _)
  | cons x xs =>
      cases ys with
      | nil =>
          rw [List.map_cons, joinComma_cons, List.append_assoc] at h
          exact absurd h (hxs x List.mem_cons_self _ _)
      | cons y ys =>
          rw [List.map_cons, List.map_cons, joinComma_cons, joinComma_cons, List.append_assoc,
            List.append_assoc] at h
          obtain ⟨hR, hrest⟩ := hdet x List.mem_cons_self y List.mem_cons_self _ _ (hends xs r)
            (hends ys r') h
          obtain ⟨hRs, hr⟩ := tail_cancel hclose hne (fun x hx y hy =>
            hdet x (List.mem_cons_of_mem _ hx) y (List.mem_cons_of_mem _ hy)) hrest
          exact ⟨.cons hR hRs, hr⟩

end Joined

theorem stableItems_eq_map (xs : List Json) : stableItems xs = xs.map stableJson := by
  induction xs with
  | nil => rfl
  | cons x xs ih => rw [stableItems, ih, List.map_cons]

theorem sameItems_of_forall₂ {xs ys : List Json} (h : List.Forall₂ Same xs ys) :
    SameItems xs ys := by
  induction h with
  | nil => exact .nil
  | cons hs _ ih => exact .cons hs ih

theorem sameMembers_of_forall₂ {ms ns : List (String × Json)}
    (h : List.Forall₂ (fun m n => m.1 = n.1 ∧ Same m.2 n.2) ms ns) : SameMembers ms ns := by
  induction h with
  | nil => exact .nil
  | @cons m n _ _ hs _ ih =>
      obtain ⟨k, v⟩ := m
      obtain ⟨k', w⟩ := n
      obtain ⟨rfl, hs⟩ := hs
      exact .cons hs ih

/-- What the text of `v` determines. -/
def Determines (v : Json) : Prop :=
  ∀ w r r', Plain w → Ends r → Ends r' → stableJson v ++ r = stableJson w ++ r' →
    Same v w ∧ r = r'

theorem arr_determines {xs : List Json} (hp : PlainItems xs) (hxs : ∀ x ∈ xs, Determines x) :
    Determines (.arr xs) := by
  intro w r r' hw hr hr' h
  have hk := jsonKind_eq (v := .arr xs) hp hw h
  match w, hw, hk with
  | .arr ys, hw, _ =>
      simp only [stableJson, stableItems_eq_map, List.cons_append, List.append_assoc,
        List.cons.injEq, true_and, List.nil_append] at h
      have hpx : ∀ x ∈ xs, Plain x := distinctItems_iff.mp hp
      have hpy : ∀ y ∈ ys, Plain y := distinctItems_iff.mp hw
      obtain ⟨hall, hr⟩ := joinComma_cancel (R := Same) (by decide) (by decide)
        (fun x hx y hy r r' he he' h => hxs x hx y r r' (hpy y hy) he he' h)
        (fun x hx _ _ => stableJson_ne_close (hpx x hx) (by decide))
        (fun y hy _ _ => stableJson_ne_close (hpy y hy) (by decide)) h
      exact ⟨.arr (sameItems_of_forall₂ hall), hr⟩

theorem obj_determines {ms : List (String × Json)} (hp : Plain (.obj ms))
    (hms : ∀ m ∈ ms, Determines m.2) : Determines (.obj ms) := by
  intro w r r' hw hr hr' h
  have hk := jsonKind_eq hp hw h
  match w, hw, hk with
  | .obj ns, hw, _ =>
      simp only [stableJson_obj, List.cons_append, List.append_assoc,
        List.cons.injEq, true_and, List.nil_append] at h
      have hpn : ∀ n ∈ ns, Plain n.2 := distinctMembers_iff.mp hw.2
      have hquote : ∀ (m : String × List Char) r r', memberText m ++ r ≠ '}' :: r' := by
        intro m r r' he
        simp [memberText, quote, quoteWith] at he
      obtain ⟨hall, hr⟩ := joinComma_cancel
        (R := fun m n : String × Json => m.1 = n.1 ∧ Same m.2 n.2) (by decide) (by decide)
        (fun m hm n hn r r' he he' h => by
          simp only [memberText, quote, List.append_assoc, List.cons_append] at h
          obtain ⟨hkey, h⟩ := quoteWith_cancel stdEscape_decodable h
          obtain ⟨hs, hr⟩ := hms m ((List.mem_insertionSort keyLe).mp hm) n.2 r r'
            (hpn n ((List.mem_insertionSort keyLe).mp hn)) he he' (List.cons.inj h).2
          exact ⟨⟨String.toList_injective hkey, hs⟩, hr⟩)
        (fun m _ _ _ => hquote _ _ _) (fun n _ _ _ => hquote _ _ _) h
      exact ⟨.obj (List.perm_insertionSort keyLe ms).symm (sameMembers_of_forall₂ hall)
        (List.perm_insertionSort keyLe ns), hr⟩

mutual
theorem determines : ∀ v : Json, Plain v → Determines v
  | .null, hv => by
      intro w r r' hw _ _ h
      match w, jsonKind_eq hv hw h with
      | .null, _ => exact ⟨.null, List.append_cancel_left h⟩
  | .bool b, hv => by
      intro w r r' hw _ _ h
      have hk := jsonKind_eq hv hw h
      match b, w, hk with
      | true, .bool true, _ => exact ⟨.bool _, List.append_cancel_left h⟩
      | false, .bool false, _ => exact ⟨.bool _, List.append_cancel_left h⟩
  | .num (.finite text ne chars), hv => by
      intro w r r' hw hr hr' h
      match w, hw, jsonKind_eq hv hw h with
      | .num (.finite text' ne' chars'), _, _ =>
          obtain ⟨rfl, hr⟩ := digits_cancel chars chars' hr hr' h
          exact ⟨.num _, hr⟩
  | .str s, hv => by
      intro w r r' hw _ _ h
      match w, jsonKind_eq hv hw h with
      | .str t, _ =>
          obtain ⟨hst, hr⟩ := quoteWith_cancel stdEscape_decodable h
          obtain rfl := String.toList_injective hst
          exact ⟨.str s, hr⟩
  | .arr xs, hv => arr_determines hv (itemsDetermine xs hv)
  | .obj ms, hv => obj_determines hv (membersDetermine ms hv.2)

theorem itemsDetermine : ∀ xs : List Json, PlainItems xs → ∀ x ∈ xs, Determines x
  | [], _ => by simp
  | x :: xs, h => by
      intro y hy
      rcases List.mem_cons.mp hy with hy | hy
      · exact hy ▸ determines x h.1
      · exact itemsDetermine xs h.2 y hy

theorem membersDetermine : ∀ ms : List (String × Json), PlainMembers ms →
    ∀ m ∈ ms, Determines m.2
  | [], _ => by simp
  | (k, v) :: ms, h => by
      intro n hn
      rcases List.mem_cons.mp hn with hn | hn
      · exact hn ▸ determines v h.1
      · exact membersDetermine ms h.2 n hn
end

/-- Arguments with one text are one JSON value. -/
theorem same_of_stableJson_eq {v w : Json} (hv : Plain v) (hw : Plain w)
    (h : stableJson v = stableJson w) : Same v w :=
  (determines v hv w [] [] hw (by simp [Ends]) (by simp [Ends]) (by simp [h])).1

/-! ## One value, one text -/

theorem codeUnits_cancel {c d : Char} {r r' : List Nat} (h : codeUnits c ++ r = codeUnits d ++ r') :
    c = d ∧ r = r' := by
  -- a character is never a surrogate, and neither half of a pair is a character
  have hval : ∀ c : Char, c.toNat < 55296 ∨ 57343 < c.toNat ∧ c.toNat < 1114112 := fun c => c.valid
  have hc := hval c
  have hd := hval d
  unfold codeUnits at h
  split at h <;> split at h <;>
    simp only [List.cons_append, List.nil_append, List.cons.injEq] at h
  · exact ⟨Char.toNat_inj.mp h.1, h.2⟩
  · omega
  · omega
  · exact ⟨Char.toNat_inj.mp (by omega), h.2.2⟩

theorem utf16_injective : Function.Injective utf16 := by
  have hlist : ∀ s t : List Char, s.flatMap codeUnits = t.flatMap codeUnits → s = t := by
    have hne : ∀ c, codeUnits c ≠ [] := fun c => by unfold codeUnits; split <;> simp
    intro s
    induction s with
    | nil =>
        intro t h
        cases t with
        | nil => rfl
        | cons d t => exact absurd h.symm (by simp [hne])
    | cons c s ih =>
        intro t h
        cases t with
        | nil => exact absurd h (by simp [hne])
        | cons d t =>
            rw [List.flatMap_cons, List.flatMap_cons] at h
            obtain ⟨rfl, hrest⟩ := codeUnits_cancel h
            rw [ih t hrest]
  exact fun s t h => String.toList_injective (hlist _ _ h)

/-- Sorting forgets the order of the members when no key occurs twice. -/
theorem insertionSort_keyLe_perm {α : Type} {ms ns : List (String × α)} (h : ms.Perm ns)
    (hn : (ms.map Prod.fst).Nodup) : ms.insertionSort keyLe = ns.insertionSort keyLe := by
  have : Std.Total (keyLe (α := α)) := ⟨fun m n => List.le_total (utf16 m.1) (utf16 n.1)⟩
  have : IsTrans (String × α) keyLe := ⟨fun _ _ _ h h' => List.le_trans h h'⟩
  have hanti : ∀ m n, m ∈ ms.insertionSort keyLe → n ∈ ns.insertionSort keyLe → keyLe m n →
      keyLe n m → m = n := by
    intro m n hm hn' hle hge
    have hkey : m.1 = n.1 := utf16_injective (List.le_antisymm hle hge)
    have hm := (List.mem_insertionSort keyLe).mp hm
    have hn' := h.mem_iff.mpr ((List.mem_insertionSort keyLe).mp hn')
    exact List.inj_on_of_nodup_map hn hm hn' hkey
  exact List.Perm.eq_of_pairwise hanti (List.pairwise_insertionSort keyLe ms)
    (List.pairwise_insertionSort keyLe ns)
    (((List.perm_insertionSort keyLe ms).trans h).trans (List.perm_insertionSort keyLe ns).symm)

theorem obj_text_eq {ms ms' ns ns' : List (String × Json)} (hm : ms.Perm ms') (hn : ns'.Perm ns)
    (hk : (ms.map Prod.fst).Nodup) (hs : stableMembers ms' = stableMembers ns') :
    stableJson (.obj ms) = stableJson (.obj ns) := by
  rw [stableJson, stableJson]
  have hperm : (stableMembers ms).Perm (stableMembers ns) := by
    have h₁ := hm.map fun m : String × Json => (m.1, stableJson m.2)
    have h₂ := hn.map fun m : String × Json => (m.1, stableJson m.2)
    rw [← stableMembers_eq_map, ← stableMembers_eq_map] at h₁ h₂
    exact h₁.trans (hs ▸ h₂)
  have hkeys : ((stableMembers ms).map Prod.fst).Nodup := by
    rw [stableMembers_eq_map, List.map_map]
    exact hk
  rw [insertionSort_keyLe_perm hperm hkeys]

/-- The same JSON value has one text. -/
theorem stableJson_eq_of_same {number : JsonNumber → Prop} {v w : Json} (h : Same v w)
    (hv : Distinct number v) : stableJson v = stableJson w := by
  refine Same.rec (motive_1 := fun v w _ => Distinct number v → stableJson v = stableJson w)
    (motive_2 := fun xs ys _ => DistinctItems number xs → stableItems xs = stableItems ys)
    (motive_3 := fun ms ns _ => DistinctMembers number ms → stableMembers ms = stableMembers ns)
    ?null ?bool ?num ?str ?arr ?obj ?nil ?cons ?nilM ?consM h hv
  case null => exact fun _ => rfl
  case bool => exact fun _ _ => rfl
  case num => exact fun _ _ => rfl
  case str => exact fun _ _ => rfl
  case arr =>
    intro xs ys _ ih hp
    rw [stableJson, stableJson, ih hp]
  case obj =>
    intro ms ms' ns ns' hm _ hn ih hp
    have hp' : DistinctMembers number ms' := distinctMembers_iff.mpr fun m h =>
      distinctMembers_iff.mp hp.2 m (hm.mem_iff.mpr h)
    exact obj_text_eq hm hn hp.1 (ih hp')
  case nil => exact fun _ => rfl
  case cons =>
    intro x y xs ys _ _ ihx ihxs hp
    rw [stableItems, stableItems, ihx hp.1, ihxs hp.2]
  case nilM => exact fun _ => rfl
  case consM =>
    intro k x y ms ns _ _ ihx ihms hp
    rw [stableMembers, stableMembers, ihx hp.1, ihms hp.2]

/-- Texts tell JSON values apart, and nothing else. -/
theorem stableJson_eq_iff {v w : Json} (hv : Plain v) (hw : Plain w) :
    stableJson v = stableJson w ↔ Same v w :=
  ⟨same_of_stableJson_eq hv hw, fun h => stableJson_eq_of_same h hv⟩

theorem stableJson_eq_iff_reordered :
    stableJson (.obj [("b", .null), ("a", .bool true)]) =
        stableJson (.obj [("a", .bool true), ("b", .null)]) ↔
      Same (.obj [("b", .null), ("a", .bool true)]) (.obj [("a", .bool true), ("b", .null)]) :=
  stableJson_eq_iff ⟨by decide, trivial, trivial, trivial⟩ ⟨by decide, trivial, trivial, trivial⟩

end Openlia.Browser

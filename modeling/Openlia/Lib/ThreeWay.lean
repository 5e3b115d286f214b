import Mathlib.Data.List.Basic
import Mathlib.Tactic.Common

/-! # Three-way merges

Two versions of a value descend from one. A side that did not change its version
follows the other, and changes that agree are one change; the merge of anything
else is `none`. Lists merge position by position, and what may be absent merges
as a whole or by a merge of its own.
-/

namespace Openlia.Lib.ThreeWay

variable {α : Type} [DecidableEq α]

def value (o c n : α) : Option α :=
  if n = o then some c else if c = o ∨ c = n then some n else none

theorem value_of_right (o c : α) : value o c o = some c := if_pos rfl

theorem value_of_left (o n : α) : value o o n = some n := by
  unfold value
  by_cases h : n = o
  · rw [if_pos h, h]
  · rw [if_neg h, if_pos (.inl rfl)]

theorem value_of_agree (o c : α) : value o c c = some c := by
  unfold value
  by_cases h : c = o
  · rw [if_pos h]
  · rw [if_neg h, if_pos (.inr rfl)]

theorem value_comm (o c n : α) : value o c n = value o n c := by
  by_cases hn : n = o
  · subst hn
    rw [value_of_right, value_of_left]
  · by_cases hc : c = o
    · subst hc
      rw [value_of_right, value_of_left]
    · by_cases heq : c = n
      · rw [heq]
      · simp [value, hn, hc, heq, Ne.symm heq]

theorem value_eq_some {o c n m : α} :
    value o c n = some m ↔ (n = o ∧ m = c) ∨ (c = o ∧ m = n) ∨ (c = n ∧ m = n) := by
  unfold value
  by_cases hn : n = o
  · subst hn
    rw [if_pos rfl]
    constructor
    · exact fun h => .inl ⟨rfl, (Option.some.inj h).symm⟩
    · rintro (⟨-, rfl⟩ | ⟨rfl, rfl⟩ | ⟨rfl, rfl⟩) <;> rfl
  · rw [if_neg hn]
    by_cases hc : c = o ∨ c = n
    · rw [if_pos hc]
      constructor
      · intro h
        obtain rfl := Option.some.inj h
        exact .inr (hc.imp (fun h => ⟨h, rfl⟩) fun h => ⟨h, rfl⟩)
      · rintro (⟨h, -⟩ | ⟨-, rfl⟩ | ⟨-, rfl⟩)
        · exact absurd h hn
        · rfl
        · rfl
    · rw [if_neg hc]
      constructor
      · exact nofun
      · rintro (⟨h, -⟩ | ⟨h, -⟩ | ⟨h, -⟩)
        · exact absurd h hn
        · exact absurd (.inl h) hc
        · exact absurd (.inr h) hc

/-- A merge is taken up by the side that it is merged with. -/
theorem value_idem {o c n m : α} (h : value o c n = some m) : value o m n = some m := by
  rcases value_eq_some.mp h with ⟨rfl, rfl⟩ | ⟨-, rfl⟩ | ⟨-, rfl⟩
  · exact value_of_right _ _
  · exact value_of_agree _ _
  · exact value_of_agree _ _

theorem value_eq_right {o c n : α} : value o c n = some n ↔ c = o ∨ c = n := by
  rw [value_eq_some]
  constructor
  · rintro (⟨rfl, rfl⟩ | ⟨h, -⟩ | ⟨h, -⟩)
    · exact .inl rfl
    · exact .inl h
    · exact .inr h
  · rintro (h | h)
    · exact .inr (.inl ⟨h, rfl⟩)
    · exact .inr (.inr ⟨h, rfl⟩)

/-! ## Lists -/

def lines : List α → List α → List α → Option (List α)
  | [], [], [] => some []
  | o :: os, c :: cs, n :: ns =>
      match value o c n with
      | none => none
      | some m => (lines os cs ns).map (m :: ·)
  | _, _, _ => none

attribute [local simp] lines

theorem lines_cons_eq_some {o c n : α} {os cs ns m : List α} :
    lines (o :: os) (c :: cs) (n :: ns) = some m ↔
      ∃ x xs, value o c n = some x ∧ lines os cs ns = some xs ∧ m = x :: xs := by
  rw [lines]
  cases value o c n with
  | none => simp
  | some x =>
      simp only [Option.some.injEq, Option.map_eq_some_iff]
      constructor
      · rintro ⟨xs, hxs, rfl⟩
        exact ⟨x, xs, rfl, hxs, rfl⟩
      · rintro ⟨_, xs, rfl, hxs, rfl⟩
        exact ⟨xs, hxs, rfl⟩

theorem lines_comm (o c n : List α) : lines o c n = lines o n c := by
  induction o generalizing c n with
  | nil => cases c <;> cases n <;> rfl
  | cons x o ih =>
      cases c with
      | nil => cases n <;> rfl
      | cons y c =>
          cases n with
          | nil => rfl
          | cons z n => rw [lines, lines, value_comm, ih]

theorem lines_idem {o c n m : List α} (h : lines o c n = some m) : lines o m n = some m := by
  induction o generalizing c n m with
  | nil =>
      cases c with
      | nil =>
          cases n with
          | nil => cases h; rfl
          | cons z n => cases h
      | cons y c => cases n <;> cases h
  | cons x o ih =>
      cases c with
      | nil => cases n <;> cases h
      | cons y c =>
          cases n with
          | nil => cases h
          | cons z n =>
              obtain ⟨v, vs, hv, hvs, rfl⟩ := lines_cons_eq_some.mp h
              exact lines_cons_eq_some.mpr ⟨v, vs, value_idem hv, ih hvs, rfl⟩

/-- Every merged line is a line of one of the sides. -/
theorem mem_of_lines {o c n m : List α} (h : lines o c n = some m) {x : α} (hx : x ∈ m) :
    x ∈ c ∨ x ∈ n := by
  induction o generalizing c n m with
  | nil =>
      cases c with
      | nil =>
          cases n with
          | nil => cases h; cases hx
          | cons z n => cases h
      | cons y c => cases n <;> cases h
  | cons w o ih =>
      cases c with
      | nil => cases n <;> cases h
      | cons y c =>
          cases n with
          | nil => cases h
          | cons z n =>
              obtain ⟨v, vs, hv, hvs, rfl⟩ := lines_cons_eq_some.mp h
              rcases List.mem_cons.mp hx with rfl | hx
              · rcases value_eq_some.mp hv with ⟨-, rfl⟩ | ⟨-, rfl⟩ | ⟨-, rfl⟩ <;> simp
              · exact (ih hvs hx).imp (List.mem_cons_of_mem _) (List.mem_cons_of_mem _)

theorem length_of_lines {o c n m : List α} (h : lines o c n = some m) :
    m.length = o.length ∧ c.length = o.length ∧ n.length = o.length := by
  induction o generalizing c n m with
  | nil =>
      cases c with
      | nil =>
          cases n with
          | nil => cases h; exact ⟨rfl, rfl, rfl⟩
          | cons z n => cases h
      | cons y c => cases n <;> cases h
  | cons w o ih =>
      cases c with
      | nil => cases n <;> cases h
      | cons y c =>
          cases n with
          | nil => cases h
          | cons z n =>
              obtain ⟨v, vs, -, hvs, rfl⟩ := lines_cons_eq_some.mp h
              obtain ⟨hm, hc, hn⟩ := ih hvs
              exact ⟨congrArg (· + 1) hm, congrArg (· + 1) hc, congrArg (· + 1) hn⟩

/-- The merge is the second side when each line of the first is of the other versions. -/
theorem lines_eq_right {o l n : List α} : lines o l n = some n ↔
    l.length = o.length ∧ n.length = o.length ∧ ∀ i : Nat, l[i]? = o[i]? ∨ l[i]? = n[i]? := by
  induction o generalizing l n with
  | nil => cases l <;> cases n <;> simp [lines]
  | cons x o ih =>
      cases l with
      | nil => cases n <;> simp [lines]
      | cons y l =>
          cases n with
          | nil => simp [lines]
          | cons z n =>
              have hrest : lines (x :: o) (y :: l) (z :: n) = some (z :: n) ↔
                  value x y z = some z ∧ lines o l n = some n := by
                rw [lines_cons_eq_some]
                constructor
                · rintro ⟨v, vs, hv, hvs, heq⟩
                  obtain ⟨rfl, rfl⟩ := List.cons.inj heq
                  exact ⟨hv, hvs⟩
                · exact fun ⟨hv, hvs⟩ => ⟨z, n, hv, hvs, rfl⟩
              rw [hrest, value_eq_right, ih]
              simp only [List.length_cons, Nat.add_right_cancel_iff]
              constructor
              · rintro ⟨hy, hc, hn, hall⟩
                refine ⟨hc, hn, fun i => ?_⟩
                cases i with
                | zero => simpa using hy
                | succ i => simpa using hall i
              · rintro ⟨hc, hn, hall⟩
                refine ⟨by simpa using hall 0, hc, hn, fun i => ?_⟩
                simpa using hall (i + 1)

/-! ## What may be absent -/

/-- `none` is a conflict, `some none` an agreed absence. -/
def file (merge : α → α → α → Option α) (o c n : Option α) : Option (Option α) :=
  match value o c n with
  | some m => some m
  | none =>
      match o, c, n with
      | some o, some c, some n => (merge o c n).map some
      | _, _, _ => none

section File

variable {merge : α → α → α → Option α} {o c n : Option α}

theorem file_of_value {m : Option α} (h : value o c n = some m) : file merge o c n = some m := by
  unfold file
  rw [h]

theorem file_of_none {o c n : α} (h : value (some o) (some c) (some n) = none) :
    file merge (some o) (some c) (some n) = (merge o c n).map some := by
  unfold file
  rw [h]

theorem file_of_right (merge : α → α → α → Option α) (o c : Option α) :
    file merge o c o = some c := file_of_value (value_of_right o c)

theorem file_of_left (merge : α → α → α → Option α) (o n : Option α) :
    file merge o o n = some n := file_of_value (value_of_left o n)

theorem file_of_agree (merge : α → α → α → Option α) (o c : Option α) :
    file merge o c c = some c := file_of_value (value_of_agree o c)

/-- Without a value of the whole, the inner merge decides. -/
theorem file_eq_some {m : Option α} : file merge o c n = some m ↔
    value o c n = some m ∨ value o c n = none ∧ ∃ o' c' n' m', o = some o' ∧ c = some c' ∧
      n = some n' ∧ merge o' c' n' = some m' ∧ m = some m' := by
  cases hv : value o c n with
  | some x =>
      rw [file_of_value hv]
      simp
  | none =>
      cases o with
      | none => simp [file, hv]
      | some o =>
          cases c with
          | none => simp [file, hv]
          | some c =>
              cases n with
              | none => simp [file, hv]
              | some n => simp [file_of_none hv, Option.map_eq_some_iff, eq_comm]

theorem file_comm (hmerge : ∀ o c n, merge o c n = merge o n c) (o c n : Option α) :
    file merge o c n = file merge o n c := by
  ext m
  rw [file_eq_some, file_eq_some, value_comm]
  refine or_congr_right (and_congr_right fun _ => ?_)
  constructor
  · rintro ⟨o', c', n', m', ho, hc, hn, hm, rfl⟩
    exact ⟨o', n', c', m', ho, hn, hc, (hmerge o' n' c').trans hm, rfl⟩
  · rintro ⟨o', c', n', m', ho, hc, hn, hm, rfl⟩
    exact ⟨o', n', c', m', ho, hn, hc, (hmerge o' n' c').trans hm, rfl⟩

/-- A merge merges again with the second side. -/
theorem file_idem (hmerge : ∀ {o c n m}, merge o c n = some m → merge o m n = some m)
    {m : Option α} (h : file merge o c n = some m) : file merge o m n ≠ none := by
  rcases file_eq_some.mp h with hv | ⟨-, o', c', n', m', rfl, rfl, rfl, hm, rfl⟩
  · rw [file_of_value (value_idem hv)]
    simp
  · cases hv : value (some o') (some m') (some n') with
    | some x =>
        rw [file_of_value hv]
        simp
    | none =>
        rw [file_of_none hv, hmerge hm]
        simp

end File

end Openlia.Lib.ThreeWay

import Openlia.Lib.JsonText

/-! # JSON values

Values as a parser leaves them: an object is the list of its members in the
order of the text, and two values are the same when they differ in the order of
members only. A finite number is its shortest decimal text, which is how the
numbers a parser can produce are told apart; a literal beyond the largest
double is read as an infinity, which has no text of its own.
-/

namespace Openlia.Lib

/-- The characters of a decimal number. -/
def isNumberChar (c : Char) : Bool := c ∈ "0123456789+-.e".toList

/-- A parsed number. -/
inductive JsonNumber where
  | finite (text : List Char) (ne : text ≠ []) (chars : text.all isNumberChar = true)
  | infinite (negative : Bool)
  deriving DecidableEq

/-- A number that did not overflow. -/
def JsonNumber.Finite : JsonNumber → Prop
  | .finite _ _ _ => True
  | .infinite _ => False

inductive Json where
  | null
  | bool (b : Bool)
  | num (n : JsonNumber)
  | str (s : String)
  | arr (items : List Json)
  | obj (members : List (String × Json))

namespace Json

instance : Inhabited Json := ⟨null⟩

mutual
/-- Equal up to the order of object members. -/
inductive Same : Json → Json → Prop
  | null : Same .null .null
  | bool (b : Bool) : Same (.bool b) (.bool b)
  | num (n : JsonNumber) : Same (.num n) (.num n)
  | str (s : String) : Same (.str s) (.str s)
  | arr {xs ys : List Json} : SameItems xs ys → Same (.arr xs) (.arr ys)
  | obj {ms ms' ns ns' : List (String × Json)} :
      ms.Perm ms' → SameMembers ms' ns' → ns'.Perm ns → Same (.obj ms) (.obj ns)

inductive SameItems : List Json → List Json → Prop
  | nil : SameItems [] []
  | cons {x y : Json} {xs ys : List Json} :
      Same x y → SameItems xs ys → SameItems (x :: xs) (y :: ys)

inductive SameMembers : List (String × Json) → List (String × Json) → Prop
  | nil : SameMembers [] []
  | cons {k : String} {x y : Json} {ms ns : List (String × Json)} :
      Same x y → SameMembers ms ns → SameMembers ((k, x) :: ms) ((k, y) :: ns)
end

mutual
/-- No object names a member twice, and every number is as required. -/
def Distinct (number : JsonNumber → Prop) : Json → Prop
  | .null => True
  | .bool _ => True
  | .num n => number n
  | .str _ => True
  | .arr xs => DistinctItems number xs
  | .obj ms => (ms.map Prod.fst).Nodup ∧ DistinctMembers number ms

def DistinctItems (number : JsonNumber → Prop) : List Json → Prop
  | [] => True
  | x :: xs => Distinct number x ∧ DistinctItems number xs

def DistinctMembers (number : JsonNumber → Prop) : List (String × Json) → Prop
  | [] => True
  | m :: ms => Distinct number m.2 ∧ DistinctMembers number ms
end

/-- What a parser makes of a text: no object names a member twice. -/
abbrev WellFormed : Json → Prop := Distinct fun _ => True

/-- A well-formed value in which no number has overflowed. -/
abbrev Plain : Json → Prop := Distinct JsonNumber.Finite

abbrev PlainItems : List Json → Prop := DistinctItems JsonNumber.Finite

abbrev PlainMembers : List (String × Json) → Prop := DistinctMembers JsonNumber.Finite

theorem distinctItems_iff {number : JsonNumber → Prop} {xs : List Json} :
    DistinctItems number xs ↔ ∀ x ∈ xs, Distinct number x := by
  induction xs with
  | nil => simp [DistinctItems]
  | cons x xs ih => simp [DistinctItems, ih]

theorem distinctMembers_iff {number : JsonNumber → Prop} {ms : List (String × Json)} :
    DistinctMembers number ms ↔ ∀ m ∈ ms, Distinct number m.2 := by
  induction ms with
  | nil => simp [DistinctMembers]
  | cons m ms ih => simp [DistinctMembers, ih]

/-- An object of some of the members. -/
theorem Distinct.filter {number : JsonNumber → Prop} {ms : List (String × Json)}
    (h : Distinct number (.obj ms)) (p : String × Json → Bool) :
    Distinct number (.obj (ms.filter p)) :=
  ⟨h.1.sublist (List.filter_sublist.map _),
    distinctMembers_iff.mpr fun m hm => distinctMembers_iff.mp h.2 m (List.mem_filter.mp hm).1⟩

/-! ## One value through another -/

/-- The members of the first object in the order of a permutation of the second. -/
theorem SameMembers.perm {ms ns ns' : List (String × Json)} (h : SameMembers ms ns)
    (hp : ns.Perm ns') : ∃ ms', ms.Perm ms' ∧ SameMembers ms' ns' := by
  induction hp generalizing ms with
  | nil => exact ⟨ms, .refl _, h⟩
  | cons n _ ih =>
      cases h with
      | cons hv hs =>
          obtain ⟨ms', hm, hs'⟩ := ih hs
          exact ⟨_ :: ms', hm.cons _, .cons hv hs'⟩
  | swap n n' ns =>
      cases h with
      | cons hv hs =>
          cases hs with
          | cons hv' hs' => exact ⟨_, .swap _ _ _, .cons hv' (.cons hv hs')⟩
  | trans _ _ ih ih' =>
      obtain ⟨ms₁, hm₁, hs₁⟩ := ih h
      obtain ⟨ms₂, hm₂, hs₂⟩ := ih' hs₁
      exact ⟨ms₂, hm₁.trans hm₂, hs₂⟩

/-- A value through which sameness can be composed. -/
def Composes (v : Json) : Prop := ∀ w u, Same v w → Same w u → Same v u

theorem sameItems_trans {xs ys zs : List Json} (hc : ∀ x ∈ xs, Composes x) (h : SameItems xs ys)
    (h' : SameItems ys zs) : SameItems xs zs := by
  induction xs generalizing ys zs with
  | nil =>
      cases h
      exact h'
  | cons x xs ih =>
      cases h with
      | cons hv hs =>
          cases h' with
          | cons hv' hs' =>
              exact .cons (hc x (by simp) _ _ hv hv')
                (ih (fun x hx => hc x (List.mem_cons_of_mem _ hx)) hs hs')

theorem sameMembers_trans {ms ns ps : List (String × Json)} (hc : ∀ m ∈ ms, Composes m.2)
    (h : SameMembers ms ns) (h' : SameMembers ns ps) : SameMembers ms ps := by
  induction ms generalizing ns ps with
  | nil =>
      cases h
      exact h'
  | cons m ms ih =>
      cases h with
      | cons hv hs =>
          cases h' with
          | cons hv' hs' =>
              exact .cons (hc _ List.mem_cons_self _ _ hv hv')
                (ih (fun m hm => hc m (List.mem_cons_of_mem _ hm)) hs hs')

theorem obj_composes {ms : List (String × Json)} (hc : ∀ m ∈ ms, Composes m.2) :
    Composes (.obj ms) := by
  intro w u h h'
  cases h with
  | obj hm hs hn =>
      cases h' with
      | obj hm' hs' hn' =>
          obtain ⟨ms₁, hperm, hsame⟩ := hs.perm (hn.trans hm')
          refine .obj (hm.trans hperm) (sameMembers_trans (fun m hmem => ?_) hsame hs') hn'
          exact hc m ((hm.trans hperm).mem_iff.mpr hmem)

theorem arr_composes {xs : List Json} (hc : ∀ x ∈ xs, Composes x) : Composes (.arr xs) := by
  intro w u h h'
  cases h with
  | arr hs =>
      cases h' with
      | arr hs' => exact .arr (sameItems_trans hc hs hs')

mutual
theorem composes : ∀ v : Json, Composes v
  | .null => by intro w u h h'; cases h; exact h'
  | .bool b => by intro w u h h'; cases h; exact h'
  | .num n => by intro w u h h'; cases h; exact h'
  | .str s => by intro w u h h'; cases h; exact h'
  | .arr xs => arr_composes (itemsCompose xs)
  | .obj ms => obj_composes (membersCompose ms)

theorem itemsCompose : ∀ xs : List Json, ∀ x ∈ xs, Composes x
  | [] => by simp
  | x :: xs => by
      intro y hy
      rcases List.mem_cons.mp hy with hy | hy
      · exact hy ▸ composes x
      · exact itemsCompose xs y hy

theorem membersCompose : ∀ ms : List (String × Json), ∀ m ∈ ms, Composes m.2
  | [] => by simp
  | (k, v) :: ms => by
      intro n hn
      rcases List.mem_cons.mp hn with hn | hn
      · exact hn ▸ composes v
      · exact membersCompose ms n hn
end

theorem Same.trans {v w u : Json} (h : Same v w) (h' : Same w u) : Same v u :=
  composes v w u h h'

/-- The value of a member, `undefined` when there is none. -/
def member (ms : List (String × Json)) (k : String) : Option Json := ms.lookup k

end Json

end Openlia.Lib

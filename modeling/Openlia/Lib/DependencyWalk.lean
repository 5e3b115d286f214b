import Mathlib.Data.Finset.Card
import Mathlib.Data.Finset.SDiff
import Mathlib.Logic.Relation
import Openlia.Lib.Results

/-! # Walks over dependencies

A walk from a name finds its node, then walks from every name that the node depends on.
It fails at a name that it is already inside of, and does not walk twice from one name.
-/

namespace Openlia.Lib

open Relation

/-- The stack ends before the recursion does, or a step fails. -/
inductive Failure (ε : Type) where
  | stack
  | error (e : ε)
  deriving DecidableEq

structure Walk (α ν ε : Type) where
  find : α → Except ε ν
  deps : ν → List α
  /-- What is checked before the dependencies. -/
  before : ν → Except ε Unit
  /-- What is checked after them. -/
  after : ν → Except ε Unit
  cyclic : α → ε

namespace Walk

variable {α ν ε : Type} (w : Walk α ν ε)

/-- The walk inside of the active names, with the names that are done. -/
def visit [DecidableEq α] : Nat → List α → List α → α → Except (Failure ε) (List α)
  | 0, _, _, _ => .error .stack
  | n + 1, active, done, a => do
      let node ← (w.find a).mapError .error
      if a ∈ active then .error (.error (w.cyclic a))
      else if a ∈ done then .ok done
      else do
        (w.before node).mapError .error
        let done ← (w.deps node).foldlM (visit n (a :: active)) done
        (w.after node).mapError .error
        .ok (a :: done)

/-- The name has a node that passes its checks, and so has every name that this one
depends on. -/
inductive Complete : α → Prop where
  | mk {a : α} {node : ν} : w.find a = .ok node → w.before node = .ok () →
      w.after node = .ok () → (∀ d ∈ w.deps node, Complete d) → Complete a

/-- One name depends on another. -/
def Requires (a b : α) : Prop := ∃ node, w.find a = .ok node ∧ b ∈ w.deps node

section Walk

variable {w} {a b : α} {node : ν} {n : Nat} {active done done' : List α} {keys : Finset α}

theorem mapError_ok {β : Type} {x : Except ε β} {b : β}
    (h : x.mapError (Failure.error (ε := ε)) = .ok b) : x = .ok b := by
  cases x with
  | error e => cases h
  | ok c =>
      cases h
      rfl

theorem Complete.of_requires (h : w.Complete a) (hab : w.Requires a b) : w.Complete b := by
  obtain ⟨hfind, -, -, hdeps⟩ := h
  obtain ⟨node, hfind', hb⟩ := hab
  rw [hfind] at hfind'
  cases hfind'
  exact hdeps b hb

theorem Complete.of_reaches (h : w.Complete a) (hab : ReflTransGen w.Requires a b) :
    w.Complete b := by
  induction hab with
  | refl => exact h
  | tail _ hab ih => exact ih.of_requires hab

/-- No name depends on itself. -/
theorem Complete.acyclic (h : w.Complete a) : ¬ TransGen w.Requires a a := by
  induction h with
  | mk hfind _ _ _ ih =>
      intro hcycle
      obtain ⟨b, hab, hba⟩ := TransGen.head'_iff.mp hcycle
      obtain ⟨node, hfind', hb⟩ := hab
      rw [hfind] at hfind'
      cases hfind'
      exact ih b hb (TransGen.tail' hba ⟨_, hfind, hb⟩)

/-! ## What a walk has seen -/

variable [DecidableEq α]

/-- What holds of a found name if it holds of its dependencies holds of all that a walk
marks as done. -/
theorem visit_induct {P : α → Prop}
    (hP : ∀ a node, w.find a = .ok node → w.before node = .ok () → w.after node = .ok () →
      (∀ d ∈ w.deps node, P d) → P a)
    (h : w.visit n active done a = .ok done') (hdone : ∀ x ∈ done, P x) :
    (∀ x ∈ done', P x) ∧ a ∈ done' ∧ done ⊆ done' := by
  induction n generalizing active done done' a with
  | zero => cases h
  | succ n ih =>
      rw [visit] at h
      obtain ⟨node, hfind, h⟩ := except_bind_ok h
      obtain ⟨-, h⟩ := guard_ok h
      by_cases hmem : a ∈ done
      · rw [if_pos hmem] at h
        cases h
        exact ⟨hdone, hmem, List.Subset.refl _⟩
      · rw [if_neg hmem] at h
        obtain ⟨_, hbefore, h⟩ := except_bind_ok h
        obtain ⟨done₁, hfold, h⟩ := except_bind_ok h
        obtain ⟨_, hafter, h⟩ := except_bind_ok h
        cases h
        have hall : ∀ (ds done : List α), ds.foldlM (w.visit n (a :: active)) done = .ok done₁ →
            (∀ x ∈ done, P x) → (∀ x ∈ done₁, P x) ∧ ds ⊆ done₁ ∧ done ⊆ done₁ := by
          intro ds
          induction ds with
          | nil =>
              intro done hds hdone
              cases hds
              exact ⟨hdone, List.nil_subset _, List.Subset.refl _⟩
          | cons d ds ihs =>
              intro done hds hdone
              rw [List.foldlM_cons] at hds
              obtain ⟨done₂, hd, hds⟩ := except_bind_ok hds
              obtain ⟨hP', hd, hsub⟩ := ih hd hdone
              obtain ⟨hP', hds, hsub'⟩ := ihs done₂ hds hP'
              exact ⟨hP', List.cons_subset.mpr ⟨hsub' hd, hds⟩, fun x hx => hsub' (hsub hx)⟩
        obtain ⟨hP', hdeps, hsub⟩ := hall _ _ hfold hdone
        refine ⟨fun x hx => ?_, List.mem_cons_self, fun x hx => List.mem_cons_of_mem a (hsub hx)⟩
        rcases List.mem_cons.mp hx with rfl | hx
        · exact hP x node (mapError_ok hfind) (mapError_ok hbefore) (mapError_ok hafter)
            fun d hd => hP' d (hdeps hd)
        · exact hP' x hx

/-- What a walk marks as done is complete. -/
theorem visit_sound (h : w.visit n active done a = .ok done') (hdone : ∀ x ∈ done, w.Complete x) :
    (∀ x ∈ done', w.Complete x) ∧ a ∈ done' ∧ done ⊆ done' :=
  visit_induct (fun _ _ hfind hbefore hafter hdeps => .mk hfind hbefore hafter hdeps) h hdone

/-- All that a walk marks as done is found. -/
theorem visit_found (h : w.visit n active done a = .ok done')
    (hdone : ∀ x ∈ done, ∃ node, w.find x = .ok node) : ∀ x ∈ done', ∃ node, w.find x = .ok node :=
  (visit_induct (fun _ node hfind _ _ _ => ⟨node, hfind⟩) h hdone).1

theorem complete_of_visit (h : w.visit n active [] a = .ok done) : w.Complete a := by
  obtain ⟨hcomplete, ha, -⟩ := visit_sound h fun x hx => nomatch hx
  exact hcomplete a ha

/-! ## The walk ends -/

/-- The names that a walk is not inside of. -/
def left (keys : Finset α) (active : List α) : Nat := (keys \ active.toFinset).card

theorem left_lt (ha : a ∈ keys) (hactive : a ∉ active) :
    left keys (a :: active) < left keys active := by
  have hmem : a ∈ keys \ active.toFinset :=
    Finset.mem_sdiff.mpr ⟨ha, fun h => hactive (List.mem_toFinset.mp h)⟩
  have herase : keys \ (a :: active).toFinset = (keys \ active.toFinset).erase a := by
    rw [List.toFinset_cons, Finset.sdiff_insert]
  rw [left, left, herase]
  exact Finset.card_erase_lt_of_mem hmem

/-- A walk does not end the stack if there are fewer names. -/
theorem visit_total (hkeys : ∀ a node, w.find a = .ok node → a ∈ keys)
    (hn : left keys active < n) : w.visit n active done a ≠ .error .stack := by
  induction n generalizing active done a with
  | zero => exact absurd hn (Nat.not_lt_zero _)
  | succ n ih =>
      intro h
      rw [visit] at h
      cases hfind : w.find a with
      | error e =>
          rw [hfind] at h
          cases h
      | ok node =>
          rw [hfind] at h
          have h : (if a ∈ active then _ else _) = _ := h
          by_cases hactive : a ∈ active
          · rw [if_pos hactive] at h
            cases h
          · rw [if_neg hactive] at h
            by_cases hdone : a ∈ done
            · rw [if_pos hdone] at h
              cases h
            · rw [if_neg hdone] at h
              cases hbefore : w.before node with
              | error e =>
                  rw [hbefore] at h
                  cases h
              | ok _ =>
                  rw [hbefore] at h
                  have h : ((w.deps node).foldlM (w.visit n (a :: active)) done >>= _) = _ := h
                  have hlt := left_lt (hkeys a node hfind) hactive
                  have hfold : ∀ (ds done : List α),
                      ds.foldlM (w.visit n (a :: active)) done ≠ .error .stack := by
                    intro ds
                    induction ds with
                    | nil => exact fun done h => nomatch h
                    | cons d ds ihs =>
                        intro done h
                        rw [List.foldlM_cons] at h
                        cases hd : w.visit n (a :: active) done d with
                        | error e =>
                            rw [hd] at h
                            have h : Except.error e = Except.error Failure.stack := h
                            exact ih (by omega) (hd.trans h)
                        | ok done₁ =>
                            rw [hd] at h
                            exact ihs done₁ h
                  cases hrun : (w.deps node).foldlM (w.visit n (a :: active)) done with
                  | error e =>
                      rw [hrun] at h
                      have h : Except.error e = Except.error Failure.stack := h
                      exact hfold _ _ (hrun.trans h)
                  | ok done₁ =>
                      rw [hrun] at h
                      cases hafter : w.after node with
                      | error e =>
                          rw [hafter] at h
                          cases h
                      | ok _ =>
                          rw [hafter] at h
                          cases h

/-- From a complete name a walk passes. -/
theorem Complete.visit (h : w.Complete a) (hkeys : ∀ a node, w.find a = .ok node → a ∈ keys)
    (hn : left keys active < n) (hactive : ∀ x ∈ active, ¬ ReflTransGen w.Requires a x) :
    ∃ done', w.visit n active done a = .ok done' := by
  induction n generalizing active done a with
  | zero => exact absurd hn (Nat.not_lt_zero _)
  | succ n ih =>
      obtain @⟨_, node, hfind, hbefore, hafter, hdeps⟩ := id h
      have ha : a ∉ active := fun hmem => hactive a hmem ReflTransGen.refl
      have hlt := left_lt (hkeys a node hfind) ha
      rw [Walk.visit, hfind]
      show ∃ done', (if a ∈ active then _ else _) = _
      rw [if_neg ha]
      by_cases hdone : a ∈ done
      · exact ⟨done, if_pos hdone⟩
      · rw [if_neg hdone, hbefore, hafter]
        have hfold : ∀ ds : List α, ds ⊆ w.deps node → ∀ done : List α,
            ∃ done', ds.foldlM (w.visit n (a :: active)) done = .ok done' := by
          intro ds
          induction ds with
          | nil => exact fun _ done => ⟨done, rfl⟩
          | cons d ds ihs =>
              intro hds done
              obtain ⟨hd, hds⟩ := List.cons_subset.mp hds
              have hrequires : w.Requires a d := ⟨node, hfind, hd⟩
              have houter : ∀ x ∈ a :: active, ¬ ReflTransGen w.Requires d x := by
                intro x hx hreach
                rcases List.mem_cons.mp hx with rfl | hx
                · exact h.acyclic (TransGen.head' hrequires hreach)
                · exact hactive x hx (ReflTransGen.head hrequires hreach)
              obtain ⟨done₁, hd⟩ := @ih d (a :: active) done (hdeps d hd) (by omega) houter
              obtain ⟨done₂, hds⟩ := ihs hds done₁
              refine ⟨done₂, ?_⟩
              rw [List.foldlM_cons, hd]
              exact hds
        obtain ⟨done₁, hrun⟩ := hfold _ (List.Subset.refl _) done
        refine ⟨a :: done₁, ?_⟩
        show ((w.deps node).foldlM (w.visit n (a :: active)) done >>= _) = _
        rw [hrun]
        rfl

/-- A walk passes exactly from the complete names. -/
theorem visit_iff (hkeys : ∀ a node, w.find a = .ok node → a ∈ keys) (hn : keys.card < n) :
    (∃ done, w.visit n [] [] a = .ok done) ↔ w.Complete a := by
  refine ⟨fun ⟨_, h⟩ => complete_of_visit h, fun h => ?_⟩
  refine h.visit hkeys ?_ fun x hx => nomatch hx
  rw [left, List.toFinset_nil, Finset.sdiff_empty]
  exact hn

end Walk

end Walk

end Openlia.Lib

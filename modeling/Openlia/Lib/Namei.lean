import Openlia.Lib.FileTree

/-! # Paths through links

A path is walked from a directory step by step; a link on the way is replaced by
its target. A walk stays inside a directory when the steps and the targets of the
links inside do not climb above it and never climb out of what a link led to: what
they climb out of must be a directory already.
-/

namespace Openlia.Lib

inductive Step (ν : Type) where
  | up
  | name (c : ν)
  deriving DecidableEq

/-- What a link holds. -/
structure Target (ν : Type) where
  absolute : Bool
  steps : List (Step ν)
  deriving DecidableEq

namespace Tree

variable {ν α : Type} [DecidableEq ν]

/-- The walk up to the next link. -/
def walkSteps (t : Tree ν α) (target : α → Option (Target ν))
    (follow : List ν → List (Step ν) → Except Errno (List ν)) :
    List ν → List (Step ν) → Except Errno (List ν)
  | pos, [] => .ok pos
  | pos, .up :: rest => walkSteps t target follow pos.dropLast rest
  | pos, .name c :: rest =>
      match t.node (pos ++ [c]) with
      | none => .error .notExist
      | some .dir => walkSteps t target follow (pos ++ [c]) rest
      | some .symlink => .error .link
      | some (.file data) =>
          match target data with
          | some dest => follow (if dest.absolute then [] else pos) (dest.steps ++ rest)
          | none => if rest.isEmpty then .ok (pos ++ [c]) else .error .notDir

/-- Where a path leads, through a limited number of links. -/
def walk (t : Tree ν α) (target : α → Option (Target ν)) :
    Nat → List ν → List (Step ν) → Except Errno (List ν)
  | 0 => walkSteps t target fun _ _ => .error .link
  | links + 1 => walkSteps t target (walk t target links)

end Tree

/-! ## Steps that stay inside -/

theorem inside_dropLast {ν : Type} {root pos : List ν} (h : root <+: pos) (hne : root ≠ pos) :
    root <+: pos.dropLast := by
  refine (prefix_dropLast ?_).mpr ⟨h, hne⟩
  rintro rfl
  exact hne (List.prefix_nil.mp h)

section Inside

variable {ν α : Type} [DecidableEq ν] {t t' : Tree ν α} {target : α → Option (Target ν)}
  {root pos p : List ν} {steps rest : List (Step ν)}

/-- The steps do not climb above a directory that lies so many levels up. -/
def Low : Nat → List (Step ν) → Prop
  | _, [] => True
  | 0, .up :: _ => False
  | depth + 1, .up :: rest => Low depth rest
  | depth, .name _ :: rest => Low (depth + 1) rest

/-- Every name that is climbed out of later is a directory on the way. -/
def Grounded (t : Tree ν α) : List ν → List (Step ν) → Prop
  | _, [] => True
  | pos, .up :: rest => Grounded t pos.dropLast rest
  | pos, .name c :: rest =>
      (.up ∈ rest → t.node (pos ++ [c]) = some .dir) ∧ Grounded t (pos ++ [c]) rest

/-- Steps from a directory inside the root that neither leave it nor leave a link. -/
def Tame (t : Tree ν α) (root : List ν) : List ν → List (Step ν) → Prop
  | _, [] => True
  | pos, .up :: rest => root ≠ pos ∧ Tame t root pos.dropLast rest
  | pos, .name c :: rest =>
      (.up ∈ rest → t.node (pos ++ [c]) = some .dir) ∧ Tame t root (pos ++ [c]) rest

theorem tame_of_low {depth : Nat} (hpos : root <+: pos) (hdepth : pos.length = root.length + depth)
    (hlow : Low depth steps) (hground : Grounded t pos steps) : Tame t root pos steps := by
  induction steps generalizing pos depth with
  | nil => trivial
  | cons s steps ih =>
      cases s with
      | up =>
          cases depth with
          | zero => exact hlow.elim
          | succ depth =>
              have hne : root ≠ pos := by
                rintro rfl
                omega
              refine ⟨hne, ih (inside_dropLast hpos hne) ?_ hlow hground⟩
              rw [List.length_dropLast]
              omega
      | name c =>
          have hlength : (pos ++ [c]).length = root.length + (depth + 1) := by
            rw [List.length_append, List.length_singleton]
            omega
          refine ⟨hground.1, ih (hpos.trans (List.prefix_append _ _)) hlength ?_ hground.2⟩
          cases depth <;> exact hlow

theorem tame_names (l : List ν) : Tame t root pos (l.map .name) := by
  induction l generalizing pos with
  | nil => trivial
  | cons c l ih => exact ⟨fun h => by simp at h, ih⟩

/-- Names may follow. -/
theorem Tame.append (h : Tame t root pos steps) (hrest : .up ∉ rest)
    (htail : ∀ q, Tame t root q rest) : Tame t root pos (steps ++ rest) := by
  induction steps generalizing pos with
  | nil => exact htail pos
  | cons s steps ih =>
      cases s with
      | up => exact ⟨h.1, ih h.2⟩
      | name c =>
          refine ⟨fun hup => h.1 ?_, ih h.2⟩
          exact (List.mem_append.mp hup).elim id fun hup => absurd hup hrest

theorem tame_of_no_up (h : .up ∉ rest) (q : List ν) : Tame t root q rest := by
  induction rest generalizing q with
  | nil => trivial
  | cons s rest ih =>
      cases s with
      | up => simp at h
      | name c =>
          rw [List.mem_cons, not_or] at h
          exact ⟨fun hup => absurd hup h.2, ih h.2 _⟩

/-- Directories stay, so the steps stay tame. -/
theorem Tame.mono (h : Tame t root pos steps)
    (hdir : ∀ q, t.node q = some .dir → t'.node q = some .dir) : Tame t' root pos steps := by
  induction steps generalizing pos with
  | nil => trivial
  | cons s steps ih =>
      cases s with
      | up => exact ⟨h.1, ih h.2⟩
      | name c => exact ⟨fun hup => hdir _ (h.1 hup), ih h.2⟩

/-- Every link inside the root is relative and tame. -/
def TameLinks (t : Tree ν α) (target : α → Option (Target ν)) (root : List ν) : Prop :=
  ∀ p data dest, root <+: p → root ≠ p → t.node p = some (.file data) → target data = some dest →
    dest.absolute = false ∧ Tame t root p.dropLast dest.steps

theorem walkSteps_inside {follow : List ν → List (Step ν) → Except Errno (List ν)}
    (hfollow : ∀ pos steps p, root <+: pos → Tame t root pos steps →
      follow pos steps = .ok p → root <+: p)
    (hlinks : TameLinks t target root) (hpos : root <+: pos) (h : Tame t root pos steps)
    (hw : t.walkSteps target follow pos steps = .ok p) : root <+: p := by
  induction steps generalizing pos with
  | nil =>
      cases hw
      exact hpos
  | cons s steps ih =>
      cases s with
      | up => exact ih (inside_dropLast hpos h.1) h.2 hw
      | name c =>
          have hnext : root <+: pos ++ [c] := hpos.trans (List.prefix_append _ _)
          unfold Tree.walkSteps at hw
          split at hw
          · cases hw
          · exact ih hnext h.2 hw
          · cases hw
          · rename_i data hnode
            split at hw
            · rename_i dest hdest
              have hne : root ≠ pos ++ [c] := by
                rintro rfl
                have := hpos.length_le
                rw [List.length_append, List.length_singleton] at this
                omega
              obtain ⟨habs, htame⟩ := hlinks (pos ++ [c]) data dest hnext hne hnode hdest
              rw [List.dropLast_concat] at htame
              rw [habs] at hw
              -- a link is no directory, so nothing climbs out of it
              have hup : .up ∉ steps := fun hup => by
                cases hnode.symm.trans (h.1 hup)
              exact hfollow pos _ p hpos (htame.append hup fun q => tame_of_no_up hup q) hw
            · split at hw
              · cases hw
                exact hnext
              · cases hw

/-- A tame walk among tame links stays inside. -/
theorem walk_inside {links : Nat} (hlinks : TameLinks t target root) (hpos : root <+: pos)
    (h : Tame t root pos steps) (hw : t.walk target links pos steps = .ok p) : root <+: p := by
  induction links generalizing pos steps p with
  | zero => exact walkSteps_inside (fun _ _ _ _ _ hf => by cases hf) hlinks hpos h hw
  | succ links ih => exact walkSteps_inside (fun _ _ _ hq ht hf => ih hq ht hf) hlinks hpos h hw

/-- Names without a link among them lead to the path that they spell. -/
theorem walkSteps_names {follow : List ν → List (Step ν) → Except Errno (List ν)} {l : List ν}
    (hno : ∀ q, q <+: l → ∀ data, t.node (pos ++ q) = some (.file data) → target data = none)
    (hw : t.walkSteps target follow pos (l.map .name) = .ok p) : p = pos ++ l := by
  induction l generalizing pos with
  | nil =>
      cases hw
      simp
  | cons c l ih =>
      have hstep : ∀ q, q <+: l → ∀ data, t.node (pos ++ [c] ++ q) = some (.file data) →
          target data = none := by
        intro q hq data hnode
        exact hno (c :: q) (List.cons_prefix_cons.mpr ⟨rfl, hq⟩) data (by simpa using hnode)
      rw [List.map_cons] at hw
      unfold Tree.walkSteps at hw
      split at hw
      · cases hw
      · rw [ih hstep hw]
        simp
      · cases hw
      · rename_i data hnode
        have hnone := hno [c] (List.cons_prefix_cons.mpr ⟨rfl, List.nil_prefix⟩) data hnode
        rw [hnone] at hw
        simp only at hw
        split at hw
        · rename_i hempty
          cases hw
          rw [List.map_eq_nil_iff.mp (List.isEmpty_iff.mp hempty)]
        · cases hw

theorem walk_names {links : Nat} {l : List ν}
    (hno : ∀ q, q <+: l → ∀ data, t.node (pos ++ q) = some (.file data) → target data = none)
    (hw : t.walk target links pos (l.map .name) = .ok p) : p = pos ++ l := by
  cases links <;> exact walkSteps_names hno hw

end Inside

/-! ## Walks and their parts -/

section Parts

variable {ν α : Type} [DecidableEq ν] {t t' : Tree ν α} {target : α → Option (Target ν)}
  {links : Nat} {pos p d : List ν} {steps rest : List (Step ν)} {c : ν}

/-- A name that is there and no link. -/
theorem walk_name {n : Node α} (hnode : t.node (d ++ [c]) = some n) (hsym : n ≠ .symlink)
    (hlink : ∀ data, n = .file data → target data = none) :
    t.walk target links d [.name c] = .ok (d ++ [c]) := by
  have hsteps : ∀ follow, t.walkSteps target follow d [.name c] = .ok (d ++ [c]) := by
    intro follow
    unfold Tree.walkSteps
    rw [hnode]
    cases n with
    | dir => rfl
    | symlink => exact absurd rfl hsym
    | file data =>
        dsimp only
        rw [hlink data rfl]
        rfl
  cases links <;> exact hsteps _

theorem walk_name_none (hnode : t.node (d ++ [c]) = none) :
    t.walk target links d [.name c] = .error .notExist := by
  have hsteps : ∀ follow, t.walkSteps target follow d [.name c] = .error .notExist := by
    intro follow
    unfold Tree.walkSteps
    rw [hnode]
  cases links <;> exact hsteps _

/-- A walk that comes to a directory goes on from there. -/
theorem walk_append (h : t.walk target links pos steps = .ok d) (hd : t.node d = some .dir) :
    ∃ links', ∀ rest, t.walk target links pos (steps ++ rest) = t.walk target links' d rest := by
  suffices hsteps : ∀ (follow : List ν → List (Step ν) → Except Errno (List ν)) links,
      (∀ pos rest, t.walkSteps target follow pos rest = t.walk target links pos rest) →
      (∀ pos steps, follow pos steps = .ok d →
        ∃ links', ∀ rest, follow pos (steps ++ rest) = t.walk target links' d rest) →
      ∀ pos steps, t.walkSteps target follow pos steps = .ok d →
        ∃ links', ∀ rest, t.walkSteps target follow pos (steps ++ rest) =
          t.walk target links' d rest by
    induction links generalizing pos steps with
    | zero => exact hsteps _ 0 (fun _ _ => rfl) nofun pos steps h
    | succ links ih => exact hsteps _ (links + 1) (fun _ _ => rfl) (fun _ _ hf => ih hf) pos steps h
  intro follow links hself hfollow pos steps h
  induction steps generalizing pos with
  | nil =>
      cases h
      exact ⟨links, fun rest => hself d rest⟩
  | cons s steps ih =>
      cases s with
      | up => exact ih _ h
      | name c =>
          simp only [List.cons_append]
          unfold Tree.walkSteps at h ⊢
          cases hn : t.node (pos ++ [c]) with
          | none =>
              rw [hn] at h
              cases h
          | some n =>
              rw [hn] at h
              cases n with
              | dir => exact ih _ h
              | symlink => cases h
              | file data =>
                  dsimp only at h ⊢
                  cases ht : target data with
                  | some dest =>
                      rw [ht] at h
                      obtain ⟨links', hlinks⟩ := hfollow _ _ h
                      refine ⟨links', fun rest => ?_⟩
                      rw [← hlinks rest, List.append_assoc]
                  | none =>
                      rw [ht] at h
                      dsimp only at h
                      split at h
                      · cases h
                        cases hn.symm.trans hd
                      · cases h

/-- A walk to a name comes to a directory first. -/
theorem walk_dir_of_append (h : t.walk target links pos (steps ++ [.name c]) = .ok p) :
    ∃ d, t.walk target links pos steps = .ok d ∧ t.node d = some .dir := by
  suffices hsteps : ∀ follow : List ν → List (Step ν) → Except Errno (List ν),
      (∀ pos steps, follow pos (steps ++ [.name c]) = .ok p →
        ∃ d, follow pos steps = .ok d ∧ t.node d = some .dir) →
      ∀ pos steps, t.walkSteps target follow pos (steps ++ [.name c]) = .ok p →
        ∃ d, t.walkSteps target follow pos steps = .ok d ∧ t.node d = some .dir by
    induction links generalizing pos steps with
    | zero => exact hsteps (fun _ _ => .error .link) (fun _ _ hf => nomatch hf) pos steps h
    | succ links ih => exact hsteps (t.walk target links) (fun _ _ hf => ih hf) pos steps h
  intro follow hfollow pos steps h
  induction steps generalizing pos with
  | nil =>
      refine ⟨pos, rfl, ?_⟩
      rw [List.nil_append] at h
      unfold Tree.walkSteps at h
      refine Tree.node_append_singleton (c := c) fun hn => ?_
      rw [hn] at h
      cases h
  | cons s steps ih =>
      cases s with
      | up => exact ih _ h
      | name c' =>
          rw [List.cons_append] at h
          unfold Tree.walkSteps at h ⊢
          cases hn : t.node (pos ++ [c']) with
          | none =>
              rw [hn] at h
              cases h
          | some n =>
              rw [hn] at h
              cases n with
              | dir => exact ih _ h
              | symlink => cases h
              | file data =>
                  dsimp only at h ⊢
                  cases ht : target data with
                  | some dest =>
                      rw [ht] at h
                      dsimp only at h
                      rw [← List.append_assoc] at h
                      exact hfollow _ _ h
                  | none =>
                      rw [ht] at h
                      dsimp only at h
                      rw [List.isEmpty_eq_false_iff.mpr (by simp)] at h
                      cases h

/-- What is there already leads where it led; a file that is no link may hold something else. -/
theorem walk_mono (hmono : ∀ q n, t.node q = some n → t'.node q = some n ∨
      ∃ data data', n = .file data ∧ t'.node q = some (.file data') ∧
        target data = none ∧ target data' = none)
    (h : t.walk target links pos steps = .ok p) : t'.walk target links pos steps = .ok p := by
  suffices hsteps : ∀ follow follow' : List ν → List (Step ν) → Except Errno (List ν),
      (∀ pos steps, follow pos steps = .ok p → follow' pos steps = .ok p) →
      ∀ pos steps, t.walkSteps target follow pos steps = .ok p →
        t'.walkSteps target follow' pos steps = .ok p by
    induction links generalizing pos steps with
    | zero => exact hsteps _ _ (fun _ _ hf => hf) pos steps h
    | succ links ih => exact hsteps _ _ (fun _ _ hf => ih hf) pos steps h
  intro follow follow' hfollow pos steps h
  induction steps generalizing pos with
  | nil => exact h
  | cons s steps ih =>
      cases s with
      | up => exact ih _ h
      | name c =>
          unfold Tree.walkSteps at h ⊢
          cases hn : t.node (pos ++ [c]) with
          | none =>
              rw [hn] at h
              cases h
          | some n =>
              rw [hn] at h
              rcases hmono _ n hn with hn' | ⟨data, data', rfl, hn', hdata, hdata'⟩
              · rw [hn']
                cases n with
                | dir => exact ih _ h
                | symlink => cases h
                | file data =>
                    dsimp only at h ⊢
                    cases ht : target data with
                    | some dest =>
                        rw [ht] at h
                        exact hfollow _ _ h
                    | none =>
                        rw [ht] at h
                        exact h
              · rw [hn']
                dsimp only at h ⊢
                rw [hdata] at h
                rw [hdata']
                exact h

/-- A walk ends at something. -/
theorem node_of_walk (hpos : t.node pos ≠ none) (h : t.walk target links pos steps = .ok p) :
    t.node p ≠ none := by
  suffices hsteps : ∀ follow : List ν → List (Step ν) → Except Errno (List ν),
      (∀ pos steps, t.node pos ≠ none → follow pos steps = .ok p → t.node p ≠ none) →
      ∀ pos steps, t.node pos ≠ none → t.walkSteps target follow pos steps = .ok p →
        t.node p ≠ none by
    induction links generalizing pos steps with
    | zero =>
        exact hsteps (fun _ _ => .error .link) (fun _ _ _ hf => nomatch hf) pos steps hpos h
    | succ links ih =>
        exact hsteps (t.walk target links) (fun _ _ hp hf => ih hp hf) pos steps hpos h
  intro follow hfollow pos steps hpos h
  induction steps generalizing pos with
  | nil =>
      cases h
      exact hpos
  | cons s steps ih =>
      cases s with
      | up =>
          refine ih _ ?_ h
          rw [Tree.node_dropLast hpos]
          exact Option.some_ne_none _
      | name c =>
          unfold Tree.walkSteps at h
          cases hn : t.node (pos ++ [c]) with
          | none =>
              rw [hn] at h
              cases h
          | some n =>
              rw [hn] at h
              have hnext : t.node (pos ++ [c]) ≠ none := by
                rw [hn]
                exact Option.some_ne_none n
              cases n with
              | dir => exact ih _ hnext h
              | symlink => cases h
              | file data =>
                  dsimp only at h
                  cases ht : target data with
                  | some dest =>
                      rw [ht] at h
                      refine hfollow _ _ ?_ h
                      split
                      · exact Option.some_ne_none _
                      · exact hpos
                  | none =>
                      rw [ht] at h
                      dsimp only at h
                      split at h
                      · cases h
                        exact hnext
                      · cases h

end Parts

end Openlia.Lib

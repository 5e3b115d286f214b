import Mathlib.Data.List.AList
import Mathlib.Data.List.Induction
import Mathlib.Tactic.Common

/-! # Trees of files

A tree maps paths to nodes and is closed: an entry's parent is a directory. The
operations are the system calls a program makes on one tree, with the errors
they return. A symbolic link is a node that is never followed: callers refuse a
path through one before they touch it.
-/

namespace Openlia.Lib

inductive Node (α : Type) where
  | file (data : α)
  | dir
  | symlink
  deriving DecidableEq

inductive Errno where
  | notExist
  | notDir
  | isDir
  | notEmpty
  | link
  deriving DecidableEq

def Errno.text : Errno → String
  | .notExist => "no such file or directory"
  | .notDir => "not a directory"
  | .isDir => "is a directory"
  | .notEmpty => "directory not empty"
  | .link => "too many levels of symbolic links"

/-- Neither path lies at or below the other. -/
def Apart {ν : Type} (p q : List ν) : Prop := ¬ p <+: q ∧ ¬ q <+: p

theorem Apart.ne {ν : Type} {p q : List ν} (h : Apart p q) : p ≠ q := by
  rintro rfl
  exact h.1 (List.prefix_refl _)

/-- Neither path is the other's parent. -/
theorem Apart.ne_dropLast {ν : Type} {p q : List ν} (h : Apart p q) : p ≠ q.dropLast := by
  rintro rfl
  exact h.1 (List.dropLast_prefix _)

theorem prefix_dropLast {ν : Type} {p q : List ν} (hp : p ≠ []) :
    q <+: p.dropLast ↔ q <+: p ∧ q ≠ p := by
  constructor
  · intro h
    refine ⟨h.trans (List.dropLast_prefix p), ?_⟩
    rintro rfl
    have hlen := h.length_le
    rw [List.length_dropLast] at hlen
    exact absurd (List.length_pos_iff.mpr hp) (by omega)
  · rintro ⟨⟨r, rfl⟩, hne⟩
    have hr : r ≠ [] := by rintro rfl; simp at hne
    rw [List.dropLast_append_of_ne_nil hr]
    exact List.prefix_append _ _

variable {ν α : Type} [DecidableEq ν]

instance : DecidableRel (@Apart ν) := fun p q =>
  inferInstanceAs (Decidable (¬ p <+: q ∧ ¬ q <+: p))

instance : Std.Symm (@Apart ν) := ⟨fun _ _ h => And.symm h⟩

/-- The node at a path; the root is always a directory. -/
def nodeAt (entries : AList fun _ : List ν => Node α) (p : List ν) : Option (Node α) :=
  if p = [] then some .dir else entries.lookup p

structure Tree (ν α : Type) [DecidableEq ν] where
  entries : AList fun _ : List ν => Node α
  closed : ∀ p c, nodeAt entries (p ++ [c]) ≠ none → nodeAt entries p = some .dir

namespace Tree

def node (t : Tree ν α) (p : List ν) : Option (Node α) := nodeAt t.entries p

def isDir (t : Tree ν α) (p : List ν) : Bool :=
  match t.node p with
  | some .dir => true
  | _ => false

theorem isDir_eq_true {t : Tree ν α} {p : List ν} : t.isDir p = true ↔ t.node p = some .dir := by
  unfold isDir
  cases t.node p with
  | none => simp
  | some n => cases n <;> simp

theorem isDir_congr {t t' : Tree ν α} {p : List ν} (h : t'.node p = t.node p) :
    t'.isDir p = t.isDir p := by
  rw [Bool.eq_iff_iff, isDir_eq_true, isDir_eq_true, h]

/-- Whether a node is a directory does not need the bytes to be comparable. -/
instance (t : Tree ν α) (p : List ν) : Decidable (t.node p = some .dir) :=
  decidable_of_iff _ isDir_eq_true

/-- The bytes of a regular file, nothing for any other node. -/
def content (t : Tree ν α) (p : List ν) : Option α :=
  match t.node p with
  | some (.file data) => some data
  | _ => none

def empty : Tree ν α where
  entries := ∅
  closed := by intro p c h; simp [nodeAt] at h

@[simp] theorem node_nil (t : Tree ν α) : t.node [] = some .dir := rfl

theorem node_append_singleton {t : Tree ν α} {p : List ν} {c : ν}
    (h : t.node (p ++ [c]) ≠ none) : t.node p = some .dir := t.closed p c h

theorem node_dropLast {t : Tree ν α} {p : List ν} (h : t.node p ≠ none) :
    t.node p.dropLast = some .dir := by
  rcases List.eq_nil_or_concat p with rfl | ⟨q, c, rfl⟩
  · rfl
  · rw [List.concat_eq_append] at h ⊢
    simpa using node_append_singleton h

/-- Every proper prefix of an entry is a directory. -/
theorem node_of_above {t : Tree ν α} {p q : List ν} (hq : t.node q ≠ none) (hp : p <+: q)
    (hne : p ≠ q) : t.node p = some .dir := by
  obtain ⟨s, rfl⟩ := hp
  induction s using List.reverseRecOn with
  | nil => simp at hne
  | append_singleton s c ih =>
      rw [← List.append_assoc] at hq
      have hdir := node_append_singleton hq
      by_cases hs : s = []
      · simpa [hs] using hdir
      · exact ih (by rw [hdir]; simp) (by simpa using hs)

/-- Nothing lies below a node that is not a directory. -/
theorem node_below_eq_none {t : Tree ν α} {p q : List ν} (hp : t.node p ≠ some .dir)
    (hpq : p <+: q) (hne : p ≠ q) : t.node q = none := by
  by_contra h
  exact hp (node_of_above h hpq hne)

theorem content_eq_some {t : Tree ν α} {p : List ν} {d : α} :
    t.content p = some d ↔ t.node p = some (.file d) := by
  unfold content
  cases t.node p with
  | none => simp
  | some n => cases n <;> simp

theorem content_eq_of_node_eq {t t' : Tree ν α} {p : List ν} (h : t.node p = t'.node p) :
    t.content p = t'.content p := by
  simp [content, h]

/-! ## Reading -/

/-- Why a path has no node: the first component that is not a directory decides. -/
def missingFrom (t : Tree ν α) (pre : List ν) : List ν → Errno
  | [] => .notExist
  | c :: rest =>
      match t.node (pre ++ [c]) with
      | some .dir => missingFrom t (pre ++ [c]) rest
      | some (.file _) => .notDir
      | some .symlink => .link
      | none => .notExist

def missing (t : Tree ν α) (p : List ν) : Errno := t.missingFrom [] p

theorem missingFrom_append {t : Tree ν α} {pre p rest : List ν}
    (h : t.node (pre ++ p) = some .dir) :
    t.missingFrom pre (p ++ rest) = t.missingFrom (pre ++ p) rest := by
  induction p generalizing pre with
  | nil => simp
  | cons c p ih =>
      have happ : pre ++ c :: p = pre ++ [c] ++ p := by simp
      rw [happ] at h ⊢
      have hdir : t.node (pre ++ [c]) = some .dir := by
        by_cases hp : p = []
        · simpa [hp] using h
        · exact node_of_above (by rw [h]; simp) (List.prefix_append _ _) (by simpa using hp)
      simp only [List.cons_append, missingFrom, hdir]
      exact ih h

def lstat (t : Tree ν α) (p : List ν) : Except Errno (Node α) :=
  match t.node p with
  | some n => .ok n
  | none => .error (t.missing p)

def stat (t : Tree ν α) (p : List ν) : Except Errno (Node α) :=
  match t.lstat p with
  | .ok .symlink => .error .link
  | r => r

def readFile (t : Tree ν α) (p : List ν) : Except Errno α :=
  match t.stat p with
  | .ok (.file data) => .ok data
  | .ok .dir => .error .isDir
  | .ok .symlink => .error .link
  | .error e => .error e

theorem readFile_eq_ok {t : Tree ν α} {p : List ν} {d : α} :
    t.readFile p = .ok d ↔ t.content p = some d := by
  unfold readFile stat lstat content
  cases t.node p with
  | none => simp
  | some n => cases n <;> simp

theorem lstat_eq_ok {t : Tree ν α} {p : List ν} {n : Node α} :
    t.lstat p = .ok n ↔ t.node p = some n := by
  unfold lstat
  cases t.node p <;> simp

/-- Nothing is found below a file. -/
theorem lstat_below_file {t : Tree ν α} {p rest : List ν} {d : α}
    (h : t.node p = some (.file d)) (hr : rest ≠ []) :
    t.lstat (p ++ rest) = .error .notDir := by
  have hnone : t.node (p ++ rest) = none :=
    node_below_eq_none (by rw [h]; simp) (List.prefix_append _ _) (by simpa using hr)
  obtain ⟨q, c, rfl⟩ : ∃ q c, p = q ++ [c] := by
    rcases List.eq_nil_or_concat p with rfl | ⟨q, c, rfl⟩
    · simp at h
    · exact ⟨q, c, List.concat_eq_append⟩
  have hdir : t.node q = some .dir := node_append_singleton (by rw [h]; simp)
  have happ : q ++ [c] ++ rest = q ++ c :: rest := by simp
  have hmiss : t.missing (q ++ [c] ++ rest) = .notDir := by
    rw [missing, happ, missingFrom_append (by simpa using hdir)]
    simp [missingFrom, h]
  rw [lstat, hnone, hmiss]

/-! ## Changing one entry -/

private theorem nodeAt_insert {entries : AList fun _ : List ν => Node α} {p q : List ν}
    {n : Node α} (hp : p ≠ []) :
    nodeAt (entries.insert p n) q = if q = p then some n else nodeAt entries q := by
  unfold nodeAt
  by_cases hq : q = p
  · subst hq
    rw [if_neg hp, if_pos rfl, AList.lookup_insert]
  · rw [if_neg hq, AList.lookup_insert_ne hq]

private theorem nodeAt_erase {entries : AList fun _ : List ν => Node α} {p q : List ν}
    (hp : p ≠ []) :
    nodeAt (entries.erase p) q = if q = p then none else nodeAt entries q := by
  unfold nodeAt
  by_cases hq : q = p
  · subst hq
    rw [if_neg hp, if_pos rfl, AList.lookup_erase]
  · rw [if_neg hq, AList.lookup_erase_ne hq]

/-- Put a node at a path that is not a directory, below a directory. -/
def put (t : Tree ν α) (p : List ν) (n : Node α) : Except Errno (Tree ν α) :=
  if h : p ≠ [] ∧ t.node p.dropLast = some .dir ∧ t.node p ≠ some .dir then
    .ok ⟨t.entries.insert p n, by
      intro q c hq
      rw [nodeAt_insert h.1] at hq ⊢
      by_cases hqp : q = p
      · exfalso
        subst hqp
        rw [if_neg (by simp)] at hq
        exact h.2.2 (t.closed q c hq)
      · rw [if_neg hqp]
        by_cases hqc : q ++ [c] = p
        · have hd := h.2.1
          rw [← hqc, List.dropLast_concat] at hd
          exact hd
        · rw [if_neg hqc] at hq
          exact t.closed q c hq⟩
  else .error (if t.node p = some .dir then .isDir else t.missing p)

theorem put_node {t t' : Tree ν α} {p : List ν} {n : Node α} (h : t.put p n = .ok t')
    (q : List ν) : t'.node q = if q = p then some n else t.node q := by
  unfold put at h
  split at h
  · cases h
    rename_i hc
    exact nodeAt_insert hc.1
  · cases h

theorem put_isOk {t : Tree ν α} {p : List ν} {n : Node α} :
    (∃ t', t.put p n = .ok t') ↔
      p ≠ [] ∧ t.node p.dropLast = some .dir ∧ t.node p ≠ some .dir := by
  unfold put
  split <;> simp_all

/-- Rename a finished temporary file of the parent directory onto a path: the
parent must be a directory and the path must not be one. -/
def writeFile (t : Tree ν α) (p : List ν) (data : α) : Except Errno (Tree ν α) :=
  t.put p (.file data)

/-- A directory has an entry below it. -/
def hasChild (t : Tree ν α) (p : List ν) : Bool :=
  t.entries.keys.any fun q => decide (q ≠ [] ∧ q.dropLast = p)

theorem hasChild_eq_false {t : Tree ν α} {p : List ν} :
    t.hasChild p = false ↔ ∀ c, t.node (p ++ [c]) = none := by
  rw [hasChild, List.any_eq_false]
  constructor
  · intro h c
    by_contra hc
    have hmem : p ++ [c] ∈ t.entries.keys := by
      rw [← ne_eq, ← Option.isSome_iff_ne_none, node, nodeAt, if_neg (by simp)] at hc
      exact AList.mem_keys.mp (AList.lookup_isSome.mp hc)
    simpa using h _ hmem
  · intro h q hq
    simp only [decide_eq_true_eq, not_and]
    rintro hne rfl
    obtain ⟨r, c, rfl⟩ := (List.eq_nil_or_concat q).resolve_left hne
    rw [List.concat_eq_append] at *
    have hnone := h c
    rw [List.dropLast_concat, node, nodeAt, if_neg (by simp), AList.lookup_eq_none] at hnone
    exact hnone (AList.mem_keys.mpr hq)

/-- `unlink` for a file or a link, `rmdir` for an empty directory. -/
def remove (t : Tree ν α) (p : List ν) : Except Errno (Tree ν α) :=
  if h : p = [] then .error .notEmpty
  else match t.node p with
    | none => .error (t.missing p)
    | some _ =>
        if hc : t.hasChild p = true then .error .notEmpty
        else .ok ⟨t.entries.erase p, by
          have hnone := hasChild_eq_false.mp (Bool.eq_false_iff.mpr hc)
          intro q c hq
          rw [nodeAt_erase h] at hq ⊢
          by_cases hqc : q ++ [c] = p
          · rw [if_pos hqc] at hq
            exact absurd rfl hq
          · rw [if_neg hqc] at hq
            by_cases hqp : q = p
            · exact absurd (hqp ▸ hnone c) hq
            · rw [if_neg hqp]
              exact t.closed q c hq⟩

theorem remove_node {t t' : Tree ν α} {p : List ν} (h : t.remove p = .ok t') (q : List ν) :
    t'.node q = if q = p then none else t.node q := by
  unfold remove at h
  split at h
  · cases h
  · rename_i hp
    split at h
    · cases h
    · split at h
      · cases h
      · cases h
        exact nodeAt_erase hp

theorem hasChild_eq_false_of_not_dir {t : Tree ν α} {p : List ν} (h : t.node p ≠ some .dir) :
    t.hasChild p = false := by
  rw [hasChild_eq_false]
  intro c
  by_contra hc
  exact h (node_append_singleton hc)

/-- A file or a link can always be removed. -/
theorem remove_isOk {t : Tree ν α} {p : List ν} (h : t.node p ≠ none)
    (hd : t.node p ≠ some .dir) : ∃ t', t.remove p = .ok t' := by
  have hp : p ≠ [] := by rintro rfl; exact hd rfl
  unfold remove
  rw [dif_neg hp]
  cases hn : t.node p with
  | none => exact absurd hn h
  | some n => simp [hasChild_eq_false_of_not_dir hd]

/-! ## Creating directories -/

/-- Create the missing directories on the way from `pre` along `rest`. -/
def mkdirAllFrom (t : Tree ν α) (pre : List ν) : List ν → Except Errno (Tree ν α)
  | [] => .ok t
  | c :: rest =>
      match t.node (pre ++ [c]) with
      | some .dir => mkdirAllFrom t (pre ++ [c]) rest
      | some _ => .error .notDir
      | none =>
          match t.put (pre ++ [c]) .dir with
          | .error e => .error e
          | .ok t' => mkdirAllFrom t' (pre ++ [c]) rest

def mkdirAll (t : Tree ν α) (p : List ν) : Except Errno (Tree ν α) := t.mkdirAllFrom [] p

theorem mkdirAllFrom_node {t t' : Tree ν α} {pre rest : List ν}
    (h : t.mkdirAllFrom pre rest = .ok t') (hpre : t.node pre = some .dir) :
    t'.node (pre ++ rest) = some .dir ∧
      ∀ q, t'.node q = t.node q ∨
        (t.node q = none ∧ t'.node q = some .dir ∧ q <+: pre ++ rest) := by
  induction rest generalizing t pre with
  | nil =>
      cases h
      exact ⟨by simpa using hpre, fun q => Or.inl rfl⟩
  | cons c rest ih =>
      have happ : pre ++ c :: rest = pre ++ [c] ++ rest := by simp
      rw [happ]
      unfold mkdirAllFrom at h
      split at h
      · rename_i hd
        exact ih h hd
      · cases h
      · rename_i hnone
        split at h
        · cases h
        · rename_i t1 hput
          have hn := put_node hput
          obtain ⟨hlast, hrest⟩ := ih h (by rw [hn, if_pos rfl])
          refine ⟨hlast, fun q => ?_⟩
          have hq := hn q
          by_cases hqc : q = pre ++ [c]
          · rw [if_pos hqc] at hq
            right
            subst hqc
            refine ⟨hnone, ?_, List.prefix_append _ _⟩
            rcases hrest (pre ++ [c]) with h1 | ⟨h1, -, -⟩
            · rw [h1, hq]
            · rw [hq] at h1; cases h1
          · rw [if_neg hqc] at hq
            rcases hrest q with h1 | ⟨h1, h2, h3⟩
            · left; rw [h1, hq]
            · right; exact ⟨by rw [← hq]; exact h1, h2, h3⟩

theorem mkdirAllFrom_isOk {t : Tree ν α} {pre rest : List ν} (hpre : t.node pre = some .dir)
    (h : ∀ q, q <+: pre ++ rest → t.node q = none ∨ t.node q = some .dir) :
    ∃ t', t.mkdirAllFrom pre rest = .ok t' := by
  induction rest generalizing t pre with
  | nil => exact ⟨t, rfl⟩
  | cons c rest ih =>
      have happ : pre ++ c :: rest = pre ++ [c] ++ rest := by simp
      rw [happ] at h
      unfold mkdirAllFrom
      rcases h (pre ++ [c]) (List.prefix_append _ _) with hn | hn
      · obtain ⟨t1, ht1⟩ : ∃ t1, t.put (pre ++ [c]) .dir = .ok t1 :=
          put_isOk.mpr ⟨by simp, by simpa using hpre, by rw [hn]; simp⟩
        have hnode := put_node ht1
        simp only [hn, ht1]
        refine ih (by rw [hnode, if_pos rfl]) fun q hq => ?_
        rw [hnode]
        by_cases hqc : q = pre ++ [c]
        · rw [if_pos hqc]; exact Or.inr rfl
        · rw [if_neg hqc]; exact h q hq
      · simp only [hn]
        exact ih hn h

theorem mkdirAll_node {t t' : Tree ν α} {p : List ν} (h : t.mkdirAll p = .ok t') :
    t'.node p = some .dir ∧
      ∀ q, t'.node q = t.node q ∨ (t.node q = none ∧ t'.node q = some .dir ∧ q <+: p) := by
  simpa using mkdirAllFrom_node h (node_nil t)

/-- The directories that are made are those that were missing on the way. -/
theorem mkdirAll_fills {t t' : Tree ν α} {p : List ν} (h : t.mkdirAll p = .ok t') (q : List ν) :
    t'.node q = (t.node q).or (if q <+: p then some .dir else none) := by
  obtain ⟨hp, hall⟩ := mkdirAll_node h
  by_cases hq : q <+: p
  · have hdir : t'.node q = some .dir := by
      by_cases hqp : q = p
      · rw [hqp, hp]
      · exact node_of_above (by rw [hp]; exact Option.some_ne_none _) hq hqp
    rw [if_pos hq]
    rcases hall q with hsame | ⟨hnone, -, -⟩
    · rw [← hsame, hdir, Option.some_or]
    · rw [hdir, hnone, Option.none_or]
  · rw [if_neg hq, Option.or_none]
    rcases hall q with hsame | ⟨-, -, hprefix⟩
    · exact hsame
    · exact absurd hprefix hq

theorem mkdirAll_isOk {t : Tree ν α} {p : List ν}
    (h : ∀ q, q <+: p → t.node q = none ∨ t.node q = some .dir) : ∃ t', t.mkdirAll p = .ok t' :=
  mkdirAllFrom_isOk (node_nil t) (by simpa using h)

theorem mkdirAll_content {t t' : Tree ν α} {p : List ν} (h : t.mkdirAll p = .ok t')
    (q : List ν) : t'.content q = t.content q := by
  rcases (mkdirAll_node h).2 q with h1 | ⟨h1, h2, -⟩
  · exact content_eq_of_node_eq h1
  · simp [content, h1, h2]

theorem put_content {t t' : Tree ν α} {p : List ν} {d : α} (h : t.put p (.file d) = .ok t')
    (q : List ν) : t'.content q = if q = p then some d else t.content q := by
  have hn := put_node h q
  by_cases hq : q = p
  · rw [if_pos hq] at hn ⊢
    exact content_eq_some.mpr hn
  · rw [if_neg hq] at hn ⊢
    exact content_eq_of_node_eq hn

theorem remove_content {t t' : Tree ν α} {p : List ν} (h : t.remove p = .ok t')
    (q : List ν) : t'.content q = if q = p then none else t.content q := by
  have hn := remove_node h q
  by_cases hq : q = p
  · rw [if_pos hq] at hn ⊢
    simp [content, hn]
  · rw [if_neg hq] at hn ⊢
    exact content_eq_of_node_eq hn

end Tree

end Openlia.Lib

import Openlia.Operator.Skills.Trees

/-! # Writing files over a directory

Files are written and removed one path after another. Writing a file makes the
directories above it; removing one leaves them. What the directory holds on the
way depends only on which paths were passed.
-/

namespace Openlia.Skills

open Lib

/-! ## Regular files -/

def regular : Node Leaf → Option Bytes
  | .file (.regular contents) => some contents
  | .file (.link _) | .symlink | .dir => none

theorem regular_eq_some {n : Node Leaf} {c : Bytes} :
    regular n = some c ↔ n = .file (.regular c) := by
  rcases n with (c' | target) | _ | _ <;> simp [regular]

/-- The contents of the file at a path. -/
def fileAt (t : Dir) (p : Path) : Option Bytes := (t.node p).bind regular

theorem fileAt_eq_some {t : Dir} {p : Path} {c : Bytes} :
    fileAt t p = some c ↔ t.node p = some (.file (.regular c)) := by
  rw [fileAt, Option.bind_eq_some_iff]
  constructor
  · rintro ⟨n, hn, hc⟩
    rw [hn, regular_eq_some.mp hc]
  · exact fun h => ⟨_, h, regular_eq_some.mpr rfl⟩

theorem Plain.node_eq_none {t : Dir} (h : Plain t) {p : Path} (hf : fileAt t p = none)
    (hd : t.node p ≠ some .dir) : t.node p = none := by
  by_contra hn
  obtain ⟨n, hn⟩ := Option.ne_none_iff_exists'.mp hn
  rcases h p n hn with rfl | ⟨c, rfl⟩
  · exact hd hn
  · cases hf.symm.trans (fileAt_eq_some.mpr hn)

theorem fileAt_of_dir {t : Dir} {p : Path} (h : t.node p = some .dir) : fileAt t p = none := by
  rw [fileAt, h]
  rfl

section Files

variable {t current : Dir}

theorem sameFiles_iff (ht : Plain t) (hc : Plain current) :
    SameFiles t current ↔ ∀ p, fileAt t p = fileAt current p := by
  constructor
  · intro h p
    ext c
    rw [fileAt_eq_some, fileAt_eq_some]
    exact h p _
  · intro h p l
    constructor
    · intro hl
      rcases ht p _ hl with hd | ⟨c, hl'⟩
      · cases hd
      · cases hl'
        exact fileAt_eq_some.mp ((h p).symm.trans (fileAt_eq_some.mpr hl))
    · intro hl
      rcases hc p _ hl with hd | ⟨c, hl'⟩
      · cases hd
      · cases hl'
        exact fileAt_eq_some.mp ((h p).trans (fileAt_eq_some.mpr hl))

theorem node_eq_of_plain {p : Path} (ht : Plain t) (hc : Plain current)
    (hfile : fileAt t p = fileAt current p)
    (hdir : t.node p = some .dir ↔ current.node p = some .dir) : t.node p = current.node p := by
  by_cases hd : t.node p = some .dir
  · rw [hd, hdir.mp hd]
  · cases hf : fileAt t p with
    | some c => rw [fileAt_eq_some.mp hf, fileAt_eq_some.mp (hfile.symm.trans hf)]
    | none =>
        rw [ht.node_eq_none hf hd,
          hc.node_eq_none (hfile.symm.trans hf) fun h => hd (hdir.mpr h)]

end Files

/-! ## Writing one file -/

/-- What is missing below directories does not exist. -/
theorem missing_eq_notExist {t : Dir} {p : Path} (h : t.node p = none)
    (habove : ∀ q, q <+: p → q ≠ p → t.node q = none ∨ t.node q = some .dir) :
    t.missing p = .notExist := by
  have hfrom : ∀ rest pre : Path, pre ++ rest = p → t.missingFrom pre rest = .notExist := by
    intro rest
    induction rest with
    | nil => exact fun _ _ => rfl
    | cons c rest ih =>
        intro pre hpre
        have happ : pre ++ [c] ++ rest = p := by simpa using hpre
        rw [Tree.missingFrom]
        by_cases hlast : pre ++ [c] = p
        · rw [hlast, h]
        · rcases habove (pre ++ [c]) ⟨rest, happ⟩ hlast with hn | hn
          · rw [hn]
          · rw [hn]
            exact ih _ happ
  exact hfrom p [] rfl

/-- The directories above a path are made and a file is put there. -/
def Wrote (t : Dir) (p : Path) (c : Bytes) (t' : Dir) : Prop :=
  ∃ t₁, t.mkdirAll p.dropLast = .ok t₁ ∧ t₁.writeFile p (.regular c) = .ok t'

theorem Wrote.nodes {t t' : Dir} {p : Path} {c : Bytes} (hp : p ≠ []) (ht : Plain t)
    (h : Wrote t p c t') :
    Plain t' ∧ (∀ q, fileAt t' q = if q = p then some c else fileAt t q) ∧
      ∀ q, t'.node q = some .dir ↔ t.node q = some .dir ∨ (q <+: p ∧ q ≠ p) := by
  obtain ⟨t₁, hmk, hput⟩ := h
  have hnode := Tree.put_node hput
  have hmade := Tree.mkdirAll_node hmk
  have hp₁ : t₁.node p ≠ some .dir := (Tree.put_isOk.mp ⟨_, hput⟩).2.2
  refine ⟨fun q n hn => ?_, fun q => ?_, fun q => ?_⟩
  · rw [hnode] at hn
    split at hn
    · exact .inr ⟨c, (Option.some.inj hn).symm⟩
    · rcases hmade.2 q with hq | ⟨-, hq, -⟩
      · exact ht q n (hq ▸ hn)
      · exact .inl (Option.some.inj (hn.symm.trans hq))
  · rw [fileAt, hnode]
    split
    · rfl
    · rcases hmade.2 q with hq | ⟨hno, hq, -⟩
      · rw [hq, fileAt]
      · rw [hq, fileAt, hno]
        rfl
  · rw [hnode, ← prefix_dropLast hp]
    by_cases hq : q = p
    · subst hq
      rw [if_pos rfl]
      refine ⟨nofun, ?_⟩
      rintro (hd | hd)
      · rcases hmade.2 q with h₁ | ⟨h₁, h₂, -⟩
        · exact absurd (h₁.trans hd) hp₁
        · exact absurd h₂ hp₁
      · exact absurd rfl ((prefix_dropLast hp).mp hd).2
    · rw [if_neg hq]
      constructor
      · intro hd
        rcases hmade.2 q with h₁ | ⟨-, -, h₁⟩
        · exact .inl (h₁.symm.trans hd)
        · exact .inr h₁
      · rintro (hd | hd)
        · rcases hmade.2 q with h₁ | ⟨h₁, h₂, -⟩
          · exact h₁.trans hd
          · exact h₂
        · by_cases hlast : q = p.dropLast
          · exact hlast ▸ hmade.1
          · exact Tree.node_of_above (by rw [hmade.1]; simp) hd hlast

theorem exists_wrote {t : Dir} {p : Path} {c : Bytes} (hp : p ≠ [])
    (hnode : t.node p ≠ some .dir)
    (habove : ∀ q, q <+: p → q ≠ p → t.node q = none ∨ t.node q = some .dir) :
    ∃ t', Wrote t p c t' := by
  obtain ⟨t₁, hmk⟩ := Tree.mkdirAll_isOk fun q hq =>
    habove q ((prefix_dropLast hp).mp hq).1 ((prefix_dropLast hp).mp hq).2
  have hmade := Tree.mkdirAll_node hmk
  have hp₁ : t₁.node p ≠ some .dir := by
    rcases hmade.2 p with h₁ | ⟨-, -, h₁⟩
    · rwa [h₁]
    · exact absurd rfl ((prefix_dropLast hp).mp h₁).2
  obtain ⟨t₂, hput⟩ : ∃ t₂, t₁.put p (.file (.regular c)) = .ok t₂ :=
    Tree.put_isOk.mpr ⟨hp, hmade.1, hp₁⟩
  exact ⟨t₂, t₁, hmk, hput⟩

/-! ## Passing paths -/

/-- The directory when some paths were passed: their files are those laid over. -/
structure Overlaid (base : Dir) (laid : Path → Option Bytes) (done : List Path) (t : Dir) :
    Prop where
  plain : Plain t
  file : ∀ p, fileAt t p = if p ∈ done then laid p else fileAt base p
  dir : ∀ p, t.node p = some .dir ↔ base.node p = some .dir ∨
    ∃ q ∈ done, (fileAt base q = none ∧ laid q ≠ none) ∧ p <+: q ∧ p ≠ q

section Overlaid

variable {base t t' : Dir} {laid : Path → Option Bytes} {done : List Path} {p : Path}

theorem Overlaid.start (laid : Path → Option Bytes) (hb : Plain base) :
    Overlaid base laid [] base :=
  ⟨hb, fun p => by simp, fun p => by simp⟩

/-- Passing a path that has no new file makes no directory. -/
theorem exists_made_concat (hno : ¬ (fileAt base p = none ∧ laid p ≠ none)) {q : Path} :
    (∃ a ∈ done ++ [p], (fileAt base a = none ∧ laid a ≠ none) ∧ q <+: a ∧ q ≠ a) ↔
      ∃ a ∈ done, (fileAt base a = none ∧ laid a ≠ none) ∧ q <+: a ∧ q ≠ a := by
  constructor
  · rintro ⟨a, ha, hadd, habove⟩
    rcases List.mem_append.mp ha with ha | ha
    · exact ⟨a, ha, hadd, habove⟩
    · rw [List.mem_singleton.mp ha] at hadd
      exact absurd hadd hno
  · rintro ⟨a, ha, hadd⟩
    exact ⟨a, List.mem_append_left _ ha, hadd⟩

/-- A path with the same file on both sides changes nothing. -/
theorem Overlaid.skip (h : Overlaid base laid done t) (hsame : fileAt base p = laid p) :
    Overlaid base laid (done ++ [p]) t := by
  refine ⟨h.plain, fun q => ?_, fun q => ?_⟩
  · rw [h.file]
    by_cases hq : q = p
    · subst hq
      simp [hsame]
    · simp [hq]
  · rw [h.dir, exists_made_concat fun hadd => hadd.2 (hsame ▸ hadd.1)]

/-- The path's file is the new one now, and with it the directories above. -/
theorem Overlaid.write {c : Bytes} (h : Overlaid base laid done t) (hp : p ≠ [])
    (hc : laid p = some c) (hw : Wrote t p c t') : Overlaid base laid (done ++ [p]) t' := by
  obtain ⟨hplain, hfile, hdir⟩ := hw.nodes hp h.plain
  refine ⟨hplain, fun q => ?_, fun q => ?_⟩
  · rw [hfile, h.file]
    by_cases hq : q = p
    · subst hq
      simp [hc]
    · simp [hq]
  · rw [hdir, h.dir]
    constructor
    · rintro ((hb | ⟨a, ha, hadd⟩) | ⟨hq, hne⟩)
      · exact .inl hb
      · exact .inr ⟨a, List.mem_append_left _ ha, hadd⟩
      · cases hold : fileAt base p with
        | none => exact .inr ⟨p, by simp, ⟨hold, by rw [hc]; simp⟩, hq, hne⟩
        | some old =>
            exact .inl (Tree.node_of_above (by rw [fileAt_eq_some.mp hold]; simp) hq hne)
    · rintro (hb | ⟨a, ha, hadd, hq, hne⟩)
      · exact .inl (.inl hb)
      · rcases List.mem_append.mp ha with ha | ha
        · exact .inl (.inr ⟨a, ha, hadd, hq, hne⟩)
        · rw [List.mem_singleton.mp ha] at hq hne
          exact .inr ⟨hq, hne⟩

theorem Overlaid.delete (h : Overlaid base laid done t) (hc : laid p = none)
    (hfile : fileAt t p ≠ none) (hw : t.remove p = .ok t') :
    Overlaid base laid (done ++ [p]) t' := by
  have hnode := Tree.remove_node hw
  refine ⟨fun q n hn => ?_, fun q => ?_, fun q => ?_⟩
  · rw [hnode] at hn
    split at hn
    · cases hn
    · exact h.plain q n hn
  · by_cases hq : q = p
    · subst hq
      rw [fileAt, hnode, if_pos rfl]
      simp [hc]
    · have hkeep : fileAt t' q = fileAt t q := by rw [fileAt, hnode, if_neg hq, fileAt]
      rw [hkeep, h.file]
      simp [hq]
  · have hkeep : t'.node q = some .dir ↔ t.node q = some .dir := by
      rw [hnode]
      by_cases hq : q = p
      · subst hq
        rw [if_pos rfl]
        exact ⟨nofun, fun hd => absurd (fileAt_of_dir hd) hfile⟩
      · rw [if_neg hq]
    rw [hkeep, h.dir, exists_made_concat fun hadd => hadd.2 hc]

end Overlaid

/-! ## Building a directory -/

section Building

variable {t : Dir} {p : Path} {n : Node Leaf}

def put (t : Dir) (p : Path) (n : Node Leaf) : Dir := (t.put p n).toOption.getD t

theorem node_put (h : (t.put p n).isOk = true) (q : Path) :
    (put t p n).node q = if q = p then some n else t.node q := by
  unfold put
  cases hp : t.put p n with
  | error e => rw [hp] at h; cases h
  | ok u => exact Tree.put_node hp q

theorem plain_put (ht : Plain t) (hn : n = .dir ∨ ∃ c, n = .file (.regular c)) :
    Plain (put t p n) := by
  intro q m hm
  unfold put at hm
  cases hp : t.put p n with
  | error e =>
      rw [hp] at hm
      exact ht q m hm
  | ok u =>
      rw [hp] at hm
      have hnode := Tree.put_node hp q
      split at hnode
      · exact Option.some.inj (hm.symm.trans hnode) ▸ hn
      · exact ht q m (hnode.symm.trans hm)

theorem plain_empty : Plain .empty := by
  intro p n hn
  by_cases hp : p = []
  · subst hp
    exact .inl (Option.some.inj hn).symm
  · rw [Lib.Tree.node, nodeAt, if_neg hp] at hn
    cases hn

def regularFile (contents : String) : Node Leaf := .file (.regular (text contents))

theorem plain_file (ht : Plain t) (contents : String) : Plain (put t p (regularFile contents)) :=
  plain_put ht (.inr ⟨_, rfl⟩)

def skillMd : FileName := ⟨"SKILL.md", by decide⟩

def notes : FileName := ⟨"notes", by decide⟩

def notesFile : Dir := put .empty [notes] (regularFile "x")

theorem digested_notesFile : digested notesFile = chunk notesFile [notes] := by
  rw [digested, hashedPaths, sortedPaths_eq (l := [[notes]]) (by decide +kernel)
    (by decide +kernel)]
  decide +kernel

theorem digested_empty : digested .empty = [] := by
  rw [digested, hashedPaths, sortedPaths_eq (l := []) (by decide +kernel) (by decide +kernel)]
  rfl

end Building

/-! ## A checksum -/

def hexDigits (n : Nat) : Nat → List Char
  | 0 => []
  | k + 1 => Nat.digitChar (n % 16) :: hexDigits (n / 16) k

theorem hexDigits_length (n k : Nat) : (hexDigits n k).length = k := by
  induction k generalizing n with
  | zero => rfl
  | succ k ih => rw [hexDigits, List.length_cons, ih]

theorem hexDigits_hex {n k : Nat} {c : Char} (h : c ∈ hexDigits n k) :
    ('0' ≤ c ∧ c ≤ '9') ∨ ('a' ≤ c ∧ c ≤ 'f') := by
  induction k generalizing n with
  | zero => cases h
  | succ k ih =>
      rcases List.mem_cons.mp h with rfl | h
      · have hdigit : ∀ d < 16, ('0' ≤ Nat.digitChar d ∧ Nat.digitChar d ≤ '9') ∨
            ('a' ≤ Nat.digitChar d ∧ Nat.digitChar d ≤ 'f') := by decide
        exact hdigit _ (Nat.mod_lt _ (by decide))
      · exact ih h

/-- 64 digits. -/
def checksumText (bytes : Bytes) : String :=
  String.ofList (hexDigits (bytes.foldl (fun n b => 257 * n + b.toNat + 1) 0) 64)

end Openlia.Skills

import Mathlib.Data.List.Sort
import Openlia.Lib.Regex
import Openlia.Policy.Paths

/-! # Patches

The operations a patch names, as the plugin's three expressions find them, and
what carrying them out does to the tree. Hermes reads the same headers in the
order of the text. A path stands for the file it leads to, and the first
operation that cannot be carried out ends the patch.
-/

namespace Openlia.Policy

open Lib

/-! ## Operations -/

inductive OperationKind where
  | replace | update | add | delete | move
  deriving DecidableEq, Repr

structure Operation where
  kind : OperationKind
  path : Text
  second : Option Text
  deriving DecidableEq, Repr

/-- An argument of a tool call; missing ones are falsy. -/
inductive ArgValue where
  | str (s : Text)
  | other (truthy : Bool)
  deriving DecidableEq, Repr

/-- `value or fallback`. -/
def ArgValue.or (fallback : Text) : ArgValue → ArgValue
  | .str [] | .other false => .str fallback
  | v => v

structure Args where
  path : ArgValue
  mode : ArgValue
  patch : ArgValue
  deriving DecidableEq, Repr

def notNewline (c : Char) : Bool := c ≠ '\n'

/-- `_PATCH_FILE_HEADER`. -/
def patchFileHeader : Regex := .seqs [
  .lineStart, .lit "***", .many true isSpace,
  .group "operation" (.lits ["Update", "Add", "Delete"]), .some1 true isSpace,
  .lit "File:", .many true isSpace, .group "path" (.some1 false notNewline),
  .many true isSpace, .lineEnd]

/-- `_PATCH_MOVE_HEADER`. -/
def patchMoveHeader : Regex := .seqs [
  .lineStart, .lit "***", .many true isSpace, .lit "Move", .some1 true isSpace,
  .lit "File:", .many true isSpace, .group "source" (.some1 false notNewline),
  .many true isSpace, .lit "->", .many true isSpace,
  .group "target" (.some1 false notNewline), .many true isSpace, .lineEnd]

/-- `_PATCH_MOVE_TO_HEADER`. -/
def patchMoveToHeader : Regex := .seqs [
  .lineStart, .lit "***", .many true isSpace, .lit "Move", .some1 true isSpace,
  .lit "File:", .many true isSpace, .group "source" (.some1 false notNewline),
  .many true isSpace, .lineEnd, .lit "\n", .lit "***", .many true isSpace, .lit "Move",
  .some1 true isSpace, .lit "to:", .many true isSpace,
  .group "target" (.some1 false notNewline), .many true isSpace, .lineEnd]

/-- The kind that a matched word names. -/
def operationKind (word : Text) : OperationKind :=
  if word = "Update".toList then .update
  else if word = "Add".toList then .add
  else .delete

def fileOperation (s : Cursor) : Operation :=
  ⟨operationKind (s.group "operation"), strip (s.group "path"), none⟩

def moveOperation (s : Cursor) : Operation :=
  ⟨.move, strip (s.group "source"), some (strip (s.group "target"))⟩

/-- The headers of a patch with their positions, in the groups they are found in. -/
def patchHeaders (body : Text) : List (Nat × Operation) :=
  (patchFileHeader.findIter body).map (Prod.map id fileOperation) ++
    (patchMoveHeader.findIter body).map (Prod.map id moveOperation) ++
    (patchMoveToHeader.findIter body).map (Prod.map id moveOperation)

/-- `_patch_operations`, with the positions. -/
def patchCallHeaders (args : Args) : List (Nat × Operation) :=
  if args.mode.or "replace".toList ≠ .str "patch".toList then
    match args.path with
    | .str path => [(0, ⟨.replace, path, none⟩)]
    | .other _ => []
  else match args.patch.or [] with
    | .str body => patchHeaders body
    | .other _ => []

inductive FileTool where
  | writeFile | patch
  deriving DecidableEq, Repr

def FileTool.text : FileTool → String
  | .writeFile => "write_file"
  | .patch => "patch"

/-- The operations of a call with their positions. -/
def callHeaders (tool : FileTool) (args : Args) : List (Nat × Operation) :=
  match tool, args.path with
  | .patch, _ => patchCallHeaders args
  | .writeFile, .str path => [(0, ⟨.replace, path, none⟩)]
  | .writeFile, .other _ => []

/-- The operations as the plugin judges them. -/
def calledOperations (tool : FileTool) (args : Args) : List Operation :=
  (callHeaders tool args).map Prod.snd

/-- The operations as Hermes carries them out, in the order of the text. -/
def calledHeaders (tool : FileTool) (args : Args) : List (Nat × Operation) :=
  (callHeaders tool args).insertionSort fun a b => a.1 ≤ b.1

theorem mem_calledHeaders {tool : FileTool} {args : Args} {x : Nat × Operation}
    (h : x ∈ calledHeaders tool args) : x.2 ∈ calledOperations tool args :=
  List.mem_map_of_mem ((List.perm_insertionSort _ _).mem_iff.mp h)

/-! ## Effects -/

/-- An operation on the places its paths lead to. -/
inductive Effect where
  | update (path : List Name)
  | write (path : List Name)
  | delete (path : List Name)
  | move (source target : List Name)
  deriving DecidableEq, Repr

namespace Effect

def paths : Effect → List (List Name)
  | .update path | .write path | .delete path => [path]
  | .move source target => [source, target]

/-- The place whose whole content the operation sets. -/
def written : Effect → Option (List Name)
  | .write path | .move _ path => some path
  | _ => none

/-- The places, of some followed so far and the operation's own, where it leaves a file. -/
def leaves (produced : List (List Name)) : Effect → List (List Name)
  | .update _ => produced
  | .write path => path :: produced
  | .delete path => produced.filter (· ≠ path)
  | .move source target => target :: produced.filter (· ≠ source)

end Effect

variable {α : Type}

def Operation.effect (h : Host α) (op : Operation) : Except PathError (Option Effect) := do
  let path ← h.locate op.path
  match op.kind with
  | .replace | .add => pure (some (.write path))
  | .update => pure (some (.update path))
  | .delete => pure (some (.delete path))
  | .move =>
      match op.second with
      | none => pure none
      | some second => pure (some (.move path (← h.locate second)))

/-- Set the content of a file, with the directories it needs. -/
def writeWhole (t : Tree Name α) (path : List Name) (data : α) : Option (Tree Name α) := do
  let t ← (t.mkdirAll path.dropLast).toOption
  (t.writeFile path data).toOption

/-- Carry an operation out; its text says what becomes of a file's content. -/
def Effect.apply (t : Tree Name α) (text : Option α → Option α) : Effect → Option (Tree Name α)
  | .update path => do
      let old ← t.content path
      let new ← text (some old)
      (t.writeFile path new).toOption
  | .write path => do
      let new ← text none
      writeWhole t path new
  | .delete path => do
      let _ ← t.content path
      (t.remove path).toOption
  | .move source target => do
      let data ← t.content source
      if source = target then none
      else
        let t ← writeWhole t target data
        (t.remove source).toOption

structure Step (α : Type) where
  before : Tree Name α
  effect : Effect

/-- Operation by operation up to the first that cannot be carried out. -/
def carryOut (h : Host α) (texts : Nat → Option α → Option α) (t : Tree Name α) :
    List (Nat × Operation) → List (Step α) × Tree Name α
  | [] => ([], t)
  | (i, op) :: rest =>
      match op.effect { h with tree := t } with
      | .ok (some e) =>
          match e.apply t (texts i) with
          | none => ([], t)
          | some t' =>
              let run := carryOut h texts t' rest
              (⟨t, e⟩ :: run.1, run.2)
      | _ => ([], t)

/-! ## What an operation changes -/

theorem toOption_eq_some {ε β : Type} {x : Except ε β} {b : β} (h : x.toOption = some b) :
    x = .ok b := by
  cases x with
  | error e => cases h
  | ok a =>
      cases h
      rfl

theorem writeWhole_content {t t' : Tree Name α} {path : List Name} {data : α}
    (h : writeWhole t path data = some t') (q : List Name) :
    t'.content q = if q = path then some data else t.content q := by
  obtain ⟨t₁, h₁, h₂⟩ := Option.bind_eq_some_iff.mp h
  rw [Tree.put_content (toOption_eq_some h₂), Tree.mkdirAll_content (toOption_eq_some h₁)]

/-- A file stands where none of the links did. -/
theorem writeWhole_symlink {t t' : Tree Name α} {path : List Name} {data : α}
    (h : writeWhole t path data = some t') (hl : t.node path ≠ some .symlink) (q : List Name) :
    t'.node q = some .symlink ↔ t.node q = some .symlink := by
  obtain ⟨t₁, h₁, h₂⟩ := Option.bind_eq_some_iff.mp h
  rw [Tree.put_node (toOption_eq_some h₂)]
  have hm : t₁.node q = some .symlink ↔ t.node q = some .symlink := by
    rcases (Tree.mkdirAll_node (toOption_eq_some h₁)).2 q with hq | ⟨hn, hd, -⟩
    · rw [hq]
    · rw [hn, hd]
      simp
  by_cases hq : q = path
  · rw [if_pos hq, hq]
    simp [hl]
  · rw [if_neg hq, hm]

theorem remove_symlink {t t' : Tree Name α} {path : List Name}
    (h : t.remove path = .ok t') (hl : t.node path ≠ some .symlink) (q : List Name) :
    t'.node q = some .symlink ↔ t.node q = some .symlink := by
  rw [Tree.remove_node h]
  by_cases hq : q = path
  · rw [if_pos hq, hq]
    simp [hl]
  · rw [if_neg hq]

namespace Effect

variable {t t' : Tree Name α} {text : Option α → Option α}

theorem apply_update {path : List Name} (h : (update path).apply t text = some t') :
    ∃ new, t.content path ≠ none ∧ t.writeFile path new = .ok t' := by
  obtain ⟨old, hold, h⟩ := Option.bind_eq_some_iff.mp h
  obtain ⟨new, -, h⟩ := Option.bind_eq_some_iff.mp h
  exact ⟨new, by rw [hold]; simp, toOption_eq_some h⟩

theorem apply_write {path : List Name} (h : (write path).apply t text = some t') :
    ∃ new, writeWhole t path new = some t' := by
  obtain ⟨new, -, h⟩ := Option.bind_eq_some_iff.mp h
  exact ⟨new, h⟩

theorem apply_delete {path : List Name} (h : (delete path).apply t text = some t') :
    t.remove path = .ok t' := by
  obtain ⟨-, -, h⟩ := Option.bind_eq_some_iff.mp h
  exact toOption_eq_some h

theorem apply_move {source target : List Name}
    (h : (move source target).apply t text = some t') :
    ∃ data t₁, source ≠ target ∧ writeWhole t target data = some t₁ ∧
      t₁.remove source = .ok t' := by
  obtain ⟨data, -, h⟩ := Option.bind_eq_some_iff.mp h
  split at h
  · cases h
  · rename_i hne
    obtain ⟨t₁, h₁, h⟩ := Option.bind_eq_some_iff.mp h
    exact ⟨data, t₁, hne, h₁, toOption_eq_some h⟩

/-- The content of every other path stays. -/
theorem apply_content_of_notMem {e : Effect} (h : e.apply t text = some t') {q : List Name}
    (hq : q ∉ e.paths) : t'.content q = t.content q := by
  cases e with
  | update path =>
      obtain ⟨new, -, h⟩ := apply_update h
      have hne : q ≠ path := by simpa [paths] using hq
      rw [Tree.put_content h, if_neg hne]
  | write path =>
      obtain ⟨new, h⟩ := apply_write h
      have hne : q ≠ path := by simpa [paths] using hq
      rw [writeWhole_content h, if_neg hne]
  | delete path =>
      have hne : q ≠ path := by simpa [paths] using hq
      rw [Tree.remove_content (apply_delete h), if_neg hne]
  | move source target =>
      obtain ⟨data, t₁, -, h₁, h⟩ := apply_move h
      have hne : q ≠ source ∧ q ≠ target := by simpa [paths] using hq
      rw [Tree.remove_content h, if_neg hne.1, writeWhole_content h₁, if_neg hne.2]

/-- No link comes or goes. -/
theorem apply_symlink {e : Effect} (h : e.apply t text = some t')
    (hl : ∀ path ∈ e.paths, t.node path ≠ some .symlink) (q : List Name) :
    t'.node q = some .symlink ↔ t.node q = some .symlink := by
  cases e with
  | update path =>
      obtain ⟨new, -, h⟩ := apply_update h
      rw [Tree.put_node h]
      by_cases hq : q = path
      · rw [if_pos hq, hq]
        simp [hl path (by simp [paths])]
      · rw [if_neg hq]
  | write path =>
      obtain ⟨new, h⟩ := apply_write h
      exact writeWhole_symlink h (hl path (by simp [paths])) q
  | delete path => exact remove_symlink (apply_delete h) (hl path (by simp [paths])) q
  | move source target =>
      obtain ⟨data, t₁, -, h₁, h⟩ := apply_move h
      have hw := writeWhole_symlink h₁ (hl target (by simp [paths]))
      have hs : t₁.node source ≠ some .symlink := by
        rw [ne_eq, hw]
        exact hl source (by simp [paths])
      rw [remove_symlink h hs, hw]

/-- Following where files are left follows where files stand. -/
theorem mem_leaves_iff {e : Effect} (h : e.apply t text = some t') {produced : List (List Name)}
    {q : List Name} (hq : t.content q ≠ none ↔ q ∈ produced) :
    t'.content q ≠ none ↔ q ∈ e.leaves produced := by
  cases e with
  | update path =>
      obtain ⟨new, hold, h⟩ := apply_update h
      rw [Tree.put_content h, leaves, ← hq]
      by_cases hqp : q = path
      · subst hqp
        simp [hold]
      · rw [if_neg hqp]
  | write path =>
      obtain ⟨new, h⟩ := apply_write h
      rw [writeWhole_content h, leaves, List.mem_cons, ← hq]
      by_cases hqp : q = path
      · simp [hqp]
      · simp [hqp]
  | delete path =>
      rw [Tree.remove_content (apply_delete h), leaves, List.mem_filter, ← hq]
      by_cases hqp : q = path
      · simp [hqp]
      · simp [hqp]
  | move source target =>
      obtain ⟨data, t₁, hne, h₁, h⟩ := apply_move h
      rw [Tree.remove_content h, writeWhole_content h₁, leaves, List.mem_cons, List.mem_filter,
        ← hq]
      by_cases hqs : q = source
      · subst hqs
        simp [hne]
      · by_cases hqt : q = target
        · simp [hqt, Ne.symm hne]
        · simp [hqs, hqt]

end Effect

end Openlia.Policy

import Mathlib.Data.List.Dedup
import Mathlib.Data.List.Sort
import Openlia.Lib.FileTree
import Openlia.Operator.Migration.Types

/-! # The proposal repository and the workspace boundary

`propgit/repo.go` over immutable commits: a commit is a set of files, and the
changed files between two commits are computed from the two sets. Then
`security/paths.go`. A path is the list of its components; Git stores no empty
component and none that is `.` or `..`, so cleaning a path changes nothing.
-/

namespace Openlia.Operator

open Lib

/-- The slash-separated text of a path. -/
def pathText (p : Path) : String := "/".intercalate p

structure GitFile where
  mode : String
  blob : Bytes
  deriving DecidableEq, Repr

/-- The files of a commit's tree: no file lies below another. -/
structure Snapshot where
  files : List (Path × GitFile)
  apart : files.Pairwise fun a b => Apart a.1 b.1
  named : ∀ f ∈ files, f.1 ≠ []

namespace Snapshot

def paths (s : Snapshot) : List Path := s.files.map Prod.fst

def lookup (s : Snapshot) (p : Path) : Option GitFile :=
  (s.files.find? fun f => decide (f.1 = p)).map Prod.snd

theorem mem_paths_of_lookup {s : Snapshot} {p : Path} (h : s.lookup p ≠ none) : p ∈ s.paths := by
  rw [lookup, ne_eq, Option.map_eq_none_iff, List.find?_eq_none] at h
  simpa [paths] using h

theorem apart_of_mem_paths {s : Snapshot} {p q : Path} (hp : p ∈ s.paths) (hq : q ∈ s.paths)
    (hne : p ≠ q) : Apart p q := by
  have hpw : s.paths.Pairwise Apart := List.pairwise_map.mpr s.apart
  exact hpw.forall hp hq hne

end Snapshot

structure Commit where
  tree : String
  snapshot : Snapshot

/-- An immutable object store and what its `git` prints. -/
structure ProposalRepo where
  commit : String → Option Commit
  diffText : String → String → Bytes
  gitError : String

inductive FileStatus where
  | added | modified | deleted
  deriving DecidableEq, Repr

structure ChangedFileEntry where
  path : Path
  status : FileStatus
  oldHash : String
  newHash : String
  deriving DecidableEq, Repr

namespace ProposalRepo

def getTreeHash (r : ProposalRepo) (commit : String) : Except String String :=
  match r.commit commit with
  | some c => .ok c.tree
  | none => .error ("git rev-parse tree: " ++ r.gitError)

def readFileAtCommit (r : ProposalRepo) (commit : String) (p : Path) : Except String Bytes :=
  match (r.commit commit).bind fun c => c.snapshot.lookup p with
  | some f => .ok f.blob
  | none => .error ("read blob " ++ commit ++ ":" ++ pathText p ++ ": " ++ r.gitError)

def diff (r : ProposalRepo) (fromCommit toCommit : String) : Except String Bytes :=
  match r.commit fromCommit, r.commit toCommit with
  | some _, some _ => .ok (r.diffText fromCommit toCommit)
  | _, _ => .error ("git diff " ++ fromCommit ++ " " ++ toCommit ++ ": " ++ r.gitError)

end ProposalRepo

/-- `ComputePatchHash`. -/
def computePatchHash (sha256 : Bytes → String) (diff : Bytes) : String := sha256 diff

/-- One record of `diff-tree --no-renames` with the hashes of both sides. -/
def changeBetween (sha256 : Bytes → String) (old new : Option GitFile) (p : Path) :
    Option ChangedFileEntry :=
  match old, new with
  | none, none => none
  | none, some n => some ⟨p, .added, "", sha256 n.blob⟩
  | some o, none => some ⟨p, .deleted, sha256 o.blob, ""⟩
  | some o, some n =>
      if o = n then none else some ⟨p, .modified, sha256 o.blob, sha256 n.blob⟩

/-- The records between two trees, in the order of their path texts. -/
def changesBetween (sha256 : Bytes → String) (a b : Snapshot) : List ChangedFileEntry :=
  ((a.paths ++ b.paths).dedup.insertionSort fun p q => pathText p ≤ pathText q).filterMap
    fun p => changeBetween sha256 (a.lookup p) (b.lookup p) p

/-- `GetChangedFiles`. -/
def ProposalRepo.getChangedFiles (r : ProposalRepo) (sha256 : Bytes → String)
    (fromCommit toCommit : String) : Except String (List ChangedFileEntry) :=
  match r.commit fromCommit, r.commit toCommit with
  | some a, some b => .ok (changesBetween sha256 a.snapshot b.snapshot)
  | _, _ => .error ("git diff-tree: " ++ r.gitError)

theorem changeBetween_path {sha256 : Bytes → String} {old new : Option GitFile} {p : Path}
    {f : ChangedFileEntry} (h : changeBetween sha256 old new p = some f) : f.path = p := by
  unfold changeBetween at h
  split at h <;> try split at h
  all_goals cases h
  all_goals rfl

theorem changesBetween_paths_nodup (sha256 : Bytes → String) (a b : Snapshot) :
    ((changesBetween sha256 a b).map ChangedFileEntry.path).Nodup := by
  have hsorted : ((a.paths ++ b.paths).dedup.insertionSort
      fun p q => pathText p ≤ pathText q).Nodup :=
    (List.perm_insertionSort _ _).nodup_iff.mpr (List.nodup_dedup _)
  rw [List.nodup_iff_pairwise_ne, List.pairwise_map, changesBetween, List.pairwise_filterMap]
  refine hsorted.imp fun hne f hf g hg => ?_
  rw [changeBetween_path hf, changeBetween_path hg]
  exact hne

/-- An added or modified file has its blob in the new tree. -/
theorem lookup_of_change {sha256 : Bytes → String} {a b : Snapshot} {f : ChangedFileEntry}
    (h : f ∈ changesBetween sha256 a b) (hs : f.status ≠ .deleted) :
    ∃ g, b.lookup f.path = some g ∧ f.newHash = sha256 g.blob := by
  obtain ⟨p, -, hp⟩ := List.mem_filterMap.mp h
  unfold changeBetween at hp
  split at hp
  · cases hp
  · rename_i n _ hn
    cases hp
    exact ⟨n, hn, rfl⟩
  · cases hp
    exact absurd rfl hs
  · rename_i o n _ hn
    split at hp
    · cases hp
    · cases hp
      exact ⟨n, hn, rfl⟩

/-- A deleted file is not in the new tree. -/
theorem lookup_of_deleted {sha256 : Bytes → String} {a b : Snapshot} {f : ChangedFileEntry}
    (h : f ∈ changesBetween sha256 a b) (hs : f.status = .deleted) :
    b.lookup f.path = none ∧ f.newHash = "" := by
  obtain ⟨p, -, hp⟩ := List.mem_filterMap.mp h
  unfold changeBetween at hp
  split at hp
  · cases hp
  · cases hp
    cases hs
  · rename_i o _ hn
    cases hp
    exact ⟨hn, rfl⟩
  · split at hp
    · cases hp
    · cases hp
      cases hs

/-! ## Paths a migration may touch -/

/-- `ProtectedPaths`, by components. -/
def protectedPaths : List Path :=
  [[".git"], [".openlia"], ["sources", "document-passwords.toml"], ["AGENTS.md"], ["SOUL.md"],
    ["workspace.yaml"], ["assistant-policy.yaml"], ["permissions.yaml"]]

/-- `IsProtectedWorkspacePath`: the root, a protected path, or a path below one. -/
def isProtectedWorkspacePath (p : Path) : Bool :=
  decide (p = []) || protectedPaths.any fun q => q.isPrefixOf p

/-- `CheckNoSymlinksInPath` from `pre` along `rest`: a missing component ends
the walk, any other error of `lstat` is returned. -/
def checkNoSymlinksFrom (t : Tree String Bytes) (full pre : Path) : Path → Except String Unit
  | [] => .ok ()
  | c :: rest =>
      match t.lstat (pre ++ [c]) with
      | .error .notExist => .ok ()
      | .error e => .error ("lstat " ++ pathText (pre ++ [c]) ++ ": " ++ e.text)
      | .ok .symlink =>
          .error ("symlink encountered in path " ++ pathText full ++ " at " ++
            pathText (pre ++ [c]))
      | .ok _ => checkNoSymlinksFrom t full (pre ++ [c]) rest

def checkNoSymlinksInPath (t : Tree String Bytes) (p : Path) : Except String Unit :=
  checkNoSymlinksFrom t p [] p

/-- `ValidateSafeWorkspacePath`. -/
def validateSafeWorkspacePath (t : Tree String Bytes) (p : Path) : Except String Unit :=
  if p = [] then .error "empty path"
  else if (p.head?.bind fun c => c.toList.head?) = some '\\' then
    .error ("absolute path is not allowed: " ++ pathText p)
  else if isProtectedWorkspacePath p then
    .error ("path is protected and cannot be modified by migrations: " ++ pathText p)
  else checkNoSymlinksInPath t p

/-- A walk that finds nothing wrong passes directories up to a missing
component, and no link. -/
theorem checkNoSymlinksFrom_ok {t : Tree String Bytes} {full pre rest : Path}
    (h : checkNoSymlinksFrom t full pre rest = .ok ()) (hpre : t.node pre = some .dir) :
    t.node (pre ++ rest) ≠ some .symlink ∧
      ∀ q, q <+: rest → q ≠ rest → t.node (pre ++ q) = some .dir ∨ t.node (pre ++ q) = none := by
  induction rest generalizing pre with
  | nil =>
      refine ⟨by simp [hpre], fun q hq hne => ?_⟩
      exact absurd (List.prefix_nil.mp hq) hne
  | cons c rest ih =>
      have happ : ∀ q, pre ++ c :: q = pre ++ [c] ++ q := by simp
      unfold checkNoSymlinksFrom at h
      cases hn : t.node (pre ++ [c]) with
      | none =>
          have hbelow : ∀ q, t.node (pre ++ c :: q) = none := by
            intro q
            rw [happ]
            by_cases hq : q = []
            · simpa [hq] using hn
            · exact Tree.node_below_eq_none (by rw [hn]; simp) (List.prefix_append _ _)
                (by simpa using hq)
          refine ⟨by simp [hbelow], fun q hq _ => ?_⟩
          cases q with
          | nil => left; simpa using hpre
          | cons x q =>
              obtain ⟨rfl, -⟩ := List.cons_prefix_cons.mp hq
              exact Or.inr (hbelow q)
      | some n =>
          rw [Tree.lstat_eq_ok.mpr hn] at h
          cases n with
          | symlink => cases h
          | dir =>
              obtain ⟨hend, hdirs⟩ := ih h hn
              refine ⟨by rw [happ]; exact hend, fun q hq hne => ?_⟩
              cases q with
              | nil => left; simpa using hpre
              | cons x q =>
                  obtain ⟨rfl, hq'⟩ := List.cons_prefix_cons.mp hq
                  rw [happ]
                  exact hdirs q hq' (by simpa using hne)
          | file d =>
              cases rest with
              | nil =>
                  refine ⟨by simp [hn], fun q hq hne => ?_⟩
                  cases q with
                  | nil => left; simpa using hpre
                  | cons x q =>
                      obtain ⟨rfl, hq'⟩ := List.cons_prefix_cons.mp hq
                      exact absurd (List.prefix_nil.mp hq') (by simpa using hne)
              | cons c' rest =>
                  simp only [checkNoSymlinksFrom] at h
                  rw [Tree.lstat_below_file hn (by simp)] at h
                  cases h

/-- What holds of a path that passed every check. -/
theorem validateSafeWorkspacePath_ok {t : Tree String Bytes} {p : Path}
    (h : validateSafeWorkspacePath t p = .ok ()) :
    p ≠ [] ∧ isProtectedWorkspacePath p = false ∧ t.node p ≠ some .symlink ∧
      ∀ q, q <+: p → q ≠ p → t.node q = some .dir ∨ t.node q = none := by
  unfold validateSafeWorkspacePath at h
  split at h
  · cases h
  · rename_i hp
    split at h
    · cases h
    · split at h
      · cases h
      · rename_i hprot
        have hwalk := checkNoSymlinksFrom_ok h (Tree.node_nil t)
        simp only [List.nil_append] at hwalk
        exact ⟨hp, by simpa using hprot, hwalk.1, hwalk.2⟩

end Openlia.Operator

import Mathlib.Data.List.Dedup
import Openlia.Lib.LastWrite
import Openlia.Operator.WorkspaceMigrate.Plan

/-! # When no file takes the content of another

Staging writes the files of a chunk by the base names of their targets, applying writes them to
their targets. Both keep every content exactly when no two files with different contents meet.
-/

namespace Openlia.WorkspaceMigrate

open Lib Crash
open Skills (FileName Path Bytes relPath fileName filepathBase)

/-! ## The run of staging -/

section Staging

variable {s : Files}

theorem change_ok {call : Files → Except Errno Files} {context : String}
    (h : ((change call context).run s).result = .ok ()) :
    call s = .ok ((change call context).run s).final := by
  unfold change at h ⊢
  rw [Prog.run_get_bind] at h ⊢
  cases hcall : call s with
  | error e =>
      rw [hcall] at h
      cases h
  | ok s' => rfl

/-- A file with the id of its chunk. -/
abbrev Entry := String × WorkspaceMigrationFile

/-- The files of a chunk that are no secrets. -/
def chunkEntries (chunkID : String) (files : List WorkspaceMigrationFile) : List Entry :=
  (files.filter (·.Status ≠ .blocked_secret)).map (chunkID, ·)

def planEntries (chunks : List WorkspaceMigrationChunk) : List Entry :=
  chunks.flatMap fun chunk => chunkEntries chunk.ID chunk.Files

def entryStaged (e : Entry) : Option Path := stagedPath e.1 e.2.TargetPath

abbrev Staged := Tree.Stored entryStaged fun e : Entry => e.2.content

theorem stageFile_ok {chunkID : String} {file : WorkspaceMigrationFile}
    (h : ((stageFile chunkID file).run s).result = .ok ()) :
    Staged [(chunkID, file)] s ((stageFile chunkID file).run s).final := by
  unfold stageFile at h ⊢
  cases hp : stagedPath chunkID file.TargetPath with
  | none =>
      rw [hp] at h
      cases h
  | some p =>
      rw [hp] at h
      exact Tree.Stored.one hp (change_ok h)

theorem stageFiles_ok {chunkID : String} {files : List WorkspaceMigrationFile}
    (h : ((stageFiles chunkID files).run s).result = .ok ()) :
    Staged (chunkEntries chunkID files) s ((stageFiles chunkID files).run s).final := by
  induction files generalizing s with
  | nil => exact Tree.Stored.none fun _ => rfl
  | cons file files ih =>
      rw [stageFiles] at h ⊢
      by_cases hsecret : file.Status = .blocked_secret
      · rw [if_pos hsecret] at h ⊢
        rw [chunkEntries, List.filter_cons_of_neg (by simp [hsecret])]
        exact ih h
      · rw [if_neg hsecret] at h ⊢
        obtain ⟨_, hfile, hfiles, hfinal, -⟩ := Prog.run_bind_eq_ok h
        rw [hfinal, chunkEntries, List.filter_cons_of_pos (by simp [hsecret])]
        exact (stageFile_ok hfile).append (ih hfiles)

theorem makeChunkDir_ok {chunkID : String} (h : ((makeChunkDir chunkID).run s).result = .ok ()) :
    Staged [] s ((makeChunkDir chunkID).run s).final := by
  unfold makeChunkDir at h ⊢
  cases hdir : fileName chunkID.toList with
  | none =>
      rw [hdir] at h
      cases h
  | some dir =>
      rw [hdir] at h
      exact Tree.Stored.none (Tree.mkdirAll_content (change_ok h))

theorem stageChunks_ok {chunks : List WorkspaceMigrationChunk}
    (h : ((stageChunks chunks).run s).result = .ok ()) :
    Staged (planEntries chunks) s ((stageChunks chunks).run s).final := by
  induction chunks generalizing s with
  | nil => exact Tree.Stored.none fun _ => rfl
  | cons chunk chunks ih =>
      rw [stageChunks] at h ⊢
      obtain ⟨_, hdir, hrest, hfinal, -⟩ := Prog.run_bind_eq_ok h
      obtain ⟨_, hfiles, hchunks, hfinal', -⟩ := Prog.run_bind_eq_ok hrest
      rw [hfinal, hfinal', planEntries, List.flatMap_cons]
      exact (makeChunkDir_ok hdir).append ((stageFiles_ok hfiles).append (ih hchunks))

end Staging

/-! ## The run of applying -/

section Applying

variable {rt : Runtime} {workspaceRoot : Path} {s : MigrationState}

/-- The targets of a chunk, with its id. -/
abbrev Target := String × String

def chunkTargets (chunkID : String) (files : List WorkspaceMigrationFile) : List Target :=
  (chunkEntries chunkID files).map fun e => (e.1, e.2.TargetPath)

/-- What applying reads of the chunks of a plan. -/
def planTargets (chunks : List WorkspaceMigrationChunk) : List (String × List Target) :=
  chunks.map fun chunk => (chunk.ID, chunkTargets chunk.ID chunk.Files)

def targetPlace (workspaceRoot : Path) (t : Target) : Option Path :=
  (destination workspaceRoot t.2).toOption

def targetValue (chunks : Files) (t : Target) : Option Bytes :=
  (stagedPath t.1 t.2).bind chunks.content

abbrev Applied (workspaceRoot : Path) (chunks : Files) :=
  Tree.Stored (targetPlace workspaceRoot) fun t => (targetValue chunks t).getD []

theorem writeDestination_ok {p : Path} {content : Bytes} {files : Files}
    (h : ((writeDestination p content).run files).result = .ok ()) :
    ∃ files' : Files, (∀ q, files'.content q = files.content q) ∧
      files'.writeFile p content = .ok ((writeDestination p content).run files).final := by
  unfold writeDestination at h ⊢
  obtain ⟨_, hdir, hwrite, hfinal, -⟩ := Prog.run_bind_eq_ok h
  rw [hfinal]
  exact ⟨_, Tree.mkdirAll_content (change_ok hdir), change_ok hwrite⟩

theorem appliedContent_staged {chunks : Files} {chunkID : String} {file : WorkspaceMigrationFile}
    {data : Bytes} (h : targetValue chunks (chunkID, file.TargetPath) = some data) :
    appliedContent (fun _ => none) chunks chunkID file = data := by
  unfold targetValue at h
  rw [appliedContent]
  dsimp only at h ⊢
  rw [h]

/-- What applying some files leaves, when all of them are staged. -/
theorem applyFiles_ok {chunkID : String} {files : List WorkspaceMigrationFile}
    (hstaged : ∀ t ∈ chunkTargets chunkID files, ∃ data, targetValue s.chunks t = some data)
    (h : ((applyFiles workspaceRoot (fun _ => none) chunkID files).run s).result = .ok ()) :
    ((applyFiles workspaceRoot (fun _ => none) chunkID files).run s).final.chunks = s.chunks ∧
      ((applyFiles workspaceRoot (fun _ => none) chunkID files).run s).final.plan = s.plan ∧
      Applied workspaceRoot s.chunks (chunkTargets chunkID files) s.workspace
        ((applyFiles workspaceRoot (fun _ => none) chunkID files).run s).final.workspace := by
  induction files generalizing s with
  | nil => exact ⟨rfl, rfl, Tree.Stored.none fun _ => rfl⟩
  | cons file files ih =>
      rw [applyFiles] at h ⊢
      by_cases hsecret : file.Status = .blocked_secret
      · have hsame : chunkTargets chunkID (file :: files) = chunkTargets chunkID files := by
          rw [chunkTargets, chunkEntries, List.filter_cons_of_neg (by simp [hsecret])]
          rfl
        rw [if_pos hsecret] at h ⊢
        rw [hsame] at hstaged ⊢
        exact ih hstaged h
      · have hcons : chunkTargets chunkID (file :: files) =
            [(chunkID, file.TargetPath)] ++ chunkTargets chunkID files := by
          rw [chunkTargets, chunkEntries, List.filter_cons_of_pos (by simp [hsecret])]
          rfl
        rw [hcons] at hstaged ⊢
        rw [if_neg hsecret] at h ⊢
        cases hp : destination workspaceRoot file.TargetPath with
        | error e =>
            rw [hp] at h
            cases h
        | ok p =>
            rw [hp, Prog.lift_ok, Prog.pure_bind', Prog.run_get_bind] at h
            rw [Prog.lift_ok, Prog.pure_bind', Prog.run_get_bind]
            obtain ⟨data, hdata⟩ := hstaged _ (List.mem_append_left _ (List.mem_singleton_self _))
            obtain ⟨_, hone, hrest, hfinal, -⟩ := Prog.run_bind_eq_ok h
            obtain ⟨files', hkeep, hwrite⟩ := writeDestination_ok hone
            obtain ⟨hchunks, hplan, happlied⟩ := ih (s := ((onWorkspace (writeDestination p
              (appliedContent (fun _ => none) s.chunks chunkID file))).run s).final)
              (fun t ht => hstaged t (List.mem_append_right _ ht)) hrest
            rw [hfinal]
            refine ⟨hchunks, hplan, Tree.Stored.append ?_ happlied⟩
            rw [appliedContent_staged hdata] at hwrite
            have hplace : targetPlace workspaceRoot (chunkID, file.TargetPath) = some p := by
              rw [targetPlace, hp]
              rfl
            refine (Tree.Stored.none hkeep).append (Tree.Stored.one hplace ?_)
            rw [hdata, appliedContent_staged hdata]
            exact hwrite

theorem planTargets_saved (plan : WorkspaceMigrationPlan) :
    planTargets (savedPlan rt plan).Chunks = planTargets plan.Chunks := by
  unfold planTargets savedPlan
  rw [List.map_map]
  refine List.map_congr_left fun chunk _ => ?_
  refine congrArg (chunk.ID, ·) ?_
  dsimp only [Function.comp_apply]
  rw [chunkTargets, chunkTargets, chunkEntries, chunkEntries, List.filter_map, List.map_map,
    List.map_map, List.map_map]
  rfl

theorem planTargets_markApplied (id : String) (chunks : List WorkspaceMigrationChunk) :
    planTargets (markApplied id chunks) = planTargets chunks := by
  induction chunks with
  | nil => rfl
  | cons chunk chunks ih =>
      rw [markApplied]
      split
      · rfl
      · exact congrArg (List.cons (chunk.ID, chunkTargets chunk.ID chunk.Files)) ih

/-- The targets of the chunk that is found by an id. -/
def foundTargets (targets : List (String × List Target)) (id : String) : List Target :=
  ((targets.find? (·.1 = id)).map (·.2)).getD []

/-- Every target of a plan is staged. -/
def AllStaged (chunks : Files) (targets : List (String × List Target)) : Prop :=
  ∀ c ∈ targets, ∀ t ∈ c.2, ∃ data, targetValue chunks t = some data

theorem ApplyMigrationChunk_ok {id : String} {targets : List (String × List Target)}
    (htargets : planTargets s.plan.Chunks = targets) (hstaged : AllStaged s.chunks targets)
    (h : ((ApplyMigrationChunk rt workspaceRoot id fun _ => none).run s).result = .ok ()) :
    ((ApplyMigrationChunk rt workspaceRoot id fun _ => none).run s).final.chunks = s.chunks ∧
      planTargets ((ApplyMigrationChunk rt workspaceRoot id fun _ => none).run
        s).final.plan.Chunks = targets ∧
      Applied workspaceRoot s.chunks (foundTargets targets id) s.workspace
        ((ApplyMigrationChunk rt workspaceRoot id fun _ => none).run s).final.workspace := by
  unfold ApplyMigrationChunk at h ⊢
  rw [Prog.run_get_bind] at h ⊢
  cases hfind : s.plan.Chunks.find? (·.ID = id) with
  | none =>
      rw [hfind] at h
      cases h
  | some chunk =>
      rw [hfind] at h
      obtain ⟨_, hfiles, -, hfinal, -⟩ := Prog.run_bind_eq_ok h
      have hid : chunk.ID = id := by
        have hchunk := List.find?_some hfind
        exact of_decide_eq_true hchunk
      have hfound : foundTargets targets id = chunkTargets id chunk.Files := by
        rw [foundTargets, ← htargets, planTargets, List.find?_map]
        change (((s.plan.Chunks.find? (·.ID = id)).map _).map _).getD [] = _
        rw [hfind, ← hid]
        rfl
      obtain ⟨hchunks, -, happlied⟩ := @applyFiles_ok workspaceRoot s id chunk.Files
        (fun t ht => by
          refine hstaged (chunk.ID, chunkTargets chunk.ID chunk.Files) ?_ t (hid.symm ▸ ht)
          rw [← htargets]
          exact List.mem_map_of_mem (List.mem_of_find?_eq_some hfind)) hfiles
      dsimp only
      rw [hfinal, hfound]
      refine ⟨hchunks, ?_, happlied⟩
      rw [Prog.run_write, planTargets_saved, planTargets_markApplied, htargets]

theorem applyAll_ok {ids : List String} {targets : List (String × List Target)}
    (htargets : planTargets s.plan.Chunks = targets) (hstaged : AllStaged s.chunks targets)
    (h : ((applyAll rt workspaceRoot ids).run s).result = .ok ()) :
    Applied workspaceRoot s.chunks (ids.flatMap (foundTargets targets)) s.workspace
      ((applyAll rt workspaceRoot ids).run s).final.workspace := by
  induction ids generalizing s with
  | nil => exact Tree.Stored.none fun _ => rfl
  | cons id ids ih =>
      rw [applyAll] at h ⊢
      obtain ⟨_, hone, hrest, hfinal, -⟩ := Prog.run_bind_eq_ok h
      obtain ⟨hchunks, hplan, happlied⟩ := ApplyMigrationChunk_ok htargets hstaged hone
      rw [hfinal, List.flatMap_cons]
      refine happlied.append ?_
      rw [← hchunks] at hstaged ⊢
      exact ih hplan hstaged hrest

end Applying

/-! ## The chunks of a plan -/

section Slices

variable {α : Type} {l : List α} {x y : α} {size : Nat}

theorem mem_slice (hsize : 0 < size) {k : Nat} :
    x ∈ (l.drop (k * size)).take size ↔ ∃ i, l[i]? = some x ∧ i / size = k := by
  rw [List.mem_iff_getElem?]
  constructor
  · rintro ⟨n, hn⟩
    rw [List.getElem?_take] at hn
    split at hn
    · rename_i hlt
      rw [List.getElem?_drop] at hn
      refine ⟨_, hn, ?_⟩
      rw [Nat.mul_comm, Nat.mul_add_div hsize, Nat.div_eq_of_lt hlt, Nat.add_zero]
    · cases hn
  · rintro ⟨i, hi, rfl⟩
    refine ⟨i % size, ?_⟩
    rw [List.getElem?_take, if_pos (Nat.mod_lt i hsize), List.getElem?_drop, Nat.div_add_mod']
    exact hi

theorem mem_slices (hsize : 0 < size) {slice : List α} :
    slice ∈ slices size l ↔
      ∃ k, k * size < l.length ∧ (l.drop (k * size)).take size = slice := by
  rw [slices, List.mem_map]
  refine exists_congr fun k => and_congr_left fun _ => ?_
  rw [List.mem_range, Nat.lt_iff_add_one_le, Nat.le_div_iff_mul_le hsize, Nat.add_mul]
  omega

/-- Two elements are in one slice exactly when their places have one quotient. -/
theorem same_slice_iff (hsize : 0 < size) :
    (∃ slice ∈ slices size l, x ∈ slice ∧ y ∈ slice) ↔
      ∃ i j, l[i]? = some x ∧ l[j]? = some y ∧ i / size = j / size := by
  constructor
  · rintro ⟨slice, hslice, hx, hy⟩
    obtain ⟨k, -, rfl⟩ := (mem_slices hsize).mp hslice
    obtain ⟨i, hi, hik⟩ := (mem_slice hsize).mp hx
    obtain ⟨j, hj, hjk⟩ := (mem_slice hsize).mp hy
    exact ⟨i, j, hi, hj, hik.trans hjk.symm⟩
  · rintro ⟨i, j, hi, hj, hsame⟩
    obtain ⟨hlt, -⟩ := List.getElem?_eq_some_iff.mp hi
    refine ⟨_, (mem_slices hsize).mpr ⟨i / size, ?_, rfl⟩, (mem_slice hsize).mpr ⟨i, hi, rfl⟩,
      (mem_slice hsize).mpr ⟨j, hj, hsame.symm⟩⟩
    exact Nat.lt_of_le_of_lt (Nat.div_mul_le_self i size) hlt

end Slices

theorem effectiveSize_pos (chunkSize : Int) : 0 < effectiveSize chunkSize := by
  unfold effectiveSize
  split <;> omega

/-- The number of a chunk can be read from its id. -/
theorem chunkID_number {n m : Nat} {d d' : String} (h : chunkID n d = chunkID m d') : n = m := by
  have hlist : ∀ (n : Nat) (d : String), ∃ rest, (chunkID n d).toList =
      "chunk-".toList ++ (Nat.toDigits 10 n ++ '-' :: rest) := by
    intro n d
    refine ⟨d.toList.map fun c => if c = '/' then '-' else c, ?_⟩
    have hrepr : (toString n).toList = Nat.toDigits 10 n := String.toList_ofList
    rw [chunkID, String.toList_append, String.toList_append, String.toList_append, hrepr,
      List.append_assoc, List.append_assoc]
    simp only [String.toList_ofList]
    rfl
  have hdigits : ∀ (n : Nat) (rest : List Char),
      (Nat.toDigits 10 n ++ '-' :: rest).takeWhile Char.isDigit = Nat.toDigits 10 n := by
    intro n rest
    rw [List.takeWhile_append_of_pos fun c hc =>
      Nat.isDigit_of_mem_toDigits (by decide) (by decide) hc, List.takeWhile_cons_of_neg (by decide),
      List.append_nil]
  obtain ⟨rest, hrest⟩ := hlist n d
  obtain ⟨rest', hrest'⟩ := hlist m d'
  rw [h, hrest'] at hrest
  have hsame := congrArg (List.takeWhile Char.isDigit) (List.append_cancel_left hrest)
  rw [hdigits, hdigits] at hsame
  rw [← Nat.ofDigitChars_ten_toDigits (n := n), ← hsame, Nat.ofDigitChars_ten_toDigits]

section Plans

variable {rt : Runtime} {mapOrder : MapOrder} {chunkSize : Int} {size : Nat}
  {batches : List Batch} {scannedFiles files : List WorkspaceMigrationFile}

/-- The files of a domain. -/
def domainFiles (scannedFiles : List WorkspaceMigrationFile) (domain : String) :
    List WorkspaceMigrationFile :=
  scannedFiles.filter (·.Domain = domain)

theorem mem_domainBatches {canonical : Bool} {domain : String} :
    (∃ batch ∈ domainBatches size scannedFiles canonical domain, batch.files = files) ↔
      files ∈ slices size (domainFiles scannedFiles domain) := by
  unfold domainBatches
  constructor
  · rintro ⟨batch, hbatch, rfl⟩
    obtain ⟨i, hi, rfl⟩ := List.mem_mapIdx.mp hbatch
    exact List.getElem_mem hi
  · intro h
    obtain ⟨i, hi, rfl⟩ := List.mem_iff_getElem.mp h
    exact ⟨_, List.mem_mapIdx.mpr ⟨i, hi, rfl⟩, rfl⟩

theorem mem_planBatches :
    (∃ batch ∈ planBatches mapOrder size scannedFiles, batch.files = files) ↔
      ∃ domain, files ∈ slices size (domainFiles scannedFiles domain) := by
  unfold planBatches
  constructor
  · rintro ⟨batch, hbatch, hfiles⟩
    rcases List.mem_append.mp hbatch with hbatch | hbatch
    · obtain ⟨domain, -, hdomain⟩ := List.mem_flatMap.mp hbatch
      exact ⟨domain, mem_domainBatches.mp ⟨batch, hdomain, hfiles⟩⟩
    · obtain ⟨domain, -, hdomain⟩ := List.mem_flatMap.mp hbatch
      exact ⟨domain, mem_domainBatches.mp ⟨batch, hdomain, hfiles⟩⟩
  · rintro ⟨domain, hfiles⟩
    by_cases hcanonical : domain ∈ CanonicalDomains
    · obtain ⟨batch, hbatch, hsame⟩ := (@mem_domainBatches size _ _ true domain).mpr hfiles
      exact ⟨batch, List.mem_append_left _ (List.mem_flatMap.mpr ⟨domain, hcanonical, hbatch⟩),
        hsame⟩
    · obtain ⟨batch, hbatch, hsame⟩ := (@mem_domainBatches size _ _ false domain).mpr hfiles
      refine ⟨batch, List.mem_append_right _ (List.mem_flatMap.mpr ⟨domain, ?_, hbatch⟩), hsame⟩
      rw [(mapOrder.2 _).mem_iff, List.mem_filter, List.mem_dedup, List.mem_map]
      refine ⟨?_, decide_eq_true hcanonical⟩
      -- a domain without files has no slices
      obtain ⟨file, hfile⟩ : ∃ file, file ∈ domainFiles scannedFiles domain := by
        by_contra hnone
        rw [List.eq_nil_iff_forall_not_mem.mpr fun f hf => hnone ⟨f, hf⟩] at hfiles
        rw [slices, List.length_nil, Nat.zero_add] at hfiles
        obtain ⟨k, hk, -⟩ := List.mem_map.mp hfiles
        rw [List.mem_range] at hk
        have hdiv : (size - 1) / size ≤ 0 := by
          rcases Nat.eq_zero_or_pos size with rfl | hpos
          · rw [Nat.div_zero]
          · rw [Nat.div_eq_of_lt (Nat.sub_lt hpos Nat.one_pos)]
        omega
      obtain ⟨hmem, hdomain⟩ := List.mem_filter.mp hfile
      exact ⟨file, hmem, of_decide_eq_true hdomain⟩

theorem mem_chunks :
    (∃ chunk ∈ batches.mapIdx batchChunk, chunk.Files = files) ↔
      ∃ batch ∈ batches, batch.files = files := by
  constructor
  · rintro ⟨chunk, hchunk, rfl⟩
    obtain ⟨i, hi, rfl⟩ := List.mem_mapIdx.mp hchunk
    exact ⟨_, List.getElem_mem hi, rfl⟩
  · rintro ⟨batch, hbatch, rfl⟩
    obtain ⟨i, hi, rfl⟩ := List.mem_iff_getElem.mp hbatch
    exact ⟨_, List.mem_mapIdx.mpr ⟨i, hi, rfl⟩, rfl⟩

/-- A chunk is known by its id. -/
theorem chunk_unique {c c' : WorkspaceMigrationChunk} (hc : c ∈ batches.mapIdx batchChunk)
    (hc' : c' ∈ batches.mapIdx batchChunk) (hid : c.ID = c'.ID) : c = c' := by
  obtain ⟨i, hi, rfl⟩ := List.mem_mapIdx.mp hc
  obtain ⟨j, hj, rfl⟩ := List.mem_mapIdx.mp hc'
  obtain rfl : i = j := Nat.succ.inj (chunkID_number hid)
  rfl

theorem mem_planEntries {chunks : List WorkspaceMigrationChunk} {e : Entry} :
    e ∈ planEntries chunks ↔
      ∃ c ∈ chunks, e.1 = c.ID ∧ e.2 ∈ c.Files ∧ e.2.Status ≠ .blocked_secret := by
  unfold planEntries chunkEntries
  rw [List.mem_flatMap]
  refine exists_congr fun c => and_congr_right fun _ => ?_
  rw [List.mem_map]
  constructor
  · rintro ⟨f, hf, rfl⟩
    obtain ⟨hmem, hstatus⟩ := List.mem_filter.mp hf
    exact ⟨rfl, hmem, of_decide_eq_true hstatus⟩
  · rintro ⟨hid, hmem, hstatus⟩
    exact ⟨e.2, List.mem_filter.mpr ⟨hmem, decide_eq_true hstatus⟩, Prod.ext hid.symm rfl⟩

theorem mem_foundTargets {chunks : List WorkspaceMigrationChunk}
    (hunique : ∀ c ∈ chunks, ∀ c' ∈ chunks, c.ID = c'.ID → c = c') {id : String} {t : Target} :
    t ∈ foundTargets (planTargets chunks) id ↔
      ∃ e ∈ planEntries chunks, e.1 = id ∧ t = (e.1, e.2.TargetPath) := by
  unfold foundTargets planTargets
  rw [List.find?_map, Option.map_map]
  constructor
  · intro ht
    cases hfind : chunks.find? ((fun c : String × List Target => decide (c.1 = id)) ∘
        fun chunk => (chunk.ID, chunkTargets chunk.ID chunk.Files)) with
    | none =>
        rw [hfind] at ht
        cases ht
    | some chunk =>
        rw [hfind] at ht
        have hid := List.find?_some hfind
        obtain ⟨e, he, rfl⟩ := List.mem_map.mp
          (show t ∈ (chunkEntries chunk.ID chunk.Files).map _ from ht)
        refine ⟨e, List.mem_flatMap.mpr ⟨chunk, List.mem_of_find?_eq_some hfind, he⟩, ?_, rfl⟩
        obtain ⟨f, -, rfl⟩ := List.mem_map.mp he
        exact of_decide_eq_true hid
  · rintro ⟨e, he, rfl, rfl⟩
    obtain ⟨c, hc, hid, hmem, hstatus⟩ := mem_planEntries.mp he
    obtain ⟨found, hfind⟩ : ∃ found, chunks.find?
        ((fun c : String × List Target => decide (c.1 = e.1)) ∘
          fun chunk => (chunk.ID, chunkTargets chunk.ID chunk.Files)) = some found := by
      apply Option.isSome_iff_exists.mp
      rw [List.find?_isSome]
      exact ⟨c, hc, decide_eq_true hid.symm⟩
    have hfound := List.find?_some hfind
    obtain rfl := hunique found (List.mem_of_find?_eq_some hfind) c hc
      ((of_decide_eq_true hfound).trans hid)
    rw [hfind]
    refine List.mem_map.mpr ⟨e, List.mem_map.mpr ⟨e.2, ?_, Prod.ext hid.symm rfl⟩, rfl⟩
    exact List.mem_filter.mpr ⟨hmem, decide_eq_true hstatus⟩

end Plans

/-! ## What must not happen -/

/-- Every planned file is applied with its own content, and its target holds it at the end. -/
structure Unmixed (workspaceRoot : Path) (plan : WorkspaceMigrationPlan)
    (chunks workspace : Files) : Prop where
  placed : ∀ c ∈ plan.Chunks, ∀ f ∈ c.Files, f.Status ≠ .blocked_secret →
    ∃ p, destination workspaceRoot f.TargetPath = .ok p ∧ workspace.content p = some f.content
  own : ∀ c ∈ plan.Chunks, ∀ f ∈ c.Files, f.Status ≠ .blocked_secret →
    appliedContent (fun _ => none) chunks c.ID f = f.content
  apart : ∀ c ∈ plan.Chunks, ∀ f ∈ c.Files, f.Status ≠ .blocked_secret →
    ∀ c' ∈ plan.Chunks, ∀ f' ∈ c'.Files, f'.Status ≠ .blocked_secret →
      f.TargetPath = f'.TargetPath → f.content = f'.content

section Run

variable {rt : Runtime} {workspaceRoot : Path} {plan : WorkspaceMigrationPlan}
  {staged : Files} {s : MigrationState} {ids : List String}

theorem fileName_ofList {l : List Char} {c : FileName} (h : fileName l = some c) :
    c.1 = String.ofList l := by
  unfold fileName at h
  split at h
  · cases h
    rfl
  · cases h

theorem stagedPath_inj {id id' target target' : String} {p : Path}
    (h : stagedPath id target = some p) (h' : stagedPath id' target' = some p) :
    id = id' ∧ filepathBase target = filepathBase target' := by
  have hread : ∀ {id target : String}, stagedPath id target = some p →
      ∃ c d : FileName, p = [c, d] ∧ c.1 = id ∧ d.1 = filepathBase target := by
    intro id target h
    obtain ⟨c, hc, h⟩ := Option.bind_eq_some_iff.mp h
    obtain ⟨d, hd, h⟩ := Option.bind_eq_some_iff.mp h
    refine ⟨c, d, (Option.some.inj h).symm, ?_, ?_⟩
    · rw [fileName_ofList hc, String.ofList_toList]
    · rw [fileName_ofList hd, String.ofList_toList]
  obtain ⟨c, d, rfl, rfl, hbase⟩ := hread h
  obtain ⟨c', d', heq, rfl, hbase'⟩ := hread h'
  obtain ⟨rfl, htail⟩ := List.cons.inj heq
  obtain ⟨rfl, -⟩ := List.cons.inj htail
  exact ⟨rfl, hbase.symm.trans hbase'⟩

/-- On the chunks of a plan: files of one chunk with one base name agree, and files that go to one
path of the workspace. -/
structure ChunksAgree (workspaceRoot : Path) (plan : WorkspaceMigrationPlan) : Prop where
  names : ∀ c ∈ plan.Chunks, ∀ f ∈ c.Files, f.Status ≠ .blocked_secret →
    ∀ f' ∈ c.Files, f'.Status ≠ .blocked_secret →
      filepathBase f.TargetPath = filepathBase f'.TargetPath → f.content = f'.content
  targets : ∀ c ∈ plan.Chunks, ∀ f ∈ c.Files, f.Status ≠ .blocked_secret →
    ∀ c' ∈ plan.Chunks, ∀ f' ∈ c'.Files, f'.Status ≠ .blocked_secret →
      destination workspaceRoot f.TargetPath = destination workspaceRoot f'.TargetPath →
        f.content = f'.content

theorem unmixed_iff (hunique : ∀ c ∈ plan.Chunks, ∀ c' ∈ plan.Chunks, c.ID = c'.ID → c = c')
    (hplan : planTargets s.plan.Chunks = planTargets plan.Chunks)
    (hstage : ((StageMigrationChunks plan).run staged).result = .ok ())
    (hchunks : s.chunks = ((StageMigrationChunks plan).run staged).final)
    (happly : ((applyAll rt workspaceRoot ids).run s).result = .ok ())
    (hids : ∀ c ∈ plan.Chunks, c.ID ∈ ids) :
    Unmixed workspaceRoot plan s.chunks ((applyAll rt workspaceRoot ids).run s).final.workspace ↔
      ChunksAgree workspaceRoot plan := by
  have hstored := stageChunks_ok hstage
  change Staged _ _ ((StageMigrationChunks plan).run staged).final at hstored
  rw [← hchunks] at hstored
  have hmem : ∀ c ∈ plan.Chunks, ∀ f ∈ c.Files, f.Status ≠ .blocked_secret →
      (c.ID, f) ∈ planEntries plan.Chunks := fun c hc f hf hstatus =>
    mem_planEntries.mpr ⟨c, hc, rfl, hf, hstatus⟩
  -- what is staged for an entry
  have hpath : ∀ e ∈ planEntries plan.Chunks, ∃ p data, stagedPath e.1 e.2.TargetPath = some p ∧
      s.chunks.content p = some data ∧ targetValue s.chunks (e.1, e.2.TargetPath) = some data := by
    intro e he
    obtain ⟨p, hp⟩ := hstored.placed e he
    obtain ⟨e', -, -, hlast⟩ := @lastAt_of_mem _ _ _ _ entryStaged (fun e : Entry => e.2.content)
      _ _ _ he hp
    have hdata : s.chunks.content p = some e'.2.content := by
      rw [hstored.content p, hlast, Option.some_or]
    refine ⟨p, e'.2.content, hp, hdata, ?_⟩
    rw [targetValue, show stagedPath e.1 e.2.TargetPath = some p from hp]
    exact hdata
  have hallStaged : AllStaged s.chunks (planTargets plan.Chunks) := by
    intro c hc t ht
    obtain ⟨chunk, hchunk, rfl⟩ := List.mem_map.mp hc
    obtain ⟨e, he, rfl⟩ := List.mem_map.mp ht
    obtain ⟨_, data, -, -, hdata⟩ := hpath e (List.mem_flatMap.mpr ⟨chunk, hchunk, he⟩)
    exact ⟨data, hdata⟩
  have happlied := applyAll_ok hplan hallStaged happly
  -- every entry is applied
  have hitem : ∀ t, t ∈ ids.flatMap (foundTargets (planTargets plan.Chunks)) ↔
      ∃ e ∈ planEntries plan.Chunks, t = (e.1, e.2.TargetPath) := by
    intro t
    rw [List.mem_flatMap]
    constructor
    · rintro ⟨id, -, ht⟩
      obtain ⟨e, he, -, rfl⟩ := (mem_foundTargets hunique).mp ht
      exact ⟨e, he, rfl⟩
    · rintro ⟨e, he, rfl⟩
      obtain ⟨c, hc, hid, -⟩ := mem_planEntries.mp he
      exact ⟨e.1, hid.symm ▸ hids c hc, (mem_foundTargets hunique).mpr ⟨e, he, rfl, rfl⟩⟩
  have hdest : ∀ e ∈ planEntries plan.Chunks, ∃ p, destination workspaceRoot e.2.TargetPath =
      .ok p := by
    intro e he
    obtain ⟨p, hp⟩ := happlied.placed _ ((hitem _).mpr ⟨e, he, rfl⟩)
    unfold targetPlace at hp
    cases hd : destination workspaceRoot e.2.TargetPath with
    | error err =>
        rw [hd] at hp
        cases hp
    | ok q => exact ⟨q, rfl⟩
  have hplace : ∀ (id target : String) (p : Path), destination workspaceRoot target = .ok p →
      targetPlace workspaceRoot (id, target) = some p := by
    intro id target p hp
    rw [targetPlace, hp]
    rfl
  -- staging keeps its contents when the names of a chunk agree
  have hown : (∀ c ∈ plan.Chunks, ∀ f ∈ c.Files, f.Status ≠ .blocked_secret →
        appliedContent (fun _ => none) s.chunks c.ID f = f.content) ↔
      ∀ e ∈ planEntries plan.Chunks, ∀ p, entryStaged e = some p →
        s.chunks.content p = some e.2.content := by
    constructor
    · intro h e he p hp
      obtain ⟨q, data, hq, hcontent, hvalue⟩ := hpath e he
      obtain rfl := Option.some.inj (hp.symm.trans hq)
      obtain ⟨c, hc, hid, hf, hstatus⟩ := mem_planEntries.mp he
      have hsame := h c hc e.2 hf hstatus
      rw [← hid, appliedContent_staged hvalue] at hsame
      rw [hcontent, hsame]
    · intro h c hc f hf hstatus
      obtain ⟨q, data, hq, hcontent, hvalue⟩ := hpath _ (hmem c hc f hf hstatus)
      rw [appliedContent_staged hvalue]
      have hsame := h _ (hmem c hc f hf hstatus) q hq
      rw [hcontent] at hsame
      exact Option.some.inj hsame
  have hnames : (∀ e ∈ planEntries plan.Chunks, ∀ e' ∈ planEntries plan.Chunks,
        entryStaged e = entryStaged e' → e.2.content = e'.2.content) ↔
      ∀ c ∈ plan.Chunks, ∀ f ∈ c.Files, f.Status ≠ .blocked_secret →
        ∀ f' ∈ c.Files, f'.Status ≠ .blocked_secret →
          filepathBase f.TargetPath = filepathBase f'.TargetPath → f.content = f'.content := by
    constructor
    · intro h c hc f hf hstatus f' hf' hstatus' hbase
      refine h (c.ID, f) (hmem c hc f hf hstatus) (c.ID, f') (hmem c hc f' hf' hstatus') ?_
      rw [entryStaged, entryStaged, stagedPath, stagedPath, hbase]
    · intro h e he e' he' hsame
      obtain ⟨p, _, hp, -⟩ := hpath e he
      obtain ⟨hid, hbase⟩ := stagedPath_inj hp (hsame.symm.trans hp)
      obtain ⟨c, hc, hce, hf, hstatus⟩ := mem_planEntries.mp he
      obtain ⟨c', hc', hce', hf', hstatus'⟩ := mem_planEntries.mp he'
      obtain rfl := hunique c hc c' hc' (hce.symm.trans (hid.trans hce'))
      exact h c hc e.2 hf hstatus e'.2 hf' hstatus' hbase
  constructor
  · intro h
    refine ⟨hnames.mp (hstored.kept_iff.mp (hown.mp h.own)), ?_⟩
    intro c hc f hf hstatus c' hc' f' hf' hstatus' hsame
    obtain ⟨p, hp, hcontent⟩ := h.placed c hc f hf hstatus
    obtain ⟨p', hp', hcontent'⟩ := h.placed c' hc' f' hf' hstatus'
    obtain rfl : p = p' := Except.ok.inj (hp.symm.trans (hsame.trans hp'))
    exact Option.some.inj (hcontent.symm.trans hcontent')
  · intro h
    have howned := hstored.kept_iff.mpr (hnames.mpr h.names)
    have hvalue : ∀ e ∈ planEntries plan.Chunks,
        targetValue s.chunks (e.1, e.2.TargetPath) = some e.2.content := by
      intro e he
      obtain ⟨p, data, hp, hcontent, hvalue⟩ := hpath e he
      rw [hvalue, ← hcontent]
      exact howned e he p hp
    have hkept := happlied.kept_iff.mpr (by
      intro t ht t' ht' hsame
      obtain ⟨e, he, rfl⟩ := (hitem t).mp ht
      obtain ⟨e', he', rfl⟩ := (hitem t').mp ht'
      rw [hvalue e he, hvalue e' he']
      obtain ⟨c, hc, -, hf, hstatus⟩ := mem_planEntries.mp he
      obtain ⟨c', hc', -, hf', hstatus'⟩ := mem_planEntries.mp he'
      obtain ⟨p, hp⟩ := hdest e he
      obtain ⟨p', hp'⟩ := hdest e' he'
      rw [hplace _ _ p hp, hplace _ _ p' hp'] at hsame
      refine h.targets c hc e.2 hf hstatus c' hc' e'.2 hf' hstatus' ?_
      rw [hp, hp', Option.some.inj hsame])
    refine ⟨?_, hown.mpr howned, ?_⟩
    · intro c hc f hf hstatus
      have he := hmem c hc f hf hstatus
      obtain ⟨p, hp⟩ := hdest _ he
      refine ⟨p, hp, ?_⟩
      rw [hkept _ ((hitem _).mpr ⟨_, he, rfl⟩) p (hplace _ _ p hp), hvalue _ he]
      rfl
    · intro c hc f hf hstatus c' hc' f' hf' hstatus' hsame
      exact h.targets c hc f hf hstatus c' hc' f' hf' hstatus' (by rw [hsame])

end Run

/-! ## The condition on the legacy tree -/

section Sources

variable (rt : Runtime) (activeDirectories : List String)

/-- A file that is neither ignored nor an empty stub. -/
def Migrates (source : Path × Bytes) : Bool :=
  !IsIgnoredPath rt (relPath source.1) && !IsEmptyStub source.2

def IsSecret (source : Path × Bytes) : Bool := DetectSecretContent (relPath source.1) source.2

def targetOf (source : Path × Bytes) : String :=
  (ClassifyAndAdaptFileWithProfile rt (relPath source.1) source.2 activeDirectories).targetPath

def domainOf (source : Path × Bytes) : String :=
  if IsSecret source then "quarantine"
  else (ClassifyAndAdaptFileWithProfile rt (relPath source.1) source.2 activeDirectories).domain

/-- The files of a domain, in the order of the walk. -/
def domainSources (sources : List (Path × Bytes)) (domain : String) : List (Path × Bytes) :=
  (sources.filter (Migrates rt)).filter fun source => domainOf rt activeDirectories source = domain

/-- Files that go to one path agree, and so do files of one domain and one slice with one base
name. -/
structure Separated (workspaceRoot : Path) (size : Nat) (sources : List (Path × Bytes)) :
    Prop where
  targets : ∀ s ∈ sources, Migrates rt s → IsSecret s = false →
    ∀ s' ∈ sources, Migrates rt s' → IsSecret s' = false →
      destination workspaceRoot (targetOf rt activeDirectories s) =
          destination workspaceRoot (targetOf rt activeDirectories s') → s.2 = s'.2
  names : ∀ domain i j s s', (domainSources rt activeDirectories sources domain)[i]? = some s →
    (domainSources rt activeDirectories sources domain)[j]? = some s' → i / size = j / size →
      IsSecret s = false → IsSecret s' = false →
        filepathBase (targetOf rt activeDirectories s) =
          filepathBase (targetOf rt activeDirectories s') → s.2 = s'.2

end Sources

section Planned

variable {rt : Runtime} {index : String → Option String} {activeDirectories : List String}
  {source : Path × Bytes} {sources : List (Path × Bytes)}

theorem adaptedContent_eq (relPath : String) (data : Bytes) :
    (ClassifyAndAdaptFileWithProfile rt relPath data activeDirectories).adaptedContent = data := by
  have hplain : (ClassifyAndAdaptFile rt relPath data).adaptedContent = data := by
    unfold ClassifyAndAdaptFile
    simp only [apply_ite Adapted.adaptedContent, ite_self]
  unfold ClassifyAndAdaptFileWithProfile
  dsimp only
  split
  · split
    · rfl
    · exact hplain
  · exact hplain

theorem plannedFile_secret :
    (plannedFile rt index activeDirectories source).Status = .blocked_secret ↔
      IsSecret source = true := by
  unfold plannedFile IsSecret
  dsimp only
  split
  · rename_i h
    exact iff_of_true rfl h
  · rename_i h
    refine iff_of_false (fun hstatus => ?_) h
    dsimp only at hstatus
    split at hstatus
    · split at hstatus <;> cases hstatus
    · cases hstatus

theorem plannedFile_domain :
    (plannedFile rt index activeDirectories source).Domain =
      domainOf rt activeDirectories source := by
  unfold plannedFile domainOf IsSecret
  dsimp only
  split <;> rfl

theorem plannedFile_open (h : IsSecret source = false) :
    (plannedFile rt index activeDirectories source).TargetPath =
        targetOf rt activeDirectories source ∧
      (plannedFile rt index activeDirectories source).content = source.2 := by
  unfold plannedFile WorkspaceMigrationFile.content
  dsimp only
  rw [if_neg (show ¬ DetectSecretContent (relPath source.1) source.2 = true from
    fun hsecret => Bool.noConfusion (h.symm.trans hsecret))]
  refine ⟨rfl, ?_⟩
  dsimp only
  rw [adaptedContent_eq, ite_self]

theorem scanned_eq : sources.filterMap (scanFile rt index activeDirectories) =
    (sources.filter (Migrates rt)).map (plannedFile rt index activeDirectories) := by
  induction sources with
  | nil => rfl
  | cons source sources ih =>
      cases hignored : IsIgnoredPath rt (relPath source.1) <;>
        cases hstub : IsEmptyStub source.2 <;>
        simp [scanFile, Migrates, hignored, hstub, ih]

theorem of_domainSources {domain : String} {i : Nat}
    (h : (domainSources rt activeDirectories sources domain)[i]? = some source) :
    source ∈ sources ∧ Migrates rt source := by
  have hmem := List.mem_of_getElem? h
  rw [domainSources, List.mem_filter] at hmem
  exact List.mem_filter.mp hmem.1

theorem domainFiles_eq (domain : String) :
    domainFiles (sources.filterMap (scanFile rt index activeDirectories)) domain =
      (domainSources rt activeDirectories sources domain).map
        (plannedFile rt index activeDirectories) := by
  rw [domainFiles, scanned_eq, List.filter_map, domainSources]
  refine congrArg _ (List.filter_congr fun source _ => ?_)
  rw [Function.comp_apply, plannedFile_domain]

variable {migrationID createdAt workspaceRoot : String} {mapOrder : MapOrder}
  {workspace : Files} {chunkSize : Int} {root : Path}

/-- Two files are in one chunk exactly when they are in one slice of a domain. -/
theorem same_chunk_iff {f f' : WorkspaceMigrationFile} :
    (∃ c ∈ (BuildMigrationPlan rt migrationID createdAt workspaceRoot mapOrder sources workspace
        chunkSize).Chunks, f ∈ c.Files ∧ f' ∈ c.Files) ↔
      ∃ domain i j s s',
        (domainSources rt (InspectTargetWorkspace workspace) sources domain)[i]? = some s ∧
        (domainSources rt (InspectTargetWorkspace workspace) sources domain)[j]? = some s' ∧
        i / effectiveSize chunkSize = j / effectiveSize chunkSize ∧
        plannedFile rt (IndexWorkspace rt workspace) (InspectTargetWorkspace workspace) s = f ∧
        plannedFile rt (IndexWorkspace rt workspace) (InspectTargetWorkspace workspace) s' =
          f' := by
  have hchunks : (∃ c ∈ (BuildMigrationPlan rt migrationID createdAt workspaceRoot mapOrder sources
        workspace chunkSize).Chunks, f ∈ c.Files ∧ f' ∈ c.Files) ↔
      ∃ domain, ∃ slice ∈ slices (effectiveSize chunkSize) (domainFiles (sources.filterMap
        (scanFile rt (IndexWorkspace rt workspace) (InspectTargetWorkspace workspace))) domain),
          f ∈ slice ∧ f' ∈ slice := by
    constructor
    · rintro ⟨c, hc, hf, hf'⟩
      obtain ⟨domain, hslice⟩ := mem_planBatches.mp (mem_chunks.mp ⟨c, hc, rfl⟩)
      exact ⟨domain, _, hslice, hf, hf'⟩
    · rintro ⟨domain, slice, hslice, hf, hf'⟩
      obtain ⟨c, hc, rfl⟩ := mem_chunks.mpr
        ((@mem_planBatches mapOrder _ _ _).mpr ⟨domain, hslice⟩)
      exact ⟨c, hc, hf, hf'⟩
  rw [hchunks]
  refine exists_congr fun domain => ?_
  rw [same_slice_iff (effectiveSize_pos chunkSize), domainFiles_eq]
  constructor
  · rintro ⟨i, j, hi, hj, hsame⟩
    rw [List.getElem?_map, Option.map_eq_some_iff] at hi hj
    obtain ⟨s, hs, rfl⟩ := hi
    obtain ⟨s', hs', rfl⟩ := hj
    exact ⟨i, j, s, s', hs, hs', hsame, rfl, rfl⟩
  · rintro ⟨i, j, s, s', hs, hs', hsame, rfl, rfl⟩
    refine ⟨i, j, ?_, ?_, hsame⟩
    · rw [List.getElem?_map, hs]
      rfl
    · rw [List.getElem?_map, hs']
      rfl

theorem chunksAgree_iff :
    ChunksAgree root (BuildMigrationPlan rt migrationID createdAt workspaceRoot mapOrder sources
        workspace chunkSize) ↔
      Separated rt (InspectTargetWorkspace workspace) root (effectiveSize chunkSize) sources := by
  have hopen : ∀ s : Path × Bytes, IsSecret s = false → (plannedFile rt
      (IndexWorkspace rt workspace) (InspectTargetWorkspace workspace) s).Status ≠
        .blocked_secret := by
    intro s hs h
    rw [plannedFile_secret, hs] at h
    cases h
  have hopened : ∀ s : Path × Bytes, (plannedFile rt (IndexWorkspace rt workspace)
      (InspectTargetWorkspace workspace) s).Status ≠ .blocked_secret → IsSecret s = false := by
    intro s hs
    exact Bool.eq_false_iff.mpr fun h => hs (plannedFile_secret.mpr h)
  have hchunk : ∀ s ∈ sources, Migrates rt s → ∃ c ∈ (BuildMigrationPlan rt migrationID createdAt
      workspaceRoot mapOrder sources workspace chunkSize).Chunks, plannedFile rt
        (IndexWorkspace rt workspace) (InspectTargetWorkspace workspace) s ∈ c.Files := by
    intro s hs hmigrates
    have hmem : s ∈ domainSources rt (InspectTargetWorkspace workspace) sources
        (domainOf rt (InspectTargetWorkspace workspace) s) :=
      List.mem_filter.mpr ⟨List.mem_filter.mpr ⟨hs, hmigrates⟩, decide_eq_true rfl⟩
    obtain ⟨i, hi⟩ := List.mem_iff_getElem?.mp hmem
    obtain ⟨c, hc, hf, -⟩ := same_chunk_iff.mpr ⟨_, i, i, s, s, hi, hi, rfl, rfl, rfl⟩
    exact ⟨c, hc, hf⟩
  constructor
  · intro h
    constructor
    · intro s hs hm hsecret s' hs' hm' hsecret' hsame
      obtain ⟨c, hc, hf⟩ := hchunk s hs hm
      obtain ⟨c', hc', hf'⟩ := hchunk s' hs' hm'
      obtain ⟨ht, hcontent⟩ := @plannedFile_open rt (IndexWorkspace rt workspace)
        (InspectTargetWorkspace workspace) s hsecret
      obtain ⟨ht', hcontent'⟩ := @plannedFile_open rt (IndexWorkspace rt workspace)
        (InspectTargetWorkspace workspace) s' hsecret'
      rw [← hcontent, ← hcontent']
      exact h.targets c hc _ hf (hopen s hsecret) c' hc' _ hf' (hopen s' hsecret')
        (by rw [ht, ht', hsame])
    · intro domain i j s s' hs hs' hsame hsecret hsecret' hbase
      obtain ⟨c, hc, hf, hf'⟩ := same_chunk_iff.mpr ⟨domain, i, j, s, s', hs, hs', hsame, rfl, rfl⟩
      obtain ⟨ht, hcontent⟩ := @plannedFile_open rt (IndexWorkspace rt workspace)
        (InspectTargetWorkspace workspace) s hsecret
      obtain ⟨ht', hcontent'⟩ := @plannedFile_open rt (IndexWorkspace rt workspace)
        (InspectTargetWorkspace workspace) s' hsecret'
      rw [← hcontent, ← hcontent']
      exact h.names c hc _ hf (hopen s hsecret) _ hf' (hopen s' hsecret') (by rw [ht, ht', hbase])
  · intro h
    constructor
    · intro c hc f hf hstatus f' hf' hstatus' hbase
      obtain ⟨domain, i, j, s, s', hs, hs', hsame, rfl, rfl⟩ := same_chunk_iff.mp ⟨c, hc, hf, hf'⟩
      obtain ⟨ht, hcontent⟩ := @plannedFile_open rt (IndexWorkspace rt workspace)
        (InspectTargetWorkspace workspace) s (hopened s hstatus)
      obtain ⟨ht', hcontent'⟩ := @plannedFile_open rt (IndexWorkspace rt workspace)
        (InspectTargetWorkspace workspace) s' (hopened s' hstatus')
      rw [ht, ht'] at hbase
      rw [hcontent, hcontent']
      exact h.names domain i j s s' hs hs' hsame (hopened s hstatus) (hopened s' hstatus') hbase
    · intro c hc f hf hstatus c' hc' f' hf' hstatus' hsame
      obtain ⟨domain, i, -, s, -, hs, -, -, rfl, -⟩ := same_chunk_iff.mp ⟨c, hc, hf, hf⟩
      obtain ⟨domain', i', -, s', -, hs', -, -, rfl, -⟩ := same_chunk_iff.mp ⟨c', hc', hf', hf'⟩
      obtain ⟨ht, hcontent⟩ := @plannedFile_open rt (IndexWorkspace rt workspace)
        (InspectTargetWorkspace workspace) s (hopened s hstatus)
      obtain ⟨ht', hcontent'⟩ := @plannedFile_open rt (IndexWorkspace rt workspace)
        (InspectTargetWorkspace workspace) s' (hopened s' hstatus')
      obtain ⟨hmem, hm⟩ := of_domainSources hs
      obtain ⟨hmem', hm'⟩ := of_domainSources hs'
      rw [ht, ht'] at hsame
      rw [hcontent, hcontent']
      exact h.targets s hmem hm (hopened s hstatus) s' hmem' hm' (hopened s' hstatus') hsame

end Planned

section Examples

def exampleRuntime : Runtime where
  toLower s := String.ofList (s.toList.map Char.toLower)
  EqualFold s t := s.toList.map Char.toLower = t.toList.map Char.toLower
  ComputeHash data := toString data.length
  jsonText data := data

def exampleRoot : Path := [⟨"data", by decide⟩, ⟨"workspace", by decide⟩]

/-- A note of a place. -/
def travelNote (place name : FileName) (data : Bytes) : Path × Bytes :=
  ([⟨"travel", by decide⟩, place, name], data)

def examplePlan (sources : List (Path × Bytes)) : WorkspaceMigrationPlan :=
  BuildMigrationPlan exampleRuntime "migration" "now" "/data/workspace" ⟨id, fun _ => .refl _⟩
    sources .empty 5

def exampleStaged (sources : List (Path × Bytes)) : Outcome Files String Unit :=
  (StageMigrationChunks (examplePlan sources)).run .empty

def exampleApplied (sources : List (Path × Bytes)) : Outcome MigrationState String Unit :=
  (applyAll exampleRuntime exampleRoot ["chunk-1-travel"]).run
    ⟨savedPlan exampleRuntime (examplePlan sources), (exampleStaged sources).final, .empty⟩

def sameNames : List (Path × Bytes) :=
  [travelNote ⟨"rome", by decide⟩ ⟨"notes.md", by decide⟩ [1],
    travelNote ⟨"oslo", by decide⟩ ⟨"notes.md", by decide⟩ [2]]

def otherNames : List (Path × Bytes) :=
  [travelNote ⟨"rome", by decide⟩ ⟨"notes.md", by decide⟩ [1],
    travelNote ⟨"oslo", by decide⟩ ⟨"plan.md", by decide⟩ [2]]

end Examples

end Openlia.WorkspaceMigrate

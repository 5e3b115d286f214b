import Mathlib.Data.List.Infix
import Openlia.Operator.Skills.Trees

/-! # What the hash of a directory identifies

The bytes that `DirectorySHA256` hashes are the records of the included paths, one after the other.
A zero stands after each part of a record. Names have none, contents are any bytes, and no length
is written, so that contents can be read as further records.
-/

namespace Openlia.DirectoryHash

open Lib
open Skills (Bytes text)

/-! ## Directories of regular files -/

def slash : UInt8 := 47

/-- A name in a directory. -/
def Component :=
  { s : Bytes // s ≠ [] ∧ s ≠ text "." ∧ s ≠ text ".." ∧ slash ∉ s ∧ (0 : UInt8) ∉ s }

instance : DecidableEq Component := inferInstanceAs (DecidableEq (Subtype _))

abbrev Path := List Component

/-- Directories and regular files. -/
def Directory := { t : Tree Component Bytes // ∀ p, t.node p ≠ some .symlink }

/-- The slash-separated name. -/
def relative (p : Path) : Bytes := [slash].intercalate (p.map (·.1))

/-- No part is a Python cache, and the name is none of a compiled file. -/
def included (p : Path) : Bool :=
  p.all (fun c => c.1 ≠ text "__pycache__") && !(text ".pyc").isSuffixOf (relative p)

/-- The order of `sort.Strings`. -/
def byName (p q : Path) : Bool := (compare (relative p) (relative q)).isLE

/-- The paths that the walk collects, sorted. -/
def paths (t : Directory) : List Path :=
  (t.1.entries.keys.filter fun p => decide (p ≠ []) && included p).mergeSort byName

/-- A path and the contents of its file; none for a directory. -/
structure Entry where
  path : Path
  contents : Option Bytes
  deriving DecidableEq

def entries (t : Directory) : List Entry := (paths t).map fun p => ⟨p, t.1.content p⟩

def kindBytes : Option Bytes → Bytes
  | none => text "directory" ++ [0]
  | some contents => text "file" ++ 0 :: contents

/-- What the loop writes for one path. -/
def record (e : Entry) : Bytes := relative e.path ++ 0 :: (kindBytes e.contents ++ [0])

def records (l : List Entry) : Bytes := l.flatMap record

/-- The bytes that are hashed. -/
def hashed (t : Directory) : Bytes := records (entries t)

def DirectorySHA256 (sha256 : Bytes → String) (t : Directory) : String := sha256 (hashed t)

/-! ## The lists of entries of directories -/

/-- A list of entries that some directory has. -/
structure Listing (l : List Entry) : Prop where
  included : ∀ e ∈ l, e.path ≠ [] ∧ included e.path = true
  sorted : l.Pairwise fun d e => compare (relative d.path) (relative e.path) = .lt
  parents : ∀ e ∈ l, ∀ q, q ≠ [] → q <+: e.path → q ≠ e.path → DirectoryHash.included q = true →
    ⟨q, none⟩ ∈ l

theorem zero_notMem_relative (p : Path) : (0 : UInt8) ∉ relative p := by
  induction p with
  | nil => simp [relative]
  | cons c p ih =>
      by_cases hp : p = []
      · subst hp
        simpa [relative] using c.2.2.2.2.2
      · have happend : relative (c :: p) = c.1 ++ slash :: relative p := by
          have := @intercalate_append _ slash [c.1] (p.map (·.1)) (by simp) (by simpa using hp)
          simpa [relative] using this
        rw [happend]
        simp only [List.mem_append, List.mem_cons, not_or]
        exact ⟨c.2.2.2.2.2, by decide, ih⟩

theorem relative_injective : Function.Injective relative := by
  intro p q h
  have hparts : ∀ p : Path, ∀ s ∈ p.map (·.1), slash ∉ s ∧ s ≠ [] := by
    intro p s hs
    obtain ⟨c, -, rfl⟩ := List.mem_map.mp hs
    exact ⟨c.2.2.2.2.1, c.2.1⟩
  exact List.map_injective_iff.mpr Subtype.val_injective (intercalate_inj (hparts p) (hparts q) h)

/-- A directory comes before what lies below it. -/
theorem compare_of_above {p q : Path} (hp : p ≠ []) (h : p <+: q) (hne : p ≠ q) :
    compare (relative p) (relative q) = .lt := by
  obtain ⟨r, rfl⟩ := h
  have hr : r ≠ [] := by rintro rfl; simp at hne
  rw [relative, relative, List.map_append, intercalate_append (by simpa using hp) (by simpa using hr)]
  exact compare_append _ _ _

theorem compare_ne {p q : Path} (h : compare (relative p) (relative q) = .lt) : p ≠ q := by
  rintro rfl
  have hself : compare (relative p) (relative p) = .eq := Std.ReflCmp.compare_self
  rw [hself] at h
  cases h

theorem compare_lt_of_byName {p q : Path} (h : byName p q = true) (hne : p ≠ q) :
    compare (relative p) (relative q) = .lt := by
  rw [byName] at h
  cases hc : compare (relative p) (relative q) with
  | lt => rfl
  | eq => exact absurd (relative_injective (Std.LawfulEqOrd.eq_of_compare hc)) hne
  | gt =>
      rw [hc] at h
      cases h

theorem byName_total (p q : Path) : (byName p q || byName q p) = true := by
  have hswap : compare (relative q) (relative p) = (compare (relative p) (relative q)).swap :=
    Std.OrientedCmp.eq_swap
  rw [byName, byName, hswap]
  cases compare (relative p) (relative q) <;> rfl

theorem byName_trans (p q r : Path) (h : byName p q = true) (h' : byName q r = true) :
    byName p r = true := Std.TransCmp.isLE_trans h h'

theorem byName_antisymm {p q : Path} (h : byName p q = true) (h' : byName q p = true) : p = q :=
  relative_injective (Std.LawfulEqOrd.eq_of_compare (Std.OrientedCmp.isLE_antisymm h h'))

theorem mem_paths {t : Directory} {p : Path} :
    p ∈ paths t ↔ (p ≠ [] ∧ included p = true) ∧ t.1.node p ≠ none := by
  rw [paths, List.mem_mergeSort, List.mem_filter, Bool.and_eq_true, decide_eq_true_eq, and_comm]
  refine and_congr_right fun h => ?_
  rw [Lib.Tree.node, nodeAt, if_neg h.1, ← Option.isSome_iff_ne_none, AList.lookup_isSome,
    AList.mem_keys]

theorem paths_sorted (t : Directory) :
    (paths t).Pairwise fun p q => compare (relative p) (relative q) = .lt := by
  have hle : (paths t).Pairwise fun p q => byName p q = true :=
    List.pairwise_mergeSort byName_trans byName_total _
  have hnodup : (paths t).Pairwise (· ≠ ·) :=
    (List.mergeSort_perm _ _).nodup_iff.mpr (t.1.entries.keys_nodup.filter _)
  exact (hle.and hnodup).imp fun h => compare_lt_of_byName h.1 h.2

theorem listing_entries (t : Directory) : Listing (entries t) := by
  have hmem : ∀ {e : Entry}, e ∈ entries t → e.path ∈ paths t := by
    intro e he
    obtain ⟨p, hp, rfl⟩ := List.mem_map.mp he
    exact hp
  constructor
  · intro e he
    exact (mem_paths.mp (hmem he)).1
  · rw [entries, List.pairwise_map]
    exact paths_sorted t
  · intro e he q hq habove hne hincluded
    have hdir : t.1.node q = some .dir :=
      Tree.node_of_above (mem_paths.mp (hmem he)).2 habove hne
    refine List.mem_map.mpr ⟨q, mem_paths.mpr ⟨⟨hq, hincluded⟩, by simp [hdir]⟩, ?_⟩
    simp [Tree.content, hdir]

/-! ### The directory of a list of entries -/

section Build

variable {l : List Entry}

def Entry.node (e : Entry) : Node Bytes :=
  match e.contents with
  | none => .dir
  | some c => .file c

/-- The entries, and a directory for what stands above them. -/
def nodesOf (l : List Entry) : List (Sigma fun _ : Path => Node Bytes) :=
  l.map (fun e => ⟨e.path, e.node⟩) ++ l.flatMap fun e => e.path.dropLast.inits.map fun q => ⟨q, .dir⟩

theorem Listing.nodup (h : Listing l) : (l.map Entry.path).Nodup := by
  rw [List.Nodup, List.pairwise_map]
  exact h.sorted.imp compare_ne

theorem lookup_entry (h : Listing l) {e : Entry} (he : e ∈ l) :
    (nodesOf l).dlookup e.path = some e.node := by
  have hkeys : (l.map fun e => (⟨e.path, e.node⟩ : Sigma fun _ : Path => Node Bytes)).NodupKeys := by
    rw [List.NodupKeys, List.keys, List.map_map]
    exact h.nodup
  have hfound : e.node ∈ (l.map fun e => (⟨e.path, e.node⟩ : Sigma fun _ : Path => Node Bytes)).dlookup
      e.path := List.mem_dlookup hkeys (List.mem_map.mpr ⟨e, he, rfl⟩)
  rw [nodesOf, List.dlookup_append, Option.mem_def.mp hfound]
  rfl

/-- What is found is an entry or stands above one. -/
theorem above_of_lookup {p : Path} {n : Node Bytes} (h : (nodesOf l).dlookup p = some n) :
    (∃ e ∈ l, e.path = p ∧ e.node = n) ∨ n = .dir ∧ ∃ e ∈ l, p <+: e.path.dropLast := by
  have hmem := List.of_mem_dlookup (Option.mem_def.mpr h)
  rw [nodesOf, List.mem_append, List.mem_map, List.mem_flatMap] at hmem
  rcases hmem with ⟨e, he, heq⟩ | ⟨e, he, hq⟩
  · cases heq
    exact Or.inl ⟨e, he, rfl, rfl⟩
  · obtain ⟨q, habove, heq⟩ := List.mem_map.mp hq
    cases heq
    exact Or.inr ⟨rfl, e, he, (List.mem_inits _ _).mp habove⟩

theorem lookup_above (h : Listing l) {e : Entry} {p : Path} (he : e ∈ l) (hp : p ≠ [])
    (habove : p <+: e.path) (hne : p ≠ e.path) : (nodesOf l).dlookup p = some .dir := by
  have hkey : p ∈ (nodesOf l).keys := by
    rw [nodesOf, List.keys, List.map_append, List.mem_append, List.mem_map, List.mem_map]
    refine Or.inr ⟨⟨p, .dir⟩, List.mem_flatMap.mpr ⟨e, he, List.mem_map.mpr ⟨p, ?_, rfl⟩⟩, rfl⟩
    exact (List.mem_inits _ _).mpr ((prefix_dropLast (h.included e he).1).mpr ⟨habove, hne⟩)
  obtain ⟨n, hn⟩ := Option.isSome_iff_exists.mp (List.dlookup_isSome.mpr hkey)
  rcases above_of_lookup hn with ⟨d, hd, rfl, rfl⟩ | ⟨rfl, -⟩
  · have hdir := h.parents e he d.path hp habove hne (h.included d hd).2
    exact lookup_entry h hdir
  · exact hn

/-- The directory with these entries. -/
def build (l : List Entry) (h : Listing l) : Directory where
  val := {
    entries := (nodesOf l).toAList
    closed := by
      intro p c hpc
      rw [nodeAt, if_neg (by simp), AList.lookup_to_alist] at hpc
      obtain ⟨n, hn⟩ := Option.ne_none_iff_exists'.mp hpc
      have habove : ∃ e ∈ l, p ++ [c] <+: e.path := by
        rcases above_of_lookup hn with ⟨e, he, hpath, -⟩ | ⟨-, e, he, habove⟩
        · exact ⟨e, he, hpath ▸ List.prefix_rfl⟩
        · exact ⟨e, he, habove.trans (List.dropLast_prefix _)⟩
      obtain ⟨e, he, habove⟩ := habove
      by_cases hp : p = []
      · rw [nodeAt, if_pos hp]
      · rw [nodeAt, if_neg hp, AList.lookup_to_alist]
        refine lookup_above h he hp ((List.prefix_append p [c]).trans habove) ?_
        intro hself
        have hlength := habove.length_le
        rw [hself, List.length_append, List.length_singleton] at hlength
        omega }
  property := by
    intro p hlink
    rw [Lib.Tree.node, nodeAt] at hlink
    split at hlink
    · cases hlink
    · rw [AList.lookup_to_alist] at hlink
      rcases above_of_lookup hlink with ⟨e, -, -, hnode⟩ | ⟨hnode, -⟩
      · unfold Entry.node at hnode
        split at hnode <;> cases hnode
      · cases hnode

theorem node_build (h : Listing l) {p : Path} (hp : p ≠ []) :
    (build l h).1.node p = (nodesOf l).dlookup p := by
  rw [Lib.Tree.node, nodeAt, if_neg hp]
  exact AList.lookup_to_alist (nodesOf l)

/-- The lists of entries of directories are the listings. -/
theorem entries_build (h : Listing l) : entries (build l h) = l := by
  have hpaths : paths (build l h) = l.map Entry.path := by
    have hsorted : (l.map Entry.path).Pairwise fun p q => compare (relative p) (relative q) = .lt := by
      rw [List.pairwise_map]
      exact h.sorted
    have hle : ∀ {p q : Path}, compare (relative p) (relative q) = .lt → byName p q = true := by
      intro p q hlt
      rw [byName, hlt]
      rfl
    refine List.Perm.eq_of_pairwise (fun p q _ _ => byName_antisymm)
      ((paths_sorted _).imp hle) (hsorted.imp hle) ?_
    refine (List.perm_ext_iff_of_nodup ((paths_sorted _).imp compare_ne) h.nodup).mpr fun p => ?_
    rw [mem_paths, List.mem_map]
    constructor
    · rintro ⟨⟨hp, hincluded⟩, hnode⟩
      rw [node_build h hp] at hnode
      obtain ⟨n, hn⟩ := Option.ne_none_iff_exists'.mp hnode
      rcases above_of_lookup hn with ⟨e, he, hpath, -⟩ | ⟨-, e, he, habove⟩
      · exact ⟨e, he, hpath⟩
      · have hproper := (prefix_dropLast (h.included e he).1).mp habove
        exact ⟨⟨p, none⟩, h.parents e he p hp hproper.1 hproper.2 hincluded, rfl⟩
    · rintro ⟨e, he, rfl⟩
      refine ⟨h.included e he, ?_⟩
      rw [node_build h (h.included e he).1, lookup_entry h he]
      simp
  rw [entries, hpaths, List.map_map]
  refine (List.map_congr_left fun e he => ?_).trans (List.map_id l)
  have hnode := (node_build h (h.included e he).1).trans (lookup_entry h he)
  obtain ⟨path, contents⟩ := e
  cases contents <;> simp_all [Tree.content, Entry.node]

end Build

/-! ## Reading the bytes back -/

section Reading

variable {d e : Entry} {l m front rest : List Entry} {c c' : Bytes}

theorem record_cut (h : record d ++ records l = record e ++ records m) :
    d.path = e.path ∧ (d.contents = none ∧ e.contents = none ∧ records l = records m ∨
      ∃ c c', d.contents = some c ∧ e.contents = some c' ∧
        c ++ 0 :: records l = c' ++ 0 :: records m) := by
  simp only [record, List.append_assoc, List.cons_append] at h
  obtain ⟨hpath, hrest⟩ := cut_inj (zero_notMem_relative _) (zero_notMem_relative _) h
  refine ⟨relative_injective hpath, ?_⟩
  have hd : text "directory" = 100 :: (text "directory").tail := by decide
  have hf : text "file" = 102 :: (text "file").tail := by decide
  cases hdc : d.contents with
  | none =>
      cases hec : e.contents with
      | none =>
          rw [hdc, hec] at hrest
          refine Or.inl ⟨rfl, rfl, ?_⟩
          simpa [kindBytes] using hrest
      | some c' =>
          rw [hdc, hec, kindBytes, kindBytes, hd, hf] at hrest
          exact absurd (List.cons.inj hrest).1 (by decide)
  | some c =>
      cases hec : e.contents with
      | none =>
          rw [hdc, hec, kindBytes, kindBytes, hd, hf] at hrest
          exact absurd (List.cons.inj hrest).1 (by decide)
      | some c' =>
          rw [hdc, hec] at hrest
          refine Or.inr ⟨c, c', rfl, rfl, ?_⟩
          simpa [kindBytes] using hrest

theorem record_ne_nil (e : Entry) : record e ≠ [] := by simp [record]

theorem records_eq_nil (h : records l = []) : l = [] := by
  cases l with
  | nil => rfl
  | cons e l => simp [records, record_ne_nil] at h

/-- The records end with a zero. -/
theorem records_concat (h : l ≠ []) : ∃ s, records l = s ++ [0] := by
  have hrecord : ∀ e : Entry, record e = relative e.path ++ 0 :: kindBytes e.contents ++ [0] := by
    intro e
    rw [record, List.append_assoc, List.cons_append]
  rw [← List.dropLast_append_getLast h, records, List.flatMap_append, List.flatMap_singleton,
    hrecord, ← List.append_assoc]
  exact ⟨_, rfl⟩

theorem records_file {p : Path} : records (⟨p, some c⟩ :: rest) =
    relative p ++ 0 :: (text "file" ++ 0 :: (c ++ 0 :: records rest)) := by
  simp [records, record, kindBytes]

/-- No contents go on, and none can be read as shorter ones with further records of a listing. -/
def Unambiguous (l : List Entry) : Prop :=
  ∀ front p c rest, l = front ++ ⟨p, some c⟩ :: rest → rest = [] ∧
    ∀ c' more, more ≠ [] → Listing (front ++ ⟨p, some c'⟩ :: more) → c ++ [0] ≠ c' ++ 0 :: records more

/-- Where the first list is unambiguous, the records tell the rest after a common front. -/
theorem Unambiguous.eq_of_records (h : Unambiguous l) (hm : Listing m) (front a b : List Entry)
    (hl : l = front ++ a) (hfront : m = front ++ b) (hrecords : records a = records b) : a = b := by
  induction a generalizing front b with
  | nil => exact (records_eq_nil hrecords.symm).symm
  | cons d a ih =>
      cases b with
      | nil => exact absurd (records_eq_nil hrecords) (List.cons_ne_nil d a)
      | cons e b =>
          obtain ⟨hpath, hcontents⟩ := record_cut (by simpa [records] using hrecords)
          obtain ⟨p, contents⟩ := d
          obtain ⟨q, contents'⟩ := e
          dsimp only at hpath
          subst hpath
          rcases hcontents with ⟨rfl, rfl, htail⟩ | ⟨c, c', rfl, rfl, htail⟩
          · have heq := ih (front ++ [⟨p, none⟩]) b (by simpa using hl) (by simpa using hfront) htail
            rw [heq]
          · obtain ⟨rfl, hlast⟩ := h front p c a hl
            by_cases hb : b = []
            · subst hb
              simpa [records] using htail
            · exact absurd htail (hlast c' b hb (hfront ▸ hm))

/-- A listing that ends with a file, whatever its contents. -/
theorem Listing.cut (h : Listing (front ++ ⟨p, some c⟩ :: rest)) (c' : Bytes) :
    Listing (front ++ [⟨p, some c'⟩]) := by
  have hsorted := h.sorted
  rw [List.pairwise_append, List.pairwise_cons] at hsorted
  have hmem : ∀ {e : Entry}, e ∈ front ++ [⟨p, some c'⟩] →
      e ∈ front ∨ e.path = p := by
    intro e he
    rcases List.mem_append.mp he with he | he
    · exact Or.inl he
    · exact Or.inr (by rw [List.mem_singleton.mp he])
  constructor
  · intro e he
    rcases hmem he with he | he
    · exact h.included e (List.mem_append_left _ he)
    · exact he ▸ h.included ⟨p, some c⟩ (by simp)
  · rw [List.pairwise_append]
    refine ⟨hsorted.1, List.pairwise_singleton _ _, fun d hd e he => ?_⟩
    rw [List.mem_singleton.mp he]
    exact hsorted.2.2 d hd ⟨p, some c⟩ List.mem_cons_self
  · intro e he q hq habove hne hincluded
    have hparent : ⟨q, none⟩ ∈ front ++ ⟨p, some c⟩ :: rest := by
      rcases hmem he with he | he
      · exact h.parents e (List.mem_append_left _ he) q hq habove hne hincluded
      · exact h.parents ⟨p, some c⟩ (by simp) q hq (he ▸ habove) (he ▸ hne) hincluded
    rcases List.mem_append.mp hparent with hfront | hrest
    · exact List.mem_append_left _ hfront
    · -- What stands after the file comes after all that is above an entry up to it.
      rcases List.mem_cons.mp hrest with heq | hrest
      · cases heq
      · have hlt : compare (relative q) (relative e.path) = .lt := compare_of_above hq habove hne
        have hafter : compare (relative e.path) (relative q) = .lt := by
          rcases hmem he with he | he
          · exact hsorted.2.2 e he ⟨q, none⟩ (List.mem_cons_of_mem _ hrest)
          · exact he ▸ hsorted.2.1.1 ⟨q, none⟩ hrest
        exact absurd rfl (compare_ne (Std.TransCmp.lt_trans hlt hafter))

/-- The entries are told by the bytes just where they are unambiguous. -/
theorem identified_iff (hl : Listing l) :
    (∀ m, Listing m → records m = records l → m = l) ↔ Unambiguous l := by
  constructor
  · intro h front p c rest heq
    subst heq
    have hlast : rest = [] := by
      by_contra hrest
      obtain ⟨s, hs⟩ := records_concat hrest
      have hmerged := h _ (hl.cut (c ++ 0 :: s)) (by
        rw [records, records, List.flatMap_append, List.flatMap_append]
        change _ ++ records [_] = _ ++ records (_ :: rest)
        rw [records_file, records_file, hs]
        simp [records])
      have hlength := congrArg List.length hmerged
      rw [List.length_append, List.length_append, List.length_cons, List.length_cons,
        List.length_nil] at hlength
      have hpos := List.length_pos_iff.mpr hrest
      omega
    subst hlast
    refine ⟨rfl, fun c' more hmore hlisting heq => ?_⟩
    have hshorter := h _ hlisting (by
      rw [records, records, List.flatMap_append, List.flatMap_append]
      change _ ++ records (_ :: more) = _ ++ records [_]
      rw [records_file, records_file, ← heq]
      simp [records])
    simpa [hmore] using congrArg (List.drop front.length) hshorter
  · intro h m hm hrecords
    exact (h.eq_of_records hm [] l m rfl rfl hrecords.symm).symm

/-- Contents without a zero. -/
def TextFiles (l : List Entry) : Prop := ∀ e ∈ l, ∀ c ∈ e.contents, (0 : UInt8) ∉ c

theorem TextFiles.eq_of_records (hl : TextFiles l) (hm : TextFiles m)
    (h : records l = records m) : l = m := by
  induction l generalizing m with
  | nil => exact (records_eq_nil h.symm).symm
  | cons d l ih =>
      cases m with
      | nil => exact absurd (records_eq_nil h) (List.cons_ne_nil d l)
      | cons e m =>
          obtain ⟨hpath, hcontents⟩ := record_cut (by simpa [records] using h)
          have htail : d.contents = e.contents ∧ records l = records m := by
            rcases hcontents with ⟨hd, he, htail⟩ | ⟨c, c', hd, he, htail⟩
            · exact ⟨hd.trans he.symm, htail⟩
            · obtain ⟨hsame, htail⟩ := cut_inj (hl d List.mem_cons_self c hd)
                (hm e List.mem_cons_self c' he) htail
              rw [hd, he, hsame]
              exact ⟨rfl, htail⟩
          have heq := ih (fun x hx => hl x (List.mem_cons_of_mem d hx))
            (fun x hx => hm x (List.mem_cons_of_mem e hx)) htail.2
          obtain ⟨p, contents⟩ := d
          obtain ⟨q, contents'⟩ := e
          simp_all

end Reading

/-- Directories of texts are told apart. -/
theorem entries_eq_of_texts {t u : Directory} (ht : TextFiles (entries t))
    (hu : TextFiles (entries u)) (h : hashed t = hashed u) : entries t = entries u :=
  ht.eq_of_records hu h

/-- A directory is told by the bytes that are hashed just where no file is followed by an entry and
the contents of the last one have no further records in them. -/
theorem hashed_identifies_iff (t : Directory) :
    (∀ u : Directory, hashed u = hashed t → entries u = entries t) ↔ Unambiguous (entries t) := by
  rw [← identified_iff (listing_entries t)]
  constructor
  · intro h m hm hrecords
    have hbuild := h (build m hm) (by rw [hashed, entries_build, hrecords, hashed])
    rwa [entries_build] at hbuild
  · intro h u hu
    exact h (entries u) (listing_entries u) hu

/-! ## Two directories with the same bytes -/

def a : Component := ⟨text "a", by decide⟩

def b : Component := ⟨text "b", by decide⟩

/-- A file `a`, and a file `b` beside it. -/
def twoFiles : List Entry := [⟨[a], some (text "x")⟩, ⟨[b], some (text "y")⟩]

/-- One file `a` whose contents go on with the record of `b`. -/
def oneFile : List Entry := [⟨[a], some (text "x\x00b\x00file\x00y")⟩]

theorem listing_of_flat {l : List Entry} (hflat : ∀ e ∈ l, e.path.length = 1 ∧ included e.path = true)
    (hsorted : l.Pairwise fun d e => compare (relative d.path) (relative e.path) = .lt) :
    Listing l := by
  constructor
  · intro e he
    exact ⟨List.ne_nil_of_length_pos (by rw [(hflat e he).1]; exact Nat.one_pos), (hflat e he).2⟩
  · exact hsorted
  · intro e he q hq habove hne _
    have hpos := List.length_pos_iff.mpr hq
    have hone := (hflat e he).1
    exact absurd (habove.eq_of_length_le (by omega)) hne

theorem entries_eq_of_two_texts : ∃ t : Directory, entries t = twoFiles ∧
    (hashed t = hashed t → entries t = entries t) := by
  have htwo : Listing twoFiles := listing_of_flat (by decide) (by decide)
  have htexts : TextFiles (entries (build twoFiles htwo)) := by
    rw [entries_build, TextFiles]
    decide
  exact ⟨_, entries_build htwo, entries_eq_of_texts htexts htexts⟩

theorem contents_imitate_records :
    ∃ t u : Directory, hashed t = hashed u ∧ entries t = twoFiles ∧ entries u = oneFile ∧
      twoFiles ≠ oneFile := by
  have htwo : Listing twoFiles := listing_of_flat (by decide) (by decide)
  have hone : Listing oneFile := listing_of_flat (by decide) (by decide)
  refine ⟨build twoFiles htwo, build oneFile hone, ?_, entries_build htwo, entries_build hone, ?_⟩
  · rw [hashed, hashed, entries_build, entries_build]
    decide
  · decide

end Openlia.DirectoryHash

import Openlia.Lib.FileTree
import Openlia.Lib.Separators

/-! # Skill and catalog directories

A directory is a tree of named entries. Two digests are taken of one: the hash of
a skill covers every entry but Python's cache, that of a catalog its files.
-/

namespace Openlia.Skills

open Lib

abbrev Bytes := List UInt8

/-- A component of a path. -/
def FileName :=
  { s : String // s ≠ "" ∧ s ≠ "." ∧ s ≠ ".." ∧ '/' ∉ s.toList ∧ '\x00' ∉ s.toList }

instance : DecidableEq FileName := inferInstanceAs (DecidableEq (Subtype _))

abbrev Path := List FileName

instance : LawfulBEq Path := inferInstance

/-- What an entry that is no directory holds: a link holds its target. -/
inductive Leaf where
  | regular (contents : Bytes)
  | link (target : String)
  deriving DecidableEq

abbrev Dir := Tree FileName Leaf

def pathText (p : Path) : List Char := List.intercalate ['/'] (p.map fun c => c.1.toList)

/-- The slash-separated name. -/
def relPath (p : Path) : String := String.ofList (pathText p)

/-- The order of `sort.Strings`. -/
def byName (p q : Path) : Bool := (compare (pathText p) (pathText q)).isLE

/-- The entries, by name. -/
def sortedPaths (t : Dir) : List Path :=
  (t.entries.keys.filter fun p => decide (p ≠ [])).mergeSort byName

def FileName.hasSuffix (c : FileName) (suffix : String) : Bool :=
  suffix.toList.isSuffixOf c.1.toList

/-! ## Names and their order -/

theorem FileName.toList_ne_nil (c : FileName) : c.1.toList ≠ [] := by
  intro h
  exact c.2.1 (String.toList_eq_nil_iff.mp h)

theorem splitOn_pathText {p : Path} (hp : p ≠ []) :
    (pathText p).splitOn '/' = p.map fun c => c.1.toList := by
  rw [pathText, List.splitOn_intercalate]
  · intro l hl
    obtain ⟨c, -, rfl⟩ := List.mem_map.mp hl
    exact c.2.2.2.2.1
  · simpa using hp

theorem pathText_ne_nil {p : Path} (hp : p ≠ []) : pathText p ≠ [] := by
  obtain ⟨c, rest, rfl⟩ := List.exists_cons_of_ne_nil hp
  intro h
  have hc := splitOn_pathText (p := c :: rest) (by simp)
  rw [h] at hc
  simp only [List.splitOn_nil, List.map_cons, List.cons.injEq] at hc
  exact c.toList_ne_nil hc.1.symm

theorem pathText_injective : Function.Injective pathText := by
  intro p q h
  have hparts : ∀ p : Path, ∀ l ∈ p.map fun c => c.1.toList, '/' ∉ l ∧ l ≠ [] := by
    intro p l hl
    obtain ⟨c, -, rfl⟩ := List.mem_map.mp hl
    exact ⟨c.2.2.2.2.1, c.toList_ne_nil⟩
  exact List.map_injective_iff.mpr (fun a b hab => Subtype.ext (String.toList_injective hab))
    (intercalate_inj (hparts p) (hparts q) h)

theorem relPath_injective : Function.Injective relPath := fun _ _ h =>
  pathText_injective (String.ofList_injective h)

theorem pathText_append {p q : Path} (hp : p ≠ []) (hq : q ≠ []) :
    pathText (p ++ q) = pathText p ++ '/' :: pathText q := by
  rw [pathText, List.map_append, intercalate_append (by simpa using hp) (by simpa using hq)]
  rfl

/-- A directory comes before what lies below it. -/
theorem compare_of_above {p q : Path} (hp : p ≠ []) (h : p <+: q) (hne : p ≠ q) :
    compare (pathText p) (pathText q) = .lt := by
  obtain ⟨r, rfl⟩ := h
  have hr : r ≠ [] := by rintro rfl; simp at hne
  rw [pathText_append hp hr]
  exact compare_append _ _ _

theorem byName_trans {p q r : Path} (h : byName p q = true) (h' : byName q r = true) :
    byName p r = true := Std.TransCmp.isLE_trans h h'

theorem byName_total (p q : Path) : (byName p q || byName q p) = true := by
  have hswap : compare (pathText q) (pathText p) = (compare (pathText p) (pathText q)).swap :=
    Std.OrientedCmp.eq_swap
  rw [byName, byName, hswap]
  cases compare (pathText p) (pathText q) <;> rfl

theorem byName_antisymm {p q : Path} (h : byName p q = true) (h' : byName q p = true) : p = q :=
  pathText_injective (Std.LawfulEqOrd.eq_of_compare (Std.OrientedCmp.isLE_antisymm h h'))

theorem byName_sortedPaths (t : Dir) : (sortedPaths t).Pairwise fun p q => byName p q = true := by
  refine List.pairwise_mergeSort (fun p q r h h' => ?_) byName_total _
  exact byName_trans h h'

theorem sortedPaths_eq {t : Dir} {l : List Path}
    (hkeys : (t.entries.keys.filter fun p => decide (p ≠ [])).Perm l)
    (hl : l.Pairwise fun p q => byName p q = true) : sortedPaths t = l := by
  refine List.Perm.eq_of_pairwise (fun p q _ _ => byName_antisymm) (byName_sortedPaths t) hl ?_
  exact (List.mergeSort_perm _ _).trans hkeys

theorem mem_sortedPaths {t : Dir} {p : Path} : p ∈ sortedPaths t ↔ p ≠ [] ∧ t.node p ≠ none := by
  simp only [sortedPaths, List.mem_mergeSort, List.mem_filter, decide_eq_true_eq]
  constructor
  · rintro ⟨hkey, hp⟩
    refine ⟨hp, ?_⟩
    rw [Lib.Tree.node, nodeAt, if_neg hp, ← Option.isSome_iff_ne_none]
    exact AList.lookup_isSome.mpr (AList.mem_keys.mpr hkey)
  · rintro ⟨hp, hn⟩
    refine ⟨?_, hp⟩
    rw [Lib.Tree.node, nodeAt, if_neg hp, ← Option.isSome_iff_ne_none] at hn
    exact AList.mem_keys.mp (AList.lookup_isSome.mp hn)

theorem nodup_sortedPaths (t : Dir) : (sortedPaths t).Nodup :=
  (List.mergeSort_perm _ _).nodup_iff.mpr (t.entries.keys_nodup.filter _)

/-! ## The digest of a skill -/

/-- No part of the path is a cache directory, and it names no compiled file. -/
def Hashed (p : Path) : Prop :=
  (∀ c ∈ p, c.1 ≠ "__pycache__") ∧ ∀ c ∈ p.getLast?, c.hasSuffix ".pyc" = false

instance : DecidablePred Hashed := fun p =>
  inferInstanceAs (Decidable ((∀ c ∈ p, c.1 ≠ "__pycache__") ∧ ∀ c ∈ p.getLast?, _))

/-- The bytes of a string. -/
def text (s : String) : Bytes := s.toList.flatMap String.utf8EncodeChar

def entryBytes : Node Leaf → Bytes
  | .file (.link target) => text "symlink" ++ 0 :: text target
  | .symlink => text "symlink" ++ [0]
  | .file (.regular contents) => text "file" ++ 0 :: contents
  | .dir => text "directory" ++ [0]

/-- What one entry adds to the digest. -/
def chunk (t : Dir) (p : Path) : Bytes :=
  match t.node p with
  | none => []
  | some n => text (relPath p) ++ 0 :: entryBytes n ++ [0]

def hashedPaths (t : Dir) : List Path := (sortedPaths t).filter fun p => decide (Hashed p)

def digested (t : Dir) : Bytes := (hashedPaths t).flatMap (chunk t)

def DirectorySHA256 (sha256 : Bytes → String) (t : Dir) : String := sha256 (digested t)

/-! ## What the digest of a skill says -/

theorem text_injective : Function.Injective text := by
  intro s s' h
  have hb : s.toList.utf8Encode = s'.toList.utf8Encode := by
    unfold List.utf8Encode
    exact congrArg List.toByteArray h
  rw [← String.toByteArray_ofList, ← String.toByteArray_ofList, String.ofList_toList,
    String.ofList_toList] at hb
  exact String.toByteArray_inj.mp hb

theorem zero_notMem_encoded {c : Char} (hc : c ≠ '\x00') : 0 ∉ String.utf8EncodeChar c := by
  have hv : 0 < c.val.toNat := by
    rw [Nat.pos_iff_ne_zero]
    exact fun h => hc (Char.ext (UInt32.toNat_inj.mp h))
  have hlt : c.val.toNat < 1114112 := by
    have hvalid := c.valid
    simp only [UInt32.isValidChar, Nat.isValidChar] at hvalid
    omega
  have hne : ∀ n : Nat, 0 < n → n < 256 → (0 : UInt8) ≠ UInt8.ofNat n := by
    intro n hn hn' h
    have := congrArg UInt8.toNat h
    rw [UInt8.toNat_ofNat_of_lt' hn'] at this
    exact absurd this.symm (Nat.pos_iff_ne_zero.mp hn)
  unfold String.utf8EncodeChar
  simp only
  split
  · simpa using hne _ hv (by omega)
  · split
    · simp only [List.mem_cons, List.not_mem_nil, or_false, not_or]
      exact ⟨hne _ (by omega) (by omega), hne _ (by omega) (by omega)⟩
    · split
      · simp only [List.mem_cons, List.not_mem_nil, or_false, not_or]
        exact ⟨hne _ (by omega) (by omega), hne _ (by omega) (by omega),
          hne _ (by omega) (by omega)⟩
      · simp only [List.mem_cons, List.not_mem_nil, or_false, not_or]
        exact ⟨hne _ (by omega) (by omega), hne _ (by omega) (by omega),
          hne _ (by omega) (by omega), hne _ (by omega) (by omega)⟩

/-- A name has no byte 0. -/
theorem zero_notMem_text {p : Path} : 0 ∉ text (relPath p) := by
  intro h
  obtain ⟨c, hc, hz⟩ := List.mem_flatMap.mp h
  refine zero_notMem_encoded ?_ hz
  rintro rfl
  rw [relPath, String.toList_ofList] at hc
  have hnames : ∀ q : Path, '\x00' ∉ pathText q := by
    intro q
    induction q with
    | nil => simp [pathText]
    | cons d q ih =>
        by_cases hq : q = []
        · subst hq
          simpa [pathText] using d.2.2.2.2.2
        · have := pathText_append (p := [d]) (q := q) (by simp) hq
          rw [List.singleton_append] at this
          rw [this]
          simp only [List.mem_append, List.mem_cons, not_or]
          exact ⟨by simpa [pathText] using d.2.2.2.2.2, by decide, ih⟩
  exact hnames p hc

/-- Only regular files and directories. -/
def Plain (t : Dir) : Prop := ∀ p n, t.node p = some n → n = .dir ∨ ∃ c, n = .file (.regular c)

/-- The same files with the same contents. -/
def SameFiles (t u : Dir) : Prop :=
  ∀ p c, t.node p = some (.file c) ↔ u.node p = some (.file c)

theorem chunk_eq {t : Dir} {p : Path} {n : Node Leaf} (h : t.node p = some n) :
    chunk t p = text (relPath p) ++ 0 :: (entryBytes n ++ [0]) := by
  simp [chunk, h]

theorem entryBytes_kind {c : Bytes} {r s : Bytes} :
    entryBytes .dir ++ r ≠ entryBytes (.file (.regular c)) ++ s := by
  intro h
  have hd : text "directory" = 100 :: (text "directory").tail := by decide
  have hf : text "file" = 102 :: (text "file").tail := by decide
  rw [entryBytes, entryBytes, hd, hf] at h
  exact absurd (List.cons.inj h).1 (by decide)

theorem chunks_inj {t u : Dir} (ht : Plain t) (hu : Plain u) (hsame : SameFiles t u)
    {l m : List Path} (hl : ∀ p ∈ l, t.node p ≠ none) (hm : ∀ p ∈ m, u.node p ≠ none)
    (h : l.flatMap (chunk t) = m.flatMap (chunk u)) :
    l = m ∧ ∀ p ∈ l, t.node p = u.node p := by
  induction l generalizing m with
  | nil =>
      cases m with
      | nil => exact ⟨rfl, by simp⟩
      | cons q m =>
          obtain ⟨n, hn⟩ := Option.ne_none_iff_exists'.mp (hm q List.mem_cons_self)
          rw [List.flatMap_cons, chunk_eq hn] at h
          simp at h
  | cons p l ih =>
      obtain ⟨n, hn⟩ := Option.ne_none_iff_exists'.mp (hl p List.mem_cons_self)
      cases m with
      | nil =>
          rw [List.flatMap_cons, chunk_eq hn] at h
          simp at h
      | cons q m =>
          obtain ⟨n', hn'⟩ := Option.ne_none_iff_exists'.mp (hm q List.mem_cons_self)
          rw [List.flatMap_cons, List.flatMap_cons, chunk_eq hn, chunk_eq hn', List.append_assoc,
            List.append_assoc, List.cons_append, List.cons_append] at h
          obtain ⟨htext, hrest⟩ := cut_inj zero_notMem_text zero_notMem_text h
          obtain rfl := relPath_injective (text_injective htext)
          have hnode : n = n' := by
            rw [List.append_assoc, List.append_assoc] at hrest
            rcases ht p n hn with rfl | ⟨c, rfl⟩
            · rcases hu p n' hn' with rfl | ⟨c', rfl⟩
              · rfl
              · exact absurd hrest entryBytes_kind
            · exact Option.some.inj (((hsame p _).mp hn).symm.trans hn')
          subst hnode
          obtain ⟨rfl, hall⟩ := ih (fun r hr => hl r (List.mem_cons_of_mem _ hr))
            (fun r hr => hm r (List.mem_cons_of_mem _ hr)) (List.append_cancel_left hrest)
          refine ⟨rfl, fun r hr => ?_⟩
          rcases List.mem_cons.mp hr with rfl | hr
          · exact hn.trans hn'.symm
          · exact hall r hr

theorem mem_hashedPaths {t : Dir} {p : Path} :
    p ∈ hashedPaths t ↔ p ≠ [] ∧ t.node p ≠ none ∧ Hashed p := by
  rw [hashedPaths, List.mem_filter, mem_sortedPaths, decide_eq_true_eq, and_assoc]

/-- Directories with the same files and the same bytes to digest have the same entries
where the digest looks. -/
theorem node_eq_of_digested {t u : Dir} (ht : Plain t) (hu : Plain u) (hsame : SameFiles t u)
    (h : digested t = digested u) {p : Path} (hp : Hashed p) : t.node p = u.node p := by
  obtain ⟨hpaths, hnodes⟩ := chunks_inj ht hu hsame
    (fun q hq => (mem_hashedPaths.mp hq).2.1) (fun q hq => (mem_hashedPaths.mp hq).2.1) h
  by_cases hroot : p = []
  · subst hroot
    rfl
  · by_cases hn : t.node p = none
    · rw [hn]
      by_contra hu'
      have hmem : p ∈ hashedPaths u := mem_hashedPaths.mpr ⟨hroot, Ne.symm hu', hp⟩
      rw [← hpaths] at hmem
      exact (mem_hashedPaths.mp hmem).2.1 hn
    · exact hnodes p (mem_hashedPaths.mpr ⟨hroot, hn, hp⟩)

/-- Only the entries count, not how they are stored. -/
theorem digested_congr {t u : Dir} (h : ∀ p, Hashed p → t.node p = u.node p) :
    digested t = digested u := by
  have hpaths : hashedPaths t = hashedPaths u := by
    refine List.Perm.eq_of_pairwise (fun p q _ _ => byName_antisymm)
      ((byName_sortedPaths t).filter _) ((byName_sortedPaths u).filter _) ?_
    refine (List.perm_ext_iff_of_nodup ((nodup_sortedPaths t).filter _)
      ((nodup_sortedPaths u).filter _)).mpr fun p => ?_
    rw [← hashedPaths, ← hashedPaths, mem_hashedPaths, mem_hashedPaths]
    constructor
    · exact fun ⟨hp, hn, hh⟩ => ⟨hp, h p hh ▸ hn, hh⟩
    · exact fun ⟨hp, hn, hh⟩ => ⟨hp, (h p hh).symm ▸ hn, hh⟩
  rw [digested, digested, hpaths]
  refine List.flatMap_congr fun p hp => ?_
  rw [chunk, chunk, h p (mem_hashedPaths.mp hp).2.2]

/-! ## The digest of a catalog -/

def catalogIgnored (c : FileName) : Bool :=
  c.1 = ".git" || c.1 = "__pycache__" || c.1 = ".DS_Store" || c.1 = ".openlia-catalog.json" ||
    c.hasSuffix ".pyc"

/-- The walk reads the entries of a directory by name. -/
def walkedPaths (t : Dir) : List Path :=
  (t.entries.keys.filter fun p => decide (p ≠ [])).mergeSort fun p q =>
    (compare (p.map (·.1.toList)) (q.map (·.1.toList))).isLE

def catalogChunk (t : Dir) (p : Path) : Except String Bytes :=
  match t.node p with
  | some (.file (.link _)) | some .symlink =>
      .error ("catalog symlinks are not supported: " ++ relPath p)
  | some (.file (.regular contents)) =>
      .ok (text (relPath p) ++ 0 :: text (toString contents.length) ++ 0 :: contents)
  | some .dir | none => .ok []

def templatesTreeHash (sha256 : Bytes → String) (t : Dir) : Except String String := do
  let chunks ← ((walkedPaths t).filter fun p => !p.any catalogIgnored).mapM (catalogChunk t)
  pure (sha256 chunks.flatten)

end Openlia.Skills

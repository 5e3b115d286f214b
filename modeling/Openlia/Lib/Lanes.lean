import Mathlib.Data.List.Nodup
import Mathlib.Data.List.Perm.Subperm
import Mathlib.Order.Lattice
import Mathlib.Tactic.Common

/-! # Intervals in lanes

Intervals that begin in order are put into the first lane that is free. A lane is free again when
its interval has ended, and when all have ended a new cluster begins. A cluster has as many lanes
as intervals are open at one time.
-/

namespace Openlia.Lib.Lanes

/-! ## The first lane that is free -/

def nextFree (occupied : List Nat) : Nat → Nat → Nat
  | 0, lane => lane
  | fuel + 1, lane => if lane ∈ occupied then nextFree occupied fuel (lane + 1) else lane

theorem nextFree_spec (occupied : List Nat) (fuel lane : Nat)
    (hbefore : ∀ k < lane, k ∈ occupied) (hfuel : occupied.length < lane + fuel) :
    nextFree occupied fuel lane ∉ occupied ∧
      ∀ k < nextFree occupied fuel lane, k ∈ occupied := by
  induction fuel generalizing lane with
  | zero =>
      have hsub : List.range lane ⊆ occupied := fun k hk => hbefore k (List.mem_range.mp hk)
      have hle := (List.nodup_range.subperm hsub).length_le
      rw [List.length_range] at hle
      omega
  | succ fuel ih =>
      unfold nextFree
      split
      · rename_i hmem
        apply ih
        · intro k hk
          by_cases heq : k = lane
          · rwa [heq]
          · exact hbefore k (by omega)
        · omega
      · rename_i hfree
        exact ⟨hfree, hbefore⟩

/-! ## Clusters -/

variable {A T : Type}

structure Block (A T : Type) where
  item : A
  top : T
  bottom : T
  column : Nat
  columns : Nat

/-- The same interval before it was put into a lane. -/
def Block.span (a : Block A T) : A × T × T := (a.item, a.top, a.bottom)

/-- One more than the last lane. -/
def width (cluster : List (Block A T)) : Nat :=
  (cluster.map fun a => a.column + 1).foldl max 1

def finish (cluster : List (Block A T)) : List (Block A T) :=
  cluster.map fun a => { a with columns := width cluster }

theorem le_width (cluster : List (Block A T)) : 1 ≤ width cluster ∧
    ∀ a ∈ cluster, a.column < width cluster := by
  have hfold : ∀ (l : List Nat) (n : Nat), n ≤ l.foldl max n ∧ ∀ m ∈ l, m ≤ l.foldl max n := by
    intro l
    induction l with
    | nil => simp
    | cons k l ih =>
        intro n
        obtain ⟨hn, hl⟩ := ih (max n k)
        rw [List.foldl_cons, List.forall_mem_cons]
        exact ⟨(le_max_left n k).trans hn, (le_max_right n k).trans hn, hl⟩
  obtain ⟨hone, hall⟩ := hfold (cluster.map fun a => a.column + 1) 1
  exact ⟨hone, fun a ha => hall _ (List.mem_map_of_mem ha)⟩

theorem width_attained (cluster : List (Block A T)) :
    width cluster = 1 ∨ ∃ a ∈ cluster, width cluster = a.column + 1 := by
  have hfold : ∀ (l : List Nat) (n : Nat), l.foldl max n = n ∨ l.foldl max n ∈ l := by
    intro l
    induction l with
    | nil => simp
    | cons k l ih =>
        intro n
        rcases ih (max n k) with h | h
        · rw [List.foldl_cons, h]
          rcases Nat.le_total k n with hle | hle
          · exact .inl (Nat.max_eq_left hle)
          · rw [Nat.max_eq_right hle]
            exact .inr List.mem_cons_self
        · exact .inr (List.mem_cons_of_mem k h)
  rcases hfold (cluster.map fun a => a.column + 1) 1 with h | h
  · exact .inl h
  · obtain ⟨a, ha, heq⟩ := List.mem_map.mp h
    exact .inr ⟨a, ha, heq.symm⟩

variable [LinearOrder T]

def Block.Overlap (a b : Block A T) : Prop := a.top < b.bottom ∧ b.top < a.bottom

def Block.openAt (m : T) (a : Block A T) : Bool := a.top ≤ m && m < a.bottom

/-- Into the first lane that no open block of the cluster has. -/
def place (cluster : List (Block A T)) (b : Block A T) : Block A T :=
  let occupied := (cluster.filter fun a => b.top < a.bottom).map Block.column
  { b with column := nextFree occupied (occupied.length + 1) 0 }

/-- The clusters of blocks that begin in order; `stop` is the end of the last cluster so far. -/
def clusters (cluster : List (Block A T)) (stop : T) : List (Block A T) → List (List (Block A T))
  | [] => [finish cluster]
  | b :: rest =>
      if stop ≤ b.top then finish cluster :: clusters [place [] b] b.bottom rest
      else clusters (cluster ++ [place cluster b]) (max stop b.bottom) rest

/-! ## One cluster -/

/-- No two that overlap are in one lane, and the lanes before that of a block are open where it
begins. -/
structure Cluster (cluster : List (Block A T)) : Prop where
  apart : cluster.Pairwise fun a b => a.Overlap b → a.column ≠ b.column
  deep : ∀ a ∈ cluster, a.column + 1 ≤ cluster.countP (Block.openAt a.top)

theorem Cluster.nil : Cluster ([] : List (Block A T)) :=
  ⟨List.Pairwise.nil, fun _ h => absurd h List.not_mem_nil⟩

theorem place_top (cluster : List (Block A T)) (b : Block A T) : (place cluster b).top = b.top :=
  rfl

theorem Cluster.place {cluster : List (Block A T)} (h : Cluster cluster) {b : Block A T}
    (hb : b.top < b.bottom) (htop : ∀ a ∈ cluster, a.top ≤ b.top) :
    Cluster (cluster ++ [place cluster b]) := by
  have hfree := nextFree_spec ((cluster.filter fun a => b.top < a.bottom).map Block.column)
    (((cluster.filter fun a => b.top < a.bottom).map Block.column).length + 1) 0
    (fun k hk => absurd hk (Nat.not_lt_zero k)) (by omega)
  constructor
  · rw [List.pairwise_append]
    refine ⟨h.apart, List.pairwise_singleton _ _, ?_⟩
    intro a ha c hc hoverlap heq
    rw [List.mem_singleton] at hc
    subst hc
    apply hfree.1
    rw [List.mem_map]
    exact ⟨a, List.mem_filter.mpr ⟨ha, decide_eq_true hoverlap.2⟩, heq⟩
  · intro a ha
    rw [List.countP_append]
    rcases List.mem_append.mp ha with ha | ha
    · exact (h.deep a ha).trans (Nat.le_add_right _ _)
    · rw [List.mem_singleton] at ha
      subst ha
      have hsub : List.range (Lanes.place cluster b).column ⊆
          (cluster.filter fun a => b.top < a.bottom).map Block.column :=
        fun k hk => hfree.2 k (List.mem_range.mp hk)
      have hle := (List.nodup_range.subperm hsub).length_le
      rw [List.length_range, List.length_map, ← List.countP_eq_length_filter] at hle
      have hopen : cluster.countP (fun a => b.top < a.bottom) ≤
          cluster.countP (Block.openAt b.top) := by
        apply List.countP_mono_left
        intro a ha hbottom
        simp only [Block.openAt, Bool.and_eq_true, decide_eq_true_eq] at *
        exact ⟨htop a ha, hbottom⟩
      have hself : [Lanes.place cluster b].countP (Block.openAt b.top) = 1 := by
        simp [Block.openAt, Lanes.place, hb]
      rw [place_top, hself]
      omega

/-- A cluster in its lanes: as many as are open at one time, and never more are. -/
structure Finished (cluster : List (Block A T)) (lanes : Nat) : Prop where
  within : ∀ a ∈ cluster, a.columns = lanes ∧ a.column < lanes
  apart : cluster.Pairwise fun a b => a.Overlap b → a.column ≠ b.column
  attained : cluster ≠ [] → ∃ m, cluster.countP (Block.openAt m) = lanes
  bounded : ∀ m, cluster.countP (Block.openAt m) ≤ lanes

theorem Cluster.bounded {cluster : List (Block A T)} (h : Cluster cluster) (m : T) :
    cluster.countP (Block.openAt m) ≤ width cluster := by
  have hnodup : ((cluster.filter (Block.openAt m)).map Block.column).Nodup := by
    rw [List.Nodup, List.pairwise_map, List.pairwise_filter]
    apply h.apart.imp
    intro a b hab ha hb
    simp only [Block.openAt, Bool.and_eq_true, decide_eq_true_eq] at ha hb
    exact hab ⟨ha.1.trans_lt hb.2, hb.1.trans_lt ha.2⟩
  have hsub : (cluster.filter (Block.openAt m)).map Block.column ⊆ List.range (width cluster) := by
    intro k hk
    obtain ⟨a, ha, rfl⟩ := List.mem_map.mp hk
    exact List.mem_range.mpr ((le_width cluster).2 a (List.mem_filter.mp ha).1)
  have hle := (hnodup.subperm hsub).length_le
  rwa [List.length_map, List.length_range, ← List.countP_eq_length_filter] at hle

/-- No other way to put the blocks into lanes needs fewer. -/
theorem Finished.fewest {cluster : List (Block A T)} {lanes n : Nat} (h : Finished cluster lanes)
    (hne : cluster ≠ []) {other : List (Block A T × Nat)} (hother : other.map Prod.fst = cluster)
    (hapart : other.Pairwise fun p q => p.1.Overlap q.1 → p.2 ≠ q.2) (hn : ∀ p ∈ other, p.2 < n) :
    lanes ≤ n := by
  obtain ⟨m, hm⟩ := h.attained hne
  rw [← hother, List.countP_map, List.countP_eq_length_filter] at hm
  have hnodup : ((other.filter (Block.openAt m ∘ Prod.fst)).map Prod.snd).Nodup := by
    rw [List.Nodup, List.pairwise_map, List.pairwise_filter]
    apply hapart.imp
    intro p q hpq hp hq
    simp only [Function.comp_apply, Block.openAt, Bool.and_eq_true, decide_eq_true_eq] at hp hq
    exact hpq ⟨hp.1.trans_lt hq.2, hq.1.trans_lt hp.2⟩
  have hsub : (other.filter (Block.openAt m ∘ Prod.fst)).map Prod.snd ⊆ List.range n := by
    intro k hk
    obtain ⟨p, hp, rfl⟩ := List.mem_map.mp hk
    exact List.mem_range.mpr (hn p (List.mem_filter.mp hp).1)
  have hle := (hnodup.subperm hsub).length_le
  rwa [List.length_map, List.length_range, hm] at hle

theorem Cluster.finish {cluster : List (Block A T)} (h : Cluster cluster) :
    Finished (finish cluster) (width cluster) := by
  have hcount : ∀ m, (Lanes.finish cluster).countP (Block.openAt m) =
      cluster.countP (Block.openAt m) := fun m => List.countP_map
  constructor
  · intro a ha
    obtain ⟨c, hc, rfl⟩ := List.mem_map.mp ha
    exact ⟨rfl, (le_width cluster).2 c hc⟩
  · exact List.pairwise_map.mpr h.apart
  · intro hne
    have hdeep : ∃ a ∈ cluster, width cluster ≤ a.column + 1 := by
      rcases width_attained cluster with hone | ⟨a, ha, heq⟩
      · obtain ⟨a, ha⟩ := List.exists_mem_of_ne_nil cluster (mt List.map_eq_nil_iff.mpr hne)
        exact ⟨a, ha, by omega⟩
      · exact ⟨a, ha, heq.le⟩
    obtain ⟨a, ha, hle⟩ := hdeep
    refine ⟨a.top, ?_⟩
    rw [hcount]
    exact (h.bounded a.top).antisymm (hle.trans (h.deep a ha))
  · intro m
    rw [hcount]
    exact h.bounded m

/-! ## All clusters -/

/-- What was placed before ends where the next cluster begins. -/
theorem clusters_spec {cluster blocks : List (Block A T)} {stop : T} (h : Cluster cluster)
    (hspan : ∀ b ∈ blocks, b.top < b.bottom) (hsorted : blocks.Pairwise fun a b => a.top ≤ b.top)
    (htop : ∀ a ∈ cluster, ∀ b ∈ blocks, a.top ≤ b.top) (hstop : ∀ a ∈ cluster, a.bottom ≤ stop) :
    (clusters cluster stop blocks).flatten.map Block.span =
        cluster.map Block.span ++ blocks.map Block.span ∧
      (∀ g ∈ clusters cluster stop blocks, ∃ lanes, Finished g lanes) ∧
      (clusters cluster stop blocks).Pairwise (fun g g' => ∀ a ∈ g, ∀ b ∈ g', a.bottom ≤ b.top) := by
  induction blocks generalizing cluster stop with
  | nil =>
      refine ⟨?_, ?_, List.pairwise_singleton _ _⟩
      · simp [clusters, finish, Block.span]
      · simpa [clusters] using ⟨_, h.finish⟩
  | cons b blocks ih =>
      obtain ⟨hfirst, hrest⟩ := List.pairwise_cons.mp hsorted
      have hspan' := (List.forall_mem_cons.mp hspan).2
      have hb := (List.forall_mem_cons.mp hspan).1
      unfold clusters
      split
      · rename_i hend
        have hone : Cluster [place [] b] := Cluster.nil.place hb fun _ h => absurd h List.not_mem_nil
        have hends : ∀ a ∈ [place [] b], a.bottom ≤ b.bottom := by simp [place]
        obtain ⟨hflat, hfinished, hapart⟩ := ih hone hspan' hrest
          (by simpa [place] using hfirst) hends
        refine ⟨?_, ?_, ?_⟩
        · rw [List.flatten_cons, List.map_append, hflat]
          simp [finish, place, Block.span]
        · exact List.forall_mem_cons.mpr ⟨⟨_, h.finish⟩, hfinished⟩
        · refine List.pairwise_cons.mpr ⟨?_, hapart⟩
          intro g hg a ha c hc
          obtain ⟨a', ha', rfl⟩ := List.mem_map.mp ha
          have hmem : c.span ∈ (clusters [place [] b] b.bottom blocks).flatten.map Block.span :=
            List.mem_map_of_mem (List.mem_flatten.mpr ⟨g, hg, hc⟩)
          have hlater : b.top ≤ c.top := by
            rw [hflat, ← List.map_append, List.mem_map] at hmem
            obtain ⟨d, hd, heq⟩ := hmem
            have htops : d.top = c.top := congrArg (fun s => s.2.1) heq
            rw [← htops]
            rcases List.mem_append.mp hd with hd | hd
            · rw [List.mem_singleton.mp hd]
              rfl
            · exact hfirst d hd
          exact ((hstop a' ha').trans hend).trans hlater
      · rename_i hopen
        have hafter : ∀ a ∈ cluster ++ [place cluster b], ∀ c ∈ blocks, a.top ≤ c.top := by
          intro a ha c hc
          rcases List.mem_append.mp ha with ha | ha
          · exact htop a ha c (List.mem_cons_of_mem b hc)
          · rw [List.mem_singleton.mp ha]
            exact hfirst c hc
        have hends : ∀ a ∈ cluster ++ [place cluster b], a.bottom ≤ max stop b.bottom := by
          intro a ha
          rcases List.mem_append.mp ha with ha | ha
          · exact (hstop a ha).trans (le_max_left _ _)
          · rw [List.mem_singleton.mp ha]
            exact le_max_right _ _
        obtain ⟨hflat, hrest'⟩ := ih (h.place hb fun a ha => htop a ha b List.mem_cons_self) hspan'
          hrest hafter hends
        refine ⟨?_, hrest'⟩
        rw [hflat]
        simp [place, Block.span]

end Openlia.Lib.Lanes

import Mathlib.Data.List.Perm.Basic
import Openlia.Finance.FlowTotals

/-! # Flows keep the money

What enters a group leaves it, the links of an account add up to its postings, and no link is
empty. In another order of the transactions or postings the graph is the same but for the numbers
of the groups.
-/

namespace Openlia.Finance

open Lib

/-! ## The graph -/

def Link.value (l : Link) : ℚ := (number l.exact).getD 0

/-- The total of the links into a node. -/
def inflow (g : SankeyData) (id : NodeId) : ℚ :=
  ((g.links.filter fun l => l.target = id).map Link.value).sum

def outflow (g : SankeyData) (id : NodeId) : ℚ :=
  ((g.links.filter fun l => l.source = id).map Link.value).sum

def Supported (ts : List Transaction) : Prop :=
  ∀ t ∈ ts, ∀ p ∈ t.tpostings,
    p.ptype ∈ ["RegularPosting", "VirtualPosting", "BalancedVirtualPosting"]

section Graph

variable {commodity : Text} {ts ts' : List Transaction} {g g' : SankeyData} {sigs sigs' : List Text}
  {st : FlowState} {q : ℚ}

theorem charted_eq_ok {edges : List (Text × Link)} {links : List Link} :
    (edges.mapM fun e => do
      chartNumber e.2.exact
      .ok e.2 : Except Failure (List Link)) = .ok links ↔
      (∀ e ∈ edges, chartNumber e.2.exact = .ok ()) ∧ links = edges.map (·.2) := by
  induction edges generalizing links with
  | nil =>
      constructor
      · intro h
        cases h
        exact ⟨by simp, rfl⟩
      · rintro ⟨-, rfl⟩
        rfl
  | cons e edges ih =>
      rw [List.mapM_cons, List.forall_mem_cons]
      constructor
      · intro h
        obtain ⟨l, hl, h⟩ := except_bind_ok h
        obtain ⟨u, hu, hl⟩ := except_bind_ok hl
        obtain ⟨rest, hrest, h⟩ := except_bind_ok h
        cases hl
        cases h
        obtain ⟨hedges, rfl⟩ := ih.mp hrest
        exact ⟨⟨hu, hedges⟩, rfl⟩
      · rintro ⟨⟨he, hedges⟩, rfl⟩
        rw [ih.mpr ⟨hedges, rfl⟩, he]
        rfl

/-- When a graph is drawn, and which one. -/
theorem flows_eq_ok : flows ts commodity = .ok g ↔ Supported ts ∧ ts.length ≤ 300 ∧
    ∃ st, ts.foldlM (addTransaction commodity) {} = .ok st ∧ st.nodes.length ≤ 200 ∧
      st.edges.length ≤ 400 ∧ (∀ e ∈ st.edges, chartNumber e.2.exact = .ok ()) ∧
      g = ⟨st.nodes.map (·.2), st.edges.map (·.2)⟩ := by
  have hsupported : (ts.any fun t => t.tpostings.any fun p =>
      p.ptype ∉ ["RegularPosting", "VirtualPosting", "BalancedVirtualPosting"]) = true ↔
        ¬ Supported ts := by
    simp only [Supported, List.any_eq_true, decide_eq_true_eq, not_forall, exists_prop]
  constructor
  · intro h
    obtain ⟨htypes, h⟩ := guard_ok h
    obtain ⟨hlength, h⟩ := guard_ok h
    obtain ⟨st, hrun, h⟩ := except_bind_ok h
    obtain ⟨hsize, h⟩ := guard_ok h
    obtain ⟨links, hlinks, h⟩ := except_bind_ok h
    obtain ⟨hcharted, rfl⟩ := charted_eq_ok.mp (orThrow_eq_ok.mp hlinks)
    cases h
    rw [not_or, Nat.not_lt, Nat.not_lt] at hsize
    exact ⟨not_not.mp fun hn => htypes (hsupported.mpr hn), Nat.not_lt.mp hlength, st, hrun,
      hsize.1, hsize.2, hcharted, rfl⟩
  · rintro ⟨htypes, hlength, st, hrun, hnodes, hedges, hcharted, rfl⟩
    rw [flows, if_neg fun h => hsupported.mp h htypes, if_neg (Nat.not_lt.mpr hlength), hrun,
      ok_bind, if_neg (not_or.mpr ⟨Nat.not_lt.mpr hnodes, Nat.not_lt.mpr hedges⟩),
      orThrow_eq_ok.mpr (charted_eq_ok.mpr ⟨hcharted, rfl⟩)]
    rfl

/-- A link on the chart is less than 2^53. -/
theorem lt_of_chartNumber (hq : IsDecimal q) (h : chartNumber (written q) = .ok ()) :
    q < 2 ^ 53 := by
  have hnumber := number_written hq
  unfold chartNumber at h
  rw [number] at hnumber
  cases hparsed : parsed (written q) with
  | none =>
      rw [hparsed] at h
      cases h
  | some d =>
      rw [hparsed] at h hnumber
      obtain ⟨hsmall, -⟩ := guard_ok h
      have hvalue : d.value = q := Option.some.inj hnumber
      have hpow : (0 : ℚ) < 10 ^ d.scale := by positivity
      have hnat : 2 * d.coefficient.natAbs < (2 ^ 54 - 1) * 10 ^ d.scale := Nat.lt_of_not_le hsmall
      norm_num at hnat
      have hrat : 2 * (d.coefficient.natAbs : ℚ) < 18014398509481983 * 10 ^ d.scale := by
        exact_mod_cast hnat
      have hle : (d.coefficient : ℚ) ≤ d.coefficient.natAbs := by
        rw [← Int.cast_natCast]
        exact Int.cast_le.mpr Int.le_natAbs
      rw [← hvalue, Decimal.value, div_lt_iff₀ hpow]
      linarith

/-! ## What is drawn -/

/-- The hubs and the accounts, each once, with their labels. -/
def NodesOf (sigs : List Text) (items : List (Flow × ℚ)) (nodes : List Node) : Prop :=
  nodes.Nodup ∧ ∀ node, node ∈ nodes ↔ node.label = node.id.label ∧ Known sigs items node.id

/-- A node is told by its id. -/
theorem NodesOf.eq_of_id {items : List (Flow × ℚ)} {nodes : List Node} {a b : Node}
    (h : NodesOf sigs items nodes) (ha : a ∈ nodes) (hb : b ∈ nodes) (hid : a.id = b.id) : a = b := by
  have hlabel := ((h.2 a).mp ha).1
  have hlabel' := ((h.2 b).mp hb).1
  obtain ⟨id, label⟩ := a
  obtain ⟨id', label'⟩ := b
  dsimp only at hid hlabel hlabel'
  rw [hlabel, hlabel', hid]

/-- The graph of the totals, with the hubs in the order of the signatures. -/
structure Drawn (commodity : Text) (ts : List Transaction) (sigs : List Text) (g : SankeyData) :
    Prop where
  supported : Supported ts
  length_le : ts.length ≤ 300
  drawable : ∀ t ∈ ts, Drawable commodity t
  mem_sigs : ∀ s, s ∈ sigs ↔ ∃ i ∈ allMoves commodity ts, i.1.group = s
  links : g.links = (tally (allMoves commodity ts)).map fun e => e.1.link sigs e.2
  nodes : NodesOf sigs (allMoves commodity ts) g.nodes
  nodes_le : g.nodes.length ≤ 200
  links_le : g.links.length ≤ 400
  charted : ∀ e ∈ tally (allMoves commodity ts), chartNumber (written e.2) = .ok ()

theorem Labelled.nodesOf {items : List (Flow × ℚ)} {nodes : List (Text × Node)}
    (h : Labelled (Known sigs items) nodes) : NodesOf sigs items (nodes.map (·.2)) := by
  have hkey : nodes.map (·.1) = (nodes.map (·.2)).map fun node => node.id.text := by
    rw [List.map_map]
    exact List.map_congr_left fun e he => congrArg Prod.fst (h.labelled e he)
  refine ⟨List.Nodup.of_map (fun node => node.id.text) (hkey ▸ h.nodup), fun node => ?_⟩
  have hlabel : ∀ {node}, node ∈ nodes.map (·.2) → node.label = node.id.label := by
    intro node hnode
    obtain ⟨e, he, rfl⟩ := List.mem_map.mp hnode
    rw [h.labelled e he]
  rw [← h.mem_iff, hkey]
  constructor
  · exact fun hnode => ⟨hlabel hnode, List.mem_map_of_mem hnode⟩
  · rintro ⟨hnode, hmem⟩
    obtain ⟨node', hmem', htext⟩ := List.mem_map.mp hmem
    have hid : node'.id = node.id := NodeId.text_injective htext
    have heq : node' = node := by
      obtain ⟨id, label⟩ := node
      obtain ⟨id', label'⟩ := node'
      have hlabel' := hlabel hmem'
      dsimp only at hid hnode hlabel'
      rw [hnode, hlabel', hid]
    rwa [← heq]

theorem exists_drawn (h : flows ts commodity = .ok g) : ∃ sigs, Drawn commodity ts sigs g := by
  obtain ⟨hsupported, hlength, st, hrun, hnodes, hedges, hcharted, rfl⟩ := flows_eq_ok.mp h
  obtain ⟨hdrawable, sigs, hst, hsigs⟩ := Represents.initial.run hrun
  rw [List.nil_append] at hst
  exact ⟨sigs, {
    supported := hsupported
    length_le := hlength
    drawable := hdrawable
    mem_sigs := fun s => by rw [hsigs]; simp
    links := by simp only [hst.edges, List.map_map]; rfl
    nodes := hst.nodes.nodesOf
    nodes_le := by rwa [List.length_map]
    links_le := by rwa [List.length_map]
    charted := fun e he => by
      rw [hst.edges, List.forall_mem_map] at hcharted
      exact hcharted e he }⟩

/-! ## Totals of the links -/

theorem isDecimal_of_tally {e : Flow × ℚ} (he : e ∈ tally (allMoves commodity ts)) :
    IsDecimal e.2 := by
  rw [(mem_tally.mp he).2]
  refine isDecimal_sumAt fun i hi => ?_
  obtain ⟨t, -, hi⟩ := List.mem_flatMap.mp hi
  obtain ⟨a, ha, hi⟩ := List.mem_flatMap.mp hi
  rw [(mem_moveOf.mp hi).2]
  exact (isDecimal_of_mem ha).abs

theorem value_link {e : Flow × ℚ} (he : e ∈ tally (allMoves commodity ts)) :
    (e.1.link sigs e.2).value = e.2 := by
  show (number (written e.2)).getD 0 = e.2
  rw [number_written (isDecimal_of_tally he), Option.getD_some]

theorem allMoves_pos {i : Flow × ℚ} (hi : i ∈ allMoves commodity ts) : 0 < i.2 := by
  obtain ⟨t, -, hi⟩ := List.mem_flatMap.mp hi
  exact moves_pos hi

/-- A flow that has postings has a total above zero. -/
theorem tally_pos {e : Flow × ℚ} (he : e ∈ tally (allMoves commodity ts)) : 0 < e.2 := by
  obtain ⟨hkey, hvalue⟩ := mem_tally.mp he
  obtain ⟨i, hi, hik⟩ := List.mem_map.mp hkey
  rw [hvalue, sumAt]
  refine List.sum_pos _ ?_ ?_
  · intro q hq
    obtain ⟨j, hj, rfl⟩ := List.mem_map.mp hq
    exact allMoves_pos (List.mem_of_mem_filter hj)
  · intro hnil
    have hmem : i.2 ∈ (((allMoves commodity ts).filter fun i => decide (i.1 = e.1)).map (·.2)) :=
      List.mem_map_of_mem (List.mem_filter.mpr ⟨hi, by simpa using hik⟩)
    rw [hnil] at hmem
    cases hmem

section Drawn

variable (hd : Drawn commodity ts sigs g)
include hd

theorem Drawn.sum_links (p : Link → Prop) [DecidablePred p] (f : Flow → Prop) [DecidablePred f]
    (hp : ∀ x q, p (Flow.link sigs x q) ↔ f x) :
    ((g.links.filter fun l => p l).map Link.value).sum = sumAt f (allMoves commodity ts) := by
  rw [← sumAt_tally, sumAt, hd.links, List.filter_map, List.map_map]
  have hfilter : (tally (allMoves commodity ts)).filter
      ((fun l => decide (p l)) ∘ fun e => e.1.link sigs e.2) =
        (tally (allMoves commodity ts)).filter fun e => f e.1 :=
    List.filter_congr fun e _ => decide_eq_decide.mpr (hp e.1 e.2)
  rw [hfilter]
  refine congrArg List.sum (List.map_congr_left fun e he => ?_)
  exact value_link (List.mem_of_mem_filter he)

theorem Drawn.inflow_eq (id : NodeId) :
    inflow g id = sumAt (fun f => f.target sigs = id) (allMoves commodity ts) :=
  hd.sum_links (fun l => l.target = id) _ fun _ _ => Iff.rfl

theorem Drawn.outflow_eq (id : NodeId) :
    outflow g id = sumAt (fun f => f.source sigs = id) (allMoves commodity ts) :=
  hd.sum_links (fun l => l.source = id) _ fun _ _ => Iff.rfl

theorem Drawn.link_pos {l : Link} (hl : l ∈ g.links) : ∃ q : ℚ, 0 < q ∧ number l.exact = some q := by
  rw [hd.links] at hl
  obtain ⟨e, he, rfl⟩ := List.mem_map.mp hl
  exact ⟨e.2, tally_pos he, number_written (isDecimal_of_tally he)⟩

end Drawn

/-- What one transaction adds at some flows. -/
theorem sumAt_moveOf (p : Flow → Prop) [DecidablePred p] (s : Text) (es : List (Text × ℚ)) :
    sumAt p (es.flatMap (moveOf s)) =
      ((es.filter fun e => e.2 ≠ 0 ∧ p ⟨s, decide (e.2 < 0), e.1⟩).map fun e => |e.2|).sum := by
  induction es with
  | nil => rfl
  | cons e es ih =>
      rw [List.flatMap_cons, sumAt_append, ih, moveOf, List.filter_cons]
      by_cases hzero : e.2 = 0
      · simp [hzero, sumAt]
      · by_cases hp : p ⟨s, decide (e.2 < 0), e.1⟩ <;> simp [hzero, hp, sumAt]

/-- Debits less credits are the total. -/
theorem sumAt_sides (s : Text) (es : List (Text × ℚ)) :
    sumAt (fun f => f.credit = false) (es.flatMap (moveOf s)) -
      sumAt (fun f => f.credit = true) (es.flatMap (moveOf s)) = (es.map (·.2)).sum := by
  induction es with
  | nil => exact sub_self 0
  | cons e es ih =>
      rw [List.flatMap_cons, sumAt_append, sumAt_append, List.map_cons, List.sum_cons, ← ih, moveOf]
      rcases lt_trichotomy e.2 0 with hlt | heq | hgt
      · simp only [hlt.ne, if_false, hlt, sumAt_cons, decide_true, abs_of_neg hlt]
        simp [sumAt]
        ring
      · simp only [heq, if_true, sumAt, List.filter_nil, List.map_nil, List.sum_nil, zero_add]
      · simp only [hgt.ne', if_false, not_lt.mpr hgt.le, sumAt_cons, decide_false,
          abs_of_pos hgt]
        simp [sumAt]
        ring

/-- What a balanced transaction brings to a hub it takes from it. -/
theorem moves_balanced {t : Transaction} (ht : Drawable commodity t) (sigs : List Text) (n : Nat) :
    sumAt (fun f => f.target sigs = .transaction n) (moves commodity t) =
      sumAt (fun f => f.source sigs = .transaction n) (moves commodity t) := by
  have hnode : ∀ f : Flow, f.node ≠ .transaction n := by
    intro f
    unfold Flow.node
    split <;> exact nofun
  by_cases hhub : hubOf sigs (groupOf commodity t) = .transaction n
  · have htarget : sumAt (fun f => f.target sigs = .transaction n) (moves commodity t) =
        sumAt (fun f => f.credit = true) (moves commodity t) := by
      refine sumAt_congr _ fun i hi => ?_
      rw [Flow.target, moves_group hi, hhub]
      cases i.1.credit <;> simp [hnode]
    have hsource : sumAt (fun f => f.source sigs = .transaction n) (moves commodity t) =
        sumAt (fun f => f.credit = false) (moves commodity t) := by
      refine sumAt_congr _ fun i hi => ?_
      rw [Flow.source, moves_group hi, hhub]
      cases i.1.credit <;> simp [hnode]
    have hsides := sumAt_sides (groupOf commodity t) (amountsOf commodity t)
    rw [ht.2] at hsides
    rw [htarget, hsource]
    exact (sub_eq_zero.mp hsides).symm
  · rw [sumAt_eq_zero, sumAt_eq_zero]
    · intro i hi
      rw [Flow.source, moves_group hi]
      split
      · exact hnode i.1
      · exact hhub
    · intro i hi
      rw [Flow.target, moves_group hi]
      split
      · exact hhub
      · exact hnode i.1

theorem Drawn.conserves (hd : Drawn commodity ts sigs g) (n : Nat) :
    inflow g (.transaction n) = outflow g (.transaction n) := by
  rw [hd.inflow_eq, hd.outflow_eq]
  have hdrawable := hd.drawable
  clear hd
  induction ts with
  | nil => rfl
  | cons t ts ih =>
      obtain ⟨ht, hts⟩ := List.forall_mem_cons.mp hdrawable
      rw [allMoves, List.flatMap_cons, sumAt_append, sumAt_append, moves_balanced ht sigs n]
      exact congrArg _ (ih hts)

/-! ## Accounts -/

def allAmounts (commodity : Text) (ts : List Transaction) : List (Text × ℚ) :=
  ts.flatMap (amountsOf commodity)

/-- The total of the negative postings of an account. -/
def negativeTotal (commodity account : Text) (ts : List Transaction) : ℚ :=
  (((allAmounts commodity ts).filter fun e => e.1 = account ∧ e.2 < 0).map (·.2)).sum

def positiveTotal (commodity account : Text) (ts : List Transaction) : ℚ :=
  (((allAmounts commodity ts).filter fun e => e.1 = account ∧ 0 < e.2).map (·.2)).sum

theorem sumAt_side (credit : Bool) (account : Text) :
    sumAt (fun f => f.credit = credit ∧ f.account = account) (allMoves commodity ts) =
      (((allAmounts commodity ts).filter fun e =>
        e.2 ≠ 0 ∧ decide (e.2 < 0) = credit ∧ e.1 = account).map fun e => |e.2|).sum := by
  induction ts with
  | nil => rfl
  | cons t ts ih =>
      rw [allMoves, allAmounts, List.flatMap_cons, List.flatMap_cons, sumAt_append,
        List.filter_append, List.map_append, List.sum_append, moves, sumAt_moveOf]
      exact congrArg _ ih

theorem abs_sum_nonpos {values : List ℚ} (h : ∀ q ∈ values, q ≤ 0) :
    values.sum ≤ 0 ∧ (values.map fun q => |q|).sum = |values.sum| := by
  induction values with
  | nil => simp
  | cons q values ih =>
      obtain ⟨hq, hvalues⟩ := List.forall_mem_cons.mp h
      obtain ⟨hsum, heq⟩ := ih hvalues
      have hle : q + values.sum ≤ 0 := by linarith
      rw [List.map_cons, List.sum_cons, List.sum_cons, heq, abs_of_nonpos hq, abs_of_nonpos hsum,
        abs_of_nonpos hle]
      exact ⟨hle, by ring⟩

theorem abs_sum_nonneg {values : List ℚ} (h : ∀ q ∈ values, 0 ≤ q) :
    (values.map fun q => |q|).sum = |values.sum| := by
  have hsame : values.map (fun q => |q|) = values :=
    (List.map_congr_left fun q hq => abs_of_nonneg (h q hq)).trans (List.map_id' _)
  rw [hsame, abs_of_nonneg (List.sum_nonneg h)]

theorem Drawn.credit (hd : Drawn commodity ts sigs g) (account : Text) :
    outflow g (.credit account) = |negativeTotal commodity account ts| := by
  have hsource : ∀ f : Flow, f.source sigs = .credit account ↔
      f.credit = true ∧ f.account = account := by
    intro f
    rw [Flow.source, Flow.node]
    cases f.credit <;> simp [hubOf]
  rw [hd.outflow_eq, sumAt_congr (q := fun f => f.credit = true ∧ f.account = account) _
    fun i _ => hsource i.1, sumAt_side, negativeTotal, ← (abs_sum_nonpos ?_).2, List.map_map]
  · congr 2
    refine List.filter_congr fun e _ => decide_eq_decide.mpr ?_
    rw [decide_eq_true_eq]
    exact ⟨fun h => ⟨h.2.2, h.2.1⟩, fun h => ⟨h.2.ne, h.2, h.1⟩⟩
  · intro q hq
    obtain ⟨e, he, rfl⟩ := List.mem_map.mp hq
    exact (of_decide_eq_true (List.mem_filter.mp he).2).2.le

theorem Drawn.debit (hd : Drawn commodity ts sigs g) (account : Text) :
    inflow g (.debit account) = |positiveTotal commodity account ts| := by
  have htarget : ∀ f : Flow, f.target sigs = .debit account ↔
      f.credit = false ∧ f.account = account := by
    intro f
    rw [Flow.target, Flow.node]
    cases f.credit <;> simp [hubOf]
  rw [hd.inflow_eq, sumAt_congr (q := fun f => f.credit = false ∧ f.account = account) _
    fun i _ => htarget i.1, sumAt_side, positiveTotal, ← abs_sum_nonneg ?_, List.map_map]
  · congr 2
    refine List.filter_congr fun e _ => decide_eq_decide.mpr ?_
    rw [decide_eq_false_iff_not, not_lt]
    exact ⟨fun h => ⟨h.2.2, lt_of_le_of_ne h.2.1 (Ne.symm h.1)⟩, fun h => ⟨h.2.ne', h.2.le, h.1⟩⟩
  · intro q hq
    obtain ⟨e, he, rfl⟩ := List.mem_map.mp hq
    exact (of_decide_eq_true (List.mem_filter.mp he).2).2.le

/-! ## Other orders -/

/-- The same transactions in another order, each with its postings in another order. -/
def Reordered (ts ts' : List Transaction) : Prop :=
  ∃ us, ts.Perm us ∧ List.Forall₂ (fun t u : Transaction => t.tpostings.Perm u.tpostings) us ts'

theorem signature_perm {entries entries' : List Entry} (h : entries.Perm entries') :
    signature entries = signature entries' := by
  have : Std.Total itemLe := ⟨fun _ _ => List.le_total _ _⟩
  have : IsTrans Text itemLe := ⟨fun _ _ _ h h' => List.le_trans h h'⟩
  have hinj : Function.Injective fun s : Text => s.flatMap Browser.codeUnits := by
    intro s s' heq
    have hutf : Browser.utf16 (String.ofList s) = Browser.utf16 (String.ofList s') := by
      simpa [Browser.utf16] using heq
    exact String.ofList_injective (Browser.utf16_injective hutf)
  have hperm := (((h.filter fun e => e.exact ≠ ['0']).map signatureItem).dedup)
  rw [signature, signature]
  refine congrArg _ (List.Perm.eq_of_pairwise (fun _ _ _ _ hle hge => hinj (List.le_antisymm hle hge))
    (List.pairwise_insertionSort itemLe _) (List.pairwise_insertionSort itemLe _) ?_)
  exact ((List.perm_insertionSort itemLe _).trans hperm).trans
    (List.perm_insertionSort itemLe _).symm

theorem regularPostings_perm {t u : Transaction} (h : t.tpostings.Perm u.tpostings) :
    (regularPostings commodity t).Perm (regularPostings commodity u) :=
  (h.filter _).flatMap_right _

theorem moves_perm {t u : Transaction} (h : t.tpostings.Perm u.tpostings) :
    (moves commodity t).Perm (moves commodity u) := by
  have hgroup : groupOf commodity t = groupOf commodity u :=
    signature_perm ((regularPostings_perm h).map _)
  rw [moves, moves, hgroup]
  exact ((regularPostings_perm h).map _).flatMap_right _

theorem Drawable.perm {t u : Transaction} (ht : Drawable commodity t)
    (h : t.tpostings.Perm u.tpostings) : Drawable commodity u := by
  refine ⟨fun p hp => ht.1 p ((regularPostings_perm h).mem_iff.mpr hp), ?_⟩
  rw [← ht.2]
  exact (((regularPostings_perm h).map _).map _).sum_eq.symm

theorem Reordered.allMoves_perm (h : Reordered ts ts') :
    (allMoves commodity ts).Perm (allMoves commodity ts') := by
  obtain ⟨us, hperm, hall⟩ := h
  refine (hperm.flatMap_right _).trans ?_
  clear hperm
  induction hall with
  | nil => exact List.Perm.refl _
  | cons htu _ ih => exact (moves_perm htu).append ih

/-- What holds of every transaction and does not depend on the order of its postings. -/
theorem Reordered.forall {P : Transaction → Prop} (h : Reordered ts ts')
    (hP : ∀ t u : Transaction, t.tpostings.Perm u.tpostings → P t → P u) (hts : ∀ t ∈ ts, P t) :
    ∀ t ∈ ts', P t := by
  obtain ⟨us, hperm, hall⟩ := h
  have hus : ∀ u ∈ us, P u := fun u hu => hts u (hperm.mem_iff.mpr hu)
  clear hperm
  induction hall with
  | nil => simp
  | cons htu _ ih =>
      obtain ⟨hu, hus⟩ := List.forall_mem_cons.mp hus
      exact List.forall_mem_cons.mpr ⟨hP _ _ htu hu, ih hus⟩

theorem Drawn.small (hd : Drawn commodity ts sigs g) : Small (allMoves commodity ts) where
  grid i hi := by
    obtain ⟨t, -, hi⟩ := List.mem_flatMap.mp hi
    obtain ⟨e, he, hi⟩ := List.mem_flatMap.mp hi
    rw [(mem_moveOf.mp hi).2]
    exact grid_abs (onGrid_of_mem he)
  pos i hi := allMoves_pos hi
  total := by
    have hsum : ((allMoves commodity ts).map (·.2)).sum =
        ((tally (allMoves commodity ts)).map (·.2)).sum := by
      have htally := sumAt_tally (fun _ : Flow => True) (allMoves commodity ts)
      simpa [sumAt] using htally.symm
    have hle : ∀ q ∈ (tally (allMoves commodity ts)).map (·.2), q ≤ 2 ^ 53 := by
      intro q hq
      obtain ⟨e, he, rfl⟩ := List.mem_map.mp hq
      exact (lt_of_chartNumber (isDecimal_of_tally he) (hd.charted e he)).le
    have hlength : ((tally (allMoves commodity ts)).length : ℚ) ≤ 400 := by
      have hlinks := hd.links_le
      rw [hd.links, List.length_map] at hlinks
      exact_mod_cast hlinks
    have hcard := List.sum_le_card_nsmul _ _ hle
    rw [List.length_map, nsmul_eq_mul] at hcard
    rw [hsum]
    linarith

theorem Small.perm {items items' : List (Flow × ℚ)} (h : Small items) (hp : items.Perm items') :
    Small items' where
  grid i hi := h.grid i (hp.mem_iff.mpr hi)
  pos i hi := h.pos i (hp.mem_iff.mpr hi)
  total := by
    rw [← (hp.map (·.2)).sum_eq]
    exact h.total

/-! ### Other numbers -/

def NodeId.renamed (ρ : Nat → Nat) : NodeId → NodeId
  | .credit account => .credit account
  | .debit account => .debit account
  | .transaction n => .transaction (ρ n)

def Node.renamed (ρ : Nat → Nat) (node : Node) : Node :=
  ⟨node.id.renamed ρ, (node.id.renamed ρ).label⟩

def Link.renamed (ρ : Nat → Nat) (l : Link) : Link :=
  ⟨l.source.renamed ρ, l.target.renamed ρ, l.exact⟩

/-- The number that the group of a number has in another order. -/
def renumber (sigs sigs' : List Text) (n : Nat) : Nat := sigs'.idxOf (sigs.getD (n - 1) []) + 1

section Renamed

variable {items items' : List (Flow × ℚ)} {id id' : NodeId} {s : Text}

theorem hubOf_renamed (hs : s ∈ sigs) :
    (hubOf sigs s).renamed (renumber sigs sigs') = hubOf sigs' s := by
  have hget : sigs.getD (sigs.idxOf s) [] = s := by
    rw [List.getD_eq_getElem?_getD, List.getElem?_idxOf hs, Option.getD_some]
  show NodeId.transaction (sigs'.idxOf (sigs.getD (sigs.idxOf s + 1 - 1) []) + 1) = _
  rw [Nat.add_sub_cancel, hget]
  rfl

theorem Flow.node_renamed (f : Flow) (ρ : Nat → Nat) : f.node.renamed ρ = f.node := by
  unfold node
  split <;> rfl

theorem Flow.link_renamed {f : Flow} (hf : f.group ∈ sigs) :
    (f.link sigs q).renamed (renumber sigs sigs') = f.link sigs' q := by
  simp only [link, source, target, Link.renamed]
  cases f.credit <;> simp [hubOf_renamed hf, f.node_renamed]

variable (hsigs : ∀ s, s ∈ sigs ↔ s ∈ sigs') (hitems : items.Perm items')
include hsigs hitems

theorem known_renamed : Known sigs' items' id' ↔
    ∃ id, Known sigs items id ∧ id.renamed (renumber sigs sigs') = id' := by
  constructor
  · rintro (⟨s, hs, rfl⟩ | ⟨i, hi, rfl⟩)
    · exact ⟨hubOf sigs s, Or.inl ⟨s, (hsigs s).mpr hs, rfl⟩, hubOf_renamed ((hsigs s).mpr hs)⟩
    · exact ⟨i.1.node, Or.inr ⟨i, hitems.mem_iff.mpr hi, rfl⟩, i.1.node_renamed _⟩
  · rintro ⟨id, ⟨s, hs, rfl⟩ | ⟨i, hi, rfl⟩, rfl⟩
    · exact Or.inl ⟨s, (hsigs s).mp hs, hubOf_renamed hs⟩
    · exact Or.inr ⟨i, hitems.mem_iff.mp hi, i.1.node_renamed _⟩

omit hitems in
theorem renamed_inj (hid : Known sigs items id) (hid' : Known sigs items id')
    (h : id.renamed (renumber sigs sigs') = id'.renamed (renumber sigs sigs')) : id = id' := by
  rcases hid with ⟨s, hs, rfl⟩ | ⟨i, hi, rfl⟩ <;> rcases hid' with ⟨s', hs', rfl⟩ | ⟨i', hi', rfl⟩
  · rw [hubOf_renamed hs, hubOf_renamed hs', hubOf_inj ((hsigs s).mp hs)] at h
    rw [h]
  · rw [hubOf_renamed hs, Flow.node_renamed] at h
    exact absurd h.symm Flow.node_ne_hubOf
  · rw [hubOf_renamed hs', Flow.node_renamed] at h
    exact absurd h Flow.node_ne_hubOf
  · rwa [Flow.node_renamed, Flow.node_renamed] at h

theorem NodesOf.renamed {nodes nodes' : List Node} (h : NodesOf sigs items nodes)
    (h' : NodesOf sigs' items' nodes') :
    nodes'.Perm (nodes.map (Node.renamed (renumber sigs sigs'))) := by
  have hnodup : (nodes.map (Node.renamed (renumber sigs sigs'))).Nodup := by
    refine h.1.map_on fun a ha b hb hab => h.eq_of_id ha hb ?_
    exact renamed_inj hsigs ((h.2 a).mp ha).2 ((h.2 b).mp hb).2 (congrArg Node.id hab)
  refine (List.perm_ext_iff_of_nodup h'.1 hnodup).mpr fun node => ?_
  rw [h'.2, known_renamed hsigs hitems, List.mem_map]
  constructor
  · rintro ⟨hlabel, id, hknown, hid⟩
    refine ⟨⟨id, id.label⟩, (h.2 _).mpr ⟨rfl, hknown⟩, ?_⟩
    obtain ⟨id', label'⟩ := node
    dsimp only at hlabel hid
    rw [hlabel, ← hid]
    rfl
  · rintro ⟨node, hnode, rfl⟩
    exact ⟨rfl, node.id, ((h.2 node).mp hnode).2, rfl⟩

end Renamed

/-- The same graph but for the numbers of the groups. -/
theorem Drawn.reorder (hd : Drawn commodity ts sigs g) (h : Reordered ts ts') :
    ∃ g' ρ, flows ts' commodity = .ok g' ∧ g'.nodes.Perm (g.nodes.map (Node.renamed ρ)) ∧
      g'.links.Perm (g.links.map (Link.renamed ρ)) ∧
      ∀ a ∈ g.nodes, ∀ b ∈ g.nodes, a.id.renamed ρ = b.id.renamed ρ → a = b := by
  have hperm : (allMoves commodity ts).Perm (allMoves commodity ts') := h.allMoves_perm
  have hdrawable := h.forall (fun _ _ hp ht => Drawable.perm ht hp) hd.drawable
  have hsupported : Supported ts' := h.forall
    (fun _ _ hp ht p hmem => ht p (hp.mem_iff.mpr hmem)) hd.supported
  have hlength : ts'.length ≤ 300 := by
    obtain ⟨us, hus, hall⟩ := h
    rw [← hall.length_eq, ← hus.length_eq]
    exact hd.length_le
  obtain ⟨st, hrun⟩ := Represents.initial.run_ok hdrawable (hd.small.perm hperm)
  obtain ⟨-, sigs', hst, hsigs'⟩ := Represents.initial.run hrun
  rw [List.nil_append] at hst
  have hsigs : ∀ s, s ∈ sigs ↔ s ∈ sigs' := by
    intro s
    rw [hd.mem_sigs, hsigs']
    simp [hperm.mem_iff]
  have hnodes := hd.nodes.renamed hsigs hperm hst.nodes.nodesOf
  have htally := tally_perm hperm
  have hlinks : (st.edges.map (·.2)).Perm
      (g.links.map (Link.renamed (renumber sigs sigs'))) := by
    have hold : g.links.map (Link.renamed (renumber sigs sigs')) =
        (tally (allMoves commodity ts)).map fun e => e.1.link sigs' e.2 := by
      rw [hd.links, List.map_map]
      refine List.map_congr_left fun e he => Flow.link_renamed ?_
      obtain ⟨i, hi, hik⟩ := List.mem_map.mp (mem_tally.mp he).1
      exact (hd.mem_sigs _).mpr ⟨i, hi, congrArg Flow.group hik⟩
    rw [hold, hst.edges, List.map_map]
    exact (htally.map _).symm
  refine ⟨⟨st.nodes.map (·.2), st.edges.map (·.2)⟩, renumber sigs sigs', ?_, hnodes, hlinks, ?_⟩
  · refine flows_eq_ok.mpr ⟨hsupported, hlength, st, hrun, ?_, ?_, ?_, rfl⟩
    · have hcount := hnodes.length_eq
      rw [List.length_map, List.length_map] at hcount
      exact hcount ▸ hd.nodes_le
    · have hcount := hlinks.length_eq
      rw [List.length_map, List.length_map] at hcount
      exact hcount ▸ hd.links_le
    · rw [hst.edges, List.forall_mem_map]
      exact fun e he => hd.charted e (htally.mem_iff.mpr he)
  · intro a ha b hb hab
    refine hd.nodes.eq_of_id ha hb ?_
    exact renamed_inj hsigs ((hd.nodes.2 a).mp ha).2 ((hd.nodes.2 b).mp hb).2 hab

/-- At every group as much comes in as goes out, the links of an account add up to its postings of
that sign, no link is zero or negative, and another order gives the same graph under other
numbers. Sums of decimals are exact and canonical. -/
theorem flows_conserve (h : flows ts commodity = .ok g) :
    (∀ n, inflow g (.transaction n) = outflow g (.transaction n)) ∧
    (∀ account, outflow g (.credit account) = |negativeTotal commodity account ts| ∧
      inflow g (.debit account) = |positiveTotal commodity account ts|) ∧
    (∀ l ∈ g.links, ∃ q : ℚ, 0 < q ∧ number l.exact = some q) ∧
    (∀ ts', Reordered ts ts' → ∃ g' ρ, flows ts' commodity = .ok g' ∧
      g'.nodes.Perm (g.nodes.map (Node.renamed ρ)) ∧ g'.links.Perm (g.links.map (Link.renamed ρ)) ∧
      ∀ a ∈ g.nodes, ∀ b ∈ g.nodes, a.id.renamed ρ = b.id.renamed ρ → a = b) ∧
    (∀ c k, number (decimalString c k) = some (c / 10 ^ k : ℚ) ∧ IsCanonical (decimalString c k)) ∧
    (∀ a b r, addDecimal a b = .ok r → ∃ p q, number a = some p ∧ number b = some q ∧
      number r = some (p + q) ∧ IsCanonical r) ∧
    (∀ a r, negateDecimal a = .ok r → ∃ p, number a = some p ∧ number r = some (-p) ∧
      IsCanonical r) ∧
    ∀ a b, IsCanonical a → IsCanonical b → number a = number b → a = b := by
  obtain ⟨sigs, hd⟩ := exists_drawn h
  exact ⟨hd.conserves, fun account => ⟨hd.credit account, hd.debit account⟩,
    fun _ hl => hd.link_pos hl, fun _ hts => hd.reorder hts,
    fun c k => ⟨number_decimalString c k, decimalString_canonical c k⟩,
    fun _ _ _ => addDecimal_exact, fun _ _ => negateDecimal_exact, fun _ _ ha hb => ha.ext hb⟩

end Graph

/-! ### A purchase -/

def euros (mantissa : Int) (h : mantissa.natAbs < 10 ^ 220) : Amount :=
  ⟨"EUR".toList, mantissa, 2, false, h, by decide⟩

def purchase : Transaction :=
  ⟨[⟨"food".toList, "RegularPosting", [euros 1250 (by decide)]⟩, ⟨"bank".toList, "RegularPosting",
    [euros (-1250) (by decide)]⟩]⟩

def purchaseGraph : SankeyData where
  nodes := [⟨.transaction 1, "Posting group 1".toList⟩, ⟨.debit "food".toList, "Debit: food".toList⟩,
    ⟨.credit "bank".toList, "Credit: bank".toList⟩]
  links := [⟨.transaction 1, .debit "food".toList, "12.5".toList⟩,
    ⟨.credit "bank".toList, .transaction 1, "12.5".toList⟩]

theorem flows_conserve_purchase : inflow purchaseGraph (.transaction 1) =
    outflow purchaseGraph (.transaction 1) :=
  (@flows_conserve "EUR".toList [purchase] purchaseGraph rfl).1 1

end Openlia.Finance

import Mathlib.Algebra.Order.BigOperators.Group.List
import Mathlib.Data.List.Dedup
import Openlia.Finance.Flows
import Openlia.Lib.Results

/-! # The totals of the flows

A posting goes to one flow: the link between its account and the group of its transaction. The
maps of the loop hold the groups in the order of their signatures, and the total of each flow as
its canonical text.
-/

namespace Openlia.Finance

open Lib

/-! ## Flows -/

/-- The signature of a transaction, with the side and the account of a posting. -/
structure Flow where
  group : Text
  credit : Bool
  account : Text
  deriving DecidableEq

/-- The id of a group, by the place of its signature. -/
def hubOf (sigs : List Text) (signature : Text) : NodeId :=
  .transaction (sigs.idxOf signature + 1)

namespace Flow

def node (f : Flow) : NodeId := if f.credit then .credit f.account else .debit f.account

def source (sigs : List Text) (f : Flow) : NodeId := if f.credit then f.node else hubOf sigs f.group

def target (sigs : List Text) (f : Flow) : NodeId := if f.credit then hubOf sigs f.group else f.node

def key (sigs : List Text) (f : Flow) : Text := edgeKey (f.source sigs) (f.target sigs)

noncomputable def link (sigs : List Text) (f : Flow) (q : ℚ) : Link :=
  ⟨f.source sigs, f.target sigs, written q⟩

end Flow

section Hubs

variable {sigs : List Text} {s s' : Text} {f f' : Flow} {q : ℚ}

theorem hubOf_inj (hs : s ∈ sigs) : hubOf sigs s = hubOf sigs s' ↔ s = s' := by
  rw [hubOf, hubOf, NodeId.transaction.injEq, Nat.add_right_cancel_iff, List.idxOf_inj hs]

theorem hubOf_append (hs : s ∈ sigs) : hubOf (sigs ++ [s']) s = hubOf sigs s := by
  rw [hubOf, hubOf, List.idxOf_append_of_mem hs]

theorem hubOf_concat (hs : s ∉ sigs) : hubOf (sigs ++ [s]) s = .transaction (sigs.length + 1) := by
  rw [hubOf, List.idxOf_append_of_notMem hs, List.idxOf_cons_self, Nat.add_zero]

theorem Flow.node_ne_hubOf : f.node ≠ hubOf sigs s := by
  unfold Flow.node
  split <;> exact nofun

theorem Flow.key_append (hf : f.group ∈ sigs) : f.key (sigs ++ [s]) = f.key sigs := by
  rw [key, key, source, source, target, target, hubOf_append hf]

theorem Flow.link_append (hf : f.group ∈ sigs) : f.link (sigs ++ [s]) q = f.link sigs q := by
  rw [link, link, source, source, target, target, hubOf_append hf]

/-- Links of different flows have different keys. -/
theorem Flow.key_inj (hf : f.group ∈ sigs) (h : f.key sigs = f'.key sigs) : f = f' := by
  obtain ⟨group, credit, account⟩ := f
  obtain ⟨group', credit', account'⟩ := f'
  have hgroup : sigs.idxOf group + 1 = sigs.idxOf group' + 1 → group = group' := by
    intro hidx
    exact (List.idxOf_inj hf).mp (Nat.succ.inj hidx)
  cases credit with
  | false =>
      cases credit' with
      | false =>
          obtain ⟨hidx, rfl⟩ := edgeKey_injective.2.1 h
          rw [hgroup hidx]
      | true => exact absurd h.symm edgeKey_injective.2.2
  | true =>
      cases credit' with
      | false => exact absurd h edgeKey_injective.2.2
      | true =>
          obtain ⟨rfl, hidx⟩ := edgeKey_injective.1 h
          rw [hgroup hidx]

end Hubs

/-! ## The amounts -/

section Amounts

variable (commodity : Text) (t : Transaction)

/-- The accounts with the values that are posted to them. -/
def amountsOf : List (Text × ℚ) :=
  (regularPostings commodity t).map fun p =>
    (p.1, (Decimal.mk p.2.decimalMantissa p.2.decimalPlaces).value)

noncomputable def entryAt (e : Text × ℚ) : Entry := ⟨e.1, written e.2⟩

theorem entries_eq : (regularPostings commodity t).map entryOf =
    (amountsOf commodity t).map entryAt := by
  simp only [amountsOf, List.map_map]
  refine List.map_congr_left fun p _ => ?_
  simp only [entryOf, entryAt, Function.comp_apply, decimalString_eq_written]

def groupOf : Text := signature ((regularPostings commodity t).map entryOf)

def moveOf (group : Text) (e : Text × ℚ) : List (Flow × ℚ) :=
  if e.2 = 0 then [] else [(⟨group, decide (e.2 < 0), e.1⟩, |e.2|)]

/-- What a transaction adds to the flows. -/
def moves : List (Flow × ℚ) :=
  (amountsOf commodity t).flatMap (moveOf (groupOf commodity t))

/-- Without costs, and balanced. -/
def Drawable : Prop :=
  (∀ p ∈ regularPostings commodity t, p.2.acost = false) ∧
    ((amountsOf commodity t).map (·.2)).sum = 0

variable {commodity t} {e : Text × ℚ} {i : Flow × ℚ} {s : Text}

theorem mem_moveOf : i ∈ moveOf s e ↔ e.2 ≠ 0 ∧ i = (⟨s, decide (e.2 < 0), e.1⟩, |e.2|) := by
  unfold moveOf
  split <;> simp_all

theorem onGrid_of_mem (he : e ∈ amountsOf commodity t) :
    ∃ c : Int, e.2 = (Decimal.mk c 36).value := by
  obtain ⟨p, -, rfl⟩ := List.mem_map.mp he
  exact ⟨_, ((Decimal.mk _ _).value_rescale p.2.places_le).symm⟩

theorem moves_group (hi : i ∈ moves commodity t) : i.1.group = groupOf commodity t := by
  obtain ⟨e, -, hi⟩ := List.mem_flatMap.mp hi
  rw [(mem_moveOf.mp hi).2]

theorem moves_pos (hi : i ∈ moves commodity t) : 0 < i.2 := by
  obtain ⟨e, -, hi⟩ := List.mem_flatMap.mp hi
  obtain ⟨hne, rfl⟩ := mem_moveOf.mp hi
  exact abs_pos.mpr hne

end Amounts

/-! ## The state of the loop -/

/-- These ids are known, each with its label. -/
structure Labelled (ids : NodeId → Prop) (nodes : List (Text × Node)) : Prop where
  labelled : ∀ e ∈ nodes, e = (e.2.id.text, ⟨e.2.id, e.2.id.label⟩)
  nodup : (nodes.map (·.1)).Nodup
  mem_iff : ∀ id, id.text ∈ nodes.map (·.1) ↔ ids id

theorem Labelled.setNode {ids : NodeId → Prop} {nodes : List (Text × Node)}
    (h : Labelled ids nodes) (id : NodeId) :
    Labelled (fun id' => ids id' ∨ id' = id) (setNode id nodes) where
  labelled e he := by
    rcases mem_putKey he with rfl | he
    · rfl
    · exact h.labelled e he
  nodup := nodup_putKey h.nodup
  mem_iff id' := by
    rw [Finance.setNode, mem_map_fst_putKey, h.mem_iff, NodeId.text_injective.eq_iff]

theorem Labelled.congr {ids ids' : NodeId → Prop} {nodes : List (Text × Node)}
    (h : Labelled ids nodes) (hids : ∀ id, ids id ↔ ids' id) : Labelled ids' nodes :=
  ⟨h.labelled, h.nodup, fun id => (h.mem_iff id).trans (hids id)⟩

/-- The hubs of some signatures and the accounts of some postings. -/
def Known (sigs : List Text) (items : List (Flow × ℚ)) (id : NodeId) : Prop :=
  (∃ s ∈ sigs, id = hubOf sigs s) ∨ ∃ i ∈ items, id = i.1.node

theorem isDecimal_sumAt {items : List (Flow × ℚ)} {p : Flow → Prop} [DecidablePred p]
    (h : ∀ i ∈ items, IsDecimal i.2) : IsDecimal (sumAt p items) := by
  induction items with
  | nil => exact IsDecimal.zero
  | cons i items ih =>
      obtain ⟨hi, hrest⟩ := List.forall_mem_cons.mp h
      rw [sumAt_cons]
      split
      · exact hi.add (ih hrest)
      · rw [zero_add]
        exact ih hrest

/-- The maps hold the totals of some postings. -/
structure Represents (sigs : List Text) (items : List (Flow × ℚ)) (st : FlowState) : Prop where
  nodup : sigs.Nodup
  grouped : ∀ i ∈ items, i.1.group ∈ sigs
  decimals : ∀ i ∈ items, IsDecimal i.2
  groups : st.groups = sigs.map fun s => (s, hubOf sigs s)
  edges : st.edges = (tally items).map fun e => (e.1.key sigs, e.1.link sigs e.2)
  nodes : Labelled (Known sigs items) st.nodes

section State

variable {sigs : List Text} {items items' : List (Flow × ℚ)} {st st' : FlowState} {s : Text}
  {e : Text × ℚ} {es : List (Text × ℚ)} {p q : ℚ}

theorem Represents.initial : Represents [] [] {} where
  nodup := List.nodup_nil
  grouped := by simp
  decimals := by simp
  groups := rfl
  edges := rfl
  nodes := ⟨by simp, List.nodup_nil, by simp [Known]⟩

theorem Represents.group_mem_of_tally (h : Represents sigs items st) {e : Flow × ℚ}
    (he : e ∈ tally items) : e.1.group ∈ sigs := by
  obtain ⟨i, hi, hkey⟩ := List.mem_map.mp (mem_keys_tally.mp (List.mem_map_of_mem he))
  rw [← hkey]
  exact h.grouped i hi

theorem Represents.openGroup (h : Represents sigs items st) (s : Text) :
    ∃ sigs', (openGroup s st).1 = hubOf sigs' s ∧ Represents sigs' items (openGroup s st).2 ∧
      ∀ x, x ∈ sigs' ↔ x ∈ sigs ∨ x = s := by
  by_cases hs : s ∈ sigs
  · have hlookup : st.groups.lookup s = some (hubOf sigs s) := by
      rw [h.groups, List.lookup_graph (hubOf sigs) hs]
    refine ⟨sigs, ?_, ?_, fun x => ⟨Or.inl, fun hx => hx.elim id fun hx => hx ▸ hs⟩⟩
    · rw [Finance.openGroup, hlookup]
    · rw [Finance.openGroup, hlookup]
      exact h
  have hnew : s ∉ st.groups.map (·.1) := by
    rw [h.groups, List.map_map]
    simpa using hs
  have hlookup : st.groups.lookup s = none := by
    rw [List.lookup_eq_none_iff]
    intro e he
    exact bne_iff_ne.mpr fun heq => hnew (List.mem_map.mpr ⟨e, he, heq.symm⟩)
  have hhub : NodeId.transaction (st.groups.length + 1) = hubOf (sigs ++ [s]) s := by
    rw [hubOf_concat hs, h.groups, List.length_map]
  refine ⟨sigs ++ [s], ?_, ?_, by simp⟩
  · rw [Finance.openGroup, hlookup]
    exact hhub
  rw [Finance.openGroup, hlookup]
  dsimp only
  rw [hhub]
  exact {
    nodup := List.nodup_append.mpr ⟨h.nodup, List.nodup_singleton s, by
      intro a ha b hb hab
      exact hs (by rwa [← List.mem_singleton.mp hb, ← hab])⟩
    grouped := fun i hi => List.mem_append_left _ (h.grouped i hi)
    decimals := h.decimals
    groups := by
      have hold : (sigs.map fun x => (x, hubOf sigs x)) =
          sigs.map fun x => (x, hubOf (sigs ++ [s]) x) :=
        List.map_congr_left fun x hx => by rw [hubOf_append hx]
      rw [putKey_of_notMem hnew, h.groups, List.map_append, hold]
      rfl
    edges := by
      rw [h.edges]
      exact List.map_congr_left fun e he => by
        rw [Flow.key_append (h.group_mem_of_tally he), Flow.link_append (h.group_mem_of_tally he)]
    nodes := by
      refine (h.nodes.setNode _).congr fun id => ?_
      have hold : ∀ x ∈ sigs, hubOf (sigs ++ [s]) x = hubOf sigs x := fun x hx => hubOf_append hx
      constructor
      · rintro ((⟨x, hx, rfl⟩ | hi) | rfl)
        · exact Or.inl ⟨x, List.mem_append_left _ hx, (hold x hx).symm⟩
        · exact Or.inr hi
        · exact Or.inl ⟨s, by simp, rfl⟩
      · rintro (⟨x, hx, rfl⟩ | hi)
        · rcases List.mem_append.mp hx with hx | hx
          · exact Or.inl (Or.inl ⟨x, hx, hold x hx⟩)
          · rw [List.mem_singleton.mp hx]
            exact Or.inr rfl
        · exact Or.inl (Or.inr hi) }

/-- A posting of a value that is not zero is added to its flow. -/
theorem Represents.addPosting_eq (h : Represents sigs items st) (hs : s ∈ sigs)
    (hq : IsDecimal e.2) (hne : e.2 ≠ 0) {f : Flow} (hf : f = ⟨s, decide (e.2 < 0), e.1⟩) :
    addPosting (hubOf sigs s) st (entryAt e) =
      (addDecimal (written (((tally items).lookup f).getD 0)) (written |e.2|)) >>= fun exact =>
        .ok { st with
          nodes := setNode f.node st.nodes
          edges := putKey (f.key sigs) ⟨f.source sigs, f.target sigs, exact⟩ st.edges } := by
  subst hf
  have hexact : (entryAt e).exact ≠ ['0'] := by
    rw [← written_zero]
    exact fun heq => hne ((written_inj hq IsDecimal.zero).mp heq)
  have hcredit : isCredit (entryAt e) = decide (e.2 < 0) := by
    rw [isCredit, decide_eq_decide]
    exact head_written hq
  have hlookup : ∀ f : Flow, f.group ∈ sigs → st.edges.lookup (f.key sigs) =
      ((tally items).lookup f).map (f.link sigs) := by
    intro f hf
    rw [h.edges]
    exact lookup_map (Flow.key sigs) (Flow.link sigs) fun d hd heq =>
      (Flow.key_inj hf heq.symm).symm
  have hknown : ∀ f : Flow, f.group ∈ sigs →
      ((st.edges.lookup (f.key sigs)).map (·.exact)).getD ['0'] =
        written (((tally items).lookup f).getD 0) := by
    intro f hf
    rw [hlookup f hf]
    cases (tally items).lookup f with
    | none => exact written_zero.symm
    | some q => rfl
  rw [addPosting, if_neg hexact, ← hknown ⟨s, decide (e.2 < 0), e.1⟩ hs, ← withoutSign_written hq]
  simp only [hcredit]
  rfl

theorem Represents.addPosting (h : Represents sigs items st) (hs : s ∈ sigs) (hq : IsDecimal e.2)
    (hok : addPosting (hubOf sigs s) st (entryAt e) = .ok st') :
    Represents sigs (items ++ moveOf s e) st' := by
  unfold moveOf
  split
  · rename_i hzero
    have hexact : (entryAt e).exact = ['0'] := by
      rw [← written_zero, ← hzero]
      rfl
    rw [Finance.addPosting, if_pos hexact] at hok
    cases hok
    rwa [List.append_nil]
  rename_i hne
  obtain ⟨f, hf⟩ : ∃ f : Flow, f = ⟨s, decide (e.2 < 0), e.1⟩ := ⟨_, rfl⟩
  have hfs : f.group ∈ sigs := by rwa [hf]
  rw [h.addPosting_eq hs hq hne hf] at hok
  obtain ⟨exact, hadd, hok⟩ := except_bind_ok hok
  cases hok
  have hold : IsDecimal (((tally items).lookup f).getD 0) := by
    rw [lookup_tally]
    exact isDecimal_sumAt h.decimals
  rw [addDecimal_written hold hq.abs hadd, ← hf]
  exact {
    nodup := h.nodup
    grouped := by
      intro i hi
      rcases List.mem_append.mp hi with hi | hi
      · exact h.grouped i hi
      · rw [List.mem_singleton.mp hi]
        exact hfs
    decimals := by
      intro i hi
      rcases List.mem_append.mp hi with hi | hi
      · exact h.decimals i hi
      · rw [List.mem_singleton.mp hi]
        exact hq.abs
    groups := h.groups
    edges := by
      rw [tally_concat, bump, h.edges]
      exact putKey_map (Flow.key sigs) (Flow.link sigs) fun d hd heq =>
        (Flow.key_inj hfs heq.symm).symm
    nodes := by
      refine (h.nodes.setNode _).congr fun id => ?_
      simp only [Known, List.mem_append, List.mem_singleton, or_and_right, exists_or, or_assoc,
        exists_eq_left] }

theorem Represents.addPostings (h : Represents sigs items st) (hs : s ∈ sigs)
    (hes : ∀ e ∈ es, IsDecimal e.2)
    (hok : (es.map entryAt).foldlM (Finance.addPosting (hubOf sigs s)) st = .ok st') :
    Represents sigs (items ++ es.flatMap (moveOf s)) st' := by
  induction es generalizing items st with
  | nil =>
      cases hok
      simpa using h
  | cons e es ih =>
      obtain ⟨he, hes⟩ := List.forall_mem_cons.mp hes
      rw [List.map_cons, List.foldlM_cons] at hok
      obtain ⟨st₁, hstep, hok⟩ := except_bind_ok hok
      have hrest := ih (h.addPosting hs he hstep) hes hok
      rwa [List.append_assoc] at hrest

/-! ## Amounts that are not too great -/

/-- Positive amounts of at most 36 places, not too great together. -/
structure Small (items : List (Flow × ℚ)) : Prop where
  grid : ∀ i ∈ items, ∃ c : Int, i.2 = (Decimal.mk c 36).value
  pos : ∀ i ∈ items, 0 < i.2
  total : (items.map (·.2)).sum ≤ 10 ^ 20

theorem grid_add (hp : ∃ c : Int, p = (Decimal.mk c 36).value)
    (hq : ∃ c : Int, q = (Decimal.mk c 36).value) : ∃ c : Int, p + q = (Decimal.mk c 36).value := by
  obtain ⟨c, rfl⟩ := hp
  obtain ⟨d, rfl⟩ := hq
  exact ⟨c + d, (Decimal.value_add c d 36).symm⟩

theorem grid_zero : ∃ c : Int, (0 : ℚ) = (Decimal.mk c 36).value := ⟨0, by simp [Decimal.value]⟩

theorem grid_abs (hq : ∃ c : Int, q = (Decimal.mk c 36).value) :
    ∃ c : Int, |q| = (Decimal.mk c 36).value := by
  obtain ⟨c, rfl⟩ := hq
  rcases abs_choice (Decimal.mk c 36).value with h | h
  · exact ⟨c, h⟩
  · exact ⟨-c, by rw [h, Decimal.value_neg]⟩

theorem Small.of_append (h : Small (items ++ items')) : Small items where
  grid i hi := h.grid i (List.mem_append_left _ hi)
  pos i hi := h.pos i (List.mem_append_left _ hi)
  total := by
    have htotal := h.total
    have hnonneg : 0 ≤ (items'.map (·.2)).sum := List.sum_nonneg fun q hq => by
      obtain ⟨i, hi, rfl⟩ := List.mem_map.mp hq
      exact (h.pos i (List.mem_append_right _ hi)).le
    rw [List.map_append, List.sum_append] at htotal
    linarith

theorem Small.of_append_right (h : Small (items ++ items')) : Small items' where
  grid i hi := h.grid i (List.mem_append_right _ hi)
  pos i hi := h.pos i (List.mem_append_right _ hi)
  total := by
    have htotal := h.total
    have hnonneg : 0 ≤ (items.map (·.2)).sum := List.sum_nonneg fun q hq => by
      obtain ⟨i, hi, rfl⟩ := List.mem_map.mp hq
      exact (h.pos i (List.mem_append_left _ hi)).le
    rw [List.map_append, List.sum_append] at htotal
    linarith

/-- A total of some of the amounts is none too great. -/
theorem Small.sumAt_fits (h : Small items) (f : Flow → Prop) [DecidablePred f] :
    (∃ c : Int, sumAt f items = (Decimal.mk c 36).value) ∧ 0 ≤ sumAt f items ∧
      sumAt f items ≤ (items.map (·.2)).sum := by
  obtain ⟨hgrid, hpos, -⟩ := h
  induction items with
  | nil => exact ⟨grid_zero, le_refl 0, le_refl 0⟩
  | cons i items ih =>
      obtain ⟨hi, hgrid⟩ := List.forall_mem_cons.mp hgrid
      obtain ⟨hipos, hpos⟩ := List.forall_mem_cons.mp hpos
      obtain ⟨hsum, hnonneg, hle⟩ := ih hgrid hpos
      rw [sumAt_cons, List.map_cons, List.sum_cons]
      split
      · exact ⟨grid_add hi hsum, by linarith, by linarith⟩
      · rw [zero_add]
        exact ⟨hsum, hnonneg, by linarith⟩

theorem Represents.addPosting_ok (h : Represents sigs items st) (hs : s ∈ sigs)
    (hq : IsDecimal e.2) (hsmall : Small (items ++ moveOf s e)) :
    ∃ st', Finance.addPosting (hubOf sigs s) st (entryAt e) = .ok st' := by
  by_cases hne : e.2 = 0
  · have hexact : (entryAt e).exact = ['0'] := by
      rw [← written_zero, ← hne]
      rfl
    exact ⟨st, by rw [Finance.addPosting, if_pos hexact]⟩
  have hmove : moveOf s e = [(⟨s, decide (e.2 < 0), e.1⟩, |e.2|)] := if_neg hne
  obtain ⟨hgrid, hnonneg, hle⟩ := hsmall.of_append.sumAt_fits (· = ⟨s, decide (e.2 < 0), e.1⟩)
  have hnew := hsmall.of_append_right
  rw [hmove] at hnew
  have hsingle : |e.2| ≤ 10 ^ 20 := by simpa using hnew.total
  have hadd := addDecimal_fits (p := sumAt (· = ⟨s, decide (e.2 < 0), e.1⟩) items) (q := |e.2|)
    ⟨hgrid, by rw [abs_of_nonneg hnonneg]; exact hle.trans hsmall.of_append.total⟩
    ⟨hnew.grid _ (List.mem_singleton_self _), by rwa [abs_abs]⟩
  rw [h.addPosting_eq hs hq hne rfl, lookup_tally, hadd]
  exact ⟨_, rfl⟩

theorem Represents.addPostings_ok (h : Represents sigs items st) (hs : s ∈ sigs)
    (hes : ∀ e ∈ es, IsDecimal e.2) (hsmall : Small (items ++ es.flatMap (moveOf s))) :
    ∃ st', (es.map entryAt).foldlM (Finance.addPosting (hubOf sigs s)) st = .ok st' := by
  induction es generalizing items st with
  | nil => exact ⟨st, rfl⟩
  | cons e es ih =>
      obtain ⟨he, hes⟩ := List.forall_mem_cons.mp hes
      rw [List.flatMap_cons, ← List.append_assoc] at hsmall
      obtain ⟨st₁, hstep⟩ := h.addPosting_ok hs he hsmall.of_append
      obtain ⟨st', hrest⟩ := ih (h.addPosting hs he hstep) hes hsmall
      exact ⟨st', by rw [List.map_cons, List.foldlM_cons, hstep]; exact hrest⟩

end State

/-! ## Transactions -/

section Transactions

variable {commodity : Text} {sigs : List Text} {items : List (Flow × ℚ)} {st st' : FlowState}
  {t : Transaction} {ts : List Transaction} {es : List (Text × ℚ)} {p : ℚ} {r : Text}

theorem orThrow_eq_ok {α : Type} {x : Except Failure α} {a : α} :
    orThrow x = .ok a ↔ x = .ok a := by
  cases x <;> simp [orThrow]

theorem total_eq (hes : ∀ e ∈ es, IsDecimal e.2) (hp : IsDecimal p)
    (hok : (es.map entryAt).foldlM (fun sum e => addDecimal sum e.exact) (written p) = .ok r) :
    r = written (p + (es.map (·.2)).sum) ∧ IsDecimal (p + (es.map (·.2)).sum) := by
  induction es generalizing p with
  | nil =>
      cases hok
      simpa using hp
  | cons e es ih =>
      obtain ⟨he, hes⟩ := List.forall_mem_cons.mp hes
      rw [List.map_cons, List.foldlM_cons] at hok
      obtain ⟨sum, hsum, hok⟩ := except_bind_ok hok
      rw [addDecimal_written hp he hsum] at hok
      rw [List.map_cons, List.sum_cons, ← add_assoc]
      exact ih hes (hp.add he) hok

theorem total_ok (hes : ∀ e ∈ es, ∃ c : Int, e.2 = (Decimal.mk c 36).value)
    (hp : ∃ c : Int, p = (Decimal.mk c 36).value)
    (hbound : |p| + (es.map fun e => |e.2|).sum ≤ 10 ^ 20) :
    ∃ r, (es.map entryAt).foldlM (fun sum e => addDecimal sum e.exact) (written p) = .ok r := by
  induction es generalizing p with
  | nil => exact ⟨_, rfl⟩
  | cons e es ih =>
      obtain ⟨he, hes⟩ := List.forall_mem_cons.mp hes
      rw [List.map_cons, List.sum_cons] at hbound
      have hrest : 0 ≤ (es.map fun e => |e.2|).sum := List.sum_nonneg fun q hq => by
        obtain ⟨d, -, rfl⟩ := List.mem_map.mp hq
        exact abs_nonneg _
      have hadd := addDecimal_fits (p := p) (q := e.2)
        ⟨hp, by linarith [abs_nonneg e.2]⟩ ⟨he, by linarith [abs_nonneg p]⟩
      obtain ⟨r, hr⟩ := ih hes (grid_add hp he) (by linarith [abs_add_le p e.2])
      refine ⟨r, ?_⟩
      rw [List.map_cons, List.foldlM_cons]
      show (addDecimal (written p) (written e.2) >>= _) = _
      rw [hadd]
      exact hr

theorem signature_eq_nil {entries : List Entry} :
    signature entries = [] ↔ ∀ e ∈ entries, e.exact = ['0'] := by
  obtain ⟨items, hitems⟩ : ∃ items, items = (((entries.filter fun e => e.exact ≠ ['0']).map
      signatureItem).dedup.insertionSort itemLe) := ⟨_, rfl⟩
  have hmem : ∀ s, s ∈ items ↔ ∃ e ∈ entries, e.exact ≠ ['0'] ∧ signatureItem e = s := by
    intro s
    simp only [hitems, List.mem_insertionSort, List.mem_dedup, List.mem_map, List.mem_filter,
      decide_eq_true_eq, and_assoc]
  rw [signature, ← hitems]
  cases items with
  | nil =>
      refine ⟨fun _ e he => by_contra fun hne => ?_, fun _ => rfl⟩
      exact List.not_mem_nil ((hmem _).mpr ⟨e, he, hne, rfl⟩)
  | cons s rest =>
      obtain ⟨e, he, hne, rfl⟩ := (hmem s).mp List.mem_cons_self
      constructor
      · intro h
        have hitem : signatureItem e ≠ [] := by
          unfold signatureItem
          split <;> exact nofun
        cases rest with
        | nil => exact absurd h (by simpa using hitem)
        | cons s' rest =>
            rw [List.intercalate_cons_cons] at h
            exact absurd (List.append_eq_nil_iff.mp (List.append_eq_nil_iff.mp h).1).1 hitem
      · exact fun h => absurd (h e he) hne

theorem groupOf_eq_nil : groupOf commodity t = [] ↔ moves commodity t = [] := by
  have hdecimal : ∀ e ∈ amountsOf commodity t, IsDecimal e.2 := fun e he => by
    obtain ⟨c, hc⟩ := onGrid_of_mem he
    exact ⟨_, hc.symm⟩
  rw [groupOf, signature_eq_nil, entries_eq, List.forall_mem_map, moves, List.flatMap_eq_nil_iff]
  refine forall₂_congr fun e he => ?_
  show written e.2 = ['0'] ↔ _
  rw [← written_zero, written_inj (hdecimal e he) IsDecimal.zero, moveOf]
  by_cases h : e.2 = 0 <;> simp [h]

theorem turnover_eq : ((amountsOf commodity t).map fun e => |e.2|).sum =
    ((moves commodity t).map (·.2)).sum := by
  rw [moves]
  induction amountsOf commodity t with
  | nil => rfl
  | cons e es ih =>
      rw [List.map_cons, List.sum_cons, List.flatMap_cons, List.map_append, List.sum_append, ih,
        moveOf]
      by_cases h : e.2 = 0 <;> simp [h]

theorem isDecimal_of_mem {e : Text × ℚ} (he : e ∈ amountsOf commodity t) : IsDecimal e.2 := by
  obtain ⟨c, hc⟩ := onGrid_of_mem he
  exact ⟨_, hc.symm⟩

/-- The total as the code adds it up. -/
theorem total_written {commodity : Text} {t : Transaction}
    (hok : ((amountsOf commodity t).map entryAt).foldlM (fun sum e => addDecimal sum e.exact) ['0'] =
      .ok r) : r = ['0'] ↔ ((amountsOf commodity t).map (·.2)).sum = 0 := by
  rw [← written_zero] at hok
  obtain ⟨rfl, hdecimal⟩ := total_eq (fun e he => isDecimal_of_mem he) IsDecimal.zero hok
  rw [← written_zero, written_inj hdecimal IsDecimal.zero, zero_add]

/-- A transaction that is drawn adds its postings. -/
theorem Represents.addTransaction (h : Represents sigs items st)
    (hok : addTransaction commodity st t = .ok st') : Drawable commodity t ∧ ∃ sigs',
      Represents sigs' (items ++ moves commodity t) st' ∧
        ∀ s, s ∈ sigs' ↔ s ∈ sigs ∨ ∃ i ∈ moves commodity t, i.1.group = s := by
  obtain ⟨hcost, hok⟩ := guard_ok hok
  obtain ⟨total, htotal, hok⟩ := except_bind_ok hok
  obtain ⟨hbalanced, hok⟩ := guard_ok hok
  rw [orThrow_eq_ok, entries_eq] at htotal
  have hsum := (total_written htotal).mp (not_not.mp hbalanced)
  refine ⟨⟨fun p hp => by_contra fun hne => hcost ?_, hsum⟩, ?_⟩
  · exact List.any_eq_true.mpr ⟨p, hp, by simpa using hne⟩
  change (if groupOf commodity t = [] then _ else _ : Except Stop FlowState) = _ at hok
  by_cases hempty : groupOf commodity t = []
  · rw [if_pos hempty] at hok
    cases hok
    rw [groupOf_eq_nil.mp hempty, List.append_nil]
    exact ⟨sigs, h, by simp⟩
  rw [if_neg hempty] at hok
  obtain ⟨sigs', hhub, hopen, hsigs⟩ := h.openGroup (groupOf commodity t)
  change orThrow (((regularPostings commodity t).map entryOf).foldlM
    (Finance.addPosting (Finance.openGroup (groupOf commodity t) st).1)
    (Finance.openGroup (groupOf commodity t) st).2) = _ at hok
  rw [orThrow_eq_ok, entries_eq, hhub] at hok
  refine ⟨sigs', hopen.addPostings ((hsigs _).mpr (Or.inr rfl))
    (fun e he => isDecimal_of_mem he) hok, fun s => (hsigs s).trans (or_congr_right ?_)⟩
  constructor
  · rintro rfl
    obtain ⟨i, hi⟩ := List.exists_mem_of_ne_nil _ fun hnil => hempty (groupOf_eq_nil.mpr hnil)
    exact ⟨i, hi, moves_group hi⟩
  · rintro ⟨i, hi, rfl⟩
    exact moves_group hi

theorem Represents.addTransaction_ok (h : Represents sigs items st) (ht : Drawable commodity t)
    (hsmall : Small (items ++ moves commodity t)) :
    ∃ st', Finance.addTransaction commodity st t = .ok st' := by
  have hcost : ¬ ((regularPostings commodity t).any fun p => p.2.acost) = true := by
    rw [List.any_eq_true]
    rintro ⟨p, hp, hcost⟩
    rw [ht.1 p hp] at hcost
    cases hcost
  have hbound : |(0 : ℚ)| + ((amountsOf commodity t).map fun e => |e.2|).sum ≤ 10 ^ 20 := by
    rw [abs_zero, zero_add, turnover_eq]
    exact hsmall.of_append_right.total
  obtain ⟨total, htotal⟩ := total_ok (fun e he => onGrid_of_mem he) grid_zero hbound
  rw [written_zero] at htotal
  have hbalanced := (total_written htotal).mpr ht.2
  subst hbalanced
  have hgroup : signature ((amountsOf commodity t).map entryAt) = groupOf commodity t := by
    rw [groupOf, entries_eq]
  unfold Finance.addTransaction
  simp only [if_neg hcost, entries_eq, orThrow_eq_ok.mpr htotal, ok_bind, hgroup]
  rw [if_neg (by simp)]
  by_cases hempty : groupOf commodity t = []
  · exact ⟨st, if_pos hempty⟩
  obtain ⟨sigs', hhub, hopen, hsigs⟩ := h.openGroup (groupOf commodity t)
  obtain ⟨st', hrun⟩ := hopen.addPostings_ok ((hsigs _).mpr (Or.inr rfl))
    (fun e he => isDecimal_of_mem he) hsmall
  refine ⟨st', ?_⟩
  rw [if_neg hempty, orThrow_eq_ok, hhub]
  exact hrun

def allMoves (commodity : Text) (ts : List Transaction) : List (Flow × ℚ) :=
  ts.flatMap (moves commodity)

/-- The loop over the transactions. -/
theorem Represents.run (h : Represents sigs items st)
    (hok : ts.foldlM (Finance.addTransaction commodity) st = .ok st') :
    (∀ t ∈ ts, Drawable commodity t) ∧ ∃ sigs',
      Represents sigs' (items ++ allMoves commodity ts) st' ∧
        ∀ s, s ∈ sigs' ↔ s ∈ sigs ∨ ∃ i ∈ allMoves commodity ts, i.1.group = s := by
  induction ts generalizing sigs items st with
  | nil =>
      cases hok
      exact ⟨by simp, sigs, by simpa [allMoves] using h, by simp [allMoves]⟩
  | cons t ts ih =>
      rw [List.foldlM_cons] at hok
      obtain ⟨st₁, hstep, hok⟩ := except_bind_ok hok
      obtain ⟨ht, sigs₁, h₁, hsigs₁⟩ := h.addTransaction hstep
      obtain ⟨hts, sigs', h', hsigs'⟩ := ih h₁ hok
      refine ⟨List.forall_mem_cons.mpr ⟨ht, hts⟩, sigs', ?_, fun s => ?_⟩
      · rw [allMoves, List.flatMap_cons, ← List.append_assoc]
        exact h'
      · rw [hsigs', hsigs₁, or_assoc]
        simp only [allMoves, List.flatMap_cons, List.mem_append, or_and_right, exists_or]

theorem Represents.run_ok (h : Represents sigs items st) (hts : ∀ t ∈ ts, Drawable commodity t)
    (hsmall : Small (items ++ allMoves commodity ts)) :
    ∃ st', ts.foldlM (Finance.addTransaction commodity) st = .ok st' := by
  induction ts generalizing sigs items st with
  | nil => exact ⟨st, rfl⟩
  | cons t ts ih =>
      obtain ⟨ht, hts⟩ := List.forall_mem_cons.mp hts
      rw [allMoves, List.flatMap_cons, ← List.append_assoc] at hsmall
      obtain ⟨st₁, hstep⟩ := h.addTransaction_ok ht hsmall.of_append
      obtain ⟨-, sigs₁, h₁, -⟩ := h.addTransaction hstep
      obtain ⟨st', hrest⟩ := ih h₁ hts hsmall
      exact ⟨st', by rw [List.foldlM_cons, hstep]; exact hrest⟩

end Transactions

end Openlia.Finance

import Openlia.Usage.Intake

/-! # What is well formed

A well-formed report and a well-formed row are imported over every checkpoint whose costs a float
can hold. What is not well formed raises; of the exceptions only two are not caught, that of tokens
that are no object and that of a nesting too deep.
-/

namespace Openlia.Usage.Intake

open Lib Lib.Retry

variable {F : Type} {env : Env F} {fl : Floats F} {now : F} {db : Db F}

theorem lit_inj {s t : String} : lit s = lit t ↔ s = t := by
  constructor
  · intro h
    have hlist := List.map_injective_iff.mpr (fun _ _ hc => Char.toNat_inj.mp hc) h
    exact String.toList_inj.mp hlist
  · intro h
    rw [h]

@[simp] theorem lit_beq (s t : String) : (lit s == lit t) = decide (s = t) := by
  rw [Bool.eq_iff_iff, beq_iff_eq, decide_eq_true_iff]
  exact lit_inj

theorem Dict.get_set (d : Dict F) (key key' : String) (v : Value F) :
    (d.set key v).get key' = if key' = key then v else d.get key' := by
  by_cases h : key' = key
  · subst h
    simp [Dict.get, Dict.set]
  · simp [Dict.get, Dict.set, List.lookup_cons, h]

/-! ## The values -/

def IsCount (fl : Floats F) : Value F → Prop
  | .null => True
  | .num n =>
      match n.exact with
      | .inl _ => True
      | .inr x => fl.finite x = true
  | _ => False

def IsCounters (fl : Floats F) : Value F → Prop
  | .null => True
  | .dict d => ∀ k, IsCount fl (Dict.get d (tokenName k))
  | _ => False

def IsAmount : Value F → Prop
  | .null => True
  | .num n => n.Small
  | _ => False

def IsTime (fl : Floats F) : Value F → Prop
  | .null => True
  | .num n => n.Small ∧
      match n.exact with
      | .inl _ => True
      | .inr x => fl.isNaN x = false
  | _ => False

def IsText : Value F → Prop
  | .null => True
  | .str s => encodable s = true
  | _ => False

def IsId : Option (Value F) → Prop
  | some (.str s) => encodable s = true
  | _ => False

structure WellFormedReport (fl : Floats F) (report : Dict F) : Prop where
  id : IsId (report.lookup (lit "id"))
  activity : (activityOf (report.get "activity")).isSome = true
  provider : IsText (report.get "provider")
  model : IsText (report.get "model")
  reference : IsText (report.get "reference")
  timestamp : IsTime fl (report.get "timestamp")
  tokens : IsCounters fl (report.get "tokens")
  fallback_cost : IsAmount (report.get "fallback_cost")
  provider_cost : IsAmount (report.get "provider_cost")

structure WellFormedRow (fl : Floats F) (row : Dict F) : Prop where
  values : ∀ column ∈ rowColumns, IsText (row.get column)
  session_source : IsText (row.get "session_source")
  tokens : ∀ k, IsCount fl (row.get (tokenName k))
  estimated : IsAmount (row.get "estimated_cost_usd")
  actual : IsAmount (row.get "actual_cost_usd")
  first_seen : IsAmount (row.get "first_seen")

/-- Costs that a float can hold. -/
def Db.Ranged (db : Db F) : Prop :=
  ∀ key high, db.checkpoints key = some high → high.cost.Small ∧ high.provider_cost.Small

/-- What becomes a float. -/
def Converts : Value F → Prop
  | .null => True
  | .num n => n.Converts
  | _ => False

/-! ## Conversions that succeed -/

section Success

theorem counter_isOk {d : Dict F} {k : Token} (h : IsCount fl (d.get (tokenName k))) :
    ∃ n, counter fl d k = .ok n := by
  have hint : ∃ n, ((d.get (tokenName k)).orElse fl .zero).toInt fl = .ok n := by
    unfold Value.orElse
    split
    · generalize d.get (tokenName k) = v at *
      cases v with
      | num n =>
          simp only [IsCount] at h
          simp only [Value.toInt]
          cases hexact : n.exact with
          | inl m => exact ⟨m, rfl⟩
          | inr x =>
              simp only [hexact] at h
              obtain ⟨m, hm⟩ := Option.isSome_iff_exists.mp (fl.trunc_isSome x h)
              exact ⟨m, by simp [hm, orRaise]⟩
      | null => contradiction
      | _ => exact False.elim h
    · exact ⟨0, rfl⟩
  obtain ⟨n, hn⟩ := hint
  refine ⟨n.toNat, ?_⟩
  rw [counter, hn]
  rfl

theorem counters_isOk {d : Dict F} (h : ∀ k, IsCount fl (d.get (tokenName k))) :
    ∃ current, counters fl (.dict d) = .ok current := by
  obtain ⟨input, hinput⟩ := counter_isOk (h .input_tokens)
  obtain ⟨output, houtput⟩ := counter_isOk (h .output_tokens)
  obtain ⟨read, hread⟩ := counter_isOk (h .cache_read_tokens)
  obtain ⟨write, hwrite⟩ := counter_isOk (h .cache_write_tokens)
  obtain ⟨reasoning, hreasoning⟩ := counter_isOk (h .reasoning_tokens)
  unfold counters
  dsimp only
  rw [hinput, houtput, hread, hwrite, hreasoning]
  exact ⟨_, rfl⟩

theorem IsCounters.orElse {v : Value F} (h : IsCounters fl v) :
    ∃ current, counters fl (v.orElse fl (.dict [])) = .ok current := by
  have hempty : ∃ current, counters fl (.dict []) = .ok current :=
    counters_isOk fun k => True.intro
  unfold Value.orElse
  split
  · cases v with
    | dict d => exact counters_isOk h
    | null => contradiction
    | _ => exact False.elim h
  · exact hempty

theorem reportTokens_isOk {report : Dict F} (h : IsCounters fl (report.get "tokens")) :
    ∃ tokens, reportTokens fl report = .ok tokens := by
  unfold reportTokens
  split
  · generalize report.get "tokens" = v at *
    cases v with
    | dict d =>
        obtain ⟨current, hcurrent⟩ := counters_isOk h
        rw [hcurrent]
        exact ⟨_, rfl⟩
    | null => contradiction
    | _ => exact False.elim h
  · exact ⟨_, rfl⟩

theorem IsAmount.converts {v : Value F} (h : IsAmount v) : Converts v := by
  cases v with
  | null => exact h
  | num n => exact Num.Small.converts h
  | _ => exact False.elim h

theorem IsAmount.toFloat_isOk (fl : Floats F) {v : Value F} (h : IsAmount v) :
    ∃ x, (v.orElse fl .zero).toFloat fl = .ok x := by
  unfold Value.orElse
  split
  · cases v with
    | num n =>
        obtain ⟨x, hx, -⟩ := Num.toFloat_isOk fl (Num.Small.converts h)
        exact ⟨x, hx⟩
    | null => contradiction
    | _ => exact False.elim h
  · have hzero : (Num.int 0 : Num F).Converts := by
      intro n hn
      cases hn
      exact Nat.zero_le _
    obtain ⟨x, hx, -⟩ := Num.toFloat_isOk fl hzero
    exact ⟨x, hx⟩

theorem IsTime.toFloat_isOk {v : Value F} (h : IsTime fl v) (hnow : fl.isNaN now = false) :
    ∃ x, (v.orElse fl (.num (.float now))).toFloat fl = .ok x ∧ fl.isNaN x = false := by
  unfold Value.orElse
  split
  · cases v with
    | num n =>
        obtain ⟨x, hx, hnumber⟩ := Num.toFloat_isOk fl (Num.Small.converts h.1)
        refine ⟨x, hx, hnumber ?_⟩
        intro y hy
        have hfloat := h.2
        simpa only [hy] using hfloat
    | null => contradiction
    | _ => exact False.elim h
  · exact ⟨now, rfl, hnow⟩

theorem costOf_isOk (fl : Floats F) {v : Value F} (h : Converts v) : ∃ c, costOf fl v = .ok c := by
  cases v with
  | null => exact ⟨_, rfl⟩
  | num n =>
      obtain ⟨x, hx, -⟩ := Num.toFloat_isOk fl h
      have hx : (Value.num n).toFloat fl = .ok x := hx
      refine ⟨if fl.finite x = false ∨ fl.ltInt x 0 then none else some x, ?_⟩
      rw [costOf, hx]
      · rfl
      · intro h
        contradiction
  | _ => exact False.elim h

/-- A number over a mark. -/
theorem costOver_num (fl : Floats F) {previous n : Num F} (hprevious : previous.Small)
    (hn : n.Small) :
    ∃ rest, costOver fl previous (.num n) = .ok rest ∧ Converts rest := by
  obtain ⟨rest, hrest, hconverts⟩ := Num.sub_isOk fl hn hprevious
  refine ⟨.num ((Num.int 0).max fl rest), ?_, ?_⟩
  · rw [costOver]
    · simp only [Value.number, ok_bind, hrest]
      rfl
    · intro h
      contradiction
  · show ((Num.int 0).max fl rest).Converts
    unfold Num.max
    split
    · exact hconverts
    · intro m hm
      cases hm
      exact Nat.zero_le _

theorem costOver_isOk (fl : Floats F) {previous : Num F} {v : Value F} (hprevious : previous.Small)
    (h : IsAmount v) : ∃ rest, costOver fl previous v = .ok rest ∧ Converts rest := by
  cases v with
  | null => exact ⟨.null, rfl, True.intro⟩
  | num n => exact costOver_num fl hprevious h
  | _ => exact False.elim h

theorem IsAmount.number_isOk (fl : Floats F) {v : Value F} (h : IsAmount v) :
    ∃ n, (v.orElse fl .zero).number = .ok n ∧ n.Small := by
  unfold Value.orElse
  split
  · cases v with
    | num n => exact ⟨n, rfl, h⟩
    | null => contradiction
    | _ => exact False.elim h
  · exact ⟨.int 0, rfl, Nat.zero_le _⟩

theorem encodable_take {s : Str} (h : encodable s = true) (n : Nat) :
    encodable (s.take n) = true := by
  unfold encodable at *
  rw [List.all_eq_true] at *
  intro c hc
  exact h c (List.mem_of_mem_take hc)

theorem encodable_append {s t : Str} (hs : encodable s = true) (ht : encodable t = true) :
    encodable (s ++ t) = true := by
  unfold encodable at *
  rw [List.all_append, hs, ht]
  rfl

theorem IsText.encodable {v : Value F} {other : Str} (h : IsText v)
    (hother : encodable other = true) (n : Nat) :
    Intake.encodable ((strOf env (v.orElse fl (.str other))).take n) = true := by
  apply encodable_take
  unfold Value.orElse
  split
  · cases v with
    | str s => exact h
    | null => contradiction
    | _ => exact False.elim h
  · exact hother

/-- Arguments that `insert_event` converts. -/
structure Insertable (fl : Floats F) (now : F) (report : Dict F) : Prop where
  id : IsId (report.lookup (lit "id"))
  activity : (activityOf (report.get "activity")).isSome = true
  provider : IsText (report.get "provider")
  model : IsText (report.get "model")
  reference : IsText (report.get "reference")
  timestamp : ∃ x, ((report.get "timestamp").orElse fl (.num (.float now))).toFloat fl = .ok x
  tokens : IsCounters fl (report.get "tokens")
  fallback_cost : Converts (report.get "fallback_cost")
  provider_cost : Converts (report.get "provider_cost")

theorem insert_event_isOk {report : Dict F} (h : Insertable env.toFloats now report) :
    ∃ db', insert_event env now db report = .ok db' := by
  obtain ⟨activity, hactivity⟩ := Option.isSome_iff_exists.mp h.activity
  obtain ⟨fallback_cost, hfallback⟩ := costOf_isOk env.toFloats h.fallback_cost
  obtain ⟨provider_cost, hprovider⟩ := costOf_isOk env.toFloats h.provider_cost
  obtain ⟨timestamp, htimestamp⟩ := h.timestamp
  obtain ⟨tokens, htokens⟩ := reportTokens_isOk h.tokens
  have hid : ∃ s, report.lookup (lit "id") = some (.str s) ∧ encodable s = true := by
    have hid := h.id
    unfold IsId at hid
    split at hid
    · rename_i s hs
      exact ⟨s, hs, hid⟩
    · contradiction
  obtain ⟨id, hid, hencodable⟩ := hid
  unfold insert_event
  simp only [hactivity, hfallback, hprovider, hid, htimestamp, htokens, orRaise, ok_bind, Db.insert]
  rw [if_pos]
  · exact ⟨_, rfl⟩
  · refine ⟨encodable_take hencodable 512, h.provider.encodable ?_ 256, h.model.encodable ?_ 256,
      h.reference.encodable rfl 512⟩
    · decide
    · decide

theorem tokensValue_isCounters (tokens : Tokens) : IsCounters fl (tokensValue tokens) := by
  intro k
  cases k <;> exact True.intro

theorem noMarks_small : (noMarks : Marks (Num F)).cost.Small ∧
    (noMarks : Marks (Num F)).provider_cost.Small :=
  ⟨Nat.zero_le _, Nat.zero_le _⟩

theorem getD_small {old : Option (Marks (Num F))}
    (h : ∀ high, old = some high → high.cost.Small ∧ high.provider_cost.Small) :
    (old.getD noMarks).cost.Small ∧ (old.getD noMarks).provider_cost.Small := by
  cases old with
  | none => exact noMarks_small
  | some high => exact h high rfl

/-! ## Reports -/

theorem reportKey_isOk (env : Env F) {report : Dict F} (h : IsId (report.lookup (lit "id"))) :
    ∃ key, reportKey env report = .ok key ∧ encodable key = true := by
  have hown : ∃ key, (do
      let id ← orRaise .key (report.lookup (lit "id"))
      return lit "report:" ++ strOf env id : Except Exn Str) = .ok key ∧ encodable key = true := by
    unfold IsId at h
    split at h
    · rename_i s hs
      exact ⟨lit "report:" ++ s, by rw [hs]; rfl, encodable_append (by decide) h⟩
    · contradiction
  unfold reportKey
  dsimp only
  split
  · rename_i shared _
    split
    · rename_i hshared
      refine ⟨shared, rfl, ?_⟩
      unfold encodable
      rw [List.all_eq_true] at *
      intro c hc
      have hdigit := hshared.2 c hc
      have hall : ∀ c ∈ lit "0123456789abcdef", (c < 0xD800 || 0xDFFF < c) = true := by decide
      exact hall c (List.mem_of_elem_eq_true hdigit)
    · exact hown
  · exact hown

theorem insertGrown_isOk {report : Dict F} {key : Str} {previous : Marks (Num F)}
    {current : Tokens} {cost actual : Num F} {fallback_cost provider_cost : Value F}
    (h : WellFormedReport env.toFloats report) (hkey : encodable key = true)
    (hnow : env.isNaN now = false) (hfallback : Converts fallback_cost)
    (hprovider : Converts provider_cost) :
    ∃ db', insertGrown env now db report key previous current cost actual fallback_cost
      provider_cost = .ok db' := by
  unfold insertGrown
  dsimp only
  split
  · apply insert_event_isOk
    constructor
    · simp only [Dict.set, List.lookup_cons_self, IsId]
      exact encodable_append (encodable_append hkey (by decide)) (env.encodable_digest _)
    · simpa [Dict.get_set] using h.activity
    · simpa [Dict.get_set] using h.provider
    · simpa [Dict.get_set] using h.model
    · simpa [Dict.get_set] using h.reference
    · obtain ⟨x, hx, -⟩ := h.timestamp.toFloat_isOk hnow
      exact ⟨x, by simpa [Dict.get_set] using hx⟩
    · simpa [Dict.get_set] using tokensValue_isCounters _
    · simpa [Dict.get_set] using hfallback
    · simpa [Dict.get_set] using hprovider
  · exact ⟨db, rfl⟩

theorem importReport_isOk {report : Dict F} (h : WellFormedReport env.toFloats report)
    (hnow : env.isNaN now = false) (hdb : db.Ranged) :
    ∃ db', importReport env now db (.dict report) = .ok db' := by
  unfold importReport
  dsimp only
  split
  · obtain ⟨key, hkey, hencodable⟩ := reportKey_isOk env h.id
    have hstored : storedMarks db key = .ok (db.checkpoints key) := if_pos hencodable
    obtain ⟨hcost, hactual⟩ := getD_small (hdb key)
    obtain ⟨current, hcurrent⟩ := h.tokens.orElse
    obtain ⟨cost, hcost', -⟩ := h.fallback_cost.number_isOk env.toFloats
    obtain ⟨actual, hactual', -⟩ := h.provider_cost.number_isOk env.toFloats
    obtain ⟨fallback_cost, hfallback, hconverts⟩ := costOver_isOk env.toFloats hcost h.fallback_cost
    obtain ⟨provider_cost, hprovider, hconverts'⟩ :=
      costOver_isOk env.toFloats hactual h.provider_cost
    have hinserted : ∃ db₁, insertGrown env now db report key ((db.checkpoints key).getD noMarks)
        current cost actual fallback_cost provider_cost = .ok db₁ :=
      insertGrown_isOk h hencodable hnow hconverts hconverts'
    obtain ⟨db₁, hdb₁⟩ := hinserted
    unfold importCumulative
    simp only [hkey, hstored, hcurrent, hcost', hactual', hfallback, hprovider, hdb₁, ok_bind]
    exact ⟨_, rfl⟩
  · apply insert_event_isOk
    obtain ⟨x, hx, -⟩ := h.timestamp.toFloat_isOk hnow
    exact ⟨h.id, h.activity, h.provider, h.model, h.reference, ⟨x, hx⟩, h.tokens,
      h.fallback_cost.converts, h.provider_cost.converts⟩

/-! ## Rows -/

theorem rowValues_isOk {row : Dict F} (h : ∀ column ∈ rowColumns, IsText (row.get column)) :
    ∃ values, rowValues row = .ok values := by
  refine ⟨_, if_neg ?_⟩
  rw [List.any_eq_true]
  intro ⟨v, hv, hbytes⟩
  obtain ⟨column, hcolumn, rfl⟩ := List.mem_map.mp hv
  have htext := h column hcolumn
  cases hget : row.get column with
  | bytes s =>
      rw [hget] at htext
      exact htext
  | _ =>
      rw [hget] at hbytes
      contradiction

theorem seenBefore_isOk (fl : Floats F) {row : Dict F} (h : IsAmount (row.get "first_seen"))
    (asked : Bool) (since : F) : ∃ b, seenBefore fl row asked since = .ok b := by
  obtain ⟨first, hfirst⟩ := h.toFloat_isOk fl
  unfold seenBefore
  split
  · rw [hfirst]
    exact ⟨_, rfl⟩
  · exact ⟨_, rfl⟩

theorem sessionSource_isOk (fl : Floats F) {row : Dict F} (h : IsText (row.get "session_source")) :
    ∃ source, sessionSource fl row = .ok source ∧ encodable source = true := by
  unfold sessionSource Value.orElse
  generalize row.get "session_source" = v at *
  cases v with
  | null => exact ⟨[], rfl, rfl⟩
  | str s =>
      split
      · rename_i t ht
        refine ⟨t, rfl, ?_⟩
        split at ht
        · cases ht
          exact h
        · cases ht
          rfl
      · rename_i ht
        split at ht <;> contradiction
      · rename_i hne _
        split at hne
        · exact absurd rfl (hne s)
        · exact absurd rfl (hne [])
  | _ => exact False.elim h

theorem actualOver_isOk (fl : Floats F) {previous : Num F} {v : Value F}
    (hprevious : previous.Small) (h : IsAmount v) :
    ∃ rest, actualOver fl previous v = .ok rest ∧ Converts rest := by
  cases v with
  | null => exact ⟨.null, rfl, True.intro⟩
  | num n =>
      obtain ⟨x, hx, -⟩ := Num.toFloat_isOk fl (Num.Small.converts h)
      have hx : (Value.num n).toFloat fl = .ok x := hx
      obtain ⟨rest, hrest, hconverts⟩ := costOver_num fl hprevious (n := .float x) True.intro
      refine ⟨rest, ?_, hconverts⟩
      rw [actualOver, hx]
      · exact hrest
      · intro h
        contradiction
  | _ => exact False.elim h

theorem encodable_of_dropPrefix {s t u : Str} (h : s.dropPrefix? t = some u)
    (hs : encodable s = true) : encodable u = true := by
  obtain ⟨t', rfl, -⟩ := List.dropPrefix?_eq_some_iff.mp h
  unfold encodable at *
  rw [List.all_append, Bool.and_eq_true] at hs
  exact hs.2

theorem rowEvent_isOk {row : Dict F} {key : Str} {old : Option (Marks (Num F))}
    {current : Tokens} {cost actual : Num F} (h : WellFormedRow env.toFloats row)
    (hkey : encodable key = true) (hcost : cost.Small)
    (hold : (old.getD noMarks).cost.Small ∧ (old.getD noMarks).provider_cost.Small) :
    ∃ db', rowEvent env now db row key old current cost actual = .ok db' := by
  obtain ⟨historical, hhistorical⟩ :=
    seenBefore_isOk env.toFloats h.first_seen old.isNone db.started_at
  obtain ⟨source, hsource, hencodable⟩ := sessionSource_isOk env.toFloats h.session_source
  obtain ⟨provider_cost, hprovider, hconverts⟩ :=
    actualOver_isOk env.toFloats hold.2 h.actual
  have hamount : IsAmount (if isAccepted row then Value.num cost else .null) := by
    split
    · exact hcost
    · exact True.intro
  obtain ⟨fallback_cost, hfallback, hconverts'⟩ := costOver_isOk env.toFloats hold.1 hamount
  unfold rowEvent
  simp only [hhistorical, hsource, hprovider, hfallback, ok_bind]
  apply insert_event_isOk
  have htext : ∀ column ∈ rowColumns, IsText (row.get column) := h.values
  constructor
  · simp only [List.lookup_cons_self, IsId]
    exact encodable_append (encodable_append hkey (by decide)) (env.encodable_digest _)
  · simp only [Dict.get, List.lookup_cons, lit_beq, String.reduceEq, decide_false, decide_true,
      Option.getD_some]
    split
    · rfl
    · split <;> rfl
  · simpa [Dict.get, List.lookup_cons] using htext "billing_provider" (by decide)
  · simpa [Dict.get, List.lookup_cons] using htext "model" (by decide)
  · have hreference : IsText (((source.dropPrefix? (lit "openlia-migration:")).map Value.str).getD
        (row.get "session_id")) := by
      cases hmigrated : source.dropPrefix? (lit "openlia-migration:") with
      | none => exact htext "session_id" (by decide)
      | some rest => exact encodable_of_dropPrefix hmigrated hencodable
    simpa [Dict.get, List.lookup_cons] using hreference
  · refine ⟨now, ?_⟩
    simp [Dict.get, List.lookup_cons, Value.orElse, Value.toFloat, Num.toFloat, Num.exact]
  · simpa [Dict.get, List.lookup_cons] using tokensValue_isCounters _
  · simpa [Dict.get, List.lookup_cons] using hconverts'
  · simpa [Dict.get, List.lookup_cons] using hconverts

theorem importRow_isOk (now : F) {row : Dict F} (h : WellFormedRow env.toFloats row)
    (hdb : db.Ranged) :
    ∃ db', importRow env now db row = .ok db' := by
  obtain ⟨values, hvalues⟩ := rowValues_isOk h.values
  obtain ⟨current, hcurrent⟩ := counters_isOk h.tokens
  obtain ⟨estimated, hestimated⟩ := h.estimated.toFloat_isOk env.toFloats
  obtain ⟨actual, hactual⟩ := h.actual.toFloat_isOk env.toFloats
  have hcost : ((Num.int 0).max env.toFloats (.float estimated)).Small :=
    Num.Small.max (Nat.zero_le _) True.intro
  have hold : ∀ key high, (db.checkpoints key).or (db.checkpoints (env.legacy_key values)) =
      some high → high.cost.Small ∧ high.provider_cost.Small := by
    intro key high hor
    rcases Option.or_eq_some_iff.mp hor with hkey | ⟨-, hlegacy⟩
    · exact hdb key high hkey
    · exact hdb _ high hlegacy
  unfold importRow
  simp only [hvalues, hcurrent, hestimated, hactual, ok_bind]
  generalize hkey : env.source_key (values.map (·.orElse env.toFloats (.str []))) = key
  obtain ⟨baselined, hbaselined⟩ := seenBefore_isOk env.toFloats h.first_seen
    (isIngestion row && ((db.checkpoints key).or (db.checkpoints (env.legacy_key values))).isNone &&
      db.ingestion_ownership_since.isSome) (db.ingestion_ownership_since.getD db.started_at)
  simp only [hbaselined, ok_bind]
  have hencodable : encodable key = true := hkey ▸ env.encodable_source_key _
  split
  · have hevent : ∃ db₁, rowEvent env now db row key _ current _ (.float actual) = .ok db₁ :=
      rowEvent_isOk h hencodable hcost (getD_small (hold key))
    obtain ⟨db₁, hdb₁⟩ := hevent
    rw [hdb₁]
    exact ⟨_, rfl⟩
  · exact ⟨_, rfl⟩

end Success

/-! ## Exceptions that are caught -/

/-- Whole numbers among the costs that a float can hold. -/
def HarmlessCost : Value F → Prop
  | .num n => n.Small
  | _ => True

structure HarmlessReport (fl : Floats F) (report : Dict F) : Prop where
  tokens : (report.get "tokens").truthy fl = true → ∃ d, report.get "tokens" = .dict d
  fallback_cost : HarmlessCost (report.get "fallback_cost")
  provider_cost : HarmlessCost (report.get "provider_cost")

theorem caughtOnly_counters (d : Dict F) : CaughtOnly (counters fl (.dict d)) := by
  have hcounter : ∀ k, CaughtOnly (counter fl d k) := fun k =>
    (Value.caughtOnly_toInt _).bind fun n => .ok _
  exact (hcounter _).bind fun _ => (hcounter _).bind fun _ => (hcounter _).bind fun _ =>
    (hcounter _).bind fun _ => (hcounter _).bind fun _ => .ok _

theorem caughtOnly_costOf (v : Value F) : CaughtOnly (costOf fl v) := by
  unfold costOf
  split
  · exact .ok _
  · exact (Value.caughtOnly_toFloat _).bind fun x => .ok _

theorem caughtOnly_costOver (previous : Num F) (v : Value F) :
    CaughtOnly (costOver fl previous v) := by
  unfold costOver
  split
  · exact .ok _
  · exact (Value.caughtOnly_number _).bind fun cost =>
      (Num.caughtOnly_sub _ _).bind fun rest => .ok _

theorem caughtOnly_insert_event {report : Dict F}
    (h : (report.get "tokens").truthy env.toFloats = true → ∃ d, report.get "tokens" = .dict d) :
    CaughtOnly (insert_event env now db report) := by
  have htokens : CaughtOnly (reportTokens env.toFloats report) := by
    unfold reportTokens
    split
    · rename_i htruthy
      obtain ⟨d, hd⟩ := h htruthy
      rw [hd]
      exact (caughtOnly_counters d).bind fun _ => .ok _
    · exact .ok _
  have hinsert : ∀ e : Event F, CaughtOnly (db.insert env.toFloats e) := by
    intro e
    unfold Db.insert
    split
    · exact .ok _
    · exact .error rfl
  exact (caughtOnly_orRaise rfl _).bind fun _ => (caughtOnly_costOf _).bind fun _ =>
    (caughtOnly_costOf _).bind fun _ => (caughtOnly_orRaise rfl _).bind fun _ =>
      (Value.caughtOnly_toFloat _).bind fun _ => htokens.bind fun _ => hinsert _

theorem caughtOnly_reportKey (report : Dict F) : CaughtOnly (reportKey env report) := by
  have hown : CaughtOnly (do
      let id ← orRaise .key (report.lookup (lit "id"))
      return lit "report:" ++ strOf env id) :=
    (caughtOnly_orRaise rfl _).bind fun _ => .ok _
  unfold reportKey
  dsimp only
  split
  · split
    · exact .ok _
    · exact hown
  · exact hown

theorem caughtOnly_importReport {report : Dict F} (h : HarmlessReport env.toFloats report) :
    CaughtOnly (importReport env now db (.dict report)) := by
  unfold importReport
  dsimp only
  split
  · have hstored : ∀ key, CaughtOnly (storedMarks db key) := by
      intro key
      unfold storedMarks
      split
      · exact .ok _
      · exact .error rfl
    have hcounters : CaughtOnly (counters env.toFloats
        ((report.get "tokens").orElse env.toFloats (.dict []))) := by
      unfold Value.orElse
      split
      · rename_i htruthy
        obtain ⟨d, hd⟩ := h.tokens htruthy
        rw [hd]
        exact caughtOnly_counters d
      · exact caughtOnly_counters []
    have hgrown : ∀ key previous current cost actual fallback_cost provider_cost,
        CaughtOnly (insertGrown env now db report key previous current cost actual fallback_cost
          provider_cost) := by
      intro key previous current cost actual fallback_cost provider_cost
      unfold insertGrown
      dsimp only
      split
      · apply caughtOnly_insert_event
        intro _
        exact ⟨_, by simp [Dict.get_set]; rfl⟩
      · exact .ok _
    exact (caughtOnly_reportKey _).bind fun _ => (hstored _).bind fun _ => hcounters.bind fun _ =>
      (Value.caughtOnly_number _).bind fun _ => (Value.caughtOnly_number _).bind fun _ =>
        (caughtOnly_costOver _ _).bind fun _ => (caughtOnly_costOver _ _).bind fun _ =>
          (hgrown _ _ _ _ _ _ _).bind fun _ => .ok _
  · exact caughtOnly_insert_event h.tokens

end Openlia.Usage.Intake

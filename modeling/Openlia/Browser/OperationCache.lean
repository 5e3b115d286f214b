import Openlia.Lib.Fifo
import Openlia.Lib.Separators
import Openlia.Browser.RelayRuns

/-! # What the operation cache holds

The cache of an unfenced lease holds the last operations that have ended under
it, as many as it has room for. No operation is executed while its key is among
them.
-/

namespace Openlia.Browser

open Lib BrowserLeaseManager

set_option linter.unusedSectionVars false

variable {T : Type} [LinearOrder T] [Add T] {env : BrowserEnv T} {now : T}

def Execution.key (e : Execution) : String := cacheKey e.toolName e.operationId

/-- What the cache holds of an execution that has ended. -/
def Execution.entry (e : Execution) : Option (String × CachedBrowserOperation) :=
  e.answer.map fun answer => (e.key, operationRecord (stableJson e.arguments) answer)

/-- The executions under the lease of this generation. -/
def under (executions : List Execution) (generation : Nat) : List Execution :=
  executions.filter fun e => e.generation = generation

structure OperationsInv (s : BrowserRelay T) : Prop where
  known : ∀ e ∈ s.executions, e.toolName ∈ mutatingToolNames ∧ e.arguments.WellFormed
  bound : ∀ e ∈ s.executions, e.generation ≤ s.manager.generation
  begun : ∀ e ∈ s.executions, ∃ c, s.calls[e.call]? = some c ∧ c.phase ≠ .waiting ∧
    c.tool.operationId ≠ none ∧ (e.answer = none → c.phase = .running e.generation)
  last : ∀ {k : Nat} {c : BrowserCall} {g : Nat} {operationId : String}, s.calls[k]? = some c →
    c.phase = .running g → c.tool.operationId = some operationId → ∃ xs,
      s.executions = xs ++ [⟨k, g, c.tool.toolName, operationId, c.tool.arguments, none⟩] ∧
        ∀ e ∈ xs, e.call ≠ k ∧ e.answer ≠ none
  spaced : ∀ g, Spaced maxCachedOperations Execution.key (under s.executions g)
  cache : ∀ l, s.manager.active = some l → l.fenced = true ∨ l.operationCache =
    ((under s.executions l.generation).filterMap Execution.entry).rtake maxCachedOperations

/-- The names of the mutating tools hold no NUL, so a cache key names one
operation. -/
theorem cacheKey_inj {tool tool' operationId operationId' : String}
    (h : tool ∈ mutatingToolNames) (h' : tool' ∈ mutatingToolNames)
    (he : cacheKey tool operationId = cacheKey tool' operationId') :
    tool = tool' ∧ operationId = operationId' := by
  have hnul : ∀ t ∈ mutatingToolNames, '\x00' ∉ t.toList := by decide
  have hlist := congrArg String.toList he
  have hone : "\x00".toList = ['\x00'] := rfl
  simp only [cacheKey, String.toList_append, hone, List.append_assoc, List.cons_append,
    List.nil_append] at hlist
  obtain ⟨ht, ho⟩ := cut_inj (hnul _ h) (hnul _ h') hlist
  exact ⟨String.toList_injective ht, String.toList_injective ho⟩

theorem under_append (xs ys : List Execution) (g : Nat) :
    under (xs ++ ys) g = under xs g ++ under ys g := List.filter_append ..

theorem under_singleton (e : Execution) (g : Nat) :
    under [e] g = if e.generation = g then [e] else [] := by
  by_cases h : e.generation = g <;> simp [under, h]

/-- A key that is not in the cache is put behind the others. -/
theorem cachePut_new {cache : List (String × CachedBrowserOperation)} {key : String}
    {value : CachedBrowserOperation} (h : key ∉ cache.map Prod.fst) :
    cachePut cache key value = push maxCachedOperations cache (key, value) := by
  unfold cachePut push
  rw [if_neg]
  intro hany
  obtain ⟨e, he, hkey⟩ := List.any_eq_true.mp hany
  exact h (List.mem_map.mpr ⟨e, he, by simpa using hkey⟩)

theorem pending_entry {e : Execution} (h : e.answer = none) :
    [e].filterMap Execution.entry = [] := by
  simp [Execution.entry, h]

/-- The entry of an execution that has ended. -/
def Execution.ended (e : Execution) : String × CachedBrowserOperation :=
  (e.key, operationRecord (stableJson e.arguments) (e.answer.getD (.ok none)))

theorem entries_eq_map {xs : List Execution} (h : ∀ e ∈ xs, e.answer ≠ none) :
    xs.filterMap Execution.entry = xs.map Execution.ended := by
  induction xs with
  | nil => rfl
  | cons e xs ih =>
      obtain ⟨answer, ha⟩ := Option.ne_none_iff_exists'.mp (h e (by simp))
      have he : e.entry = some e.ended := by simp [Execution.entry, Execution.ended, ha]
      rw [List.filterMap_cons_some he, List.map_cons,
        ih fun e' he' => h e' (List.mem_cons_of_mem _ he')]

theorem entries_map_fst {xs : List Execution} (h : ∀ e ∈ xs, e.answer ≠ none) :
    (xs.filterMap Execution.entry).map Prod.fst = xs.map Execution.key := by
  rw [entries_eq_map h, List.map_map]
  rfl

theorem OperationsInv.keeps {cancelled : String → Prop} {s : BrowserRelay T}
    {m' : BrowserLeaseManager T} (h : OperationsInv s) (hk : Keeps env now cancelled s.manager m') :
    OperationsInv { s with manager := m' } where
  known := h.known
  bound e he := (h.bound e he).trans hk.generation
  begun := h.begun
  last := h.last
  spaced := h.spaced
  cache l' hl' := by
    rcases hk.lease l' hl' with ⟨l, hl, hc⟩ | hf
    · rcases hc.cache with hfenced | hsame
      · exact .inl hfenced
      · rw [hsame, hc.generation]
        exact (h.cache l hl).imp_left hc.fenced
    · -- nothing was executed yet under a lease granted in this step
      refine hf.cache.imp_right fun hempty => ?_
      have hnone : under s.executions l'.generation = [] := by
        refine List.filter_eq_nil_iff.mpr fun e he => ?_
        have hle := h.bound e he
        have hlt := hf.generation
        simp only [decide_eq_true_eq]
        omega
      rw [hempty, show under ({ s with manager := m' } : BrowserRelay T).executions l'.generation =
        [] from hnone]
      rfl

/-- The active lease is changed, but for its cache and its fence. -/
theorem OperationsInv.setActive {s : BrowserRelay T} {l l' : ActiveBrowserLease T}
    (h : OperationsInv s) (hl : s.manager.active = some l) (hgen : l'.generation = l.generation)
    (hfenced : l'.fenced = l.fenced) (hcache : l'.operationCache = l.operationCache) :
    OperationsInv { s with manager := { s.manager with active := some l' } } where
  known := h.known
  bound := h.bound
  begun := h.begun
  last := h.last
  spaced := h.spaced
  cache := by
    rintro _ ⟨⟩
    rw [hfenced, hcache, hgen]
    exact h.cache l hl

/-- A call moves on without executing anything. -/
theorem OperationsInv.moves {s : BrowserRelay T} {k : Nat} {c : BrowserCall} {q : CallPhase}
    (h : OperationsInv s) (hk : s.calls[k]? = some c) (hq : q ≠ .waiting)
    (hrun : ∀ g, q = .running g → c.tool.operationId = none)
    (hended : ∀ e ∈ s.executions, e.call = k → e.answer ≠ none) :
    OperationsInv { s with calls := setPhase s.calls k q } where
  known := h.known
  bound := h.bound
  begun e he := by
    obtain ⟨c₀, hc₀, hw, ho, ha⟩ := h.begun e he
    by_cases hek : e.call = k
    · subst hek
      exact ⟨{ c₀ with phase := q }, setPhase_self hc₀, hq, ho,
        fun hn => absurd hn (hended e he rfl)⟩
    · exact ⟨c₀, (setPhase_ne hek).trans hc₀, hw, ho, ha⟩
  last {i c' g operationId} hi hrunning ho := by
    obtain ⟨d, hd, rfl⟩ := getElem?_setPhase hi
    by_cases hik : i = k
    · subst hik
      cases hd.symm.trans hk
      rw [if_pos rfl] at hrunning ho
      rw [hrun g hrunning] at ho
      cases ho
    · rw [if_neg hik] at hrunning ho ⊢
      exact h.last hd hrunning ho
  spaced := h.spaced
  cache := h.cache

/-- While no operation runs, every execution has ended. -/
theorem OperationsInv.ended {s : BrowserRelay T} (h : OperationsInv s)
    (hfree : ∀ {i : Nat} {d : BrowserCall} {g : Nat}, s.calls[i]? = some d → ¬ d.phase.Holds g) :
    ∀ e ∈ s.executions, e.answer ≠ none := by
  intro e he hn
  obtain ⟨c, hc, -, -, hrun⟩ := h.begun e he
  refine hfree (g := e.generation) hc ?_
  rw [hrun hn]
  exact rfl

/-- An operation is executed: its key is not in the cache of its lease. -/
theorem OperationsInv.execute {s : BrowserRelay T} {k : Nat} {c : BrowserCall}
    {l : ActiveBrowserLease T} {operationId : String} (h : OperationsInv s)
    (hinv : Inv env s.manager) (hk : s.calls[k]? = some c) (hw : c.phase = .waiting)
    (ho : c.tool.operationId = some operationId) (hl : s.manager.active = some l)
    (hf : l.fenced = false)
    (hfree : ∀ {i : Nat} {d : BrowserCall} {g : Nat}, s.calls[i]? = some d → ¬ d.phase.Holds g)
    (hnew : l.runMutating c.tool.toolName operationId (stableJson c.tool.arguments) = none) :
    OperationsInv { s with
      calls := setPhase s.calls k (.running l.generation)
      executions := s.executions ++
        [⟨k, l.generation, c.tool.toolName, operationId, c.tool.arguments, none⟩] } := by
  have hended := h.ended hfree
  have hcall : ∀ e ∈ s.executions, e.call ≠ k := by
    rintro e he rfl
    obtain ⟨c₀, hc₀, hnw, -⟩ := h.begun e he
    cases hc₀.symm.trans hk
    exact hnw hw
  have hcache := (h.cache l hl).resolve_left (by simp [hf])
  refine ⟨fun e he => ?_, fun e he => ?_, fun e he => ?_, fun {i c' g o} hi hrunning ho' => ?_,
    fun g => ?_, fun l' hl' => ?_⟩
  · rcases List.mem_append.mp he with he | he
    · exact h.known e he
    · obtain rfl := List.mem_singleton.mp he
      exact ⟨c.tool.mutating (by simp [ho]), c.tool.wellFormed⟩
  · rcases List.mem_append.mp he with he | he
    · exact h.bound e he
    · obtain rfl := List.mem_singleton.mp he
      exact hinv.generation l hl
  · rcases List.mem_append.mp he with he | he
    · obtain ⟨c₀, hc₀, hnw, ho₀, ha⟩ := h.begun e he
      exact ⟨c₀, (setPhase_ne (hcall e he)).trans hc₀, hnw, ho₀, ha⟩
    · obtain rfl := List.mem_singleton.mp he
      exact ⟨{ c with phase := .running l.generation }, setPhase_self hk, by simp, by simp [ho],
        fun _ => rfl⟩
  · obtain ⟨d, hd, rfl⟩ := getElem?_setPhase hi
    by_cases hik : i = k
    · subst hik
      cases hd.symm.trans hk
      rw [if_pos rfl] at hrunning ho' ⊢
      cases hrunning
      cases ho.symm.trans ho'
      exact ⟨s.executions, rfl, fun e he => ⟨hcall e he, hended e he⟩⟩
    · rw [if_neg hik] at hrunning
      exact absurd (by rw [hrunning]; exact rfl) (hfree (g := g) hd)
  · simp only [under_append, under_singleton]
    split
    · rename_i hg
      refine (h.spaced g).concat ?_
      have hlookup : l.operationCache.lookup (cacheKey c.tool.toolName operationId) = none := by
        unfold ActiveBrowserLease.runMutating at hnew
        split at hnew
        · assumption
        · split at hnew
          · cases hnew
          · split at hnew <;> cases hnew
      have hall : ∀ e ∈ under s.executions l.generation, e.answer ≠ none :=
        fun e he => hended e (List.mem_filter.mp he).1
      intro hmem
      have hmem' : cacheKey c.tool.toolName operationId ∈ l.operationCache.map Prod.fst := by
        rw [hcache, ← rtake_map, entries_map_fst hall, rtake_map, hg]
        exact hmem
      obtain ⟨entry, hentry, hkey⟩ := List.mem_map.mp hmem'
      have := List.lookup_eq_none_iff.mp hlookup entry hentry
      simp [hkey] at this
    · rw [List.append_nil]
      exact h.spaced g
  · refine (h.cache l' hl').imp_right fun hc => ?_
    rw [hc]
    simp only [under_append, under_singleton, List.filterMap_append]
    split
    · rw [pending_entry rfl, List.append_nil]
    · simp

/-- The last execution, that of call `k`, gets its answer. -/
theorem answered_executions {executions xs : List Execution} {e₀ : Execution} {a : CallAnswer}
    (hxs : executions = xs ++ [e₀]) (hold : ∀ e ∈ xs, e.call ≠ e₀.call) :
    (executions.map fun e => if e.call = e₀.call then { e with answer := some a } else e) =
      xs ++ [{ e₀ with answer := some a }] := by
  rw [hxs, List.map_append]
  congr 1
  · exact (List.map_congr_left fun e he => if_neg (hold e he)).trans (List.map_id' xs)
  · simp

/-- The operation that runs ends, and is put into the cache of its lease. -/
theorem OperationsInv.record {s : BrowserRelay T} {k g : Nat} {c : BrowserCall}
    {operationId : String} {answer : CallAnswer} (h : OperationsInv s)
    (hholding : Holding s.manager s.calls) (hk : s.calls[k]? = some c)
    (hrun : c.phase = .running g) (ho : c.tool.operationId = some operationId) :
    OperationsInv (s.answer k c g answer) := by
  obtain ⟨xs, hxs, hold⟩ := h.last hk hrun ho
  have hholds : c.phase.Holds g := by rw [hrun]; exact rfl
  let ended : Execution := ⟨k, g, c.tool.toolName, operationId, c.tool.arguments, some answer⟩
  have hmap := answered_executions (a := answer) hxs fun e he => (hold e he).1
  have hold' : ∀ e ∈ xs, e ∈ s.executions := fun e he => hxs ▸ List.mem_append_left _ he
  have hlast : (⟨k, g, c.tool.toolName, operationId, c.tool.arguments, none⟩ : Execution) ∈
      s.executions := by simp [hxs]
  simp only [BrowserRelay.answer, ho, hmap]
  refine ⟨fun e he => ?_, fun e he => ?_, fun e he => ?_, fun {i c' g' o} hi hrunning ho' => ?_,
    fun g' => ?_, fun l' hl' => ?_⟩
  · rcases List.mem_append.mp he with he | he
    · exact h.known e (hold' e he)
    · obtain rfl := List.mem_singleton.mp he
      have hknown := h.known _ hlast
      exact hknown
  · rcases List.mem_append.mp he with he | he
    · exact h.bound e (hold' e he)
    · obtain rfl := List.mem_singleton.mp he
      have hbound := h.bound _ hlast
      exact hbound
  · rcases List.mem_append.mp he with he | he
    · obtain ⟨c₀, hc₀, hw, ho₀, ha⟩ := h.begun e (hold' e he)
      exact ⟨c₀, (setPhase_ne (hold e he).1).trans hc₀, hw, ho₀, ha⟩
    · obtain rfl := List.mem_singleton.mp he
      exact ⟨_, setPhase_self hk, by simp, by simp [ho], by simp⟩
  · obtain ⟨d, hd, rfl⟩ := getElem?_setPhase hi
    by_cases hik : i = k
    · rw [if_pos hik] at hrunning
      cases hrunning
    · rw [if_neg hik] at hrunning
      exact absurd (hholding.one hd hk (by rw [hrunning]; exact rfl) hholds) hik
  · have hsp := h.spaced g'
    rw [hxs] at hsp
    simp only [under_append, under_singleton] at hsp ⊢
    split at hsp
    · rename_i hg
      rw [if_pos (show ended.generation = g' from hg)]
      exact hsp.congr (by simp [Execution.key])
    · rename_i hg
      rw [if_neg (show ¬ ended.generation = g' from hg)]
      exact hsp
  · obtain ⟨l, hl, hgen, -, -⟩ := hholding.active hk hholds
    rw [hl, Option.map_some, if_pos hgen] at hl'
    cases hl'
    refine (h.cache l hl).imp_right fun hc => ?_
    have hsp := h.spaced g
    rw [hxs, under_append, under_singleton, if_pos rfl] at hsp
    rw [hxs, under_append, under_singleton, if_pos hgen.symm, List.filterMap_append,
      pending_entry rfl, List.append_nil, hgen] at hc
    have hall : ∀ e ∈ under xs g, e.answer ≠ none :=
      fun e he => (hold e (List.mem_filter.mp he).1).2
    have hnew : ended.key ∉ l.operationCache.map Prod.fst := by
      rw [hc, ← rtake_map, entries_map_fst hall, rtake_map]
      exact hsp.last
    have hentry : [ended].filterMap Execution.entry =
        [(ended.key, operationRecord (stableJson c.tool.arguments) answer)] := rfl
    show cachePut l.operationCache ended.key _ =
      ((under (xs ++ [ended]) l.generation).filterMap Execution.entry).rtake maxCachedOperations
    rw [cachePut_new hnew, hc, push_rtake (by decide), hgen, under_append, under_singleton,
      if_pos rfl, List.filterMap_append, hentry]

/-- A call is appended to the chain. -/
theorem OperationsInv.called {s : BrowserRelay T} {c : BrowserCall} (h : OperationsInv s)
    (hw : c.phase = .waiting) : OperationsInv { s with calls := s.calls ++ [c] } where
  known := h.known
  bound := h.bound
  begun e he := by
    obtain ⟨c₀, hc₀, hrest⟩ := h.begun e he
    have hlen := (List.getElem?_eq_some_iff.mp hc₀).1
    exact ⟨c₀, (List.getElem?_append_left hlen).trans hc₀, hrest⟩
  last {k c' g o} hk hrunning ho := by
    have hlen := (List.getElem?_eq_some_iff.mp hk).1
    rw [List.length_append, List.length_singleton] at hlen
    rcases Nat.lt_or_ge k s.calls.length with hlt | hge
    · exact h.last ((List.getElem?_append_left hlt).symm.trans hk) hrunning ho
    · obtain rfl : k = s.calls.length := by omega
      rw [List.getElem?_concat_length] at hk
      cases hk
      rw [hw] at hrunning
      cases hrunning
  spaced := h.spaced
  cache := h.cache

/-- The calls of the executions have started. -/
theorem OperationsInv.started {s : BrowserRelay T} {k : Nat} {c : BrowserCall}
    (h : OperationsInv s) (hk : s.calls[k]? = some c) (hw : c.phase = .waiting) :
    ∀ e ∈ s.executions, e.call ≠ k := by
  rintro e he rfl
  obtain ⟨c₀, hc₀, hnw, -⟩ := h.begun e he
  cases hc₀.symm.trans hk
  exact hnw hw

theorem performed_operations {s t : BrowserRelay T} {a : BrowserAction}
    (h : RelayInv env s.manager s.calls) (ho : OperationsInv s) (hp : Performed env now s a t) :
    OperationsInv t := by
  cases hp with
  | method _ keeps => exact ho.keeps keeps
  | @called token tool l m' keeps active current =>
      have hset : OperationsInv { s with manager :=
          { m' with active := some { l with callChain := some s.calls.length } } } :=
        (ho.keeps keeps).setActive active rfl rfl rfl
      exact hset.called (c := ⟨token, tool, l.callChain, .waiting⟩) rfl
  | @refused k c e m' call waiting ready keeps =>
      exact (ho.keeps keeps).moves call (by simp) (by simp)
        fun e he hk => absurd hk (ho.started call waiting e he)
  | @started k c l m' call waiting ready keeps active current unfenced unexpired =>
      have hk := h.keeps keeps
      have hset : OperationsInv { s with manager := { m' with active := some (l.begin now) } } :=
        (ho.keeps keeps).setActive active rfl rfl rfl
      have hended : ∀ e ∈ s.executions, e.call = k → e.answer ≠ none :=
        fun e he hek => absurd hek (ho.started call waiting e he)
      unfold ToolCall.begin
      split
      · rename_i hop
        rw [List.append_nil]
        exact hset.moves call (by simp) (fun _ _ => hop) hended
      · rename_i operationId hop
        split
        · rw [List.append_nil]
          exact hset.moves call (by simp) (by simp) hended
        · rename_i hnew
          have hinv : Inv env { m' with active := some (l.begin now) } :=
            hk.manager.setActive active rfl rfl rfl rfl (min_le_right _ _)
          exact hset.execute hinv call waiting hop rfl unfenced
            (hk.free call waiting ready active current) hnew
  | @answered k g c answer call running =>
      cases hop : c.tool.operationId with
      | none =>
          have hended : ∀ e ∈ s.executions, e.call = k → e.answer ≠ none := by
            rintro e he rfl
            obtain ⟨c₀, hc₀, -, hop₀, -⟩ := ho.begun e he
            cases hc₀.symm.trans call
            exact absurd hop hop₀
          simp only [BrowserRelay.answer, hop]
          exact ho.moves call (by simp) (by simp) hended
      | some operationId => exact ho.record h.holding call running hop
  | @settled k g c answer call answered =>
      have hholds : c.phase.Holds g := by rw [answered]; exact rfl
      obtain ⟨l, hl, rfl, -, hone⟩ := h.holding.active call hholds
      have hidle : OperationsInv { s with manager :=
          { s.manager with active := some { l with activeCalls := 0 } } } :=
        ho.setActive hl rfl rfl rfl
      have hend : Keeps env now (fun _ => False) _ _ := endCall_keeps h.manager hl hone
      have hset := hidle.keeps hend
      have hended : ∀ e ∈ s.executions, e.call = k → e.answer ≠ none := by
        rintro e he rfl hn
        obtain ⟨c₀, hc₀, -, -, hrun⟩ := ho.begun e he
        cases hc₀.symm.trans call
        rw [answered] at hrun
        cases hrun hn
      exact hset.moves call (by simp) (by simp) hended

theorem operations_initial (t₀ : T) : OperationsInv (BrowserRelay.initial t₀) := by
  refine ⟨?_, ?_, ?_, ?_, fun g => Spaced.nil, ?_⟩ <;>
    simp [BrowserRelay.initial, BrowserLeaseManager.initial]

theorem next_operations {s t : BrowserRelay T} {e : BrowserEvent T}
    (h : RelayInv env s.manager s.calls) (ho : OperationsInv s) (hn : s.next env e t) :
    OperationsInv t := by
  obtain ⟨u, -, hp, rfl⟩ := next_performed h hn
  have hu := performed_operations h ho hp
  exact ⟨hu.known, hu.bound, hu.begun, hu.last, hu.spaced, hu.cache⟩

theorem run_operations {t₀ : T} {taken : List (Taken (BrowserRelay T) (BrowserEvent T))}
    {s : BrowserRelay T} (h : Run (BrowserRelay.next env) (.initial t₀) taken s) :
    OperationsInv s ∧ ∀ x ∈ taken, OperationsInv x.before ∧ OperationsInv x.after := by
  have hboth := h.invariant (I := fun s => RelayInv env s.manager s.calls ∧ OperationsInv s)
    ⟨relayInv_initial t₀, operations_initial t₀⟩
    fun s e t hs hn => ⟨next_inv hs.1 hn, next_operations hs.1 hs.2 hn⟩
  exact ⟨hboth.1.2, fun x hx => ⟨(hboth.2 x hx).1.2, (hboth.2 x hx).2.2⟩⟩

end Openlia.Browser

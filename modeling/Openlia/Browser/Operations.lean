import Openlia.Browser.OperationCache

/-! # Operation ids

When a mutating call is let in under a lease, what was executed under that lease
before it decides whether it is executed. The record of executions is bounded
and shared by successes and uncertain outcomes, so it answers for an operation
id only while the last execution under the id is recent.
-/

namespace Openlia.Browser

open Lib Json BrowserLeaseManager

set_option linter.unusedSectionVars false

variable {T : Type} [LinearOrder T] [Add T] {env : BrowserEnv T} {now : T}

namespace Execution

/-- An execution of the operation that the tool and the id name. -/
def Of (e : Execution) (toolName operationId : String) : Prop :=
  e.toolName = toolName ∧ e.operationId = operationId

instance (e : Execution) (toolName operationId : String) : Decidable (e.Of toolName operationId) :=
  inferInstanceAs (Decidable (_ ∧ _))

/-- It ended with an error, an abort or an error result. -/
def Uncertain (e : Execution) : Prop :=
  (∃ message, e.answer = some (.error message)) ∨
    ∃ result, e.answer = some (.ok result) ∧ isUncertainToolResult result = true

def Succeeded (e : Execution) (result : Option Json) : Prop :=
  e.answer = some (.ok result) ∧ isUncertainToolResult result = false

end Execution

abbrev RelayStep (T : Type) := Taken (BrowserRelay T) (BrowserEvent T)

/-- In this step the turn of a mutating call comes, and it is let in under the
lease: its token is current, the lease unfenced and not expired. -/
structure LetIn (x : RelayStep T) (k : Nat) (c : BrowserCall) (operationId : String)
    (l : ActiveBrowserLease T) : Prop where
  start : x.action.action = .start k
  call : x.before.calls[k]? = some c
  mutating : c.tool.operationId = some operationId
  active : x.before.manager.active = some l
  current : l.token = c.token
  unfenced : l.fenced = false
  unexpired : x.action.now < l.expiresAt

def NotExecuted (x : RelayStep T) : Prop := x.after.executions = x.before.executions

/-- The call gets its answer in this step. -/
def Answers (x : RelayStep T) (k : Nat) (answer : CallAnswer) : Prop :=
  ∃ c g, x.after.calls[k]? = some c ∧ c.phase = .answered g answer

/-- An operation id is executed once: not again after an uncertain outcome, not
again after a success that fewer than 128 other operations followed, whose
recorded result the repeat returns, and not with other arguments. -/
def OnceOnly (x : RelayStep T) : Prop :=
  ∀ k c operationId l, LetIn x k c operationId l → ∀ before e after,
    under x.before.executions l.generation = before ++ e :: after →
    e.Of c.tool.toolName operationId →
      (e.Uncertain → NotExecuted x) ∧
      (∀ result, e.Succeeded result →
        (after.filter fun e' => ¬ e'.Of c.tool.toolName operationId).length < maxCachedOperations →
          NotExecuted x ∧ (Same e.arguments c.tool.arguments → Answers x k (.ok result))) ∧
      (¬ Same e.arguments c.tool.arguments →
        NotExecuted x ∧ ∃ message, Answers x k (.error message))

/-- The last execution under the operation id is recent, or it succeeded with the
same arguments; other arguments have another canonical text. -/
def Remembers (x : RelayStep T) : Prop :=
  ∀ k c operationId l, LetIn x k c operationId l → ∀ before e after,
    under x.before.executions l.generation = before ++ e :: after →
    e.Of c.tool.toolName operationId →
    (∀ e' ∈ after, ¬ e'.Of c.tool.toolName operationId) →
      (e.Uncertain → after.length < maxCachedOperations) ∧
      (¬ e.Uncertain → Same e.arguments c.tool.arguments ∨
        after.length < maxCachedOperations ∧
          stableJson e.arguments ≠ stableJson c.tool.arguments)

/-- Executions under one operation id, but for the last, succeeded with the same
arguments. -/
def Repeats (xs : List Execution) : Prop :=
  xs.Pairwise fun e e' => e'.Of e.toolName e.operationId →
    (∃ result, e.Succeeded result) ∧ Same e.arguments e'.arguments

/-! ## The step in which a call is let in -/

theorem validateCurrent_valid (env : BrowserEnv T) {m : BrowserLeaseManager T}
    {l : ActiveBrowserLease T} (hl : m.active = some l) (hne : l.token ≠ "") (hf : l.fenced = false)
    (hnow : now < l.expiresAt) :
    m.validateCurrent env now (some l.token) = (.ok l,
      { m with queue := m.queue.filter fun request => ¬ request.expiresAt ≤ now }) := by
  simp [validateCurrent, reap, hl, hne, hf, not_le_of_gt hnow]

theorem letIn_step {x : RelayStep T} {k : Nat} {c : BrowserCall} {operationId : String}
    {l : ActiveBrowserLease T} (h : RelayInv env x.before.manager x.before.calls)
    (hn : x.before.next env x.action x.after) (hin : LetIn x k c operationId l) :
    c.phase = .waiting ∧ x.before.ready c = true ∧
    x.after.calls = setPhase x.before.calls k (c.tool.begin k (l.begin x.action.now)).1 ∧
    x.after.executions = x.before.executions ++ (c.tool.begin k (l.begin x.action.now)).2 := by
  obtain ⟨u, hu, -, ht⟩ := next_performed h hn
  obtain ⟨i, -, hi⟩ := h.manager.token l hin.active
  have hval := validateCurrent_valid env hin.active (hi ▸ env.randomUUID_ne_empty i)
    hin.unfenced hin.unexpired
  rw [hin.start] at hu
  simp only [BrowserRelay.perform, hin.call] at hu
  split at hu
  · rename_i hw
    split at hu
    · rename_i hr
      cases hu
      rw [hin.current] at hval
      rw [ht]
      simp only [BrowserRelay.start, beginCall, hval]
      exact ⟨hw, hr, rfl, rfl⟩
    · cases hu
  · cases hu

/-! ## What the cache answers -/

theorem of_iff_key {e : Execution} {toolName operationId : String}
    (he : e.toolName ∈ mutatingToolNames) (ht : toolName ∈ mutatingToolNames) :
    e.Of toolName operationId ↔ e.key = cacheKey toolName operationId := by
  constructor
  · rintro ⟨h, h'⟩
    rw [Execution.key, h, h']
  · exact fun h => cacheKey_inj he ht h

/-- The answer to a repeat of an execution that is remembered. -/
def repeatAnswer (e : Execution) (answer : CallAnswer) (tool : ToolCall) (operationId : String) :
    CallAnswer :=
  if stableJson e.arguments ≠ stableJson tool.arguments then
    .error (s!"operation_id {operationId} was reused with different arguments; " ++
      "use a new operation_id")
  else
    match (operationRecord (stableJson e.arguments) answer).outcome with
    | .uncertain =>
        .error (s!"operation {tool.toolName}/{operationId} may have had side effects; " ++
          "do not retry, reconcile browser state before choosing a new operation_id")
    | .success => .ok (operationRecord (stableJson e.arguments) answer).result

/-- The call of a mutating tool under an unfenced lease while no operation runs. -/
structure Repeat (s : BrowserRelay T) (l : ActiveBrowserLease T) (tool : ToolCall)
    (operationId : String) : Prop where
  active : s.manager.active = some l
  unfenced : l.fenced = false
  ended : ∀ e ∈ s.executions, e.answer ≠ none
  known : tool.toolName ∈ mutatingToolNames
  mutating : tool.operationId = some operationId

section Repeat

variable {s : BrowserRelay T} {l : ActiveBrowserLease T} {tool : ToolCall} {operationId : String}
  {k : Nat}

theorem Repeat.cache (hr : Repeat s l tool operationId) (h : OperationsInv s) :
    l.operationCache =
      ((under s.executions l.generation).rtake maxCachedOperations).map Execution.ended := by
  have hall : ∀ e ∈ under s.executions l.generation, e.answer ≠ none :=
    fun e he => hr.ended e (List.mem_filter.mp he).1
  rw [(h.cache l hr.active).resolve_left (by simp [hr.unfenced]), entries_eq_map hall, rtake_map]

/-- An operation that is not remembered is executed. -/
theorem Repeat.runMutating_new (hr : Repeat s l tool operationId) (h : OperationsInv s)
    (hnew : ∀ e ∈ (under s.executions l.generation).rtake maxCachedOperations,
      ¬ e.Of tool.toolName operationId) (argumentsKey : List Char) :
    l.runMutating tool.toolName operationId argumentsKey = none := by
  have hlookup : l.operationCache.lookup (cacheKey tool.toolName operationId) = none := by
    rw [hr.cache h, List.lookup_eq_none_iff]
    intro p hp
    obtain ⟨e, he, rfl⟩ := List.mem_map.mp hp
    have hmem := (List.mem_filter.mp (List.mem_of_mem_drop he)).1
    have hne : e.key ≠ cacheKey tool.toolName operationId :=
      mt (of_iff_key (h.known e hmem).1 hr.known).mpr (hnew e he)
    simpa [Execution.ended] using hne.symm
  rw [ActiveBrowserLease.runMutating, hlookup]

theorem Repeat.begin_new {n : T} (hr : Repeat s l tool operationId) (h : OperationsInv s)
    (hnew : ∀ e ∈ (under s.executions l.generation).rtake maxCachedOperations,
      ¬ e.Of tool.toolName operationId) :
    tool.begin k (l.begin n) = (.running l.generation,
      [⟨k, l.generation, tool.toolName, operationId, tool.arguments, none⟩]) := by
  have hrun : (l.begin n).runMutating tool.toolName operationId (stableJson tool.arguments) =
      none := hr.runMutating_new h hnew _
  simp only [ToolCall.begin, hr.mutating, hrun]
  rfl

/-- An operation that is remembered is answered from the cache. -/
theorem Repeat.begin_known {n : T} {e : Execution} {before after : List Execution}
    {answer : CallAnswer} (hr : Repeat s l tool operationId) (h : OperationsInv s)
    (hsplit : under s.executions l.generation = before ++ e :: after)
    (he : e.Of tool.toolName operationId) (hfew : after.length < maxCachedOperations)
    (ha : e.answer = some answer) :
    tool.begin k (l.begin n) =
      (.answered l.generation (repeatAnswer e answer tool operationId), []) := by
  have hmem : e ∈ (under s.executions l.generation).rtake maxCachedOperations :=
    hsplit ▸ mem_rtake_of_lt hfew
  have hkey : e.key = cacheKey tool.toolName operationId := by rw [Execution.key, he.1, he.2]
  obtain ⟨xs, ys, hxs⟩ := List.mem_iff_append.mp hmem
  have hlookup : (l.begin n).operationCache.lookup (cacheKey tool.toolName operationId) =
      some (operationRecord (stableJson e.arguments) answer) := by
    show l.operationCache.lookup _ = _
    rw [hr.cache h, hxs, List.lookup_eq_some_iff]
    refine ⟨xs.map Execution.ended, ys.map Execution.ended, by
      simp [Execution.ended, ha, hkey], fun p hp => ?_⟩
    obtain ⟨e', he', rfl⟩ := List.mem_map.mp hp
    -- the keys that are remembered are distinct
    have hnodup := (h.spaced l.generation).nodup_rtake
    rw [hxs, List.map_append, List.nodup_append] at hnodup
    have hne := hnodup.2.2 e'.key (List.mem_map_of_mem he') e.key (by simp)
    rw [hkey] at hne
    simpa [Execution.ended] using hne.symm
  simp only [ToolCall.begin, hr.mutating, ActiveBrowserLease.runMutating, hlookup, repeatAnswer]
  have hargs : (operationRecord (stableJson e.arguments) answer).argumentsKey =
      stableJson e.arguments := by cases answer <;> rfl
  rw [hargs]
  by_cases htext : stableJson e.arguments = stableJson tool.arguments
  · rw [if_neg (not_not.mpr htext), if_neg (not_not.mpr htext)]
    cases (operationRecord (stableJson e.arguments) answer).outcome <;> rfl
  · rw [if_pos htext, if_pos htext]
    rfl

end Repeat

/-! ## One step -/

theorem Execution.uncertain_or_succeeded {e : Execution} (h : e.answer ≠ none) :
    e.Uncertain ∨ ∃ result, e.Succeeded result := by
  obtain ⟨answer, ha⟩ := Option.ne_none_iff_exists'.mp h
  cases answer with
  | error message => exact .inl (.inl ⟨message, ha⟩)
  | ok result =>
      cases hr : isUncertainToolResult result with
      | true => exact .inl (.inr ⟨result, ha, hr⟩)
      | false => exact .inr ⟨result, ha, hr⟩

theorem Execution.Succeeded.not_uncertain {e : Execution} {result : Option Json}
    (h : e.Succeeded result) : ¬ e.Uncertain := by
  rintro (⟨message, hm⟩ | ⟨r, hr, hu⟩)
  · rw [h.1] at hm
    cases hm
  · rw [h.1] at hr
    cases hr
    rw [h.2] at hu
    cases hu

section Answer

variable {e : Execution} {answer : CallAnswer} {tool : ToolCall} {operationId : String}

theorem repeatAnswer_of_ne (h : stableJson e.arguments ≠ stableJson tool.arguments) :
    ∃ message, repeatAnswer e answer tool operationId = .error message := by
  rw [repeatAnswer, if_pos h]
  exact ⟨_, rfl⟩

theorem repeatAnswer_of_uncertain (ha : e.answer = some answer) (h : e.Uncertain) :
    ∃ message, repeatAnswer e answer tool operationId = .error message := by
  by_cases htext : stableJson e.arguments = stableJson tool.arguments
  · rw [repeatAnswer, if_neg (not_not.mpr htext)]
    have hout : (operationRecord (stableJson e.arguments) answer).outcome = .uncertain := by
      rcases h with ⟨message, hm⟩ | ⟨result, hr, hu⟩
      · cases ha.symm.trans hm
        rfl
      · cases ha.symm.trans hr
        simp [operationRecord, hu]
    rw [hout]
    exact ⟨_, rfl⟩
  · exact repeatAnswer_of_ne htext

theorem repeatAnswer_of_succeeded {result : Option Json} (h : e.Succeeded result)
    (ha : e.answer = some answer) (htext : stableJson e.arguments = stableJson tool.arguments) :
    repeatAnswer e answer tool operationId = .ok result := by
  cases ha.symm.trans h.1
  rw [repeatAnswer, if_neg (not_not.mpr htext)]
  simp [operationRecord, h.2]

end Answer

section Step

variable {x : RelayStep T} {k : Nat} {c : BrowserCall} {operationId : String}
  {l : ActiveBrowserLease T}

theorem LetIn.repeat (hin : LetIn x k c operationId l)
    (h : RelayInv env x.before.manager x.before.calls) (ho : OperationsInv x.before)
    (hn : x.before.next env x.action x.after) : Repeat x.before l c.tool operationId := by
  obtain ⟨hw, hr, -, -⟩ := letIn_step h hn hin
  exact ⟨hin.active, hin.unfenced, ho.ended (h.free hin.call hw hr hin.active hin.current),
    c.tool.mutating (by simp [hin.mutating]), hin.mutating⟩

/-- A repeat of a recent execution is answered and not executed. -/
theorem LetIn.answered {e : Execution} {before after : List Execution} {answer : CallAnswer}
    (hin : LetIn x k c operationId l) (h : RelayInv env x.before.manager x.before.calls)
    (ho : OperationsInv x.before) (hn : x.before.next env x.action x.after)
    (hsplit : under x.before.executions l.generation = before ++ e :: after)
    (he : e.Of c.tool.toolName operationId) (hfew : after.length < maxCachedOperations)
    (ha : e.answer = some answer) :
    NotExecuted x ∧ Answers x k (repeatAnswer e answer c.tool operationId) := by
  obtain ⟨-, -, hcalls, hexec⟩ := letIn_step h hn hin
  have hbegin := (hin.repeat h ho hn).begin_known (k := k) (n := x.action.now) ho hsplit he hfew ha
  rw [hbegin] at hcalls hexec
  exact ⟨by rw [NotExecuted, hexec, List.append_nil], _, l.generation,
    hcalls ▸ setPhase_self hin.call, rfl⟩

/-- An operation with no recent execution is executed. -/
theorem LetIn.executed (hin : LetIn x k c operationId l)
    (h : RelayInv env x.before.manager x.before.calls) (ho : OperationsInv x.before)
    (hn : x.before.next env x.action x.after)
    (hnew : ∀ e ∈ (under x.before.executions l.generation).rtake maxCachedOperations,
      ¬ e.Of c.tool.toolName operationId) :
    x.after.executions = x.before.executions ++
      [⟨k, l.generation, c.tool.toolName, operationId, c.tool.arguments, none⟩] := by
  obtain ⟨-, -, -, hexec⟩ := letIn_step h hn hin
  rw [hexec, (hin.repeat h ho hn).begin_new ho hnew]

/-- The last execution under an operation id is forgotten after 128 others. -/
theorem not_recent {e : Execution} {xs before after : List Execution} {toolName o : String}
    (hsplit : xs = before ++ e :: after) (hlast : ∀ e' ∈ after, ¬ e'.Of toolName o)
    (hmany : maxCachedOperations ≤ after.length) :
    ∀ e' ∈ xs.rtake maxCachedOperations, ¬ e'.Of toolName o := by
  intro e' he'
  rw [hsplit, List.append_cons] at he'
  exact hlast e' (mem_of_mem_rtake hmany he')

/-- The executions under an operation id have a last one. -/
theorem exists_last {e : Execution} {xs before after : List Execution} {toolName o : String}
    (hsplit : xs = before ++ e :: after) (he : e.Of toolName o) :
    ∃ before' e' after', xs = before' ++ e' :: after' ∧ e'.Of toolName o ∧
      (∀ e'' ∈ after', ¬ e''.Of toolName o) ∧
      (e = e' ∧ after = after' ∨ ∃ mid, after = mid ++ e' :: after') := by
  induction hlen : after.length using Nat.strong_induction_on generalizing before e after with
  | _ n ih =>
      by_cases hlast : ∀ e'' ∈ after, ¬ e''.Of toolName o
      · exact ⟨before, e, after, hsplit, he, hlast, .inl ⟨rfl, rfl⟩⟩
      · push Not at hlast
        obtain ⟨y, hy, hyo⟩ := hlast
        obtain ⟨mid, rest, hafter⟩ := List.mem_iff_append.mp hy
        have hshort : rest.length < n := by
          rw [← hlen, hafter, List.length_append, List.length_cons]
          omega
        have hsplit' : xs = (before ++ e :: mid) ++ y :: rest := by rw [hsplit, hafter]; simp
        obtain ⟨before', e', after', hx, ho, hl, hor⟩ := ih rest.length hshort hsplit' hyo rfl
        refine ⟨before', e', after', hx, ho, hl, .inr ?_⟩
        rcases hor with ⟨rfl, rfl⟩ | ⟨mid', rfl⟩
        · exact ⟨mid, hafter⟩
        · exact ⟨mid ++ y :: mid', by rw [hafter]; simp⟩

/-- A few other operations later, no other execution under the id has followed. -/
theorem few_others {s : BrowserRelay T} {tool : ToolCall} {e : Execution}
    {before after : List Execution} (ho : OperationsInv s) (hr : Repeat s l tool operationId)
    (hsplit : under s.executions l.generation = before ++ e :: after)
    (he : e.Of tool.toolName operationId)
    (hfew : (after.filter fun e' => ¬ e'.Of tool.toolName operationId).length <
      maxCachedOperations) :
    (∀ e' ∈ after, ¬ e'.Of tool.toolName operationId) ∧ after.length < maxCachedOperations := by
  have hmem : ∀ y ∈ after, y ∈ s.executions := fun y hy =>
    (List.mem_filter.mp (hsplit ▸ List.mem_append_right _ (List.mem_cons_of_mem _ hy))).1
  have hkey : e.key = cacheKey tool.toolName operationId := by rw [Execution.key, he.1, he.2]
  have hiff : ∀ y ∈ after, (y.Of tool.toolName operationId ↔ y.key = e.key) :=
    fun y hy => hkey ▸ of_iff_key (ho.known y (hmem y hy)).1 hr.known
  have hfilter : (after.filter fun e' => ¬ e'.Of tool.toolName operationId) =
      after.filter fun e' => e'.key ≠ e.key :=
    List.filter_congr fun y hy => by simp [hiff y hy]
  obtain ⟨hnone, hshort⟩ := (ho.spaced l.generation).others hsplit (hfilter ▸ hfew)
  refine ⟨fun e' he' hof => hnone ?_, hshort⟩
  exact List.mem_map.mpr ⟨e', he', (hiff e' he').mp hof⟩

/-- What the last execution under an operation id decides, the code does. -/
theorem onceOnly_of_remembers (h : RelayInv env x.before.manager x.before.calls)
    (ho : OperationsInv x.before) (hn : x.before.next env x.action x.after)
    (hrep : ∀ g, Repeats (under x.before.executions g)) (hrem : Remembers x) : OnceOnly x := by
  intro k c operationId l hin before e after hsplit he
  obtain ⟨before', e', after', hsplit', he', hlast, hor⟩ := exists_last hsplit he
  obtain ⟨hunc, hsucc⟩ := hrem k c operationId l hin before' e' after' hsplit' he' hlast
  have hmem : ∀ y ∈ under x.before.executions l.generation, y ∈ x.before.executions :=
    fun y hy => (List.mem_filter.mp hy).1
  have hr := hin.repeat h ho hn
  obtain ⟨answer, ha⟩ :=
    Option.ne_none_iff_exists'.mp (hr.ended e' (hmem e' (by rw [hsplit']; simp)))
  -- an earlier execution than the last succeeded with the last one's arguments
  have hearlier : e = e' ∧ after = after' ∨
      (∃ result, e.Succeeded result) ∧ Same e.arguments e'.arguments ∧
        ∃ mid, after = mid ++ e' :: after' := by
    rcases hor with heq | ⟨mid, hafter⟩
    · exact .inl heq
    · have hpair := hrep l.generation
      rw [hsplit, hafter, Repeats, List.pairwise_append] at hpair
      have hrel := (List.pairwise_cons.mp hpair.2.1).1 e' (by simp)
      obtain ⟨hs, hsame⟩ := hrel (by rw [he.1, he.2]; exact he')
      exact .inr ⟨hs, hsame, mid, hafter⟩
  by_cases hfew : after'.length < maxCachedOperations
  · obtain ⟨hnot, hans⟩ := hin.answered h ho hn hsplit' he' hfew ha
    refine ⟨fun _ => hnot, fun result hres hothers => ⟨hnot, fun hsame => ?_⟩,
      fun hdiff => ⟨hnot, ?_⟩⟩
    · obtain ⟨hnone, -⟩ := few_others ho hr hsplit he hothers
      rcases hearlier with ⟨rfl, rfl⟩ | ⟨-, -, mid, rfl⟩
      · have htext := stableJson_eq_of_same hsame (ho.known e (hmem e (by rw [hsplit]; simp))).2
        rw [repeatAnswer_of_succeeded hres ha htext] at hans
        exact hans
      · exact absurd he' (hnone e' (by simp))
    · have hdiff' : ¬ Same e'.arguments c.tool.arguments := by
        rcases hearlier with ⟨rfl, -⟩ | ⟨-, hsame, -⟩
        · exact hdiff
        · exact fun hs => hdiff (hsame.trans hs)
      have herror : ∃ message, repeatAnswer e' answer c.tool operationId = .error message := by
        by_cases hu : e'.Uncertain
        · exact repeatAnswer_of_uncertain ha hu
        · exact repeatAnswer_of_ne ((hsucc hu).resolve_left hdiff').2
      obtain ⟨message, hm⟩ := herror
      exact ⟨message, hm ▸ hans⟩
  · -- the last execution is forgotten: it succeeded with the arguments of the call
    have hu : ¬ e'.Uncertain := fun hu => hfew (hunc hu)
    have hsame' : Same e'.arguments c.tool.arguments :=
      (hsucc hu).resolve_right fun hrecent => hfew hrecent.1
    refine ⟨fun hunc' => ?_, fun result hres hothers => ?_, fun hdiff => ?_⟩
    · rcases hearlier with ⟨rfl, -⟩ | ⟨⟨result, hres⟩, -⟩
      · exact absurd hunc' hu
      · exact absurd hunc' hres.not_uncertain
    · obtain ⟨hnone, hshort⟩ := few_others ho hr hsplit he hothers
      rcases hearlier with ⟨rfl, rfl⟩ | ⟨-, -, mid, rfl⟩
      · exact absurd hshort hfew
      · exact absurd he' (hnone e' (by simp))
    · rcases hearlier with ⟨rfl, -⟩ | ⟨-, hsame, -⟩
      · exact absurd hsame' hdiff
      · exact absurd (hsame.trans hsame') hdiff

/-- What the code does shows what the last execution decides. -/
theorem remembers_of_onceOnly (h : RelayInv env x.before.manager x.before.calls)
    (ho : OperationsInv x.before) (hn : x.before.next env x.action x.after)
    (honce : OnceOnly x) : Remembers x := by
  intro k c operationId l hin before e after hsplit he hlast
  obtain ⟨hunc, -, hdiff⟩ := honce k c operationId l hin before e after hsplit he
  have hr := hin.repeat h ho hn
  have hunder : e ∈ under x.before.executions l.generation := by rw [hsplit]; simp
  have hmem : e ∈ x.before.executions := (List.mem_filter.mp hunder).1
  obtain ⟨answer, ha⟩ := Option.ne_none_iff_exists'.mp (hr.ended e hmem)
  have hrecent : NotExecuted x → after.length < maxCachedOperations := by
    intro hnot
    by_contra hmany
    have hexec := hin.executed h ho hn (not_recent hsplit hlast (by omega))
    rw [hnot] at hexec
    simpa using congrArg List.length hexec
  refine ⟨fun hu => hrecent (hunc hu), fun hu => ?_⟩
  by_cases hsame : Same e.arguments c.tool.arguments
  · exact .inl hsame
  · obtain ⟨hnot, message, c', g, hc', hphase⟩ := hdiff hsame
    refine .inr ⟨hrecent hnot, fun htext => ?_⟩
    obtain ⟨-, c'', g', hc'', hphase'⟩ := hin.answered h ho hn hsplit he (hrecent hnot) ha
    obtain ⟨result, hres⟩ := (Execution.uncertain_or_succeeded (hr.ended e hmem)).resolve_left hu
    cases hc'.symm.trans hc''
    rw [hphase, repeatAnswer_of_succeeded hres ha htext] at hphase'
    cases hphase'

end Step

/-! ## Whole runs -/

/-- An execution that is put behind the others. -/
theorem repeats_concat {xs : List Execution} {e : Execution} (h : Repeats xs)
    (he : ∀ e' ∈ xs, e.Of e'.toolName e'.operationId →
      (∃ result, e'.Succeeded result) ∧ Same e'.arguments e.arguments) : Repeats (xs ++ [e]) := by
  refine List.pairwise_append.mpr ⟨h, List.pairwise_singleton .., fun e' he' e'' he'' => ?_⟩
  obtain rfl := List.mem_singleton.mp he''
  exact he e' he'

/-- An operation that is executed again succeeded each time with the arguments
of the call. -/
theorem executed_again {x : RelayStep T} {k : Nat} {c : BrowserCall} {operationId : String}
    {l : ActiveBrowserLease T} (hin : LetIn x k c operationId l)
    (h : RelayInv env x.before.manager x.before.calls) (ho : OperationsInv x.before)
    (hn : x.before.next env x.action x.after) (hrep : ∀ g, Repeats (under x.before.executions g))
    (hrem : Remembers x) (hexec : ¬ NotExecuted x) :
    ∀ e ∈ under x.before.executions l.generation, e.Of c.tool.toolName operationId →
      (∃ result, e.Succeeded result) ∧ Same e.arguments c.tool.arguments := by
  intro e he hof
  have hr := hin.repeat h ho hn
  obtain ⟨before, after, hsplit⟩ := List.mem_iff_append.mp he
  obtain ⟨before', e', after', hsplit', he', hlast, hor⟩ := exists_last hsplit hof
  have hunder : e' ∈ under x.before.executions l.generation := by rw [hsplit']; simp
  have hended := hr.ended e' (List.mem_filter.mp hunder).1
  obtain ⟨answer, ha⟩ := Option.ne_none_iff_exists'.mp hended
  have hold : ¬ after'.length < maxCachedOperations :=
    fun hfew => hexec (hin.answered h ho hn hsplit' he' hfew ha).1
  obtain ⟨hunc, hsucc⟩ := hrem k c operationId l hin before' e' after' hsplit' he' hlast
  have hu : ¬ e'.Uncertain := fun hu => hold (hunc hu)
  have hsame : Same e'.arguments c.tool.arguments :=
    (hsucc hu).resolve_right fun hrecent => hold hrecent.1
  rcases hor with ⟨rfl, -⟩ | ⟨mid, rfl⟩
  · exact ⟨(Execution.uncertain_or_succeeded hended).resolve_left hu, hsame⟩
  · have hpair := hrep l.generation
    rw [hsplit, Repeats, List.pairwise_append] at hpair
    obtain ⟨hs, hsame'⟩ := (List.pairwise_cons.mp hpair.2.1).1 e' (by simp)
      (by rw [hof.1, hof.2]; exact he')
    exact ⟨hs, hsame'.trans hsame⟩

/-- The last execution has ended. -/
theorem repeats_answer {xs : List Execution} {e e' : Execution} (h : Repeats (xs ++ [e]))
    (htool : e'.toolName = e.toolName) (hid : e'.operationId = e.operationId)
    (hargs : e'.arguments = e.arguments) : Repeats (xs ++ [e']) := by
  obtain ⟨hxs, -, hlast⟩ := List.pairwise_append.mp h
  refine repeats_concat hxs fun y hy hof => ?_
  rw [hargs]
  exact hlast y hy e (by simp) ⟨htool ▸ hof.1, hid ▸ hof.2⟩

theorem letIn_executions {x : RelayStep T} {k : Nat} {c : BrowserCall} {operationId : String}
    {l : ActiveBrowserLease T} (hin : LetIn x k c operationId l)
    (h : RelayInv env x.before.manager x.before.calls)
    (hn : x.before.next env x.action x.after) : NotExecuted x ∨
      x.after.executions = x.before.executions ++
        [⟨k, l.generation, c.tool.toolName, operationId, c.tool.arguments, none⟩] := by
  obtain ⟨-, -, -, hexec⟩ := letIn_step h hn hin
  simp only [ToolCall.begin, hin.mutating] at hexec
  split at hexec
  · exact .inl (hexec.trans (List.append_nil _))
  · exact .inr hexec

theorem letIn_repeats {x : RelayStep T} {k : Nat} {c : BrowserCall} {operationId : String}
    {l : ActiveBrowserLease T} (hin : LetIn x k c operationId l)
    (h : RelayInv env x.before.manager x.before.calls) (ho : OperationsInv x.before)
    (hn : x.before.next env x.action x.after) (hrep : ∀ g, Repeats (under x.before.executions g))
    (hrem : Remembers x) : ∀ g, Repeats (under x.after.executions g) := by
  intro g
  by_cases hnot : NotExecuted x
  · rw [hnot]
    exact hrep g
  · rw [(letIn_executions hin h hn).resolve_left hnot, under_append, under_singleton]
    split
    · rename_i hgen
      obtain rfl : l.generation = g := hgen
      refine repeats_concat (hrep _) fun e he hof => ?_
      exact executed_again hin h ho hn hrep hrem hnot e he ⟨hof.1.symm, hof.2.symm⟩
    · rw [List.append_nil]
      exact hrep g

theorem answer_repeats {s : BrowserRelay T} {k g : Nat} {c : BrowserCall} {answer : CallAnswer}
    (ho : OperationsInv s) (call : s.calls[k]? = some c) (running : c.phase = .running g)
    (hrep : ∀ g, Repeats (under s.executions g)) :
    ∀ g', Repeats (under (s.answer k c g answer).executions g') := by
  intro g'
  cases hop : c.tool.operationId with
  | none => simpa only [BrowserRelay.answer, hop] using hrep g'
  | some operationId =>
      obtain ⟨xs, hxs, hold⟩ := ho.last call running hop
      have hmap := answered_executions (a := answer) hxs fun e he => (hold e he).1
      have hlast := hrep g'
      simp only [BrowserRelay.answer, hop, hmap, under_append, under_singleton]
      rw [hxs, under_append, under_singleton] at hlast
      split at hlast
      · rename_i hgen
        rw [if_pos hgen]
        exact repeats_answer hlast rfl rfl rfl
      · rename_i hgen
        rw [if_neg hgen]
        exact hlast

theorem next_repeats {s t : BrowserRelay T} {e : BrowserEvent T}
    (h : RelayInv env s.manager s.calls) (ho : OperationsInv s)
    (hrep : ∀ g, Repeats (under s.executions g)) (hn : s.next env e t)
    (hrem : Remembers ⟨s, e, t⟩) : ∀ g, Repeats (under t.executions g) := by
  obtain ⟨u, -, hp, ht⟩ := next_performed h hn
  have hexec : t.executions = u.executions := by rw [ht]
  generalize haction : e.action = a at hp
  cases hp with
  | method | called | refused | settled => exact hexec ▸ hrep
  | @started k c l' m' call waiting ready keeps active current unfenced unexpired =>
      obtain ⟨l, c₀, hl, hc₀, -, htoken, hf, hx, -⟩ := starts_current h
        (Performed.started call waiting ready keeps active current unfenced unexpired)
        (setPhase_self call) ((c.tool.begin_holds k _ _).mpr rfl)
      cases hc₀.symm.trans call
      cases hop : c.tool.operationId with
      | none =>
          rw [hexec]
          simpa [ToolCall.begin, hop] using hrep
      | some operationId =>
          have hin : LetIn ⟨s, e, t⟩ k c operationId l := ⟨haction, call, hop, hl, htoken, hf, hx⟩
          exact letIn_repeats hin h ho hn hrep hrem
  | answered call running =>
      rw [hexec]
      exact answer_repeats ho call running hrep

def clickCall (operationId : String) : ToolCall :=
  ⟨"browser_click", some operationId, .obj [], fun _ => by decide, wellFormed_empty⟩

section Run

variable {t₀ : T} {taken : List (RelayStep T)} {s : BrowserRelay T}

theorem run_repeats_of_remembers (h : Run (BrowserRelay.next env) (.initial t₀) taken s)
    (hrem : ∀ x ∈ taken, Remembers x) : (∀ g, Repeats (under s.executions g)) ∧
      ∀ x ∈ taken, ∀ g, Repeats (under x.before.executions g) := by
  have hinv := h.invariant_of (C := Remembers) (I := fun s => RelayInv env s.manager s.calls ∧
    OperationsInv s ∧ ∀ g, Repeats (under s.executions g))
    ⟨relayInv_initial t₀, operations_initial t₀, fun g => List.Pairwise.nil⟩
    (fun s e t hs hn hc => ⟨next_inv hs.1 hn, next_operations hs.1 hs.2.1 hn,
      next_repeats hs.1 hs.2.1 hs.2.2 hn hc⟩) hrem
  exact ⟨hinv.1.2.2, fun x hx => (hinv.2 x hx).1.2.2⟩

theorem run_remembers (h : Run (BrowserRelay.next env) (.initial t₀) taken s)
    (honce : ∀ x ∈ taken, OnceOnly x) : ∀ x ∈ taken, Remembers x := fun x hx =>
  remembers_of_onceOnly ((run_inv h).2 x hx).1 ((run_operations h).2 x hx).1 (h.allowed x hx)
    (honce x hx)

theorem run_repeats (h : Run (BrowserRelay.next env) (.initial t₀) taken s)
    (honce : ∀ x ∈ taken, OnceOnly x) (g : Nat) : Repeats (under s.executions g) :=
  (run_repeats_of_remembers h (run_remembers h honce)).1 g

/-- A run keeps its operation ids exactly when in each of its steps the last
execution under the id is recent or succeeded with the same arguments. -/
theorem operation_executed_once_iff (h : Run (BrowserRelay.next env) (.initial t₀) taken s) :
    (∀ x ∈ taken, OnceOnly x) ↔ ∀ x ∈ taken, Remembers x := by
  refine ⟨run_remembers h, fun hrem x hx => ?_⟩
  exact onceOnly_of_remembers ((run_inv h).2 x hx).1 ((run_operations h).2 x hx).1 (h.allowed x hx)
    ((run_repeats_of_remembers h hrem).2 x hx) (hrem x hx)

/-- A click that timed out is refused when it is repeated. -/
def repeatedClick : List (BrowserEvent Nat) :=
  [⟨0, .request "task" none⟩, ⟨1, .withCall "uu" (clickCall "a")⟩,
    ⟨1, .withCall "uu" (clickCall "a")⟩, ⟨2, .start 0⟩, ⟨3, .answer 0 (.error "timeout")⟩,
    ⟨3, .settle 0⟩, ⟨4, .start 1⟩]

theorem operation_executed_once_iff_repeatedClick :
    ∃ taken s, Run (BrowserRelay.next tenTicks) (.initial 0) taken s ∧ s.executions.length = 1 ∧
      ((∀ x ∈ taken, OnceOnly x) ↔ ∀ x ∈ taken, Remembers x) := by
  obtain ⟨taken, s, hrun, hlen⟩ := exists_run_of_trace (BrowserRelay.step tenTicks) (.initial 0)
    repeatedClick (fun r => r.2.executions.length == 1) (by decide)
  exact ⟨taken, s, hrun, by simpa using hlen, operation_executed_once_iff hrun⟩

/-- Recent executions with arguments in which no number overflowed are remembered:
the canonical text tells different arguments apart. -/
theorem remembers_of_plain {x : RelayStep T}
    (hplain : ∀ k c operationId l, LetIn x k c operationId l → Plain c.tool.arguments ∧
      ∀ e ∈ under x.before.executions l.generation, Plain e.arguments)
    (hrecent : ∀ k c operationId l, LetIn x k c operationId l → ∀ before e after,
      under x.before.executions l.generation = before ++ e :: after →
      e.Of c.tool.toolName operationId → (∀ e' ∈ after, ¬ e'.Of c.tool.toolName operationId) →
        after.length < maxCachedOperations) : Remembers x := by
  intro k c operationId l hin before e after hsplit he hlast
  have hfew := hrecent k c operationId l hin before e after hsplit he hlast
  obtain ⟨hcall, hold⟩ := hplain k c operationId l hin
  refine ⟨fun _ => hfew, fun _ => ?_⟩
  by_cases htext : stableJson e.arguments = stableJson c.tool.arguments
  · exact .inl (same_of_stableJson_eq (hold e (by rw [hsplit]; simp)) hcall htext)
  · exact .inr ⟨hfew, htext⟩

end Run

/-! ## A run that forgets an uncertain outcome -/

/-- Between two clicks. -/
structure Idle (s : BrowserRelay Nat) (l : ActiveBrowserLease Nat) : Prop where
  clock : s.clock = 1
  active : s.manager.active = some l
  token : l.token = "uu"
  generation : l.generation = 1
  lifetimes : l.ttlMs = 10 ∧ l.hardExpiresAt = 30 ∧ 1 < l.expiresAt
  unfenced : l.fenced = false
  idle : l.activeCalls = 0
  chain : ∀ p, l.callChain = some p → ∃ c, s.calls[p]? = some c ∧ c.phase.isSettled = true
  calls : ∀ e ∈ s.executions, e.call < s.calls.length

/-- The turn of a call comes under the lease, and its operation is executed. -/
theorem start_idle {s : BrowserRelay Nat} {l : ActiveBrowserLease Nat} {operationId : String}
    (h : Idle s l) (hnew : l.runMutating "browser_click" operationId (stableJson (.obj [])) = none) :
    ∃ s₁ s₂ l₂, s.step tenTicks ⟨1, .withCall "uu" (clickCall operationId)⟩ = some s₁ ∧
      s₁.step tenTicks ⟨1, .start s.calls.length⟩ = some s₂ ∧ s₂.clock = 1 ∧
      s₂.manager.active = some l₂ ∧ l₂ = ({ l with callChain := some s.calls.length }.begin 1) ∧
      s₂.calls = setPhase (s.calls ++ [⟨"uu", clickCall operationId, l.callChain, .waiting⟩])
        s.calls.length (.running 1) ∧
      s₂.executions = s.executions ++
        [⟨s.calls.length, 1, "browser_click", operationId, .obj [], none⟩] := by
  obtain ⟨httl, hhard, hexp⟩ := h.lifetimes
  have hval := validateCurrent_valid tenTicks h.active (by simp [h.token]) h.unfenced hexp
  rw [h.token] at hval
  let l₁ : ActiveBrowserLease Nat := { l with callChain := some s.calls.length }
  let c : BrowserCall := ⟨"uu", clickCall operationId, l.callChain, .waiting⟩
  let m₁ : BrowserLeaseManager Nat := { s.manager with
    queue := s.manager.queue.filter fun request => ¬ request.expiresAt ≤ 1
    active := some l₁ }
  let s₁ : BrowserRelay Nat := ⟨m₁, s.calls ++ [c], s.executions, 1⟩
  have h₁ : s.step tenTicks ⟨1, .withCall "uu" (clickCall operationId)⟩ = some s₁ := by
    simp [BrowserRelay.step, h.clock, BrowserRelay.perform, BrowserRelay.withCall, hval, s₁, m₁, l₁,
      c]
  have hactive₁ : m₁.active = some l₁ := rfl
  have hval₁ := validateCurrent_valid tenTicks hactive₁ (by simp [l₁, h.token]) h.unfenced hexp
  rw [show l₁.token = "uu" from h.token] at hval₁
  have hready : s₁.ready c = true := by
    cases hp : l.callChain with
    | none => simp only [BrowserRelay.ready, c, hp]
    | some p =>
        obtain ⟨c', hc', hs⟩ := h.chain p hp
        have hlast : s₁.calls[p]? = some c' := by
          show (s.calls ++ [c])[p]? = _
          rw [List.getElem?_append_left (List.getElem?_eq_some_iff.mp hc').1, hc']
        simp only [BrowserRelay.ready, c, hp, hlast]
        exact hs
  have hbegin : (clickCall operationId).begin s.calls.length (l₁.begin 1) = (.running 1,
      [⟨s.calls.length, 1, "browser_click", operationId, .obj [], none⟩]) := by
    have hsame : (l₁.begin 1).runMutating "browser_click" operationId (stableJson (.obj [])) =
        none := hnew
    have hgen : (l₁.begin 1).generation = 1 := h.generation
    simp only [ToolCall.begin, clickCall, hsame, hgen]
  let m₂ : BrowserLeaseManager Nat := { m₁ with
    queue := m₁.queue.filter fun request => ¬ request.expiresAt ≤ 1
    active := some (l₁.begin 1) }
  let s₂ : BrowserRelay Nat := ⟨m₂, setPhase s₁.calls s.calls.length (.running 1),
    s.executions ++ [⟨s.calls.length, 1, "browser_click", operationId, .obj [], none⟩], 1⟩
  have hcall : s₁.calls[s.calls.length]? = some c := List.getElem?_concat_length
  have h₂ : s₁.step tenTicks ⟨1, .start s.calls.length⟩ = some s₂ := by
    have hbeginCall : s₁.manager.beginCall tenTicks 1 c.token = (.ok (l₁.begin 1), m₂) := by
      show beginCall tenTicks 1 m₁ "uu" = _
      rw [beginCall, hval₁]
      rfl
    have hstart : s₁.start tenTicks 1 s.calls.length c = s₂ := by
      have htool : c.tool = clickCall operationId := rfl
      simp only [BrowserRelay.start, hbeginCall, htool, hbegin]
      rfl
    rw [BrowserRelay.step, if_pos (show s₁.clock ≤ 1 from Nat.le_refl 1), BrowserRelay.perform,
      hcall]
    show (if s₁.ready c then some (s₁.start tenTicks 1 s.calls.length c) else none).map _ = _
    rw [if_pos hready, hstart]
    rfl
  exact ⟨s₁, s₂, _, h₁, h₂, rfl, rfl, rfl, rfl, rfl⟩

/-- One click is executed and settles, and the lease is idle again. -/
theorem click_executed {s : BrowserRelay Nat} {l : ActiveBrowserLease Nat} {operationId : String}
    (answer : CallAnswer) (h : Idle s l)
    (hnew : l.runMutating "browser_click" operationId (stableJson (.obj [])) = none) :
    ∃ taken t l', Run (BrowserRelay.next tenTicks) s taken t ∧ Idle t l' ∧
      t.executions = s.executions ++
        [⟨s.calls.length, 1, "browser_click", operationId, .obj [], some answer⟩] ∧
      t.calls.length = s.calls.length + 1 := by
  obtain ⟨s₁, s₂, l₂, h₁, h₂, hclock, hl₂, hbegin, hcalls, hexec⟩ := start_idle h hnew
  obtain ⟨httl, hhard, hexp⟩ := h.lifetimes
  let n := s.calls.length
  let c : BrowserCall := ⟨"uu", clickCall operationId, l.callChain, .waiting⟩
  have hcall : s₂.calls[n]? = some { c with phase := .running 1 } := by
    rw [hcalls]
    exact setPhase_self List.getElem?_concat_length
  let s₃ := s₂.answer n { c with phase := .running 1 } 1 answer
  have h₃ : s₂.step tenTicks ⟨1, .answer n answer⟩ = some { s₃ with clock := 1 } := by
    rw [BrowserRelay.step, if_pos (show s₂.clock ≤ 1 from hclock.le), BrowserRelay.perform, hcall]
    rfl
  have hcall₃ : s₃.calls[n]? = some { c with phase := .answered 1 answer } := by
    rw [answer_calls]
    have hself := setPhase_self (q := .answered 1 answer) hcall
    exact hself
  let l₃ := l₂.cacheOperation (cacheKey "browser_click" operationId)
    (operationRecord (stableJson (.obj [])) answer)
  have hl₃ : s₃.manager.active = some l₃ := by
    have hgen : l₂.generation = 1 := by rw [hbegin]; exact h.generation
    show s₂.manager.active.map _ = _
    rw [hl₂, Option.map_some, if_pos hgen]
    rfl
  let m₄ : BrowserLeaseManager Nat := { s₃.manager with active := some { l₃ with activeCalls := 0 } }
  have hend : s₃.manager.endCall tenTicks 1 1 = m₄ := by
    have hgen : l₃.generation = 1 := by
      show l₂.generation = 1
      rw [hbegin]
      exact h.generation
    have hzero : l₃.activeCalls - 1 = 0 := by
      show l₂.activeCalls - 1 = 0
      rw [hbegin]
      show l.activeCalls + 1 - 1 = 0
      rw [h.idle]
    have hopen : ¬ (l₃.fenced = true ∨ l₃.expiresAt ≤ 1) := by
      show ¬ (l₂.fenced = true ∨ l₂.expiresAt ≤ 1)
      rw [hbegin]
      show ¬ (l.fenced = true ∨ min (1 + l.ttlMs) l.hardExpiresAt ≤ 1)
      rw [h.unfenced, httl, hhard]
      decide
    simp only [endCall, hl₃, if_pos hgen, hzero, true_and, if_neg hopen]
    rfl
  let s₄ : BrowserRelay Nat :=
    ⟨m₄, setPhase s₃.calls n (.settled answer), s₃.executions, 1⟩
  have h₄ : ({ s₃ with clock := 1 } : BrowserRelay Nat).step tenTicks ⟨1, .settle n⟩ = some s₄ := by
    rw [BrowserRelay.step, if_pos (Nat.le_refl 1), BrowserRelay.perform]
    simp only [hcall₃]
    show (some _ : Option (BrowserRelay Nat)).map _ = _
    rw [hend]
    rfl
  have hcall₄ : s₄.calls[n]? = some { c with phase := .settled answer } := by
    have hself := setPhase_self (q := .settled answer) hcall₃
    exact hself
  have hexec₄ : s₄.executions = s.executions ++
      [⟨s.calls.length, 1, "browser_click", operationId, .obj [], some answer⟩] :=
    answered_executions hexec fun e he => (h.calls e he).ne
  have hlen₄ : s₄.calls.length = s.calls.length + 1 := by
    show (setPhase s₃.calls n _).length = _
    rw [answer_calls, hcalls]
    simp [setPhase]
  refine ⟨_, s₄, { l₃ with activeCalls := 0 },
    (((Run.start.step _ h₁).step _ h₂).step _ h₃).step _ h₄, ⟨rfl, rfl, ?_, ?_, ?_, ?_, rfl, ?_, ?_⟩, hexec₄, hlen₄⟩
  · show l₂.token = "uu"
    rw [hbegin]
    exact h.token
  · show l₂.generation = 1
    rw [hbegin]
    exact h.generation
  · show l₂.ttlMs = 10 ∧ l₂.hardExpiresAt = 30 ∧ 1 < l₂.expiresAt
    rw [hbegin]
    refine ⟨httl, hhard, ?_⟩
    show 1 < min (1 + l.ttlMs) l.hardExpiresAt
    rw [httl, hhard]
    decide
  · show l₂.fenced = false
    rw [hbegin]
    exact h.unfenced
  · intro p hp
    have hp' : l₂.callChain = some p := hp
    rw [hbegin] at hp'
    obtain rfl : s.calls.length = p := Option.some.inj hp'
    exact ⟨_, hcall₄, rfl⟩
  · intro e he
    rw [hexec₄] at he
    rw [hlen₄]
    rcases List.mem_append.mp he with he | he
    · exact Nat.lt_succ_of_lt (h.calls e he)
    · obtain rfl := List.mem_singleton.mp he
      exact Nat.lt_succ_self _

/-- A click whose id is not remembered is executed in an idle run. -/
theorem idle_runs {s : BrowserRelay Nat} {l : ActiveBrowserLease Nat}
    {taken : List (RelayStep Nat)} (hrun : Run (BrowserRelay.next tenTicks) (.initial 0) taken s)
    (h : Idle s l) (operationId : String) (answer : CallAnswer)
    (hnew : ∀ e ∈ (under s.executions 1).rtake maxCachedOperations,
      ¬ e.Of "browser_click" operationId) :
    ∃ taken' t l', Run (BrowserRelay.next tenTicks) (.initial 0) taken' t ∧ Idle t l' ∧
      t.executions = s.executions ++
        [⟨s.calls.length, 1, "browser_click", operationId, .obj [], some answer⟩] := by
  have ho := (run_operations hrun).1
  have hholding := (run_inv hrun).1.holding
  have hended := ho.ended fun hi hg => by
    obtain ⟨l', hl', -, -, hone⟩ := hholding.active hi hg
    cases h.active.symm.trans hl'
    exact absurd (h.idle.symm.trans hone) (by decide)
  have hr : Repeat s l (clickCall operationId) operationId :=
    ⟨h.active, h.unfenced, hended, (clickCall operationId).mutating (by simp [clickCall]), rfl⟩
  have hnone := hr.runMutating_new ho (by rw [h.generation]; exact hnew) (stableJson (.obj []))
  obtain ⟨taken', t, l', hrun', hidle, hexec, -⟩ := click_executed answer h hnone
  exact ⟨_, t, l', hrun.append hrun', hidle, hexec⟩

/-- Clicks under operation ids that have not been used are all executed. -/
theorem clicks_executed {s : BrowserRelay Nat} {l : ActiveBrowserLease Nat}
    {taken : List (RelayStep Nat)} (hrun : Run (BrowserRelay.next tenTicks) (.initial 0) taken s)
    (h : Idle s l) (ids : List String) (hnodup : ids.Nodup)
    (hfresh : ∀ e ∈ s.executions, e.operationId ∉ ids) :
    ∃ taken' t l', Run (BrowserRelay.next tenTicks) (.initial 0) taken' t ∧ Idle t l' ∧
      ∃ new, t.executions = s.executions ++ new ∧ new.map (·.operationId) = ids ∧
        ∀ e ∈ new, e.generation = 1 := by
  induction ids generalizing s l taken with
  | nil => exact ⟨taken, s, l, hrun, h, [], by simp, rfl, by simp⟩
  | cons id ids ih =>
      obtain ⟨hid, hids⟩ := List.nodup_cons.mp hnodup
      obtain ⟨taken₁, s₁, l₁, hrun₁, h₁, hexec₁⟩ := idle_runs hrun h id (.ok none)
        fun e he hof => hfresh e (List.mem_filter.mp (List.mem_of_mem_drop he)).1
          (hof.2 ▸ List.mem_cons_self)
      obtain ⟨taken', t, l', hrun', h', new, hexec, hnew, hgen⟩ := ih hrun₁ h₁ hids fun e he => by
        rw [hexec₁] at he
        rcases List.mem_append.mp he with he | he
        · exact fun hm => hfresh e he (List.mem_cons_of_mem _ hm)
        · obtain rfl := List.mem_singleton.mp he
          exact hid
      refine ⟨taken', t, l', hrun', h', _ :: new, by rw [hexec, hexec₁, List.append_assoc]; rfl,
        by rw [List.map_cons, hnew], ?_⟩
      intro e he
      rcases List.mem_cons.mp he with rfl | he
      · rfl
      · exact hgen e he

/-- Operation ids of different lengths. -/
def manyIds : List String :=
  (List.range 128).map fun i => String.ofList (List.replicate (i + 1) 'b')

theorem manyIds_nodup : manyIds.Nodup := by
  refine List.Nodup.map (fun i j h => ?_) List.nodup_range
  have hlen := congrArg List.length (String.ofList_injective h)
  simpa using hlen

def firstLease : ActiveBrowserLease Nat :=
  ⟨"u", "uu", none, 1, "task", 10, 10, 30, 0, false, false, false, none, []⟩

def firstRelay : BrowserRelay Nat := ⟨⟨some firstLease, [], 1, 2, ["u"], ["u"]⟩, [], [], 1⟩

/-- A lease has been granted, and nothing was called yet. -/
theorem firstRelay_reached :
    ∃ taken, Run (BrowserRelay.next tenTicks) (.initial 0) taken firstRelay := by
  have h₁ : (BrowserRelay.initial 0).step tenTicks ⟨0, .request "task" none⟩ =
      some { firstRelay with clock := 0 } := by rfl
  have h₂ : ({ firstRelay with clock := 0 } : BrowserRelay Nat).step tenTicks ⟨1, .health⟩ =
      some firstRelay := by rfl
  exact ⟨_, (Run.start.step _ h₁).step _ h₂⟩

theorem firstRelay_idle : Idle firstRelay firstLease :=
  ⟨rfl, rfl, rfl, rfl, by decide, rfl, rfl, by simp [firstLease], by simp [firstRelay]⟩

theorem a_not_mem_manyIds : "a" ∉ manyIds := by
  intro hm
  obtain ⟨i, -, hi⟩ := List.mem_map.mp hm
  have hlist := congrArg String.toList hi
  rw [String.toList_ofList] at hlist
  have hhead : 'b' = 'a' := (List.cons.inj hlist).1
  exact absurd hhead (by decide)

theorem under_of_generation {xs : List Execution} {g : Nat} (h : ∀ e ∈ xs, e.generation = g) :
    under xs g = xs :=
  List.filter_eq_self.mpr fun e he => by simpa using h e he

/-- A click that ended with a timeout is executed again after 128 others. -/
theorem forgets_uncertain : ∃ taken s, Run (BrowserRelay.next tenTicks) (.initial 0) taken s ∧
    ¬ ∀ x ∈ taken, OnceOnly x := by
  obtain ⟨taken₀, hrun₀⟩ := firstRelay_reached
  obtain ⟨taken₁, s₁, l₁, hrun₁, h₁, hexec₁⟩ :=
    idle_runs hrun₀ firstRelay_idle "a" (.error "timeout")
      (by simp [firstRelay, under])
  obtain ⟨taken₂, s₂, l₂, hrun₂, h₂, new, hexec₂, hnew, hgen⟩ :=
    clicks_executed hrun₁ h₁ manyIds manyIds_nodup fun e he => by
      rw [hexec₁] at he
      obtain rfl := List.mem_singleton.mp he
      exact a_not_mem_manyIds
  rw [hexec₁] at hexec₂
  have hsplit : under s₂.executions 1 = [] ++
      (⟨0, 1, "browser_click", "a", .obj [], some (.error "timeout")⟩ : Execution) :: new := by
    refine (under_of_generation fun e he => ?_).trans hexec₂
    rw [hexec₂] at he
    rcases List.mem_cons.mp he with rfl | he
    · rfl
    · exact hgen e he
  have hothers : ∀ e ∈ new, ¬ e.Of "browser_click" "a" := fun e he hof =>
    a_not_mem_manyIds (hnew ▸ List.mem_map.mpr ⟨e, he, hof.2⟩)
  have hmany : maxCachedOperations ≤ new.length := by
    have hlen := congrArg List.length hnew
    rw [List.length_map, manyIds, List.length_map, List.length_range] at hlen
    exact hlen.ge
  obtain ⟨taken₃, s₃, l₃, hrun₃, -, hexec₃⟩ :=
    idle_runs hrun₂ h₂ "a" (.ok none) (not_recent hsplit hothers hmany)
  refine ⟨taken₃, s₃, hrun₃, fun honce => ?_⟩
  -- a run that keeps its ids executes only what succeeded a second time
  have hrepeats := run_repeats hrun₃ honce 1
  rw [hexec₃, under_append, hsplit, Repeats, List.nil_append, List.cons_append] at hrepeats
  obtain ⟨⟨result, hres⟩, -⟩ := (List.pairwise_cons.mp hrepeats).1 ⟨s₂.calls.length, 1,
    "browser_click", "a", .obj [], some (.ok none)⟩ (by simp [under]) ⟨rfl, rfl⟩
  cases hres.1

end Openlia.Browser

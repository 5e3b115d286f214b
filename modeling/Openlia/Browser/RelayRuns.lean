import Mathlib.Data.List.Pairwise
import Openlia.Browser.RelayInvariant

/-! # Runs of the relay

`Performed` lists what a step can do; the invariant is kept by each. Over a whole
run operations exclude each other, a lease that has ended stays ended, and
tickets are granted in the order in which they were requested.
-/

namespace Openlia.Browser

open Lib BrowserLeaseManager

set_option linter.unusedSectionVars false

variable {T : Type} [LinearOrder T] [Add T] {env : BrowserEnv T} {now : T}

/-- The ticket that an action asks to cancel. -/
def BrowserAction.Cancels : BrowserAction → String → Prop
  | .cancel ticket _, t => ticket = some t
  | _, _ => False

/-- Actions that leave the calls made so far as they are. -/
def BrowserAction.isMethod : BrowserAction → Bool
  | .start _ | .answer _ _ | .settle _ => false
  | _ => true

/-- The lease object of a call that starts. -/
def ActiveBrowserLease.begin (l : ActiveBrowserLease T) (now : T) : ActiveBrowserLease T :=
  { l with activeCalls := l.activeCalls + 1 }.touchLease now

/-- What a step does: it calls a method of the manager, appends a call to the
chain, refuses or starts one, or ends its operation and then the call. -/
inductive Performed (env : BrowserEnv T) (now : T) (s : BrowserRelay T) :
    BrowserAction → BrowserRelay T → Prop
  | method {a : BrowserAction} {m' : BrowserLeaseManager T} (isMethod : a.isMethod = true)
      (keeps : Keeps env now a.Cancels s.manager m') :
      Performed env now s a { s with manager := m' }
  | called {token : String} {tool : ToolCall} {l : ActiveBrowserLease T}
      {m' : BrowserLeaseManager T} (keeps : Keeps env now (fun _ => False) s.manager m')
      (active : m'.active = some l) (current : l.token = token) :
      Performed env now s (.withCall token tool)
        { s with
          manager := { m' with active := some { l with callChain := some s.calls.length } }
          calls := s.calls ++ [⟨token, tool, l.callChain, .waiting⟩] }
  | refused {k : Nat} {c : BrowserCall} {e : String} {m' : BrowserLeaseManager T}
      (call : s.calls[k]? = some c) (waiting : c.phase = .waiting) (ready : s.ready c = true)
      (keeps : Keeps env now (fun _ => False) s.manager m') :
      Performed env now s (.start k)
        { s with manager := m', calls := setPhase s.calls k (.settled (.error e)) }
  | started {k : Nat} {c : BrowserCall} {l : ActiveBrowserLease T} {m' : BrowserLeaseManager T}
      (call : s.calls[k]? = some c) (waiting : c.phase = .waiting) (ready : s.ready c = true)
      (keeps : Keeps env now (fun _ => False) s.manager m') (active : m'.active = some l)
      (current : l.token = c.token) (unfenced : l.fenced = false) (unexpired : now < l.expiresAt) :
      Performed env now s (.start k)
        { s with
          manager := { m' with active := some (l.begin now) }
          calls := setPhase s.calls k (c.tool.begin k (l.begin now)).1
          executions := s.executions ++ (c.tool.begin k (l.begin now)).2 }
  | answered {k g : Nat} {c : BrowserCall} {answer : CallAnswer}
      (call : s.calls[k]? = some c) (running : c.phase = .running g) :
      Performed env now s (.answer k answer) (s.answer k c g answer)
  | settled {k g : Nat} {c : BrowserCall} {answer : CallAnswer}
      (call : s.calls[k]? = some c) (answered : c.phase = .answered g answer) :
      Performed env now s (.settle k)
        { s with
          manager := s.manager.endCall env now g
          calls := setPhase s.calls k (.settled answer) }

theorem withCall_performed {s : BrowserRelay T} (h : Inv env s.manager) (token : String)
    (tool : ToolCall) :
    Performed env now s (.withCall token tool) (s.withCall env now token tool) := by
  have hv : Keeps env now (fun _ => False) s.manager
      (s.manager.validateCurrent env now (some token)).2 := validateCurrent_keeps h
  unfold BrowserRelay.withCall
  split
  · rename_i heq
    rw [heq] at hv
    exact .method rfl hv
  · rename_i heq
    have hok := validateCurrent_ok (congrArg Prod.fst heq)
    rw [heq] at hok hv
    exact .called hv hok.1 (Option.some.inj hok.2.1).symm

theorem start_performed {s : BrowserRelay T} {k : Nat} {c : BrowserCall} (h : Inv env s.manager)
    (hk : s.calls[k]? = some c) (hw : c.phase = .waiting) (hr : s.ready c = true) :
    Performed env now s (.start k) (s.start env now k c) := by
  have hv : Keeps env now (fun _ => False) s.manager
      (s.manager.validateCurrent env now (some c.token)).2 := validateCurrent_keeps h
  cases hval : s.manager.validateCurrent env now (some c.token) with
  | mk result m' =>
      rw [hval] at hv
      cases result with
      | error e =>
          simp only [BrowserRelay.start, beginCall, hval]
          exact .refused hk hw hr hv
      | ok l =>
          have hok := validateCurrent_ok (congrArg Prod.fst hval)
          rw [hval] at hok
          simp only [BrowserRelay.start, beginCall, hval]
          exact .started hk hw hr hv hok.1 (Option.some.inj hok.2.1).symm hok.2.2.2.1 hok.2.2.2.2

theorem performed {s t : BrowserRelay T} {a : BrowserAction} (h : Inv env s.manager)
    (hp : s.perform env now a = some t) : Performed env now s a t := by
  cases a with
  | request purpose requestKey => cases hp; exact .method rfl (request_keeps h)
  | status ticket => cases hp; exact .method rfl (status_keeps h)
  | touch token => cases hp; exact .method rfl (touch_keeps h)
  | release token => cases hp; exact .method rfl (release_keeps h)
  | cancel ticket lease => cases hp; exact .method rfl (cancel_keeps h)
  | health => cases hp; exact .method rfl (reap_keeps h)
  | leaseTimer generation => cases hp; exact .method rfl (expireActive_keeps h)
  | queueTimer ticket => cases hp; exact .method rfl (expireQueued_keeps h)
  | withCall token tool => cases hp; exact withCall_performed h token tool
  | start k =>
      simp only [BrowserRelay.perform] at hp
      split at hp
      · rename_i c hk
        split at hp
        · rename_i hw
          split at hp
          · rename_i hr
            cases hp
            exact start_performed h hk hw hr
          · cases hp
        · cases hp
      · cases hp
  | answer k answer =>
      simp only [BrowserRelay.perform] at hp
      split at hp
      · rename_i c hk
        split at hp
        · rename_i g hrun
          cases hp
          exact .answered hk hrun
        · cases hp
      · cases hp
  | settle k =>
      simp only [BrowserRelay.perform] at hp
      split at hp
      · rename_i c hk
        split at hp
        · rename_i g answer hans
          cases hp
          exact .settled hk hans
        · cases hp
      · cases hp

/-! ## The invariant of a run -/

theorem CallPhase.not_holds_of_waiting {phase : CallPhase} (h : phase = .waiting) (g : Nat) :
    ¬ phase.Holds g := by
  subst h
  exact id

theorem CallPhase.not_settled_of_holds {phase : CallPhase} {g : Nat} (h : phase.Holds g) :
    phase.isSettled = false ∧ phase ≠ .waiting := by
  cases phase with
  | waiting => exact absurd h id
  | running g => simp [CallPhase.isSettled]
  | answered g answer => simp [CallPhase.isSettled]
  | settled answer => exact absurd h id

/-- When a call's turn has come, those made before it with its token have
settled. -/
theorem Chain.earlier_settled {s : BrowserRelay T} {k i : Nat} {c ci : BrowserCall}
    (h : Chain env s.manager s.calls) (hk : s.calls[k]? = some c) (hr : s.ready c = true)
    (hi : s.calls[i]? = some ci) (hik : i < k) (htoken : ci.token = c.token) :
    ci.phase.isSettled = true := by
  obtain ⟨p, cp, hp, hcp, hip, -, hpt⟩ := h.previous hi hk hik htoken
  have hsettled : cp.phase.isSettled = true := by
    simpa [BrowserRelay.ready, hp, hcp] using hr
  rcases Nat.eq_or_lt_of_le hip with rfl | hlt
  · cases hi.symm.trans hcp
    exact hsettled
  · rcases h.settled hi hcp hlt (htoken.trans hpt.symm) with hw | hs
    · rw [hw] at hsettled
      cases hsettled
    · exact hs

/-- When a call's turn has come under the active lease, no call holds it. -/
theorem RelayInv.free {s : BrowserRelay T} {m' : BrowserLeaseManager T} {k : Nat}
    {c : BrowserCall} {l : ActiveBrowserLease T} (h : RelayInv env m' s.calls)
    (hk : s.calls[k]? = some c) (hw : c.phase = .waiting) (hr : s.ready c = true)
    (hl : m'.active = some l) (htoken : l.token = c.token) {i : Nat} {d : BrowserCall} {g : Nat}
    (hi : s.calls[i]? = some d) : ¬ d.phase.Holds g := by
  intro hg
  obtain ⟨l₁, hl₁, -, hd, -⟩ := h.holding.active hi hg
  cases hl.symm.trans hl₁
  have hsame : d.token = c.token := hd.symm.trans htoken
  obtain ⟨hunsettled, hnotwaiting⟩ := CallPhase.not_settled_of_holds hg
  have hchain : Chain env ({ s with manager := m' } : BrowserRelay T).manager s.calls := h.chain
  rcases Nat.lt_trichotomy i k with hik | rfl | hki
  · have hs := Chain.earlier_settled (s := { s with manager := m' }) hchain hk hr hi hik hsame
    rw [hunsettled] at hs
    cases hs
  · cases hi.symm.trans hk
    exact hnotwaiting hw
  · rcases h.chain.settled hk hi hki hsame.symm with hwait | hs
    · exact hnotwaiting hwait
    · rw [hw] at hs
      cases hs

/-- A lease changed where the chain does not look. -/
theorem Chain.setActive {m : BrowserLeaseManager T} {calls : List BrowserCall}
    {l l' : ActiveBrowserLease T} (h : Chain env m calls) (hl : m.active = some l)
    (htoken : l'.token = l.token) (hchain : l'.callChain = l.callChain) :
    Chain env { m with active := some l' } calls where
  drew := h.drew
  previous := h.previous
  settled := h.settled
  last := by
    rintro _ ⟨⟩ i ci hi ht
    rw [htoken] at ht ⊢
    rw [hchain]
    exact h.last hl hi ht

/-- The new call is the last of its chain. -/
theorem Chain.called {m : BrowserLeaseManager T} {calls : List BrowserCall}
    {l : ActiveBrowserLease T} {tool : ToolCall} (h : Chain env m calls) (hinv : Inv env m)
    (hl : m.active = some l) :
    Chain env { m with active := some { l with callChain := some calls.length } }
      (calls ++ [⟨l.token, tool, l.callChain, .waiting⟩]) where
  drew c hc := by
    rcases List.mem_append.mp hc with hc | hc
    · exact h.drew c hc
    · obtain rfl := List.mem_singleton.mp hc
      exact hinv.token l hl
  previous {i j ci cj} hi hj hij htoken := by
    have hlen := (List.getElem?_eq_some_iff.mp hj).1
    rw [List.length_append, List.length_singleton] at hlen
    rw [List.getElem?_append_left (by omega)] at hi
    rcases Nat.lt_or_ge j calls.length with hjl | hjl
    · rw [List.getElem?_append_left hjl] at hj
      obtain ⟨p, cp, hp, hcp, hip, hpj, hpt⟩ := h.previous hi hj hij htoken
      exact ⟨p, cp, hp, by rw [List.getElem?_append_left (by omega)]; exact hcp, hip, hpj, hpt⟩
    · obtain rfl : j = calls.length := by omega
      rw [List.getElem?_concat_length] at hj
      cases hj
      obtain ⟨p, cp, hp, hcp, hip, hpt⟩ := h.last hl hi htoken
      have hpl := (List.getElem?_eq_some_iff.mp hcp).1
      exact ⟨p, cp, hp, by rw [List.getElem?_append_left hpl]; exact hcp, hip, hpl, hpt⟩
  settled {i j ci cj} hi hj hij htoken := by
    have hlen := (List.getElem?_eq_some_iff.mp hj).1
    rw [List.length_append, List.length_singleton] at hlen
    rw [List.getElem?_append_left (by omega)] at hi
    rcases Nat.lt_or_ge j calls.length with hjl | hjl
    · rw [List.getElem?_append_left hjl] at hj
      exact h.settled hi hj hij htoken
    · obtain rfl : j = calls.length := by omega
      rw [List.getElem?_concat_length] at hj
      cases hj
      exact .inl rfl
  last := by
    rintro _ ⟨⟩ i ci hi -
    have hlen := (List.getElem?_eq_some_iff.mp hi).1
    rw [List.length_append, List.length_singleton] at hlen
    exact ⟨calls.length, _, rfl, List.getElem?_concat_length, by omega, rfl⟩

theorem Holding.called {m : BrowserLeaseManager T} {calls : List BrowserCall}
    {l l' : ActiveBrowserLease T} {c : BrowserCall} (h : Holding m calls)
    (hl : m.active = some l) (hgen : l'.generation = l.generation) (htoken : l'.token = l.token)
    (hcalls : l'.activeCalls = l.activeCalls) (hw : c.phase = .waiting) :
    Holding { m with active := some l' } (calls ++ [c]) := by
  have hold : ∀ {i : Nat} {d : BrowserCall} {g : Nat}, (calls ++ [c])[i]? = some d →
      d.phase.Holds g → calls[i]? = some d := by
    intro i d g hi hg
    have hlen := (List.getElem?_eq_some_iff.mp hi).1
    rw [List.length_append, List.length_singleton] at hlen
    rcases Nat.lt_or_ge i calls.length with hil | hil
    · rwa [List.getElem?_append_left hil] at hi
    · obtain rfl : i = calls.length := by omega
      rw [List.getElem?_concat_length] at hi
      cases hi
      exact absurd hg (CallPhase.not_holds_of_waiting hw g)
  refine ⟨fun hi hg => ?_, ?_, fun hi hj hg hg' => h.one (hold hi hg) (hold hj hg') hg hg'⟩
  · obtain ⟨l₁, hl₁, hg₁, ht₁, hc₁⟩ := h.active (hold hi hg) hg
    cases hl.symm.trans hl₁
    exact ⟨l', rfl, hgen.trans hg₁, htoken.trans ht₁, hcalls.trans hc₁⟩
  · rintro _ ⟨⟩
    rw [hcalls, hgen]
    refine (h.idle hl).imp_right fun ⟨i, d, hi, hg⟩ => ⟨i, d, ?_, hg⟩
    rw [List.getElem?_append_left (List.getElem?_eq_some_iff.mp hi).1]
    exact hi

/-- A lease changed where the calls that hold it do not look. -/
theorem Holding.setActive {m : BrowserLeaseManager T} {calls : List BrowserCall}
    {l l' : ActiveBrowserLease T} (h : Holding m calls) (hl : m.active = some l)
    (hgen : l'.generation = l.generation) (htoken : l'.token = l.token)
    (hcalls : l'.activeCalls = l.activeCalls) : Holding { m with active := some l' } calls where
  active hi hg := by
    obtain ⟨l₁, hl₁, hg₁, ht₁, hc₁⟩ := h.active hi hg
    cases hl.symm.trans hl₁
    exact ⟨l', rfl, hgen.trans hg₁, htoken.trans ht₁, hcalls.trans hc₁⟩
  idle := by
    rintro _ ⟨⟩
    rw [hcalls, hgen]
    exact h.idle hl
  one := h.one

/-- The operation of a call either runs or has its answer. -/
theorem ToolCall.begin_holds (tool : ToolCall) (k : Nat) (l : ActiveBrowserLease T) (g : Nat) :
    (tool.begin k l).1.Holds g ↔ l.generation = g := by
  unfold ToolCall.begin
  split
  · exact Iff.rfl
  · split <;> exact Iff.rfl

/-- The end of an operation changes no lease but for its cache. -/
theorem answer_manager {s : BrowserRelay T} {k g : Nat} {c : BrowserCall} {a : CallAnswer} :
    (s.answer k c g a).manager = s.manager ∨ ∃ l cache, s.manager.active = some l ∧
      (s.answer k c g a).manager =
        { s.manager with active := some { l with operationCache := cache } } := by
  unfold BrowserRelay.answer
  split
  · exact .inl rfl
  · cases hl : s.manager.active with
    | none =>
        left
        simp only [Option.map_none]
        rw [← hl]
    | some l =>
        right
        by_cases hg : l.generation = g
        · exact ⟨l, _, rfl, by simp only [Option.map_some, if_pos hg]; rfl⟩
        · exact ⟨l, l.operationCache, rfl, by simp only [Option.map_some, if_neg hg]⟩

theorem answer_calls {s : BrowserRelay T} {k g : Nat} {c : BrowserCall} {answer : CallAnswer} :
    (s.answer k c g answer).calls = setPhase s.calls k (.answered g answer) := by
  unfold BrowserRelay.answer
  split <;> rfl

/-- `endCall` counts the call off and may then release the lease. -/
theorem endCall_keeps {m : BrowserLeaseManager T} {l : ActiveBrowserLease T}
    (h : Inv env m) (hl : m.active = some l) (hone : l.activeCalls = 1) :
    Keeps env now (fun _ => False) { m with active := some { l with activeCalls := 0 } }
      (m.endCall env now l.generation) := by
  have hinv : Inv env { m with active := some { l with activeCalls := 0 } } :=
    h.setActive hl rfl rfl rfl rfl (h.hard l hl)
  simp only [endCall, hl, hone, if_true]
  split
  · exact releaseActive_keeps (l := { l with activeCalls := 0 }) hinv rfl rfl
  · exact Keeps.refl hinv

theorem performed_inv {s t : BrowserRelay T} {a : BrowserAction}
    (h : RelayInv env s.manager s.calls) (hp : Performed env now s a t) :
    RelayInv env t.manager t.calls := by
  cases hp with
  | method _ keeps => exact h.keeps keeps
  | @called token tool l m' keeps active current =>
      have hk := h.keeps keeps
      subst current
      exact ⟨hk.manager.setActive active rfl rfl rfl rfl (hk.manager.hard l active),
        hk.chain.called hk.manager active, hk.holding.called active rfl rfl rfl rfl⟩
  | @refused k c e m' call waiting ready keeps =>
      have hk := h.keeps keeps
      refine ⟨hk.manager, hk.chain.setPhase call (by rw [waiting]; rfl) fun hi hik ht =>
        h.chain.earlier_settled call ready hi hik ht, hk.holding.setPhase call fun g => ?_⟩
      exact iff_of_false id (CallPhase.not_holds_of_waiting waiting g)
  | @started k c l m' call waiting ready keeps active current unfenced unexpired =>
      have hk := h.keeps keeps
      refine ⟨hk.manager.setActive active rfl rfl rfl rfl (min_le_right _ _), ?_, ?_⟩
      · have hset : Chain env { m' with active := some (l.begin now) } s.calls :=
          hk.chain.setActive active rfl rfl
        exact hset.setPhase call (by rw [waiting]; rfl)
          fun hi hik ht => h.chain.earlier_settled call ready hi hik ht
      · exact hk.holding.begin call active (hk.free call waiting ready active current) rfl current
          rfl (c.tool.begin_holds k _)
  | @answered k g c answer call running =>
      rw [answer_calls]
      have hholds : c.phase.Holds g := by rw [running]; exact rfl
      have hphase : ∀ g', (CallPhase.answered g answer).Holds g' ↔ c.phase.Holds g' := by
        intro g'
        rw [running]
        exact Iff.rfl
      have hunsettled := CallPhase.not_settled_of_holds hholds
      have hchain := h.chain.setPhase (q := .answered g answer) call hunsettled.1
        fun hi hik ht => (h.chain.settled hi call hik ht).resolve_left hunsettled.2
      have hholding := h.holding.setPhase call hphase
      rcases answer_manager (s := s) (k := k) (g := g) (c := c) (a := answer) with
        heq | ⟨l, cache, hl, heq⟩
      · rw [heq]
        exact ⟨h.manager, hchain, hholding⟩
      · rw [heq]
        exact ⟨h.manager.setActive hl rfl rfl rfl rfl (h.manager.hard l hl),
          hchain.setActive hl rfl rfl, hholding.setActive hl rfl rfl rfl⟩
  | @settled k g c answer call answered =>
      have hholds : c.phase.Holds g := by rw [answered]; exact rfl
      have hunsettled := CallPhase.not_settled_of_holds hholds
      obtain ⟨l, hl, rfl, -, hone⟩ := h.holding.active call hholds
      have hidle : RelayInv env { s.manager with active := some { l with activeCalls := 0 } }
          (setPhase s.calls k (.settled answer)) := by
        refine ⟨h.manager.setActive hl rfl rfl rfl rfl (h.manager.hard l hl), ?_, ?_⟩
        · have hset : Chain env { s.manager with active := some { l with activeCalls := 0 } }
              s.calls := h.chain.setActive hl rfl rfl
          exact hset.setPhase call hunsettled.1
            fun hi hik ht => (h.chain.settled hi call hik ht).resolve_left hunsettled.2
        · exact h.holding.finish call hl hholds (by simp [hone]) fun _ => id
      exact hidle.keeps (endCall_keeps h.manager hl hone)

/-! ## Leases that have ended -/

/-- A step that ends the lease: its release, its cancellation by token or by
ticket, or any step at a time when it has expired. -/
inductive EndsLease (l : ActiveBrowserLease T) : BrowserEvent T → Prop
  | released (now : T) : EndsLease l ⟨now, .release (some l.token)⟩
  | cancelled (now : T) (ticket : Option String) : EndsLease l ⟨now, .cancel ticket (some l.token)⟩
  | withdrawn (now : T) {lease : Option String} (h : lease.all (· == "") = true) :
      EndsLease l ⟨now, .cancel (some l.ticket) lease⟩
  | expired {e : BrowserEvent T} (h : l.expiresAt ≤ e.now) : EndsLease l e

/-- A lease changed in place under which no operation could start. -/
theorem BrowserLeaseManager.Dead.setActive {m : BrowserLeaseManager T}
    {l l' : ActiveBrowserLease T} {g : Nat} (h : m.Dead now g) (hl : m.active = some l) (hgen : l'.generation = l.generation)
    (hfenced : l'.fenced = l.fenced) (hexp : l'.expiresAt = l.expiresAt) :
    ({ m with active := some l' } : BrowserLeaseManager T).Dead now g := by
  rintro _ ⟨⟩ hg
  rw [hfenced, hexp]
  exact h l hl (hgen.symm.trans hg)

theorem performed_generation {s t : BrowserRelay T} {a : BrowserAction}
    (h : RelayInv env s.manager s.calls) (hp : Performed env now s a t) :
    s.manager.generation ≤ t.manager.generation := by
  cases hp with
  | method _ keeps => exact keeps.generation
  | called keeps => exact keeps.generation
  | refused _ _ _ keeps => exact keeps.generation
  | started _ _ _ keeps => exact keeps.generation
  | @answered k g c answer call running =>
      rcases answer_manager (s := s) (k := k) (g := g) (c := c) (a := answer) with
        heq | ⟨l, cache, -, heq⟩
      · exact heq ▸ Nat.le_refl _
      · exact heq ▸ Nat.le_refl _
  | @settled k g c answer call answered =>
      have hholds : c.phase.Holds g := by rw [answered]; exact rfl
      obtain ⟨l, hl, rfl, -, hone⟩ := h.holding.active call hholds
      exact (endCall_keeps h.manager hl hone).generation

/-- A dead lease stays dead. -/
theorem performed_dead {s t : BrowserRelay T} {a : BrowserAction} {g : Nat}
    (h : RelayInv env s.manager s.calls) (hp : Performed env now s a t)
    (hg : g ≤ s.manager.generation) (hd : s.manager.Dead now g) : t.manager.Dead now g := by
  cases hp with
  | method _ keeps => exact keeps.dead hg hd
  | called keeps active _ =>
      have hdead : BrowserLeaseManager.Dead now _ g := keeps.dead hg hd
      exact hdead.setActive active rfl rfl rfl
  | refused _ _ _ keeps => exact keeps.dead hg hd
  | started _ _ _ keeps active _ unfenced unexpired =>
      rintro _ ⟨⟩ hgen
      rcases keeps.dead hg hd _ active hgen with hf | hx
      · rw [unfenced] at hf
        cases hf
      · exact absurd hx (not_le_of_gt unexpired)
  | @answered k g' c answer call running =>
      rcases answer_manager (s := s) (k := k) (g := g') (c := c) (a := answer) with
        heq | ⟨l, cache, hl, heq⟩
      · exact heq ▸ hd
      · rw [heq]
        exact hd.setActive hl rfl rfl rfl
  | @settled k g' c answer call answered =>
      have hholds : c.phase.Holds g' := by rw [answered]; exact rfl
      obtain ⟨l, hl, rfl, -, hone⟩ := h.holding.active call hholds
      have hk : Keeps env now _ _ _ := endCall_keeps h.manager hl hone
      exact hk.dead hg (hd.setActive hl rfl rfl rfl)

/-- A step that ends the active lease leaves it dead. -/
theorem ends_dead {s t : BrowserRelay T} {a : BrowserAction} {l : ActiveBrowserLease T}
    (h : RelayInv env s.manager s.calls) (hp : s.perform env now a = some t)
    (hl : s.manager.active = some l) (he : EndsLease l ⟨now, a⟩) :
    t.manager.Dead now l.generation := by
  cases he with
  | released =>
      cases hp
      exact release_dead h.manager hl rfl
  | cancelled _ ticket =>
      cases hp
      exact cancel_dead h.manager hl (.inl rfl)
  | withdrawn _ hlease =>
      cases hp
      refine cancel_dead h.manager hl (.inr ⟨hlease, rfl, ?_⟩)
      have hreq := h.manager.order.subset (List.mem_append_left _ (h.manager.ticket l hl))
      obtain ⟨i, -, hi⟩ := h.manager.drew _ hreq
      exact hi ▸ env.randomUUID_ne_empty i
  | expired hx =>
      refine performed_dead h (performed h.manager hp) (h.manager.generation l hl) ?_
      intro l' hl' _
      cases hl.symm.trans hl'
      exact .inr hx

/-- A step in which the operation of call `k` starts under a lease. -/
def StartsUnder (x : Taken (BrowserRelay T) (BrowserEvent T)) (k generation : Nat) : Prop :=
  x.action.action = .start k ∧
    ∃ c, x.after.calls[k]? = some c ∧ c.phase.Holds generation

/-- An operation starts only under the lease whose token its call was made
with. -/
theorem starts_current {s t : BrowserRelay T} {k g : Nat} {c' : BrowserCall}
    (h : RelayInv env s.manager s.calls) (hp : Performed env now s (.start k) t)
    (hc' : t.calls[k]? = some c') (hg : c'.phase.Holds g) :
    ∃ l c, s.manager.active = some l ∧ s.calls[k]? = some c ∧ l.generation = g ∧
      l.token = c.token ∧ l.fenced = false ∧ now < l.expiresAt ∧ l.expiresAt ≤ l.hardExpiresAt := by
  cases hp with
  | method isMethod => cases isMethod
  | refused =>
      obtain ⟨d, -, rfl⟩ := getElem?_setPhase hc'
      rw [if_pos rfl] at hg
      exact absurd hg id
  | @started _ c l' m' call waiting ready keeps active current unfenced unexpired =>
      obtain ⟨d, -, rfl⟩ := getElem?_setPhase hc'
      rw [if_pos rfl] at hg
      have hgen : l'.generation = g := (c.tool.begin_holds k _ g).mp hg
      -- the token was drawn before this step, so the lease was active before it
      rcases keeps.lease l' active with ⟨l, hl, hc⟩ | hf
      · refine ⟨l, c, hl, call, hc.generation.symm.trans hgen, hc.token.symm.trans current, ?_, ?_,
          h.manager.hard l hl⟩
        · by_contra hne
          have := hc.fenced (by simpa using hne)
          rw [unfenced] at this
          cases this
        · by_contra hle
          rcases hc.late (le_of_not_gt hle) with hf | hx
          · rw [unfenced] at hf
            cases hf
          · exact absurd hx (not_le_of_gt unexpired)
      · exact absurd (current ▸ h.chain.drew c (List.mem_of_getElem? call)) hf.token

/-! ## The queue -/

/-- The queue's moves do not depend on the active lease. -/
theorem BrowserLeaseManager.QueueMoves.withActive {cancelled : String → Prop}
    {m m' : BrowserLeaseManager T} (h : QueueMoves now cancelled m m') (x y : Option (ActiveBrowserLease T)) :
    QueueMoves now cancelled { m with active := x } { m' with active := y } :=
  ⟨h.requested, h.granted, h.stays, h.queue⟩

theorem performed_queue {s t : BrowserRelay T} {a : BrowserAction}
    (h : RelayInv env s.manager s.calls) (hp : Performed env now s a t) :
    QueueMoves now a.Cancels s.manager t.manager := by
  cases hp with
  | method _ keeps => exact keeps.toQueueMoves
  | called keeps _ _ => exact keeps.toQueueMoves.withActive _ _
  | refused _ _ _ keeps => exact keeps.toQueueMoves
  | started _ _ _ keeps _ _ _ _ => exact keeps.toQueueMoves.withActive _ _
  | @answered k g c answer call running =>
      have hrefl : Moves env now (fun _ => False) s.manager s.manager := Moves.refl _
      rcases answer_manager (s := s) (k := k) (g := g) (c := c) (a := answer) with
        heq | ⟨l, cache, hl, heq⟩
      · exact heq ▸ hrefl.toQueueMoves
      · exact heq ▸ hrefl.toQueueMoves.withActive _ _
  | @settled k g c answer call answered =>
      have hholds : c.phase.Holds g := by rw [answered]; exact rfl
      obtain ⟨l, hl, rfl, -, hone⟩ := h.holding.active call hholds
      exact (endCall_keeps h.manager hl hone).toQueueMoves.withActive _ _

theorem BrowserRelay.withCall_requested (env : BrowserEnv T) (now : T) (s : BrowserRelay T)
    (token : String) (tool : ToolCall) :
    (s.withCall env now token tool).manager.requested = s.manager.requested := by
  have h : (s.manager.validateCurrent env now (some token)).2.requested = s.manager.requested := by
    simp
  unfold BrowserRelay.withCall
  split
  all_goals
    rename_i heq
    rw [heq] at h
    exact h

theorem BrowserRelay.start_requested (env : BrowserEnv T) (now : T) (s : BrowserRelay T) (k : Nat)
    (c : BrowserCall) :
    (s.start env now k c).manager.requested = s.manager.requested := by
  have h : (s.manager.validateCurrent env now (some c.token)).2.requested =
      s.manager.requested := by simp
  simp only [BrowserRelay.start, beginCall]
  cases hval : s.manager.validateCurrent env now (some c.token) with
  | mk result m' =>
      rw [hval] at h
      cases result <;> exact h

/-- A ticket that a step issues is granted at once or waits. -/
theorem perform_requested {s t : BrowserRelay T} {a : BrowserAction}
    (hp : s.perform env now a = some t) :
    ∀ ticket ∈ t.manager.requested, ticket ∈ s.manager.requested ∨ ticket ∈ t.manager.granted ∨
      ∃ r ∈ t.manager.queue, r.ticket = ticket := by
  cases a with
  | request purpose requestKey =>
      cases hp
      exact request_requested
  | withCall token tool =>
      cases hp
      exact fun ticket ht => .inl (s.withCall_requested env now token tool ▸ ht)
  | start k =>
      simp only [BrowserRelay.perform] at hp
      split at hp
      · split at hp
        · split at hp
          · cases hp
            exact fun ticket ht => .inl (s.start_requested env now k _ ▸ ht)
          · cases hp
        · cases hp
      · cases hp
  | answer k answer =>
      simp only [BrowserRelay.perform] at hp
      split at hp
      · rename_i c _
        split at hp
        · rename_i g _
          cases hp
          intro ticket ht
          rcases answer_manager (s := s) (k := k) (g := g) (c := c) (a := answer) with
            heq | ⟨l, cache, hl, heq⟩
          · exact .inl (heq ▸ ht)
          · rw [heq] at ht
            exact .inl ht
        · cases hp
      · cases hp
  | settle k =>
      simp only [BrowserRelay.perform] at hp
      split at hp
      · split at hp
        · cases hp
          exact fun ticket ht => .inl (by simpa using ht)
        · cases hp
      · cases hp
  | _ =>
      cases hp
      exact fun ticket ht => .inl (by simpa using ht)

/-! ## Whole runs -/

/-- At most one operation runs, and under the active lease; no request waits
while no lease is active; a request key has one live ticket. -/
structure Exclusive (s : BrowserRelay T) : Prop where
  one : ∀ {k k' : Nat} {c c' : BrowserCall} {g g' : Nat}, s.calls[k]? = some c →
    s.calls[k']? = some c' → c.phase.Holds g → c'.phase.Holds g' → k = k'
  under : ∀ {k : Nat} {c : BrowserCall} {g : Nat}, s.calls[k]? = some c → c.phase.Holds g →
    ∃ l, s.manager.active = some l ∧ l.generation = g ∧ l.token = c.token
  busy : s.manager.queue ≠ [] → s.manager.active ≠ none
  keyed : ∀ {k : String} {p q : String × Option String}, p ∈ s.manager.live →
    q ∈ s.manager.live → p.2 = some k → q.2 = some k → p.1 = q.1

/-- Tickets are granted in the order in which they were requested. A ticket is
granted when it is requested or while it waits and has not expired; it stops
waiting otherwise only in a step that cancels it or finds it expired. -/
structure FirstComeFirstServed (taken : List (Taken (BrowserRelay T) (BrowserEvent T)))
    (s : BrowserRelay T) : Prop where
  order : (s.manager.granted ++ s.manager.queue.map (·.ticket)).Sublist s.manager.requested
  nodup : s.manager.requested.Nodup
  granted : ∀ x ∈ taken, ∃ new, x.after.manager.granted = x.before.manager.granted ++ new ∧
    ∀ ticket ∈ new, (∃ r ∈ x.before.manager.queue, r.ticket = ticket ∧ x.action.now < r.expiresAt) ∨
      ticket ∉ x.before.manager.requested
  stays : ∀ x ∈ taken, ∀ r ∈ x.before.manager.queue, r ∈ x.after.manager.queue ∨
    r.ticket ∈ x.after.manager.granted ∨ x.action.action.Cancels r.ticket ∨
      r.expiresAt ≤ x.action.now
  accounted : ∀ ticket ∈ s.manager.requested, ticket ∈ s.manager.granted ∨
    (∃ r ∈ s.manager.queue, r.ticket = ticket) ∨ ∃ x ∈ taken, ∃ r ∈ x.before.manager.queue,
      r.ticket = ticket ∧ (x.action.action.Cancels ticket ∨ r.expiresAt ≤ x.action.now)

theorem RelayInv.exclusive {s : BrowserRelay T} (h : RelayInv env s.manager s.calls) :
    Exclusive s where
  one := h.holding.one
  under hc hg := by
    obtain ⟨l, hl, hgen, htoken, -⟩ := h.holding.active hc hg
    exact ⟨l, hl, hgen, htoken⟩
  busy := h.manager.busy
  keyed {k p q} hp hq hpk hqk := by
    by_contra hne
    have hsymm : Std.Symm KeysApart := ⟨fun p q hpq k' hq' hp' => hpq k' hp' hq'⟩
    exact h.manager.keys.forall hp hq (fun he => hne (congrArg Prod.fst he)) k hpk hqk

theorem relayInv_initial (t₀ : T) :
    RelayInv env (BrowserRelay.initial t₀).manager (BrowserRelay.initial t₀).calls := by
  refine ⟨⟨⟨?_, ?_, ?_, ?_, ?_, ?_, ?_, ?_⟩, ?_⟩, ⟨?_, ?_, ?_, ?_⟩, ⟨?_, ?_, ?_⟩⟩ <;>
    simp [BrowserRelay.initial, BrowserLeaseManager.initial, live]

theorem BrowserRelay.next_iff {s t : BrowserRelay T} {e : BrowserEvent T} : s.next env e t ↔
    s.clock ≤ e.now ∧ ∃ u, s.perform env e.now e.action = some u ∧
      t = { u with clock := e.now } := by
  unfold BrowserRelay.next BrowserRelay.step
  split
  · rename_i hle
    simp [hle, eq_comm]
  · rename_i hle
    simp [hle]

/-- What a step of a run performs, before the clock is set. -/
theorem next_performed {s t : BrowserRelay T} {e : BrowserEvent T}
    (h : RelayInv env s.manager s.calls) (hn : s.next env e t) :
    ∃ u, s.perform env e.now e.action = some u ∧ Performed env e.now s e.action u ∧
      t = { u with clock := e.now } := by
  obtain ⟨-, u, hu, rfl⟩ := BrowserRelay.next_iff.mp hn
  exact ⟨u, hu, performed h.manager hu, rfl⟩

theorem next_inv {s t : BrowserRelay T} {e : BrowserEvent T}
    (h : RelayInv env s.manager s.calls) (hn : s.next env e t) :
    RelayInv env t.manager t.calls := by
  obtain ⟨u, -, hp, rfl⟩ := next_performed h hn
  have hu := performed_inv h hp
  exact ⟨hu.manager, hu.chain, hu.holding⟩

section Run

variable {t₀ : T} {taken : List (Taken (BrowserRelay T) (BrowserEvent T))} {s : BrowserRelay T}

theorem run_inv (h : Run (BrowserRelay.next env) (.initial t₀) taken s) :
    RelayInv env s.manager s.calls ∧ ∀ x ∈ taken, RelayInv env x.before.manager x.before.calls ∧
      RelayInv env x.after.manager x.after.calls :=
  h.invariant (relayInv_initial t₀) fun _ _ _ hs hn => next_inv hs hn

/-- Once no operation can start under a lease, none does. -/
theorem run_never_starts {s₀ : BrowserRelay T} {g k : Nat}
    (h : Run (BrowserRelay.next env) s₀ taken s) (hinv : RelayInv env s₀.manager s₀.calls)
    (hg : g ≤ s₀.manager.generation) (hd : s₀.manager.Dead s₀.clock g) :
    ∀ y ∈ taken, ¬ StartsUnder y k g := by
  have hdead := h.invariant (I := fun s => RelayInv env s.manager s.calls ∧
    g ≤ s.manager.generation ∧ s.manager.Dead s.clock g) ⟨hinv, hg, hd⟩ fun s e t hs hn => by
      obtain ⟨u, -, hp, rfl⟩ := next_performed hs.1 hn
      have hgen := performed_generation hs.1 hp
      have hdead := performed_dead hs.1 hp hs.2.1 (hs.2.2.later (BrowserRelay.next_iff.mp hn).1)
      exact ⟨next_inv hs.1 hn, hs.2.1.trans hgen, hdead⟩
  rintro y hy ⟨haction, c, hc, hholds⟩
  obtain ⟨hs, -, hdy⟩ := (hdead.2 y hy).1
  have hn := h.allowed y hy
  obtain ⟨u, -, hp, hu⟩ := next_performed hs hn
  rw [haction] at hp
  rw [hu] at hc
  obtain ⟨l, c₀, hl, -, hgen, -, hf, hx, -⟩ := starts_current hs hp hc hholds
  rcases hdy.later (BrowserRelay.next_iff.mp hn).1 l hl hgen with hfenced | hle
  · rw [hf] at hfenced
    cases hfenced
  · exact absurd hle (not_le_of_gt hx)

theorem run_served (h : Run (BrowserRelay.next env) (.initial t₀) taken s) :
    FirstComeFirstServed taken s := by
  obtain ⟨hs, hall⟩ := run_inv h
  have hqueue : ∀ x ∈ taken,
      QueueMoves x.action.now x.action.action.Cancels x.before.manager x.after.manager := by
    intro x hx
    obtain ⟨u, -, hp, hu⟩ := next_performed (hall x hx).1 (h.allowed x hx)
    have hq := performed_queue (hall x hx).1 hp
    rw [hu]
    exact ⟨hq.requested, hq.granted, hq.stays, hq.queue⟩
  refine ⟨hs.manager.order, hs.manager.nodup, fun x hx => (hqueue x hx).granted,
    fun x hx => (hqueue x hx).stays, ?_⟩
  clear hs
  induction h with
  | start => simp [BrowserRelay.initial, BrowserLeaseManager.initial]
  | @step taken s t e hrun hn ih =>
      have ih := ih (fun x hx => hall x (List.mem_append_left _ hx))
        (fun x hx => hqueue x (List.mem_append_left _ hx))
      have hlast : (⟨s, e, t⟩ : Taken _ _) ∈ taken ++ [⟨s, e, t⟩] := by simp
      have hq := hqueue _ hlast
      obtain ⟨u, hu, -, rfl⟩ := next_performed (hall _ hlast).1 hn
      intro ticket hticket
      rcases perform_requested hu ticket hticket with hold | hnew
      · rcases ih ticket hold with hg | ⟨r, hr, rfl⟩ | ⟨x, hx, hdrop⟩
        · obtain ⟨new, hgranted, -⟩ := hq.granted
          exact .inl (hgranted ▸ List.mem_append_left _ hg)
        · rcases hq.stays r hr with hstay | hg | hdrop
          · exact .inr (.inl ⟨r, hstay, rfl⟩)
          · exact .inl hg
          · exact .inr (.inr ⟨_, hlast, r, hr, rfl, hdrop⟩)
        · exact .inr (.inr ⟨x, List.mem_append_left _ hx, hdrop⟩)
      · exact hnew.imp_right .inl

end Run

/-- Lifetimes of ten, and UUIDs that count up. -/
def tenTicks : BrowserEnv Nat where
  browserLeaseTtlMs := 10
  browserLeaseMaxMs := 30
  browserQueueTtlMs := 10
  randomUUID n := String.ofList (List.replicate (n + 1) 'u')
  randomUUID_injective m n h := by
    have := congrArg List.length (String.ofList_injective h)
    simpa using this
  randomUUID_ne_empty n := by simp

def snapshotCall : ToolCall :=
  ⟨"browser_snapshot", none, .obj [], fun h => absurd rfl h, wellFormed_empty⟩

/-- Two clients: the first calls twice and releases its lease while its first
operation runs, the second is granted the browser when that call settles. -/
def releasedWhileRunning : List (BrowserEvent Nat) :=
  [⟨0, .request "first" none⟩, ⟨1, .request "second" none⟩, ⟨2, .withCall "uu" snapshotCall⟩,
    ⟨2, .withCall "uu" snapshotCall⟩, ⟨3, .start 0⟩, ⟨4, .release (some "uu")⟩,
    ⟨5, .answer 0 (.ok none)⟩, ⟨6, .settle 0⟩, ⟨7, .start 1⟩]

end Openlia.Browser

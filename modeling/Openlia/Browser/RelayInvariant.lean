import Openlia.Lib.Runs
import Openlia.Browser.LeaseMethods
import Openlia.Browser.ToolCalls

/-! # One operation at a time

The calls made with one token form a chain: none leaves the waiting state before
all earlier ones have settled. A call that holds a lease therefore excludes
every other, and the lease it holds stays active until it settles.
-/

namespace Openlia.Browser

open Lib BrowserLeaseManager

set_option linter.unusedSectionVars false

variable {T : Type} [LinearOrder T] [Add T] {env : BrowserEnv T} {now : T}
  {m m' : BrowserLeaseManager T} {calls : List BrowserCall} {cancelled : String → Prop}

/-- The calls made with one token, as a chain. -/
structure Chain (env : BrowserEnv T) (m : BrowserLeaseManager T) (calls : List BrowserCall) :
    Prop where
  drew : ∀ c ∈ calls, m.Drew env c.token
  previous : ∀ {i j : Nat} {ci cj : BrowserCall}, calls[i]? = some ci → calls[j]? = some cj →
    i < j → ci.token = cj.token → ∃ p cp, cj.previous = some p ∧ calls[p]? = some cp ∧ i ≤ p ∧
      p < j ∧ cp.token = cj.token
  settled : ∀ {i j : Nat} {ci cj : BrowserCall}, calls[i]? = some ci → calls[j]? = some cj →
    i < j → ci.token = cj.token → cj.phase = .waiting ∨ ci.phase.isSettled = true
  last : ∀ {l : ActiveBrowserLease T}, m.active = some l → ∀ {i : Nat} {ci : BrowserCall},
    calls[i]? = some ci → ci.token = l.token →
      ∃ p cp, l.callChain = some p ∧ calls[p]? = some cp ∧ i ≤ p ∧ cp.token = l.token

/-- A call that holds a lease holds the active one, alone. -/
structure Holding (m : BrowserLeaseManager T) (calls : List BrowserCall) : Prop where
  active : ∀ {k : Nat} {c : BrowserCall} {g : Nat}, calls[k]? = some c → c.phase.Holds g →
    ∃ l, m.active = some l ∧ l.generation = g ∧ l.token = c.token ∧ l.activeCalls = 1
  idle : ∀ {l : ActiveBrowserLease T}, m.active = some l → l.activeCalls = 0 ∨
    ∃ (k : Nat) (c : BrowserCall), calls[k]? = some c ∧ c.phase.Holds l.generation
  one : ∀ {k k' : Nat} {c c' : BrowserCall} {g g' : Nat}, calls[k]? = some c →
    calls[k']? = some c' → c.phase.Holds g → c'.phase.Holds g' → k = k'

structure RelayInv (env : BrowserEnv T) (m : BrowserLeaseManager T) (calls : List BrowserCall) :
    Prop where
  manager : Inv env m
  chain : Chain env m calls
  holding : Holding m calls

/-! ## A method of the manager -/

theorem Chain.keeps (h : Chain env m calls) (hk : Keeps env now cancelled m m') :
    Chain env m' calls where
  drew c hc := (h.drew c hc).mono hk.drawn
  previous := h.previous
  settled := h.settled
  last {l'} hl' {i ci} hi htoken := by
    rcases hk.lease l' hl' with ⟨l, hl, hc⟩ | hf
    · rw [hc.token] at htoken ⊢
      rw [hc.callChain]
      exact h.last hl hi htoken
    · exact absurd (htoken ▸ h.drew ci (List.mem_of_getElem? hi)) hf.token

theorem Holding.keeps (h : Holding m calls) (hk : Keeps env now cancelled m m') :
    Holding m' calls where
  active hc hg := by
    obtain ⟨l, hl, hgen, htoken, hcalls⟩ := h.active hc hg
    obtain ⟨l', hl', hcont⟩ := hk.held l hl (by omega)
    exact ⟨l', hl', hcont.generation.trans hgen, hcont.token.trans htoken,
      hcont.activeCalls.trans hcalls⟩
  idle {l'} hl' := by
    rcases hk.lease l' hl' with ⟨l, hl, hc⟩ | hf
    · rw [hc.activeCalls, hc.generation]
      exact h.idle hl
    · exact .inl hf.activeCalls
  one := h.one

theorem RelayInv.keeps (h : RelayInv env m calls) (hk : Keeps env now cancelled m m') :
    RelayInv env m' calls :=
  ⟨hk.inv, h.chain.keeps hk, h.holding.keeps hk⟩

/-! ## A call moves to its next phase -/

section SetPhase

variable {k i : Nat} {c c' : BrowserCall} {q : CallPhase}

/-- A call after one of them has moved to its next phase. -/
theorem getElem?_setPhase (h : (setPhase calls k q)[i]? = some c') :
    ∃ c, calls[i]? = some c ∧ c' = if i = k then { c with phase := q } else c := by
  rw [setPhase, List.getElem?_modify] at h
  obtain ⟨c, hc, hc'⟩ := Option.map_eq_some_iff.mp h
  refine ⟨c, hc, ?_⟩
  by_cases hik : i = k
  · simpa [hik] using hc'.symm
  · rw [if_neg fun he : k = i => hik he.symm] at hc'
    simpa [hik] using hc'.symm

theorem setPhase_self (h : calls[k]? = some c) :
    (setPhase calls k q)[k]? = some { c with phase := q } := by
  simp [setPhase, h]

theorem setPhase_ne (h : i ≠ k) : (setPhase calls k q)[i]? = calls[i]? := by
  simp [setPhase, Ne.symm h]

theorem setPhase_of_getElem? (h : calls[i]? = some c) :
    ∃ c', (setPhase calls k q)[i]? = some c' ∧ c'.token = c.token ∧
      (i ≠ k → c' = c) ∧ (i = k → c'.phase = q) := by
  by_cases hik : i = k
  · subst hik
    exact ⟨{ c with phase := q }, setPhase_self h, rfl, fun hne => absurd rfl hne, fun _ => rfl⟩
  · exact ⟨c, (setPhase_ne hik).trans h, rfl, fun _ => rfl, fun he => absurd he hik⟩

/-- The calls made earlier with the token have settled: the next phase may be
any. -/
theorem Chain.setPhase (h : Chain env m calls) (hk : calls[k]? = some c)
    (hunsettled : c.phase.isSettled = false)
    (hearlier : ∀ {i : Nat} {ci : BrowserCall}, calls[i]? = some ci → i < k →
      ci.token = c.token → ci.phase.isSettled = true) :
    Chain env m (setPhase calls k q) where
  drew c' hc' := by
    obtain ⟨i, hi⟩ := List.mem_iff_getElem?.mp hc'
    obtain ⟨c₀, hc₀, rfl⟩ := getElem?_setPhase hi
    have := h.drew c₀ (List.mem_of_getElem? hc₀)
    split <;> exact this
  previous {i j ci cj} hi hj hij htoken := by
    obtain ⟨di, hdi, rfl⟩ := getElem?_setPhase hi
    obtain ⟨dj, hdj, rfl⟩ := getElem?_setPhase hj
    have htoken' : di.token = dj.token := by split at htoken <;> split at htoken <;> exact htoken
    obtain ⟨p, cp, hp, hcp, hip, hpj, hpt⟩ := h.previous hdi hdj hij htoken'
    obtain ⟨cp', hcp', ht', -, -⟩ := setPhase_of_getElem? (k := k) (q := q) hcp
    refine ⟨p, cp', ?_, hcp', hip, hpj, ?_⟩
    · split <;> exact hp
    · rw [ht']
      split <;> exact hpt
  settled {i j ci cj} hi hj hij htoken := by
    obtain ⟨di, hdi, rfl⟩ := getElem?_setPhase hi
    obtain ⟨dj, hdj, rfl⟩ := getElem?_setPhase hj
    have htoken' : di.token = dj.token := by split at htoken <;> split at htoken <;> exact htoken
    have hd := h.settled hdi hdj hij htoken'
    by_cases hjk : j = k
    · subst hjk
      cases hdj.symm.trans hk
      rw [if_neg (show i ≠ j by omega)]
      exact .inr (hearlier hdi hij htoken')
    · rw [if_neg hjk]
      by_cases hik : i = k
      · -- the call that moves had not settled, so the later ones still wait
        subst hik
        cases hdi.symm.trans hk
        rw [hunsettled] at hd
        exact .inl (by simpa using hd)
      · rw [if_neg hik]
        exact hd
  last {l} hl {i ci} hi htoken := by
    obtain ⟨di, hdi, rfl⟩ := getElem?_setPhase hi
    have htoken' : di.token = l.token := by split at htoken <;> exact htoken
    obtain ⟨p, cp, hp, hcp, hip, hpt⟩ := h.last hl hdi htoken'
    obtain ⟨cp', hcp', ht', -, -⟩ := setPhase_of_getElem? (k := k) (q := q) hcp
    exact ⟨p, cp', hp, hcp', hip, ht'.trans hpt⟩

/-- A phase that holds the same lease, or none as before. -/
theorem Holding.setPhase (h : Holding m calls) (hk : calls[k]? = some c)
    (hsame : ∀ g, q.Holds g ↔ c.phase.Holds g) : Holding m (setPhase calls k q) where
  active {i c' g} hi hg := by
    obtain ⟨d, hd, rfl⟩ := getElem?_setPhase hi
    split at hg
    · rename_i hik
      cases (hik ▸ hd).symm.trans hk
      simpa [hik] using h.active hd ((hsame g).mp hg)
    · rename_i hik
      simpa [hik] using h.active hd hg
  idle {l} hl := by
    refine (h.idle hl).imp_right fun ⟨i, d, hd, hg⟩ => ?_
    obtain ⟨d', hd', -, hother, hsamek⟩ := setPhase_of_getElem? (k := k) (q := q) hd
    by_cases hik : i = k
    · cases (hik ▸ hd).symm.trans hk
      exact ⟨i, d', hd', hsamek hik ▸ (hsame _).mpr hg⟩
    · exact ⟨i, d', hd', hother hik ▸ hg⟩
  one {i j ci cj g g'} hi hj hg hg' := by
    obtain ⟨di, hdi, rfl⟩ := getElem?_setPhase hi
    obtain ⟨dj, hdj, rfl⟩ := getElem?_setPhase hj
    have hold : ∀ {n : Nat} {d : BrowserCall} {g : Nat}, calls[n]? = some d →
        (if n = k then { d with phase := q } else d).phase.Holds g → d.phase.Holds g := by
      intro n d g hd hh
      split at hh
      · rename_i hnk
        cases (hnk ▸ hd).symm.trans hk
        exact (hsame g).mp hh
      · exact hh
    exact h.one hdi hdj (hold hdi hg) (hold hdj hg')

/-- A call takes the lease while no call holds it. -/
theorem Holding.begin {l l' : ActiveBrowserLease T} (h : Holding m calls) (hk : calls[k]? = some c)
    (hl : m.active = some l) (hfree : ∀ {i : Nat} {d : BrowserCall} {g : Nat},
      calls[i]? = some d → ¬ d.phase.Holds g)
    (hgen : l'.generation = l.generation) (htoken : l'.token = c.token)
    (hcalls : l'.activeCalls = l.activeCalls + 1)
    (hphase : ∀ g, q.Holds g ↔ l.generation = g) :
    Holding { m with active := some l' } (Browser.setPhase calls k q) := by
  have honly : ∀ {i : Nat} {d : BrowserCall} {g : Nat},
      (Browser.setPhase calls k q)[i]? = some d → d.phase.Holds g →
        i = k ∧ d.token = c.token ∧ l.generation = g := by
    intro i d g hi hg
    obtain ⟨d, hd, rfl⟩ := getElem?_setPhase hi
    split at hg
    · rename_i hik
      cases (hik ▸ hd).symm.trans hk
      exact ⟨hik, by simp [hik], (hphase g).mp hg⟩
    · exact absurd hg (hfree hd)
  have hidle : l.activeCalls = 0 := by
    rcases h.idle hl with h0 | ⟨i, d, hd, hg⟩
    · exact h0
    · exact absurd hg (hfree hd)
  refine ⟨fun hi hg => ?_, ?_, fun hi hj hg hg' => ?_⟩
  · obtain ⟨-, htok, hg⟩ := honly hi hg
    exact ⟨l', rfl, hgen.trans hg, htoken.trans htok.symm, by omega⟩
  · rintro _ ⟨⟩
    obtain ⟨d', hd', -, -, hsame⟩ := setPhase_of_getElem? (k := k) (q := q) hk
    exact .inr ⟨k, d', hd', hsame rfl ▸ (hphase _).mpr hgen.symm⟩
  · exact (honly hi hg).1.trans (honly hj hg').1.symm

/-- The call that held the lease gives it back. -/
theorem Holding.finish {l l' : ActiveBrowserLease T} (h : Holding m calls)
    (hk : calls[k]? = some c) (hl : m.active = some l) (hg : c.phase.Holds l.generation)
    (hcalls : l'.activeCalls = l.activeCalls - 1) (hphase : ∀ g, ¬ q.Holds g) :
    Holding { m with active := some l' } (Browser.setPhase calls k q) := by
  have hnone : ∀ {i : Nat} {d : BrowserCall} {g : Nat},
      (Browser.setPhase calls k q)[i]? = some d → ¬ d.phase.Holds g := by
    intro i d g hi hd
    obtain ⟨d, hd', rfl⟩ := getElem?_setPhase hi
    split at hd
    · exact hphase g hd
    · rename_i hik
      exact hik (h.one hd' hk hd hg)
  obtain ⟨l₁, hl₁, -, -, hone⟩ := h.active hk hg
  cases hl.symm.trans hl₁
  refine ⟨fun hi hd => absurd hd (hnone hi), ?_, fun hi _ hd _ => absurd hd (hnone hi)⟩
  rintro _ ⟨⟩
  exact .inl (by omega)

end SetPhase

end Openlia.Browser

import Openlia.Browser.Lease

/-! # What a method of the lease manager may do

Every method is made of four steps: requests are dropped from the queue, the
active lease is changed in place, it is released and the next request granted,
or a new request comes in. `Moves` says once what any sequence of them can do;
the invariant of the manager is kept by each.
-/

namespace Openlia.Browser

set_option linter.unusedSectionVars false

namespace BrowserLeaseManager

variable {T : Type} [LinearOrder T] [Add T] {env : BrowserEnv T} {now : T}
  {C : String → Prop}

/-- A UUID that has been drawn. -/
def Drew (env : BrowserEnv T) (m : BrowserLeaseManager T) (s : String) : Prop :=
  ∃ i < m.drawn, env.randomUUID i = s

/-- The tickets and keys of the active lease and of the queue. -/
def live (m : BrowserLeaseManager T) : List (String × Option String) :=
  m.active.toList.map (fun l => (l.ticket, l.requestKey)) ++
    m.queue.map fun r => (r.ticket, r.requestKey)

/-- Different live requests do not share a key. -/
def KeysApart (p q : String × Option String) : Prop := ∀ k, p.2 = some k → q.2 ≠ some k

/-- What holds of the manager also while no lease is active yet. -/
structure Base (env : BrowserEnv T) (m : BrowserLeaseManager T) : Prop where
  token : ∀ l, m.active = some l → m.Drew env l.token
  ticket : ∀ l, m.active = some l → l.ticket ∈ m.granted
  hard : ∀ l, m.active = some l → l.expiresAt ≤ l.hardExpiresAt
  generation : ∀ l, m.active = some l → l.generation ≤ m.generation
  order : (m.granted ++ m.queue.map (·.ticket)).Sublist m.requested
  nodup : m.requested.Nodup
  drew : ∀ t ∈ m.requested, m.Drew env t
  keys : m.live.Pairwise KeysApart

structure Inv (env : BrowserEnv T) (m : BrowserLeaseManager T) : Prop extends Base env m where
  busy : m.queue ≠ [] → m.active ≠ none

/-- The same lease later, with as many calls running. -/
structure Continues (now : T) (l l' : ActiveBrowserLease T) : Prop where
  generation : l'.generation = l.generation
  ticket : l'.ticket = l.ticket
  token : l'.token = l.token
  requestKey : l'.requestKey = l.requestKey
  activeCalls : l'.activeCalls = l.activeCalls
  callChain : l'.callChain = l.callChain
  fenced : l.fenced = true → l'.fenced = true
  late : l.expiresAt ≤ now → l'.fenced = true ∨ l'.expiresAt ≤ now
  cache : l'.fenced = true ∨ l'.operationCache = l.operationCache

/-- A lease granted since. -/
structure Fresh (env : BrowserEnv T) (m : BrowserLeaseManager T) (l : ActiveBrowserLease T) :
    Prop where
  generation : m.generation < l.generation
  token : ¬ m.Drew env l.token
  activeCalls : l.activeCalls = 0
  callChain : l.callChain = none
  cache : l.fenced = true ∨ l.operationCache = []

/-- What becomes of the requests: tickets are granted that waited and have not
expired, or that are new; requests that wait stay unless they are granted, are
cancelled or have expired. -/
structure QueueMoves (now : T) (cancelled : String → Prop) (m m' : BrowserLeaseManager T) :
    Prop where
  requested : m.requested <+: m'.requested
  granted : ∃ new, m'.granted = m.granted ++ new ∧ ∀ t ∈ new,
    (∃ r ∈ m.queue, r.ticket = t ∧ now < r.expiresAt) ∨ t ∉ m.requested
  stays : ∀ r ∈ m.queue,
    r ∈ m'.queue ∨ r.ticket ∈ m'.granted ∨ cancelled r.ticket ∨ r.expiresAt ≤ now
  queue : ∀ r ∈ m'.queue, r ∈ m.queue ∨ r.ticket ∉ m.requested

structure Moves (env : BrowserEnv T) (now : T) (cancelled : String → Prop)
    (m m' : BrowserLeaseManager T) : Prop extends QueueMoves now cancelled m m' where
  generation : m.generation ≤ m'.generation
  drawn : m.drawn ≤ m'.drawn
  lease : ∀ l', m'.active = some l' →
    (∃ l, m.active = some l ∧ Continues now l l') ∨ Fresh env m l'
  held : ∀ l, m.active = some l → 0 < l.activeCalls →
    ∃ l', m'.active = some l' ∧ Continues now l l'

theorem Drew.mono {m m' : BrowserLeaseManager T} {s : String} (h : m.Drew env s)
    (hd : m.drawn ≤ m'.drawn) : m'.Drew env s := by
  obtain ⟨i, hi, he⟩ := h
  exact ⟨i, by omega, he⟩

theorem not_drew_next {m : BrowserLeaseManager T} : ¬ m.Drew env (env.randomUUID m.drawn) := by
  rintro ⟨i, hi, he⟩
  have := env.randomUUID_injective he
  omega

theorem Continues.refl (l : ActiveBrowserLease T) : Continues now l l :=
  ⟨rfl, rfl, rfl, rfl, rfl, rfl, id, Or.inr, Or.inr rfl⟩

theorem Continues.trans {l l' l'' : ActiveBrowserLease T} (h : Continues now l l')
    (h' : Continues now l' l'') : Continues now l l'' where
  generation := h'.generation.trans h.generation
  ticket := h'.ticket.trans h.ticket
  token := h'.token.trans h.token
  requestKey := h'.requestKey.trans h.requestKey
  activeCalls := h'.activeCalls.trans h.activeCalls
  callChain := h'.callChain.trans h.callChain
  fenced hf := h'.fenced (h.fenced hf)
  late hl := (h.late hl).elim (fun hf => .inl (h'.fenced hf)) h'.late
  cache := by
    rcases h'.cache with hf | hc
    · exact .inl hf
    · rcases h.cache with hf | hc'
      · exact .inl (h'.fenced hf)
      · exact .inr (hc.trans hc')

theorem Fresh.continues {m : BrowserLeaseManager T} {l l' : ActiveBrowserLease T}
    (h : Fresh env m l) (hc : Continues now l l') : Fresh env m l' where
  generation := hc.generation ▸ h.generation
  token := hc.token ▸ h.token
  activeCalls := hc.activeCalls.trans h.activeCalls
  callChain := hc.callChain.trans h.callChain
  cache := by
    rcases hc.cache with hf | he
    · exact .inl hf
    · exact h.cache.imp hc.fenced he.trans

namespace Moves

variable {m m' m'' : BrowserLeaseManager T}

theorem refl (m : BrowserLeaseManager T) : Moves env now C m m where
  generation := Nat.le_refl _
  drawn := Nat.le_refl _
  requested := List.prefix_rfl
  granted := ⟨[], by simp, by simp⟩
  stays r hr := .inl hr
  queue r hr := .inl hr
  lease l hl := .inl ⟨l, hl, Continues.refl l⟩
  held l hl _ := ⟨l, hl, Continues.refl l⟩

theorem trans (h : Moves env now C m m') (h' : Moves env now C m' m'') :
    Moves env now C m m'' where
  generation := Nat.le_trans h.generation h'.generation
  drawn := Nat.le_trans h.drawn h'.drawn
  requested := h.requested.trans h'.requested
  granted := by
    obtain ⟨new, hg, hnew⟩ := h.granted
    obtain ⟨new', hg', hnew'⟩ := h'.granted
    refine ⟨new ++ new', by rw [hg', hg, List.append_assoc], fun t ht => ?_⟩
    rcases List.mem_append.mp ht with ht | ht
    · exact hnew t ht
    · rcases hnew' t ht with ⟨r, hr, rfl, hnow⟩ | hreq
      · exact (h.queue r hr).imp (fun hm => ⟨r, hm, rfl, hnow⟩) id
      · exact .inr fun hm => hreq (h.requested.subset hm)
  stays r hr := by
    rcases h.stays r hr with hq | hg | hc
    · exact h'.stays r hq
    · obtain ⟨new, hg', -⟩ := h'.granted
      exact .inr (.inl (hg' ▸ List.mem_append_left new hg))
    · exact .inr (.inr hc)
  queue r hr := by
    rcases h'.queue r hr with hq | hreq
    · exact h.queue r hq
    · exact .inr fun hm => hreq (h.requested.subset hm)
  lease l'' hl'' := by
    rcases h'.lease l'' hl'' with ⟨l', hl', hc'⟩ | hf
    · rcases h.lease l' hl' with ⟨l, hl, hc⟩ | hf
      · exact .inl ⟨l, hl, hc.trans hc'⟩
      · exact .inr (hf.continues hc')
    · exact .inr ⟨Nat.lt_of_le_of_lt h.generation hf.generation,
        fun hd => hf.token (hd.mono h.drawn), hf.activeCalls, hf.callChain, hf.cache⟩
  held l hl hpos := by
    obtain ⟨l', hl', hc⟩ := h.held l hl hpos
    obtain ⟨l'', hl'', hc'⟩ := h'.held l' hl' (hc.activeCalls ▸ hpos)
    exact ⟨l'', hl'', hc.trans hc'⟩

end Moves

/-! ## The four steps -/

section Steps

variable {m : BrowserLeaseManager T} {l l' : ActiveBrowserLease T}

/-- Requests that were cancelled or have expired are dropped. -/
theorem Base.filterQueue (h : Base env m) (p : QueuedBrowserRequest T → Bool) :
    Base env { m with queue := m.queue.filter p } where
  token := h.token
  ticket := h.ticket
  hard := h.hard
  generation := h.generation
  order := ((List.Sublist.refl _).append (List.filter_sublist.map _)).trans h.order
  nodup := h.nodup
  drew := h.drew
  keys := h.keys.sublist ((List.Sublist.refl _).append (List.filter_sublist.map _))

theorem Inv.filterQueue (h : Inv env m) (p : QueuedBrowserRequest T → Bool) :
    Inv env { m with queue := m.queue.filter p } :=
  ⟨h.toBase.filterQueue p, fun hq => h.busy fun hn => hq (by simp [hn])⟩

theorem moves_filterQueue {p : QueuedBrowserRequest T → Bool}
    (hp : ∀ r ∈ m.queue, p r = false → C r.ticket ∨ r.expiresAt ≤ now) :
    Moves env now C m { m with queue := m.queue.filter p } where
  generation := Nat.le_refl _
  drawn := Nat.le_refl _
  requested := List.prefix_rfl
  granted := ⟨[], by simp, by simp⟩
  stays r hr := by
    cases hpr : p r with
    | true => exact .inl (List.mem_filter.mpr ⟨hr, hpr⟩)
    | false => exact .inr (.inr (hp r hr hpr))
  queue r hr := .inl (List.mem_filter.mp hr).1
  lease l hl := .inl ⟨l, hl, Continues.refl l⟩
  held l hl _ := ⟨l, hl, Continues.refl l⟩

/-- The active lease is changed in place. -/
theorem Inv.setActive (h : Inv env m) (hl : m.active = some l) (hgen : l'.generation = l.generation)
    (hticket : l'.ticket = l.ticket) (htoken : l'.token = l.token)
    (hkey : l'.requestKey = l.requestKey) (hhard : l'.expiresAt ≤ l'.hardExpiresAt) :
    Inv env { m with active := some l' } where
  token := by
    rintro _ ⟨⟩
    exact htoken ▸ h.token l hl
  ticket := by
    rintro _ ⟨⟩
    exact hticket ▸ h.ticket l hl
  hard := by
    rintro _ ⟨⟩
    exact hhard
  generation := by
    rintro _ ⟨⟩
    exact hgen ▸ h.generation l hl
  order := h.order
  nodup := h.nodup
  drew := h.drew
  keys := by
    have := h.keys
    simpa [live, hl, hticket, hkey] using this
  busy _ := by simp

theorem moves_setActive (hl : m.active = some l) (hc : Continues now l l') :
    Moves env now C m { m with active := some l' } where
  generation := Nat.le_refl _
  drawn := Nat.le_refl _
  requested := List.prefix_rfl
  granted := ⟨[], by simp, by simp⟩
  stays r hr := .inl hr
  queue r hr := .inl hr
  lease l₁ hl₁ := .inl ⟨l, hl, by cases hl₁; exact hc⟩
  held l₁ hl₁ _ := ⟨l', rfl, by cases hl.symm.trans hl₁; exact hc⟩

/-- A lease is granted while none is active: to the first request that waits
or to a new one. -/
theorem Inv.grant {ticket purpose : String} {ttlMs : T} {requestKey : Option String}
    (h : Base env m) (horder : (m.granted ++ ticket :: m.queue.map (·.ticket)).Sublist m.requested)
    (hkeys : (((ticket, requestKey) : String × Option String) ::
      m.queue.map fun r => (r.ticket, r.requestKey)).Pairwise KeysApart) :
    Inv env (m.grant env now ticket purpose ttlMs requestKey) where
  token := by
    rintro _ ⟨⟩
    exact ⟨m.drawn, Nat.lt_succ_self _, rfl⟩
  ticket := by
    rintro _ ⟨⟩
    exact List.mem_append_right _ (List.mem_singleton.mpr rfl)
  hard := by
    rintro _ ⟨⟩
    exact min_le_right _ _
  generation := by
    rintro _ ⟨⟩
    exact Nat.le_refl _
  order := by simpa [BrowserLeaseManager.grant] using horder
  nodup := h.nodup
  drew t ht := (h.drew t ht).mono (Nat.le_succ _)
  keys := hkeys
  busy _ := by simp [BrowserLeaseManager.grant]

theorem moves_grant {ticket purpose : String} {ttlMs : T} {requestKey : Option String}
    {rest : List (QueuedBrowserRequest T)} (hn : m.active = none)
    (hrest : ∀ r ∈ rest, r ∈ m.queue)
    (hstays : ∀ r ∈ m.queue, r ∈ rest ∨ r.ticket = ticket ∨ r.expiresAt ≤ now)
    (hticket : (∃ r ∈ m.queue, r.ticket = ticket ∧ now < r.expiresAt) ∨ ticket ∉ m.requested) :
    Moves env now C m
      (BrowserLeaseManager.grant env now { m with queue := rest } ticket purpose ttlMs
        requestKey) where
  generation := Nat.le_succ _
  drawn := Nat.le_succ _
  requested := List.prefix_rfl
  granted := ⟨[ticket], rfl, by simpa using hticket⟩
  stays r hr := by
    rcases hstays r hr with hr | rfl | hr
    · exact .inl hr
    · exact .inr (.inl (by simp [BrowserLeaseManager.grant]))
    · exact .inr (.inr (.inr hr))
  queue r hr := .inl (hrest r hr)
  lease := by
    rintro _ ⟨⟩
    exact .inr ⟨Nat.lt_succ_self _, not_drew_next, rfl, rfl, .inr rfl⟩
  held l hl := by rw [hn] at hl; cases hl

/-- The loop of `grantNext`: requests that have expired are skipped, the first
that has not is granted. -/
theorem grantFrom_spec {q p : List (QueuedBrowserRequest T)} (h : Base env m)
    (hn : m.active = none) (hq : m.queue = p ++ q) (hpre : ∀ r ∈ p, r.expiresAt ≤ now) :
    Inv env (m.grantFrom env now q) ∧ Moves env now C m (m.grantFrom env now q) := by
  induction q generalizing p with
  | nil =>
      rw [grantFrom]
      rw [List.append_nil] at hq
      have hempty : ({ m with queue := [] } : BrowserLeaseManager T) =
          { m with queue := m.queue.filter fun _ => false } := by simp
      rw [hempty]
      exact ⟨⟨h.filterQueue _, by simp⟩, moves_filterQueue fun r hr _ => .inr (hpre r (hq ▸ hr))⟩
  | cons request rest ih =>
      rw [grantFrom]
      split
      · rename_i hexp
        refine ih (p := p ++ [request]) (by simp [hq]) fun r hr => ?_
        rcases List.mem_append.mp hr with hr | hr
        · exact hpre r hr
        · obtain rfl := List.mem_singleton.mp hr
          exact hexp
      · rename_i hexp
        have hmem : request ∈ m.queue := by simp [hq]
        have hsub : (request :: rest).Sublist m.queue := by simp [hq]
        refine ⟨Inv.grant ⟨?_, ?_, ?_, ?_, ?_, h.nodup, h.drew, ?_⟩ ?_ ?_, moves_grant hn ?_ ?_ ?_⟩
        · exact h.token
        · exact h.ticket
        · exact h.hard
        · exact h.generation
        · exact ((List.Sublist.refl _).append
            (((List.sublist_cons_self _ _).trans hsub).map _)).trans h.order
        · exact h.keys.sublist ((List.Sublist.refl _).append
            (((List.sublist_cons_self _ _).trans hsub).map _))
        · exact ((List.Sublist.refl _).append (hsub.map _)).trans h.order
        · have hkeys := h.keys
          simp only [live, hn, Option.toList_none, List.map_nil, List.nil_append] at hkeys
          exact hkeys.sublist
            (hsub.map fun r : QueuedBrowserRequest T => (r.ticket, r.requestKey))
        · exact fun r hr => by simp [hq, hr]
        · intro r hr
          rw [hq] at hr
          rcases List.mem_append.mp hr with hr | hr
          · exact .inr (.inr (hpre r hr))
          · rcases List.mem_cons.mp hr with rfl | hr
            · exact .inr (.inl rfl)
            · exact .inl hr
        · exact .inl ⟨request, hmem, rfl, lt_of_not_ge hexp⟩

/-- A lease with no call running is released and the next request granted. -/
theorem releaseActive_spec (h : Inv env m) (hl : m.active = some l) (hidle : l.activeCalls = 0) :
    Inv env (m.releaseActive env now l.generation) ∧
      Moves env now C m (m.releaseActive env now l.generation) := by
  have hb : Base env { m with active := none } := by
    refine ⟨by simp, by simp, by simp, by simp, h.order, h.nodup, h.drew, ?_⟩
    refine h.keys.sublist ?_
    simp [live]
  have hrel : m.releaseActive env now l.generation =
      ({ m with active := none } : BrowserLeaseManager T).grantFrom env now m.queue := by
    simp [releaseActive, hl, grantNext]
  have hdrop : Moves env now C m { m with active := none } := by
    refine ⟨⟨List.prefix_rfl, ⟨[], by simp, by simp⟩, fun r hr => .inl hr, fun r hr => .inl hr⟩,
      Nat.le_refl _, Nat.le_refl _, by simp, fun l₁ hl₁ hpos => ?_⟩
    cases hl.symm.trans hl₁
    omega
  obtain ⟨hinv, hmoves⟩ := grantFrom_spec (C := C) (p := [])
    hb rfl rfl (by simp)
  exact hrel ▸ ⟨hinv, hdrop.trans hmoves⟩

end Steps

end BrowserLeaseManager

end Openlia.Browser

import Openlia.Browser.LeaseMoves

/-! # The methods of the lease manager

Each method keeps the invariant and makes only the moves it may make. A lease
that is dead, because it is fenced, expired or no longer active, stays dead; the
release or the cancellation of a lease leaves it dead.
-/

namespace Openlia.Browser

set_option linter.unusedSectionVars false

namespace BrowserLeaseManager

variable {T : Type} [LinearOrder T] [Add T] {env : BrowserEnv T} {now : T}
  {C : String → Prop} {m m' m'' : BrowserLeaseManager T} {l : ActiveBrowserLease T}
  {token ticket leaseValue : Option String}

/-- What a method called at `now` does to the manager. -/
structure Keeps (env : BrowserEnv T) (now : T) (cancelled : String → Prop)
    (m m' : BrowserLeaseManager T) : Prop extends Moves env now cancelled m m' where
  inv : Inv env m'

theorem Keeps.refl (h : Inv env m) : Keeps env now C m m := ⟨Moves.refl m, h⟩

theorem Keeps.trans (h : Keeps env now C m m') (h' : Keeps env now C m' m'') :
    Keeps env now C m m'' := ⟨h.toMoves.trans h'.toMoves, h'.inv⟩

/-- No operation can start under the lease of this generation. -/
def Dead (now : T) (m : BrowserLeaseManager T) (generation : Nat) : Prop :=
  ∀ l, m.active = some l → l.generation = generation → l.fenced = true ∨ l.expiresAt ≤ now

theorem Moves.dead {g : Nat} (h : Moves env now C m m') (hg : g ≤ m.generation)
    (hd : m.Dead now g) : m'.Dead now g := by
  intro l' hl' hgen
  rcases h.lease l' hl' with ⟨l, hl, hc⟩ | hf
  · rcases hd l hl (hc.generation ▸ hgen) with hf | hx
    · exact .inl (hc.fenced hf)
    · exact hc.late hx
  · have := hf.generation
    omega

theorem Dead.later {g : Nat} {now' : T} (h : m.Dead now g) (hle : now ≤ now') :
    m.Dead now' g :=
  fun l hl hgen => (h l hl hgen).imp_right hle.trans'

/-! ## Only `request` issues tickets -/

@[simp] theorem grant_requested {t purpose : String} {ttlMs : T} {requestKey : Option String} :
    (m.grant env now t purpose ttlMs requestKey).requested = m.requested := rfl

@[simp] theorem grantFrom_requested {q : List (QueuedBrowserRequest T)} :
    (m.grantFrom env now q).requested = m.requested := by
  induction q with
  | nil => rfl
  | cons r rest ih =>
      rw [grantFrom]
      split
      · exact ih
      · rfl

@[simp] theorem releaseActive_requested {generation : Nat} :
    (m.releaseActive env now generation).requested = m.requested := by
  unfold releaseActive
  split
  · split
    · simp [grantNext]
    · rfl
  · rfl

@[simp] theorem fenceExpired_requested :
    (m.fenceExpired env now l).requested = m.requested := by
  unfold fenceExpired
  simp only
  split <;> simp

@[simp] theorem reap_requested : (m.reap env now).requested = m.requested := by
  unfold reap
  simp only
  split
  · split <;> simp
  · rfl

@[simp] theorem validateCurrent_requested :
    (m.validateCurrent env now token).2.requested = m.requested := by
  unfold validateCurrent
  simp only
  split
  · split
    · simp
    · split <;> simp
  · simp

@[simp] theorem touch_requested : (m.touch env now token).2.requested = m.requested := by
  have h : (m.validateCurrent env now token).2.requested = m.requested := by simp
  unfold touch
  split
  all_goals
    rename_i heq
    rw [heq] at h
    exact h

@[simp] theorem release_requested : (m.release env now token).2.requested = m.requested := by
  have h : (m.validateCurrent env now token).2.requested = m.requested := by simp
  unfold release
  split
  · rename_i heq
    rw [heq] at h
    exact h
  · rename_i heq
    rw [heq] at h
    simp only
    split
    · simpa using h
    · exact h

@[simp] theorem cancel_requested :
    (m.cancel env now ticket leaseValue).2.requested = m.requested := by
  unfold cancel
  simp only
  split
  · simp
  · split
    · simp
    · simp
    · split
      · simp
      · split <;> simp [removeQueued]

@[simp] theorem status_requested : (m.status env now ticket).2.requested = m.requested := by
  unfold status
  simp only
  split
  · rfl
  · rfl
  · split
    · simp
    · split <;> simp

@[simp] theorem expireActive_requested {generation : Nat} :
    (m.expireActive env now generation).requested = m.requested := by
  unfold expireActive
  split
  · split
    · rfl
    · split <;> simp
  · rfl

@[simp] theorem expireQueued_requested {queued : String} :
    (m.expireQueued now queued).requested = m.requested := by
  unfold expireQueued
  split
  · split <;> rfl
  · rfl

@[simp] theorem endCall_requested {generation : Nat} :
    (m.endCall env now generation).requested = m.requested := by
  unfold endCall
  split
  · split
    · simp only
      split <;> simp
    · rfl
  · rfl

/-- The ticket of a new request is granted at once or waits. -/
theorem request_requested {purpose : String} {requestKey : Option String} :
    ∀ t ∈ (m.request env now purpose requestKey).2.requested, t ∈ m.requested ∨
      t ∈ (m.request env now purpose requestKey).2.granted ∨
      ∃ r ∈ (m.request env now purpose requestKey).2.queue, r.ticket = t := by
  unfold request
  simp only
  split
  · simpa using fun t ht => .inl ht
  · simpa using fun t ht => .inl ht
  · split
    · intro t ht
      simp only [grant, reap_requested, List.mem_append, List.mem_singleton] at ht ⊢
      exact ht.imp_right fun he => .inl (.inr he)
    · intro t ht
      simp only [reap_requested, List.mem_append, List.mem_singleton] at ht ⊢
      exact ht.imp_right fun he => .inr ⟨_, .inr rfl, he.symm⟩

/-! ## What each method does -/

/-- The active lease is fenced. -/
theorem fence_keeps {expired : Bool} (h : Inv env m) (hl : m.active = some l) :
    Keeps env now C m { m with active := some (l.fence expired) } where
  toMoves := moves_setActive hl
    ⟨rfl, rfl, rfl, rfl, rfl, rfl, fun _ => rfl, fun _ => .inl rfl, .inl rfl⟩
  inv := h.setActive hl rfl rfl rfl rfl (h.hard l hl)

theorem releaseActive_keeps (h : Inv env m) (hl : m.active = some l) (hidle : l.activeCalls = 0) :
    Keeps env now C m (m.releaseActive env now l.generation) :=
  ⟨(releaseActive_spec h hl hidle).2, (releaseActive_spec (C := fun _ => True) h hl hidle).1⟩

theorem fenceExpired_keeps (h : Inv env m) (hl : m.active = some l) :
    Keeps env now C m (m.fenceExpired env now l) := by
  have hf : Keeps env now C m { m with active := some (l.fence true) } := fence_keeps h hl
  unfold fenceExpired
  split
  · rename_i hidle
    exact hf.trans (releaseActive_keeps (l := l.fence true) hf.inv rfl hidle)
  · exact hf

theorem fenceExpired_dead (h : Inv env m) (hl : m.active = some l) :
    (m.fenceExpired env now l).Dead now l.generation := by
  have hf : Keeps env now (fun _ => False) m { m with active := some (l.fence true) } :=
    fence_keeps h hl
  have hd : ({ m with active := some (l.fence true) } : BrowserLeaseManager T).Dead now
      l.generation := by
    rintro _ ⟨⟩ -
    exact .inl rfl
  unfold fenceExpired
  split
  · rename_i hidle
    exact (releaseActive_keeps (C := fun _ => False) (l := l.fence true) hf.inv rfl
      hidle).dead (h.generation l hl) hd
  · exact hd

theorem reap_keeps (h : Inv env m) : Keeps env now C m (m.reap env now) := by
  have hq : Keeps env now C m
      { m with queue := m.queue.filter fun request => ¬ request.expiresAt ≤ now } :=
    ⟨moves_filterQueue fun r _ hr => .inr (by simpa using hr), h.filterQueue _⟩
  unfold reap
  simp only
  split
  · rename_i lease hl
    split
    · exact hq.trans (fenceExpired_keeps hq.inv hl)
    · exact hq
  · exact hq

theorem validateCurrent_keeps (h : Inv env m) :
    Keeps env now C m (m.validateCurrent env now token).2 := by
  have hr : Keeps env now C m (m.reap env now) := reap_keeps h
  unfold validateCurrent
  simp only
  split
  · rename_i hl
    split
    · exact hr
    · split
      · exact hr.trans (fenceExpired_keeps hr.inv hl)
      · exact hr
  · exact hr

/-- The lease that `validateCurrent` finds valid. -/
theorem validateCurrent_ok (hok : (m.validateCurrent env now token).1 = .ok l) :
    (m.validateCurrent env now token).2.active = some l ∧ token = some l.token ∧
      l.token ≠ "" ∧ l.fenced = false ∧ now < l.expiresAt := by
  unfold validateCurrent at hok ⊢
  simp only at hok ⊢
  split at hok
  · rename_i value lease hl
    split at hok
    · cases hok
    · rename_i hvalid
      split at hok
      · cases hok
      · rename_i hx
        cases hok
        simp only [not_or, ne_eq, Bool.not_eq_true, not_not] at hvalid
        obtain ⟨hne, rfl, hf⟩ := hvalid
        simp [hl, hne, hf, hx, lt_of_not_ge hx]
  · cases hok

/-- A lease whose token is refused is dead. -/
theorem validateCurrent_error {e : String} (h : Inv env m) (hl : m.active = some l)
    (htoken : token = some l.token)
    (herr : (m.validateCurrent env now token).1 = .error e) :
    (m.validateCurrent env now token).2.Dead now l.generation := by
  have hr : Keeps env now (fun _ => False) m (m.reap env now) := reap_keeps h
  obtain ⟨i, -, hi⟩ := h.token l hl
  have hne : l.token ≠ "" := hi ▸ env.randomUUID_ne_empty i
  subst htoken
  -- what is active after reaping is the lease itself or a later one
  have hlater : ∀ l', (m.reap env now).active = some l' → l'.generation = l.generation →
      l'.token = l.token := by
    intro l' hl' hgen
    rcases hr.lease l' hl' with ⟨l₁, hl₁, hc⟩ | hf
    · cases hl.symm.trans hl₁
      exact hc.token
    · have := hf.generation
      have := h.generation l hl
      omega
  unfold validateCurrent at herr ⊢
  simp only at herr ⊢
  split at herr
  · rename_i value lease hvalue hl'
    cases hvalue
    split at herr
    · rename_i hrefused
      simp only [hrefused, if_true]
      intro l₁ hl₁ hgen
      cases hl'.symm.trans hl₁
      exact .inl (by simpa [hne, hlater lease hl' hgen] using hrefused)
    · rename_i hvalid
      split at herr
      · rename_i hx
        simp only [hvalid, hx, if_true, if_false]
        by_cases hgen : lease.generation = l.generation
        · exact hgen ▸ fenceExpired_dead hr.inv hl'
        · refine (fenceExpired_keeps (C := fun _ => False) hr.inv hl').dead
            ((h.generation l hl).trans hr.toMoves.generation) fun l₁ hl₁ hg => ?_
          cases hl'.symm.trans hl₁
          exact absurd hg hgen
      · cases herr
  · rename_i hnone
    exact fun l₁ hl₁ _ => absurd hl₁ (hnone _ l₁ rfl)

theorem touch_keeps (h : Inv env m) :
    Keeps env now C m (m.touch env now token).2 := by
  have hv : Keeps env now C m (m.validateCurrent env now token).2 :=
    validateCurrent_keeps h
  unfold touch
  split
  · rename_i heq
    rw [heq] at hv
    exact hv
  · rename_i lease m' heq
    have hok := validateCurrent_ok (congrArg Prod.fst heq)
    rw [heq] at hok hv
    obtain ⟨hl, -, -, -, hnow⟩ := hok
    have ht : Continues now lease (lease.touchLease now) :=
      ⟨rfl, rfl, rfl, rfl, rfl, rfl, id, fun hx => absurd hx (not_le_of_gt hnow), .inr rfl⟩
    exact hv.trans ⟨moves_setActive hl ht,
      hv.inv.setActive hl rfl rfl rfl rfl (min_le_right _ _)⟩

theorem release_keeps (h : Inv env m) :
    Keeps env now C m (m.release env now token).2 := by
  have hv : Keeps env now C m (m.validateCurrent env now token).2 :=
    validateCurrent_keeps h
  unfold release
  split
  · rename_i heq
    rw [heq] at hv
    exact hv
  · rename_i lease m' heq
    have hok := validateCurrent_ok (congrArg Prod.fst heq)
    rw [heq] at hok hv
    have hf : Keeps env now C m'
        { m' with active := some ({ lease with releasePending := true }.fence false) } := by
      refine ⟨moves_setActive hok.1 ?_, hv.inv.setActive hok.1 rfl rfl rfl rfl
        (hv.inv.hard lease hok.1)⟩
      exact ⟨rfl, rfl, rfl, rfl, rfl, rfl, fun _ => rfl, fun _ => .inl rfl, .inl rfl⟩
    simp only
    split
    · rename_i hidle
      exact hv.trans (hf.trans (releaseActive_keeps
        (l := { lease with releasePending := true }.fence false) hf.inv rfl hidle))
    · exact hv.trans hf

/-- The lease whose token is released is dead, also when the token is refused. -/
theorem release_dead (h : Inv env m) (hl : m.active = some l) (htoken : token = some l.token) :
    (m.release env now token).2.Dead now l.generation := by
  unfold release
  split
  · rename_i heq
    have hd := validateCurrent_error h hl htoken (congrArg Prod.fst heq)
    rw [heq] at hd
    exact hd
  · rename_i lease m' heq
    have hv : Keeps env now (fun _ => False) m (m.validateCurrent env now token).2 :=
      validateCurrent_keeps h
    have hok := validateCurrent_ok (congrArg Prod.fst heq)
    rw [heq] at hok hv
    have hf : Inv env
        { m' with active := some ({ lease with releasePending := true }.fence false) } :=
      hv.inv.setActive hok.1 rfl rfl rfl rfl (hv.inv.hard lease hok.1)
    have hd : ({ m' with active := some ({ lease with releasePending := true }.fence false) } :
        BrowserLeaseManager T).Dead now l.generation := by
      rintro _ ⟨⟩ -
      exact .inl rfl
    simp only
    split
    · rename_i hidle
      exact (releaseActive_keeps (C := fun _ => False)
        (l := { lease with releasePending := true }.fence false) hf rfl hidle).dead
        ((h.generation l hl).trans hv.toMoves.generation) hd
    · exact hd

/-- What `cancel` does after reaping. -/
theorem cancel_keeps_reaped (h : Inv env m) :
    Keeps env now (fun t => ticket = some t) (m.reap env now)
      (m.cancel env now ticket leaseValue).2 := by
  have hr : Inv env (m.reap env now) := (reap_keeps (C := fun _ => False) h).inv
  unfold cancel
  simp only
  split
  · exact release_keeps hr
  · split
    · exact Keeps.refl hr
    · exact Keeps.refl hr
    · rename_i value _
      split
      · exact release_keeps hr
      · split
        · exact Keeps.refl hr
        · rename_i item hitem
          have hticket : item.ticket = value := by simpa using List.find?_some hitem
          refine ⟨moves_filterQueue fun r _ hdrop => .inl ?_, hr.filterQueue _⟩
          have hsame : r.ticket = item.ticket := by simpa using hdrop
          rw [hsame, hticket]

theorem cancel_keeps (h : Inv env m) :
    Keeps env now (fun t => ticket = some t) m (m.cancel env now ticket leaseValue).2 :=
  (reap_keeps h).trans (cancel_keeps_reaped h)

/-- The lease that is cancelled, by its token or by its ticket, is dead. -/
theorem cancel_dead (h : Inv env m) (hl : m.active = some l)
    (hnamed : leaseValue = some l.token ∨ leaseValue.all (· == "") ∧ ticket = some l.ticket ∧
      l.ticket ≠ "") : (m.cancel env now ticket leaseValue).2.Dead now l.generation := by
  have hr : Keeps env now (fun _ => False) m (m.reap env now) := reap_keeps h
  -- the lease is still active after reaping, or dead already
  have hgone : (∃ l', (m.reap env now).active = some l' ∧ Continues now l l') ∨
      (m.reap env now).Dead now l.generation := by
    cases hl' : (m.reap env now).active with
    | none => exact .inr fun l₁ hl₁ _ => by rw [hl'] at hl₁; cases hl₁
    | some l' =>
        rcases hr.lease l' hl' with ⟨l₁, hl₁, hc⟩ | hf
        · cases hl.symm.trans hl₁
          exact .inl ⟨l', rfl, hc⟩
        · refine .inr fun l₁ hl₁ hgen => ?_
          cases hl'.symm.trans hl₁
          have := hf.generation
          have := h.generation l hl
          omega
  rcases hgone with ⟨l', hl', hc⟩ | hdead
  · unfold cancel
    simp only
    rcases hnamed with rfl | ⟨hno, rfl, hne⟩
    · obtain ⟨i, -, hi⟩ := h.token l hl
      have hsome : (some l.token).any (· != "") = true := by
        simp [← hi, env.randomUUID_ne_empty i]
      rw [if_pos hsome]
      exact hc.generation ▸ release_dead hr.inv hl' (by rw [hc.token])
    · have hnot : ¬ leaseValue.any (· != "") = true := by
        cases leaseValue with
        | none => simp
        | some value => simpa using hno
      rw [if_neg hnot]
      split
      · rename_i heq
        cases heq
      · rename_i heq
        exact absurd (Option.some.inj heq) hne
      · rename_i value _ heq
        cases heq
        simp only [hl', Option.filter, hc.ticket, beq_self_eq_true, if_true]
        exact hc.generation ▸ release_dead hr.inv hl' rfl
  · exact (cancel_keeps_reaped h).dead ((h.generation l hl).trans hr.toMoves.generation) hdead

theorem status_keeps (h : Inv env m) :
    Keeps env now C m (m.status env now ticket).2 := by
  have hr : Keeps env now C m (m.reap env now) := reap_keeps h
  unfold status
  simp only
  split
  · exact Keeps.refl h
  · exact Keeps.refl h
  · split
    · exact hr
    · split
      · exact hr
      · exact hr

theorem expireActive_keeps {generation : Nat} (h : Inv env m) :
    Keeps env now C m (m.expireActive env now generation) := by
  unfold expireActive
  split
  · rename_i lease hl
    split
    · exact Keeps.refl h
    · split
      · exact Keeps.refl h
      · exact fenceExpired_keeps h hl
  · exact Keeps.refl h

/-- No two requests that wait have one ticket. -/
theorem Base.ticket_unique (h : Base env m) {r r' : QueuedBrowserRequest T} (hr : r ∈ m.queue)
    (hr' : r' ∈ m.queue) (he : r.ticket = r'.ticket) : r = r' := by
  have hnodup : (m.queue.map (·.ticket)).Nodup :=
    (h.nodup.sublist h.order).sublist (List.sublist_append_right _ _)
  exact List.inj_on_of_nodup_map hnodup hr hr' he

/-- The next UUID is not a ticket yet. -/
theorem Base.next_not_requested (h : Base env m) : env.randomUUID m.drawn ∉ m.requested :=
  fun hmem => not_drew_next (h.drew _ hmem)

theorem Base.requestNext (h : Base env m) :
    Base env
      { m with drawn := m.drawn + 1, requested := m.requested ++ [env.randomUUID m.drawn] } where
  token l hl := (h.token l hl).mono (Nat.le_succ _)
  ticket := h.ticket
  hard := h.hard
  generation := h.generation
  order := h.order.trans (List.sublist_append_left _ _)
  nodup := List.nodup_append.mpr ⟨h.nodup, by simp, by
    rintro _ ht _ hmem rfl
    exact h.next_not_requested (List.mem_singleton.mp hmem ▸ ht)⟩
  drew t ht := by
    rcases List.mem_append.mp ht with ht | ht
    · exact (h.drew t ht).mono (Nat.le_succ _)
    · exact ⟨m.drawn, Nat.lt_succ_self _, (List.mem_singleton.mp ht).symm⟩
  keys := h.keys

theorem expireQueued_keeps {queued : String} (h : Inv env m) :
    Keeps env now C m (m.expireQueued now queued) := by
  unfold expireQueued
  split
  · rename_i request hreq
    split
    · exact Keeps.refl h
    · rename_i hx
      refine ⟨moves_filterQueue fun r hr hdrop => .inr ?_, h.filterQueue _⟩
      have hsame : r.ticket = request.ticket := by simpa using hdrop
      obtain rfl := h.ticket_unique hr (List.mem_of_find?_eq_some hreq) hsame
      exact le_of_not_gt hx
  · exact Keeps.refl h

/-- A new request that is granted at once. -/
theorem request_grants {purpose : String} {requestKey : Option String} (h : Inv env m)
    (hn : m.active = none) (hq : m.queue = []) :
    Keeps env now C m (BrowserLeaseManager.grant env now
      { m with drawn := m.drawn + 1, requested := m.requested ++ [env.randomUUID m.drawn] }
      (env.randomUUID m.drawn) purpose env.browserLeaseTtlMs requestKey) where
  generation := Nat.le_succ _
  drawn := Nat.le_add_right m.drawn 2
  requested := List.prefix_append _ _
  granted := ⟨[env.randomUUID m.drawn], rfl, by simpa using .inr h.next_not_requested⟩
  stays r hr := by simp [hq] at hr
  queue r hr := by simp [BrowserLeaseManager.grant, hq] at hr
  lease := by
    rintro _ ⟨⟩
    refine .inr ⟨Nat.lt_succ_self _, ?_, rfl, rfl, .inr rfl⟩
    rintro ⟨i, hi, he⟩
    have hi' : i = m.drawn + 1 := env.randomUUID_injective he
    omega
  held l hl := by
    rw [hn] at hl
    cases hl
  inv := by
    have hb := h.toBase.requestNext
    refine Inv.grant hb ?_ (by simp [hq])
    have hord := h.order
    simp only [hq, List.map_nil, List.append_nil] at hord ⊢
    exact hord.append (List.Sublist.refl _)

/-- A new request that waits. -/
theorem request_waits {item : QueuedBrowserRequest T} (h : Inv env m)
    (hticket : item.ticket = env.randomUUID m.drawn) (hbusy : m.active ≠ none)
    (hkey : ∀ p ∈ m.live, KeysApart p (item.ticket, item.requestKey)) :
    Keeps env now C m
      { m with
        drawn := m.drawn + 1
        requested := m.requested ++ [env.randomUUID m.drawn]
        queue := m.queue ++ [item] } where
  generation := Nat.le_refl _
  drawn := Nat.le_succ _
  requested := List.prefix_append _ _
  granted := ⟨[], by simp, by simp⟩
  stays r hr := .inl (List.mem_append_left _ hr)
  queue r hr := by
    rcases List.mem_append.mp hr with hr | hr
    · exact .inl hr
    · obtain rfl := List.mem_singleton.mp hr
      exact .inr (hticket ▸ h.next_not_requested)
  lease l hl := .inl ⟨l, hl, Continues.refl l⟩
  held l hl _ := ⟨l, hl, Continues.refl l⟩
  inv := by
    have hb := h.toBase.requestNext
    refine ⟨⟨hb.token, hb.ticket, hb.hard, hb.generation, ?_, hb.nodup, hb.drew, ?_⟩, fun _ => hbusy⟩
    · have hord := h.order.append (List.Sublist.refl [env.randomUUID m.drawn])
      simpa [hticket] using hord
    · have hkeys := h.keys
      simp only [live, List.map_append, List.map_cons, List.map_nil, ← List.append_assoc]
      refine List.pairwise_append.mpr ⟨hkeys, by simp, fun p hp q hq => ?_⟩
      exact List.mem_singleton.mp hq ▸ hkey p hp

theorem request_keeps {purpose : String} {requestKey : Option String} (h : Inv env m) :
    Keeps env now C m (m.request env now purpose requestKey).2 := by
  have hr : Keeps env now C m (m.reap env now) := reap_keeps h
  unfold request
  simp only
  split
  · exact hr
  · exact hr
  · rename_i hcurrent hqueued
    split
    · rename_i hfree
      simp only [Bool.and_eq_true, Option.isNone_iff_eq_none, List.isEmpty_iff] at hfree
      exact hr.trans (request_grants hr.inv hfree.1 hfree.2)
    · rename_i hbusy
      refine hr.trans (request_waits hr.inv rfl (fun hn => ?_) fun p hp k hpk hk => ?_)
      · refine hbusy ?_
        have hq : (m.reap env now).queue = [] := by_contra fun hq => hr.inv.busy hq hn
        simp [hn, hq]
      · rcases List.mem_append.mp hp with hp | hp
        · obtain ⟨l, hl, rfl⟩ := List.mem_map.mp hp
          have hl := Option.mem_toList.mp hl
          simp_all [Option.filter]
        · obtain ⟨r, hr', rfl⟩ := List.mem_map.mp hp
          have := List.find?_eq_none.mp hqueued r hr'
          simp_all

end BrowserLeaseManager

end Openlia.Browser

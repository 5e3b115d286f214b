import Openlia.Chat.Invariant

/-! # Every step is one or two moves

The answer about a previous run is recorded before the request that waited for
it is sent; every other step is one move.
-/

namespace Openlia.Chat

open Lib Json Browser ChatState

section Moves

variable {env : ChatEnv} {s t : ChatState} {x : Handler} {h : Nat} {p : Post}

/-- The handlers of the next state are old ones, or in order before the effect. -/
theorem Effect.move (he : Effect env s t)
    (hs : ∀ x ∈ t.handlers, x ∈ s.handlers ∨ HandlerOk env s x) : Move env s t :=
  ⟨he, fun x hx => (hs x hx).imp_right fun hok => hok.grows he.grows⟩

theorem move_handlers {hs : List Handler}
    (hhs : ∀ x ∈ hs, x ∈ s.handlers ∨ HandlerOk env s x) : Move env s { s with handlers := hs } :=
  (Effect.quiet le_rfl (Extends.refl _)).move hhs

theorem Move.refl (env : ChatEnv) (s : ChatState) : Move env s s :=
  move_handlers fun _ hx => .inl hx

theorem mem_set_or {hs : List Handler} {y : Handler} (hy : y ∈ hs.set h x)
    (hx : HandlerOk env s x) : y ∈ hs ∨ HandlerOk env s y := by
  rcases List.mem_or_eq_of_mem_set hy with hy | rfl
  · exact .inl hy
  · exact .inr hx

theorem move_setHandler (h : Nat) (hx : HandlerOk env s x) : Move env s (s.setHandler h x) :=
  move_handlers fun _ hy => mem_set_or hy hx

theorem move_started (hx : HandlerOk env s x) :
    Move env s { s with handlers := s.handlers ++ [x] } := by
  refine move_handlers fun y hy => ?_
  rcases List.mem_append.mp hy with hy | hy
  · exact .inl hy
  · exact .inr (List.mem_singleton.mp hy ▸ hx)

theorem move_registered (env : ChatEnv) (s : ChatState) (id root : String) :
    Move env s { s with db := s.db.register id root } := by
  have he : Effect env s { s with
      db := ⟨(s.db.register id root).chat_sessions, s.db.chat_requests⟩ } :=
    .quiet le_rfl (s.db.register_extends id root)
  rw [← s.db.register_requests id root] at he
  exact he.move fun _ hx => .inl hx

/-! ## Starting -/

theorem startStatus_ok (env : ChatEnv) (s : ChatState) (db : ChatStore) (now : Nat)
    (runId : String) : HandlerOk env s (startStatus db now runId) := by
  unfold startStatus
  split <;> exact trivial

theorem lookup_of_owned {db : ChatStore} {id : String} (ho : db.owned id ≠ false) :
    ∃ root, db.chat_sessions.lookup id = some root :=
  Option.isSome_iff_exists.mp (Bool.eq_true_of_not_eq_false ho)

theorem postRun_ok (hi : ChatInv env s) (id : String) (body : List (String × Json))
    (key : Option String) : HandlerOk env s (postRun env s.db s.now id body key) := by
  unfold postRun
  dsimp only
  split
  · exact trivial
  · rename_i howned
    split
    · exact trivial
    · split
      · exact trivial
      · split
        · rename_i hnone
          have hunused : ∀ d ∈ s.hermes.sent, d.key ≠ key.getD "" := by
            intro d hd hkey
            obtain ⟨row, hrow, hk⟩ := hi.stored d hd
            have hget := Table.get_of_mem hrow
            rw [hk.trans hkey, hnone] at hget
            cases hget
          exact ⟨rfl, lookup_of_owned howned, le_rfl,
            fun _ d hd hkey => absurd hkey (hunused d hd), by simp⟩
        · rename_i old hold
          split
          · exact trivial
          · split
            · exact startStatus_ok env s s.db s.now _
            · split
              · exact trivial
              · rename_i huntil
                exact ⟨rfl, lookup_of_owned howned, le_rfl, by simp, fun _ =>
                  ⟨old, Table.mem_of_get hold, Table.key_of_get hold, Nat.lt_of_not_le huntil⟩⟩

/-! ## Sending -/

theorem Waits.ready_first {retryUntil : Nat} (hw : Waits env s p) (hfirst : p.first = true)
    (hnow : s.now ≤ p.readAt + 2 * upstreamTimeout) (hret : 60 < env.retention_seconds)
    (huntil : retryUntil + 60000 ≤ s.now + env.retention) : Ready env s p retryUntil where
  fingerprint := hw.fingerprint
  owned := hw.owned
  retention := hret
  retryUntil := huntil
  timely d hd hkey := by
    have hread := hw.first hfirst d hd hkey
    simp only [upstreamTimeout, ChatEnv.retention] at *
    omega

theorem Waits.ready_retry {retryUntil : Nat} (hi : ChatInv env s) (hw : Waits env s p)
    (hfirst : p.first = false) (hnow : s.now ≤ p.readAt + upstreamTimeout)
    (hret : 60 < env.retention_seconds) (huntil : retryUntil + 60000 ≤ s.now + env.retention) :
    Ready env s p retryUntil where
  fingerprint := hw.fingerprint
  owned := hw.owned
  retention := hret
  retryUntil := huntil
  timely d hd hkey := by
    obtain ⟨row, hrow, hk, hlt⟩ := hw.retry hfirst
    have hkept := (hi.retry row hrow).2 d hd (hkey.trans hk.symm)
    simp only [upstreamTimeout, ChatEnv.retention] at *
    omega

theorem dispatch_move {retryUntil : Nat} (hr : Ready env s p retryUntil) (h : Nat) :
    Move env s (s.dispatch h p retryUntil) := by
  unfold dispatch
  split
  · exact move_setHandler h trivial
  · rename_i hnone
    refine ⟨.sent hr hnone, fun y hy => ?_⟩
    rcases List.mem_or_eq_of_mem_set hy with hy | rfl
    · exact .inl hy
    · exact .inr ⟨_, List.getElem?_concat_length, rfl, rfl⟩

theorem retention_of_supports {retry : Option RunsIdempotency}
    (h : supportsRetries env retry ≠ false) : 60 < env.retention_seconds := by
  cases retry with
  | none => simp [supportsRetries] at h
  | some r =>
      simp only [supportsRetries, Option.any_some, ne_eq, Bool.not_eq_false, Bool.and_eq_true,
        decide_eq_true_eq] at h
      exact h.2

/-- A retry is allowed for less than the retention. -/
theorem retryUntil_le (now : Nat) (h : 60 < env.retention_seconds) :
    retryUntil env now + 60000 ≤ now + env.retention := by
  simp only [retryUntil, ChatEnv.retention]
  omega

theorem capabilitiesAnswered_move (hi : ChatInv env s) (hw : Waits env s p)
    (hnow : s.now ≤ p.readAt + upstreamTimeout) (h : Nat)
    (answer : Upstream (Option RunsIdempotency)) :
    Move env s (s.capabilitiesAnswered env h p answer) := by
  unfold capabilitiesAnswered
  split
  · exact move_setHandler h trivial
  · split
    · exact move_setHandler h trivial
    · rename_i hsup
      have hret := retention_of_supports hsup
      have huntil := retryUntil_le s.now hret
      split
      · refine dispatch_move ?_ h
        cases hfirst : p.first with
        | true =>
            refine hw.ready_first hfirst ?_ hret huntil
            simp only [upstreamTimeout] at *
            omega
        | false => exact hw.ready_retry hi hfirst hnow hret huntil
      · rename_i hprev
        split
        · exact move_setHandler h trivial
        · have hfirst : p.first = true := by
            by_contra hne
            rw [if_neg hne] at hprev
            cases hprev
          exact move_setHandler h ⟨hw, hfirst, hnow, le_rfl, hret, huntil⟩

/-! ## Answers -/

/-- Only a run that Hermes reports is recorded. -/
theorem statusAnswered_fst (s : ChatState) (runId : String) (row : StoredChatRequest)
    (answer : Upstream HermesRun) :
    (s.statusAnswered runId row answer).1 = s ∨ ∃ run, answer = .ok run ∧
      (s.statusAnswered runId row answer).1 = s.observe runId row run := by
  cases answer with
  | ok run => exact .inr ⟨run, rfl, rfl⟩
  | status code =>
      left
      unfold statusAnswered
      simp only [upstream]
      split_ifs <;> rfl
  | unavailable => exact .inl rfl
  | unreadable => exact .inl rfl

theorem observe_move (env : ChatEnv) {runId : String} {run : HermesRun} (ht : s.Truthful runId run)
    (row : StoredChatRequest) : Move env s (s.observe runId row run) :=
  (Effect.observed ht).move fun _ hx => .inl hx

theorem postedAnswered_move {i : Nat} {d : Sent String RunBody String}
    {answer : Upstream HermesRun} (hd : s.hermes.sent[i]? = some d) (hkey : d.key = p.key)
    (ha : s.PostAnswer i answer) (h : Nat) : Move env s (s.postedAnswered h p i answer) := by
  cases answer with
  | ok run =>
      obtain ⟨hv, ht⟩ := ha
      rw [hd] at hv
      refine Effect.move ?_ fun _ hy => mem_set_or hy (x := .answered _) trivial
      simp only [postedAnswered, ← hkey]
      exact .accepted hd hv ht
  | status code =>
      obtain ⟨hlow, hv⟩ := ha
      rw [hd] at hv
      by_cases hhigh : code < 500
      · refine Effect.move ?_ fun _ hy => mem_set_or hy (x := .answered _) trivial
        simp only [postedAnswered, ← hkey, if_pos hhigh]
        exact .refused hd (hv hhigh)
      · have hcode : code ∉ refusals := fun hm => hhigh (by
          have : ∀ c ∈ refusals, c < 500 := by decide
          exact this code hm)
        simp only [postedAnswered, if_neg hcode, if_neg hhigh]
        exact move_setHandler h trivial
  | unavailable => exact move_setHandler h trivial
  | unreadable => exact move_setHandler h trivial

/-- Nothing is heard, and what is sent is sent in a session that was there. -/
def Sends (s u t : ChatState) : Prop :=
  t.heard = u.heard ∧ ∀ d ∈ t.hermes.sent[s.hermes.sent.length]?,
    ∃ root, s.db.chat_sessions.lookup d.body.session_id = some root

theorem sends_setHandler {u : ChatState} (hu : u.hermes = s.hermes) (h : Nat) (x : Handler) :
    Sends s u (u.setHandler h x) := by
  refine ⟨rfl, fun d hd => ?_⟩
  rw [setHandler, hu, List.getElem?_eq_none le_rfl] at hd
  cases hd

theorem sends_dispatch {u : ChatState} {retryUntil : Nat} (hu : u.hermes = s.hermes)
    (ho : ∃ root, s.db.chat_sessions.lookup p.id = some root) (h : Nat) :
    Sends s u (u.dispatch h p retryUntil) := by
  unfold dispatch
  split
  · exact sends_setHandler hu h _
  · refine ⟨rfl, fun d hd => ?_⟩
    rw [hu, RunService.send, List.getElem?_concat_length] at hd
    cases hd
    exact ho

/-- One move, or the status of a run is recorded before a move in which nothing is
heard. -/
def Moves (env : ChatEnv) (s t : ChatState) : Prop :=
  Move env s t ∨ ∃ runId row run, s.Truthful runId run ∧
    Move env (s.observe runId row run) t ∧ Sends s (s.observe runId row run) t

theorem statusAnswered_moves {runId : String} {answer : Upstream HermesRun}
    (ha : s.StatusAnswer runId answer) (row : StoredChatRequest) (h : Nat) :
    Moves env s ((s.statusAnswered runId row answer).1.setHandler h
      (.answered (s.statusAnswered runId row answer).2)) := by
  rcases statusAnswered_fst s runId row answer with heq | ⟨run, rfl, heq⟩
  · rw [heq]
    exact .inl (move_setHandler h trivial)
  · rw [heq]
    exact .inr ⟨runId, row, run, ha, move_setHandler h trivial,
      sends_setHandler (s := s) (u := s.observe runId row run) rfl h _⟩

theorem previousAnswered_moves {runId : String} {row : StoredChatRequest}
    {retryUntil askedAt : Nat} {answer : Upstream HermesRun}
    (hx : HandlerOk env s (.previousRun p askedAt retryUntil runId row))
    (hnow : s.now ≤ askedAt + upstreamTimeout) (ha : s.StatusAnswer runId answer) (h : Nat) :
    Moves env s (s.previousAnswered h p retryUntil runId row answer) := by
  have hdispatch : ∀ {u}, Grows s u → u.now = s.now → Move env u (u.dispatch h p retryUntil) := by
    intro u hg hlate
    obtain ⟨hw, hfirst, hasked, hpast, hret, huntil⟩ := hx.grows hg
    refine dispatch_move (hw.ready_first hfirst ?_ hret ?_) h
    · simp only [upstreamTimeout] at *
      omega
    · omega
  unfold previousAnswered
  rcases statusAnswered_fst s runId row answer with heq | ⟨run, rfl, heq⟩
  · split
    · rename_i u e hu
      obtain rfl : u = s := by rw [hu] at heq; exact heq
      exact .inl (move_setHandler h trivial)
    · rename_i u run hu
      obtain rfl : u = s := by rw [hu] at heq; exact heq
      split
      · exact .inl (move_setHandler h trivial)
      · exact .inl (hdispatch (Move.refl env u).effect.grows rfl)
  · split
    · rename_i hu
      cases hu
    · rename_i u run' hu
      obtain rfl : s.observe runId row run = u := by rw [hu] at heq; exact heq.symm
      refine .inr ⟨runId, row, run, ha, ?_⟩
      split
      · exact ⟨move_setHandler h trivial,
          sends_setHandler (s := s) (u := s.observe runId row run) rfl h _⟩
      · exact ⟨hdispatch (observe_move env ha row).effect.grows rfl,
          sends_dispatch (s := s) (u := s.observe runId row run) rfl hx.1.owned h⟩

/-- What one step can do. -/
theorem step_moves {e : ChatEvent} (hi : ChatInv env s) (hn : s.next env e t) :
    Moves env s t := by
  unfold next at hn
  cases e with
  | tick ms =>
      cases hn
      exact .inl ((Effect.quiet (Nat.le_add_right _ _) (Extends.refl _)).move fun _ hx => .inl hx)
  | createSession id =>
      cases hn
      exact .inl (move_registered env s id id)
  | listed id lineageRootId =>
      rw [step] at hn
      split at hn
      · cases hn
        exact .inl (move_registered env s id lineageRootId)
      · cases hn
  | post id body key =>
      cases hn
      exact .inl (move_started (postRun_ok hi id body key))
  | poll runId =>
      cases hn
      exact .inl (move_started (startStatus_ok env s s.db s.now runId))
  | capabilities h answer =>
      rw [step] at hn
      split at hn
      · rename_i p hp
        split at hn
        · cases hn
        · rename_i hnow
          cases hn
          exact .inl (capabilitiesAnswered_move hi (hi.handlers _ (List.mem_of_getElem? hp))
            (Nat.le_of_not_lt hnow) h answer)
      · cases hn
  | status h answer =>
      rw [step] at hn
      split at hn
      · rename_i p askedAt retryUntil runId row hp
        split at hn
        · cases hn
        · rename_i hcond
          obtain ⟨hnow, ha⟩ := not_or.mp hcond
          cases hn
          exact previousAnswered_moves (hi.handlers _ (List.mem_of_getElem? hp))
            (Nat.le_of_not_lt hnow) (not_not.mp ha) h
      · rename_i askedAt runId row hp
        split at hn
        · cases hn
        · rename_i hcond
          cases hn
          exact statusAnswered_moves (not_not.mp (not_or.mp hcond).2) row h
      · cases hn
  | posted h answer =>
      rw [step] at hn
      split at hn
      · rename_i p i hp
        split at hn
        · rename_i ha
          cases hn
          obtain ⟨d, hd, hkey, -⟩ := hi.handlers _ (List.mem_of_getElem? hp)
          exact .inl (postedAnswered_move hd hkey ha h)
        · cases hn
      · cases hn
  | restart =>
      cases hn
      exact .inl (move_handlers (by simp))
  | receive i verdict =>
      obtain ⟨hermes, hr, rfl⟩ := Option.map_eq_some_iff.mp hn
      exact .inl ((Effect.received hr).move fun _ hx => .inl hx)
  | ended runId =>
      cases hn
      exact .inl ((Effect.finished runId).move fun _ hx => .inl hx)

theorem initial_inv (env : ChatEnv) : ChatInv env initial := by
  refine ⟨⟨RunService.sound_empty, ?_, ?_, ?_, ?_, ?_, ?_, ?_, ?_, ?_⟩, ?_⟩ <;>
    simp [initial, RunService.empty, RunService.Timely, Table.empty]

theorem next_grows {e : ChatEvent} (hi : ChatInv env s) (hn : s.next env e t) : Grows s t := by
  rcases step_moves hi hn with hm | ⟨runId, row, run, ht, hm, -⟩
  · exact hm.effect.grows
  · exact (observe_move env ht row).effect.grows.trans hm.effect.grows

theorem next_inv {e : ChatEvent} (hi : ChatInv env s) (hn : s.next env e t) : ChatInv env t := by
  rcases step_moves hi hn with hm | ⟨runId, row, run, ht, hm, -⟩
  · exact hi.move hm
  · exact (hi.move (observe_move env ht row)).move hm

abbrev ChatStep := Taken ChatState ChatEvent

theorem run_inv {taken : List ChatStep}
    (h : Run (ChatState.next env) .initial taken s) :
    ChatInv env s ∧ ∀ x ∈ taken, ChatInv env x.before ∧ ChatInv env x.after :=
  h.invariant (initial_inv env) fun _ _ _ hi hn => next_inv hi hn

end Moves

end Openlia.Chat

import Openlia.Chat.Effects

/-! # Requests, runs and time

Every request that was sent has a row, every run id in a row is a run of Hermes
under the key of the row, and no request under a key is sent so late that Hermes
may have forgotten the key when it arrives.
-/

namespace Openlia.Chat

open Lib Json Browser

/-- What holds of the store, of Hermes and of what was heard. -/
structure StoreInv (env : ChatEnv) (s : ChatState) : Prop where
  sound : s.hermes.Sound
  timely : s.hermes.Timely env.retention upstreamTimeout
  past : ∀ d ∈ s.hermes.sent, d.sentAt ≤ s.now
  stored : ∀ d ∈ s.hermes.sent, ∃ row ∈ s.db.chat_requests.rows, row.key = d.key
  retry : ∀ row ∈ s.db.chat_requests.rows, row.retry_until + 60000 ≤ s.now + env.retention ∧
    ∀ d ∈ s.hermes.sent, d.key = row.key → row.retry_until + 60000 ≤ d.sentAt + env.retention
  recorded : ∀ row ∈ s.db.chat_requests.rows, ∀ id, row.run_id = some id →
    ∃ r ∈ s.hermes.runs, r.id = id ∧ r.key = row.key
  rowOwned : ∀ row ∈ s.db.chat_requests.rows,
    ∃ root, s.db.chat_sessions.lookup row.session_id = some root
  sentOwned : ∀ d ∈ s.hermes.sent, ∃ root, s.db.chat_sessions.lookup d.body.session_id = some root
  ended : ∀ id, Heard.ended id ∈ s.heard → ∃ r ∈ s.hermes.runs, r.id = id ∧ r.ended = true
  refused : ∀ i code, Heard.refused i code ∈ s.heard →
    ∃ d, s.hermes.sent[i]? = some d ∧ d.verdict = some (.refused code)

structure ChatInv (env : ChatEnv) (s : ChatState) : Prop extends StoreInv env s where
  handlers : ∀ x ∈ s.handlers, HandlerOk env s x

theorem mem_heardOf {runId : String} {run : HermesRun} {x : Heard}
    (h : x ∈ ChatState.heardOf runId run) :
    x = .ended runId ∧ ∃ st ∈ run.status, st ∈ endedStatuses := by
  unfold ChatState.heardOf at h
  split at h
  · rename_i hany
    obtain ⟨st, hst, hin⟩ := (Option.any_eq_true _ _).mp hany
    exact ⟨List.mem_singleton.mp h, st, hst, of_decide_eq_true hin⟩
  · cases h

theorem heardOf_of_ended {runId : String} {run : HermesRun} {st : String}
    (hst : run.status = some st) (h : st ∈ endedStatuses) :
    Heard.ended runId ∈ ChatState.heardOf runId run := by
  simp [ChatState.heardOf, hst, h]

section Effects

variable {env : ChatEnv} {s : ChatState}

/-- A run that Hermes reports as ended has ended. -/
theorem ChatState.Truthful.ended {runId : String} {run : HermesRun} (h : s.Truthful runId run)
    {id : String} (hid : Heard.ended id ∈ ChatState.heardOf runId run) :
    ∃ r ∈ s.hermes.runs, r.id = id ∧ r.ended = true := by
  obtain ⟨heq, st, hst, hended⟩ := mem_heardOf hid
  cases heq
  exact h.2 st hst hended

/-- Two runs under one key are one. -/
theorem StoreInv.run_unique (h : StoreInv env s) {r r' : Admitted String RunBody String}
    (hr : r ∈ s.hermes.runs) (hr' : r' ∈ s.hermes.runs) (hkey : r.key = r'.key) : r = r' :=
  List.inj_on_of_nodup_map h.sound.keys hr hr' hkey

theorem StoreInv.quiet (h : StoreInv env s) {now : Nat} {sessions : List (String × String)}
    {hs : List Handler} (hnow : s.now ≤ now) (hext : Extends s.db.chat_sessions sessions) :
    StoreInv env { s with now, db := ⟨sessions, s.db.chat_requests⟩, handlers := hs } where
  sound := h.sound
  timely := h.timely
  past d hd := (h.past d hd).trans hnow
  stored := h.stored
  retry row hrow := ⟨(h.retry row hrow).1.trans (Nat.add_le_add_right hnow _), (h.retry row hrow).2⟩
  recorded := h.recorded
  rowOwned row hrow := (h.rowOwned row hrow).imp fun root => hext _ root
  sentOwned d hd := (h.sentOwned d hd).imp fun root => hext _ root
  ended := h.ended
  refused := h.refused

theorem StoreInv.sent (h : StoreInv env s) {p : Post} {retryUntil : Nat} {hs : List Handler}
    (hr : Ready env s p retryUntil) :
    StoreInv env { s with
      db := s.db.insertRequest (p.row s retryUntil)
      hermes := s.hermes.send s.now p.key p.body
      handlers := hs } where
  sound := h.sound.send p.key p.body
  timely := by
    have hret : 60000 < env.retention := by
      have := hr.retention
      unfold ChatEnv.retention
      omega
    intro d hd e he hkey
    rcases List.mem_append.mp hd with hd | hd <;> rcases List.mem_append.mp he with he | he
    · exact h.timely d hd e he hkey
    · obtain rfl := List.mem_singleton.mp he
      have hpast := h.past d hd
      simp only [upstreamTimeout]
      omega
    · obtain rfl := List.mem_singleton.mp hd
      exact hr.timely e he hkey.symm
    · obtain rfl := List.mem_singleton.mp hd
      obtain rfl := List.mem_singleton.mp he
      simp only [upstreamTimeout]
      omega
  past d hd := by
    rcases List.mem_append.mp hd with hd | hd
    · exact h.past d hd
    · obtain rfl := List.mem_singleton.mp hd
      exact le_rfl
  stored d hd := by
    rcases List.mem_append.mp hd with hd | hd
    · obtain ⟨row, hrow, hkey⟩ := h.stored d hd
      exact ⟨row, ChatStore.mem_insertRequest.mpr (.inl hrow), hkey⟩
    · obtain rfl := List.mem_singleton.mp hd
      exact s.db.exists_insertRequest (p.row s retryUntil)
  retry row hrow := by
    rcases ChatStore.mem_insertRequest.mp hrow with hrow | ⟨rfl, hnone⟩
    · obtain ⟨hnow, hsent⟩ := h.retry row hrow
      refine ⟨hnow, fun d hd hkey => ?_⟩
      rcases List.mem_append.mp hd with hd | hd
      · exact hsent d hd hkey
      · obtain rfl := List.mem_singleton.mp hd
        exact hnow
    · refine ⟨hr.retryUntil, fun d hd hkey => ?_⟩
      rcases List.mem_append.mp hd with hd | hd
      -- a request sent before would have a row
      · obtain ⟨row, hrow, hk⟩ := h.stored d hd
        exact absurd (hk.trans hkey) (hnone row hrow)
      · obtain rfl := List.mem_singleton.mp hd
        exact hr.retryUntil
  recorded row hrow id hid := by
    rcases ChatStore.mem_insertRequest.mp hrow with hrow | ⟨rfl, -⟩
    · exact h.recorded row hrow id hid
    · cases hid
  rowOwned row hrow := by
    rcases ChatStore.mem_insertRequest.mp hrow with hrow | ⟨rfl, -⟩
    · exact h.rowOwned row hrow
    · exact hr.owned
  sentOwned d hd := by
    rcases List.mem_append.mp hd with hd | hd
    · exact h.sentOwned d hd
    · obtain rfl := List.mem_singleton.mp hd
      exact hr.owned
  ended := h.ended
  refused i code hi := by
    obtain ⟨d, hd, hv⟩ := h.refused i code hi
    have hlt := (List.getElem?_eq_some_iff.mp hd).1
    exact ⟨d, (List.getElem?_append_left hlt).trans hd, hv⟩

theorem StoreInv.received (h : StoreInv env s) {i : Nat} {v : Verdict String}
    {hermes : RunService String RunBody String}
    (hr : s.hermes.receive env.retention upstreamTimeout s.now i v = some hermes) :
    StoreInv env { s with hermes } where
  sound := h.sound.receive h.timely h.past hr
  timely := h.timely.receive hr
  past d hd := by
    obtain ⟨d', hd', -, -, hat⟩ := RunService.receive_mem hr hd
    exact hat ▸ h.past d' hd'
  stored d hd := by
    obtain ⟨d', hd', hkey, -⟩ := RunService.receive_mem hr hd
    exact hkey ▸ h.stored d' hd'
  retry row hrow := by
    refine ⟨(h.retry row hrow).1, fun d hd hkey => ?_⟩
    obtain ⟨d', hd', hk, -, hat⟩ := RunService.receive_mem hr hd
    exact hat ▸ (h.retry row hrow).2 d' hd' (hk.trans hkey)
  recorded row hrow id hid := by
    obtain ⟨r, hrun, hrest⟩ := h.recorded row hrow id hid
    exact ⟨r, RunService.receive_runs hr hrun, hrest⟩
  rowOwned := h.rowOwned
  sentOwned d hd := by
    obtain ⟨d', hd', -, hbody, -⟩ := RunService.receive_mem hr hd
    exact hbody ▸ h.sentOwned d' hd'
  ended id hid := by
    obtain ⟨r, hrun, hrest⟩ := h.ended id hid
    exact ⟨r, RunService.receive_runs hr hrun, hrest⟩
  refused j code hj := by
    obtain ⟨d, hd, hv⟩ := h.refused j code hj
    obtain ⟨d', hd', -, -, hkeep⟩ := RunService.receive_sent hr hd
    exact ⟨d', hd', (hkeep (by simp [hv])).trans hv⟩

theorem StoreInv.finished (h : StoreInv env s) (runId : String) :
    StoreInv env { s with hermes := s.hermes.finish runId } where
  sound := h.sound.finish runId
  timely := h.timely
  past := h.past
  stored := h.stored
  retry := h.retry
  recorded row hrow id hid := by
    obtain ⟨r, hr, hrid, hkey⟩ := h.recorded row hrow id hid
    obtain ⟨r', hr', hid', hkey', -⟩ := RunService.exists_mem_finish runId hr
    exact ⟨r', hr', hid'.trans hrid, hkey'.trans hkey⟩
  rowOwned := h.rowOwned
  sentOwned := h.sentOwned
  ended id hid := by
    obtain ⟨r, hr, hrid, hended⟩ := h.ended id hid
    obtain ⟨r', hr', hid', -, hmono⟩ := RunService.exists_mem_finish runId hr
    exact ⟨r', hr', hid'.trans hrid, hmono hended⟩
  refused := h.refused

/-- Rows that are updated in their status, or in a run id that is a run under
their key. -/
theorem StoreInv.updated (h : StoreInv env s) {db : ChatStore} {heard : List Heard}
    {hs : List Handler}
    (hrows : Table.Evolves (fun x row => row.identity = x.identity ∧ (row.run_id = x.run_id ∨
        ∀ id, row.run_id = some id → ∃ r ∈ s.hermes.runs, r.id = id ∧ r.key = x.key))
      s.db.chat_requests db.chat_requests)
    (hext : Extends s.db.chat_sessions db.chat_sessions)
    (hended : ∀ id, Heard.ended id ∈ heard → ∃ r ∈ s.hermes.runs, r.id = id ∧ r.ended = true)
    (hrefused : ∀ i code, Heard.refused i code ∈ heard →
      ∃ d, s.hermes.sent[i]? = some d ∧ d.verdict = some (.refused code)) :
    StoreInv env { s with db, heard, handlers := hs } where
  sound := h.sound
  timely := h.timely
  past := h.past
  stored d hd := by
    obtain ⟨row, hrow, hkey⟩ := h.stored d hd
    obtain ⟨row', hrow', hid⟩ := exists_identity_of_evolves hrows (fun _ _ h => h.1) hrow
    exact ⟨row', hrow', (key_of_identity hid).trans hkey⟩
  retry row hrow := by
    obtain ⟨x, hx, hkey, hid, -⟩ := hrows.of_mem hrow
    rw [retry_until_of_identity hid, hkey]
    exact h.retry x hx
  recorded row hrow id hrun := by
    obtain ⟨x, hx, hkey, -, hsame | hnew⟩ := hrows.of_mem hrow
    · rw [hkey]
      exact h.recorded x hx id (hsame ▸ hrun)
    · rw [hkey]
      exact hnew id hrun
  rowOwned row hrow := by
    obtain ⟨x, hx, -, hid, -⟩ := hrows.of_mem hrow
    rw [session_of_identity hid]
    exact (h.rowOwned x hx).imp fun root => hext _ root
  sentOwned d hd := (h.sentOwned d hd).imp fun root => hext _ root
  ended := hended
  refused := hrefused

theorem StoreInv.observed (h : StoreInv env s) {runId : String} {run : HermesRun}
    (row : StoredChatRequest) (ht : s.Truthful runId run) :
    StoreInv env (s.observe runId row run) := by
  have hrows := s.db.observe_evolves s.now runId row run
  refine StoreInv.updated h (hrows.imp fun _ _ _ hx => ⟨hx.1, .inl hx.2.1⟩)
    (s.db.observe_extends s.now runId row run) (fun id hid => ?_) fun i code hi => ?_
  · rcases List.mem_append.mp hid with hid | hid
    · exact h.ended id hid
    · exact ht.ended hid
  · rcases List.mem_append.mp hi with hi | hi
    · exact h.refused i code hi
    · cases (mem_heardOf hi).1

theorem StoreInv.accepted (h : StoreInv env s) {i : Nat} {d : Sent String RunBody String}
    {run : HermesRun} {hs : List Handler} (hd : s.hermes.sent[i]? = some d)
    (hv : d.verdict = some (.run run.run_id)) (ht : s.Truthful run.run_id run) :
    StoreInv env { s with
      db := s.db.recordRun s.now d.key run.run_id run.status
      heard := s.heard ++ ChatState.heardOf run.run_id run
      handlers := hs } := by
  refine h.updated ((s.db.recordRun_evolves s.now d.key run.run_id run.status).imp
    fun x _ row hx => ⟨hx.1, ?_⟩) (Extends.refl _) (fun id hid => ?_) fun i code hi => ?_
  · rcases hx.2 with ⟨-, rfl⟩ | ⟨hkey, hrun, -⟩
    · exact .inl rfl
    · refine .inr fun id hid => ?_
      obtain rfl := Option.some.inj (hrun.symm.trans hid)
      rw [hkey]
      exact h.sound.answered d (List.mem_of_getElem? hd) _ hv
  · rcases List.mem_append.mp hid with hid | hid
    · exact h.ended id hid
    · exact ht.ended hid
  · rcases List.mem_append.mp hi with hi | hi
    · exact h.refused i code hi
    · cases (mem_heardOf hi).1

theorem StoreInv.refusal (h : StoreInv env s) {i code : Nat} {d : Sent String RunBody String}
    {hs : List Handler} (hd : s.hermes.sent[i]? = some d) (hv : d.verdict = some (.refused code)) :
    StoreInv env { s with
      db := if code ∈ refusals then s.db.recordRefusal s.now d.key else s.db
      heard := s.heard ++ [.refused i code]
      handlers := hs } := by
  have hended : ∀ id, Heard.ended id ∈ s.heard ++ [.refused i code] →
      ∃ r ∈ s.hermes.runs, r.id = id ∧ r.ended = true := fun id hid =>
    h.ended id (by simpa using hid)
  have hrefused : ∀ j c, Heard.refused j c ∈ s.heard ++ [.refused i code] →
      ∃ d, s.hermes.sent[j]? = some d ∧ d.verdict = some (.refused c) := by
    intro j c hj
    rcases List.mem_append.mp hj with hj | hj
    · exact h.refused j c hj
    · cases List.mem_singleton.mp hj
      exact ⟨d, hd, hv⟩
  by_cases hcode : code ∈ refusals
  · simp only [if_pos hcode]
    exact h.updated ((s.db.recordRefusal_evolves s.now d.key).imp
      fun _ _ _ hx => ⟨hx.1, .inl hx.2.1⟩) (Extends.refl _) hended hrefused
  · simp only [if_neg hcode]
    exact h.updated (Table.Evolves.refl fun _ _ => ⟨rfl, .inl rfl⟩) (Extends.refl _) hended hrefused

theorem StoreInv.effect {t : ChatState} (h : StoreInv env s) (he : Effect env s t) :
    StoreInv env t := by
  cases he with
  | quiet hnow hext => exact h.quiet hnow hext
  | sent hready _ => exact h.sent hready
  | received hr => exact h.received hr
  | finished runId => exact h.finished runId
  | observed ht => exact h.observed _ ht
  | accepted hd hv ht => exact h.accepted hd hv ht
  | refused hd hv => exact h.refusal hd hv

theorem ChatInv.move {t : ChatState} (h : ChatInv env s) (hm : Move env s t) : ChatInv env t where
  toStoreInv := h.toStoreInv.effect hm.effect
  handlers x hx := by
    rcases hm.handlers x hx with hold | hnew
    · exact (h.handlers x hold).grows hm.effect.grows
    · exact hnew

end Effects

end Openlia.Chat

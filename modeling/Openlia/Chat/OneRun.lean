import Openlia.Chat.Steps

/-! # One run per conversation

A request that Hermes has not been heard to refuse or to end is covered by an
open row of its conversation, and the transaction before the next request looks
for open rows. A row that a refusal closes covers nothing, so a refusal may only
be recorded when the other requests under the key are settled.
-/

namespace Openlia.Chat

open Lib Json Browser ChatState

namespace ChatState

/-- Hermes has said that the run under the key has ended. -/
def KnownEnded (s : ChatState) (key : String) : Prop :=
  ∃ r ∈ s.hermes.runs, r.key = key ∧ Heard.ended r.id ∈ s.heard

/-- The request `i` to Hermes is known to be refused, or to have ended. -/
def Settled (s : ChatState) (i : Nat) (d : Sent String RunBody String) : Prop :=
  (∃ x ∈ s.heard, x.Refuses i) ∨ s.KnownEnded d.key

instance (s : ChatState) (key : String) : Decidable (s.KnownEnded key) :=
  inferInstanceAs (Decidable (∃ r ∈ s.hermes.runs, r.key = key ∧ Heard.ended r.id ∈ s.heard))

instance (s : ChatState) (i : Nat) (d : Sent String RunBody String) : Decidable (s.Settled i d) :=
  inferInstanceAs (Decidable (_ ∨ _))

/-- The conversation of a session. -/
def conversation (s : ChatState) (body : RunBody) : String := s.db.rootId body.session_id

/-- The runs of a conversation that have not ended are one at most. -/
def OneUnfinished (s : ChatState) : Prop :=
  ∀ r ∈ s.hermes.runs, ∀ r' ∈ s.hermes.runs, r.ended = false → r'.ended = false →
    s.conversation r.body = s.conversation r'.body → r = r'

instance (s : ChatState) : Decidable s.OneUnfinished :=
  inferInstanceAs (Decidable (∀ r ∈ s.hermes.runs, ∀ r' ∈ s.hermes.runs, _))

end ChatState

/-- A request that is sent in this step is sent when all requests of the
conversation under other keys are settled. -/
def SentAlone (x : ChatStep) : Prop :=
  ∀ d ∈ x.after.hermes.sent[x.before.hermes.sent.length]?,
    ∀ i < x.before.hermes.sent.length, ∀ e ∈ x.before.hermes.sent[i]?,
      x.after.conversation e.body = x.after.conversation d.body → e.key ≠ d.key →
        x.after.Settled i e

instance (x : ChatStep) : Decidable (SentAlone x) :=
  inferInstanceAs (Decidable (∀ d ∈ x.after.hermes.sent[x.before.hermes.sent.length]?, _))

/-- The row under the key of a request that is sent in this step is one of its
conversation and not recorded as rejected, unless the run under the key is known to
have ended. -/
def SentUnderOpenRow (x : ChatStep) : Prop :=
  ∀ d ∈ x.after.hermes.sent[x.before.hermes.sent.length]?,
    ∀ row ∈ x.before.db.chat_requests.get d.key, x.before.KnownEnded d.key ∨
      row.status ≠ some "rejected" ∧
        x.before.db.rootId row.session_id = x.before.conversation d.body

/-- When a refusal that closes a row is heard in this step, all other requests
under the key are settled. -/
def RefusedLast (x : ChatStep) : Prop :=
  ∀ refusal ∈ x.after.heard[x.before.heard.length]?.bind Heard.refusal, refusal.2 ∈ refusals →
    ∀ d ∈ x.before.hermes.sent[refusal.1]?, ∀ j < x.before.hermes.sent.length,
      ∀ e ∈ x.before.hermes.sent[j]?, e.key = d.key → j ≠ refusal.1 → x.before.Settled j e

structure Unrefused (x : ChatStep) : Prop where
  sent : SentUnderOpenRow x
  refused : RefusedLast x

instance (x : ChatStep) : Decidable (Unrefused x) :=
  have : Decidable (SentUnderOpenRow x) :=
    inferInstanceAs (Decidable (∀ d ∈ x.after.hermes.sent[x.before.hermes.sent.length]?, _))
  have : Decidable (RefusedLast x) := inferInstanceAs (Decidable
    (∀ refusal ∈ x.after.heard[x.before.heard.length]?.bind Heard.refusal, _))
  decidable_of_iff (SentUnderOpenRow x ∧ RefusedLast x)
    ⟨fun ⟨h, h'⟩ => ⟨h, h'⟩, fun ⟨h, h'⟩ => ⟨h, h'⟩⟩

/-- The invariant of runs whose steps meet the condition. -/
structure Covered (s : ChatState) : Prop where
  told : ∀ row ∈ s.db.chat_requests.rows, ∀ st ∈ row.status, st ∈ endedStatuses →
    st ≠ "rejected" → s.KnownEnded row.key
  open_row : ∀ (i : Nat) (d : Sent String RunBody String), s.hermes.sent[i]? = some d →
    s.Settled i d ∨ ∃ row ∈ s.db.chat_requests.rows, row.key = d.key ∧
      s.db.rootId row.session_id = s.conversation d.body ∧ ∀ st ∈ row.status, st ∉ endedStatuses
  alone : ∀ (i j : Nat) (d e : Sent String RunBody String), i < j → s.hermes.sent[i]? = some d →
    s.hermes.sent[j]? = some e → s.conversation d.body = s.conversation e.body → d.key ≠ e.key →
      s.Settled i d

/-! ## What stays -/

section Grow

variable {env : ChatEnv} {s t : ChatState}

theorem Extends.rootId {db db' : ChatStore} (h : Extends db.chat_sessions db'.chat_sessions)
    {id : String} (ho : ∃ root, db.chat_sessions.lookup id = some root) :
    db'.rootId id = db.rootId id := by
  obtain ⟨root, hroot⟩ := ho
  rw [ChatStore.rootId, ChatStore.rootId, hroot, h id root hroot]

theorem ChatState.KnownEnded.grows {key : String} (h : s.KnownEnded key) (hg : Grows s t) :
    t.KnownEnded key := by
  obtain ⟨r, hr, hkey, hheard⟩ := h
  obtain ⟨r', hr', hid, hkey'⟩ := hg.runs r hr
  exact ⟨r', hr', hkey'.trans hkey, hid ▸ hg.heard _ hheard⟩

theorem ChatState.Settled.grows {i : Nat} {d d' : Sent String RunBody String} (h : s.Settled i d)
    (hg : Grows s t) (hkey : d.key = d'.key) : t.Settled i d' := by
  rcases h with ⟨x, hx, hi⟩ | h
  · exact .inl ⟨x, hg.heard x hx, hi⟩
  · exact .inr (hkey ▸ h.grows hg)

theorem conversation_eq (hi : StoreInv env s) (hg : Grows s t) {d d' : Sent String RunBody String}
    (hd : d ∈ s.hermes.sent) (hbody : d.body = d'.body) :
    t.conversation d'.body = s.conversation d.body :=
  hbody ▸ hg.sessions.rootId (hi.sentOwned d hd)

/-- Rows may change their status when the requests under a row that is closed are
settled. -/
theorem Covered.updated (hc : Covered s) (hi : StoreInv env s) (hg : Grows s t)
    (hsent : ∀ (i : Nat) (d : Sent String RunBody String), t.hermes.sent[i]? = some d →
      ∃ d', s.hermes.sent[i]? = some d' ∧ d'.key = d.key ∧ d'.body = d.body)
    (hrows : Table.Evolves (fun x row => row.identity = x.identity ∧ (row.status = x.status ∨
        ∀ st ∈ row.status, st ∈ endedStatuses → (st ≠ "rejected" → t.KnownEnded x.key) ∧
          ∀ (i : Nat) (d : Sent String RunBody String), t.hermes.sent[i]? = some d →
            d.key = x.key → t.Settled i d))
      s.db.chat_requests t.db.chat_requests) : Covered t where
  told row hrow st hst hended hne := by
    obtain ⟨x, hx, hkey, -, hsame | hnew⟩ := hrows.of_mem hrow
    · exact hkey ▸ (hc.told x hx st (hsame ▸ hst) hended hne).grows hg
    · exact hkey ▸ (hnew st hst hended).1 hne
  open_row i d hd := by
    obtain ⟨d', hd', hkey', hbody'⟩ := hsent i d hd
    rcases hc.open_row i d' hd' with hset | ⟨x, hx, hkey, hroot, hopen⟩
    · exact .inl (hset.grows hg hkey')
    · obtain ⟨row, hget, hid, hstatus⟩ := hrows.get (Table.get_of_mem hx)
      have hrow : row.key = d.key := (key_of_identity hid).trans (hkey.trans hkey')
      have hconv : t.db.rootId row.session_id = t.conversation d.body := by
        rw [session_of_identity hid, hg.sessions.rootId (hi.rowOwned x hx), hroot,
          conversation_eq hi hg (List.mem_of_getElem? hd') hbody']
      rcases hstatus with hsame | hnew
      · exact .inr ⟨row, Table.mem_of_get hget, hrow, hconv, hsame ▸ hopen⟩
      · by_cases hclosed : ∃ st ∈ row.status, st ∈ endedStatuses
        · obtain ⟨st, hst, hended⟩ := hclosed
          exact .inl ((hnew st hst hended).2 i d hd (hkey'.symm.trans hkey.symm))
        · exact .inr ⟨row, Table.mem_of_get hget, hrow, hconv,
            fun st hst hended => hclosed ⟨st, hst, hended⟩⟩
  alone i j d e hij hd he hconv hne := by
    obtain ⟨d', hd', hkey', hbody'⟩ := hsent i d hd
    obtain ⟨e', he', hek, heb⟩ := hsent j e he
    rw [conversation_eq hi hg (List.mem_of_getElem? hd') hbody',
      conversation_eq hi hg (List.mem_of_getElem? he') heb] at hconv
    exact (hc.alone i j d' e' hij hd' he' hconv (hkey' ▸ hek ▸ hne)).grows hg hkey'

/-- The rows stay and no request is sent. -/
theorem Covered.kept (hc : Covered s) (hi : StoreInv env s) (hg : Grows s t)
    (hsent : ∀ (i : Nat) (d : Sent String RunBody String), t.hermes.sent[i]? = some d →
      ∃ d', s.hermes.sent[i]? = some d' ∧ d'.key = d.key ∧ d'.body = d.body)
    (hrows : t.db.chat_requests = s.db.chat_requests) : Covered t :=
  hc.updated hi hg hsent (hrows ▸ Table.Evolves.refl fun _ _ => ⟨rfl, .inl rfl⟩)

end Grow

/-! ## One effect -/

section Effects

variable {env : ChatEnv} {s t : ChatState}

/-- A run that is reported as ended settles what was sent under its key. -/
theorem settled_of_reported {runId key st : String} {run : HermesRun}
    (hrun : ∃ r ∈ s.hermes.runs, r.id = runId ∧ r.key = key) (hst : run.status = some st)
    (hended : st ∈ endedStatuses) (hruns : t.hermes = s.hermes)
    (hheard : t.heard = s.heard ++ heardOf runId run) :
    t.KnownEnded key ∧ ∀ (i : Nat) (d : Sent String RunBody String), t.hermes.sent[i]? = some d →
      d.key = key → t.Settled i d := by
  obtain ⟨r, hr, rfl, rfl⟩ := hrun
  have hknown : t.KnownEnded r.key := ⟨r, hruns ▸ hr, rfl, by
    rw [hheard]
    exact List.mem_append_right _ (heardOf_of_ended hst hended)⟩
  exact ⟨hknown, fun i d _ hkey => .inr (hkey ▸ hknown)⟩

theorem Covered.observed (hc : Covered s) (hi : StoreInv env s) {runId : String} {run : HermesRun}
    (row : StoredChatRequest) (ht : s.Truthful runId run) : Covered (s.observe runId row run) := by
  have he : Effect env s (s.observe runId row run) := .observed ht
  refine hc.updated hi he.grows (fun i d hd => ⟨d, hd, rfl, rfl⟩)
    ((s.db.observe_evolves s.now runId row run).imp fun x hx row' hrow => ⟨hrow.1, ?_⟩)
  rcases hrow.2.2 with hsame | ⟨hrun, hstatus⟩
  · exact .inl hsame
  · refine .inr fun st hst hended => ?_
    have hall := settled_of_reported (t := s.observe runId row run)
      (hi.recorded x hx runId hrun) (hstatus ▸ hst) hended rfl rfl
    exact ⟨fun _ => hall.1, hall.2⟩

theorem Covered.sent (hc : Covered s) (hi : StoreInv env s) {p : Post} {retryUntil : Nat}
    {hs : List Handler} (hr : Ready env s p retryUntil)
    (hnone : s.db.conflicting p.id p.key = none)
    (hrow : ∀ row ∈ s.db.chat_requests.get p.key, s.KnownEnded p.key ∨
      row.status ≠ some "rejected" ∧ s.db.rootId row.session_id = s.db.rootId p.id) :
    Covered { s with
      db := s.db.insertRequest (p.row s retryUntil)
      hermes := s.hermes.send s.now p.key p.body
      handlers := hs } := by
  have he : Effect env s { s with
      db := s.db.insertRequest (p.row s retryUntil)
      hermes := s.hermes.send s.now p.key p.body
      handlers := hs } := .sent hr hnone
  have hg := he.grows
  constructor
  · intro row hin st hst hended hne
    rcases ChatStore.mem_insertRequest.mp hin with hold | ⟨rfl, -⟩
    · exact (hc.told row hold st hst hended hne).grows hg
    · cases hst
      exact absurd hended (by decide)
  · intro i d hd
    rcases getElem?_concat_cases hd with hd | ⟨rfl, rfl⟩
    · rcases hc.open_row i d hd with hset | ⟨row, hin, hrest⟩
      · exact .inl (hset.grows hg rfl)
      · exact .inr ⟨row, ChatStore.mem_insertRequest.mpr (.inl hin), hrest⟩
    -- the new request: its row is open, or its run is known to have ended
    · cases hget : s.db.chat_requests.get p.key with
      | none =>
          refine .inr ⟨p.row s retryUntil, ChatStore.mem_insertRequest.mpr (.inr ⟨rfl, ?_⟩), rfl,
            rfl, ?_⟩
          · intro y hy hk
            have hsome := Table.get_of_mem hy
            rw [hk] at hsome
            cases hsome.symm.trans hget
          · rintro st hst
            cases hst
            decide
      | some row =>
          have hin := Table.mem_of_get hget
          have hkey := Table.key_of_get hget
          rcases hrow row hget with hknown | ⟨hne, hroot⟩
          · exact .inl (.inr (hknown.grows hg))
          · by_cases hclosed : ∃ st ∈ row.status, st ∈ endedStatuses
            · obtain ⟨st, hst, hended⟩ := hclosed
              have hknown : s.KnownEnded p.key :=
                hkey ▸ hc.told row hin st hst hended fun he => hne (he ▸ hst)
              exact .inl (.inr (hknown.grows hg))
            · exact .inr ⟨row, ChatStore.mem_insertRequest.mpr (.inl hin), hkey, hroot,
                fun st hst hended => hclosed ⟨st, hst, hended⟩⟩
  · intro i j d e hij hd he hconv hne
    rcases getElem?_concat_cases hd with hd | ⟨rfl, rfl⟩
    · rcases getElem?_concat_cases he with he | ⟨rfl, rfl⟩
      · exact (hc.alone i j d e hij hd he hconv hne).grows hg rfl
      -- no open row in the conversation under another key
      · rcases hc.open_row i d hd with hset | ⟨row, hin, hkey, hroot, hopen⟩
        · exact hset.grows hg rfl
        · obtain ⟨root, hlook⟩ := hi.rowOwned row hin
          have hconv' : s.db.chat_sessions.lookup row.session_id = some (s.db.rootId p.id) := by
            rw [hlook]
            have hroot' : s.db.rootId row.session_id = root := by rw [ChatStore.rootId, hlook]; rfl
            exact congrArg some (hroot'.symm.trans (hroot.trans hconv))
          obtain ⟨st, hst, hended⟩ :=
            ChatStore.ended_of_conflicting hnone hin (hkey ▸ hne) hconv'
          exact absurd hended (hopen st hst)
    · have hlt := (List.getElem?_eq_some_iff.mp he).1
      simp only [RunService.send, List.length_append, List.length_singleton] at hlt
      omega

theorem Effect.covered (he : Effect env s t) (hi : StoreInv env s) (hc : Covered s)
    (hsent : ∀ d ∈ t.hermes.sent[s.hermes.sent.length]?, ∀ row ∈ s.db.chat_requests.get d.key,
      s.KnownEnded d.key ∨ row.status ≠ some "rejected" ∧
        s.db.rootId row.session_id = s.conversation d.body)
    (hrefused : ∀ i code, t.heard[s.heard.length]? = some (.refused i code) → code ∈ refusals →
      ∀ d ∈ s.hermes.sent[i]?, ∀ (j : Nat) (e : Sent String RunBody String),
        s.hermes.sent[j]? = some e → e.key = d.key → j ≠ i → s.Settled j e) : Covered t := by
  have hg := he.grows
  cases he with
  | quiet hnow hext => exact hc.kept hi hg (fun i d hd => ⟨d, hd, rfl, rfl⟩) rfl
  | sent hr hnone =>
      exact hc.sent hi hr hnone (hsent _ List.getElem?_concat_length)
  | received hr => exact hc.kept hi hg (fun i d hd => RunService.receive_sent_back hr hd) rfl
  | finished runId => exact hc.kept hi hg (fun i d hd => ⟨d, hd, rfl, rfl⟩) rfl
  | observed ht => exact hc.observed hi _ ht
  | @accepted i d run hs hd hv ht =>
      refine hc.updated hi hg (fun i d hd => ⟨d, hd, rfl, rfl⟩)
        ((s.db.recordRun_evolves s.now d.key run.run_id run.status).imp
          fun x _ row hrow => ⟨hrow.1, ?_⟩)
      rcases hrow.2 with ⟨-, rfl⟩ | ⟨hkey, -, hstatus⟩
      · exact .inl rfl
      · refine .inr fun st hst hended => ?_
        have hrun := hi.sound.answered d (List.mem_of_getElem? hd) _ hv
        have hall := settled_of_reported (s := s) (t := { s with
            db := s.db.recordRun s.now d.key run.run_id run.status
            heard := s.heard ++ heardOf run.run_id run
            handlers := hs }) (hkey ▸ hrun) (hstatus ▸ hst) hended rfl rfl
        exact ⟨fun _ => hall.1, hall.2⟩
  | @refused i code d hs hd hv =>
      by_cases hcode : code ∈ refusals
      · simp only [if_pos hcode] at hg ⊢
        refine hc.updated hi hg (fun i d hd => ⟨d, hd, rfl, rfl⟩)
          ((s.db.recordRefusal_evolves s.now d.key).imp fun x _ row hrow => ⟨hrow.1, ?_⟩)
        rcases hrow.2.2 with rfl | ⟨hkey, hstatus⟩
        · exact .inl rfl
        · refine .inr fun st hst hended => ⟨fun hne => ?_, fun j e he hek => ?_⟩
          · rw [hstatus] at hst
            exact absurd (Option.some.inj hst).symm hne
          · by_cases hji : j = i
            · exact .inl ⟨.refused i code, by simp, hji.symm⟩
            · exact (hrefused i code List.getElem?_concat_length hcode d hd j e he
                (hek.trans hkey) hji).grows hg rfl
      · simp only [if_neg hcode] at hg ⊢
        exact hc.kept hi hg (fun i d hd => ⟨d, hd, rfl, rfl⟩) rfl

end Effects

/-! ## Runs -/

section Runs

variable {env : ChatEnv}

theorem covered_initial : Covered initial := by
  constructor <;> simp [initial, RunService.empty, Table.empty]

theorem next_covered {s t : ChatState} {e : ChatEvent} (hi : ChatInv env s) (hc : Covered s)
    (hn : s.next env e t) (hu : Unrefused ⟨s, e, t⟩) : Covered t := by
  rcases step_moves hi hn with hm | ⟨runId, row, run, ht, hm, hheard, howned⟩
  · refine hm.effect.covered hi.toStoreInv hc hu.sent fun i code hnew hcode d hd j e he => ?_
    exact hu.refused (i, code) (by rw [hnew]; rfl) hcode d hd j
      (List.getElem?_eq_some_iff.mp he).1 e he
  · have hobs := observe_move env ht row
    have hg := hobs.effect.grows
    refine hm.effect.covered (hi.move hobs).toStoreInv (hc.observed hi.toStoreInv row ht) ?_ ?_
    · intro d hd row' hrow'
      obtain ⟨x, hx, hid, -, hstatus⟩ := (s.db.observe_evolves s.now runId row run).get_back hrow'
      refine (hu.sent d hd x hx).imp (·.grows hg) fun ⟨hne, hroot⟩ => ⟨?_, ?_⟩
      · rcases hstatus with hsame | ⟨-, hnew⟩
        · exact hsame ▸ hne
        · exact hnew ▸ ht.1
      · have hbody := hg.sessions.rootId (howned d hd)
        have hrow := hg.sessions.rootId (hi.rowOwned x (Table.mem_of_get hx))
        rw [session_of_identity hid, hrow, hroot]
        exact hbody.symm
    · intro i code hnew
      rw [hheard, List.getElem?_eq_none le_rfl] at hnew
      cases hnew

theorem sentAlone_of_covered {x : ChatStep} (hi : ChatInv env x.before)
    (hn : x.before.next env x.action x.after) (hc : Covered x.after) : SentAlone x := by
  intro d hd i hlt e he hconv hne
  have hg := next_grows hi hn
  obtain ⟨e', he', hkey, hbody, -⟩ := hg.sent i e he
  rw [← hbody] at hconv
  have hset := hc.alone i _ e' d hlt he' hd hconv (hkey ▸ hne)
  exact hset.grows (Grows.refl _) hkey

/-- Of two requests under different keys, the first was settled when the second
was sent, so its run has ended. -/
theorem oneUnfinished_of_covered {s : ChatState} (hi : StoreInv env s) (hc : Covered s) :
    s.OneUnfinished := by
  have hended : ∀ (i j : Nat) (d e : Sent String RunBody String)
      (r : Admitted String RunBody String), i < j → s.hermes.sent[i]? = some d →
      s.hermes.sent[j]? = some e → r ∈ s.hermes.runs → d.key = r.key →
      d.verdict = some (.run r.id) → s.conversation d.body = s.conversation e.body →
      d.key ≠ e.key → r.ended = true := by
    intro i j d e r hij hd he hr hkey hv hconv hne
    rcases hc.alone i j d e hij hd he hconv hne with ⟨x, hx, hrefuses⟩ | ⟨r', hr', hkey', hheard⟩
    · cases x with
      | ended => exact hrefuses.elim
      | refused k code =>
          cases hrefuses
          obtain ⟨d', hd', hv'⟩ := hi.refused i code hx
          cases hd.symm.trans hd'
          rw [hv] at hv'
          cases hv'
    · obtain rfl := hi.run_unique hr' hr (hkey'.trans hkey)
      obtain ⟨r'', hr'', hid, hend⟩ := hi.ended _ hheard
      obtain rfl := List.inj_on_of_nodup_map hi.sound.ids hr'' hr' hid
      exact hend
  intro r hr r' hr' hopen hopen' hconv
  by_contra hne
  obtain ⟨d, hd, hkey, hbody, hv, -⟩ := hi.sound.origin r hr
  obtain ⟨d', hd', hkey', hbody', hv', -⟩ := hi.sound.origin r' hr'
  obtain ⟨i, hi'⟩ := List.mem_iff_getElem?.mp hd
  obtain ⟨j, hj⟩ := List.mem_iff_getElem?.mp hd'
  have hkeys : d.key ≠ d'.key := fun he => hne (hi.run_unique hr hr' (hkey ▸ hkey' ▸ he))
  rw [← hbody, ← hbody'] at hconv
  rcases Nat.lt_trichotomy i j with hij | rfl | hij
  · have := hended i j d d' r hij hi' hj hr hkey hv hconv hkeys
    simp [this] at hopen
  · cases hi'.symm.trans hj
    exact hkeys rfl
  · have := hended j i d' d r' hij hj hi' hr' hkey' hv' hconv.symm hkeys.symm
    simp [this] at hopen'

/-- When no request is sent under a key whose refusal was recorded, or in another
conversation than the first, and no refusal is recorded while another request under
the key is not settled, a conversation has one unfinished run at most. -/
theorem one_run_per_conversation {taken : List ChatStep} {s : ChatState}
    (h : Run (ChatState.next env) .initial taken s) (hu : ∀ x ∈ taken, Unrefused x) :
    s.OneUnfinished ∧ ∀ x ∈ taken, SentAlone x ∧ x.after.OneUnfinished := by
  have hall := h.invariant_of (I := fun s => ChatInv env s ∧ Covered s) (C := Unrefused)
    ⟨initial_inv env, covered_initial⟩
    (fun s e t hs hn hx => ⟨next_inv hs.1 hn, next_covered hs.1 hs.2 hn hx⟩) hu
  refine ⟨oneUnfinished_of_covered hall.1.1.toStoreInv hall.1.2, fun x hx => ?_⟩
  obtain ⟨hbefore, hafter⟩ := hall.2 x hx
  exact ⟨sentAlone_of_covered hbefore.1 (h.allowed x hx) hafter.2,
    oneUnfinished_of_covered hafter.1.toStoreInv hafter.2⟩

end Runs

/-! ## Two runs -/

section TwoRuns

def dayEnv : ChatEnv := ⟨"secret", String.ofList, fun _ _ h => String.ofList_injective h, 86400⟩

def hello : List (String × Json) := [("input", .str "hello"), ("model", .str "")]

def firstKey : String := "aaaaaaaaaaaaaaaa"

def secondKey : String := "bbbbbbbbbbbbbbbb"

def retriesSupported : Upstream (Option RunsIdempotency) := .ok (some ⟨true, true⟩)

/-- A run is seen to end before the next is sent. -/
theorem one_run_per_conversation_twoRuns :
    ∃ taken s, Run (ChatState.next dayEnv) .initial taken s ∧ s.hermes.runs.length = 2 ∧
      (∀ x ∈ taken, Unrefused x) ∧ s.OneUnfinished ∧
        ∀ x ∈ taken, SentAlone x ∧ x.after.OneUnfinished := by
  obtain ⟨taken, s, hrun, hp⟩ := exists_run_of_trace (step dayEnv) .initial
    [.createSession "s", .post "s" hello firstKey, .capabilities 0 retriesSupported,
      .receive 0 (.run "r"), .posted 0 (.ok ⟨"r", none, some "queued"⟩), .ended "r", .poll "r",
      .status 1 (.ok ⟨"r", some "s'", some "completed"⟩), .post "s'" hello secondKey,
      .capabilities 2 retriesSupported, .receive 1 (.run "r'")]
    (fun r => decide (r.2.hermes.runs.length = 2) && decide (∀ x ∈ r.1, Unrefused x))
    (by decide +kernel)
  obtain ⟨hlen, hu⟩ := (Bool.and_eq_true _ _).mp hp
  have hall := of_decide_eq_true hu
  exact ⟨taken, s, hrun, of_decide_eq_true hlen, hall, one_run_per_conversation hrun hall⟩

/-- A key that was refused is sent again, and its row lets the next key through. -/
theorem two_runs_after_refusal :
    ∃ taken s, Run (ChatState.next dayEnv) .initial taken s ∧
      (∃ x ∈ taken, ¬ SentAlone x) ∧ ¬ s.OneUnfinished := by
  obtain ⟨taken, s, hrun, hp⟩ := exists_run_of_trace (step dayEnv) .initial
    [.createSession "s", .post "s" hello firstKey, .capabilities 0 retriesSupported,
      .receive 0 (.refused 429), .posted 0 (.status 429), .post "s" hello firstKey,
      .capabilities 1 retriesSupported, .receive 1 (.run "r"), .post "s" hello secondKey,
      .capabilities 2 retriesSupported, .receive 2 (.run "r'")]
    (fun r => decide (∃ x ∈ r.1, ¬ SentAlone x) && decide (¬ r.2.OneUnfinished))
    (by decide +kernel)
  obtain ⟨hsent, hruns⟩ := (Bool.and_eq_true _ _).mp hp
  exact ⟨taken, s, hrun, of_decide_eq_true hsent, of_decide_eq_true hruns⟩

end TwoRuns

end Openlia.Chat

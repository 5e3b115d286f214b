import Openlia.Chat.Service
import Openlia.Lib.Runs

/-! # What a step does

A step of the service changes the store, what Hermes was sent and what was heard
in one of a few ways. A request is sent to Hermes before any run under its key
can have been forgotten: a first request was read before the key was used, and
a retry is sent within the retention of the first.
-/

namespace Openlia.Chat

open Lib Json Browser

/-- What never changes in a row. -/
def StoredChatRequest.identity (row : StoredChatRequest) : String × String × String × Nat :=
  (row.key, row.session_id, row.fingerprint, row.retry_until)

section Identity

variable {row row' : StoredChatRequest} (h : row'.identity = row.identity)
include h

theorem key_of_identity : row'.key = row.key := congrArg (·.1) h

theorem session_of_identity : row'.session_id = row.session_id := congrArg (·.2.1) h

theorem fingerprint_of_identity : row'.fingerprint = row.fingerprint := congrArg (·.2.2.1) h

theorem retry_until_of_identity : row'.retry_until = row.retry_until := congrArg (·.2.2.2) h

end Identity

/-! ## The store -/

/-- No session leaves its conversation. -/
def Extends (xs ys : List (String × String)) : Prop :=
  ∀ id root, xs.lookup id = some root → ys.lookup id = some root

theorem Extends.refl (xs : List (String × String)) : Extends xs xs := fun _ _ h => h

namespace ChatStore

variable {db : ChatStore} {now : Nat} {runId key id root : String} {status : Option String}

theorem register_extends (db : ChatStore) (id root : String) :
    Extends db.chat_sessions (db.register id root).chat_sessions := by
  intro x r hx
  unfold register
  split
  · exact hx
  · rw [List.lookup_append, hx]
    rfl

theorem register_requests (db : ChatStore) (id root : String) :
    (db.register id root).chat_requests = db.chat_requests := by
  unfold register
  split <;> rfl

theorem recordStatus_evolves (db : ChatStore) (now : Nat) (runId : String)
    (status : Option String) :
    Table.Evolves (fun x row => row.identity = x.identity ∧ row.run_id = x.run_id ∧
        (row.status = x.status ∨ x.run_id = some runId ∧ row.status = status))
      db.chat_requests (db.recordStatus now runId status).chat_requests := by
  unfold recordStatus
  apply Table.Evolves.update
  · exact fun _ => rfl
  · exact fun _ _ hp => ⟨rfl, rfl, .inr ⟨by simpa using hp, rfl⟩⟩
  · exact fun _ _ _ => ⟨rfl, rfl, .inl rfl⟩

theorem observe_extends (db : ChatStore) (now : Nat) (runId : String) (row : StoredChatRequest)
    (run : HermesRun) :
    Extends db.chat_sessions (db.observe now runId row run).chat_sessions := by
  unfold observe
  dsimp only
  split
  · exact Extends.refl _
  · exact register_extends (db.recordStatus now runId run.status) _ _

theorem observe_evolves (db : ChatStore) (now : Nat) (runId : String) (row : StoredChatRequest)
    (run : HermesRun) :
    Table.Evolves (fun x row => row.identity = x.identity ∧ row.run_id = x.run_id ∧
        (row.status = x.status ∨ x.run_id = some runId ∧ row.status = run.status))
      db.chat_requests (db.observe now runId row run).chat_requests := by
  have hrequests : (db.observe now runId row run).chat_requests =
      (db.recordStatus now runId run.status).chat_requests := by
    unfold observe
    dsimp only
    split
    · rfl
    · exact register_requests _ _ _
  rw [hrequests]
  exact db.recordStatus_evolves now runId run.status

theorem recordRefusal_evolves (db : ChatStore) (now : Nat) (key : String) :
    Table.Evolves (fun x row => row.identity = x.identity ∧ row.run_id = x.run_id ∧
        (row = x ∨ x.key = key ∧ row.status = some "rejected"))
      db.chat_requests (db.recordRefusal now key).chat_requests := by
  unfold recordRefusal
  apply Table.Evolves.update
  · exact fun _ => rfl
  · exact fun _ _ hp => ⟨rfl, rfl, .inr ⟨by simpa using hp, rfl⟩⟩
  · exact fun _ _ _ => ⟨rfl, rfl, .inl rfl⟩

theorem recordRun_evolves (db : ChatStore) (now : Nat) (key runId : String)
    (status : Option String) :
    Table.Evolves (fun x row => row.identity = x.identity ∧
        (x.key ≠ key ∧ row = x ∨ x.key = key ∧ row.run_id = some runId ∧ row.status = status))
      db.chat_requests (db.recordRun now key runId status).chat_requests := by
  unfold recordRun
  apply Table.Evolves.update
  · exact fun _ => rfl
  · exact fun _ _ hp => ⟨rfl, .inr ⟨by simpa using hp, rfl, rfl⟩⟩
  · exact fun _ _ hp => ⟨rfl, .inl ⟨by simpa using hp, rfl⟩⟩

theorem mem_insertRequest {x row : StoredChatRequest} :
    x ∈ (db.insertRequest row).chat_requests.rows ↔ x ∈ db.chat_requests.rows ∨
      x = row ∧ ∀ y ∈ db.chat_requests.rows, y.key ≠ row.key := by
  unfold insertRequest Table.insert
  split
  · rename_i hin
    obtain ⟨y, hy, hk⟩ := List.mem_map.mp hin
    constructor
    · exact .inl
    · rintro (hx | ⟨-, hnone⟩)
      · exact hx
      · exact absurd hk (hnone y hy)
  · rename_i hnot
    have hnone : ∀ y ∈ db.chat_requests.rows, y.key ≠ row.key :=
      fun y hy hk => hnot (hk ▸ List.mem_map_of_mem hy)
    simp only [Option.getD_some, List.mem_append, List.mem_singleton]
    exact or_congr_right ⟨fun h => ⟨h, hnone⟩, And.left⟩

/-- After the insertion there is a row under the key. -/
theorem exists_insertRequest (db : ChatStore) (row : StoredChatRequest) :
    ∃ x ∈ (db.insertRequest row).chat_requests.rows, x.key = row.key := by
  by_cases h : ∃ y ∈ db.chat_requests.rows, y.key = row.key
  · obtain ⟨y, hy, hk⟩ := h
    exact ⟨y, mem_insertRequest.mpr (.inl hy), hk⟩
  · exact ⟨row, mem_insertRequest.mpr (.inr ⟨rfl, fun y hy hk => h ⟨y, hy, hk⟩⟩), rfl⟩

/-- No conflict: the requests of the conversation under other keys have ended. -/
theorem ended_of_conflicting (h : db.conflicting id key = none) {row : StoredChatRequest}
    (hrow : row ∈ db.chat_requests.rows) (hkey : row.key ≠ key)
    (hconv : db.chat_sessions.lookup row.session_id = some (db.rootId id)) :
    ∃ st ∈ row.status, st ∈ endedStatuses := by
  have hnone := List.find?_eq_none.mp h row hrow
  simp only [inConversation, hconv, decide_true, Bool.true_and, bne_iff_ne, Bool.and_eq_true, hkey,
    ne_eq, not_false_eq_true, true_and, Bool.or_eq_true, not_or] at hnone
  obtain ⟨hsome, hended⟩ := hnone
  cases hst : row.status with
  | none => simp [hst] at hsome
  | some st => exact ⟨st, rfl, by simpa [notEnded, hst] using hended⟩

end ChatStore

/-! ## Between two states -/

/-- What no step takes away. -/
structure Grows (s t : ChatState) : Prop where
  now : s.now ≤ t.now
  sessions : Extends s.db.chat_sessions t.db.chat_sessions
  rows : ∀ row ∈ s.db.chat_requests.rows, ∃ row' ∈ t.db.chat_requests.rows,
    row'.identity = row.identity
  sent : ∀ (i : Nat) (d : Sent String RunBody String), s.hermes.sent[i]? = some d →
    ∃ d', t.hermes.sent[i]? = some d' ∧ d'.key = d.key ∧ d'.body = d.body ∧
      (d.verdict ≠ none → d'.verdict = d.verdict)
  runs : ∀ r ∈ s.hermes.runs, ∃ r' ∈ t.hermes.runs, r'.id = r.id ∧ r'.key = r.key
  heard : ∀ x ∈ s.heard, x ∈ t.heard
  sentAt : ∀ d' ∈ t.hermes.sent, (∃ d ∈ s.hermes.sent, d.key = d'.key ∧ d.sentAt = d'.sentAt) ∨
    s.now ≤ d'.sentAt

theorem Grows.refl (s : ChatState) : Grows s s where
  now := le_rfl
  sessions := Extends.refl _
  rows row hrow := ⟨row, hrow, rfl⟩
  sent _ d hd := ⟨d, hd, rfl, rfl, fun _ => rfl⟩
  runs r hr := ⟨r, hr, rfl, rfl⟩
  heard _ hx := hx
  sentAt d hd := .inl ⟨d, hd, rfl, rfl⟩

theorem Grows.trans {s t u : ChatState} (h : Grows s t) (h' : Grows t u) : Grows s u where
  now := h.now.trans h'.now
  sessions id root hid := h'.sessions id root (h.sessions id root hid)
  rows row hrow := by
    obtain ⟨row', hrow', hid⟩ := h.rows row hrow
    obtain ⟨row'', hrow'', hid'⟩ := h'.rows row' hrow'
    exact ⟨row'', hrow'', hid'.trans hid⟩
  sent i d hd := by
    obtain ⟨d', hd', hkey, hbody, hkeep⟩ := h.sent i d hd
    obtain ⟨d'', hd'', hkey', hbody', hkeep'⟩ := h'.sent i d' hd'
    refine ⟨d'', hd'', hkey'.trans hkey, hbody'.trans hbody, fun hv => ?_⟩
    rw [hkeep' (by rw [hkeep hv]; exact hv), hkeep hv]
  runs r hr := by
    obtain ⟨r', hr', hid, hkey⟩ := h.runs r hr
    obtain ⟨r'', hr'', hid', hkey'⟩ := h'.runs r' hr'
    exact ⟨r'', hr'', hid'.trans hid, hkey'.trans hkey⟩
  heard x hx := h'.heard x (h.heard x hx)
  sentAt d hd := by
    rcases h'.sentAt d hd with ⟨d', hd', hkey, hat⟩ | hlate
    · rcases h.sentAt d' hd' with ⟨d'', hd'', hkey', hat'⟩ | hlate
      · exact .inl ⟨d'', hd'', hkey'.trans hkey, hat'.trans hat⟩
      · exact .inr (hat ▸ hlate)
    · exact .inr (h.now.trans hlate)

/-- A request to run that waits: it was read before its key was used, or before
the retention of the key ended. -/
structure Waits (env : ChatEnv) (s : ChatState) (p : Post) : Prop where
  fingerprint : p.fingerprint = env.fingerprint p.id p.input p.model
  owned : ∃ root, s.db.chat_sessions.lookup p.id = some root
  readAt : p.readAt ≤ s.now
  first : p.first = true → ∀ d ∈ s.hermes.sent, d.key = p.key → p.readAt ≤ d.sentAt
  retry : p.first = false → ∃ row ∈ s.db.chat_requests.rows, row.key = p.key ∧
    p.readAt < row.retry_until

def HandlerOk (env : ChatEnv) (s : ChatState) : Handler → Prop
  | .capabilities p => Waits env s p
  | .previousRun p askedAt retryUntil _ _ => Waits env s p ∧ p.first = true ∧
      askedAt ≤ p.readAt + upstreamTimeout ∧ askedAt ≤ s.now ∧ 60 < env.retention_seconds ∧
      retryUntil + 60000 ≤ askedAt + env.retention
  | .dispatched p i => ∃ d, s.hermes.sent[i]? = some d ∧ d.key = p.key ∧ d.body = p.body
  | .status .. | .answered _ => True

theorem Waits.grows {env : ChatEnv} {s t : ChatState} {p : Post} (h : Waits env s p)
    (hg : Grows s t) : Waits env t p where
  fingerprint := h.fingerprint
  owned := h.owned.imp fun root hroot => hg.sessions _ root hroot
  readAt := h.readAt.trans hg.now
  first hfirst d hd hkey := by
    rcases hg.sentAt d hd with ⟨e, he, hek, hat⟩ | hlate
    · exact hat ▸ h.first hfirst e he (hek.trans hkey)
    · exact h.readAt.trans hlate
  retry hfirst := by
    obtain ⟨row, hrow, hkey, hlt⟩ := h.retry hfirst
    obtain ⟨row', hrow', hid⟩ := hg.rows row hrow
    exact ⟨row', hrow', (key_of_identity hid).trans hkey, retry_until_of_identity hid ▸ hlt⟩

theorem HandlerOk.grows {env : ChatEnv} {s t : ChatState} {x : Handler} (h : HandlerOk env s x)
    (hg : Grows s t) : HandlerOk env t x := by
  cases x with
  | capabilities p => exact Waits.grows h hg
  | previousRun p askedAt retryUntil runId row =>
      obtain ⟨hw, hfirst, hasked, hnow, hret, huntil⟩ := h
      exact ⟨hw.grows hg, hfirst, hasked, hnow.trans hg.now, hret, huntil⟩
  | dispatched p i =>
      obtain ⟨d, hd, hkey, hbody⟩ := h
      obtain ⟨d', hd', hkey', hbody', -⟩ := hg.sent i d hd
      exact ⟨d', hd', hkey'.trans hkey, hbody'.trans hbody⟩
  | status => exact trivial
  | answered => exact trivial

/-- A request to run that may be sent now. -/
structure Ready (env : ChatEnv) (s : ChatState) (p : Post) (retryUntil : Nat) : Prop where
  fingerprint : p.fingerprint = env.fingerprint p.id p.input p.model
  owned : ∃ root, s.db.chat_sessions.lookup p.id = some root
  retention : 60 < env.retention_seconds
  retryUntil : retryUntil + 60000 ≤ s.now + env.retention
  timely : ∀ d ∈ s.hermes.sent, d.key = p.key → s.now + upstreamTimeout < d.sentAt + env.retention

/-- The row of a first request. -/
def Post.row (p : Post) (s : ChatState) (retryUntil : Nat) : StoredChatRequest :=
  ⟨p.key, s.db.chat_requests.rows.length + 1, p.id, p.fingerprint, none, some "dispatching",
    retryUntil, some s.now, some s.now⟩

inductive Effect (env : ChatEnv) (s : ChatState) : ChatState → Prop
  | quiet {now : Nat} {sessions : List (String × String)} {hs : List Handler} :
      s.now ≤ now → Extends s.db.chat_sessions sessions →
      Effect env s { s with now, db := ⟨sessions, s.db.chat_requests⟩, handlers := hs }
  | sent {p : Post} {retryUntil : Nat} {hs : List Handler} :
      Ready env s p retryUntil → s.db.conflicting p.id p.key = none →
      Effect env s { s with
        db := s.db.insertRequest (p.row s retryUntil)
        hermes := s.hermes.send s.now p.key p.body
        handlers := hs }
  | received {i : Nat} {v : Verdict String} {hermes : RunService String RunBody String} :
      s.hermes.receive env.retention upstreamTimeout s.now i v = some hermes →
      Effect env s { s with hermes }
  | finished (runId : String) : Effect env s { s with hermes := s.hermes.finish runId }
  | observed {runId : String} {row : StoredChatRequest} {run : HermesRun} :
      s.Truthful runId run → Effect env s (s.observe runId row run)
  | accepted {i : Nat} {d : Sent String RunBody String} {run : HermesRun} {hs : List Handler} :
      s.hermes.sent[i]? = some d → d.verdict = some (.run run.run_id) →
      s.Truthful run.run_id run →
      Effect env s { s with
        db := s.db.recordRun s.now d.key run.run_id run.status
        heard := s.heard ++ ChatState.heardOf run.run_id run
        handlers := hs }
  | refused {i code : Nat} {d : Sent String RunBody String} {hs : List Handler} :
      s.hermes.sent[i]? = some d → d.verdict = some (.refused code) →
      Effect env s { s with
        db := if code ∈ refusals then s.db.recordRefusal s.now d.key else s.db
        heard := s.heard ++ [.refused i code]
        handlers := hs }

/-- An effect after which every new handler is in order. -/
structure Move (env : ChatEnv) (s t : ChatState) : Prop where
  effect : Effect env s t
  handlers : ∀ x ∈ t.handlers, x ∈ s.handlers ∨ HandlerOk env t x

theorem exists_identity_of_evolves {R : StoredChatRequest → StoredChatRequest → Prop}
    {a b : Table StoredChatRequest String StoredChatRequest.key} (h : Table.Evolves R a b)
    (hR : ∀ x row, R x row → row.identity = x.identity) {row : StoredChatRequest}
    (hrow : row ∈ a.rows) : ∃ row' ∈ b.rows, row'.identity = row.identity := by
  obtain ⟨row', hget, hrel⟩ := h.get (Table.get_of_mem hrow)
  exact ⟨row', Table.mem_of_get hget, hR _ _ hrel⟩

section

variable {env : ChatEnv} {s t : ChatState}

theorem Effect.grows (h : Effect env s t) : Grows s t := by
  have hruns : ∀ r ∈ s.hermes.runs, ∃ r' ∈ s.hermes.runs, r'.id = r.id ∧ r'.key = r.key :=
    fun r hr => ⟨r, hr, rfl, rfl⟩
  have hheard : ∀ x ∈ s.heard, x ∈ s.heard := fun x hx => hx
  have happend : ∀ xs, ∀ x ∈ s.heard, x ∈ s.heard ++ xs := fun xs x hx => List.mem_append_left xs hx
  have hsent : ∀ (i : Nat) d, s.hermes.sent[i]? = some d → ∃ d', s.hermes.sent[i]? = some d' ∧
      d'.key = d.key ∧ d'.body = d.body ∧ (d.verdict ≠ none → d'.verdict = d.verdict) :=
    fun i d hd => ⟨d, hd, rfl, rfl, fun _ => rfl⟩
  have hat : ∀ d' ∈ s.hermes.sent,
      (∃ d ∈ s.hermes.sent, d.key = d'.key ∧ d.sentAt = d'.sentAt) ∨ s.now ≤ d'.sentAt :=
    fun d hd => .inl ⟨d, hd, rfl, rfl⟩
  have hrows : ∀ row ∈ s.db.chat_requests.rows, ∃ row' ∈ s.db.chat_requests.rows,
      row'.identity = row.identity := fun row hrow => ⟨row, hrow, rfl⟩
  cases h with
  | quiet hnow hsessions => exact ⟨hnow, hsessions, hrows, hsent, hruns, hheard, hat⟩
  | @sent p retryUntil hs _ _ =>
      have hext : (s.db.insertRequest (p.row s retryUntil)).chat_sessions = s.db.chat_sessions :=
        rfl
      refine ⟨le_rfl, hext ▸ Extends.refl _, fun row hrow =>
        ⟨row, ChatStore.mem_insertRequest.mpr (.inl hrow), rfl⟩, fun i d hd => ?_, hruns, hheard,
        fun d hd => ?_⟩
      · have hlt := (List.getElem?_eq_some_iff.mp hd).1
        exact ⟨d, (List.getElem?_append_left hlt).trans hd, rfl, rfl, fun _ => rfl⟩
      · rcases List.mem_append.mp hd with hd | hd
        · exact hat d hd
        · obtain rfl := List.mem_singleton.mp hd
          exact .inr le_rfl
  | received hr =>
      refine ⟨le_rfl, Extends.refl _, hrows, fun i d hd => ?_,
        fun r hrun => ⟨r, RunService.receive_runs hr hrun, rfl, rfl⟩, hheard,
        fun d hd => .inl ?_⟩
      · exact RunService.receive_sent hr hd
      · obtain ⟨d', hd', hkey, -, hat⟩ := RunService.receive_mem hr hd
        exact ⟨d', hd', hkey, hat⟩
  | finished runId =>
      refine ⟨le_rfl, Extends.refl _, hrows, hsent, fun r hr => ?_, hheard, hat⟩
      obtain ⟨r', hr', hid, hkey, -⟩ := RunService.exists_mem_finish runId hr
      exact ⟨r', hr', hid, hkey⟩
  | @observed runId row run _ =>
      exact ⟨le_rfl, s.db.observe_extends s.now runId row run, fun row' =>
        exists_identity_of_evolves (s.db.observe_evolves s.now runId row run) fun _ _ h => h.1,
        hsent, hruns, happend _, hat⟩
  | @accepted i d run hs _ _ _ =>
      exact ⟨le_rfl, Extends.refl _, fun row => exists_identity_of_evolves
        (s.db.recordRun_evolves s.now d.key run.run_id run.status) fun _ _ h => h.1, hsent,
        hruns, happend _, hat⟩
  | @refused i code d hs _ _ =>
      by_cases hcode : code ∈ refusals
      · simp only [if_pos hcode]
        exact ⟨le_rfl, Extends.refl _, fun row => exists_identity_of_evolves
          (s.db.recordRefusal_evolves s.now d.key) fun _ _ h => h.1, hsent,
        hruns, happend _, hat⟩
      · simp only [if_neg hcode]
        exact ⟨le_rfl, Extends.refl _, hrows, hsent, hruns, happend _, hat⟩

end

end Openlia.Chat

import Openlia.Chat.Steps

/-! # The record of a chat request

The row of a key says who may use the key, whether a request under it was refused
and which run it started. The fingerprint is compared with the row as it was
before the awaits and the row is inserted after them, so only a request that finds
its own fingerprint in the row when it is sent is sent as the row says; and a
refusal says something of one request only.
-/

namespace Openlia.Chat

open Lib Json Browser ChatState

/-! ## The fingerprint -/

theorem quote_cancel {x y : String} {r r' : List Char} (h : quote x ++ r = quote y ++ r') :
    x = y ∧ r = r' := by
  obtain ⟨hxy, hr⟩ := quoteWith_cancel stdEscape_decodable h
  exact ⟨String.toList_inj.mp hxy, hr⟩

theorem stringify_injective {xs ys : List String} (h : stringify xs = stringify ys) : xs = ys := by
  have hne : ∀ (zs : List String), ∀ z ∈ zs, ∀ r r' : List Char, quote z ++ r ≠ ']' :: r' := by
    intro zs z _ r r' he
    have hhead : '"' = ']' := (List.cons.inj he).1
    exact absurd hhead (by decide)
  obtain ⟨hall, -⟩ := joinComma_cancel (R := (· = ·)) (by decide) (by decide)
    (fun x _ y _ r r' _ _ h => quote_cancel h) (hne xs) (hne ys) (List.cons.inj h).2
  exact List.forall₂_eq_eq_eq ▸ hall

theorem fingerprint_injective {env : ChatEnv} {id id' input input' model model' : String}
    (h : env.fingerprint id input model = env.fingerprint id' input' model') :
    id = id' ∧ input = input' ∧ model = model' := by
  have hlist := stringify_injective (env.sha256_injective h)
  simp only [List.cons.injEq, and_true] at hlist
  exact hlist

/-! ## What a record says -/

def ChatEnv.fingerprintOf (env : ChatEnv) (body : RunBody) : String :=
  env.fingerprint body.session_id body.input (body.model.getD "")

theorem Post.fingerprintOf_body (env : ChatEnv) (p : Post) :
    env.fingerprintOf p.body = env.fingerprint p.id p.input p.model := by
  unfold ChatEnv.fingerprintOf Post.body
  by_cases hm : p.model = "" <;> simp [hm]

/-- All that is sent under a key is one session, input and model. -/
def OneBinding (s : ChatState) : Prop :=
  ∀ d ∈ s.hermes.sent, ∀ e ∈ s.hermes.sent, d.key = e.key → d.body = e.body

/-- A request that is recorded as rejected has no run. -/
def RejectedTruly (s : ChatState) : Prop :=
  ∀ row ∈ s.db.chat_requests.rows, row.status = some "rejected" →
    ∀ r ∈ s.hermes.runs, r.key ≠ row.key

/-- A run id that is recorded for a key stays recorded for it. -/
def KeepsRunIds (x : ChatStep) : Prop :=
  ∀ row ∈ x.before.db.chat_requests.rows, ∀ id, row.run_id = some id →
    ∃ row' ∈ x.after.db.chat_requests.rows, row'.key = row.key ∧ row'.run_id = some id

/-- A request that Hermes receives in this step comes before Hermes may have
forgotten any run under its key. -/
def ReceivedInTime (env : ChatEnv) (x : ChatStep) : Prop :=
  ∀ i v, x.action = .receive i v → ∀ d ∈ x.before.hermes.sent[i]?,
    ∀ r ∈ x.before.hermes.runs, r.key = d.key → x.before.now < r.admittedAt + env.retention

instance (s : ChatState) : Decidable (OneBinding s) :=
  inferInstanceAs (Decidable (∀ d ∈ s.hermes.sent, ∀ e ∈ s.hermes.sent, _))

instance (s : ChatState) : Decidable (RejectedTruly s) :=
  inferInstanceAs (Decidable (∀ row ∈ s.db.chat_requests.rows, _))

/-! ## The condition -/

/-- The row under the key of a request that is sent in this step has its
fingerprint and is not recorded as rejected. -/
def SentAsRecorded (env : ChatEnv) (x : ChatStep) : Prop :=
  ∀ d ∈ x.after.hermes.sent[x.before.hermes.sent.length]?,
    ∀ row ∈ x.before.db.chat_requests.get d.key,
      row.status ≠ some "rejected" ∧ row.fingerprint = env.fingerprintOf d.body

/-- When a refusal that closes a row is heard in this step, all other requests
under the key are known to be refused. -/
def RefusedAll (x : ChatStep) : Prop :=
  ∀ refusal ∈ x.after.heard[x.before.heard.length]?.bind Heard.refusal, refusal.2 ∈ refusals →
    ∀ d ∈ x.before.hermes.sent[refusal.1]?, ∀ j < x.before.hermes.sent.length,
      ∀ e ∈ x.before.hermes.sent[j]?, e.key = d.key → j ≠ refusal.1 →
        ∃ y ∈ x.before.heard, y.Refuses j

structure Faithful (env : ChatEnv) (x : ChatStep) : Prop where
  sent : SentAsRecorded env x
  refused : RefusedAll x

instance (env : ChatEnv) (x : ChatStep) : Decidable (Faithful env x) :=
  have : Decidable (SentAsRecorded env x) :=
    inferInstanceAs (Decidable (∀ d ∈ x.after.hermes.sent[x.before.hermes.sent.length]?, _))
  have : Decidable (RefusedAll x) := inferInstanceAs (Decidable
    (∀ refusal ∈ x.after.heard[x.before.heard.length]?.bind Heard.refusal, _))
  decidable_of_iff (SentAsRecorded env x ∧ RefusedAll x)
    ⟨fun ⟨h, h'⟩ => ⟨h, h'⟩, fun ⟨h, h'⟩ => ⟨h, h'⟩⟩

/-- The invariant of runs whose steps meet the condition. -/
structure Recorded (env : ChatEnv) (s : ChatState) : Prop where
  bound : ∀ d ∈ s.hermes.sent, ∃ row ∈ s.db.chat_requests.rows, row.key = d.key ∧
    row.fingerprint = env.fingerprintOf d.body
  bodies : ∀ d ∈ s.hermes.sent, ∃ p : Post, d.body = p.body
  rejected : ∀ row ∈ s.db.chat_requests.rows, row.status = some "rejected" →
    ∀ (i : Nat) (d : Sent String RunBody String), s.hermes.sent[i]? = some d → d.key = row.key →
      ∃ x ∈ s.heard, x.Refuses i

section Effects

variable {env : ChatEnv} {s t : ChatState}

/-- Rows may be recorded as rejected when what was sent under the key is known to
be refused. -/
theorem Recorded.updated (hr : Recorded env s) (hg : Grows s t)
    (hsent : ∀ (i : Nat) (d : Sent String RunBody String), t.hermes.sent[i]? = some d →
      ∃ d', s.hermes.sent[i]? = some d' ∧ d'.key = d.key ∧ d'.body = d.body)
    (hrows : Table.Evolves (fun x row => row.identity = x.identity ∧ (row.status = x.status ∨
        (row.status = some "rejected" → ∀ (i : Nat) (d : Sent String RunBody String),
          t.hermes.sent[i]? = some d → d.key = x.key → ∃ y ∈ t.heard, y.Refuses i)))
      s.db.chat_requests t.db.chat_requests) : Recorded env t where
  bound d hd := by
    obtain ⟨i, hi⟩ := List.mem_iff_getElem?.mp hd
    obtain ⟨d', hd', hkey, hbody⟩ := hsent i d hi
    obtain ⟨x, hx, hxk, hfp⟩ := hr.bound d' (List.mem_of_getElem? hd')
    obtain ⟨row, hrow, hid⟩ := exists_identity_of_evolves hrows (fun _ _ h => h.1) hx
    exact ⟨row, hrow, (key_of_identity hid).trans (hxk.trans hkey),
      (fingerprint_of_identity hid).trans (hfp.trans (by rw [hbody]))⟩
  bodies d hd := by
    obtain ⟨i, hi⟩ := List.mem_iff_getElem?.mp hd
    obtain ⟨d', hd', -, hbody⟩ := hsent i d hi
    exact hbody ▸ hr.bodies d' (List.mem_of_getElem? hd')
  rejected row hrow hst i d hd hkey := by
    obtain ⟨x, hx, hk, -, hsame | hnew⟩ := hrows.of_mem hrow
    · obtain ⟨d', hd', hkey', -⟩ := hsent i d hd
      obtain ⟨y, hy, hi⟩ := hr.rejected x hx (hsame ▸ hst) i d' hd'
        (hkey'.trans (hkey.trans hk))
      exact ⟨y, hg.heard y hy, hi⟩
    · exact hnew hst i d hd (hkey.trans hk)

theorem Recorded.kept (hr : Recorded env s) (hg : Grows s t)
    (hsent : ∀ (i : Nat) (d : Sent String RunBody String), t.hermes.sent[i]? = some d →
      ∃ d', s.hermes.sent[i]? = some d' ∧ d'.key = d.key ∧ d'.body = d.body)
    (hrows : t.db.chat_requests = s.db.chat_requests) : Recorded env t :=
  hr.updated hg hsent (hrows ▸ Table.Evolves.refl fun _ _ => ⟨rfl, .inl rfl⟩)

theorem Recorded.observed (hr : Recorded env s) {runId : String} {run : HermesRun}
    (row : StoredChatRequest) (ht : s.Truthful runId run) :
    Recorded env (s.observe runId row run) := by
  have he : Effect env s (s.observe runId row run) := .observed ht
  refine hr.updated he.grows (fun i d hd => ⟨d, hd, rfl, rfl⟩)
    ((s.db.observe_evolves s.now runId row run).imp fun x _ row' hrow => ⟨hrow.1, ?_⟩)
  rcases hrow.2.2 with hsame | ⟨-, hstatus⟩
  · exact .inl hsame
  · exact .inr fun hst => absurd (hstatus.symm.trans hst) ht.1

theorem Recorded.sent (hr : Recorded env s) {p : Post} {retryUntil : Nat} {hs : List Handler}
    (hready : Ready env s p retryUntil)
    (hrow : ∀ row ∈ s.db.chat_requests.get p.key,
      row.status ≠ some "rejected" ∧ row.fingerprint = env.fingerprintOf p.body) :
    Recorded env { s with
      db := s.db.insertRequest (p.row s retryUntil)
      hermes := s.hermes.send s.now p.key p.body
      handlers := hs } where
  bound d hd := by
    rcases List.mem_append.mp hd with hd | hd
    · obtain ⟨row, hin, hrest⟩ := hr.bound d hd
      exact ⟨row, ChatStore.mem_insertRequest.mpr (.inl hin), hrest⟩
    · obtain rfl := List.mem_singleton.mp hd
      cases hget : s.db.chat_requests.get p.key with
      | none =>
          refine ⟨p.row s retryUntil, ChatStore.mem_insertRequest.mpr (.inr ⟨rfl, ?_⟩), rfl, ?_⟩
          · intro y hy hk
            have hsome := Table.get_of_mem hy
            rw [hk] at hsome
            cases hsome.symm.trans hget
          · exact hready.fingerprint.trans (p.fingerprintOf_body env).symm
      | some row =>
          exact ⟨row, ChatStore.mem_insertRequest.mpr (.inl (Table.mem_of_get hget)),
            Table.key_of_get hget, (hrow row hget).2⟩
  bodies d hd := by
    rcases List.mem_append.mp hd with hd | hd
    · exact hr.bodies d hd
    · obtain rfl := List.mem_singleton.mp hd
      exact ⟨p, rfl⟩
  rejected row hin hst i d hd hkey := by
    rcases ChatStore.mem_insertRequest.mp hin with hold | ⟨rfl, -⟩
    · rcases getElem?_concat_cases hd with hd | ⟨-, rfl⟩
      · exact hr.rejected row hold hst i d hd hkey
      -- nothing is sent under a rejected row
      · have hget := Table.get_of_mem hold
        rw [← hkey] at hget
        exact absurd hst (hrow row hget).1
    · exact absurd hst (by simp [Post.row])

theorem Effect.recorded (he : Effect env s t) (hr : Recorded env s)
    (hsent : ∀ d ∈ t.hermes.sent[s.hermes.sent.length]?, ∀ row ∈ s.db.chat_requests.get d.key,
      row.status ≠ some "rejected" ∧ row.fingerprint = env.fingerprintOf d.body)
    (hrefused : ∀ i code, t.heard[s.heard.length]? = some (.refused i code) → code ∈ refusals →
      ∀ d ∈ s.hermes.sent[i]?, ∀ (j : Nat) (e : Sent String RunBody String),
        s.hermes.sent[j]? = some e → e.key = d.key → j ≠ i → ∃ y ∈ s.heard, y.Refuses j) :
    Recorded env t := by
  have hg := he.grows
  cases he with
  | quiet hnow hext => exact hr.kept hg (fun i d hd => ⟨d, hd, rfl, rfl⟩) rfl
  | sent hready hnone => exact hr.sent hready (hsent _ List.getElem?_concat_length)
  | received hrec => exact hr.kept hg (fun i d hd => RunService.receive_sent_back hrec hd) rfl
  | finished runId => exact hr.kept hg (fun i d hd => ⟨d, hd, rfl, rfl⟩) rfl
  | observed ht => exact hr.observed _ ht
  | @accepted i d run hs hd hv ht =>
      refine hr.updated hg (fun i d hd => ⟨d, hd, rfl, rfl⟩)
        ((s.db.recordRun_evolves s.now d.key run.run_id run.status).imp
          fun x _ row hrow => ⟨hrow.1, ?_⟩)
      rcases hrow.2 with ⟨-, rfl⟩ | ⟨-, -, hstatus⟩
      · exact .inl rfl
      · exact .inr fun hst => absurd (hstatus.symm.trans hst) ht.1
  | @refused i code d hs hd hv =>
      by_cases hcode : code ∈ refusals
      · simp only [if_pos hcode] at hg ⊢
        refine hr.updated hg (fun i d hd => ⟨d, hd, rfl, rfl⟩)
          ((s.db.recordRefusal_evolves s.now d.key).imp fun x _ row hrow => ⟨hrow.1, ?_⟩)
        rcases hrow.2.2 with rfl | ⟨hkey, -⟩
        · exact .inl rfl
        · refine .inr fun _ j e he hek => ?_
          by_cases hji : j = i
          · exact ⟨.refused i code, by simp, hji.symm⟩
          · obtain ⟨y, hy, hj⟩ := hrefused i code List.getElem?_concat_length hcode d hd j e he
              (hek.trans hkey) hji
            exact ⟨y, hg.heard y hy, hj⟩
      · simp only [if_neg hcode] at hg ⊢
        exact hr.kept hg (fun i d hd => ⟨d, hd, rfl, rfl⟩) rfl

/-- Hermes answers with the one run of the key, so its id is recorded again. -/
theorem Effect.keepsRunIds (he : Effect env s t) (hi : StoreInv env s) {row : StoredChatRequest}
    (hrow : row ∈ s.db.chat_requests.rows) {id : String} (hid : row.run_id = some id) :
    ∃ row' ∈ t.db.chat_requests.rows, row'.key = row.key ∧ row'.run_id = some id := by
  cases he with
  | quiet hnow hext => exact ⟨row, hrow, rfl, hid⟩
  | sent hready hnone => exact ⟨row, ChatStore.mem_insertRequest.mpr (.inl hrow), rfl, hid⟩
  | received hrec => exact ⟨row, hrow, rfl, hid⟩
  | finished runId => exact ⟨row, hrow, rfl, hid⟩
  | @observed runId x run ht =>
      obtain ⟨row', hget, hident, hrun, -⟩ :=
        (s.db.observe_evolves s.now runId x run).get (Table.get_of_mem hrow)
      exact ⟨row', Table.mem_of_get hget, key_of_identity hident, hrun.trans hid⟩
  | @accepted i d run hs hd hv ht =>
      obtain ⟨row', hget, hident, hcase⟩ :=
        (s.db.recordRun_evolves s.now d.key run.run_id run.status).get (Table.get_of_mem hrow)
      refine ⟨row', Table.mem_of_get hget, key_of_identity hident, ?_⟩
      rcases hcase with ⟨-, rfl⟩ | ⟨hkey, hrun, -⟩
      · exact hid
      · obtain ⟨r, hr, rfl, hrk⟩ := hi.recorded row hrow id hid
        obtain ⟨r', hr', hrid, hrk'⟩ := hi.sound.answered d (List.mem_of_getElem? hd) _ hv
        obtain rfl := hi.run_unique hr hr' (hrk.trans (hkey.trans hrk'.symm))
        exact hrun.trans (congrArg some hrid.symm)
  | @refused i code d hs hd hv =>
      by_cases hcode : code ∈ refusals
      · simp only [if_pos hcode]
        obtain ⟨row', hget, hident, hrun, -⟩ :=
          (s.db.recordRefusal_evolves s.now d.key).get (Table.get_of_mem hrow)
        exact ⟨row', Table.mem_of_get hget, key_of_identity hident, hrun.trans hid⟩
      · simp only [if_neg hcode]
        exact ⟨row, hrow, rfl, hid⟩

end Effects

/-! ## Runs -/

section Runs

variable {env : ChatEnv}

theorem recorded_initial (env : ChatEnv) : Recorded env initial := by
  constructor <;> simp [initial, RunService.empty, Table.empty]

theorem next_recorded {s t : ChatState} {e : ChatEvent} (hi : ChatInv env s) (hr : Recorded env s)
    (hn : s.next env e t) (hf : Faithful env ⟨s, e, t⟩) : Recorded env t := by
  rcases step_moves hi hn with hm | ⟨runId, row, run, ht, hm, hheard, -⟩
  · refine hm.effect.recorded hr hf.sent fun i code hnew hcode d hd j e he => ?_
    exact hf.refused (i, code) (by rw [hnew]; rfl) hcode d hd j
      (List.getElem?_eq_some_iff.mp he).1 e he
  · refine hm.effect.recorded (hr.observed row ht) ?_ ?_
    · intro d hd row' hrow'
      obtain ⟨x, hx, hid, -, hstatus⟩ := (s.db.observe_evolves s.now runId row run).get_back hrow'
      obtain ⟨hne, hfp⟩ := hf.sent d hd x hx
      refine ⟨?_, (fingerprint_of_identity hid).trans hfp⟩
      rcases hstatus with hsame | ⟨-, hnew⟩
      · exact hsame ▸ hne
      · exact hnew ▸ ht.1
    · intro i code hnew
      rw [hheard, List.getElem?_eq_none le_rfl] at hnew
      cases hnew

/-- The run id of a row stays in every step. -/
theorem keepsRunIds_of_next {x : ChatStep} (hi : ChatInv env x.before)
    (hn : x.before.next env x.action x.after) : KeepsRunIds x := by
  intro row hrow id hid
  rcases step_moves hi hn with hm | ⟨runId, row₀, run, ht, hm, -⟩
  · exact hm.effect.keepsRunIds hi.toStoreInv hrow hid
  · have hobs := observe_move env ht row₀
    obtain ⟨row', hrow', hkey, hid'⟩ := hobs.effect.keepsRunIds hi.toStoreInv hrow hid
    obtain ⟨row'', hrow'', hkey', hid''⟩ :=
      hm.effect.keepsRunIds (hi.move hobs).toStoreInv hrow' hid'
    exact ⟨row'', hrow'', hkey'.trans hkey, hid''⟩

theorem receivedInTime_of_next {x : ChatStep} (hi : ChatInv env x.before)
    (hn : x.before.next env x.action x.after) : ReceivedInTime env x := by
  intro i v ha d hd r hr hkey
  rw [ha] at hn
  obtain ⟨hermes, hrec, -⟩ := Option.map_eq_some_iff.mp hn
  obtain ⟨d', hd', -, hnow, -⟩ := RunService.receive_cases hrec
  cases hd.symm.trans hd'
  exact hi.sound.remembers hi.timely (List.mem_of_getElem? hd') hnow r hr hkey

theorem oneBinding_of_recorded {s : ChatState} (hr : Recorded env s) : OneBinding s := by
  intro d hd e he hkey
  obtain ⟨row, hrow, hk, hfp⟩ := hr.bound d hd
  obtain ⟨row', hrow', hk', hfp'⟩ := hr.bound e he
  obtain rfl := Table.eq_of_key_eq hrow hrow' (hk.trans (hkey.trans hk'.symm))
  obtain ⟨p, hp⟩ := hr.bodies d hd
  obtain ⟨q, hq⟩ := hr.bodies e he
  have hsame := hfp.symm.trans hfp'
  rw [hp, hq, Post.fingerprintOf_body, Post.fingerprintOf_body] at hsame
  obtain ⟨hid, hinput, hmodel⟩ := fingerprint_injective hsame
  rw [hp, hq, Post.body, Post.body, hid, hinput, hmodel]

theorem rejectedTruly_of_recorded {s : ChatState} (hi : StoreInv env s) (hr : Recorded env s) :
    RejectedTruly s := by
  intro row hrow hst r hrun hkey
  obtain ⟨d, hd, hdk, -, hv, -⟩ := hi.sound.origin r hrun
  obtain ⟨i, hdi⟩ := List.mem_iff_getElem?.mp hd
  obtain ⟨y, hy, hrefuses⟩ := hr.rejected row hrow hst i d hdi (hdk.trans hkey)
  cases y with
  | ended => exact hrefuses.elim
  | refused j code =>
      cases hrefuses
      obtain ⟨d', hd', hv'⟩ := hi.refused i code hy
      cases hdi.symm.trans hd'
      rw [hv] at hv'
      cases hv'

/-- In every run the run ids that are recorded stay, and requests arrive before
their keys are forgotten; and when requests are sent only under rows with their
fingerprint that are not recorded as rejected, and a refusal is recorded only when
nothing else was sent under the key that is not refused too, a key is bound to one
request and `rejected` is recorded truly. -/
theorem chat_record_true {taken : List ChatStep} {s : ChatState}
    (h : Run (ChatState.next env) .initial taken s) :
    (∀ x ∈ taken, KeepsRunIds x ∧ ReceivedInTime env x) ∧
    ((∀ x ∈ taken, Faithful env x) → OneBinding s ∧ RejectedTruly s ∧
      ∀ x ∈ taken, OneBinding x.after ∧ RejectedTruly x.after) := by
  constructor
  · intro x hx
    have hbefore := ((run_inv h).2 x hx).1
    have hn := h.allowed x hx
    exact ⟨keepsRunIds_of_next hbefore hn, receivedInTime_of_next hbefore hn⟩
  · intro hf
    have hall := h.invariant_of (I := fun s => ChatInv env s ∧ Recorded env s) (C := Faithful env)
      ⟨initial_inv env, recorded_initial env⟩
      (fun s e t hs hn hx => ⟨next_inv hs.1 hn, next_recorded hs.1 hs.2 hn hx⟩) hf
    obtain ⟨⟨hi, hr⟩, hsteps⟩ := hall
    refine ⟨oneBinding_of_recorded hr, rejectedTruly_of_recorded hi.toStoreInv hr,
      fun x hx => ?_⟩
    obtain ⟨hi', hr'⟩ := (hsteps x hx).2
    exact ⟨oneBinding_of_recorded hr', rejectedTruly_of_recorded hi'.toStoreInv hr'⟩

end Runs

/-! ## Two requests under one key -/

section OneKey

def secretEnv : ChatEnv := ⟨"secret", String.ofList, fun _ _ h => String.ofList_injective h, 86400⟩

def ask (input : String) : List (String × Json) := [("input", .str input), ("model", .str "")]

def sharedKey : String := "aaaaaaaaaaaaaaaa"

def durable : Upstream (Option RunsIdempotency) := .ok (some ⟨true, true⟩)

/-- An acceptance that was lost, and a retry that is answered with the same run. -/
theorem chat_record_true_retry :
    ∃ taken s, Run (ChatState.next secretEnv) .initial taken s ∧ s.hermes.sent.length = 2 ∧
      (∀ x ∈ taken, Faithful secretEnv x) ∧
      (∀ x ∈ taken, KeepsRunIds x ∧ ReceivedInTime secretEnv x) ∧ OneBinding s ∧
        RejectedTruly s := by
  obtain ⟨taken, s, hrun, hp⟩ := exists_run_of_trace (step secretEnv) .initial
    [.createSession "s", .post "s" (ask "hello") sharedKey, .capabilities 0 durable,
      .receive 0 (.run "r"), .posted 0 .unavailable, .restart, .tick 60000,
      .post "s" (ask "hello") sharedKey, .capabilities 0 durable, .receive 1 (.run "r"),
      .posted 0 (.ok ⟨"r", none, some "running"⟩)]
    (fun r => decide (r.2.hermes.sent.length = 2) && decide (∀ x ∈ r.1, Faithful secretEnv x))
    (by decide +kernel)
  obtain ⟨hlen, hf⟩ := (Bool.and_eq_true _ _).mp hp
  have hall := of_decide_eq_true hf
  obtain ⟨hkept, hbound⟩ := chat_record_true hrun
  obtain ⟨hone, hrejected, -⟩ := hbound hall
  exact ⟨taken, s, hrun, of_decide_eq_true hlen, hall, hkept, hone, hrejected⟩

/-- Two first requests with one key and different inputs are both sent, and the
refusal of one is recorded over the run of the other. -/
theorem record_untrue :
    ∃ taken s, Run (ChatState.next secretEnv) .initial taken s ∧
      ¬ OneBinding s ∧ ¬ RejectedTruly s := by
  obtain ⟨taken, s, hrun, hp⟩ := exists_run_of_trace (step secretEnv) .initial
    [.createSession "s", .post "s" (ask "hello") sharedKey, .post "s" (ask "bye") sharedKey,
      .capabilities 0 durable, .capabilities 1 durable, .receive 0 (.run "r"),
      .receive 1 (.refused 409), .posted 0 (.ok ⟨"r", none, some "running"⟩),
      .posted 1 (.status 409)]
    (fun r => decide (¬ OneBinding r.2) && decide (¬ RejectedTruly r.2))
    (by decide +kernel)
  obtain ⟨hbinding, hrejected⟩ := (Bool.and_eq_true _ _).mp hp
  exact ⟨taken, s, hrun, of_decide_eq_true hbinding, of_decide_eq_true hrejected⟩

end OneKey

end Openlia.Chat

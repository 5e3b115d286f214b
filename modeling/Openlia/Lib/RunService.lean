import Mathlib.Data.List.Nodup
import Mathlib.Tactic.Common

/-! # A service with idempotency keys

A service that starts a run for a request and remembers the key of the request
for a while: a repeat of a key that it remembers is answered with the run that
was started under it. Requests take time to arrive and may be refused. A client
that sends no request under a key later than the service may have forgotten it
gets at most one run for each key.
-/

namespace Openlia.Lib

/-- What the service did with a request. -/
inductive Verdict (ρ : Type) where
  | run (id : ρ)
  | refused (status : Nat)
  | failed
deriving DecidableEq

/-- A request that was sent; it has no verdict before it is received. -/
structure Sent (κ β ρ : Type) where
  key : κ
  body : β
  sentAt : Nat
  verdict : Option (Verdict ρ)
deriving DecidableEq

structure Admitted (κ β ρ : Type) where
  id : ρ
  key : κ
  body : β
  admittedAt : Nat
  ended : Bool
deriving DecidableEq

structure RunService (κ β ρ : Type) where
  sent : List (Sent κ β ρ)
  runs : List (Admitted κ β ρ)
deriving DecidableEq

namespace RunService

variable {κ β ρ : Type}

def empty : RunService κ β ρ := ⟨[], []⟩

def send (s : RunService κ β ρ) (now : Nat) (key : κ) (body : β) : RunService κ β ρ :=
  { s with sent := s.sent ++ [⟨key, body, now, none⟩] }

def judge (s : RunService κ β ρ) (i : Nat) (d : Sent κ β ρ) (v : Verdict ρ) : RunService κ β ρ :=
  { s with sent := s.sent.set i { d with verdict := some v } }

def addRun (s : RunService κ β ρ) (now : Nat) (d : Sent κ β ρ) (id : ρ) : RunService κ β ρ :=
  { s with runs := s.runs ++ [⟨id, d.key, d.body, now, false⟩] }

/-- A request is received at most `latency` after it was sent. A run that is not
one of the runs so far is admitted only when no run under the key is remembered. -/
def receive [DecidableEq κ] [DecidableEq ρ] (retention latency : Nat) (s : RunService κ β ρ)
    (now i : Nat) (v : Verdict ρ) : Option (RunService κ β ρ) :=
  match s.sent[i]? with
  | none => none
  | some d =>
      if d.verdict.isSome ∨ d.sentAt + latency < now then none
      else
        match v with
        | .run id =>
            match s.runs.find? fun r => r.id = id with
            | some r => if r.key = d.key then some (s.judge i d v) else none
            | none =>
                if ∀ r ∈ s.runs, r.key = d.key → r.admittedAt + retention ≤ now then
                  some ((s.addRun now d id).judge i d v)
                else none
        | .refused _ | .failed => some (s.judge i d v)

def finish [DecidableEq ρ] (s : RunService κ β ρ) (id : ρ) : RunService κ β ρ :=
  { s with runs := s.runs.map fun r => if r.id = id then { r with ended := true } else r }

/-- The run was admitted for one of the requests sent under its key. -/
def Origin (s : RunService κ β ρ) (r : Admitted κ β ρ) : Prop :=
  ∃ d ∈ s.sent, d.key = r.key ∧ d.body = r.body ∧ d.verdict = some (.run r.id) ∧
    d.sentAt ≤ r.admittedAt

/-- Every request arrives before any run under its key can be forgotten. -/
def Timely (retention latency : Nat) (s : RunService κ β ρ) : Prop :=
  ∀ d ∈ s.sent, ∀ e ∈ s.sent, d.key = e.key → d.sentAt + latency < e.sentAt + retention

structure Sound (s : RunService κ β ρ) : Prop where
  ids : (s.runs.map (·.id)).Nodup
  keys : (s.runs.map (·.key)).Nodup
  origin : ∀ r ∈ s.runs, s.Origin r
  answered : ∀ d ∈ s.sent, ∀ id, d.verdict = some (.run id) →
    ∃ r ∈ s.runs, r.id = id ∧ r.key = d.key

theorem sound_empty : Sound (empty : RunService κ β ρ) := by
  constructor <;> simp [empty]

/-- A request arrives while every run under its key is remembered. -/
theorem Sound.remembers {retention latency now : Nat} {s : RunService κ β ρ} (h : Sound s)
    (ht : Timely retention latency s) {d : Sent κ β ρ} (hd : d ∈ s.sent)
    (hnow : now ≤ d.sentAt + latency) :
    ∀ r ∈ s.runs, r.key = d.key → now < r.admittedAt + retention := by
  intro r hr hkey
  obtain ⟨e, he, hek, -, -, hle⟩ := h.origin r hr
  have hlt := ht d hd e he (hkey.symm.trans hek.symm)
  omega

section Received

variable [DecidableEq κ] [DecidableEq ρ] {retention latency : Nat} {s t : RunService κ β ρ}
  {now i : Nat} {v : Verdict ρ}

/-- What a reception does. -/
theorem receive_cases (h : s.receive retention latency now i v = some t) :
    ∃ d, s.sent[i]? = some d ∧ d.verdict = none ∧ now ≤ d.sentAt + latency ∧
      ((∃ id r, v = .run id ∧ r ∈ s.runs ∧ r.id = id ∧ r.key = d.key ∧ t = s.judge i d v) ∨
        (∃ id, v = .run id ∧ (∀ r ∈ s.runs, r.id ≠ id) ∧
          (∀ r ∈ s.runs, r.key = d.key → r.admittedAt + retention ≤ now) ∧
          t = (s.addRun now d id).judge i d v) ∨
        ((∀ id, v ≠ .run id) ∧ t = s.judge i d v)) := by
  unfold receive at h
  split at h
  · cases h
  · rename_i d hd
    split at h
    · cases h
    · rename_i hcond
      obtain ⟨hv, hnow⟩ := not_or.mp hcond
      refine ⟨d, hd, by simpa using hv, Nat.le_of_not_lt hnow, ?_⟩
      split at h
      · rename_i id
        split at h
        · rename_i r hr
          split at h
          · rename_i hkey
            cases h
            have hid : r.id = id := by simpa using List.find?_some hr
            exact .inl ⟨id, r, rfl, List.mem_of_find?_eq_some hr, hid, hkey, rfl⟩
          · cases h
        · rename_i hnone
          split at h
          · rename_i hold
            cases h
            refine .inr (.inl ⟨id, rfl, fun r hr => ?_, hold, rfl⟩)
            simpa using List.find?_eq_none.mp hnone r hr
          · cases h
      · cases h
        exact .inr (.inr ⟨by simp, rfl⟩)
      · cases h
        exact .inr (.inr ⟨by simp, rfl⟩)

end Received

section Steps

variable {s : RunService κ β ρ} {i now : Nat} {d : Sent κ β ρ} {v : Verdict ρ}

theorem mem_judge {e : Sent κ β ρ} (he : e ∈ (s.judge i d v).sent) :
    e = { d with verdict := some v } ∨ e ∈ s.sent := by
  rcases List.mem_or_eq_of_mem_set he with he | he
  · exact .inr he
  · exact .inl he

/-- Requests keep all but their verdict. -/
theorem exists_of_mem_judge (hd : s.sent[i]? = some d) {e : Sent κ β ρ}
    (he : e ∈ (s.judge i d v).sent) :
    ∃ e' ∈ s.sent, e'.key = e.key ∧ e'.body = e.body ∧ e'.sentAt = e.sentAt := by
  rcases mem_judge he with rfl | he
  · exact ⟨d, List.mem_of_getElem? hd, rfl, rfl, rfl⟩
  · exact ⟨e, he, rfl, rfl, rfl⟩

theorem judged_mem (hd : s.sent[i]? = some d) :
    { d with verdict := some v } ∈ (s.judge i d v).sent :=
  List.mem_set (List.getElem?_eq_some_iff.mp hd).1 _

/-- A verdict that was there stays. -/
theorem judge_keeps (hd : s.sent[i]? = some d) (hnone : d.verdict = none) {e : Sent κ β ρ}
    (he : e ∈ s.sent) (hsome : e.verdict ≠ none) : e ∈ (s.judge i d v).sent := by
  obtain ⟨j, hj⟩ := List.mem_iff_getElem?.mp he
  have hne : i ≠ j := by
    rintro rfl
    cases hj.symm.trans hd
    exact hsome hnone
  exact List.mem_of_getElem? ((List.getElem?_set_ne hne).trans hj)

theorem Timely.judge {retention latency : Nat} (h : Timely retention latency s)
    (hd : s.sent[i]? = some d) : Timely retention latency (s.judge i d v) := by
  intro e he e' he' hkey
  obtain ⟨f, hf, hfk, -, hft⟩ := exists_of_mem_judge hd he
  obtain ⟨f', hf', hfk', -, hft'⟩ := exists_of_mem_judge hd he'
  rw [← hft, ← hft']
  exact h f hf f' hf' (hfk.trans (hkey.trans hfk'.symm))

/-- A request that is answered with a run of its key, or with no run. -/
theorem Sound.judge (h : Sound s) (hd : s.sent[i]? = some d) (hnone : d.verdict = none)
    (hv : ∀ id, v = .run id → ∃ r ∈ s.runs, r.id = id ∧ r.key = d.key) :
    Sound (s.judge i d v) where
  ids := h.ids
  keys := h.keys
  origin r hr := by
    obtain ⟨e, he, hkey, hbody, hrun, hle⟩ := h.origin r hr
    exact ⟨e, judge_keeps hd hnone he (by simp [hrun]), hkey, hbody, hrun, hle⟩
  answered e he id hid := by
    rcases mem_judge he with rfl | he
    · exact hv id (Option.some.inj hid)
    · exact h.answered e he id hid

/-- A run admitted for a request under a key that has none. -/
theorem Sound.addRun (h : Sound s) (hd : s.sent[i]? = some d) (hnone : d.verdict = none)
    {id : ρ} (hle : d.sentAt ≤ now) (hid : ∀ r ∈ s.runs, r.id ≠ id)
    (hkey : ∀ r ∈ s.runs, r.key ≠ d.key) :
    Sound ((s.addRun now d id).judge i d (.run id)) where
  ids := by
    show ((s.addRun now d id).runs.map (·.id)).Nodup
    rw [RunService.addRun, List.map_append, List.nodup_append]
    exact ⟨h.ids, by simp, by simpa using hid⟩
  keys := by
    show ((s.addRun now d id).runs.map (·.key)).Nodup
    rw [RunService.addRun, List.map_append, List.nodup_append]
    exact ⟨h.keys, by simp, by simpa using hkey⟩
  origin r hr := by
    rcases List.mem_append.mp hr with hr | hr
    · obtain ⟨e, he, hek, hbody, hrun, hlt⟩ := h.origin r hr
      exact ⟨e, judge_keeps (s := s.addRun now d id) hd hnone he (by simp [hrun]), hek, hbody,
        hrun, hlt⟩
    · obtain rfl := List.mem_singleton.mp hr
      exact ⟨_, judged_mem (s := s.addRun now d id) hd, rfl, rfl, rfl, hle⟩
  answered e he id' hid' := by
    rcases mem_judge (s := s.addRun now d id) he with rfl | he
    · cases hid'
      exact ⟨_, List.mem_append_right _ (List.mem_singleton_self _), rfl, rfl⟩
    · obtain ⟨r, hr, hri, hrk⟩ := h.answered e he id' hid'
      exact ⟨r, List.mem_append_left _ hr, hri, hrk⟩

theorem Sound.send (h : Sound s) (key : κ) (body : β) : Sound (s.send now key body) where
  ids := h.ids
  keys := h.keys
  origin r hr := by
    obtain ⟨e, he, hrest⟩ := h.origin r hr
    exact ⟨e, List.mem_append_left _ he, hrest⟩
  answered e he id hid := by
    rcases List.mem_append.mp he with he | he
    · exact h.answered e he id hid
    · obtain rfl := List.mem_singleton.mp he
      cases hid

variable [DecidableEq ρ]

theorem mem_finish {id : ρ} {r : Admitted κ β ρ} (hr : r ∈ (s.finish id).runs) :
    ∃ r' ∈ s.runs, r'.id = r.id ∧ r'.key = r.key ∧ r'.body = r.body ∧
      r'.admittedAt = r.admittedAt ∧ (r'.ended = true → r.ended = true) := by
  obtain ⟨r', hr', rfl⟩ := List.mem_map.mp hr
  refine ⟨r', hr', ?_⟩
  split <;> simp

theorem exists_mem_finish (id : ρ) {r : Admitted κ β ρ} (hr : r ∈ s.runs) :
    ∃ r' ∈ (s.finish id).runs, r'.id = r.id ∧ r'.key = r.key ∧
      (r.ended = true → r'.ended = true) := by
  refine ⟨_, List.mem_map_of_mem hr, ?_⟩
  split <;> simp

theorem Sound.finish (h : Sound s) (id : ρ) : Sound (s.finish id) where
  ids := by
    have hmap : (s.finish id).runs.map (·.id) = s.runs.map (·.id) := by
      rw [RunService.finish, List.map_map]
      refine List.map_congr_left fun r _ => ?_
      by_cases hr : r.id = id <;> simp [hr]
    rw [hmap]
    exact h.ids
  keys := by
    have hmap : (s.finish id).runs.map (·.key) = s.runs.map (·.key) := by
      rw [RunService.finish, List.map_map]
      refine List.map_congr_left fun r _ => ?_
      by_cases hr : r.id = id <;> simp [hr]
    rw [hmap]
    exact h.keys
  origin r hr := by
    obtain ⟨r', hr', hid, hkey, hbody, hat, -⟩ := mem_finish hr
    obtain ⟨e, he, hek, heb, hev, hle⟩ := h.origin r' hr'
    exact ⟨e, he, hek.trans hkey, heb.trans hbody, by rw [hev, hid], by omega⟩
  answered e he id' hid' := by
    obtain ⟨r, hr, hri, hrk⟩ := h.answered e he id' hid'
    obtain ⟨r', hr', hid, hkey, -⟩ := exists_mem_finish (s := s) id hr
    exact ⟨r', hr', hid.trans hri, hkey.trans hrk⟩

variable [DecidableEq κ] {retention latency : Nat} {t : RunService κ β ρ}

/-- A service whose requests are timely admits one run for each key. -/
theorem Sound.receive (h : Sound s) (ht : Timely retention latency s)
    (hpast : ∀ d ∈ s.sent, d.sentAt ≤ now)
    (hr : s.receive retention latency now i v = some t) : Sound t := by
  obtain ⟨d, hd, hnone, hnow, hcase⟩ := receive_cases hr
  have hmem := List.mem_of_getElem? hd
  rcases hcase with ⟨id, r, rfl, hrun, hid, hkey, rfl⟩ | ⟨id, rfl, hid, hold, rfl⟩ | ⟨hv, rfl⟩
  · exact h.judge hd hnone fun id' hid' => ⟨r, hrun, hid.trans (Verdict.run.inj hid'), hkey⟩
  · refine h.addRun hd hnone (hpast d hmem) hid fun r hr hkey => ?_
    exact absurd (h.remembers ht hmem hnow r hr hkey) (Nat.not_lt.mpr (hold r hr hkey))
  · exact h.judge hd hnone fun id hid => absurd hid (hv id)

theorem Timely.receive (ht : Timely retention latency s)
    (hr : s.receive retention latency now i v = some t) : Timely retention latency t := by
  obtain ⟨d, hd, -, -, hcase⟩ := receive_cases hr
  rcases hcase with ⟨_, _, _, _, _, _, rfl⟩ | ⟨id, _, _, _, rfl⟩ | ⟨_, rfl⟩
  · exact ht.judge hd
  · exact Timely.judge (s := s.addRun now d id) ht hd
  · exact ht.judge hd

/-- A reception keeps all but the verdict of a request, and that once it is there. -/
theorem receive_sent (hr : s.receive retention latency now i v = some t) {j : Nat}
    {e : Sent κ β ρ} (he : s.sent[j]? = some e) :
    ∃ e', t.sent[j]? = some e' ∧ e'.key = e.key ∧ e'.body = e.body ∧
      (e.verdict ≠ none → e'.verdict = e.verdict) := by
  obtain ⟨d, hd, hnone, -, hcase⟩ := receive_cases hr
  have hsent : t.sent = s.sent.set i { d with verdict := some v } := by
    rcases hcase with ⟨_, _, _, _, _, _, rfl⟩ | ⟨_, _, _, _, rfl⟩ | ⟨_, rfl⟩ <;> rfl
  rw [hsent]
  by_cases hij : i = j
  · subst hij
    cases he.symm.trans hd
    exact ⟨{ e with verdict := some v },
      List.getElem?_set_self (List.getElem?_eq_some_iff.mp hd).1, rfl, rfl,
      fun h => absurd hnone h⟩
  · exact ⟨e, by rw [List.getElem?_set_ne hij, he], rfl, rfl, fun _ => rfl⟩

theorem receive_sent_back (hr : s.receive retention latency now i v = some t) {j : Nat}
    {e : Sent κ β ρ} (he : t.sent[j]? = some e) :
    ∃ e', s.sent[j]? = some e' ∧ e'.key = e.key ∧ e'.body = e.body := by
  have hlen : t.sent.length = s.sent.length := by
    obtain ⟨d, -, -, -, hcase⟩ := receive_cases hr
    rcases hcase with ⟨_, _, _, _, _, _, rfl⟩ | ⟨_, _, _, _, rfl⟩ | ⟨_, rfl⟩ <;>
      exact List.length_set
  have hlt : j < s.sent.length := hlen ▸ (List.getElem?_eq_some_iff.mp he).1
  obtain ⟨e', he', hkey, hbody, -⟩ := receive_sent hr (List.getElem?_eq_getElem hlt)
  cases he.symm.trans he'
  exact ⟨_, List.getElem?_eq_getElem hlt, hkey.symm, hbody.symm⟩

theorem receive_mem (hr : s.receive retention latency now i v = some t) {e : Sent κ β ρ}
    (he : e ∈ t.sent) :
    ∃ e' ∈ s.sent, e'.key = e.key ∧ e'.body = e.body ∧ e'.sentAt = e.sentAt := by
  obtain ⟨d, hd, -, -, hcase⟩ := receive_cases hr
  rcases hcase with ⟨_, _, _, _, _, _, rfl⟩ | ⟨id, _, _, _, rfl⟩ | ⟨_, rfl⟩
  · exact exists_of_mem_judge hd he
  · exact exists_of_mem_judge (s := s.addRun now d id) hd he
  · exact exists_of_mem_judge hd he

/-- Runs that are there stay. -/
theorem receive_runs (hr : s.receive retention latency now i v = some t) {r : Admitted κ β ρ}
    (h : r ∈ s.runs) : r ∈ t.runs := by
  obtain ⟨d, -, -, -, hcase⟩ := receive_cases hr
  rcases hcase with ⟨_, _, _, _, _, _, rfl⟩ | ⟨id, _, _, _, rfl⟩ | ⟨_, rfl⟩
  · exact h
  · exact List.mem_append_left _ h
  · exact h

end Steps

end RunService

end Openlia.Lib

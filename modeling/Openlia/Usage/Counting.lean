import Openlia.Usage.Identity
import Openlia.Lib.Runs

/-! # What an import records

A reading of a row is recorded as its growth over the checkpoint, with the raised
checkpoint. A raised checkpoint is a new one, so the id of the event is new. For
each row the checkpoint, its events and its readings are exact meters.
-/

namespace Openlia.Usage

open Lib

set_option linter.unusedSectionVars false

variable {C D : Type} [LinearOrder C] [AddCommGroup C] [IsOrderedAddMonoid C] [DecidableEq D]

/-- What an importer reads of a row; a cost counts with an accepted status. -/
structure Reading (C : Type) where
  row : RowKey
  tokens : Tokens
  cost : Option C
  provider_cost : Option C

/-- The checkpoint to which an event belongs. -/
def EventId.checkpoint : EventId D → Option (CheckpointId D)
  | .plain _ => none
  | .marks checkpoint _ => some checkpoint

namespace UsageEvent

def count (e : UsageEvent C D) (k : Token) : Nat := (e.tokens.getD fun _ => 0) k

def fallback (e : UsageEvent C D) : C := e.fallback_cost.getD 0

def provided (e : UsageEvent C D) : C := e.provider_cost.getD 0

end UsageEvent

/-- The events of a checkpoint. -/
def UsageDb.eventsAt (db : UsageDb C D) (key : CheckpointId D) : List (UsageEvent C D) :=
  db.events.filter fun e => e.id.checkpoint = some key

def UsageDb.marks (db : UsageDb C D) (key : CheckpointId D) : Marks C :=
  (db.checkpoints key).getD .zero

def UsageEnv.rowId (env : UsageEnv C D) (v : RowKey) : CheckpointId D := .digest (env.source_key v)

theorem rowId_injective {env : UsageEnv C D} {v w : RowKey} (h : env.rowId v = env.rowId w) :
    v = w :=
  source_key_injective (CheckpointId.digest.inj h)

/-! ## Marks -/

namespace Marks

instance : LE (Marks C) where
  le m n := (∀ k, m.tokens k ≤ n.tokens k) ∧ m.cost ≤ n.cost ∧ m.provider_cost ≤ n.provider_cost

theorem le_refl (m : Marks C) : m ≤ m := ⟨fun _ => le_rfl, le_rfl, le_rfl⟩

theorem le_trans {m n o : Marks C} (h : m ≤ n) (h' : n ≤ o) : m ≤ o :=
  ⟨fun k => (h.1 k).trans (h'.1 k), h.2.1.trans h'.2.1, h.2.2.trans h'.2.2⟩

/-- The marks after a reading. -/
def raise (m : Marks C) (r : Reading C) : Marks C where
  tokens := highTokens r.tokens m.tokens
  cost := r.cost.elim m.cost (max m.cost)
  provider_cost := r.provider_cost.elim m.provider_cost (max m.provider_cost)

/-- A reading that is not above the marks. -/
def Covers (m : Marks C) (r : Reading C) : Prop :=
  (∀ k, r.tokens k ≤ m.tokens k) ∧ (∀ c ∈ r.cost, c ≤ m.cost) ∧
    ∀ c ∈ r.provider_cost, c ≤ m.provider_cost

theorem le_raise (m : Marks C) (r : Reading C) : m ≤ m.raise r := by
  refine ⟨fun k => le_max_right _ _, ?_, ?_⟩
  · cases hc : r.cost <;> simp [raise, hc]
  · cases hc : r.provider_cost <;> simp [raise, hc]

theorem covers_of_raise_le {m : Marks C} {r : Reading C} (h : m.raise r ≤ m) : m.Covers r := by
  obtain ⟨htokens, hcost, hprovider⟩ := h
  refine ⟨fun k => (le_max_left _ _).trans (htokens k), fun c hc => ?_, fun c hc => ?_⟩
  · simp only [raise, Option.mem_def.mp hc, Option.elim_some] at hcost
    exact (le_max_right _ _).trans hcost
  · simp only [raise, Option.mem_def.mp hc, Option.elim_some] at hprovider
    exact (le_max_right _ _).trans hprovider

theorem raise_eq {m : Marks C} {r : Reading C} (h : m.Covers r) : m.raise r = m := by
  obtain ⟨htokens, hcost, hprovider⟩ := h
  have ht : highTokens r.tokens m.tokens = m.tokens :=
    funext fun k => max_eq_right (htokens k)
  have hc : r.cost.elim m.cost (max m.cost) = m.cost := by
    cases hr : r.cost with
    | none => rfl
    | some c => exact max_eq_left (hcost c hr)
  have hp : r.provider_cost.elim m.provider_cost (max m.provider_cost) = m.provider_cost := by
    cases hr : r.provider_cost with
    | none => rfl
    | some c => exact max_eq_left (hprovider c hr)
  rw [raise, ht, hc, hp]

end Marks

/-! ## The invariant -/

/-- The readings of a row, in order. -/
def readingsOf (readings : List (Reading C)) (v : RowKey) : List (Reading C) :=
  readings.filter fun r => r.row = v

/-- The marks of a row, its events and its readings are exact. -/
structure Metered (m : Marks C) (events : List (UsageEvent C D)) (readings : List (Reading C)) :
    Prop where
  tokens : ∀ k, Exact (m.tokens k) (events.map (·.count k)) (readings.map (·.tokens k))
  cost : Exact m.cost (events.map (·.fallback)) (readings.filterMap (·.cost))
  provider : Exact m.provider_cost (events.map (·.provided)) (readings.filterMap (·.provider_cost))

/-- What holds of the database after a list of readings. -/
structure DbInv (env : UsageEnv C D) (db : UsageDb C D) (readings : List (Reading C)) : Prop where
  fresh : db.ingestion_ownership_since = none
  rows : ∀ key m, db.checkpoints key = some m → ∃ v, key = env.rowId v
  ids : ∀ e ∈ db.events, ∃ v m, e.id = .marks (env.rowId v) (env.marksDigest m) ∧
    m ≤ db.marks (env.rowId v)
  metered : ∀ v, Metered (db.marks (env.rowId v)) (db.eventsAt (env.rowId v))
    (readingsOf readings v)

/-- An event that records the growth of a reading. -/
structure Records (env : UsageEnv C D) (m : Marks C) (r : Reading C) (e : UsageEvent C D) :
    Prop where
  id : e.id = .marks (env.rowId r.row) (env.marksDigest (m.raise r))
  tokens : e.tokens = some (deltaTokens r.tokens m.tokens)
  cost : e.fallback_cost = r.cost.map ((groupMeter C).growth m.cost)
  provider : e.provider_cost = r.provider_cost.map ((groupMeter C).growth m.provider_cost)

theorem readingsOf_concat_self (readings : List (Reading C)) (r : Reading C) :
    readingsOf (readings ++ [r]) r.row = readingsOf readings r.row ++ [r] := by
  simp [readingsOf]

theorem readingsOf_concat_ne {readings : List (Reading C)} {r : Reading C} {v : RowKey}
    (h : r.row ≠ v) : readingsOf (readings ++ [r]) v = readingsOf readings v := by
  simp [readingsOf, h]

theorem filter_growth {m x : Option C} {a : C} (h : x = m.map ((groupMeter C).growth a)) :
    x.filter (fun c => 0 ≤ c) = x := by
  subst h
  cases m with
  | none => rfl
  | some c => simp [groupMeter]

section

variable {env : UsageEnv C D} {db : UsageDb C D} {readings : List (Reading C)} {m : Marks C}
  {events : List (UsageEvent C D)} {r : Reading C} {e : UsageEvent C D}

theorem Metered.skip (h : Metered m events readings) (hc : m.Covers r) :
    Metered m events (readings ++ [r]) where
  tokens k := by
    rw [List.map_append, List.map_singleton]
    exact (h.tokens k).skip (hc.1 k)
  cost := by
    rw [List.filterMap_append]
    cases hr : r.cost with
    | none => simpa [hr] using h.cost
    | some c => simpa [hr] using h.cost.skip (hc.2.1 c hr)
  provider := by
    rw [List.filterMap_append]
    cases hr : r.provider_cost with
    | none => simpa [hr] using h.provider
    | some c => simpa [hr] using h.provider.skip (hc.2.2 c hr)

theorem Metered.record (h : Metered m events readings)
    (hcount : e.count = deltaTokens r.tokens m.tokens)
    (hcost : e.fallback_cost = r.cost.map ((groupMeter C).growth m.cost))
    (hprovider : e.provider_cost = r.provider_cost.map ((groupMeter C).growth m.provider_cost)) :
    Metered (m.raise r) (events ++ [e]) (readings ++ [r]) where
  tokens k := by
    have hk := (h.tokens k).record natMeter (r.tokens k)
    rw [max_comm] at hk
    rw [List.map_append, List.map_singleton, List.map_append, List.map_singleton]
    have hgrowth : e.count k = natMeter.growth (m.tokens k) (r.tokens k) := congrFun hcount k
    rw [hgrowth]
    exact hk
  cost := by
    rw [List.map_append, List.map_singleton, List.filterMap_append, UsageEvent.fallback, hcost]
    cases hr : r.cost with
    | none => simpa [Marks.raise, hr] using h.cost.idle
    | some c => simpa [Marks.raise, hr] using h.cost.record (groupMeter C) c
  provider := by
    rw [List.map_append, List.map_singleton, List.filterMap_append, UsageEvent.provided, hprovider]
    cases hr : r.provider_cost with
    | none => simpa [Marks.raise, hr] using h.provider.idle
    | some c => simpa [Marks.raise, hr] using h.provider.record (groupMeter C) c

theorem marks_checkpoint_self (db : UsageDb C D) (key : CheckpointId D) (m : Marks C) :
    (db.checkpoint key m).marks key = m := by
  simp [UsageDb.marks, UsageDb.checkpoint]

theorem marks_checkpoint_ne {key key' : CheckpointId D} (h : key' ≠ key) (m : Marks C) :
    (db.checkpoint key m).marks key' = db.marks key' := by
  simp [UsageDb.marks, UsageDb.checkpoint, Function.update_of_ne h]

/-- A reading that is not above the marks changes nothing, with its checkpoint or
without. -/
theorem DbInv.skip (h : DbInv env db readings) (hc : (db.marks (env.rowId r.row)).Covers r) :
    DbInv env db (readings ++ [r]) where
  fresh := h.fresh
  rows := h.rows
  ids := h.ids
  metered v := by
    by_cases hv : r.row = v
    · subst hv
      rw [readingsOf_concat_self]
      exact (h.metered _).skip hc
    · rw [readingsOf_concat_ne hv]
      exact h.metered v

theorem DbInv.same (h : DbInv env db readings) (v : RowKey) :
    DbInv env (db.checkpoint (env.rowId v) (db.marks (env.rowId v))) readings := by
  have hmarks : ∀ key, (db.checkpoint (env.rowId v) (db.marks (env.rowId v))).marks key =
      db.marks key := by
    intro key
    by_cases hk : key = env.rowId v
    · rw [hk, marks_checkpoint_self]
    · exact marks_checkpoint_ne hk _
  refine ⟨h.fresh, fun key m hm => ?_, fun e he => ?_, fun w => ?_⟩
  · by_cases hk : key = env.rowId v
    · exact ⟨v, hk⟩
    · exact h.rows key m (by simpa [UsageDb.checkpoint, Function.update_of_ne hk] using hm)
  · obtain ⟨w, m, hid, hle⟩ := h.ids e he
    exact ⟨w, m, hid, by rw [hmarks]; exact hle⟩
  · rw [hmarks]
    exact h.metered w

/-- A raised checkpoint has no event yet. -/
theorem DbInv.new_id (h : DbInv env db readings)
    (hnew : ¬ (db.marks (env.rowId r.row)).Covers r)
    (he : Records env (db.marks (env.rowId r.row)) r e) : ∀ x ∈ db.events, x.id ≠ e.id := by
  intro x hx heq
  obtain ⟨v, m, hid, hle⟩ := h.ids x hx
  rw [he.id, hid] at heq
  obtain ⟨hrow, hdigest⟩ := EventId.marks.inj heq
  obtain rfl := env.marksDigest_injective hdigest
  rw [hrow] at hle
  exact hnew (Marks.covers_of_raise_le hle)

theorem DbInv.record (h : DbInv env db readings)
    (hnew : ¬ (db.marks (env.rowId r.row)).Covers r)
    (he : Records env (db.marks (env.rowId r.row)) r e) :
    DbInv env ((db.insertEvent e).checkpoint (env.rowId r.row)
      ((db.marks (env.rowId r.row)).raise r)) (readings ++ [r]) := by
  have hnone : db.events.any (fun x => x.id = e.id) = false := by
    rw [List.any_eq_false]
    exact fun x hx => by simpa using h.new_id hnew he x hx
  have hins : db.insertEvent e = { db with events := db.events ++ [e.stored] } := by
    rw [UsageDb.insertEvent, if_neg (by simp [hnone])]
  rw [hins]
  have hid' : e.stored.id = e.id := rfl
  have hown : e.stored.id.checkpoint = some (env.rowId r.row) := by rw [hid', he.id]; rfl
  refine ⟨h.fresh, fun key m hm => ?_, fun x hx => ?_, fun v => ?_⟩
  · by_cases hk : key = env.rowId r.row
    · exact ⟨r.row, hk⟩
    · exact h.rows key m (by simpa [UsageDb.checkpoint, Function.update_of_ne hk] using hm)
  · rcases List.mem_append.mp hx with hx | hx
    · obtain ⟨v, m, hid, hle⟩ := h.ids x hx
      refine ⟨v, m, hid, ?_⟩
      by_cases hv : v = r.row
      · subst hv
        rw [marks_checkpoint_self]
        exact Marks.le_trans hle (Marks.le_raise _ _)
      · rw [marks_checkpoint_ne fun hk => hv (rowId_injective hk)]
        exact hle
    · obtain rfl := List.mem_singleton.mp hx
      refine ⟨r.row, _, hid'.trans he.id, ?_⟩
      rw [marks_checkpoint_self]
      exact Marks.le_refl _
  · by_cases hv : v = r.row
    · subst hv
      rw [marks_checkpoint_self, readingsOf_concat_self]
      have hat : (({ db with events := db.events ++ [e.stored] } : UsageDb C D).checkpoint
          (env.rowId r.row) ((db.marks (env.rowId r.row)).raise r)).eventsAt (env.rowId r.row) =
            db.eventsAt (env.rowId r.row) ++ [e.stored] := by
        simp [UsageDb.eventsAt, UsageDb.checkpoint, hown]
      rw [hat]
      refine (h.metered _).record ?_ ((filter_growth he.cost).trans he.cost)
        ((filter_growth he.provider).trans he.provider)
      funext k
      show (e.tokens.getD fun _ => 0) k = _
      rw [he.tokens]
      rfl
    · have hne : env.rowId v ≠ env.rowId r.row := fun hk => hv (rowId_injective hk)
      have hat : (({ db with events := db.events ++ [e.stored] } : UsageDb C D).checkpoint
          (env.rowId r.row) ((db.marks (env.rowId r.row)).raise r)).eventsAt (env.rowId v) =
            db.eventsAt (env.rowId v) := by
        simp [UsageDb.eventsAt, UsageDb.checkpoint, hown, hne.symm]
      rw [marks_checkpoint_ne hne, readingsOf_concat_ne (Ne.symm hv), hat]
      exact h.metered v

end

end Openlia.Usage

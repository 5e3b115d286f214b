import Openlia.Auth.Sessions
import Mathlib.Data.Finset.Dedup

/-! # When a session is valid

A session begins with a login and lives through every event that does not end it. The table holds
the sessions that live, but for some that have expired and were not looked at since.
-/

namespace Openlia.Auth

open Lib
open Browser (trim utf16 utf16_injective)

/-! ## The verifier -/

/-- What logins are checked against. -/
inductive Verifier where
  | password (hash : String)
  | firebase (projectId : String) (allowedEmails : Finset String)
  deriving DecidableEq

def Config.verifier (config : Config) : Verifier :=
  match config.authProvider with
  | .firebase => .firebase config.projectId config.allowedEmails.toFinset
  | .password => .password config.passwordHash
  | .none => .password config.passwordHash

theorem insertionSort_textLe {xs ys : List String} (h : xs.Perm ys) :
    xs.insertionSort textLe = ys.insertionSort textLe := by
  have : Std.Total textLe := ⟨fun s t => List.le_total (utf16 s) (utf16 t)⟩
  have : IsTrans String textLe := ⟨fun _ _ _ h h' => List.le_trans h h'⟩
  have hanti : ∀ s t, s ∈ xs.insertionSort textLe → t ∈ ys.insertionSort textLe → textLe s t →
      textLe t s → s = t := fun _ _ _ _ hle hge => utf16_injective (List.le_antisymm hle hge)
  exact List.Perm.eq_of_pairwise hanti (List.pairwise_insertionSort textLe xs)
    (List.pairwise_insertionSort textLe ys)
    (((List.perm_insertionSort textLe xs).trans h).trans (List.perm_insertionSort textLe ys).symm)

theorem verifier_firebase {config : Config} (h : config.authProvider = .firebase) :
    config.verifier = .firebase config.projectId config.allowedEmails.toFinset ∧
      verifierString config = "firebase:" ++ config.projectId ++ ":" ++
        ",".intercalate (config.allowedEmails.insertionSort textLe) := by
  unfold Config.verifier verifierString
  rw [h]
  exact ⟨rfl, rfl⟩

theorem verifier_password {config : Config} (h : config.authProvider ≠ .firebase) :
    config.verifier = .password config.passwordHash ∧
      verifierString config = config.passwordHash := by
  unfold Config.verifier verifierString
  cases hp : config.authProvider with
  | firebase => exact absurd hp h
  | password => exact ⟨rfl, rfl⟩
  | none => exact ⟨rfl, rfl⟩

/-- One verifier has one text, whatever the order of the emails. -/
theorem verifierString_congr {config config' : Config} (h : config.verifier = config'.verifier) :
    verifierString config = verifierString config' := by
  by_cases hp : config.authProvider = .firebase <;> by_cases hp' : config'.authProvider = .firebase
  · rw [(verifier_firebase hp).1, (verifier_firebase hp').1] at h
    obtain ⟨hproject, hemails⟩ := Verifier.firebase.inj h
    have hperm : config.allowedEmails.Perm config'.allowedEmails :=
      (List.perm_ext_iff_of_nodup config.nodup config'.nodup).mpr fun email => by
        rw [← List.mem_toFinset, hemails, List.mem_toFinset]
    rw [(verifier_firebase hp).2, (verifier_firebase hp').2, insertionSort_textLe hperm, hproject]
  · rw [(verifier_firebase hp).1, (verifier_password hp').1] at h
    cases h
  · rw [(verifier_password hp).1, (verifier_firebase hp').1] at h
    cases h
  · rw [(verifier_password hp).1, (verifier_password hp').1] at h
    rw [(verifier_password hp).2, (verifier_password hp').2]
    exact Verifier.password.inj h

/-! ## Cookies -/

/-- The first cookie with the name has the token as its value. -/
def Carries (header : Option String) (token : String) : Prop :=
  ∃ text before item after, header = some text ∧
    text.toList.splitOn ';' = before ++ item :: after ∧
    trimmedItem item = sessionCookie ++ '=' :: token.toList ∧ token ≠ "" ∧
    ∀ other ∈ before, trimmedItem other ≠ sessionCookie ∧
      ¬ sessionCookie ++ ['='] <+: trimmedItem other

/-- An item is the bare name, or the name with a value, or it is passed over. -/
theorem readItems_cons (item : List Char) (items : List (List Char)) :
    (trimmedItem item = sessionCookie ∧ readItems (item :: items) = none) ∨
      (∃ value, trimmedItem item = sessionCookie ++ '=' :: value ∧
        readItems (item :: items) = if value = [] then none else some (String.ofList value)) ∨
      (trimmedItem item ≠ sessionCookie ∧ ¬ sessionCookie ++ ['='] <+: trimmedItem item) ∧
        readItems (item :: items) = readItems items := by
  have hfree : '=' ∉ sessionCookie := by decide
  by_cases h : '=' ∈ trimmedItem item
  · obtain ⟨name, value, hitem, hname⟩ := List.eq_append_cons_of_mem h
    have hsplit := List.splitOn_append_cons_self_of_not_mem hname value
    rw [readItems, hitem, hsplit]
    dsimp only
    by_cases hcookie : name = sessionCookie
    · rw [if_pos hcookie, List.intercalate_splitOn, hcookie]
      exact Or.inr (Or.inl ⟨value, rfl, rfl⟩)
    · rw [if_neg hcookie]
      refine Or.inr (Or.inr ⟨⟨fun heq => ?_, ?_⟩, rfl⟩)
      · exact hfree (heq ▸ List.mem_append_right name List.mem_cons_self)
      · rintro ⟨rest, hrest⟩
        rw [List.append_assoc] at hrest
        rw [← hrest, List.cons_append, List.nil_append,
          List.splitOn_append_cons_self_of_not_mem hfree rest] at hsplit
        exact hcookie (List.cons.inj hsplit).1.symm
  · rw [readItems, List.splitOn_eq_singleton h]
    dsimp only
    by_cases hcookie : trimmedItem item = sessionCookie
    · rw [if_pos hcookie]
      exact Or.inl ⟨hcookie, rfl⟩
    · rw [if_neg hcookie]
      refine Or.inr (Or.inr ⟨⟨hcookie, ?_⟩, rfl⟩)
      rintro ⟨rest, hrest⟩
      refine h ?_
      rw [← hrest]
      simp

/-- The reader finds the token of the first cookie with the name. -/
theorem readItems_eq_some {items : List (List Char)} {token : String} :
    readItems items = some token ↔ ∃ before item after, items = before ++ item :: after ∧
      trimmedItem item = sessionCookie ++ '=' :: token.toList ∧ token ≠ "" ∧
      ∀ other ∈ before, trimmedItem other ≠ sessionCookie ∧
        ¬ sessionCookie ++ ['='] <+: trimmedItem other := by
  have hprefix : ∀ value, sessionCookie ++ ['='] <+: sessionCookie ++ '=' :: value := by
    exact fun value => ⟨value, by rw [List.append_assoc]; rfl⟩
  constructor
  · intro h
    induction items with
    | nil => cases h
    | cons first items ih =>
        rcases readItems_cons first items with ⟨-, hread⟩ | ⟨value, hvalue, hread⟩ | ⟨hother, hread⟩ <;>
          rw [hread] at h
        · cases h
        · split at h
          · cases h
          · rename_i hne
            cases h
            refine ⟨[], first, items, rfl, ?_, fun hempty => hne ?_, List.forall_mem_nil _⟩
            · rw [String.toList_ofList, hvalue]
            · rw [← String.toList_ofList (l := value), hempty]
              rfl
        · obtain ⟨before, item, after, rfl, hitem, htoken, hbefore⟩ := ih h
          exact ⟨first :: before, item, after, rfl, hitem, htoken,
            List.forall_mem_cons.mpr ⟨hother, hbefore⟩⟩
  · rintro ⟨before, item, after, rfl, hitem, htoken, hbefore⟩
    induction before with
    | nil =>
        rcases readItems_cons item after with ⟨hbare, -⟩ | ⟨value, hvalue, hread⟩ | ⟨hother, -⟩
        · have hlength := congrArg List.length (hitem.symm.trans hbare)
          rw [List.length_append, List.length_cons] at hlength
          omega
        · obtain rfl : token.toList = value :=
            (List.cons.inj (List.append_cancel_left (hitem.symm.trans hvalue))).2
          rw [List.nil_append, hread, if_neg fun h : token.toList = [] => htoken (String.toList_injective h),
            String.ofList_toList]
        · exact absurd (hitem ▸ hprefix token.toList) hother.2
    | cons first before ih =>
        obtain ⟨hfirst, hbefore⟩ := List.forall_mem_cons.mp hbefore
        rcases readItems_cons first (before ++ item :: after) with ⟨hbare, -⟩ | ⟨value, hvalue, -⟩ |
          ⟨-, hread⟩
        · exact absurd hbare hfirst.1
        · exact absurd (hvalue ▸ hprefix value) hfirst.2
        · rw [List.cons_append, hread]
          exact ih hbefore

theorem readCookie_eq_some {header : Option String} {token : String} :
    readCookie header = some token ↔ Carries header token := by
  unfold readCookie Carries
  cases header with
  | none => exact iff_of_false (fun h => by cases h) fun ⟨_, _, _, _, h, _⟩ => by cases h
  | some text =>
      have hitems : (if text = "" then none else readItems (text.toList.splitOn ';')) =
          readItems (text.toList.splitOn ';') := by
        split
        · rename_i hempty
          rw [hempty]
          rfl
        · rfl
      dsimp only
      rw [hitems, readItems_eq_some]
      constructor
      · rintro ⟨before, item, after, h⟩
        exact ⟨text, before, item, after, rfl, h⟩
      · rintro ⟨_, before, item, after, h, hrest⟩
        cases h
        exact ⟨before, item, after, hrest⟩

/-! ## Sessions -/

section Sessions

variable (env : Environment) (config : Config)

/-- The configuration after a history. -/
def inForce : List Event → Config
  | [] => config
  | .restart config' :: _ => config'
  | _ :: history => inForce history

/-- The clock that an event reads. -/
def Event.reading : Event → Option Int
  | .login _ now _ => some now
  | .request now _ => some now
  | .logout _ => none
  | .restart _ => none

/-- The clock of a request is none before the ones read so far; a login may have begun before. -/
def Ordered : List Event → Prop
  | [] => True
  | .request now _ :: history =>
      (∀ event ∈ history, ∀ time, event.reading = some time → time ≤ now) ∧ Ordered history
  | _ :: history => Ordered history

/-- A restart with the text of the last verifier has the last verifier. -/
def Unambiguous : List Event → Prop
  | [] => True
  | .restart config' :: history =>
      (verifierString config' = verifierString (inForce config history) →
        config'.verifier = (inForce config history).verifier) ∧ Unambiguous history
  | _ :: history => Unambiguous history

/-- The texts that have a digest in an event. -/
def Event.texts : Event → List String
  | .login _ _ token => [token]
  | .logout header => (readCookie header).toList
  | .request _ header => (readCookie header).toList
  | .restart config => [verifierString config]

def texts (history : List Event) : List String :=
  verifierString config :: history.flatMap Event.texts

/-- No two texts of a history have one digest. -/
def Collisionless (history : List Event) : Prop :=
  ∀ s ∈ texts config history, ∀ t ∈ texts config history,
    env.digestToken s = env.digestToken t → s = t

/-- A login makes room for its session by this token's: the table is full, and the row is one of
those that were created first. -/
def Evicts (now : Int) (token : String) (sessions : Sessions) : Prop :=
  ∃ row, evicted (pruneSessions env now sessions) = some row ∧
    row.tokenHash = env.digestToken token ∧
    maxSessionEntries ≤ (pruneSessions env now sessions).rows.length ∧
    ∀ other ∈ (pruneSessions env now sessions).rows, row.createdAt ≤ other.createdAt

/-- The events that a session does not live through as it is. -/
def Affects (s : Server) (token : String) : Event → Prop
  | .login verified now _ => verified = true ∧ Evicts env now token s.database.sessions
  | .logout header => Carries header token
  | .request _ header => Carries header token
  | .restart config' => config'.verifier ≠ s.config.verifier

/-- The session of a token after a history, with the time its login began and the time of its last
use. -/
inductive Session : List Event → String → Int → Int → Prop
  | issued {history : List Event} {now : Int} {token : String} :
      (login env true now token (state env config history).database).2 = true →
      Session (.login true now token :: history) token now now
  | kept {history : List Event} {event : Event} {token : String} {created used : Int} :
      Session history token created used →
      ¬ Affects env (state env config history) token event →
      Session (event :: history) token created used
  | used {history : List Event} {now : Int} {header : Option String} {token : String}
      {created used : Int} :
      Session history token created used → Carries header token →
      now - used ≤ env.idleTimeoutMs → now - created ≤ env.absoluteTimeoutMs →
      Session (.request now header :: history) token created now

end Sessions

/-! ## The table -/

section Table

variable {env : Environment} {now : Int} {sessions : Sessions} {row : SessionRow}

theorem expired_iff : expired env now row = true ↔
    env.idleTimeoutMs < now - row.lastSeenAt ∨ env.absoluteTimeoutMs < now - row.createdAt := by
  unfold expired
  rw [Bool.or_eq_true, decide_eq_true_eq, decide_eq_true_eq]
  omega

theorem fresh_iff : expired env now row = false ↔
    now - row.lastSeenAt ≤ env.idleTimeoutMs ∧ now - row.createdAt ≤ env.absoluteTimeoutMs := by
  rw [Bool.eq_false_iff, ne_eq, expired_iff]
  omega

theorem expired_mono {later : Int} (h : expired env now row = true) (hle : now ≤ later) :
    expired env later row = true := by
  rw [expired_iff] at h ⊢
  omega

theorem mem_pruneSessions : row ∈ (pruneSessions env now sessions).rows ↔
    row ∈ sessions.rows ∧ expired env now row = false := Table.mem_delete

theorem mem_deleteSession {tokenHash : String} : row ∈ (deleteSession tokenHash sessions).rows ↔
    row ∈ sessions.rows ∧ row.tokenHash ≠ tokenHash := by
  rw [deleteSession, Table.mem_delete, decide_eq_false_iff_not]

theorem oldest_spec {rows : List SessionRow} (h : oldest rows = some row) :
    row ∈ rows ∧ ∀ other ∈ rows, row.createdAt ≤ other.createdAt := by
  induction rows generalizing row with
  | nil => cases h
  | cons first rows ih =>
      rw [oldest] at h
      split at h
      · rename_i hnone
        cases h
        have hnil : rows = [] := by
          cases rows with
          | nil => rfl
          | cons other rows =>
              rw [oldest] at hnone
              split at hnone
              · cases hnone
              · split at hnone <;> cases hnone
        rw [hnil]
        exact ⟨List.mem_cons_self, by simp⟩
      · rename_i other hother
        obtain ⟨hmem, hle⟩ := ih hother
        split at h
        · rename_i hlt
          cases h
          exact ⟨List.mem_cons_of_mem _ hmem, List.forall_mem_cons.mpr ⟨hlt.le, hle⟩⟩
        · rename_i hlt
          cases h
          exact ⟨List.mem_cons_self, List.forall_mem_cons.mpr
            ⟨le_rfl, fun x hx => (not_lt.mp hlt).trans (hle x hx)⟩⟩

/-- The row that a login deletes. -/
theorem evicted_spec (h : evicted sessions = some row) :
    maxSessionEntries ≤ sessions.rows.length ∧ row ∈ sessions.rows ∧
      ∀ other ∈ sessions.rows, row.createdAt ≤ other.createdAt := by
  unfold evicted at h
  split at h
  · rename_i hfull
    exact ⟨hfull, oldest_spec h⟩
  · cases h

theorem mem_makeRoom : row ∈ (makeRoom env now sessions).rows ↔
    row ∈ (pruneSessions env now sessions).rows ∧
      ∀ gone, evicted (pruneSessions env now sessions) = some gone →
        row.tokenHash ≠ gone.tokenHash := by
  unfold makeRoom
  cases evicted (pruneSessions env now sessions) with
  | none => exact (and_iff_left fun _ h => by cases h).symm
  | some gone =>
      dsimp only
      rw [mem_deleteSession]
      exact and_congr_right fun _ => ⟨fun h _ heq => Option.some.inj heq ▸ h, fun h => h gone rfl⟩

theorem mem_createSession {token : String} {db : Database} :
    row ∈ (createSession env now token db).1.sessions.rows ↔
      row ∈ (makeRoom env now db.sessions).rows ∨
        (createSession env now token db).2 = true ∧ row = ⟨env.digestToken token, now, now⟩ := by
  unfold createSession
  dsimp only
  split
  · rename_i sessions hinsert
    rw [Table.mem_insert hinsert]
    exact or_congr_right (and_iff_right rfl).symm
  · exact (or_iff_left fun h => by cases h.1).symm

theorem mem_touch {tokenHash : String} : row ∈ (touch tokenHash now sessions).rows ↔
    (row ∈ sessions.rows ∧ row.tokenHash ≠ tokenHash) ∨
      ∃ old ∈ sessions.rows, old.tokenHash = tokenHash ∧ row = { old with lastSeenAt := now } := by
  unfold touch
  rw [Table.mem_update]
  constructor
  · rintro ⟨old, hold, h⟩
    by_cases hkey : old.tokenHash = tokenHash
    · rw [if_pos (by simpa using hkey)] at h
      exact Or.inr ⟨old, hold, hkey, h.symm⟩
    · rw [if_neg (by simpa using hkey)] at h
      exact Or.inl ⟨h ▸ hold, h ▸ hkey⟩
  · rintro (⟨hrow, hkey⟩ | ⟨old, hold, hkey, rfl⟩)
    · exact ⟨row, hrow, if_neg (by simpa using hkey)⟩
    · exact ⟨old, hold, if_pos (by simpa using hkey)⟩

/-- The second check of a request finds nothing that the first has left. -/
theorem isAuthenticated_cases (header : Option String) (db : Database) :
    ((∀ token, readCookie header = some token →
        ∀ row ∈ (pruneSessions env now db.sessions).rows, row.tokenHash ≠ env.digestToken token) ∧
      isAuthenticated env now header db =
        ({ db with sessions := pruneSessions env now db.sessions }, false)) ∨
    ∃ token, readCookie header = some token ∧
      (∃ row ∈ (pruneSessions env now db.sessions).rows, row.tokenHash = env.digestToken token) ∧
      isAuthenticated env now header db = ({ db with
        sessions := touch (env.digestToken token) now (pruneSessions env now db.sessions) }, true) := by
  unfold isAuthenticated
  cases readCookie header with
  | none => exact Or.inl ⟨fun _ h => (by cases h), rfl⟩
  | some token =>
      dsimp only
      cases hget : (pruneSessions env now db.sessions).get (env.digestToken token) with
      | none =>
          refine Or.inl ⟨fun _ h row hrow hkey => ?_, rfl⟩
          cases h
          rw [Table.get_eq_some_iff.mpr ⟨hrow, hkey⟩] at hget
          cases hget
      | some row =>
          obtain ⟨hrow, hkey⟩ := Table.get_eq_some_iff.mp hget
          have hfresh := (mem_pruneSessions.mp hrow).2
          rw [Bool.eq_false_iff, ne_eq, expired_iff] at hfresh
          exact Or.inr ⟨token, rfl, ⟨row, hrow, hkey⟩, if_neg hfresh⟩

theorem mem_isAuthenticated {header : Option String} {db : Database} :
    row ∈ (isAuthenticated env now header db).1.sessions.rows ↔
      (row ∈ (pruneSessions env now db.sessions).rows ∧
        ∀ token, readCookie header = some token → row.tokenHash ≠ env.digestToken token) ∨
      ∃ token old, readCookie header = some token ∧
        old ∈ (pruneSessions env now db.sessions).rows ∧
        old.tokenHash = env.digestToken token ∧ row = { old with lastSeenAt := now } := by
  rcases @isAuthenticated_cases env now header db with ⟨hnone, hrun⟩ | ⟨token, htoken, -, hrun⟩
  · rw [hrun]
    constructor
    · exact fun hrow => Or.inl ⟨hrow, fun token htoken => hnone token htoken row hrow⟩
    · rintro (⟨hrow, -⟩ | ⟨token, old, htoken, hold, hkey, -⟩)
      · exact hrow
      · exact absurd hkey (hnone token htoken old hold)
  · rw [hrun]
    refine mem_touch.trans (or_congr (and_congr_right fun _ => ?_) ?_)
    · exact ⟨fun h _ heq => Option.some.inj (htoken.symm.trans heq) ▸ h, fun h => h token htoken⟩
    · constructor
      · rintro ⟨old, hold, hkey, hrow⟩
        exact ⟨token, old, htoken, hold, hkey, hrow⟩
      · rintro ⟨token', old, htoken', hold, hkey, hrow⟩
        obtain rfl := Option.some.inj (htoken.symm.trans htoken')
        exact ⟨old, hold, hkey, hrow⟩

end Table

/-! ## Histories -/

section Histories

variable {env : Environment} {config : Config} {history : List Event}

theorem state_config : (state env config history).config = inForce config history := by
  induction history with
  | nil => rfl
  | cons event history ih =>
      cases event with
      | restart config' => rfl
      | login _ _ _ => exact ih
      | logout _ => exact ih
      | request _ _ => exact ih

variable (env config history) in
/-- The table after a history: every row is a session, and every session has its row or was found
expired. -/
structure Reflects : Prop where
  verifier : (state env config history).database.verifierHash =
    some (env.digestToken (verifierString (state env config history).config))
  sessions : ∀ row ∈ (state env config history).database.sessions.rows,
    ∃ token, env.digestToken token = row.tokenHash ∧
      Session env config history token row.createdAt row.lastSeenAt
  rows : ∀ token created used, Session env config history token created used →
    ⟨env.digestToken token, created, used⟩ ∈ (state env config history).database.sessions.rows ∨
      ∃ event ∈ history, ∃ time, event.reading = some time ∧
        expired env time ⟨env.digestToken token, created, used⟩ = true

theorem texts_cons {event : Event} {t : String} (h : t ∈ texts config history) :
    t ∈ texts config (event :: history) := by
  rcases List.mem_cons.mp h with heq | hmem
  · exact heq ▸ List.mem_cons_self
  · exact List.mem_cons_of_mem _ (List.mem_append_right _ hmem)

theorem texts_head {event : Event} {t : String} (h : t ∈ event.texts) :
    t ∈ texts config (event :: history) :=
  List.mem_cons_of_mem _ (List.mem_append_left _ h)

/-- The token of a session is one of the texts of the history. -/
theorem Session.token_mem {token : String} {created used : Int}
    (h : Session env config history token created used) : token ∈ texts config history := by
  induction h with
  | issued _ => exact texts_head List.mem_cons_self
  | kept _ _ ih => exact texts_cons ih
  | used _ _ _ _ ih => exact texts_cons ih

/-- The text of the verifier in force is one of the texts of the history. -/
theorem verifierString_mem : verifierString (inForce config history) ∈ texts config history := by
  induction history with
  | nil => exact List.mem_cons_self
  | cons event history ih =>
      cases event with
      | restart config' => exact texts_head List.mem_cons_self
      | login _ _ _ => exact texts_cons ih
      | logout _ => exact texts_cons ih
      | request _ _ => exact texts_cons ih

theorem Collisionless.tail {event : Event} (h : Collisionless env config (event :: history)) :
    Collisionless env config history :=
  fun s hs t ht => h s (texts_cons hs) t (texts_cons ht)

/-- A row found expired stays one that was found expired. -/
theorem Reflects.rows_cons {event : Event} {row : SessionRow}
    (h : row ∈ (state env config history).database.sessions.rows ∨
      ∃ event ∈ history, ∃ time, event.reading = some time ∧ expired env time row = true)
    (hstep : row ∈ (state env config history).database.sessions.rows →
      row ∈ (state env config (event :: history)).database.sessions.rows ∨
        ∃ time, event.reading = some time ∧ expired env time row = true) :
    row ∈ (state env config (event :: history)).database.sessions.rows ∨
      ∃ e ∈ event :: history, ∃ time, e.reading = some time ∧ expired env time row = true := by
  rcases h with h | ⟨e, he, hexpired⟩
  · rcases hstep h with hrow | hexpired
    · exact Or.inl hrow
    · exact Or.inr ⟨event, List.mem_cons_self, hexpired⟩
  · exact Or.inr ⟨e, List.mem_cons_of_mem _ he, hexpired⟩

theorem Reflects.login (h : Reflects env config history) (verified : Bool) (now : Int)
    (token : String) : Reflects env config (.login verified now token :: history) := by
  cases verified with
  | false =>
      refine ⟨h.verifier, fun row hrow => ?_, fun t created used hsession => ?_⟩
      · obtain ⟨t, ht, hsession⟩ := h.sessions row hrow
        exact ⟨t, ht, hsession.kept fun haffects => by cases haffects.1⟩
      · cases hsession with
        | kept hsession _ => exact Reflects.rows_cons (h.rows t created used hsession) Or.inl
  | true =>
      have hverifier : (createSession env now token
          (state env config history).database).1.verifierHash =
          (state env config history).database.verifierHash := by
        unfold createSession
        dsimp only
        split <;> rfl
      refine ⟨hverifier.trans h.verifier, fun row hrow => ?_, fun t created used hsession => ?_⟩
      · rcases mem_createSession.mp hrow with hrow | ⟨hissued, rfl⟩
        · obtain ⟨hpruned, hleft⟩ := mem_makeRoom.mp hrow
          obtain ⟨t, ht, hsession⟩ := h.sessions row (mem_pruneSessions.mp hpruned).1
          refine ⟨t, ht, hsession.kept ?_⟩
          rintro ⟨-, gone, hgone, hkey, -⟩
          exact hleft gone hgone (ht.symm.trans hkey.symm)
        · exact ⟨token, rfl, Session.issued hissued⟩
      · cases hsession with
        | issued hissued => exact Or.inl (mem_createSession.mpr (Or.inr ⟨hissued, rfl⟩))
        | kept hsession hkept =>
            refine Reflects.rows_cons (h.rows t created used hsession) fun hrow => ?_
            cases hexpired : expired env now ⟨env.digestToken t, created, used⟩ with
            | true => exact Or.inr ⟨now, rfl, hexpired⟩
            | false =>
                refine Or.inl (mem_createSession.mpr (Or.inl (mem_makeRoom.mpr
                  ⟨mem_pruneSessions.mpr ⟨hrow, hexpired⟩, fun gone hgone hkey => ?_⟩)))
                obtain ⟨hfull, -, hle⟩ := evicted_spec hgone
                exact hkept ⟨rfl, gone, hgone, hkey.symm, hfull, hle⟩

theorem Reflects.logout (h : Reflects env config history) (header : Option String)
    (hdigest : Collisionless env config (.logout header :: history)) :
    Reflects env config (.logout header :: history) := by
  have hmem : ∀ row, row ∈ (Auth.logout env header (state env config history).database).sessions.rows ↔
      row ∈ (state env config history).database.sessions.rows ∧
        ∀ token, readCookie header = some token → row.tokenHash ≠ env.digestToken token := by
    intro row
    unfold Auth.logout
    cases readCookie header with
    | none => exact (and_iff_left fun _ h => by cases h).symm
    | some token =>
        dsimp only
        rw [mem_deleteSession]
        exact and_congr_right fun _ => ⟨fun h _ heq => Option.some.inj heq ▸ h, fun h => h token rfl⟩
  refine ⟨?_, fun row hrow => ?_, fun t created used hsession => ?_⟩
  · refine Eq.trans ?_ h.verifier
    change (Auth.logout env header _).verifierHash = _
    unfold Auth.logout
    split <;> rfl
  · obtain ⟨hrow, hother⟩ := (hmem row).mp hrow
    obtain ⟨t, ht, hsession⟩ := h.sessions row hrow
    exact ⟨t, ht, hsession.kept fun hcarries =>
      hother t (readCookie_eq_some.mpr hcarries) ht.symm⟩
  · cases hsession with
    | kept hsession hkept =>
        refine Reflects.rows_cons (h.rows t created used hsession) fun hrow => Or.inl ?_
        refine (hmem _).mpr ⟨hrow, fun token htoken heq => hkept ?_⟩
        have htexts : token ∈ (Event.logout header).texts := by
          rw [Event.texts, htoken]
          exact List.mem_cons_self
        obtain rfl := hdigest t (texts_cons hsession.token_mem) token (texts_head htexts) heq
        exact readCookie_eq_some.mp htoken

theorem Reflects.request (h : Reflects env config history) (now : Int) (header : Option String)
    (hordered : Ordered (.request now header :: history))
    (hdigest : Collisionless env config (.request now header :: history)) :
    Reflects env config (.request now header :: history) := by
  have hread : ∀ token, readCookie header = some token →
      token ∈ texts config (.request now header :: history) := by
    intro token htoken
    refine texts_head ?_
    rw [Event.texts, htoken]
    exact List.mem_cons_self
  have hmem := fun row => @mem_isAuthenticated env now row header (state env config history).database
  refine ⟨?_, fun row hrow => ?_, fun t created used hsession => ?_⟩
  · refine Eq.trans ?_ h.verifier
    rcases @isAuthenticated_cases env now header (state env config history).database with
      ⟨-, hrun⟩ | ⟨_, -, -, hrun⟩
    · exact congrArg (·.1.verifierHash) hrun
    · exact congrArg (·.1.verifierHash) hrun
  · rcases (hmem row).mp hrow with ⟨hpruned, hother⟩ | ⟨token, old, htoken, hpruned, hkey, rfl⟩
    · obtain ⟨t, ht, hsession⟩ := h.sessions row (mem_pruneSessions.mp hpruned).1
      exact ⟨t, ht, hsession.kept fun hcarries =>
        hother t (readCookie_eq_some.mpr hcarries) ht.symm⟩
    · obtain ⟨hold, hfresh⟩ := mem_pruneSessions.mp hpruned
      obtain ⟨t, ht, hsession⟩ := h.sessions old hold
      obtain rfl := hdigest t (texts_cons hsession.token_mem) token (hread token htoken)
        (ht.trans hkey)
      obtain ⟨hidle, habsolute⟩ := fresh_iff.mp hfresh
      exact ⟨t, ht, hsession.used (readCookie_eq_some.mp htoken) hidle habsolute⟩
  · cases hsession with
    | kept hsession hkept =>
        refine Reflects.rows_cons (h.rows t created used hsession) fun hrow => ?_
        cases hexpired : expired env now ⟨env.digestToken t, created, used⟩ with
        | true => exact Or.inr ⟨now, rfl, hexpired⟩
        | false =>
            refine Or.inl ((hmem _).mpr (Or.inl ⟨mem_pruneSessions.mpr ⟨hrow, hexpired⟩, ?_⟩))
            intro token htoken heq
            obtain rfl := hdigest t (texts_cons hsession.token_mem) token (hread token htoken) heq
            exact hkept (readCookie_eq_some.mp htoken)
    | @used _ _ _ _ _ used hsession hcarries hidle habsolute =>
        have hfresh : expired env now ⟨env.digestToken t, created, used⟩ = false :=
          fresh_iff.mpr ⟨hidle, habsolute⟩
        rcases h.rows t created used hsession with hrow | ⟨event, hevent, time, htime, hexpired⟩
        · exact Or.inl ((hmem _).mpr (Or.inr ⟨t, _, readCookie_eq_some.mpr hcarries,
            mem_pruneSessions.mpr ⟨hrow, hfresh⟩, rfl, rfl⟩))
        · rw [expired_mono hexpired (hordered.1 event hevent time htime)] at hfresh
          cases hfresh

theorem Reflects.restart (h : Reflects env config history) (config' : Config)
    (hunambiguous : Unambiguous config (.restart config' :: history))
    (hdigest : Collisionless env config (.restart config' :: history)) :
    Reflects env config (.restart config' :: history) := by
  have hdb : (state env config (.restart config' :: history)).database =
      reconcileVerifier env config' (state env config history).database := rfl
  have hverifier := h.verifier
  rw [state_config] at hverifier
  by_cases hsame : (state env config history).database.verifierHash =
      some (env.digestToken (verifierString config'))
  · have htext : verifierString config' = verifierString (inForce config history) :=
      hdigest _ (texts_head List.mem_cons_self) _ (texts_cons verifierString_mem)
        (Option.some.inj (hsame.symm.trans hverifier))
    have hstate : (state env config (.restart config' :: history)).database =
        (state env config history).database := by
      rw [hdb]
      exact if_pos hsame
    refine ⟨?_, fun row hrow => ?_, fun t created used hsession => ?_⟩
    · rw [hstate]
      exact hsame
    · rw [hstate] at hrow
      obtain ⟨t, ht, hsession⟩ := h.sessions row hrow
      refine ⟨t, ht, hsession.kept fun hother => hother ?_⟩
      rw [state_config]
      exact hunambiguous.1 htext
    · cases hsession with
      | kept hsession _ =>
          refine Reflects.rows_cons (h.rows t created used hsession) fun hrow => Or.inl ?_
          rw [hstate]
          exact hrow
  · have hstate : (state env config (.restart config' :: history)).database =
        ⟨some (env.digestToken (verifierString config')), Table.empty⟩ := by
      rw [hdb]
      exact if_neg hsame
    refine ⟨?_, fun row hrow => ?_, fun t created used hsession => ?_⟩
    · rw [hstate]
      rfl
    · rw [hstate] at hrow
      cases hrow
    · cases hsession with
      | kept _ hkept =>
          refine absurd ?_ hsame
          have hconfig := verifierString_congr (not_not.mp hkept)
          rw [state_config] at hconfig
          rw [hverifier, hconfig]

/-- The invariant of a history whose clock never runs back. -/
theorem reflects (hordered : Ordered history) (hunambiguous : Unambiguous config history)
    (hdigest : Collisionless env config history) : Reflects env config history := by
  induction history with
  | nil =>
      refine ⟨rfl, fun row hrow => ?_, fun t created used hsession => ?_⟩
      · cases hrow
      · cases hsession
  | cons event history ih =>
      cases event with
      | login verified now token =>
          exact (ih hordered hunambiguous hdigest.tail).login verified now token
      | logout header => exact (ih hordered hunambiguous hdigest.tail).logout header hdigest
      | request now header =>
          exact (ih hordered.2 hunambiguous hdigest.tail).request now header hordered hdigest
      | restart config' =>
          exact (ih hordered hunambiguous.2 hdigest.tail).restart config' hunambiguous hdigest

/-- A request is accepted exactly when its cookie carries the token of a session that is within both
timeouts, in every history whose restarts never give another verifier the text of the last one. -/
theorem session_valid_iff {now : Int} {header : Option String}
    (hordered : Ordered (.request now header :: history))
    (hunambiguous : Unambiguous config history)
    (hdigest : Collisionless env config (.request now header :: history)) :
    (isAuthenticated env now header (state env config history).database).2 = true ↔
      ∃ token created used, Carries header token ∧
        Session env config history token created used ∧
        now - used ≤ env.idleTimeoutMs ∧ now - created ≤ env.absoluteTimeoutMs := by
  have h := reflects hordered.2 hunambiguous hdigest.tail
  have hread : ∀ token, readCookie header = some token →
      token ∈ texts config (.request now header :: history) := by
    intro token htoken
    refine texts_head ?_
    rw [Event.texts, htoken]
    exact List.mem_cons_self
  rcases @isAuthenticated_cases env now header (state env config history).database with
    ⟨hnone, hrun⟩ | ⟨token, htoken, ⟨row, hrow, hkey⟩, hrun⟩
  · rw [hrun]
    refine iff_of_false Bool.false_ne_true ?_
    rintro ⟨token, created, used, hcarries, hsession, hidle, habsolute⟩
    have hfresh : expired env now ⟨env.digestToken token, created, used⟩ = false :=
      fresh_iff.mpr ⟨hidle, habsolute⟩
    rcases h.rows token created used hsession with hrow | ⟨event, hevent, time, htime, hexpired⟩
    · exact hnone token (readCookie_eq_some.mpr hcarries) _
        (mem_pruneSessions.mpr ⟨hrow, hfresh⟩) rfl
    · rw [expired_mono hexpired (hordered.1 event hevent time htime)] at hfresh
      cases hfresh
  · rw [hrun]
    obtain ⟨hmem, hfresh⟩ := mem_pruneSessions.mp hrow
    obtain ⟨t, ht, hsession⟩ := h.sessions row hmem
    obtain rfl := hdigest t (texts_cons hsession.token_mem) token (hread token htoken)
      (ht.trans hkey)
    exact iff_of_true rfl ⟨t, row.createdAt, row.lastSeenAt, readCookie_eq_some.mp htoken, hsession,
      fresh_iff.mp hfresh⟩

end Histories

/-! ## Two projects -/

/-- SHA-256 of the texts below. -/
def sha256 (text : String) : String :=
  if text = "firebase:archive:team:ana@example.com" then
    "5aaf7b6e1a08e8ffebd5a7a1be70f2b8fc3d37370fd2ba260000eee09c39979b"
  else if text = "dGhlLWZpcnN0LXNlc3Npb24tdG9rZW4tb2YtYS1kYXk" then
    "2e30ec3497beb62d4b0751b8e07ab8956ee49442b0fb3964800a0746eddd6340"
  else text

def sevenDays : Environment := ⟨sha256, 604800000, 2592000000⟩

/-- The project `archive` with one email, and the project `archive:team` with another. -/
def archive : Config := ⟨.firebase, "", "archive", ["team:ana@example.com"], by decide⟩

def archiveTeam : Config := ⟨.firebase, "", "archive:team", ["ana@example.com"], by decide⟩

def anaCookie : Option String :=
  some "theme=dark; openlia_workspace_session=dGhlLWZpcnN0LXNlc3Npb24tdG9rZW4tb2YtYS1kYXk"

def anaLogin : Event := .login true 1000 "dGhlLWZpcnN0LXNlc3Npb24tdG9rZW4tb2YtYS1kYXk"

theorem session_valid_iff_next_request :
    (isAuthenticated sevenDays 2000 anaCookie (state sevenDays archive [anaLogin]).database).2 =
        true ↔
      ∃ token created used, Carries anaCookie token ∧
        Session sevenDays archive [anaLogin] token created used ∧
        2000 - used ≤ sevenDays.idleTimeoutMs ∧ 2000 - created ≤ sevenDays.absoluteTimeoutMs := by
  refine session_valid_iff ⟨fun event hevent time htime => ?_, trivial⟩ trivial ?_
  · obtain rfl := List.mem_singleton.mp hevent
    obtain rfl := Option.some.inj htime
    decide
  · unfold Collisionless
    decide

/-- A session survives a restart with another project and other emails. -/
theorem session_of_other_verifier :
    (isAuthenticated sevenDays 2000 anaCookie
        (state sevenDays archive [.restart archiveTeam, anaLogin]).database).2 = true ∧
      ¬ ∃ token created used, Carries anaCookie token ∧
        Session sevenDays archive [.restart archiveTeam, anaLogin] token created used ∧
        2000 - used ≤ sevenDays.idleTimeoutMs ∧ 2000 - created ≤ sevenDays.absoluteTimeoutMs := by
  refine ⟨by decide, ?_⟩
  rintro ⟨token, created, used, -, hsession, -⟩
  cases hsession with
  | kept _ hkept =>
      refine hkept fun heq => ?_
      exact absurd (Verifier.firebase.inj heq).1 (by decide)

end Openlia.Auth

import Mathlib.Tactic.Common
import Openlia.Lib.Results

/-! # Consequential permissions

One file has two readers: `permissions.ts` of the Workspace UI, which also
writes it, and `workspace_registry.py`, which the policy plugin loads. The two
YAML libraries give both the same document.
-/

namespace Openlia.Policy

open Lib

/-- A parsed document; the keys of a mapping that are no text concern neither
reader. Numbers and dates are `other`. -/
inductive Yaml where
  | null
  | bool (b : Bool)
  | str (s : String)
  | other (text : String)
  | seq (items : List Yaml)
  | map (entries : List (String × Yaml))

abbrev Mapping := List (String × Yaml)

/-- The mapping at a key, or the empty one: `x && typeof x === "object" && !Array.isArray(x)`. -/
def Mapping.object (m : Mapping) (key : String) : Mapping :=
  match m.lookup key with
  | some (.map entries) => entries
  | _ => []

inductive PermissionMode where
  | allow | ask | deny
  deriving DecidableEq, Repr

def PermissionMode.text : PermissionMode → String
  | .allow => "allow"
  | .ask => "ask"
  | .deny => "deny"

/-- `isPermissionMode`, with the mode it recognises. -/
def permissionMode : Yaml → Option PermissionMode
  | .str "allow" => some .allow
  | .str "ask" => some .ask
  | .str "deny" => some .deny
  | _ => none

@[simp] theorem permissionMode_text (m : PermissionMode) :
    permissionMode (.str m.text) = some m := by
  cases m <;> rfl

/-! ## The Workspace UI -/

structure DestructivePermissions where
  deleteRecords : PermissionMode
  overwriteRecords : PermissionMode
  deriving DecidableEq, Repr

structure ExternalPermissions where
  sendMessages : PermissionMode
  makePurchases : PermissionMode
  modifyExternalAccounts : PermissionMode
  ingestExternalContent : PermissionMode
  deriving DecidableEq, Repr

structure ScheduledPermissions where
  runBriefings : PermissionMode
  runAudits : PermissionMode
  runMonitors : PermissionMode
  deriving DecidableEq, Repr

structure ConsequentialPermissions where
  destructive : DestructivePermissions
  external : ExternalPermissions
  scheduledWork : ScheduledPermissions
  deriving DecidableEq, Repr

/-- `DEFAULT_CONSEQUENTIAL_PERMISSIONS`. -/
def ConsequentialPermissions.default : ConsequentialPermissions where
  destructive := ⟨.ask, .ask⟩
  external := ⟨.ask, .deny, .deny, .allow⟩
  scheduledWork := ⟨.allow, .allow, .allow⟩

/-- The mode at a key when there is one. -/
def Mapping.mode (m : Mapping) (key : String) (fallback : PermissionMode) : PermissionMode :=
  ((m.lookup key).bind permissionMode).getD fallback

/-- `normalizePermissions`. -/
def normalizePermissions : Yaml → ConsequentialPermissions
  | .map obj =>
      let perms := Mapping.object obj "permissions"
      let destructive := perms.object "destructive"
      let external := perms.object "external"
      let scheduled := perms.object "scheduled_work"
      let d := ConsequentialPermissions.default
      { destructive := {
          deleteRecords := destructive.mode "delete_records" d.destructive.deleteRecords
          overwriteRecords := destructive.mode "overwrite_records" d.destructive.overwriteRecords }
        external := {
          sendMessages := external.mode "send_messages" d.external.sendMessages
          makePurchases := external.mode "make_purchases" d.external.makePurchases
          modifyExternalAccounts :=
            external.mode "modify_external_accounts" d.external.modifyExternalAccounts
          ingestExternalContent :=
            external.mode "ingest_external_content" d.external.ingestExternalContent }
        scheduledWork := {
          runBriefings := scheduled.mode "run_briefings" d.scheduledWork.runBriefings
          runAudits := scheduled.mode "run_audits" d.scheduledWork.runAudits
          runMonitors := scheduled.mode "run_monitors" d.scheduledWork.runMonitors } }
  | _ => .default

structure WorkspaceError where
  message : String
  status : Nat
  code : String
  deriving DecidableEq, Repr

def invalidPermissions (message : String) : WorkspaceError :=
  ⟨message, 400, "invalid_permissions"⟩

/-- The entries of a group, checked in their order. -/
def checkEntries (groupName : String) (keys : List String) : Mapping → Except WorkspaceError Unit
  | [] => .ok ()
  | (k, v) :: rest =>
      if ¬ keys.contains k then
        .error (invalidPermissions
          ("unrecognized permission key permissions." ++ groupName ++ "." ++ k))
      else if permissionMode v = none then
        .error (invalidPermissions
          ("permissions." ++ groupName ++ "." ++ k ++ " must be 'allow', 'ask', or 'deny'"))
      else checkEntries groupName keys rest

def checkGroup (groupName : String) (keys : List String) :
    Option Yaml → Except WorkspaceError Unit
  | none => .ok ()
  | some (.map entries) => checkEntries groupName keys entries
  | some _ => .error (invalidPermissions ("permissions." ++ groupName ++ " must be an object"))

/-- The groups of an input, below `permissions` or at its top level. -/
def inputPermissions (obj : Mapping) : Mapping :=
  match obj.lookup "permissions" with
  | some (.map entries) => entries
  | _ => obj

/-- `validatePermissionsInput`. -/
def validatePermissionsInput : Yaml → Except WorkspaceError ConsequentialPermissions
  | .map obj => do
      let perms := inputPermissions obj
      checkGroup "destructive" ["delete_records", "overwrite_records"] (perms.lookup "destructive")
      checkGroup "external"
        ["send_messages", "make_purchases", "modify_external_accounts", "ingest_external_content"]
        (perms.lookup "external")
      checkGroup "scheduled_work" ["run_briefings", "run_audits", "run_monitors"]
        (perms.lookup "scheduled_work")
      pure (normalizePermissions (.map [("version", .other "1"), ("permissions", .map perms)]))
  | _ => .error (invalidPermissions "permissions payload must be an object")

/-- The document `YAML.stringify` writes. -/
def ConsequentialPermissions.toYaml (p : ConsequentialPermissions) : Yaml :=
  .map [("version", .other "1"), ("permissions", .map [
    ("destructive", .map [
      ("delete_records", .str p.destructive.deleteRecords.text),
      ("overwrite_records", .str p.destructive.overwriteRecords.text)]),
    ("external", .map [
      ("send_messages", .str p.external.sendMessages.text),
      ("make_purchases", .str p.external.makePurchases.text),
      ("modify_external_accounts", .str p.external.modifyExternalAccounts.text),
      ("ingest_external_content", .str p.external.ingestExternalContent.text)]),
    ("scheduled_work", .map [
      ("run_briefings", .str p.scheduledWork.runBriefings.text),
      ("run_audits", .str p.scheduledWork.runAudits.text),
      ("run_monitors", .str p.scheduledWork.runMonitors.text)])])]

/-- `loadConsequentialPermissions`; there may be no file. -/
def loadConsequentialPermissions : Option Yaml → ConsequentialPermissions
  | none => .default
  | some doc => normalizePermissions doc

/-- `saveConsequentialPermissions`: the file it leaves, and its answer. -/
def saveConsequentialPermissions (input : Yaml) :
    Except WorkspaceError (Yaml × ConsequentialPermissions) := do
  let validated ← validatePermissionsInput input
  pure (validated.toYaml, validated)

/-- What is saved is what the UI shows afterwards. -/
theorem normalizePermissions_toYaml (p : ConsequentialPermissions) :
    normalizePermissions p.toYaml = p := by
  simp [normalizePermissions, ConsequentialPermissions.toYaml, Mapping.object, Mapping.mode,
    List.lookup_cons]

/-! ## The policy plugin -/

/-- A destructive permission is never `allow`. -/
inductive DestructiveMode where
  | ask | deny
  deriving DecidableEq, Repr

structure Permissions where
  deleteRecords : DestructiveMode
  overwriteRecords : DestructiveMode
  sendMessages : PermissionMode
  modifyExternalCalendar : PermissionMode
  purchases : PermissionMode
  financialTransactions : PermissionMode
  enabled : Bool
  reportDestination : String
  deriving DecidableEq, Repr

/-- `DEFAULT_PERMISSIONS`. -/
def Permissions.default : Permissions where
  deleteRecords := .ask
  overwriteRecords := .ask
  sendMessages := .ask
  modifyExternalCalendar := .ask
  purchases := .ask
  financialTransactions := .ask
  enabled := true
  reportDestination := "inbox/daily-briefing"

/-- The errors of the registry, by what they report. -/
inductive PermissionsError where
  | notMapping
  | groupNotMapping (group : String)
  | invalidDestructive (key : String) (val : Yaml)
  | invalidExternal (key : String) (val : Yaml)
  | enabledNotBoolean
  | notRelativePath (field : String)
  | hiddenPath (field : String)

/-- `raw.get(key)`, where `null` is no value. -/
def Mapping.value (m : Mapping) (key : String) : Option Yaml :=
  match m.lookup key with
  | some .null => none
  | v => v

/-- A group at the top level, else the legacy one below `delegation`. -/
def rawGroup (raw : Mapping) (group : String) : Option Yaml :=
  (raw.value group).or ((raw.object "delegation").value group)

def asMapping (group : String) : Option Yaml → Except PermissionsError Mapping
  | none => .ok []
  | some (.map entries) => .ok entries
  | some _ => .error (.groupNotMapping group)

def destructivePermission (group : Mapping) (key : String) (fallback : DestructiveMode) :
    Except PermissionsError DestructiveMode :=
  match group.lookup key with
  | none => .ok fallback
  | some val =>
      match permissionMode val with
      | some .ask => .ok .ask
      | some .deny => .ok .deny
      | _ => .error (.invalidDestructive key val)

def externalPermission (group : Mapping) (key : String) (fallback : PermissionMode) :
    Except PermissionsError PermissionMode :=
  match group.lookup key with
  | none => .ok fallback
  | some val =>
      match permissionMode val with
      | some mode => .ok mode
      | none => .error (.invalidExternal key val)

/-- `[A-Za-z0-9]`. -/
def isAlnum (c : Char) : Bool :=
  ('A' ≤ c && c ≤ 'Z') || ('a' ≤ c && c ≤ 'z') || ('0' ≤ c && c ≤ '9')

/-- `[A-Za-z0-9][A-Za-z0-9._-]*`. -/
def isName : List Char → Bool
  | [] => false
  | c :: rest => isAlnum c && rest.all fun c => isAlnum c || c = '.' || c = '_' || c = '-'

/-- The text between slashes. -/
def splitSlash (s : List Char) : List (List Char) := s.splitOn '/'

/-- `_safe_relative_path`. -/
def safeRelativePath (value : Yaml) (field : String) : Except PermissionsError String :=
  match value with
  | .str s =>
      if ¬ (splitSlash s.toList).all isName then .error (.notRelativePath field)
      else if (splitSlash s.toList).any fun part => part.head? = some '.' then
        .error (.hiddenPath field)
      else .ok s
  | _ => .error (.notRelativePath field)

def enabledOf (scheduled : Mapping) : Except PermissionsError Bool :=
  match scheduled.lookup "enabled" with
  | none => .ok Permissions.default.enabled
  | some (.bool b) => .ok b
  | some _ => .error .enabledNotBoolean

/-- `_validate_and_normalize_permissions`. -/
def validateAndNormalizePermissions : Yaml → Except PermissionsError Permissions
  | .map raw => do
      let d := Permissions.default
      let destructive ← asMapping "permissions.destructive" (rawGroup raw "destructive")
      let deleteRecords ← destructivePermission destructive "delete_records" d.deleteRecords
      let overwriteRecords ←
        destructivePermission destructive "overwrite_records" d.overwriteRecords
      let external ← asMapping "permissions.external" (rawGroup raw "external")
      let sendMessages ← externalPermission external "send_messages" d.sendMessages
      let modifyExternalCalendar ←
        externalPermission external "modify_external_calendar" d.modifyExternalCalendar
      let purchases ← externalPermission external "purchases" d.purchases
      let financialTransactions ←
        externalPermission external "financial_transactions" d.financialTransactions
      let scheduled ← asMapping "permissions.scheduled_work" (Mapping.value raw "scheduled_work")
      let enabled ← enabledOf scheduled
      let reportDestination ← safeRelativePath
        ((scheduled.lookup "report_destination").getD (.str d.reportDestination))
        "permissions.scheduled_work.report_destination"
      pure { deleteRecords, overwriteRecords, sendMessages, modifyExternalCalendar, purchases,
             financialTransactions, enabled, reportDestination }
  | _ => .error .notMapping

/-- `load_permissions`; there may be no file. -/
def loadPermissions : Option Yaml → Except PermissionsError Permissions
  | none => .ok .default
  | some doc => validateAndNormalizePermissions doc

/-! ## Enforcement -/

inductive DestructiveKey where
  | deleteRecords | overwriteRecords
  deriving DecidableEq, Repr

def DestructiveKey.text : DestructiveKey → String
  | .deleteRecords => "delete_records"
  | .overwriteRecords => "overwrite_records"

inductive ExternalKey where
  | sendMessages | modifyExternalCalendar | purchases | financialTransactions
  deriving DecidableEq, Repr

def ExternalKey.text : ExternalKey → String
  | .sendMessages => "send_messages"
  | .modifyExternalCalendar => "modify_external_calendar"
  | .purchases => "purchases"
  | .financialTransactions => "financial_transactions"

inductive DirectiveAction where
  | block | approve
  deriving DecidableEq, Repr

/-- What a tool call meets; no directive lets it through. -/
structure Directive where
  action : DirectiveAction
  message : String
  ruleKey : Option String
  deriving DecidableEq, Repr

/-- `_block`. -/
def block (message : String) : Directive := ⟨.block, message, none⟩

/-- `_approve`. -/
def approve (message ruleKey : String) : Directive := ⟨.approve, message, some ruleKey⟩

namespace Permissions

variable (p : Permissions)

def destructive : DestructiveKey → DestructiveMode
  | .deleteRecords => p.deleteRecords
  | .overwriteRecords => p.overwriteRecords

def external : ExternalKey → PermissionMode
  | .sendMessages => p.sendMessages
  | .modifyExternalCalendar => p.modifyExternalCalendar
  | .purchases => p.purchases
  | .financialTransactions => p.financialTransactions

/-- `_destructive_action`. -/
def destructiveAction (key : DestructiveKey) (relativePath : String) : Option Directive :=
  match p.destructive key with
  | .deny => some (block ("OpenLia policy denies " ++ key.text ++ " for " ++ relativePath ++ "."))
  | .ask => some (approve
      ("OpenLia policy requires approval for " ++ key.text ++ " on " ++ relativePath ++ ".")
      ("openlia.policy." ++ key.text))

/-- `_external_decision`. -/
def externalDecision (key : ExternalKey) (toolName : String) : Option Directive :=
  match p.external key with
  | .allow => none
  | .deny => some (block
      ("OpenLia policy denies external action " ++ key.text ++ " (" ++ toolName ++ ")."))
  | .ask => some (approve
      ("OpenLia policy requires approval for external action " ++ key.text ++ " (" ++ toolName ++
        ").")
      ("openlia.policy." ++ key.text))

end Permissions

/-- The mode that a decision amounts to. -/
def effectiveMode : Option Directive → PermissionMode
  | none => .allow
  | some ⟨.approve, _, _⟩ => .ask
  | some ⟨.block, _, _⟩ => .deny

def DestructiveMode.mode : DestructiveMode → PermissionMode
  | .ask => .ask
  | .deny => .deny

@[simp] theorem effectiveMode_destructiveAction (p : Permissions) (key : DestructiveKey)
    (relativePath : String) :
    effectiveMode (p.destructiveAction key relativePath) = (p.destructive key).mode := by
  unfold Permissions.destructiveAction
  cases p.destructive key <;> rfl

@[simp] theorem effectiveMode_externalDecision (p : Permissions) (key : ExternalKey)
    (toolName : String) : effectiveMode (p.externalDecision key toolName) = p.external key := by
  unfold Permissions.externalDecision
  cases p.external key <;> rfl

/-- For the settings both sides know, whatever the plugin is asked about, its
decision is the mode the UI shows. -/
structure SameDecisions (shown : ConsequentialPermissions) (p : Permissions) : Prop where
  deleteRecords : ∀ relativePath, effectiveMode (p.destructiveAction .deleteRecords relativePath) =
    shown.destructive.deleteRecords
  overwriteRecords : ∀ relativePath,
    effectiveMode (p.destructiveAction .overwriteRecords relativePath) =
      shown.destructive.overwriteRecords
  sendMessages : ∀ toolName, effectiveMode (p.externalDecision .sendMessages toolName) =
    shown.external.sendMessages

theorem sameDecisions_iff {shown : ConsequentialPermissions} {p : Permissions} :
    SameDecisions shown p ↔ p.deleteRecords.mode = shown.destructive.deleteRecords ∧
      p.overwriteRecords.mode = shown.destructive.overwriteRecords ∧
      p.sendMessages = shown.external.sendMessages := by
  constructor
  · intro h
    have hd := h.deleteRecords ""
    have ho := h.overwriteRecords ""
    have hs := h.sendMessages ""
    simp only [effectiveMode_destructiveAction, effectiveMode_externalDecision] at hd ho hs
    exact ⟨hd, ho, hs⟩
  · intro ⟨hd, ho, hs⟩
    constructor
    · intro relativePath
      exact (effectiveMode_destructiveAction p _ relativePath).trans hd
    · intro relativePath
      exact (effectiveMode_destructiveAction p _ relativePath).trans ho
    · intro toolName
      exact (effectiveMode_externalDecision p _ toolName).trans hs

/-! ## Where the two readers look -/

/-- The group the plugin reads. -/
def pluginGroup (raw : Mapping) (group : String) : Mapping :=
  match rawGroup raw group with
  | some (.map entries) => entries
  | _ => []

/-- The mode the plugin finds, `ask` where there is none. -/
def enforcedMode (raw : Mapping) (group key : String) : PermissionMode :=
  (pluginGroup raw group).mode key .ask

/-- The mode the UI finds below `permissions`, `ask` where there is none. -/
def shownMode (raw : Mapping) (group key : String) : PermissionMode :=
  ((raw.object "permissions").object group).mode key .ask

/-- The settings both sides know. -/
def sharedSettings : List (String × String) :=
  [("destructive", "delete_records"), ("destructive", "overwrite_records"),
    ("external", "send_messages")]

/-- Both places of a document hold the same modes. -/
def placesAgree : Yaml → Bool
  | .map raw =>
      sharedSettings.all fun x => decide (enforcedMode raw x.1 x.2 = shownMode raw x.1 x.2)
  | _ => true

/-- An input that sets none of the shared settings to another mode than `ask`. -/
def asksThroughout : Yaml → Bool
  | .map obj =>
      sharedSettings.all fun x =>
        decide (((inputPermissions obj).object x.1).mode x.2 .ask = .ask)
  | _ => true

theorem asMapping_ok {name group : String} {raw : Mapping} {m : Mapping}
    (h : asMapping name (rawGroup raw group) = .ok m) : m = pluginGroup raw group := by
  unfold pluginGroup
  cases hr : rawGroup raw group with
  | none =>
      rw [hr] at h
      exact (Except.ok.inj h).symm
  | some y =>
      rw [hr] at h
      cases y with
      | map entries => exact (Except.ok.inj h).symm
      | _ => cases h

theorem destructivePermission_ok {group : Mapping} {key : String} {m : DestructiveMode}
    (h : destructivePermission group key .ask = .ok m) : m.mode = group.mode key .ask := by
  unfold destructivePermission at h
  unfold Mapping.mode
  cases hl : group.lookup key with
  | none =>
      rw [hl] at h
      cases h
      rfl
  | some val =>
      simp only [hl] at h
      cases hm : permissionMode val with
      | none => simp [hm] at h
      | some mode => cases mode <;> simp [hm] at h <;> simp [hm, ← h, DestructiveMode.mode]

theorem externalPermission_ok {group : Mapping} {key : String} {m : PermissionMode}
    (h : externalPermission group key .ask = .ok m) : m = group.mode key .ask := by
  unfold externalPermission at h
  unfold Mapping.mode
  cases hl : group.lookup key with
  | none =>
      rw [hl] at h
      cases h
      rfl
  | some val =>
      simp only [hl] at h
      cases hm : permissionMode val with
      | none => simp [hm] at h
      | some mode =>
          simp only [hm] at h
          cases h
          simp [hm]

/-- What the plugin enforces is what it finds in its place. -/
theorem validateAndNormalizePermissions_ok {raw : Mapping} {p : Permissions}
    (h : validateAndNormalizePermissions (.map raw) = .ok p) :
    p.deleteRecords.mode = enforcedMode raw "destructive" "delete_records" ∧
      p.overwriteRecords.mode = enforcedMode raw "destructive" "overwrite_records" ∧
      p.sendMessages = enforcedMode raw "external" "send_messages" := by
  obtain ⟨destructive, hd, h⟩ := except_bind_ok h
  obtain ⟨deleteRecords, h₁, h⟩ := except_bind_ok h
  obtain ⟨overwriteRecords, h₂, h⟩ := except_bind_ok h
  obtain ⟨external, he, h⟩ := except_bind_ok h
  obtain ⟨sendMessages, h₃, h⟩ := except_bind_ok h
  obtain ⟨modifyExternalCalendar, -, h⟩ := except_bind_ok h
  obtain ⟨purchases, -, h⟩ := except_bind_ok h
  obtain ⟨financialTransactions, -, h⟩ := except_bind_ok h
  obtain ⟨scheduled, -, h⟩ := except_bind_ok h
  obtain ⟨enabled, -, h⟩ := except_bind_ok h
  obtain ⟨reportDestination, -, h⟩ := except_bind_ok h
  cases h
  rw [asMapping_ok hd] at h₁ h₂
  rw [asMapping_ok he] at h₃
  exact ⟨destructivePermission_ok h₁, destructivePermission_ok h₂, externalPermission_ok h₃⟩

theorem normalizePermissions_shown (raw : Mapping) :
    (normalizePermissions (.map raw)).destructive.deleteRecords =
        shownMode raw "destructive" "delete_records" ∧
      (normalizePermissions (.map raw)).destructive.overwriteRecords =
        shownMode raw "destructive" "overwrite_records" ∧
      (normalizePermissions (.map raw)).external.sendMessages =
        shownMode raw "external" "send_messages" := ⟨rfl, rfl, rfl⟩

/-! ## Agreement -/

/-- The plugin finds nothing in a saved file and falls back on its defaults. -/
theorem loadPermissions_toYaml (v : ConsequentialPermissions) :
    loadPermissions (some v.toYaml) = .ok .default := rfl

/-- A saved input is what the UI would show of it. -/
theorem validatePermissionsInput_ok {obj : Mapping} {saved : ConsequentialPermissions}
    (h : validatePermissionsInput (.map obj) = .ok saved) :
    saved = normalizePermissions (.map [("permissions", .map (inputPermissions obj))]) := by
  obtain ⟨-, -, h⟩ := except_bind_ok h
  obtain ⟨-, -, h⟩ := except_bind_ok h
  obtain ⟨-, -, h⟩ := except_bind_ok h
  exact (Except.ok.inj h).symm

/-- The plugin's defaults are what was saved exactly when the input asks throughout. -/
theorem sameDecisions_default_iff {input : Yaml} {saved : ConsequentialPermissions}
    (h : validatePermissionsInput input = .ok saved) :
    SameDecisions saved .default ↔ asksThroughout input = true := by
  cases input with
  | map obj =>
      obtain ⟨hd, ho, hs⟩ :=
        normalizePermissions_shown [("permissions", .map (inputPermissions obj))]
      rw [sameDecisions_iff, validatePermissionsInput_ok h, hd, ho, hs]
      simp only [asksThroughout, sharedSettings, List.all_cons, List.all_nil, Bool.and_true,
        Bool.and_eq_true, decide_eq_true_eq]
      constructor
      · intro ⟨hd, ho, hs⟩
        exact ⟨hd.symm, ho.symm, hs.symm⟩
      · intro ⟨hd, ho, hs⟩
        exact ⟨hd.symm, ho.symm, hs.symm⟩
  | _ => cases h

/-- A saved file is accepted, and enforced exactly when the input asks
throughout. A file the plugin accepts is shown as it is enforced exactly when
both places of it agree. -/
theorem saved_permissions_enforced_iff (input doc : Yaml) :
    (∀ (file : Yaml) (saved : ConsequentialPermissions),
      saveConsequentialPermissions input = .ok (file, saved) →
      ∃ p, loadPermissions (some file) = .ok p ∧
        (SameDecisions saved p ↔ asksThroughout input = true)) ∧
    ∀ p : Permissions, loadPermissions (some doc) = .ok p →
      (SameDecisions (loadConsequentialPermissions (some doc)) p ↔ placesAgree doc = true) := by
  constructor
  · intro file saved h
    obtain ⟨validated, hv, h⟩ := except_bind_ok h
    cases h
    exact ⟨.default, loadPermissions_toYaml saved, sameDecisions_default_iff hv⟩
  · intro p h
    cases doc with
    | map raw =>
        obtain ⟨hd, ho, hs⟩ := validateAndNormalizePermissions_ok h
        obtain ⟨hd', ho', hs'⟩ := normalizePermissions_shown raw
        rw [sameDecisions_iff, hd, ho, hs, loadConsequentialPermissions, hd', ho', hs']
        simp [placesAgree, sharedSettings]
    | _ => cases h

/-- An empty input saves the defaults, and the plugin enforces them. -/
theorem saved_defaults_enforced : ∃ p,
    loadPermissions (some ConsequentialPermissions.default.toYaml) = .ok p ∧
      SameDecisions .default p := by
  obtain ⟨p, hp, h⟩ := (saved_permissions_enforced_iff (.map []) .null).1 _ _ rfl
  exact ⟨p, hp, h.2 rfl⟩

/-- `deny` for the deletion of records. -/
def denyDeletions : Yaml :=
  .map [("permissions", .map [("destructive", .map [("delete_records", .str "deny")])])]

/-- A saved `deny` is enforced as `ask`. -/
theorem saved_deny_enforced_as_ask : ∃ (file : Yaml) (saved : ConsequentialPermissions)
    (p : Permissions), saveConsequentialPermissions denyDeletions = .ok (file, saved) ∧
      loadPermissions (some file) = .ok p ∧ saved.destructive.deleteRecords = .deny ∧
      effectiveMode (p.destructiveAction .deleteRecords "notes/a.md") = .ask ∧
      ¬ SameDecisions saved p := by
  refine ⟨_, _, _, rfl, rfl, rfl, rfl, fun h => ?_⟩
  have hd : PermissionMode.ask = .deny := h.deleteRecords "notes/a.md"
  cases hd

end Openlia.Policy

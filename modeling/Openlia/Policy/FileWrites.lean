import Openlia.Policy.Patches

/-! # The gate of the file tools

What the plugin decides about a `write_file` or `patch` call, against what
carrying the call out does. Every operation is judged on the tree before the
call, so what an earlier operation of the same patch made is not seen.
-/

namespace Openlia.Policy

open Lib

def Text.show (s : Text) : String := String.ofList s

/-- A path below the root, as the messages write it. -/
def shown (relative : List Name) : String := (relativeText relative).show

/-! ## The decision -/

/-- What scheduled work may do. -/
inductive ScheduledAction where
  | generateReports | capture | triageInbox
  deriving DecidableEq, Repr

/-- Templates and schemas give the workspace its structure. -/
def isStructural (relative : List Name) : Bool :=
  ["-template.md", ".schema.json"].any fun ending =>
    ending.toList.isSuffixOf (relativeText relative)

/-- `_scheduled_path_decision`. -/
def Permissions.scheduledPathDecision (p : Permissions) (action : ScheduledAction)
    (relative : List Name) : Option Directive :=
  if ¬ p.enabled then
    some (block "OpenLia policy blocked scheduled work: scheduled_work is disabled.")
  else if isStructural relative then
    some (block ("OpenLia policy blocked scheduled structural edit on " ++ shown relative ++ "."))
  else if within relative p.reportDestination then none
  else if action ≠ .generateReports ∧
      (within relative "inbox" || within relative "sources") then none
  else
    some (block ("OpenLia policy blocked the scheduled report: its path is outside " ++
      "scheduled_work.report_destination (" ++ p.reportDestination ++ ")."))

/-- `operation in {"add", "replace"}`. -/
def OperationKind.whole : OperationKind → Bool
  | .add | .replace => true
  | _ => false

/-- The branch of `update`, `add` and `replace`. -/
def writeDecision (p : Permissions) (scheduled : Bool) (kind : OperationKind)
    (relative : List Name) (found : Bool) : Option Directive :=
  if scheduled then
    if found ∧ kind.whole then
      some (block ("OpenLia policy blocked scheduled overwrite of " ++ shown relative ++ "."))
    else p.scheduledPathDecision .generateReports relative
  else if found ∧ kind.whole ∧ ¬ isMinionPath relative then
    p.destructiveAction .overwriteRecords (shown relative)
  else none

/-- The branch of `move`, once its destination is known. -/
def moveDecision (p : Permissions) (scheduled : Bool) (relative destination : List Name)
    (found : Bool) : Option Directive :=
  if isProtectedWorkspacePath destination then
    some (block ("OpenLia policy blocked move to protected workspace path: " ++
      shown destination ++ "."))
  else if scheduled then
    some (block ("OpenLia policy blocked scheduled move from " ++ shown relative ++ " to " ++
      shown destination ++ "."))
  else if found ∧ ¬ isMinionPath destination then
    p.destructiveAction .overwriteRecords (shown destination)
  else none

section

variable {α : Type} (h : Host α) (p : Permissions) (scheduled : Bool)

/-- One operation of `_workspace_tool_decision`. -/
def operationDecision (op : Operation) : Except PathError (Option Directive) := do
  match ← h.safeWorkspaceTarget op.path with
  | none =>
      pure (some (block ("OpenLia policy blocked unsafe workspace path: " ++ op.path.show ++ ".")))
  | some (relative, found) =>
      if isProtectedWorkspacePath relative then
        pure (some (block ("OpenLia policy blocked protected workspace path: " ++
          shown relative ++ ".")))
      else match op.kind with
        | .delete =>
            if scheduled then
              pure (some (block ("OpenLia policy blocked scheduled deletion of " ++
                shown relative ++ ".")))
            else pure (p.destructiveAction .deleteRecords (shown relative))
        | .move =>
            match op.second with
            | none => pure (some (block "OpenLia policy blocked a move with no destination path."))
            | some second =>
                match ← h.safeWorkspaceTarget second with
                | none =>
                    pure (some (block ("OpenLia policy blocked unsafe move destination: " ++
                      second.show ++ ".")))
                | some (destination, found) =>
                    pure (moveDecision p scheduled relative destination found)
        | kind => pure (writeDecision p scheduled kind relative found)

/-- The loop of `_workspace_tool_decision`: the first block, else the first approval. -/
def decideOperations (pending : Option Directive) :
    List Operation → Except PathError (Option Directive)
  | [] => .ok pending
  | op :: rest => do
      match ← operationDecision h p scheduled op with
      | none => decideOperations pending rest
      | some d =>
          if d.action = .block then pure (some d)
          else decideOperations (pending.or (some d)) rest

/-- `_workspace_tool_decision`. -/
def workspaceToolDecision (tool : FileTool) (args : Args) : Except PathError (Option Directive) :=
  if calledOperations tool args = [] then
    .ok (some (block ("OpenLia policy could not determine the target path for " ++ tool.text ++
      ".")))
  else decideOperations h p scheduled none (calledOperations tool args)

end

inductive GateError where
  | permissions (e : PermissionsError)
  | path (e : PathError)

theorem mapError_eq_ok {ε ε' β : Type} {f : ε → ε'} {x : Except ε β} {b : β}
    (h : x.mapError f = .ok b) : x = .ok b := by
  cases x with
  | error e => cases h
  | ok a =>
      cases h
      rfl

/-- `decide` of the file tools. -/
def decideFileTool {α : Type} (h : Host α) (file : Option Yaml) (scheduled : Bool)
    (tool : FileTool) (args : Args) : Except GateError (Option Directive) := do
  let p ← (loadPermissions file).mapError .permissions
  (workspaceToolDecision h p scheduled tool args).mapError .path

/-! ## What no directive means -/

/-- The call goes through unasked. -/
def passes {ε : Type} : Except ε (Option Directive) → Bool
  | .ok none => true
  | _ => false

theorem eq_ok_none_of_passes {ε : Type} {x : Except ε (Option Directive)}
    (h : passes x = true) : x = .ok none := by
  cases x with
  | error e => cases h
  | ok d =>
      cases d with
      | none => rfl
      | some d => cases h

theorem destructiveAction_ne_none (p : Permissions) (key : DestructiveKey) (path : String) :
    p.destructiveAction key path ≠ none := by
  unfold Permissions.destructiveAction
  cases p.destructive key <;> simp

theorem scheduledPathDecision_eq_none {p : Permissions} {relative : List Name}
    (h : p.scheduledPathDecision .generateReports relative = none) :
    within relative p.reportDestination = true := by
  unfold Permissions.scheduledPathDecision at h
  split_ifs at h with he hs hw ha
  · exact hw
  · exact absurd rfl ha.1

section

variable {α : Type} {h : Host α} {p : Permissions} {scheduled : Bool}

theorem decideOperations_eq_none {pending : Option Directive} {ops : List Operation}
    (hd : decideOperations h p scheduled pending ops = .ok none) :
    pending = none ∧ ∀ op ∈ ops, operationDecision h p scheduled op = .ok none := by
  induction ops generalizing pending with
  | nil =>
      cases hd
      exact ⟨rfl, by simp⟩
  | cons op rest ih =>
      obtain ⟨d, hop, hd⟩ := except_bind_ok hd
      cases d with
      | none =>
          obtain ⟨hp, hrest⟩ := ih hd
          refine ⟨hp, fun o ho => ?_⟩
          rcases List.mem_cons.mp ho with rfl | ho
          · exact hop
          · exact hrest o ho
      | some d =>
          simp only at hd
          split at hd
          · cases hd
          · have hp := (ih hd).1
            cases pending <;> cases hp

end

/-! ## Harmless calls -/

section

variable {α : Type} (h : Host α) (p : Permissions) (scheduled : Bool)

/-- A place a call may name: below the root and not protected, and in the report
destination when the session is scheduled. -/
def Host.Permits (path : List Name) : Prop :=
  ∃ relative, h.relative path = some relative ∧ isProtectedWorkspacePath relative = false ∧
    (scheduled = true → within relative p.reportDestination = true)

/-- A file that no call may replace as a whole: any but those of minions, and
any at all when the session is scheduled. -/
def Host.guarded (path : List Name) : Bool :=
  scheduled || !(h.relative path).any isMinionPath

/-- What a call did that met no directive. -/
structure Harmless (run : List (Step α) × Tree Name α) : Prop where
  inside : ∀ s ∈ run.1, ∀ path ∈ s.effect.paths, h.Permits p scheduled path
  undeleted : ∀ s ∈ run.1, ∀ path, s.effect ≠ .delete path
  unmoved : scheduled = true → ∀ s ∈ run.1, ∀ source target, s.effect ≠ .move source target
  kept : ∀ s ∈ run.1, ∀ path, s.effect.written = some path → h.guarded scheduled path = true →
    s.before.content path = none
  unchanged : ∀ path, ¬ h.Permits p scheduled path → run.2.content path = h.tree.content path

end

/-- An operation sets the whole content of a guarded place where one of those
before it left a file. -/
def rewrites (guarded : List Name → Bool) : List (List Name) → List Effect → Bool
  | _, [] => false
  | produced, e :: rest =>
      (e.written.any fun path => guarded path && decide (path ∈ produced)) ||
        rewrites guarded (e.leaves produced) rest

section

variable {α : Type} {h : Host α} {p : Permissions} {scheduled : Bool}

/-- What an operation may do that meets no directive. -/
structure Clear (h : Host α) (p : Permissions) (scheduled : Bool) (e : Effect) : Prop where
  permits : ∀ path ∈ e.paths, h.Permits p scheduled path
  unlinked : ∀ path ∈ e.paths, h.tree.node path ≠ some .symlink
  undeleted : ∀ path, e ≠ .delete path
  unmoved : scheduled = true → ∀ source target, e ≠ .move source target
  absent : ∀ path, e.written = some path → h.guarded scheduled path = true →
    h.tree.node path = none

theorem node_ne_symlink_of_locate {raw : Text} {path : List Name} (hl : h.locate raw = .ok path) :
    h.tree.node path ≠ some .symlink := by
  intro hn
  have := Host.locate_noLinks hl
  simp [Host.linkAt, hn] at this

theorem writeDecision_eq_none {kind : OperationKind} {relative : List Name} {found : Bool}
    (hd : writeDecision p scheduled kind relative found = none) :
    (scheduled = true → within relative p.reportDestination = true) ∧
      (kind.whole = true → (scheduled || !isMinionPath relative) = true → found = false) := by
  unfold writeDecision at hd
  split_ifs at hd with hs hw hw
  · refine ⟨fun _ => scheduledPathDecision_eq_none hd, fun hk _ => ?_⟩
    by_contra hf
    exact hw ⟨by simpa using hf, hk⟩
  · exact absurd hd (destructiveAction_ne_none _ _ _)
  · refine ⟨fun h => absurd h hs, fun hk hm => ?_⟩
    by_contra hf
    exact hw ⟨by simpa using hf, hk, by simpa [hs] using hm⟩

theorem moveDecision_eq_none {relative destination : List Name} {found : Bool}
    (hd : moveDecision p scheduled relative destination found = none) :
    scheduled = false ∧ isProtectedWorkspacePath destination = false ∧
      (isMinionPath destination = false → found = false) := by
  unfold moveDecision at hd
  split_ifs at hd with hp hs hf
  · exact absurd hd (destructiveAction_ne_none _ _ _)
  · refine ⟨by simpa using hs, by simpa using hp, fun hm => ?_⟩
    by_contra hfound
    exact hf ⟨by simpa using hfound, by simp [hm]⟩

theorem guarded_eq {path relative : List Name} (hrel : h.relative path = some relative) :
    h.guarded scheduled path = (scheduled || !isMinionPath relative) := by
  simp [Host.guarded, hrel]

/-- The branch of `update`, `add` and `replace` is clear. -/
theorem clear_of_writeDecision {kind : OperationKind} {path relative : List Name} {e : Effect}
    (hrel : h.relative path = some relative) (hprot : isProtectedWorkspacePath relative = false)
    (hlink : h.tree.node path ≠ some .symlink)
    (hd : writeDecision p scheduled kind relative (h.tree.node path).isSome = none)
    (he : e = .update path ∨ e = .write path ∧ kind.whole = true) : Clear h p scheduled e := by
  obtain ⟨hwithin, hfound⟩ := writeDecision_eq_none hd
  have hpaths : e.paths = [path] := by
    rcases he with rfl | ⟨rfl, -⟩
    · rfl
    · rfl
  constructor
  · rw [hpaths]
    intro q hq
    rw [List.mem_singleton.mp hq]
    exact ⟨relative, hrel, hprot, hwithin⟩
  · rw [hpaths]
    intro q hq
    rwa [List.mem_singleton.mp hq]
  · rintro q rfl
    simp at he
  · rintro - source target rfl
    simp at he
  · intro q hw hg
    rcases he with rfl | ⟨rfl, hk⟩
    · cases hw
    · cases hw
      rw [guarded_eq hrel] at hg
      simpa using hfound hk hg

/-- The branch of `move` is clear. -/
theorem clear_of_moveDecision {source target relative destination : List Name}
    (hsource : h.relative source = some relative)
    (htarget : h.relative target = some destination)
    (hprot : isProtectedWorkspacePath relative = false)
    (hls : h.tree.node source ≠ some .symlink) (hlt : h.tree.node target ≠ some .symlink)
    (hd : moveDecision p scheduled relative destination (h.tree.node target).isSome = none) :
    Clear h p scheduled (.move source target) := by
  obtain ⟨rfl, hprot', hfound⟩ := moveDecision_eq_none hd
  constructor
  · intro q hq
    rcases List.mem_cons.mp hq with rfl | hq
    · exact ⟨relative, hsource, hprot, fun h => by cases h⟩
    · rw [List.mem_singleton.mp hq]
      exact ⟨destination, htarget, hprot', fun h => by cases h⟩
  · intro q hq
    rcases List.mem_cons.mp hq with rfl | hq
    · exact hls
    · rwa [List.mem_singleton.mp hq]
  · intro q hq
    cases hq
  · intro hs
    cases hs
  · intro q hw hg
    cases hw
    rw [guarded_eq htarget] at hg
    simpa using hfound (by simpa using hg)

/-- An operation that meets no directive is clear. -/
theorem clear_of_operationDecision {op : Operation} {e : Effect}
    (hd : operationDecision h p scheduled op = .ok none) (he : op.effect h = .ok (some e)) :
    Clear h p scheduled e := by
  obtain ⟨path, hpath, he⟩ := except_bind_ok he
  obtain ⟨target, ht, hd⟩ := except_bind_ok hd
  cases target with
  | none => cases hd
  | some target =>
      obtain ⟨relative, found⟩ := target
      obtain ⟨path', hpath', hrel, rfl⟩ := Host.safeWorkspaceTarget_ok ht
      obtain rfl : path = path' := Except.ok.inj (hpath.symm.trans hpath')
      have hlink := node_ne_symlink_of_locate hpath
      simp only at hd
      split at hd
      · cases hd
      rename_i hprot
      have hprot := Bool.eq_false_iff.mpr hprot
      cases hk : op.kind with
      | delete =>
          simp only [hk] at hd
          split at hd
          · cases hd
          · exact absurd (Except.ok.inj hd) (destructiveAction_ne_none _ _ _)
      | move =>
          simp only [hk] at hd he
          cases hsecond : op.second with
          | none =>
              rw [hsecond] at hd
              cases hd
          | some second =>
              simp only [hsecond] at hd he
              obtain ⟨dest, hdest, he⟩ := except_bind_ok he
              obtain ⟨target, ht₂, hd⟩ := except_bind_ok hd
              cases he
              cases target with
              | none => cases hd
              | some target =>
                  obtain ⟨destination, found⟩ := target
                  obtain ⟨dest', hdest', hrel', rfl⟩ := Host.safeWorkspaceTarget_ok ht₂
                  obtain rfl : dest = dest' := Except.ok.inj (hdest.symm.trans hdest')
                  exact clear_of_moveDecision hrel hrel' hprot hlink
                    (node_ne_symlink_of_locate hdest) (Except.ok.inj hd)
      | update =>
          simp only [hk] at hd he
          cases he
          exact clear_of_writeDecision hrel hprot hlink (Except.ok.inj hd) (.inl rfl)
      | add =>
          simp only [hk] at hd he
          cases he
          exact clear_of_writeDecision hrel hprot hlink (Except.ok.inj hd) (.inr ⟨rfl, rfl⟩)
      | replace =>
          simp only [hk] at hd he
          cases he
          exact clear_of_writeDecision hrel hprot hlink (Except.ok.inj hd) (.inr ⟨rfl, rfl⟩)

/-! ## Runs -/

/-- A tree on the way: the links are those of the start, and where the start had
nothing there is a file exactly where one was left. -/
structure Follows (h : Host α) (t : Tree Name α) (produced : List (List Name)) : Prop where
  links : ∀ q, t.node q = some .symlink ↔ h.tree.node q = some .symlink
  left : ∀ q, h.tree.node q = none → (t.content q ≠ none ↔ q ∈ produced)

theorem follows_start : Follows h h.tree [] where
  links _ := Iff.rfl
  left q hq := by simp [Tree.content, hq]

theorem Follows.effect_eq {t : Tree Name α} {produced : List (List Name)}
    (hf : Follows h t produced) (op : Operation) :
    op.effect { h with tree := t } = op.effect h := by
  have hlink : Host.linkAt { h with tree := t } = h.linkAt := by
    funext q
    have hq := hf.links q
    unfold Host.linkAt
    by_cases hs : h.tree.node q = some .symlink
    · simp only [hs, hq.mpr hs]
    · have ht : t.node q ≠ some .symlink := fun ht => hs (hq.mp ht)
      split
      · exact absurd ‹_› ht
      · rfl
  simp only [Operation.effect, Host.locate_congr (h := h) hlink rfl rfl rfl]

/-- One clear operation. -/
theorem Follows.apply {t t' : Tree Name α} {produced : List (List Name)} {e : Effect}
    {text : Option α → Option α} (hf : Follows h t produced) (hc : Clear h p scheduled e)
    (ha : e.apply t text = some t') : Follows h t' (e.leaves produced) where
  links q := by
    rw [Effect.apply_symlink ha, hf.links]
    intro path hp
    rw [ne_eq, hf.links]
    exact hc.unlinked path hp
  left q hq := Effect.mem_leaves_iff ha (hf.left q hq)

/-- What holds of the operations that were carried out from a tree on. -/
structure Ran (h : Host α) (p : Permissions) (scheduled : Bool) (t : Tree Name α)
    (produced : List (List Name)) (run : List (Step α) × Tree Name α) : Prop where
  clear : ∀ s ∈ run.1, Clear h p scheduled s.effect
  unchanged : ∀ path, ¬ h.Permits p scheduled path → run.2.content path = t.content path
  kept_iff : (∀ s ∈ run.1, ∀ path, s.effect.written = some path →
      h.guarded scheduled path = true → s.before.content path = none) ↔
    rewrites (h.guarded scheduled) produced (run.1.map Step.effect) = false

theorem Ran.nil (t : Tree Name α) (produced : List (List Name)) :
    Ran h p scheduled t produced ([], t) where
  clear := by simp
  unchanged _ _ := rfl
  kept_iff := by simp [rewrites]

/-- A clear operation before a run. The place it sets whole was empty at the
start, so a file that is there now was left by the operations before. -/
theorem Ran.cons {t t' : Tree Name α} {produced : List (List Name)} {e : Effect}
    {text : Option α → Option α} {run : List (Step α) × Tree Name α}
    (hf : Follows h t produced) (hc : Clear h p scheduled e) (ha : e.apply t text = some t')
    (hr : Ran h p scheduled t' (e.leaves produced) run) :
    Ran h p scheduled t produced (⟨t, e⟩ :: run.1, run.2) where
  clear s hs := by
    rcases List.mem_cons.mp hs with rfl | hs
    · exact hc
    · exact hr.clear s hs
  unchanged path hp := by
    rw [hr.unchanged path hp]
    refine Effect.apply_content_of_notMem ha fun hmem => hp ?_
    exact hc.permits path hmem
  kept_iff := by
    have hhead : (∀ path, e.written = some path → h.guarded scheduled path = true →
        t.content path = none) ↔
        (e.written.any fun path => h.guarded scheduled path && decide (path ∈ produced)) =
          false := by
      cases hw : e.written with
      | none => simp
      | some path =>
          cases hg : h.guarded scheduled path with
          | false => simp [hg]
          | true =>
              have hleft := hf.left path (hc.absent path hw hg)
              simp [hg, ← hleft]
    simp only [List.map_cons, rewrites, Bool.or_eq_false_iff, ← hhead, ← hr.kept_iff]
    simp only [List.forall_mem_cons]

theorem carryOut_ran {texts : Nat → Option α → Option α} {ops : List (Nat × Operation)}
    (hops : ∀ x ∈ ops, ∀ e, x.2.effect h = .ok (some e) → Clear h p scheduled e)
    {t : Tree Name α} {produced : List (List Name)} (hf : Follows h t produced) :
    Ran h p scheduled t produced (carryOut h texts t ops) := by
  induction ops generalizing t produced with
  | nil => exact .nil t produced
  | cons x rest ih =>
      obtain ⟨i, op⟩ := x
      unfold carryOut
      rw [hf.effect_eq]
      split
      · rename_i e he
        have hc := hops (i, op) (by simp) e he
        split
        · exact .nil t produced
        · rename_i t' ha
          exact .cons hf hc ha (ih (fun x hx => hops x (by simp [hx])) (hf.apply hc ha))
      · exact .nil t produced

/-- Every operation that Hermes carries out was judged. -/
theorem clear_of_workspaceToolDecision {tool : FileTool} {args : Args}
    (hd : workspaceToolDecision h p scheduled tool args = .ok none)
    {x : Nat × Operation} (hx : x ∈ calledHeaders tool args) {e : Effect}
    (he : x.2.effect h = .ok (some e)) : Clear h p scheduled e := by
  unfold workspaceToolDecision at hd
  split_ifs at hd
  · cases hd
  · have hops := (decideOperations_eq_none hd).2
    exact clear_of_operationDecision (hops x.2 (mem_calledHeaders hx)) he

theorem ran_of_decideFileTool {file : Option Yaml} {tool : FileTool} {args : Args}
    (texts : Nat → Option α → Option α) (hload : loadPermissions file = .ok p)
    (hdecide : decideFileTool h file scheduled tool args = .ok none) :
    Ran h p scheduled h.tree [] (carryOut h texts h.tree (calledHeaders tool args)) := by
  obtain ⟨p', hp', hdecide⟩ := except_bind_ok hdecide
  obtain rfl : p = p' := Except.ok.inj (hload.symm.trans (mapError_eq_ok hp'))
  have hd := mapError_eq_ok hdecide
  exact carryOut_ran (fun x hx e he => clear_of_workspaceToolDecision hd hx he) follows_start

/-- A call that meets no directive is harmless exactly when no operation of it
sets the whole content of a guarded file that an earlier one left. -/
theorem harmless_iff_not_rewrites {file : Option Yaml} {tool : FileTool} {args : Args}
    (texts : Nat → Option α → Option α) (hload : loadPermissions file = .ok p)
    (hdecide : decideFileTool h file scheduled tool args = .ok none) :
    Harmless h p scheduled (carryOut h texts h.tree (calledHeaders tool args)) ↔
      rewrites (h.guarded scheduled) []
        ((carryOut h texts h.tree (calledHeaders tool args)).1.map Step.effect) = false := by
  have hran := ran_of_decideFileTool texts hload hdecide
  rw [← hran.kept_iff]
  constructor
  · intro hh
    exact hh.kept
  · intro hkept
    exact {
      inside := fun s hs => (hran.clear s hs).permits
      undeleted := fun s hs => (hran.clear s hs).undeleted
      unmoved := fun hsched s hs => (hran.clear s hs).unmoved hsched
      kept := hkept
      unchanged := hran.unchanged }

end

/-! ## Samples -/

/-- An empty workspace below `/w`. -/
def emptyHost : Host Unit := ⟨.empty, fun _ => ⟨true, []⟩, 40, fun _ => none, ["w".toList]⟩

def patchCall (body : String) : Args :=
  ⟨.other false, .str "patch".toList, .str body.toList⟩

def addTwo : Args := patchCall "*** Add File: a.md\n+1\n*** Add File: b.md\n+2\n"

def addTwice : Args := patchCall "*** Add File: a.md\n+1\n*** Add File: a.md\n+2\n"

/-- Two new files are written without a directive, and without harm. -/
theorem harmless_addTwo : Harmless emptyHost .default false
    (carryOut emptyHost (fun _ _ => some ()) .empty (calledHeaders .patch addTwo)) := by
  have hdecide : decideFileTool emptyHost none false .patch addTwo = .ok none :=
    eq_ok_none_of_passes (by decide +kernel)
  exact (harmless_iff_not_rewrites (fun _ _ => some ()) rfl hdecide).mpr (by decide +kernel)

/-- A file added twice in one patch is replaced without a directive. -/
theorem addTwice_not_harmless :
    decideFileTool emptyHost none false .patch addTwice = .ok none ∧
      ¬ Harmless emptyHost .default false
        (carryOut emptyHost (fun _ _ => some ()) .empty (calledHeaders .patch addTwice)) := by
  have hdecide : decideFileTool emptyHost none false .patch addTwice = .ok none :=
    eq_ok_none_of_passes (by decide +kernel)
  refine ⟨hdecide, fun hh => ?_⟩
  have hkept := (ran_of_decideFileTool (fun _ _ => some ()) rfl hdecide).kept_iff.mp hh.kept
  have hrewrites : rewrites (emptyHost.guarded false) [] ((carryOut emptyHost
      (fun _ _ => some ()) .empty (calledHeaders .patch addTwice)).1.map Step.effect) = true := by
    decide +kernel
  rw [show emptyHost.tree = .empty from rfl, hrewrites] at hkept
  cases hkept

end Openlia.Policy

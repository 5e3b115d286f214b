import Openlia.Cron.Jobs
import Openlia.Lib.Results
import Openlia.Lib.Runs
import Openlia.Lib.WorkTree

/-! # What a call leaves of the jobs file

A call replaces the list of jobs of a file it recognises and writes the rest back. Creating a job
does so with a file of any shape, and updating one takes over the fields of a list.
-/

namespace Openlia.Cron

open Lib Json Crash
open Browser (trim)

/-! ## Values -/

section Members

variable {ms : List (String × Json)} {k k' : String} {v : Json}

theorem member_setMember :
    member (setMember ms k v) k' = if k' = k then some v else member ms k' := by
  unfold member
  induction ms with
  | nil =>
      rw [setMember, List.lookup_cons]
      by_cases h : k' = k
      · rw [if_pos h, beq_iff_eq.mpr h]
      · rw [if_neg h, beq_false_of_ne h]
  | cons m ms ih =>
      rw [setMember]
      by_cases hm : m.1 = k
      · rw [if_pos hm, List.lookup_cons]
        by_cases h : k' = k
        · rw [if_pos h, beq_iff_eq.mpr h]
        · rw [if_neg h, beq_false_of_ne h, List.lookup_cons, beq_false_of_ne (hm ▸ h)]
      · rw [if_neg hm, List.lookup_cons, ih, List.lookup_cons]
        by_cases h : k' = m.1
        · rw [beq_iff_eq.mpr h]
          exact (if_neg fun hk => hm (h.symm.trans hk)).symm
        · rw [beq_false_of_ne h]

theorem member_takenOver :
    member (takenOver ms) k = if k ∈ knownFields then member ms k else none := by
  unfold takenOver member
  generalize knownFields = fields
  induction fields with
  | nil => rfl
  | cons f fields ih =>
      rw [List.filterMap_cons]
      cases hf : ms.lookup f with
      | none =>
          rw [Option.map_none]
          dsimp only
          rw [ih]
          by_cases hk : k = f
          · rw [hk, hf, ite_self, ite_self]
          · simp [hk]
      | some v =>
          rw [Option.map_some]
          dsimp only
          rw [List.lookup_cons, ih]
          by_cases hk : k = f
          · rw [beq_iff_eq.mpr hk, if_pos (List.mem_cons.mpr (Or.inl hk)), hk, hf]
          · rw [beq_false_of_ne hk]
            simp [hk]

theorem storedItems_eq (xs : List Json) : storedItems xs = xs.map stored := by
  induction xs with
  | nil => rfl
  | cons x xs ih => rw [storedItems, ih, List.map_cons]

theorem member_stored : member (storedMembers ms) k = (member ms k).map stored := by
  unfold member
  induction ms with
  | nil => rfl
  | cons m ms ih =>
      rw [storedMembers, List.lookup_cons, List.lookup_cons]
      split
      · rfl
      · exact ih

mutual
theorem stored_stored : ∀ v : Json, stored (stored v) = stored v
  | .null => rfl
  | .bool _ => rfl
  | .num (.finite _ _ _) => rfl
  | .num (.infinite _) => rfl
  | .str _ => rfl
  | .arr xs => congrArg Json.arr (storedItems_stored xs)
  | .obj ms => congrArg Json.obj (storedMembers_stored ms)

theorem storedItems_stored : ∀ xs : List Json, storedItems (storedItems xs) = storedItems xs
  | [] => rfl
  | x :: xs => congrArg₂ List.cons (stored_stored x) (storedItems_stored xs)

theorem storedMembers_stored :
    ∀ ms : List (String × Json), storedMembers (storedMembers ms) = storedMembers ms
  | [] => rfl
  | m :: ms => congrArg₂ List.cons (congrArg (Prod.mk m.1) (stored_stored m.2))
      (storedMembers_stored ms)
end

end Members

/-! ## The parts of a file -/

/-- The jobs of a file of one of the two formats. -/
def jobsOf : Json → Option (List Json)
  | .arr items => some items
  | .obj members =>
      match member members "jobs" with
      | some (.arr items) => some items
      | _ => none
  | _ => none

/-- A field beside `jobs`. -/
def topField (k : String) : Json → Option Json
  | .obj members => if k = "jobs" then none else member members k
  | _ => none

def isArray : Json → Bool
  | .arr _ => true
  | _ => false

def field (k : String) : Json → Option Json
  | .obj members => member members k
  | _ => none

/-- Two files of one format with the same fields beside `jobs`. -/
structure SameRest (v v' : Json) : Prop where
  format : isArray v' = isArray v
  fields : ∀ k, topField k v' = topField k v

section Container

variable {v : Json} {container : JobsContainer} {jobs : List Json}

theorem readJobsContainer_none (h : jobsOf v = none) :
    readJobsContainer (.json v) = .ok ⟨none, []⟩ := by
  cases v with
  | arr items => cases h
  | obj members =>
      rw [jobsOf] at h
      rw [readJobsContainer]
      cases hjobs : member members "jobs" with
      | none => rfl
      | some held =>
          rw [hjobs] at h
          cases held with
          | arr items => cases h
          | obj _ => rfl
          | null => rfl
          | bool _ => rfl
          | num _ => rfl
          | str _ => rfl
  | null => rfl
  | bool _ => rfl
  | num _ => rfl
  | str _ => rfl

theorem readJobsContainer_some (h : jobsOf v = some jobs) :
    ∃ extra, readJobsContainer (.json v) = .ok ⟨extra, jobs⟩ ∧
      (stored v = v → jobs.map stored = jobs) ∧
      ∀ jobs', stored v = v → SameRest v (stored (outputData ⟨extra, jobs'⟩)) ∧
        jobsOf (stored (outputData ⟨extra, jobs'⟩)) = some (jobs'.map stored) := by
  cases v with
  | arr items =>
      obtain rfl := Option.some.inj h
      refine ⟨none, rfl, fun hstored => ?_, fun jobs' _ => ?_⟩
      · rw [stored, storedItems_eq] at hstored
        exact Json.arr.inj hstored
      · rw [outputData, stored, storedItems_eq]
        exact ⟨⟨rfl, fun _ => rfl⟩, rfl⟩
  | obj members =>
      rw [jobsOf] at h
      split at h
      · rename_i items hjobs
        obtain rfl := Option.some.inj h
        refine ⟨some (members.filter (·.1 ≠ "jobs")), ?_, fun hstored => ?_, fun jobs' hstored => ?_⟩
        · rw [readJobsContainer, hjobs]
        · rw [stored] at hstored
          have hmember := @member_stored members "jobs"
          rw [Json.obj.inj hstored, hjobs, Option.map_some, stored, storedItems_eq] at hmember
          exact (Json.arr.inj (Option.some.inj hmember)).symm
        · rw [stored] at hstored
          have hlookup : ∀ k, member (members.filter (·.1 ≠ "jobs") ++ [("jobs", .arr jobs')]) k =
              if k = "jobs" then some (.arr jobs') else member members k := by
            intro k
            have hfilter := Files.lookup_filter members (fun p => decide (p ≠ "jobs")) k
            unfold member
            rw [List.lookup_append, hfilter, List.lookup_cons]
            by_cases hk : k = "jobs"
            · rw [if_pos hk, beq_iff_eq.mpr hk, if_neg (by simp [hk]), Option.none_or]
            · rw [if_neg hk, beq_false_of_ne hk, if_pos (by simp [hk]), List.lookup_nil,
                Option.or_none]
          rw [outputData, stored]
          refine ⟨⟨rfl, fun k => ?_⟩, ?_⟩
          · rw [topField, topField, member_stored, hlookup]
            by_cases hk : k = "jobs"
            · rw [if_pos hk, if_pos hk]
            · rw [if_neg hk, if_neg hk, if_neg hk, ← member_stored, Json.obj.inj hstored]
          · rw [jobsOf, member_stored, hlookup, if_pos rfl, Option.map_some, stored,
              storedItems_eq]
      · cases h
  | null => cases h
  | bool _ => cases h
  | num _ => cases h
  | str _ => cases h

end Container

/-! ## Calls -/

inductive CronCall where
  | create (input : List (String × Json)) (call : Call)
  | update (id : String) (input : List (String × Json)) (call : Call)
  | toggle (id : String) (paused : Option Bool) (call : Call)
  | delete (id : String) (call : Call)

/-- A call without its answer. -/
def finished {α : Type} (o : Outcome JobsFile Failure α) : Outcome JobsFile Failure Unit :=
  ⟨o.trail, o.final, o.result.map fun _ => ()⟩

def CronCall.run (file : JobsFile) : CronCall → Outcome JobsFile Failure Unit
  | .create input call => finished ((createJob input call).run file)
  | .update id input call => finished ((updateJob id input call).run file)
  | .toggle id paused call => finished ((toggleJob id paused call).run file)
  | .delete id call => finished ((deleteJob id call).run file)

/-- The fields of a job that an update sets. -/
def setFields (input : List (String × Json)) : List String :=
  "updated_at" :: ["name", "prompt", "schedule", "skills", "state"].filter fun k =>
    (member input k).isSome

/-- One job, with the id, is replaced, and the fields that are not set keep their values. -/
def ReplacesJob (id : String) (set : List String) (jobs jobs' : List Json) : Prop :=
  ∃ i old new, findIndex id jobs = .ok (some i) ∧ jobs[i]? = some old ∧ jobs' = jobs.set i new ∧
    ∀ k ∉ set, field k new = field k old

/-- What may become of the jobs. -/
def CronCall.JobsChange : CronCall → List Json → List Json → Prop
  | .create _ _, jobs, jobs' => ∃ job, jobs' = jobs ++ [job]
  | .update id input _, jobs, jobs' => ReplacesJob id (setFields input) jobs jobs'
  | .toggle id _ _, jobs, jobs' => ReplacesJob id ["state", "updated_at"] jobs jobs'
  | .delete id _, jobs, jobs' => ∃ i, findIndex id jobs = .ok (some i) ∧ jobs' = jobs.eraseIdx i

/-- A call that throws changes nothing, a file that is not recognised stays as it is, and of any
other file only the named part changes. -/
def Preserves (c : CronCall) (v : Json) (o : Outcome JobsFile Failure Unit) : Prop :=
  match o.result, jobsOf v with
  | .ok _, some jobs => ∃ v' jobs', o.final = .json v' ∧ SameRest v v' ∧ jobsOf v' = some jobs' ∧
      c.JobsChange jobs jobs'
  | _, _ => o.final = .json v

/-- A text that is not blank. -/
def IsText (value : Option Json) : Prop := ∃ s, value = some (.str s) ∧ trim s ≠ ""

/-- A valid expression. -/
def IsSchedule (value : Option Json) : Prop :=
  ∃ s, value = some (.str s) ∧ trim s ≠ "" ∧ validateCronExpression (trim s) = none

/-- The fields that an update may be given. -/
structure Updates (input : List (String × Json)) : Prop where
  name : member input "name" = none ∨ IsText (member input "name")
  prompt : member input "prompt" = none ∨ IsText (member input "prompt")
  schedule : member input "schedule" = none ∨ IsSchedule (member input "schedule")
  state : member input "state" ∈ [none, some (.str "scheduled"), some (.str "paused")]

/-- The request is valid and can be written. -/
def CronCall.Valid : CronCall → Prop
  | .create input call => IsText (member input "name") ∧ IsText (member input "prompt") ∧
      IsSchedule (member input "schedule") ∧ call.fault = none
  | .update _ input call => Updates input ∧ call.fault = none
  | .toggle _ _ call => call.fault = none
  | .delete _ call => call.fault = none

/-- The condition on a valid call: a job is created in a file that is recognised, and the job that
is updated has no field beside those that are taken over. -/
def Harmless (c : CronCall) (v : Json) : Prop :=
  match c with
  | .create _ _ => jobsOf v ≠ none
  | .update id _ _ => ∀ jobs i old, jobsOf v = some jobs → findIndex id jobs = .ok (some i) →
      jobs[i]? = some old → ∀ k, field k old ≠ none → k ∈ knownFields
  | .toggle _ _ _ => True
  | .delete _ _ => True

section Steps

variable {v : Json} {id : String} {file : JobsFile}

theorem writeJobsContainer_run (fault : Option String) (container : JobsContainer)
    (file : JobsFile) :
    (∃ e, (writeJobsContainer fault container).run file = ⟨[], file, .error e⟩) ∨
      (writeJobsContainer fault container).run file =
        ⟨[.json (stored (outputData container))], .json (stored (outputData container)),
          .ok ()⟩ := by
  cases fault with
  | none => exact Or.inr rfl
  | some e => exact Or.inl ⟨_, rfl⟩

theorem existingJob_run (id : String) (file : JobsFile) :
    (∃ e, (existingJob id).run file = ⟨[], file, .error e⟩) ∨
      ∃ container i members, readJobsContainer file = .ok container ∧
        findIndex id container.jobs = .ok (some i) ∧ container.jobs[i]? = some (.obj members) ∧
        (existingJob id).run file = ⟨[], file, .ok (container, i, members)⟩ := by
  unfold existingJob
  rw [Prog.run_get_bind]
  cases hread : readJobsContainer file with
  | error e => exact Or.inl ⟨e, rfl⟩
  | ok container =>
      rw [Prog.lift_ok, Prog.pure_bind']
      cases hindex : findIndex id container.jobs with
      | error e => exact Or.inl ⟨e, rfl⟩
      | ok index =>
          rw [Prog.lift_ok, Prog.pure_bind']
          cases index with
          | none => exact Or.inl ⟨_, rfl⟩
          | some i =>
              dsimp only
              split
              · rename_i members hmembers
                exact Or.inr ⟨container, i, members, rfl, hindex, hmembers, rfl⟩
              · exact Or.inl ⟨_, rfl⟩

/-- What a call comes to: it throws and changes nothing, or the jobs of the file are written with a
change. -/
def Writes {α : Type} (file : JobsFile) (change : List Json → List Json → Prop)
    (o : Outcome JobsFile Failure α) : Prop :=
  (∃ e, o.result = .error e ∧ o.final = file) ∨
    ∃ container jobs' a, readJobsContainer file = .ok container ∧ change container.jobs jobs' ∧
      o.result = .ok a ∧ o.final = .json (stored (outputData { container with jobs := jobs' }))

section Writes

variable {α : Type} {change : List Json → List Json → Prop}

theorem Writes.finished {o : Outcome JobsFile Failure α} (h : Writes file change o) :
    Writes file change (finished o) := by
  rcases h with ⟨e, he, hfinal⟩ | ⟨container, jobs', a, hread, hchange, ha, hfinal⟩
  · refine Or.inl ⟨e, ?_, hfinal⟩
    rw [Cron.finished, he]
    rfl
  · refine Or.inr ⟨container, jobs', (), hread, hchange, ?_, hfinal⟩
    rw [Cron.finished, ha]
    rfl

theorem Writes.of_error (e : Failure) {o : Outcome JobsFile Failure α}
    (h : o = ⟨[], file, .error e⟩) : Writes file change o := by
  subst h
  exact Or.inl ⟨e, rfl, rfl⟩

theorem Writes.of_write {container : JobsContainer} {jobs' : List Json} {fault : Option String}
    {k : Unit → CronAction α} {a : α} (hread : readJobsContainer file = .ok container)
    (hchange : change container.jobs jobs') (hk : ∀ s, (k ()).run s = ⟨[], s, .ok a⟩) :
    Writes file change ((writeJobsContainer fault { container with jobs := jobs' } >>= k).run
      file) := by
  rcases writeJobsContainer_run fault { container with jobs := jobs' } file with ⟨e, he⟩ | hok
  · refine Writes.of_error e ?_
    rw [Prog.run_bind_error (congrArg Outcome.result he), he]
  · refine Or.inr ⟨container, jobs', a, hread, hchange, ?_⟩
    rw [Prog.run_bind_eq hok (hk _)]
    exact ⟨rfl, rfl⟩

/-- A call on one job: the job is found, computed anew and written. -/
theorem Writes.of_job {k : JobsContainer × Nat × List (String × Json) → CronAction α}
    (hk : ∀ container i members, readJobsContainer file = .ok container →
      findIndex id container.jobs = .ok (some i) → container.jobs[i]? = some (.obj members) →
      Writes file change ((k (container, i, members)).run file)) :
    Writes file change ((existingJob id >>= k).run file) := by
  rcases existingJob_run id file with ⟨e, he⟩ | ⟨container, i, members, hread, hindex, hjob, hrun⟩
  · refine Writes.of_error e ?_
    rw [Prog.run_bind_error (congrArg Outcome.result he), he]
  · have hwrites := hk container i members hread hindex hjob
    rw [Prog.run_bind_ok (congrArg Outcome.result hrun), hrun]
    exact hwrites

end Writes

theorem createJob_writes (input : List (String × Json)) (call : Call) (file : JobsFile) :
    Writes file (fun jobs jobs' => ∃ job, jobs' = jobs ++ [job])
      ((createJob input call).run file) := by
  unfold createJob
  cases hname : requiredText (member input "name") "Job name is required" "missing_name" with
  | error e => exact Writes.of_error e rfl
  | ok name =>
      rw [Prog.lift_ok, Prog.pure_bind']
      cases hprompt : requiredText (member input "prompt") "Job prompt is required"
          "missing_prompt" with
      | error e => exact Writes.of_error e rfl
      | ok prompt =>
          rw [Prog.lift_ok, Prog.pure_bind']
          cases hschedule : requiredText (member input "schedule")
              "Schedule expression is required" "missing_schedule" with
          | error e => exact Writes.of_error e rfl
          | ok schedule =>
              rw [Prog.lift_ok, Prog.pure_bind']
              cases hvalid : validateCronExpression schedule with
              | some e => exact Writes.of_error _ rfl
              | none =>
                  dsimp only
                  rw [Prog.run_get_bind]
                  cases hread : readJobsContainer file with
                  | error e => exact Writes.of_error e rfl
                  | ok container =>
                      rw [Prog.lift_ok, Prog.pure_bind']
                      exact Writes.of_write hread ⟨_, rfl⟩ fun _ => rfl

theorem updateJob_writes (id : String) (input : List (String × Json)) (call : Call)
    (file : JobsFile) :
    Writes file (fun jobs jobs' => ∃ i existing updated,
        findIndex id jobs = .ok (some i) ∧ jobs[i]? = some (.obj existing) ∧
        updatedJob input existing call.now = .ok updated ∧ jobs' = jobs.set i (.obj updated))
      ((updateJob id input call).run file) := by
  refine Writes.of_job fun container i existing hread hindex hjob => ?_
  dsimp only
  cases hupdated : updatedJob input existing call.now with
  | error e => exact Writes.of_error e rfl
  | ok updated =>
      rw [Prog.lift_ok, Prog.pure_bind']
      exact Writes.of_write hread ⟨i, existing, updated, hindex, hjob, hupdated, rfl⟩ fun _ => rfl

theorem toggleJob_writes (id : String) (paused : Option Bool) (call : Call) (file : JobsFile) :
    Writes file (fun jobs jobs' => ∃ i job,
        findIndex id jobs = .ok (some i) ∧ jobs[i]? = some (.obj job) ∧
        jobs' = jobs.set i (.obj (setMember (setMember job "state"
          (.str (targetState paused job))) "updated_at" (.str call.now))))
      ((toggleJob id paused call).run file) :=
  Writes.of_job fun _ i job hread hindex hjob =>
    Writes.of_write hread ⟨i, job, hindex, hjob, rfl⟩ fun _ => rfl

theorem deleteJob_writes (id : String) (call : Call) (file : JobsFile) :
    Writes file (fun jobs jobs' => ∃ i, findIndex id jobs = .ok (some i) ∧ jobs' = jobs.eraseIdx i)
      ((deleteJob id call).run file) := by
  refine Writes.of_job fun container i _ hread hindex _ => ?_
  rcases writeJobsContainer_run call.fault
    { container with jobs := container.jobs.eraseIdx i } file with ⟨e, he⟩ | hok
  · exact Writes.of_error e he
  · exact Or.inr ⟨container, _, (), hread, ⟨i, hindex, rfl⟩, congrArg Outcome.result hok,
      congrArg Outcome.final hok⟩

end Steps

/-! ## Steps -/

section Fields

variable {input existing updated updated' : List (String × Json)} {k field : String}

/-- A stage of an update changes one field, and only where the request has it. -/
def Stage (input : List (String × Json)) (field : String) (updated updated' : List (String × Json)) :
    Prop :=
  ∀ k, k ≠ field ∨ member input field = none → member updated' k = member updated k

theorem Stage.set {v : Json} {w : Json} (h : member input field = some w) :
    Stage input field updated (setMember updated field v) := by
  intro k hk
  rw [member_setMember, if_neg]
  rintro rfl
  rcases hk with hk | hk
  · exact hk rfl
  · rw [h] at hk
    cases hk

theorem updateText_stage {empty emptyCode : String}
    (h : updateText input field empty emptyCode updated = .ok updated') :
    Stage input field updated updated' := by
  unfold updateText at h
  split at h
  · cases h
    exact fun _ _ => rfl
  · rename_i v hv
    obtain ⟨text, -, h⟩ := except_bind_eq_ok h
    split at h
    · cases h
    · cases h
      exact Stage.set hv

theorem updateSchedule_stage (h : updateSchedule input existing updated = .ok updated') :
    Stage input "schedule" updated updated' := by
  unfold updateSchedule at h
  split at h
  · cases h
    exact fun _ _ => rfl
  · rename_i v hv
    obtain ⟨text, -, h⟩ := except_bind_eq_ok h
    split at h
    · cases h
    · split at h
      · cases h
      · cases h
        exact Stage.set hv

theorem updateSkills_stage : Stage input "skills" updated (updateSkills input updated) := by
  unfold updateSkills
  split
  · exact fun _ _ => rfl
  · rename_i v hv
    exact Stage.set hv

theorem updateState_stage (h : updateState input updated = .ok updated') :
    Stage input "state" updated updated' := by
  unfold updateState at h
  split at h
  · cases h
    exact fun _ _ => rfl
  · rename_i s hs
    split at h
    · cases h
    · cases h
      exact Stage.set hs
  · cases h

/-- A field that is not set is taken over, if it is in the list. -/
theorem updatedJob_member {now : String} (h : updatedJob input existing now = .ok updated)
    (hk : k ∉ setFields input) :
    member updated k = if k ∈ knownFields then member existing k else none := by
  obtain ⟨named, hnamed, h⟩ := except_bind_eq_ok h
  obtain ⟨prompted, hprompted, h⟩ := except_bind_eq_ok h
  obtain ⟨scheduled, hscheduled, h⟩ := except_bind_eq_ok h
  obtain ⟨stated, hstated, h⟩ := except_bind_eq_ok h
  cases h
  have hnot : ∀ f ∈ ["name", "prompt", "schedule", "skills", "state"],
      k ≠ f ∨ member input f = none := by
    intro f hf
    rw [or_iff_not_imp_left]
    intro hkf
    obtain rfl := not_not.mp hkf
    rw [← Option.not_isSome_iff_eq_none]
    exact fun hsome => hk (List.mem_cons_of_mem _ (List.mem_filter.mpr ⟨hf, hsome⟩))
  rw [member_setMember, if_neg fun heq : k = "updated_at" => hk (heq ▸ List.mem_cons_self),
    updateState_stage hstated k (hnot "state" (by simp)),
    updateSkills_stage k (hnot "skills" (by simp)),
    updateSchedule_stage hscheduled k (hnot "schedule" (by simp)),
    updateText_stage hprompted k (hnot "prompt" (by simp)),
    updateText_stage hnamed k (hnot "name" (by simp)), member_takenOver]

theorem setFields_known (h : k ∈ setFields input) : k ∈ knownFields := by
  rcases List.mem_cons.mp h with rfl | h
  · decide
  · have hsub : ∀ f ∈ ["name", "prompt", "schedule", "skills", "state"], f ∈ knownFields := by
      decide
    exact hsub k (List.mem_filter.mp h).1

end Fields

section Valid

variable {α : Type} {input existing updated : List (String × Json)} {field : String} {v : Json}

theorem trimmed_ok {value : Json} {text : String} :
    trimmed value = .ok text ↔ ∃ s, value = .str s ∧ text = trim s := by
  cases value <;> simp [trimmed, eq_comm]

theorem requiredText_ok {value : Option Json} {message code text : String} :
    requiredText value message code = .ok text ↔
      ∃ s, value = some (.str s) ∧ trim s ≠ "" ∧ text = trim s := by
  unfold requiredText
  rcases value with _ | v
  · simp [trimmedText, refused, bind, Except.bind]
  · cases v with
    | str s =>
        by_cases hs : trim s = ""
        · simp [trimmedText, trimmed, hs, bind, Except.bind, Except.map]
        · simp only [trimmedText, trimmed, hs, bind, Except.bind, Except.map, if_false]
          constructor
          · rintro ⟨⟩
            exact ⟨s, rfl, hs, rfl⟩
          · rintro ⟨_, ⟨⟩, -, rfl⟩
            rfl
    | _ => simp [trimmedText, trimmed, bind, Except.bind, Except.map]

theorem updateText_ok {empty emptyCode : String} :
    (∃ u, updateText input field empty emptyCode updated = .ok u) ↔
      (member input field = none ∨ IsText (member input field)) := by
  unfold updateText IsText
  cases member input field with
  | none => simp
  | some v =>
      dsimp only
      cases ht : trimmed v with
      | error e =>
          refine iff_of_false (fun ⟨_, h⟩ => by cases h) ?_
          rintro (h | ⟨s, h, -⟩)
          · cases h
          · cases h
            cases ht
      | ok text =>
          obtain ⟨s, rfl, rfl⟩ := trimmed_ok.mp ht
          by_cases hs : trim s = "" <;> simp [hs, bind, Except.bind]

theorem updateSchedule_ok :
    (∃ u, updateSchedule input existing updated = .ok u) ↔
      (member input "schedule" = none ∨ IsSchedule (member input "schedule")) := by
  unfold updateSchedule IsSchedule
  cases member input "schedule" with
  | none => simp
  | some v =>
      dsimp only
      cases ht : trimmed v with
      | error e =>
          refine iff_of_false (fun ⟨_, h⟩ => by cases h) ?_
          rintro (h | ⟨s, h, -⟩)
          · cases h
          · cases h
            cases ht
      | ok text =>
          obtain ⟨s, rfl, rfl⟩ := trimmed_ok.mp ht
          by_cases hs : trim s = ""
          · simp [hs, bind, Except.bind]
          · cases hv : validateCronExpression (trim s) <;> simp [hs, hv, bind, Except.bind]

theorem updateState_ok :
    (∃ u, updateState input updated = .ok u) ↔
      member input "state" ∈ [none, some (.str "scheduled"), some (.str "paused")] := by
  unfold updateState
  split
  · rename_i h
    simp [h]
  · rename_i s h
    rw [h]
    split
    · rename_i hs
      simp [hs]
    · rename_i hs
      refine iff_of_true ⟨_, rfl⟩ ?_
      by_cases hsched : s = "scheduled"
      · simp [hsched]
      · have : s = "paused" := by
          by_contra hp
          exact hs ⟨hsched, hp⟩
        simp [this]
  · rename_i v hv h
    rw [h]
    refine iff_of_false (fun ⟨_, h⟩ => by cases h) ?_
    simp only [List.mem_cons, Option.some.injEq, List.not_mem_nil, reduceCtorEq, false_or, or_false]
    rintro (h | h)
    · exact hv _ h
    · exact hv _ h

theorem updatedJob_ok {now : String} :
    (∃ u, updatedJob input existing now = .ok u) ↔ Updates input := by
  constructor
  · rintro ⟨u, h⟩
    obtain ⟨named, hnamed, h⟩ := except_bind_eq_ok h
    obtain ⟨prompted, hprompted, h⟩ := except_bind_eq_ok h
    obtain ⟨scheduled, hscheduled, h⟩ := except_bind_eq_ok h
    obtain ⟨stated, hstated, -⟩ := except_bind_eq_ok h
    exact ⟨updateText_ok.mp ⟨_, hnamed⟩, updateText_ok.mp ⟨_, hprompted⟩,
      updateSchedule_ok.mp ⟨_, hscheduled⟩, updateState_ok.mp ⟨_, hstated⟩⟩
  · intro h
    unfold updatedJob
    obtain ⟨named, hnamed⟩ := updateText_ok.mpr h.name
    rw [hnamed, ok_bind]
    obtain ⟨prompted, hprompted⟩ := updateText_ok.mpr h.prompt
    rw [hprompted, ok_bind]
    obtain ⟨scheduled, hscheduled⟩ := updateSchedule_ok.mpr h.schedule
    rw [hscheduled, ok_bind]
    obtain ⟨stated, hstated⟩ := updateState_ok.mpr h.state
    rw [hstated, ok_bind]
    exact ⟨_, rfl⟩
theorem result_finished {o : Outcome JobsFile Failure α} :
    (finished o).result = .ok () ↔ ∃ a, o.result = .ok a := by
  unfold finished
  cases o.result with
  | error e => exact iff_of_false (fun h => by cases h) fun ⟨_, h⟩ => by cases h
  | ok a => exact iff_of_true rfl ⟨a, rfl⟩

/-- The record with an id is an object. -/
theorem findIndex_obj {id : String} {jobs : List Json} {i : Nat} {old : Json}
    (hindex : findIndex id jobs = .ok (some i)) (hold : jobs[i]? = some old) :
    ∃ members, old = .obj members := by
  induction jobs generalizing i with
  | nil => cases hindex
  | cons job jobs ih =>
      obtain ⟨found, hfound, hindex⟩ := except_bind_eq_ok hindex
      cases found with
      | true =>
          cases hindex
          obtain rfl := Option.some.inj hold
          cases job with
          | obj members => exact ⟨members, rfl⟩
          | _ => cases hfound
      | false =>
          cases hrest : findIndex id jobs with
          | error e =>
              rw [hrest] at hindex
              cases hindex
          | ok rest =>
              rw [hrest] at hindex
              cases rest with
              | none => cases hindex
              | some j =>
                  cases hindex
                  exact ih hrest hold

theorem readJobsContainer_json (v : Json) :
    ∃ container, readJobsContainer (.json v) = .ok container := by
  cases hjobs : jobsOf v with
  | none => exact ⟨_, readJobsContainer_none hjobs⟩
  | some jobs =>
      obtain ⟨extra, hread, -⟩ := readJobsContainer_some hjobs
      exact ⟨_, hread⟩

theorem writeJobsContainer_ok {fault : Option String} {container : JobsContainer}
    {file : JobsFile} {a : α} :
    (∃ b, ((writeJobsContainer fault container >>= fun _ => pure a).run file).result = .ok b) ↔
      fault = none := by
  cases fault with
  | none => exact iff_of_true ⟨a, rfl⟩ rfl
  | some e => exact iff_of_false (fun ⟨_, h⟩ => by cases h) (Option.some_ne_none e)

/-- A text that is required is there, or the call fails. -/
theorem lift_requiredText {value : Option Json} {message code : String} {k : String → CronAction α}
    {file : JobsFile} :
    (∃ a, ((Prog.lift (requiredText value message code) >>= k).run file).result = .ok a) ↔
      ∃ s, value = some (.str s) ∧ trim s ≠ "" ∧ ∃ a, ((k (trim s)).run file).result = .ok a := by
  cases htext : requiredText value message code with
  | error e =>
      refine iff_of_false (fun ⟨_, h⟩ => by cases h) ?_
      rintro ⟨s, hs, hblank, -⟩
      rw [requiredText_ok.mpr ⟨s, hs, hblank, rfl⟩] at htext
      cases htext
  | ok text =>
      obtain ⟨s, hs, hblank, rfl⟩ := requiredText_ok.mp htext
      rw [Prog.lift_ok, Prog.pure_bind']
      constructor
      · exact fun h => ⟨s, hs, hblank, h⟩
      · rintro ⟨s', hs', -, h⟩
        cases hs.symm.trans hs'
        exact h

theorem createJob_valid (input : List (String × Json)) (call : Call) (v : Json) :
    (CronCall.run (.json v) (.create input call)).result = .ok () ↔
      (CronCall.create input call).Valid := by
  obtain ⟨container, hread⟩ := readJobsContainer_json v
  unfold CronCall.run createJob CronCall.Valid IsText IsSchedule
  rw [result_finished, lift_requiredText]
  simp only [lift_requiredText]
  constructor
  · rintro ⟨name, hname, hnamed, prompt, hprompt, hprompted, expr, hexpr, hblank, h⟩
    refine ⟨⟨name, hname, hnamed⟩, ⟨prompt, hprompt, hprompted⟩, ?_⟩
    cases hvalid : validateCronExpression (trim expr) with
    | some e =>
        obtain ⟨_, h⟩ := h
        rw [hvalid] at h
        cases h
    | none =>
        rw [hvalid] at h
        dsimp only at h
        rw [Prog.run_get_bind, hread, Prog.lift_ok, Prog.pure_bind', writeJobsContainer_ok] at h
        exact ⟨⟨expr, hexpr, hblank, hvalid⟩, h⟩
  · rintro ⟨⟨name, hname, hnamed⟩, ⟨prompt, hprompt, hprompted⟩, ⟨expr, hexpr, hblank, hvalid⟩, h⟩
    refine ⟨name, hname, hnamed, prompt, hprompt, hprompted, expr, hexpr, hblank, ?_⟩
    rw [hvalid]
    dsimp only
    rw [Prog.run_get_bind, hread, Prog.lift_ok, Prog.pure_bind', writeJobsContainer_ok]
    exact h

theorem updateJob_valid {id : String} {call : Call} {jobs : List Json} {i : Nat}
    (hjobs : jobsOf v = some jobs) (hindex : findIndex id jobs = .ok (some i))
    (hjob : jobs[i]? = some (.obj existing)) :
    (CronCall.run (.json v) (.update id input call)).result = .ok () ↔
      (CronCall.update id input call).Valid := by
  obtain ⟨extra, hread, -⟩ := readJobsContainer_some hjobs
  have hfound : (existingJob id).run (.json v) =
      ⟨[], .json v, .ok (⟨extra, jobs⟩, i, existing)⟩ := by
    unfold existingJob
    rw [Prog.run_get_bind, hread, Prog.lift_ok, Prog.pure_bind', hindex, Prog.lift_ok,
      Prog.pure_bind']
    dsimp only
    rw [hjob]
    rfl
  unfold CronCall.run updateJob CronCall.Valid
  rw [result_finished, Prog.run_bind_ok (congrArg Outcome.result hfound), hfound]
  dsimp only
  rw [← @updatedJob_ok input existing call.now]
  cases updatedJob input existing call.now with
  | error e => exact iff_of_false (fun ⟨_, h⟩ => by cases h) fun ⟨⟨_, h⟩, _⟩ => by cases h
  | ok updated =>
      rw [Prog.lift_ok, Prog.pure_bind', writeJobsContainer_ok]
      exact (and_iff_right ⟨updated, rfl⟩).symm

/-- What a valid call has to meet, a call that succeeds has to. -/
theorem valid_harmless (c : CronCall) (v : Json) :
    (c.Valid → Harmless c v) ↔ ((c.run (.json v)).result = .ok () → Harmless c v) := by
  cases c with
  | create input call => rw [createJob_valid]
  | update id input call =>
      have hobj : ∀ jobs i old, jobsOf v = some jobs → findIndex id jobs = .ok (some i) →
          jobs[i]? = some old → ((CronCall.run (.json v) (.update id input call)).result = .ok () ↔
            (CronCall.update id input call).Valid) := by
        intro jobs i old hjobs hindex hjob
        obtain ⟨existing, rfl⟩ := findIndex_obj hindex hjob
        exact updateJob_valid hjobs hindex hjob
      constructor
      · intro h hok jobs i old hjobs hindex hjob
        exact h ((hobj jobs i old hjobs hindex hjob).mp hok) jobs i old hjobs hindex hjob
      · intro h hvalid jobs i old hjobs hindex hjob
        exact h ((hobj jobs i old hjobs hindex hjob).mpr hvalid) jobs i old hjobs hindex hjob
  | toggle _ _ _ => exact iff_of_true (fun _ => trivial) fun _ => trivial
  | delete _ _ => exact iff_of_true (fun _ => trivial) fun _ => trivial

end Valid

section Steps

variable {v : Json} {change : List Json → List Json → Prop} {o : Outcome JobsFile Failure Unit}

/-- What a call makes of a file whose numbers are all finite. -/
theorem Writes.json (h : Writes (.json v) change o) (hstored : stored v = v) :
    (∃ e, o.result = .error e ∧ o.final = .json v) ∨
    o.result = .ok () ∧ ∃ v', o.final = .json v' ∧ stored v' = v' ∧ ∃ jobs',
      jobsOf v' = some (jobs'.map stored) ∧
      ((∃ jobs, jobsOf v = some jobs ∧ jobs.map stored = jobs ∧ SameRest v v' ∧
          change jobs jobs') ∨
        jobsOf v = none ∧ change [] jobs') := by
  rcases h with ⟨e, he, hfinal⟩ | ⟨container, jobs', a, hread, hchange, ha, hfinal⟩
  · exact Or.inl ⟨e, he, hfinal⟩
  · refine Or.inr ⟨ha, _, hfinal, stored_stored _, jobs', ?_⟩
    cases hjobs : jobsOf v with
    | none =>
        obtain rfl := Except.ok.inj (hread.symm.trans (readJobsContainer_none hjobs))
        rw [outputData, stored, storedItems_eq]
        exact ⟨rfl, Or.inr ⟨rfl, hchange⟩⟩
    | some jobs =>
        obtain ⟨extra, hread', hfixed, hwritten⟩ := readJobsContainer_some hjobs
        obtain rfl := Except.ok.inj (hread.symm.trans hread')
        obtain ⟨hrest, hjobs'⟩ := hwritten jobs' hstored
        exact ⟨hjobs', Or.inl ⟨jobs, rfl, hfixed hstored, hrest, hchange⟩⟩

theorem map_stored_set {jobs : List Json} (hfixed : jobs.map stored = jobs) (i : Nat) (job : Json) :
    (jobs.set i job).map stored = jobs.set i (stored job) := by
  rw [List.map_set, hfixed]

theorem getElem?_stored {jobs : List Json} (hfixed : jobs.map stored = jobs) {i : Nat} {job : Json}
    (h : jobs[i]? = some job) : stored job = job := by
  have hmap := congrArg (·[i]?) hfixed
  simp only [List.getElem?_map, h, Option.map_some] at hmap
  exact Option.some.inj hmap

theorem findIndex_nil {id : String} {i : Nat} : findIndex id [] ≠ .ok (some i) := by
  rintro ⟨⟩

/-- A job that is replaced keeps what is not set when the fields of the new record are those of the
old. -/
theorem replacesJob_iff {id : String} {set : List String} {jobs : List Json} {i : Nat}
    {old new : Json} (hindex : findIndex id jobs = .ok (some i)) (hold : jobs[i]? = some old) :
    ReplacesJob id set jobs (jobs.set i new) ↔ ∀ k ∉ set, field k new = field k old := by
  constructor
  · rintro ⟨i', old', new', hindex', hold', heq, hfields⟩
    obtain rfl := Option.some.inj (Except.ok.inj (hindex.symm.trans hindex'))
    obtain rfl := Option.some.inj (hold.symm.trans hold')
    have hlt := (List.getElem?_eq_some_iff.mp hold).1
    have hnew := congrArg (·[i]?) heq
    simp only [List.getElem?_set_self hlt] at hnew
    obtain rfl := Option.some.inj hnew
    exact hfields
  · exact fun h => ⟨i, old, new, hindex, hold, rfl, h⟩

/-- The step lemma: a call preserves the file exactly when it throws or meets its condition, and the
numbers of the file stay finite. -/
theorem call_preserves (c : CronCall) (hstored : stored v = v) :
    (Preserves c v (c.run (.json v)) ↔
        ((c.run (.json v)).result = .ok () → Harmless c v)) ∧
      ∃ v', (c.run (.json v)).final = .json v' ∧ stored v' = v' := by
  have herror : ∀ e, (c.run (.json v)).result = .error e → (c.run (.json v)).final = .json v →
      (Preserves c v (c.run (.json v)) ↔
          ((c.run (.json v)).result = .ok () → Harmless c v)) ∧
        ∃ v', (c.run (.json v)).final = .json v' ∧ stored v' = v' := by
    intro e he hfinal
    refine ⟨⟨fun _ hok => ?_, fun _ => ?_⟩, v, hfinal, hstored⟩
    · rw [he] at hok
      cases hok
    · unfold Preserves
      rw [he]
      exact hfinal
  have hwritten : ∀ {v' : Json} {jobs jobs' : List Json}, (c.run (.json v)).result = .ok () →
      jobsOf v = some jobs → (c.run (.json v)).final = .json v' → SameRest v v' →
      jobsOf v' = some jobs' → (Preserves c v (c.run (.json v)) ↔ c.JobsChange jobs jobs') := by
    intro v' jobs jobs' hok hjobs hfinal hrest hjobs'
    unfold Preserves
    rw [hok, hjobs]
    dsimp only
    constructor
    · rintro ⟨v'', jobs'', hfinal', -, hjobs'', hchange⟩
      obtain rfl := JobsFile.json.inj (hfinal.symm.trans hfinal')
      obtain rfl := Option.some.inj (hjobs'.symm.trans hjobs'')
      exact hchange
    · exact fun hchange => ⟨v', jobs', hfinal, hrest, hjobs', hchange⟩
  cases c with
  | create input call =>
      rcases (createJob_writes input call (.json v)).finished.json hstored with
        ⟨e, he, hfinal⟩ | ⟨hok, v', hfinal, hstored', jobs', hjobs', hcase⟩
      · exact herror e he hfinal
      · refine ⟨?_, v', hfinal, hstored'⟩
        rcases hcase with ⟨jobs, hjobs, hfixed, hrest, job, rfl⟩ | ⟨hjobs, -⟩
        · refine (hwritten hok hjobs hfinal hrest hjobs').trans (iff_of_true ?_ fun _ => ?_)
          · exact ⟨stored job, by rw [List.map_append, hfixed]; rfl⟩
          · rw [Harmless, hjobs]
            exact Option.some_ne_none _
        · refine iff_of_false (fun h => ?_) fun h => h hok hjobs
          have hok' : (CronCall.run (.json v) (.create input call)).result = .ok () := hok
          unfold Preserves at h
          rw [hok', hjobs] at h
          obtain rfl := JobsFile.json.inj (hfinal.symm.trans h)
          rw [hjobs] at hjobs'
          cases hjobs'
  | update id input call =>
      rcases (updateJob_writes id input call (.json v)).finished.json hstored with
        ⟨e, he, hfinal⟩ | ⟨hok, v', hfinal, hstored', jobs', hjobs', hcase⟩
      · exact herror e he hfinal
      · refine ⟨?_, v', hfinal, hstored'⟩
        rcases hcase with ⟨jobs, hjobs, hfixed, hrest, i, existing, updated, hindex, hjob, hupdated,
          rfl⟩ | ⟨-, i, _, _, hindex, -⟩
        · refine (hwritten hok hjobs hfinal hrest hjobs').trans ?_
          rw [map_stored_set hfixed]
          refine (replacesJob_iff hindex hjob).trans ?_
          have hexisting : storedMembers existing = existing :=
            Json.obj.inj (getElem?_stored hfixed hjob)
          have hfield : ∀ k ∉ setFields input, field k (stored (.obj updated)) =
              if k ∈ knownFields then field k (.obj existing) else none := by
            intro k hk
            rw [stored, field, member_stored, updatedJob_member hupdated hk, apply_ite
              (Option.map stored), Option.map_none, ← member_stored, hexisting]
            rfl
          constructor
          · intro h _ jobs' i' old' hjobs' hindex' hold' k hk
            obtain rfl := Option.some.inj (hjobs.symm.trans hjobs')
            obtain rfl := Option.some.inj (Except.ok.inj (hindex.symm.trans hindex'))
            obtain rfl := Option.some.inj (hjob.symm.trans hold')
            by_contra hunknown
            have hset : k ∉ setFields input := fun hset => hunknown (setFields_known hset)
            rw [← h k hset, hfield k hset, if_neg hunknown] at hk
            exact hk rfl
          · intro h k hk
            rw [hfield k hk]
            split
            · rfl
            · rename_i hunknown
              by_contra hne
              exact hunknown (h hok jobs i _ hjobs hindex hjob k (Ne.symm hne))
        · exact absurd hindex findIndex_nil
  | toggle id paused call =>
      rcases (toggleJob_writes id paused call (.json v)).finished.json hstored with
        ⟨e, he, hfinal⟩ | ⟨hok, v', hfinal, hstored', jobs', hjobs', hcase⟩
      · exact herror e he hfinal
      · refine ⟨?_, v', hfinal, hstored'⟩
        rcases hcase with ⟨jobs, hjobs, hfixed, hrest, i, job, hindex, hjob, rfl⟩ |
          ⟨-, i, _, hindex, -⟩
        · refine (hwritten hok hjobs hfinal hrest hjobs').trans ?_
          rw [map_stored_set hfixed]
          refine iff_of_true ((replacesJob_iff hindex hjob).mpr fun k hk => ?_) fun _ => trivial
          have hfixedJob : storedMembers job = job := Json.obj.inj (getElem?_stored hfixed hjob)
          rw [stored, field, member_stored, member_setMember, member_setMember,
            if_neg fun h => hk (by simp [h]), if_neg fun h => hk (by simp [h]), ← member_stored,
            hfixedJob]
          rfl
        · exact absurd hindex findIndex_nil
  | delete id call =>
      rcases (deleteJob_writes id call (.json v)).finished.json hstored with
        ⟨e, he, hfinal⟩ | ⟨hok, v', hfinal, hstored', jobs', hjobs', hcase⟩
      · exact herror e he hfinal
      · refine ⟨?_, v', hfinal, hstored'⟩
        rcases hcase with ⟨jobs, hjobs, hfixed, hrest, i, hindex, rfl⟩ | ⟨-, i, hindex, -⟩
        · refine (hwritten hok hjobs hfinal hrest hjobs').trans (iff_of_true ?_ fun _ => trivial)
          exact ⟨i, hindex, by
            rw [List.eraseIdx_eq_take_drop_succ, List.map_append, List.map_take, List.map_drop,
              hfixed, ← List.eraseIdx_eq_take_drop_succ]⟩
        · exact absurd hindex findIndex_nil

end Steps

/-! ## Histories -/

abbrev CronRun := Run fun (file : JobsFile) (c : CronCall) file' => (c.run file).final = file'

/-- A file with a field of its own and a job with one. -/
def watchedJobs : Json :=
  .obj [("version", .str "2"), ("jobs", .arr [.obj [("id", .str "a1"), ("name", .str "Digest"),
    ("state", .str "scheduled"), ("repeat", .str "3")]])]

def noon : Call := ⟨"2026-01-01T12:00:00.000Z", "6f1c1f0e-0000-4000-8000-000000000000", none⟩

def pause : CronCall := .toggle "a1" (some true) noon

def rename : CronCall := .update "a1" [("name", .str "Brief")] noon

def add : CronCall :=
  .create [("name", .str "Brief"), ("prompt", .str "News"), ("schedule", .str "0 8 * * *")] noon

end Openlia.Cron

import Mathlib.Logic.Function.Basic
import Openlia.Records.Block

/-! # Frontmatter as an overlay

A view sets and removes keys of a record's metadata. The block of the frontmatter is
edited as a YAML document and put back between its dashes; a record without one gets one.
-/

namespace Openlia.Records

open Browser (isSpace)

variable {Doc Key Value : Type}

/-! ## The YAML library -/

/-- What `document.contents` is. -/
inductive Contents where
  | empty
  | mapping
  | other
  deriving DecidableEq

/-- What is used of the library. `delete` and `set` may throw. -/
structure Yaml (Doc Key Value : Type) where
  parseDocument : Text → Doc
  hasErrors : Doc → Bool
  contents : Doc → Contents
  stringKeys : Doc → Bool
  toJS : Doc → Key → Option Value
  set : Key → Value → Doc → Option Doc
  delete : Key → Doc → Option Doc
  print : Doc → Text

namespace Yaml

/-- `YAML.parse`, which throws on errors. -/
def parse (yaml : Yaml Doc Key Value) (source : Text) : Option Doc :=
  if yaml.hasErrors (yaml.parseDocument source) then none else some (yaml.parseDocument source)

/-- The keys of a mapping; anything else has none. -/
def fields (yaml : Yaml Doc Key Value) (doc : Doc) : Key → Option Value :=
  if yaml.contents doc = .mapping then yaml.toJS doc else fun _ => none

/-- One entry of `Object.entries(updates)`. -/
def update (yaml : Yaml Doc Key Value) (doc : Doc) : Key × Option Value → Option Doc
  | (key, none) => yaml.delete key doc
  | (key, some value) => yaml.set key value doc

/-- What the library says of itself. -/
structure Lawful [DecidableEq Key] (yaml : Yaml Doc Key Value) : Prop where
  empty : yaml.hasErrors (yaml.parseDocument []) = false ∧
    yaml.contents (yaml.parseDocument []) = .empty ∧ yaml.stringKeys (yaml.parseDocument []) = true
  update : ∀ doc doc' change, yaml.contents doc ≠ .other → yaml.stringKeys doc = true →
    yaml.update doc change = some doc' →
      yaml.contents doc' ≠ .other ∧ yaml.stringKeys doc' = true ∧
        yaml.fields doc' = Function.update (yaml.fields doc) change.1 change.2
  print : ∀ doc, '\r' ∉ yaml.print doc

end Yaml

/-! ## Reading and editing -/

/-- The metadata of `parseMarkdownRecord`. -/
def metadataOf (yaml : Yaml Doc Key Value) (content : Text) : Key → Option Value :=
  match (frontmatter? content).bind fun (block, _) => yaml.parse (trim block) with
  | none => fun _ => none
  | some doc => yaml.fields doc

inductive MutateError where
  | invalid
  | malformed
  | library
  deriving DecidableEq

def trimEnd (s : Text) : Text := (s.reverse.dropWhile isSpace).reverse

/-- `replace(/\r?\n/g, newline)`. -/
def withBreaks (newline : Text) : Text → Text
  | '\r' :: '\n' :: s => newline ++ withBreaks newline s
  | '\n' :: s => newline ++ withBreaks newline s
  | c :: s => c :: withBreaks newline s
  | [] => []

/-- The text of an edited document, with the breaks of the record. -/
def written (yaml : Yaml Doc Key Value) (content : Text) (doc : Doc) : Text :=
  withBreaks (newlineOf content) (trimEnd (yaml.print doc))

def mutateRecordFrontmatter (yaml : Yaml Doc Key Value) (content : Text)
    (updates : List (Key × Option Value)) : Except MutateError Text :=
  let block := ((frontmatter? content).map Prod.fst).getD []
  let document := yaml.parseDocument block
  if yaml.hasErrors document || yaml.contents document = .other then .error .invalid
  else
    match updates.foldlM yaml.update document with
    | none => .error .library
    | some document =>
        let newline := newlineOf content
        let text := written yaml content document
        if (frontmatter? content).isSome then
          let yamlStart := content.idxOf '\n' + 1
          .ok (content.take yamlStart ++ text ++ content.drop (yamlStart + block.length))
        else if ['-', '-', '-'].isPrefixOf content then .error .malformed
        else .ok (['-', '-', '-'] ++ newline ++ text ++ newline ++ ['-', '-', '-'] ++ newline ++
          newline ++ content)

/-! ## Line breaks -/

section Breaks

variable {s t a b : Text}

def hasCrlf : Text → Bool
  | '\r' :: '\n' :: _ => true
  | _ :: s => hasCrlf s
  | [] => false

theorem hasCrlf_cons (c : Char) (s : Text) :
    hasCrlf (c :: s) = ((c = '\r' ∧ s.head? = some '\n' : Bool) || hasCrlf s) := by
  rw [hasCrlf.eq_def]
  split
  · rename_i heq
    cases heq
    rfl
  · rename_i hne heq
    cases heq
    have hno : ¬ (c = '\r' ∧ s.head? = some '\n') := by
      rintro ⟨rfl, hhead⟩
      cases s with
      | nil => cases hhead
      | cons d s =>
          cases hhead
          exact hne s rfl rfl
    simp [hno]
  · rename_i heq
    cases heq

theorem hasCrlf_append (a b : Text) : hasCrlf (a ++ b) =
    (hasCrlf a || (a.getLast? = some '\r' ∧ b.head? = some '\n' : Bool) || hasCrlf b) := by
  induction a with
  | nil => simp [hasCrlf]
  | cons c a ih =>
      rw [List.cons_append, hasCrlf_cons, hasCrlf_cons, ih]
      cases a with
      | nil => simp [hasCrlf]
      | cons d a => simp [Bool.or_assoc]

theorem hasCrlf_iff (s : Text) : hasCrlf s = true ↔ ['\r', '\n'] <:+: s := by
  induction s with
  | nil => simp [hasCrlf]
  | cons c s ih =>
      rw [hasCrlf_cons, Bool.or_eq_true, ih, List.infix_cons_iff, decide_eq_true_eq]
      refine or_congr_left ?_
      cases s with
      | nil => simp
      | cons d s => simp [eq_comm]

theorem newlineOf_eq (content : Text) :
    newlineOf content = if hasCrlf content then ['\r', '\n'] else ['\n'] := by
  rw [newlineOf]
  by_cases h : hasCrlf content = true
  · rw [if_pos h, if_pos ((hasCrlf_iff content).mp h)]
  · rw [if_neg h, if_neg fun hinfix => h ((hasCrlf_iff content).mpr hinfix)]

theorem hasCrlf_of_notMem (h : '\r' ∉ s) : hasCrlf s = false := by
  induction s with
  | nil => rfl
  | cons c s ih =>
      rw [List.mem_cons, not_or] at h
      rw [hasCrlf_cons, ih h.2]
      simp [Ne.symm h.1]

theorem withBreaks_of_notMem (h : '\n' ∉ s) (newline : Text) : withBreaks newline s = s := by
  induction s with
  | nil => rfl
  | cons c s ih =>
      rw [List.mem_cons, not_or] at h
      unfold withBreaks
      split
      · rename_i heq
        cases heq
        exact absurd (List.mem_cons_of_mem _ List.mem_cons_self) (fun hmem => by
          rcases List.mem_cons.mp hmem with hc | hmem
          · exact h.1 hc
          · exact h.2 hmem)
      · rename_i heq
        cases heq
        exact absurd rfl h.1
      · rename_i heq
        cases heq
        rw [ih h.2]
      · rename_i heq
        cases heq

theorem withBreaks_cons {newline : Text} {c : Char} (hc : c ≠ '\r') :
    withBreaks newline (c :: s) =
      (if c = '\n' then newline else [c]) ++ withBreaks newline s := by
  rw [withBreaks.eq_def]
  split
  · rename_i heq
    cases heq
    exact absurd rfl hc
  · rename_i heq
    cases heq
    rfl
  · rename_i hlf heq
    cases heq
    rw [if_neg (fun h => hlf h)]
    rfl
  · rename_i heq
    cases heq

/-- With the line breaks of its own, a text stays as it is. -/
theorem withBreaks_lf (h : '\r' ∉ s) : withBreaks ['\n'] s = s := by
  induction s with
  | nil => rfl
  | cons c s ih =>
      rw [List.mem_cons, not_or] at h
      rw [withBreaks_cons (Ne.symm h.1), ih h.2]
      by_cases hc : c = '\n'
      · rw [if_pos hc, hc]
        rfl
      · rw [if_neg hc]
        rfl

theorem hasCrlf_withBreaks (h : '\r' ∉ s) (hbreak : '\n' ∈ s) :
    hasCrlf (withBreaks ['\r', '\n'] s) = true := by
  induction s with
  | nil => cases hbreak
  | cons c s ih =>
      rw [List.mem_cons, not_or] at h
      rw [withBreaks_cons (Ne.symm h.1), hasCrlf_append]
      by_cases hc : c = '\n'
      · rw [if_pos hc]
        rfl
      · rw [List.mem_cons] at hbreak
        rw [ih h.2 (hbreak.resolve_left fun heq => hc heq.symm), Bool.or_true]

theorem notMem_trimEnd {c : Char} (h : c ∉ s) : c ∉ trimEnd s := by
  intro hmem
  rw [trimEnd, List.mem_reverse] at hmem
  exact h (List.mem_reverse.mp ((List.dropWhile_suffix _).subset hmem))

/-- Nothing that is written ends with a carriage return. -/
theorem getLast?_withBreaks (h : '\r' ∉ s) (newline : Text)
    (hnewline : newline.getLast? = some '\n') :
    (withBreaks newline s).getLast? ≠ some '\r' := by
  induction s with
  | nil => exact nofun
  | cons c s ih =>
      rw [List.mem_cons, not_or] at h
      rw [withBreaks_cons (Ne.symm h.1)]
      cases hrest : withBreaks newline s with
      | nil =>
          rw [List.append_nil]
          split
          · rw [hnewline]
            decide
          · exact fun hlast => h.1 (Option.some.inj hlast).symm
      | cons d t =>
          rw [List.getLast?_append_of_ne_nil _ (List.cons_ne_nil d t), ← hrest]
          exact ih h.2

theorem getLast?_newlineOf (content : Text) : (newlineOf content).getLast? = some '\n' := by
  unfold newlineOf
  split <;> rfl

end Breaks

end Openlia.Records

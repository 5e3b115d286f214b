import Mathlib.Data.List.Infix
import Openlia.Records.Overlay

/-! # What an edit of the frontmatter leaves

A successful edit puts one text between the dashes. The body stays, and the metadata is
the old one with the updates over it, as far as the library reads what it printed.
-/

namespace Openlia.Records

variable {Doc Key Value : Type} {yaml : Yaml Doc Key Value} {content content' : Text}
  {updates : List (Key × Option Value)}

/-- The block between the dashes, which is empty where there is none. -/
def blockOf (content : Text) : Text := ((frontmatter? content).map Prod.fst).getD []

/-- Metadata with updates over it. -/
def overlay [DecidableEq Key] (metadata : Key → Option Value)
    (updates : List (Key × Option Value)) : Key → Option Value :=
  updates.foldl (fun m change => Function.update m change.1 change.2) metadata

/-- The library takes the text it printed for the document, and no line of it for the
end of the frontmatter. -/
structure RoundTrips (yaml : Yaml Doc Key Value) (content : Text) (doc : Doc) : Prop where
  unclosed : Unclosed (written yaml content doc)
  reads : (yaml.parse (trim (written yaml content doc))).map yaml.fields = some (yaml.fields doc)

/-- The same edit of the text it printed prints it once more. -/
def Settles (yaml : Yaml Doc Key Value) (content : Text) (doc : Doc)
    (updates : List (Key × Option Value)) : Prop :=
  yaml.hasErrors (yaml.parseDocument (written yaml content doc)) = false ∧
    yaml.contents (yaml.parseDocument (written yaml content doc)) ≠ .other ∧
    (updates.foldlM yaml.update (yaml.parseDocument (written yaml content doc))).map yaml.print =
      some (yaml.print doc)

/-- The blanks around the block do not matter to the library. -/
def ReadsTrimmed (yaml : Yaml Doc Key Value) (block : Text) : Prop :=
  yaml.stringKeys (yaml.parseDocument block) = true ∧
    (yaml.parse (trim block)).map yaml.fields = some (yaml.fields (yaml.parseDocument block))

theorem metadataOf_of_match {block body : Text} {doc : Doc}
    (h : frontmatter? content = some (block, body)) (hparse : yaml.parse (trim block) = some doc) :
    metadataOf yaml content = yaml.fields doc := by
  rw [metadataOf, h, Option.bind_some]
  dsimp only
  rw [hparse]

/-! ## The edited text -/

/-- What an edit that succeeds has done. -/
structure Edited (yaml : Yaml Doc Key Value) (content : Text)
    (updates : List (Key × Option Value)) (content' : Text) (doc : Doc) : Prop where
  noErrors : yaml.hasErrors (yaml.parseDocument (blockOf content)) = false
  editable : yaml.contents (yaml.parseDocument (blockOf content)) ≠ .other
  edits : updates.foldlM yaml.update (yaml.parseDocument (blockOf content)) = some doc
  /-- The new block stands between an opening line and the text that closes it. -/
  parts : ∃ line tail body, content' = line ++ '\n' :: (written yaml content doc ++ tail) ∧
    '\n' ∉ line ∧
    (∀ text, Unclosed text → text.getLast? ≠ some '\r' →
      frontmatter? (line ++ '\n' :: (text ++ tail)) = some (text, body)) ∧
    (hasCrlf (line ++ '\n' :: tail) = true → newlineOf content = ['\r', '\n']) ∧
    ((∃ block, frontmatter? content = some (block, body) ∧
        content = line ++ '\n' :: (block ++ tail)) ∨
      (frontmatter? content = none ∧ body = newlineOf content ++ content))

/-- Cutting a block out behind its opening line, with another text in its place. -/
theorem splice_eq {line block tail : Text} (hline : '\n' ∉ line) (text : Text)
    (hcontent : content = line ++ '\n' :: (block ++ tail)) :
    content.take (content.idxOf '\n' + 1) ++ text ++
      content.drop (content.idxOf '\n' + 1 + block.length) = line ++ '\n' :: (text ++ tail) := by
  have hstart : content.idxOf '\n' = line.length := by
    rw [hcontent, List.idxOf_append_of_notMem hline, List.idxOf_cons_self, Nat.add_zero]
  have htake : content.take (line.length + 1) = line ++ ['\n'] := by
    rw [hcontent, show line ++ '\n' :: (block ++ tail) =
      (line ++ ['\n']) ++ (block ++ tail) by simp]
    exact List.take_left' (by simp)
  have hdrop : content.drop (line.length + 1 + block.length) = tail := by
    rw [hcontent, show line ++ '\n' :: (block ++ tail) =
      (line ++ ['\n'] ++ block) ++ tail by simp]
    exact List.drop_left' (by simp; omega)
  rw [hstart, htake, hdrop]
  simp

theorem edited_of_ok (h : mutateRecordFrontmatter yaml content updates = .ok content') :
    ∃ doc, Edited yaml content updates content' doc := by
  unfold mutateRecordFrontmatter at h
  rw [← blockOf] at h
  dsimp only at h
  split at h
  · cases h
  · rename_i hvalid
    rw [Bool.or_eq_true, not_or, Bool.not_eq_true, decide_eq_true_eq] at hvalid
    cases hedits : updates.foldlM yaml.update (yaml.parseDocument (blockOf content)) with
    | none =>
        rw [hedits] at h
        cases h
    | some doc =>
        rw [hedits] at h
        dsimp only at h
        refine ⟨doc, hvalid.1, hvalid.2, hedits, ?_⟩
        cases hmatch : frontmatter? content with
        | some found =>
            obtain ⟨block, body⟩ := found
            obtain ⟨line, tail, hcontent, hline, hclosed, hopens⟩ := frontmatter?_split hmatch
            have hblock : blockOf content = block := by
              rw [blockOf, hmatch]
              rfl
            rw [hmatch, Option.isSome_some, if_pos rfl, hblock, splice_eq hline _ hcontent] at h
            refine ⟨line, tail, body, ?_, hline, fun text => hopens text, fun hcrlf => ?_,
              .inl ⟨block, rfl, hcontent⟩⟩
            · exact (Except.ok.inj h).symm
            · rw [newlineOf_eq, if_pos]
              rw [hasCrlf_append, hasCrlf_cons] at hcrlf
              rw [hcontent, hasCrlf_append, hasCrlf_cons, hasCrlf_append]
              simp only [List.head?_cons, Bool.or_eq_true, decide_eq_true_eq] at hcrlf ⊢
              tauto
        | none =>
            rw [hmatch, Option.isSome_none, if_neg Bool.false_ne_true] at h
            split at h
            · cases h
            · have hresult := (Except.ok.inj h).symm
              by_cases hcrlf : hasCrlf content = true
              · have hnewline : newlineOf content = ['\r', '\n'] := by
                  rw [newlineOf_eq, if_pos hcrlf]
                rw [hnewline] at hresult ⊢
                exact ⟨['-', '-', '-', '\r'], '\r' :: '\n' :: '-' :: '-' :: '-' :: '\r' :: '\n' ::
                  '\r' :: '\n' :: content, '\r' :: '\n' :: content, by simp [hresult], by decide,
                  fun text hunclosed hlast => block?_append hunclosed hlast rfl, fun _ => rfl,
                  .inr ⟨rfl, rfl⟩⟩
              · have hnewline : newlineOf content = ['\n'] := by
                  rw [newlineOf_eq, if_neg hcrlf]
                rw [hnewline] at hresult ⊢
                exact ⟨['-', '-', '-'], '\n' :: '-' :: '-' :: '-' :: '\n' :: '\n' :: content,
                  '\n' :: content, by simp [hresult], by decide,
                  fun text hunclosed hlast => block?_append hunclosed hlast rfl,
                  fun h => absurd h hcrlf, .inr ⟨rfl, rfl⟩⟩

/-- The updates are laid over the fields of the document, one after the other. -/
theorem fields_of_edits [DecidableEq Key] (hyaml : yaml.Lawful) {doc doc' : Doc}
    (hcontents : yaml.contents doc ≠ .other) (hkeys : yaml.stringKeys doc = true)
    (h : updates.foldlM yaml.update doc = some doc') :
    yaml.fields doc' = overlay (yaml.fields doc) updates := by
  induction updates generalizing doc with
  | nil =>
      cases h
      rfl
  | cons change updates ih =>
      rw [List.foldlM_cons] at h
      obtain ⟨doc₁, hchange, hrest⟩ := Option.bind_eq_some_iff.mp h
      obtain ⟨hcontents₁, hkeys₁, hfields⟩ := hyaml.update doc doc₁ change hcontents hkeys hchange
      rw [ih hcontents₁ hkeys₁ hrest, hfields]
      rfl

/-- Line breaks once chosen are chosen again, where there are any. -/
theorem written_again [DecidableEq Key] (hyaml : yaml.Lawful) {doc : Doc} {line tail : Text}
    (hcontent' : content' = line ++ '\n' :: (written yaml content doc ++ tail))
    (hcrlf : hasCrlf (line ++ '\n' :: tail) = true → newlineOf content = ['\r', '\n'])
    (text : Text) (htext : text = trimEnd (yaml.print doc)) :
    withBreaks (newlineOf content') text = written yaml content doc := by
  have hnot : '\r' ∉ text := by
    rw [htext]
    exact notMem_trimEnd (hyaml.print doc)
  rw [written, ← htext] at hcontent' ⊢
  by_cases hbreak : '\n' ∈ text
  · by_cases hnewline : hasCrlf content = true
    · rw [newlineOf_eq content, if_pos hnewline] at hcontent' ⊢
      rw [newlineOf_eq, if_pos]
      rw [hcontent', hasCrlf_append, hasCrlf_cons, hasCrlf_append,
        hasCrlf_withBreaks hnot hbreak]
      simp
    · rw [newlineOf_eq content, if_neg hnewline] at hcontent' hcrlf ⊢
      rw [newlineOf_eq, if_neg]
      intro htrue
      rw [withBreaks_lf hnot] at hcontent'
      have hlast : text.getLast? ≠ some '\r' := fun h => hnot (List.mem_of_getLast? h)
      have hsame : hasCrlf (line ++ '\n' :: tail) = true := by
        rw [hcontent', hasCrlf_append, hasCrlf_cons, hasCrlf_append,
          hasCrlf_of_notMem hnot] at htrue
        rw [hasCrlf_append, hasCrlf_cons]
        simpa [hlast] using htrue
      cases hcrlf hsame
  · rw [withBreaks_of_notMem hbreak, withBreaks_of_notMem hbreak]

/-! ## The overlay -/

/-- A line of a block with two flags. -/
def flagLine? (line : Text) : Option (Bool × Bool) :=
  if line = "a: true".toList then some (false, true)
  else if line = "a: false".toList then some (false, false)
  else if line = "b: true".toList then some (true, true)
  else if line = "b: false".toList then some (true, false)
  else none

def printFlag (name : String) : Option Bool → Text
  | none => []
  | some flag => name.toList ++ (if flag then ": true\n" else ": false\n").toList

/-- The two flags with one of them set or removed. -/
def setFlag (flags : Option Bool × Option Bool) (key : Bool) (value : Option Bool) :
    Option Bool × Option Bool :=
  if key then (flags.1, value) else (value, flags.2)

/-- YAML for blocks with no other keys than `a` and `b` and no other values than flags. -/
def flagsYaml : Yaml (Option (Option Bool × Option Bool)) Bool Bool where
  parseDocument source := (source.splitOn '\n').foldlM
    (fun flags line => if line = [] then some flags
      else (flagLine? line).map fun (key, value) => setFlag flags key (some value))
    (none, none)
  hasErrors doc := doc.isNone
  contents doc := if doc = none then .other else if doc = some (none, none) then .empty else .mapping
  stringKeys _ := true
  toJS doc key := doc.bind fun flags => if key then flags.2 else flags.1
  set key value doc := doc.map fun flags => some (setFlag flags key (some value))
  delete key doc := doc.map fun flags => some (setFlag flags key none)
  print doc := (doc.map fun flags => printFlag "a" flags.1 ++ printFlag "b" flags.2).getD []

theorem flagsYaml_fields (flags : Option Bool × Option Bool) :
    flagsYaml.fields (some flags) = fun key => if key then flags.2 else flags.1 := by
  by_cases hnone : flags = (none, none)
  · subst hnone
    funext key
    cases key <;> rfl
  · rw [Yaml.fields, if_pos]
    · rfl
    · simp [flagsYaml, hnone]

theorem flagsYaml_lawful : flagsYaml.Lawful where
  empty := by decide +kernel
  update := by
    rintro (_ | flags) doc' ⟨key, value⟩ hcontents - h
    · exact absurd rfl hcontents
    · have hdoc : doc' = some (setFlag flags key value) := by
        cases value <;> exact (Option.some.inj h).symm
      subst hdoc
      refine ⟨?_, rfl, ?_⟩
      · simp only [flagsYaml, reduceCtorEq, if_false]
        split <;> decide
      · rw [flagsYaml_fields, flagsYaml_fields]
        funext other
        cases key <;> cases other <;> rfl
  print := by
    have hflag : ∀ (name : String), '\r' ∉ name.toList → ∀ value, '\r' ∉ printFlag name value := by
      rintro name hname (_ | _ | _)
      · exact List.not_mem_nil
      · exact fun h => (List.mem_append.mp h).elim hname (by decide)
      · exact fun h => (List.mem_append.mp h).elim hname (by decide)
    rintro (_ | flags)
    · exact List.not_mem_nil
    · exact fun h => (List.mem_append.mp h).elim (hflag "a" (by decide) _)
        (hflag "b" (by decide) _)

theorem unclosed_iff (block : Text) :
    Unclosed block ↔ ∀ b ∈ block.tails, (closing? b).bind endsLine = none := by
  simp only [Unclosed, List.mem_tails]

end Openlia.Records

import Mathlib
import SvgKit.Proofs.Sanitize.Wholeness

/-! What is told about removals. Each line stands for pieces that its own step cuts out, nothing else
is cut out, and no line is told twice.
-/

namespace SvgKit

open scoped List

-----------------------------------------------------------------------------------------
-- Deleted pieces
-----------------------------------------------------------------------------------------

namespace Scanner

variable {α : Type} {p : Scanner α}

/-- The items that are deleted from a text, each with the piece that is cut out for it. -/
def found (p : Scanner α) (s : Text) : List (α × Text) :=
  (p.findAll s).zip ((p.cuts s).map Cut.removed)

/-- What is cut out does not depend on what has been kept. -/
theorem removed_cutsBehind (front s : Text)
    : (p.cutsBehind front s).map Cut.removed = (p.cuts s).map Cut.removed := by
  suffices ∀ front', (p.cutsBehind front s).map Cut.removed
      = (p.cutsBehind front' s).map Cut.removed from this []
  induction s using p.induction generalizing front with
  | nil => simp [cutsBehind]
  | plain c s hread ih =>
      intro front'
      rw [cutsBehind_of_read_none hread, cutsBehind_of_read_none hread]
      exact ih _ _
  | found s item rest hread ih =>
      intro front'
      rw [cutsBehind_of_read hread, cutsBehind_of_read hread, List.map_cons, List.map_cons,
        ih front front']

@[simp]
theorem found_nil : p.found [] = [] := by simp [found]

theorem found_of_read {s rest : Text} {item : α} (h : p.read s = some (item, rest))
    : p.found s = (item, s.take (s.length - rest.length)) :: p.found rest := by
  rw [found, p.findAll_of_read h, cuts, cutsBehind_of_read h, List.map_cons, removed_cutsBehind]
  rfl

theorem found_of_read_none {c : Char} {s : Text} (h : p.read (c :: s) = none)
    : p.found (c :: s) = p.found s := by
  rw [found, p.findAll_of_read_none h, cuts, cutsBehind_of_read_none h, removed_cutsBehind]
  rfl

theorem map_fst_found (s : Text) : (p.found s).map Prod.fst = p.findAll s := by
  induction s using p.induction with
  | nil => simp
  | plain c s hread ih => rw [found_of_read_none hread, p.findAll_of_read_none hread, ih]
  | found s item rest hread ih =>
      rw [found_of_read hread, p.findAll_of_read hread, List.map_cons, ih]

theorem found_eq_nil_iff {s : Text} : p.found s = [] ↔ p.finds s = false := by
  rw [← List.map_eq_nil_iff, map_fst_found]
  exact ⟨finds_eq_false_of_findAll, findAll_eq_nil_of_finds⟩

/-- Every piece that is cut out has a character at least. -/
theorem ne_nil_of_mem_found {s : Text} : ∀ x ∈ p.found s, x.2 ≠ [] := by
  induction s using p.induction with
  | nil => simp
  | plain c s hread ih => rwa [found_of_read_none hread]
  | found s item rest hread ih =>
      rw [found_of_read hread, List.forall_mem_cons]
      refine ⟨?_, ih⟩
      have := p.shorter hread
      rw [ne_eq, ← List.length_eq_zero_iff, List.length_take]
      omega

theorem delete_sublist (p : Scanner α) (s : Text) : p.delete s <+ s := by
  induction s using p.induction with
  | nil => simp [delete]
  | plain c s hread ih =>
      rw [delete, replace_of_read_none hread]
      exact ih.cons_cons c
  | found s item rest hread ih =>
      rw [delete, replace_of_read hread]
      exact ih.trans (p.suffix hread).sublist

/-- A deletion takes away the pieces that are found and nothing else. -/
theorem length_delete (p : Scanner α) (s : Text)
    : (p.delete s).length + ((p.found s).map (·.2.length)).sum = s.length := by
  induction s using p.induction with
  | nil => simp [delete]
  | plain c s hread ih =>
      rw [delete, replace_of_read_none hread, ← delete, found_of_read_none hread,
        List.length_cons, List.length_cons]
      omega
  | found s item rest hread ih =>
      have := p.shorter hread
      rw [delete, replace_of_read hread, ← delete, found_of_read hread, List.map_cons,
        List.sum_cons, List.length_append, List.length_take]
      simp only [List.length_nil]
      omega

end Scanner

namespace Sanitize

-----------------------------------------------------------------------------------------
-- Steps
-----------------------------------------------------------------------------------------

/-- A step of the removal: the kind of content that it removes. -/
inductive Step where
  | element (name : Text)
  | handlers
  | urls (scheme : Text)
  deriving Repr, DecidableEq

/-- What becomes of a text and of what is told about it. -/
def Step.run (o : Outcome) : Step → Outcome
  | .element name => removeElement o name
  | .handlers => removeHandlers o
  | .urls scheme => removeUrls o scheme

/-- The line that a step tells about an item of a name. -/
def Step.line : Step → Text → Text
  | .element name, _ => "Removed <" ++ name ++ "> element(s)"
  | .handlers, name => "Removed " ++ name ++ " attribute(s)"
  | .urls scheme, _ => "Removed " ++ scheme ++ " URL(s)"

/-- The pieces that a step cuts out of a text, each with the name of the item; only handlers have
names of their own.
-/
def Step.found (s : Text) : Step → List (Text × Text)
  | .element name =>
    ((emptyScanner name).found s ++ (pairedScanner name).found ((emptyScanner name).delete s)).map
      fun x => (name, x.2)
  | .handlers => (handlerScanner.found s).map fun x => (Text.lower x.1, x.2)
  | .urls scheme => ((urlScanner scheme).found s).map fun x => (scheme, x.2)

/-- The steps that a policy asks for. -/
def Policy.steps (p : Policy) : List Step :=
  (dangerousElements.filter p.removes).map .element
    ++ ((if p.handlers then [.handlers] else [])
      ++ (if p.urls then dangerousSchemes.map .urls else []))

theorem sanitize_eq_foldl (p : Policy) (s : Text) : sanitize p s = p.steps.foldl Step.run ⟨s, []⟩ := by
  obtain ⟨scripts, handlers, elements, urls⟩ := p
  rw [sanitize, Policy.steps, List.foldl_append, List.foldl_append, List.foldl_map]
  cases handlers <;> cases urls <;> simp only [Bool.false_eq_true, ↓reduceIte, List.foldl_nil,
    List.foldl_cons, List.foldl_map] <;> rfl

-----------------------------------------------------------------------------------------
-- What a step tells
-----------------------------------------------------------------------------------------

theorem mem_of_mem_unique {items : List Text} {item : Text} (h : item ∈ unique items)
    : item ∈ items := by
  suffices ∀ seen : List Text, item ∈ items.foldl
      (fun seen item => if seen.contains item then seen else item :: seen) seen →
      item ∈ seen ∨ item ∈ items by
    simpa using this [] (List.mem_reverse.mp h)
  clear h
  induction items with
  | nil => simp
  | cons first items ih =>
      intro seen h
      rw [List.foldl_cons] at h
      rw [List.mem_cons]
      have hmem := ih _ h
      split at hmem
      · tauto
      · rw [List.mem_cons] at hmem
        tauto

theorem nodup_unique (items : List Text) : (unique items).Nodup := by
  suffices ∀ seen : List Text, seen.Nodup → (items.foldl
      (fun seen item => if seen.contains item then seen else item :: seen) seen).Nodup from
    List.nodup_reverse.mpr (this [] List.nodup_nil)
  induction items with
  | nil => exact fun _ h => h
  | cons first items ih =>
      intro seen h
      rw [List.foldl_cons]
      apply ih
      split
      · exact h
      · next hfirst => exact List.nodup_cons.mpr ⟨by simpa using hfirst, h⟩

/-- What a step has done: it cut out what it found and nothing else, and told one line for each name
of what it found.
-/
structure Step.Reports (step : Step) (given left : Outcome) : Prop where
  sublist : left.text <+ given.text
  length : left.text.length + ((step.found given.text).map (·.2.length)).sum = given.text.length
  pieces : ∀ x ∈ step.found given.text, x.2 ≠ []
  issues : ∃ lines, left.issues = given.issues ++ lines ∧ lines.Nodup
    ∧ ∀ line, line ∈ lines ↔ ∃ x ∈ step.found given.text, line = step.line x.1

/-- Where a step has one line only, it tells the line if it finds something. -/
theorem exists_lines_of_line {step : Step} {s line : Text} (hline : ∀ name, step.line name = line)
    {finds : Bool} (hfinds : step.found s = [] ↔ finds = false) (issues : List Text)
    : ∃ lines, (if finds then issues ++ [line] else issues) = issues ++ lines ∧ lines.Nodup
      ∧ ∀ line, line ∈ lines ↔ ∃ x ∈ step.found s, line = step.line x.1 := by
  simp only [hline]
  cases finds with
  | false => exact ⟨[], by simp, List.nodup_nil, by simp [hfinds.mpr rfl]⟩
  | true =>
      have hne : step.found s ≠ [] := fun hnil => Bool.noConfusion (hfinds.mp hnil)
      obtain ⟨x, hx⟩ := List.exists_mem_of_ne_nil _ hne
      refine ⟨[line], rfl, List.nodup_singleton _, fun line' => ?_⟩
      rw [List.mem_singleton]
      exact ⟨fun heq => ⟨x, hx, heq⟩, fun ⟨_, _, heq⟩ => heq⟩

theorem reports_element (name : Text) (o : Outcome)
    : (Step.element name).Reports o (removeElement o name) := by
  have htext : (removeElement o name).text
      = (pairedScanner name).delete ((emptyScanner name).delete o.text) :=
    removeElement_text o name
  refine ⟨?_, ?_, ?_, ?_⟩
  · rw [htext]
    exact (Scanner.delete_sublist _ _).trans (Scanner.delete_sublist _ _)
  · have hempty := (emptyScanner name).length_delete o.text
    have hpaired := (pairedScanner name).length_delete ((emptyScanner name).delete o.text)
    have hsum : ((Step.element name).found o.text).map (·.2.length)
        = ((emptyScanner name).found o.text).map (·.2.length)
          ++ ((pairedScanner name).found ((emptyScanner name).delete o.text)).map (·.2.length) := by
      rw [Step.found, List.map_map, List.map_append]
      rfl
    rw [htext, hsum, List.sum_append]
    omega
  · rw [Step.found, List.forall_mem_map, List.forall_mem_append]
    exact ⟨Scanner.ne_nil_of_mem_found, Scanner.ne_nil_of_mem_found⟩
  · have hfinds : (Step.element name).found o.text = [] ↔
        ((emptyScanner name).finds o.text || (pairedScanner name).finds o.text) = false := by
      rw [Step.found, List.map_eq_nil_iff, List.append_eq_nil_iff, Scanner.found_eq_nil_iff,
        Scanner.found_eq_nil_iff, Bool.or_eq_false_iff]
      refine and_congr_right fun hempty => ?_
      rw [Scanner.delete_eq_of_finds hempty]
    have hlines := exists_lines_of_line (fun _ => rfl) hfinds o.issues
    rw [removeElement, apply_ite Outcome.issues]
    exact hlines

theorem reports_handlers (o : Outcome) : Step.handlers.Reports o (removeHandlers o) := by
  have hlines (line : Text) : (line ∈ (handlerNames handlerScanner o.text).map Step.handlers.line)
      ↔ ∃ x ∈ Step.handlers.found o.text, line = Step.handlers.line x.1 := by
    rw [List.mem_map]
    constructor
    · rintro ⟨name, hname, rfl⟩
      obtain ⟨given, hgiven, rfl⟩ := List.mem_map.mp (mem_of_mem_unique hname)
      rw [← Scanner.map_fst_found] at hgiven
      obtain ⟨x, hx, rfl⟩ := List.mem_map.mp hgiven
      exact ⟨_, List.mem_map_of_mem hx, rfl⟩
    · rintro ⟨_, hmem, rfl⟩
      obtain ⟨x, hx, rfl⟩ := List.mem_map.mp hmem
      have hname : x.1 ∈ handlerScanner.findAll o.text := by
        rw [← Scanner.map_fst_found]
        exact List.mem_map_of_mem hx
      exact ⟨_, mem_unique (List.mem_map_of_mem hname), rfl⟩
  refine ⟨?_, ?_, ?_, ?_⟩
  · rw [removeHandlers_text]
    exact Scanner.delete_sublist _ _
  · have hlength := handlerScanner.length_delete o.text
    rw [removeHandlers_text, Scanner.delete_forget, Step.found, List.map_map]
    exact hlength
  · rw [Step.found, List.forall_mem_map]
    exact Scanner.ne_nil_of_mem_found
  · have hnodup : ((handlerNames handlerScanner o.text).map Step.handlers.line).Nodup := by
      refine (nodup_unique _).map fun name name' h => ?_
      exact List.append_cancel_left (List.append_cancel_right h)
    unfold removeHandlers
    dsimp only
    split
    · next hnone =>
        rw [List.isEmpty_iff.mp hnone] at hlines
        exact ⟨[], (List.append_nil _).symm, List.nodup_nil, hlines⟩
    · exact ⟨_, rfl, hnodup, hlines⟩

theorem reports_urls (scheme : Text) (o : Outcome)
    : (Step.urls scheme).Reports o (removeUrls o scheme) := by
  refine ⟨?_, ?_, ?_, ?_⟩
  · rw [removeUrls_text]
    exact Scanner.delete_sublist _ _
  · have hlength := (urlScanner scheme).length_delete o.text
    rw [removeUrls_text, Step.found, List.map_map]
    exact hlength
  · rw [Step.found, List.forall_mem_map]
    exact Scanner.ne_nil_of_mem_found
  · have hfinds : (Step.urls scheme).found o.text = [] ↔ (urlScanner scheme).finds o.text = false := by
      rw [Step.found, List.map_eq_nil_iff, Scanner.found_eq_nil_iff]
    have hlines := exists_lines_of_line (fun _ => rfl) hfinds o.issues
    rw [removeUrls, apply_ite Outcome.issues]
    exact hlines

theorem Step.reports (step : Step) (o : Outcome) : step.Reports o (step.run o) := by
  cases step with
  | element name => exact reports_element name o
  | handlers => exact reports_handlers o
  | urls scheme => exact reports_urls scheme o

/-- What a step tells, and that it tells nothing exactly if it leaves the text as it is. -/
theorem Step.Reports.exists_lines {step : Step} {given left : Outcome} (h : step.Reports given left)
    : ∃ lines, left.issues = given.issues ++ lines ∧ lines.Nodup
      ∧ (∀ line ∈ lines, ∃ name, line = step.line name)
      ∧ (lines = [] ↔ left.text.length = given.text.length) := by
  obtain ⟨lines, hissues, hnodup, hlines⟩ := h.issues
  have hlength := h.length
  refine ⟨lines, hissues, hnodup, fun line hline => ?_, ?_, fun hsame => ?_⟩
  · obtain ⟨x, -, rfl⟩ := (hlines line).mp hline
    exact ⟨x.1, rfl⟩
  · rintro rfl
    have hnone : step.found given.text = [] := by
      rw [List.eq_nil_iff_forall_not_mem]
      exact fun x hx => List.not_mem_nil ((hlines _).mpr ⟨x, hx, rfl⟩)
    simpa [hnone] using hlength
  · rw [List.eq_nil_iff_forall_not_mem]
    intro line hline
    obtain ⟨x, hx, -⟩ := (hlines line).mp hline
    have hpositive := List.length_pos_iff.mpr (h.pieces x hx)
    obtain ⟨before, after, heq⟩ := List.append_of_mem hx
    rw [heq, List.map_append, List.map_cons, List.sum_append, List.sum_cons] at hlength
    omega

-----------------------------------------------------------------------------------------
-- What all steps tell
-----------------------------------------------------------------------------------------

/-- No line of one step is a line of the other one. -/
def Step.Differs (step step' : Step) : Prop := ∀ name name', step.line name ≠ step'.line name'

/-- The character that tells the lines of one kind of steps from those of the others. -/
def Step.mark : Step → Char
  | .element _ => 't'
  | .handlers => 'e'
  | .urls _ => 'L'

theorem mark_line (step : Step) (name : Text) : (step.line name).reverse[3]? = some step.mark := by
  have htail (front : Text) {tail : Text} (h : 3 < tail.length)
      : (front ++ tail).reverse[3]? = tail.reverse[3]? := by
    rw [List.reverse_append, List.getElem?_append_left (by rwa [List.length_reverse])]
  cases step with
  | element name => rw [Step.line, htail _ (by decide +kernel), Step.mark]; decide +kernel
  | handlers => rw [Step.line, htail _ (by decide +kernel), Step.mark]; decide +kernel
  | urls scheme => rw [Step.line, htail _ (by decide +kernel), Step.mark]; decide +kernel

theorem differs_of_mark {step step' : Step} (h : step.mark ≠ step'.mark) : step.Differs step' := by
  intro name name' heq
  have hmark := congrArg (·.reverse[3]?) heq
  simp only [mark_line, Option.some.injEq] at hmark
  exact h hmark

/-- Different steps of a policy tell different lines. -/
theorem pairwise_steps (p : Policy) : p.steps.Pairwise Step.Differs := by
  have helements : (dangerousElements.map Step.element).Pairwise Step.Differs := by
    have hnodup : dangerousElements.Nodup := by decide +kernel
    refine List.Pairwise.map _ (fun name name' hne _ _ heq => hne ?_) hnodup
    exact List.append_cancel_left (List.append_cancel_right heq)
  have hurls : (dangerousSchemes.map Step.urls).Pairwise Step.Differs := by
    have hnodup : dangerousSchemes.Nodup := by decide +kernel
    refine List.Pairwise.map _ (fun scheme scheme' hne _ _ heq => hne ?_) hnodup
    exact List.append_cancel_left (List.append_cancel_right heq)
  have hall : (dangerousElements.map Step.element
      ++ ([Step.handlers] ++ dangerousSchemes.map Step.urls)).Pairwise Step.Differs := by
    rw [List.singleton_append, List.pairwise_append, List.pairwise_cons]
    refine ⟨helements, ⟨?_, hurls⟩, ?_⟩
    · rw [List.forall_mem_map]
      exact fun scheme _ => differs_of_mark (by simp [Step.mark])
    · rw [List.forall_mem_map]
      intro name _ step hstep
      rcases List.mem_cons.mp hstep with rfl | hstep
      · exact differs_of_mark (by simp [Step.mark])
      · obtain ⟨scheme, -, rfl⟩ := List.mem_map.mp hstep
        exact differs_of_mark (by simp [Step.mark])
  refine hall.sublist ((List.filter_sublist.map _).append (.append ?_ ?_))
  · split <;> simp
  · split <;> simp

/-- Steps that tell different lines tell each line once, and nothing exactly if they leave the text
as it is. The induction is on the steps.
-/
theorem exists_lines_foldl {steps : List Step} (hsteps : steps.Pairwise Step.Differs) (o : Outcome)
    : ∃ lines, (steps.foldl Step.run o).issues = o.issues ++ lines ∧ lines.Nodup
      ∧ (∀ line ∈ lines, ∃ step ∈ steps, ∃ name, line = step.line name)
      ∧ (steps.foldl Step.run o).text <+ o.text
      ∧ (lines = [] ↔ (steps.foldl Step.run o).text.length = o.text.length) := by
  induction steps generalizing o with
  | nil => exact ⟨[], by simp, List.nodup_nil, by simp, .refl _, by simp⟩
  | cons step steps ih =>
      obtain ⟨hdiffers, hsteps⟩ := List.pairwise_cons.mp hsteps
      have hreports := step.reports o
      obtain ⟨first, hfirst, hnodup, hnames, hnone⟩ := hreports.exists_lines
      obtain ⟨more, hmore, hnodup', hnames', hsublist, hnone'⟩ := ih hsteps (step.run o)
      refine ⟨first ++ more, ?_, ?_, ?_, hsublist.trans hreports.sublist, ?_⟩
      · rw [List.foldl_cons, hmore, hfirst, List.append_assoc]
      · refine List.nodup_append.mpr ⟨hnodup, hnodup', fun line hline line' hline' => ?_⟩
        obtain ⟨name, rfl⟩ := hnames line hline
        obtain ⟨step', hstep', name', rfl⟩ := hnames' line' hline'
        exact hdiffers step' hstep' name name'
      · rw [List.forall_mem_append]
        exact ⟨fun line hline => ⟨step, List.mem_cons_self, hnames line hline⟩, fun line hline =>
          (hnames' line hline).imp fun step' h => ⟨List.mem_cons_of_mem _ h.1, h.2⟩⟩
      · have hle := hreports.sublist.length_le
        have hle' := hsublist.length_le
        rw [List.append_eq_nil_iff, hnone, hnone', List.foldl_cons]
        omega

/-- Removing what a policy names only deletes, and what is told about it is true: lines are told,
the text changes and it gets shorter together; no line is told twice; and each step cuts out what it
finds, each piece of it not empty, and tells the lines for it.
-/
theorem sanitize_reports (p : Policy) (s : Text)
    : (sanitize p s).text <+ s
      ∧ [(sanitize p s).modified = true, (sanitize p s).issues ≠ [], (sanitize p s).text ≠ s,
        (sanitize p s).text.length < s.length].TFAE
      ∧ (sanitize p s).issues.Nodup
      ∧ sanitize p s = p.steps.foldl Step.run ⟨s, []⟩
      ∧ ∀ before step after, p.steps = before ++ step :: after →
        step.Reports (before.foldl Step.run ⟨s, []⟩) ((before ++ [step]).foldl Step.run ⟨s, []⟩) := by
  obtain ⟨lines, hissues, hnodup, -, hsublist, hnone⟩ := exists_lines_foldl (pairwise_steps p) ⟨s, []⟩
  rw [← sanitize_eq_foldl] at hissues hsublist hnone
  rw [List.nil_append] at hissues
  rw [← hissues] at hnodup hnone
  have hle := hsublist.length_le
  refine ⟨hsublist, ?_, hnodup, sanitize_eq_foldl p s, fun before step after _ => ?_⟩
  · tfae_have 1 ↔ 2 := by
      simp [Outcome.modified]
    tfae_have 2 ↔ 4 := by
      rw [ne_eq, hnone]
      dsimp only at hle ⊢
      omega
    tfae_have 3 → 4 := by
      intro hne
      by_contra hlength
      exact hne (hsublist.eq_of_length_le (Nat.le_of_not_lt hlength))
    tfae_have 4 → 3 := by
      intro hlt heq
      rw [heq] at hlt
      exact Nat.lt_irrefl _ hlt
    tfae_finish
  · rw [List.foldl_append]
    exact step.reports _

end Sanitize

end SvgKit

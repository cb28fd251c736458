import SvgKit.Optimize.Basic

/-! When an optimization gives a result, and what its text is. -/

namespace SvgKit.Optimize

theorem toOption_eq_some_iff {ε α : Type} {x : Except ε α} {a : α}
    : x.toOption = some a ↔ x = .ok a := by
  cases x with
  | error e => simp [Except.toOption]
  | ok b => simp [Except.toOption]

/-- The content begins as documents do. -/
def beginsDocument (content : Text) : Bool :=
  Text.startsWith (Text.trim content) "<svg" || Text.startsWith (Text.trim content) "<?xml"

namespace Request

/-- The text that is minified: the content without blanks at its ends, and without what is
dangerous where that is removed.
-/
def checkedText (r : Request) : Text :=
  if r.sanitize then (Sanitize.sanitize {} (Text.trim r.content)).text else Text.trim r.content

/-- The text in the names that are asked for. -/
def named (r : Request) (s : Text) : Text :=
  if r.camelCase then Markup.camelCaseAttributes s else s

end Request

/-- The check of the size, where there is a limit to it. -/
def Request.checkLimit (r : Request) : Except Failure Unit :=
  r.limit.elim (.ok ()) fun limit => checkSize limit (Text.trim r.content)

theorem shrink_eq (s : Text) : Minify.shrink 3 s = (Minify.finish true 3 s).map (·.text) := by
  rw [Minify.shrink, Minify.run]
  cases Minify.finish true 3 s <;> rfl

/-- The text of an optimization: the content has to begin as documents do and not to be too
large, and is minified.
-/
theorem text_run (r : Request)
    : (run r).map (·.text)
      = if beginsDocument r.content then do
          r.checkLimit
          let f ← Minify.finish true 3 r.checkedText
          pure (r.named f.text)
        else .error .notSvg := by
  have hshrink := shrink_eq r.checkedText
  obtain ⟨content, filename, camelCase, sanitize, limit⟩ := r
  unfold run runWith runTasks beginsDocument Request.checkLimit Request.named
  unfold Request.checkedText at hshrink ⊢
  dsimp only at hshrink ⊢
  cases hbegins : Text.startsWith (Text.trim content) "<svg"
      || Text.startsWith (Text.trim content) "<?xml" with
  | false => rfl
  | true =>
      generalize Minify.finish true 3
          (if sanitize then (Sanitize.sanitize {} (Text.trim content)).text
            else Text.trim content) = finished at hshrink ⊢
      cases sanitize <;>
      · simp only [Bool.false_eq_true, ↓reduceIte] at hshrink ⊢
        simp only [hshrink]
        cases limit with
        | none => cases finished <;> rfl
        | some limit =>
            simp only [Option.elim_some]
            cases checkSize limit (Text.trim content) <;> cases finished <;> rfl

/-- The text of an optimization that succeeds is the minified one, in the names that are asked
for.
-/
theorem exists_finish_of_text {r : Request} {result : Result} (h : run r = .ok result)
    : beginsDocument r.content
      ∧ ∃ f, Minify.finish true 3 r.checkedText = .ok f ∧ result.text = r.named f.text := by
  have htext := text_run r
  rw [h] at htext
  cases hbegins : beginsDocument r.content with
  | false =>
      rw [hbegins, if_neg Bool.false_ne_true] at htext
      cases htext
  | true =>
      rw [hbegins, if_pos rfl] at htext
      refine ⟨rfl, ?_⟩
      cases hsize : r.checkLimit with
      | error failure =>
          rw [hsize] at htext
          cases htext
      | ok _ =>
          cases hfinish : Minify.finish true 3 r.checkedText with
          | error failure =>
              rw [hsize, hfinish] at htext
              cases htext
          | ok f =>
              rw [hsize, hfinish] at htext
              exact ⟨f, rfl, Except.ok.inj htext⟩

/-- An optimization without a limit succeeds if its text is minified. -/
theorem exists_run_of_finish {r : Request} {f : Minify.Finish}
    (hbegins : beginsDocument r.content) (hlimit : r.limit = none)
    (hfinish : Minify.finish true 3 r.checkedText = .ok f)
    : ∃ result, run r = .ok result ∧ result.text = r.named f.text := by
  have htext := text_run r
  have hsize : r.checkLimit = .ok () := by
    rw [Request.checkLimit, hlimit]
    rfl
  rw [if_pos hbegins, hsize, hfinish] at htext
  cases hrun : run r with
  | error failure =>
      rw [hrun] at htext
      cases htext
  | ok result =>
      rw [hrun] at htext
      exact ⟨result, rfl, Except.ok.inj htext⟩

end SvgKit.Optimize

import SvgKit.Proofs.Minify.Totality
import SvgKit.Proofs.Optimize.Run

/-! How an optimization fails: as its callers expect it, save for two gaps, a limit that is too great
for a floating point number and an encoding that is declared where the declaration is not dropped.
-/

namespace SvgKit

-----------------------------------------------------------------------------------------
-- Reading
-----------------------------------------------------------------------------------------

/-- Reading a document fails as minification is expected to, unless an encoding is declared. -/
theorem Minify.kind_of_readDocument {s : Text} {failure : Failure}
    (h : readDocument s = .error failure)
    : failure.kind = if declaresEncoding (dropDeclaration s) then .value else .optimizer := by
  unfold readDocument at h
  dsimp only at h
  split at h
  · next hdeclares =>
      cases h
      rw [if_pos hdeclares]
      rfl
  · next hdeclares =>
      rw [if_neg hdeclares]
      split at h
      · cases h
        rfl
      · split at h <;> cases h
        rfl

/-- A text too large is refused as such if its size and the limit can both be told. -/
theorem kind_of_checkSize {limit : Int} {s : Text} {failure : Failure}
    (h : checkSize limit s = .error failure)
    : failure.kind
      = if isCountable s.utf8Size && isCountable limit then .contentTooLarge else .overflow := by
  unfold checkSize at h
  dsimp only at h
  split at h
  · cases h
    split <;> rfl
  · cases h

namespace Optimize

-----------------------------------------------------------------------------------------
-- Optimizations
-----------------------------------------------------------------------------------------

/-- The kinds of failure that callers of an optimization are prepared for. -/
def expectedKinds : List FailureKind := [.invalidInput, .contentTooLarge, .optimizer]

namespace Request

/-- The content is larger than the limit, and its size or the limit is too great to be told. -/
def HasUncountable (r : Request) : Prop :=
  ∃ limit ∈ r.limit, limit < (Text.trim r.content).utf8Size
    ∧ (Binary64.overflow ≤ (Text.trim r.content).utf8Size ∨ Binary64.overflow ≤ limit.natAbs)

/-- The content is within the limit, and an encoding is declared in what is left of its text when
the first declaration is dropped.
-/
def KeepsEncoding (r : Request) : Prop :=
  r.checkLimit = .ok () ∧ Minify.declaresEncoding (Minify.dropDeclaration r.checkedText)

end Request

theorem checkLimit_of_error {r : Request} {failure : Failure} (h : r.checkLimit = .error failure)
    : failure.kind ∈ expectedKinds ↔ ¬ r.HasUncountable := by
  unfold Request.checkLimit at h
  unfold Request.HasUncountable
  cases hlimit : r.limit with
  | none =>
      rw [hlimit] at h
      cases h
  | some limit =>
      rw [hlimit, Option.elim_some] at h
      have hlarge : limit < (Text.trim r.content).utf8Size := by
        by_contra hle
        rw [checkSize_eq_ok_iff.mpr (Int.not_lt.mp hle)] at h
        cases h
      rw [kind_of_checkSize h]
      simp only [Bool.and_eq_true, isCountable_iff, Int.natAbs_natCast]
      split
      · next hcount => simp [expectedKinds, hcount]
      · next hcount =>
          refine iff_of_false (by decide) (not_not.mpr ⟨limit, rfl, hlarge, ?_⟩)
          rw [not_and_or, Nat.not_lt, Nat.not_lt] at hcount
          exact hcount

/-- An optimization gives a result or fails as its callers expect, for all contents, file names,
settings and limits, exactly if none of two gaps is met: the content begins as documents do, and a
number that has to be told is too great for it, or an encoding is declared where the declaration is
not dropped.
-/
theorem run_isExpected_iff (r : Request)
    : ((∃ result, run r = .ok result)
        ∨ ∃ failure, run r = .error failure ∧ failure.kind ∈ expectedKinds)
      ↔ ¬ (beginsDocument r.content ∧ (r.HasUncountable ∨ r.KeepsEncoding)) := by
  have htext := text_run r
  have hfails {failure : Failure} (h : (run r).map (·.text) = .error failure)
      : ((∃ result, run r = .ok result)
          ∨ ∃ failure, run r = .error failure ∧ failure.kind ∈ expectedKinds)
        ↔ failure.kind ∈ expectedKinds := by
    cases hrun : run r with
    | error failure =>
        rw [hrun] at h
        cases h
        simp
    | ok result =>
        rw [hrun] at h
        cases h
  cases hbegins : beginsDocument r.content with
  | false =>
      rw [hbegins, if_neg Bool.false_ne_true] at htext
      exact (hfails htext).trans (iff_of_true (by decide) (by simp))
  | true =>
      rw [hbegins, if_pos rfl] at htext
      cases hlimit : r.checkLimit with
      | error failure =>
          rw [hlimit] at htext
          rw [hfails htext, checkLimit_of_error hlimit]
          simp [Request.KeepsEncoding, hlimit]
      | ok _ =>
          rw [hlimit] at htext
          have hcount : ¬ r.HasUncountable := by
            rintro ⟨limit, hsome, hlarge, -⟩
            rw [Request.checkLimit, Option.mem_def.mp hsome, Option.elim_some,
              checkSize_eq_ok_iff] at hlimit
            omega
          cases hfinish : Minify.finish true 3 r.checkedText with
          | error failure =>
              rw [hfinish] at htext
              have hkind := Minify.kind_of_readDocument
                ((Minify.finish_eq_error_iff (by decide)).mp hfinish)
              rw [hfails htext, hkind]
              simp only [Request.KeepsEncoding, hlimit, hcount, false_or, true_and]
              split
              · next hdeclares => exact iff_of_false (by decide) (by simp [hdeclares])
              · next hdeclares => exact iff_of_true (by decide) (by simp [hdeclares])
          | ok f =>
              have hread : Minify.declaresEncoding (Minify.dropDeclaration r.checkedText) = false := by
                by_contra hdeclares
                have herror : Minify.readDocument r.checkedText = .error .declaredEncoding := by
                  rw [Bool.not_eq_false] at hdeclares
                  rw [Minify.readDocument]
                  exact if_pos hdeclares
                rw [(Minify.finish_eq_error_iff (by decide)).mpr herror] at hfinish
                cases hfinish
              refine iff_of_true (.inl ?_) (by simp [Request.KeepsEncoding, hcount, hread])
              cases hrun : run r with
              | error failure =>
                  rw [hfinish, hrun] at htext
                  cases htext
              | ok result => exact ⟨result, rfl⟩

/-- Requests that meet the gaps: a limit far below zero, and a declaration that is not dropped as
there is a bracket in it.
-/
def unexpectedRequests : List Request :=
  [{ content := "<svg/>", limit := some (-2 ^ 1024) },
    { content := "<?xml version=\"1.0\" encoding=\"utf-8\" a=\">\"?><svg/>" },
    { content := "<?xml a?><?xml version=\"1.0\" encoding=\"utf-8\"?><svg/>" }]

/-- They fail in ways that no caller expects. -/
theorem run_unexpectedRequests
    : List.Forall (fun r => ∃ failure, run r = .error failure ∧ failure.kind ∉ expectedKinds)
      unexpectedRequests := by
  have hall : unexpectedRequests.all fun r =>
      match run r with
      | .error failure => !expectedKinds.contains failure.kind
      | .ok _ => false := by
    decide +kernel
  rw [List.forall_iff_forall_mem]
  intro r hr
  have hr := List.all_eq_true.mp hall r hr
  cases hrun : run r with
  | ok result =>
      rw [hrun] at hr
      cases hr
  | error failure =>
      rw [hrun] at hr
      exact ⟨failure, rfl, by simpa using hr⟩

end Optimize

end SvgKit

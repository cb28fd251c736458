import SvgKit.Proofs.Minify.Soundness
import SvgKit.Proofs.Number.Range

/-! Minification that rounds to decimal places fails only where reading fails: every document that
is read is minified.
-/

namespace SvgKit

section Totality

variable {precision : Int} (hprecision : 0 ≤ precision)

/-- Steps that all succeed succeed together, by induction over the list. -/
theorem exists_mapM_eq_ok {α β ε : Type} {f : α → Except ε β} {l : List α}
    (h : ∀ a ∈ l, ∃ b, f a = .ok b)
    : ∃ l', l.mapM f = .ok l' := by
  induction l with
  | nil => exact ⟨[], rfl⟩
  | cons a l ih =>
      obtain ⟨hfirst, hrest⟩ := List.forall_mem_cons.mp h
      obtain ⟨b, hb⟩ := hfirst
      obtain ⟨l', hl'⟩ := ih hrest
      exact ⟨b :: l', by rw [List.mapM_cons, hb, hl']; rfl⟩

namespace Numeral

include hprecision

theorem exists_shorten {x : Binary64} (hx : x.InRange) : ∃ s, shorten precision x = .ok s := by
  obtain ⟨y, hy⟩ := Binary64.exists_roundTo? hprecision hx
  refine ⟨dropZeros (y.fixed precision.toNat), ?_⟩
  rw [shorten, hy]
  exact if_neg (by omega)

/-- The numerals in a text can all be shortened: each writes a number, or one beyond them all. -/
theorem exists_shortenAll (s : Text) : ∃ s', shortenAll precision s = .ok s' := by
  have hpieces : ∀ piece ∈ scanner.pieces s, ∃ s', shortenPiece precision piece = .ok s' := by
    intro piece _
    cases piece with
    | plain c => exact ⟨[c], rfl⟩
    | found n => exact exists_shorten hprecision (Binary64.inRange_ofDecimal _ _ _)
  obtain ⟨parts, hparts⟩ := exists_mapM_eq_ok hpieces
  exact ⟨parts.flatten, by rw [shortenAll, hparts]; rfl⟩

end Numeral

namespace Minify

open Xml

-----------------------------------------------------------------------------------------
-- Heads and trees
-----------------------------------------------------------------------------------------

include hprecision

theorem exists_compactPath (d : Text) : ∃ d', compactPath precision d = .ok d' := by
  obtain ⟨rounded, hrounded⟩ := Numeral.exists_shortenAll hprecision d
  unfold compactPath
  split
  · exact ⟨_, rfl⟩
  · rw [hrounded]
    exact ⟨_, rfl⟩

theorem exists_roundAttribute (a : Attribute) : ∃ a', roundAttribute precision a = .ok a' := by
  unfold roundAttribute
  split
  · obtain ⟨value, hvalue⟩ := exists_compactPath hprecision a.value
    exact ⟨_, by rw [hvalue]; rfl⟩
  · split
    · obtain ⟨value, hvalue⟩ := Numeral.exists_shortenAll hprecision a.value
      exact ⟨_, by rw [compactNumbers, hvalue]; rfl⟩
    · exact ⟨a, rfl⟩

theorem exists_shortenHead (outer : List Head) (h : Head)
    : ∃ h', shortenHead precision outer h = .ok h' := by
  obtain ⟨attributes, hattributes⟩ := exists_mapM_eq_ok (l := (dropDefaults outer h).attributes)
    fun a _ => exists_roundAttribute hprecision a
  exact ⟨_, by rw [shortenHead, roundNumbers, hattributes]; rfl⟩

/-- The heads of a forest can all be shortened, by induction over the forest. -/
theorem exists_shortenNodes (outer : List Head) (nodes : List Node)
    : ∃ nodes', shortenNodes precision outer nodes = .ok nodes' := by
  induction nodes using Node.forest_induction generalizing outer with
  | nil => exact ⟨[], rfl⟩
  | element h content nodes inside behind =>
      obtain ⟨head, hhead⟩ := exists_shortenHead hprecision outer h
      obtain ⟨content', hcontent⟩ := inside (head :: outer)
      obtain ⟨nodes', hnodes⟩ := behind outer
      exact ⟨_, shortenNodes_element.mpr ⟨head, content', nodes', hhead, hcontent, hnodes, rfl⟩⟩
  | text s nodes behind =>
      obtain ⟨nodes', hnodes⟩ := behind outer
      exact ⟨_, shortenNodes_text.mpr ⟨nodes', hnodes, rfl⟩⟩
  | entity name nodes behind =>
      obtain ⟨nodes', hnodes⟩ := behind outer
      exact ⟨_, shortenNodes_entity.mpr ⟨nodes', hnodes, rfl⟩⟩

theorem exists_shortenElement (e : Element) : ∃ e', shortenElement precision e = .ok e' := by
  obtain ⟨head, hhead⟩ := exists_shortenHead hprecision [] e.head
  obtain ⟨content, hcontent⟩ := exists_shortenNodes hprecision [head] e.content
  refine ⟨⟨head, content⟩, ?_⟩
  rw [shortenElement, hhead]
  change (shortenNodes precision [head] e.content >>= _) = _
  rw [hcontent]
  rfl

-----------------------------------------------------------------------------------------
-- Runs
-----------------------------------------------------------------------------------------

/-- A pass over a document succeeds. -/
theorem exists_pass (d : Document) : ∃ d', pass precision d = .ok d' := by
  obtain ⟨root, hroot⟩ := exists_shortenElement hprecision
    (removeUnusedIds (dropVersion (removeEditorContent d))).root
  exact ⟨_, pass_eq_ok.mpr ⟨root, hroot, rfl⟩⟩

/-- Any number of passes succeeds, by induction over the number. -/
theorem exists_runPasses (done count : Nat) (d : Document) (text : Text)
    : ∃ f, runPasses precision done count d text = .ok f := by
  induction count generalizing done d text with
  | zero => exact ⟨_, rfl⟩
  | succ count ih =>
      obtain ⟨next, hnext⟩ := exists_pass hprecision d
      rw [runPasses, hnext]
      change ∃ f, (if next.root.write = text then _ else _) = _
      split
      · exact ⟨_, rfl⟩
      · exact ih _ _ _

/-- Minification fails in the ways in which reading the document fails, and in no other. -/
theorem finish_eq_error_iff {multipass : Bool} {s : Text} {failure : Failure}
    : finish multipass precision s = .error failure ↔ readDocument s = .error failure := by
  unfold finish
  cases hread : readDocument s with
  | error e => exact ⟨fun h => by cases h; rfl, fun h => by cases h; rfl⟩
  | ok d =>
      obtain ⟨f, hf⟩ := exists_runPasses hprecision 0 (if multipass then maxPasses else 1) d
        d.root.write
      change runPasses _ _ _ _ _ = _ ↔ _
      rw [hf]
      simp

end Minify

end Totality

end SvgKit

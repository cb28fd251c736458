import SvgKit.Proofs.Minify.Capitals
import SvgKit.Proofs.Optimize.Safety

/-! An optimized text is optimized to itself exactly if it begins as documents do and no text is lost
when it is read, where the drawing is all there in its text and the passes read the new names as
they read the old ones.
-/

namespace SvgKit.Optimize

open Markup (withCapitals)
open Minify (IsFinal TakesCapitals finish readDocument)
open Xml (Binding Document Element Node)

-----------------------------------------------------------------------------------------
-- Written drawings
-----------------------------------------------------------------------------------------

theorem trim_write (e : Element) : Text.trim e.write = e.write := by
  obtain ⟨s, hs⟩ : ∃ s, e.write = '<' :: (s ++ ['>']) := by
    rw [Element.write, Xml.elementText]
    split
    · exact ⟨e.head.text ++ ['/'], by simp⟩
    · exact ⟨e.head.text ++ '>' :: Node.writeAll e.content ++ '<' :: '/' :: e.head.name.text,
        by simp⟩
  rw [hs]
  exact Text.trim_eq_self (by decide) (by decide) s

/-- The tree that is written in the end: with capitals in its names where they are asked for. -/
def finalTree (camelCase : Bool) (e : Element) : Element :=
  if camelCase then withCapitals e else e

section Final

variable {made : List Binding} {d : Document} {camelCase : Bool}
  (hd : IsFinal 3 made d) (ht : camelCase → TakesCapitals 3 d.root)
include hd ht

theorem isFinal_finalTree : IsFinal 3 made { d with root := finalTree camelCase d.root } := by
  cases camelCase with
  | false => exact hd
  | true => exact hd.withCapitals (ht rfl)

/-- The names that are asked for are the names in the final tree. -/
theorem named_write {r : Request} (hr : r.camelCase = camelCase)
    : r.named d.root.write = (finalTree camelCase d.root).write := by
  subst hr
  unfold Request.named finalTree
  split
  · next hcapitals =>
      exact Markup.camelCaseAttributes_write hd.sound.ledger (ht hcapitals).scanned hd.sound.tree
        (Minify.allSound_withCapitals hd.sound.tree (ht hcapitals))
  · rfl

/-- The text of the final tree has the names that are asked for. -/
theorem named_write_finalTree {r : Request} (hr : r.camelCase = camelCase)
    : r.named (finalTree camelCase d.root).write = (finalTree camelCase d.root).write := by
  subst hr
  unfold Request.named finalTree
  split
  · next hcapitals =>
      have hscanned := (ht hcapitals).scanned
      have hsound := Minify.allSound_withCapitals hd.sound.tree (ht hcapitals)
      have hagain := Markup.camelCaseAttributes_write hd.sound.ledger
        (Markup.hasScannedNames_withCapitals hscanned) hsound
      rw [Markup.withCapitals_withCapitals hscanned] at hagain
      exact hagain hsound
  · rfl

end Final

theorem allLeaves_finalTree (camelCase : Bool) (e : Element)
    : Node.allLeaves (finalTree camelCase e).forest = Node.allLeaves e.forest := by
  cases camelCase with
  | false => rfl
  | true =>
      rw [finalTree, if_pos rfl, Markup.forest_withCapitals, Node.allLeaves_mapAllHeads]

-----------------------------------------------------------------------------------------
-- Drawings in their text
-----------------------------------------------------------------------------------------

/-- The node is text, and not the empty one. -/
def holdsText : Node → Bool
  | .text s => !s.isEmpty
  | _ => false

theorem isText_of_holdsText {leaf : Node} (h : holdsText leaf) : leaf.isText := by
  cases leaf with
  | element head content => cases h
  | text s => rfl
  | entity name => cases h

/-- A drawing that is all there in its text: it refers to no entities, has no empty text, and each
name in it belongs to what its label means.
-/
structure IsExplicit (e : Element) : Prop where
  plain : ∀ h ∈ e.heads, h.Plain
  leaves : ∀ leaf ∈ Node.allLeaves e.forest, holdsText leaf
  names : e.isExact

instance (e : Element) : Decidable (IsExplicit e) :=
  decidable_of_iff ((∀ h ∈ e.heads, ∀ a ∈ h.attributes, a.spelling = none)
      ∧ (∀ leaf ∈ Node.leavesOf e.forest, holdsText leaf) ∧ e.isExact) (by
    rw [Node.leavesOf_eq]
    exact ⟨fun h => ⟨h.1, h.2.1, h.2.2⟩, fun h => ⟨h.plain, h.leaves, h.names⟩⟩)

/-- What is read in the text has as many pieces of text as the drawing. -/
def KeepsText (text : Text) (e : Element) : Prop :=
  ∀ d, readDocument text = .ok d →
    (Node.allLeaves d.root.forest).length = (Node.allLeaves e.forest).length

instance (text : Text) (e : Element) : Decidable (KeepsText text e) :=
  decidable_of_iff (∀ d ∈ (readDocument text).toOption,
      (Node.leavesOf d.root.forest).length = (Node.leavesOf e.forest).length) (by
    simp only [Node.leavesOf_eq, Option.mem_def, toOption_eq_some_iff]
    rfl)

section Again

variable {made : List Binding} {d : Document} (hd : IsFinal 3 made d)
include hd

/-- A final drawing is minified from its text to that text if no text in it is lost. -/
theorem exists_finish_of_keepsText (hkeeps : KeepsText d.root.write d.root)
    : ∃ f, finish true 3 d.root.write = .ok f ∧ f.text = d.root.write := by
  apply hd.exists_finish
  intro d' hread
  exact Nat.le_of_eq (hkeeps d' hread).symm

/-- No text in a final drawing is lost if its text is minified to one that is the same in the names
that are asked for: the passes add no weight, and what is lost has some.
-/
theorem keepsText_of_finish {r : Request} {f : Minify.Finish}
    (hleaves : ∀ leaf ∈ Node.allLeaves d.root.forest, holdsText leaf)
    (hfinish : finish true 3 d.root.write = .ok f) (hsame : r.named f.text = d.root.write)
    : KeepsText d.root.write d.root := by
  intro d' hread
  obtain ⟨d₁, _, hread₁, -, -, ⟨_, -, hf, hchanges⟩, hwrite⟩ :=
    Minify.exists_steps_of_finish hfinish
  obtain ⟨d₂, hread₂, -, hreread⟩ := Minify.exists_readDocument_write hd.sound hd.tidy hd.base
    (Node.allResolve_of_areExact hd.names)
  obtain rfl : d' = d₁ := Except.ok.inj (hread.symm.trans hread₁)
  obtain rfl : d' = d₂ := Except.ok.inj (hread.symm.trans hread₂)
  have hshrinks := hchanges.weight_le
  have hfull : Node.text [] ∉ Node.allLeaves d.root.forest := fun hmem => by
    cases hleaves _ hmem
  have hlost := hreread.weight_add_length_le hfull
  have hfewer := hreread.length_leaves
  -- the final text has the weight of the drawing
  obtain ⟨tagOf, hsoundTags, -, hnamed⟩ := exists_says hf r.camelCase
  have htags : ∀ h ∈ Node.allHeads f.document.root.forest, (tagOf h).Sound := fun h hh =>
    hsoundTags _ _ hf.ledger h (hf.tree.heads h hh)
  have hwhole : Node.weight f.document.root.forest = Node.weight d.root.forest := by
    rw [← Xml.footprint_write hd.sound.ledger hd.sound.tree, ← hsame, Request.named, ← hwrite,
      hnamed]
    have hfootprint := Xml.footprint_writeAllWith hf.ledger hf.tree htags []
    rw [List.append_nil] at hfootprint
    exact hfootprint.symm
  omega

end Again

-----------------------------------------------------------------------------------------
-- Optimization of optimized texts
-----------------------------------------------------------------------------------------

/-- Where the passes settle with a drawing that is all there in its text, the text of the result is
optimized to itself exactly if it begins as documents do and no text is lost when it is read. The
names with capitals, where they are asked for, mean as much to a pass as the names that they are
made of.
-/
theorem run_text_iff {content : Text} {camelCase : Bool} {result : Result}
    (hrun : run { content, camelCase } = .ok result)
    : ∃ f, finish true 3 (Text.trim content) = .ok f
      ∧ (f.settled → IsExplicit f.document.root →
        (camelCase → TakesCapitals 3 f.document.root) →
        ((∃ again, run { content := result.text, camelCase } = .ok again
            ∧ again.text = result.text)
          ↔ beginsDocument result.text ∧ KeepsText result.text f.document.root)) := by
  obtain ⟨-, f, hfinish, htext⟩ := exists_finish_of_text hrun
  refine ⟨f, hfinish, ?_⟩
  intro hsettled hexplicit hcapitals
  obtain ⟨⟨made, hd⟩, hwrite⟩ := Minify.isFinal_of_finish hfinish hsettled hexplicit.plain
    (fun leaf hleaf => isText_of_holdsText (hexplicit.leaves leaf hleaf)) hexplicit.names
  have hfinal := isFinal_finalTree hd hcapitals
  have hleaves := allLeaves_finalTree camelCase f.document.root
  have hresult : result.text = (finalTree camelCase f.document.root).write := by
    rw [htext, ← hwrite]
    exact named_write hd hcapitals rfl
  have hchecked : Request.checkedText { content := result.text, camelCase }
      = (finalTree camelCase f.document.root).write := by
    change Text.trim result.text = _
    rw [hresult, trim_write]
  have hkeeps : KeepsText result.text f.document.root
      ↔ KeepsText (finalTree camelCase f.document.root).write
        (finalTree camelCase f.document.root) := by
    rw [hresult, KeepsText, KeepsText, hleaves]
  rw [hkeeps]
  constructor
  · rintro ⟨again, hagain, hsame⟩
    obtain ⟨hbegins, g, hg, hgtext⟩ := exists_finish_of_text hagain
    refine ⟨hbegins, ?_⟩
    apply keepsText_of_finish hfinal (hleaves ▸ hexplicit.leaves) (hchecked ▸ hg)
    exact hgtext.symm.trans (hsame.trans hresult)
  · rintro ⟨hbegins, hkept⟩
    obtain ⟨g, hg, hgtext⟩ := exists_finish_of_keepsText hfinal hkept
    obtain ⟨again, hagain, htext'⟩ := exists_run_of_finish
      (r := { content := result.text, camelCase }) hbegins rfl (hchecked ▸ hg)
    refine ⟨again, hagain, ?_⟩
    rw [htext', hgtext, hresult]
    exact named_write_finalTree hd hcapitals rfl

/-- It has a group to be removed, a name with a hyphen, a reference and white space in text. -/
private def referringDrawing : Text :=
  "<svg><g/><a id=\"x\" stroke-width=\"2.50\"/> <text>b <c/> d</text><use href=\"#x\"/></svg>"

theorem run_text_referringDrawing
    : ∃ result again, run { content := referringDrawing, camelCase := true } = .ok result
      ∧ result.text = ("<svg><a id=\"x\" strokeWidth=\"2.5\"/><text>b <c/> d</text>"
        ++ "<use href=\"#x\"/></svg>" : Text)
      ∧ run { content := result.text, camelCase := true } = .ok again
      ∧ again.text = result.text := by
  have hfacts : (run { content := referringDrawing, camelCase := true }).toOption.any
      fun result => result.text = ("<svg><a id=\"x\" strokeWidth=\"2.5\"/><text>b <c/> d</text>"
          ++ "<use href=\"#x\"/></svg>" : Text)
        ∧ beginsDocument result.text
        ∧ ∀ f ∈ (finish true 3 (Text.trim referringDrawing)).toOption,
          f.settled ∧ IsExplicit f.document.root ∧ TakesCapitals 3 f.document.root
            ∧ KeepsText result.text f.document.root := by
    decide +kernel
  obtain ⟨result, hresult, hall⟩ := (Option.any_eq_true _ _).mp hfacts
  obtain ⟨htext, hbegins, hfinal⟩ := of_decide_eq_true hall
  have hrun := toOption_eq_some_iff.mp hresult
  obtain ⟨f, hfinish, hiff⟩ := run_text_iff hrun
  obtain ⟨hsettled, hexplicit, hcapitals, hkeeps⟩ := hfinal f (toOption_eq_some_iff.mpr hfinish)
  obtain ⟨again, hagain, hsame⟩ :=
    (hiff hsettled hexplicit fun _ => hcapitals).mpr ⟨hbegins, hkeeps⟩
  exact ⟨result, again, hrun, htext, hagain, hsame⟩

/-- Drawings that are optimized to something else the second time: the root has a prefix, the
declarations of entities are gone, a name loses what its label meant, text is empty or only blank,
or the names with capitals are two of one element, refer to nothing, hold numbers or are not all
read.
-/
def changedDrawings : List Request :=
  [ { content := "<?xml version=\"1.0\"?><p:svg xmlns:p=\"U\"/>", camelCase := false },
    { content := "<?xml version=\"1.0\"?><!DOCTYPE svg [<!ENTITY e \"x\">]><svg>&e;</svg>",
      camelCase := false },
    { content := "<?xml version=\"1.0\"?><!DOCTYPE svg [<!ENTITY e \"x\">]><svg a=\"&e;\"/>",
      camelCase := false },
    { content := "<svg xmlns=\"http://www.bohemiancoding.com/sketch/ns\"><a xmlns=\"\"/></svg>",
      camelCase := false },
    { content := "<svg><a><![CDATA[]]></a></svg>", camelCase := false },
    { content := "<svg><a/><![CDATA[ ]]></svg>", camelCase := false },
    { content := "<svg stroke-width=\"1\" strokeWidth=\"2\"/>", camelCase := true },
    { content := "<svg aria-labelledby=\"t\"><title id=\"t\">x</title></svg>",
      camelCase := true },
    { content := "<svg x-1=\"1.50\"/>", camelCase := true },
    { content := "<svg fill-opacity=\"0.5\"><é fill-opacity=\"1\"/></svg>",
      camelCase := true } ]

/-- Although the passes settle, the second result differs from the first one, or there is none. -/
theorem not_run_text_changedDrawings
    : changedDrawings.Forall fun r => ∃ f result, finish true 3 (Text.trim r.content) = .ok f
      ∧ f.settled ∧ run { content := r.content, camelCase := r.camelCase } = .ok result
      ∧ ¬ ∃ again, run { content := result.text, camelCase := r.camelCase } = .ok again
        ∧ again.text = result.text := by
  have hall : changedDrawings.all fun r =>
      ((finish true 3 (Text.trim r.content)).toOption.any (·.settled))
        && (run { content := r.content, camelCase := r.camelCase }).toOption.any fun result =>
          !(run { content := result.text, camelCase := r.camelCase }).toOption.any
            (·.text = result.text) := by
    decide +kernel
  apply List.forall_iff_forall_mem.mpr
  intro r hr
  obtain ⟨hfinish, hrun⟩ := Bool.and_eq_true_iff.mp (List.all_eq_true.mp hall r hr)
  obtain ⟨f, hf, hsettled⟩ := (Option.any_eq_true _ _).mp hfinish
  obtain ⟨result, hresult, hagain⟩ := (Option.any_eq_true _ _).mp hrun
  refine ⟨f, result, toOption_eq_some_iff.mp hf, hsettled, toOption_eq_some_iff.mp hresult, ?_⟩
  rintro ⟨again, hrunAgain, hsame⟩
  rw [toOption_eq_some_iff.mpr hrunAgain, Option.any_some, hsame] at hagain
  simp at hagain

end SvgKit.Optimize

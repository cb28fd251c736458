import SvgKit.Proofs.Minify.Source
import SvgKit.Proofs.Sanitize.Settled

/-! What is removed from a document. The removals look at text and not at its markup: a document is
left if each of them cuts out a whole.
-/

namespace SvgKit

-----------------------------------------------------------------------------------------
-- Cuts
-----------------------------------------------------------------------------------------

/-- A piece that is cut out of a text: what stands in front of it by then, the piece, and the rest. -/
structure Cut where
  front : Text
  removed : Text
  rest : Text
  deriving Repr, DecidableEq

/-- The text from which the piece is cut out. -/
def Cut.before (cut : Cut) : Text := cut.front ++ (cut.removed ++ cut.rest)

/-- The text that is left. -/
def Cut.after (cut : Cut) : Text := cut.front ++ cut.rest

namespace Scanner

variable {α : Type} (p : Scanner α)

/-- The scanner without the items. -/
def forget : Scanner Unit where
  read s := (p.read s).map fun found => ((), found.2)
  shorter h := by
    obtain ⟨⟨item, rest⟩, hread, heq⟩ := Option.map_eq_some_iff.mp h
    cases heq
    exact p.shorter hread
  suffix h := by
    obtain ⟨⟨item, rest⟩, hread, heq⟩ := Option.map_eq_some_iff.mp h
    cases heq
    exact p.suffix hread

/-- The cuts that delete the items of a text, one after the other, behind what has been kept. -/
def cutsBehind (front s : Text) : List Cut :=
  match s with
  | [] => []
  | c :: s =>
    match _found : p.read (c :: s) with
    | some (_, rest) =>
      ⟨front, (c :: s).take ((c :: s).length - rest.length), rest⟩ :: cutsBehind front rest
    | none => cutsBehind (front ++ [c]) s
termination_by s.length
decreasing_by
  · exact p.shorter _found
  · simp

/-- The cuts that delete the items of a text. -/
def cuts (s : Text) : List Cut := p.cutsBehind [] s

variable {p}

theorem cutsBehind_of_read_none {c : Char} {s : Text} (h : p.read (c :: s) = none) (front : Text)
    : p.cutsBehind front (c :: s) = p.cutsBehind (front ++ [c]) s := by
  rw [cutsBehind]
  split
  · next hread => simp [h] at hread
  · rfl

theorem cutsBehind_of_read {s rest : Text} {item : α} (h : p.read s = some (item, rest))
    (front : Text)
    : p.cutsBehind front s
      = ⟨front, s.take (s.length - rest.length), rest⟩ :: p.cutsBehind front rest := by
  cases s with
  | nil => exact absurd (p.shorter h) (by simp)
  | cons c s =>
      rw [cutsBehind]
      split
      · next item' rest' hread =>
          obtain ⟨-, rfl⟩ : item' = item ∧ rest' = rest := by simpa [h] using hread.symm
          rfl
      · next hread => simp [h] at hread

/-- What every cut keeps is kept by the deletion of all items. The induction follows the scanner. -/
theorem delete_induction {P : Text → Prop} (front : Text) {s : Text} (h : P (front ++ s))
    (hcut : ∀ cut ∈ p.cutsBehind front s, P cut.before → P cut.after)
    : P (front ++ p.delete s) := by
  induction s using p.induction generalizing front with
  | nil => simpa [delete] using h
  | plain c s hread ih =>
      rw [cutsBehind_of_read_none hread] at hcut
      rw [delete, replace_of_read_none hread, ← delete, List.append_cons]
      exact ih _ (by rwa [← List.append_cons]) hcut
  | found s item rest hread ih =>
      rw [cutsBehind_of_read hread, List.forall_mem_cons] at hcut
      obtain ⟨removed, hs⟩ := p.suffix hread
      have htake : s.take (s.length - rest.length) = removed := by simp [← hs]
      rw [delete, replace_of_read hread, List.nil_append, ← delete]
      refine ih front (hcut.1 ?_) hcut.2
      rw [Cut.before, htake, hs]
      exact h

theorem delete_eq_of_finds {s : Text} (h : p.finds s = false) : p.delete s = s := by
  induction s with
  | nil => simp [delete]
  | cons c s ih =>
      rw [finds, Bool.or_eq_false_iff, Option.isSome_eq_false_iff, Option.isNone_iff_eq_none] at h
      rw [delete, replace_of_read_none h.1, ← delete, ih h.2]

theorem delete_forget (p : Scanner α) (s : Text) : p.forget.delete s = p.delete s := by
  induction s using p.induction with
  | nil => simp [delete]
  | plain c s hread ih =>
      have hread' : p.forget.read (c :: s) = none := Option.map_eq_none_iff.mpr hread
      rw [delete, replace_of_read_none hread', ← delete, ih, delete, delete,
        replace_of_read_none hread]
  | found s item rest hread ih =>
      have hread' : p.forget.read s = some ((), rest) := Option.map_eq_some_iff.mpr ⟨_, hread, rfl⟩
      rw [delete, replace_of_read hread', ← delete, ih, delete, delete, replace_of_read hread]

end Scanner

/-- The cuts that delete the items of several scanners, one scanner after the other. -/
def cutsOf : List (Scanner Unit) → Text → List Cut
  | [], _ => []
  | p :: scanners, s => p.cuts s ++ cutsOf scanners (p.delete s)

/-- What every cut keeps is kept by all deletions, by induction over the scanners. -/
theorem cutsOf_induction {P : Text → Prop} {scanners : List (Scanner Unit)} {s : Text} (h : P s)
    (hcut : ∀ cut ∈ cutsOf scanners s, P cut.before → P cut.after)
    : P (scanners.foldl (fun s p => p.delete s) s) := by
  induction scanners generalizing s with
  | nil => exact h
  | cons p scanners ih =>
      rw [cutsOf] at hcut
      have hfirst : P (p.delete s) := Scanner.delete_induction [] h fun cut hmem =>
        hcut cut (List.mem_append_left _ hmem)
      exact ih hfirst fun cut hmem => hcut cut (List.mem_append_right _ hmem)

namespace Sanitize

-----------------------------------------------------------------------------------------
-- Removals
-----------------------------------------------------------------------------------------

/-- What is removed from a text, one kind after the other. -/
def removals : List (Scanner Unit) :=
  dangerousElements.flatMap (fun name => [emptyScanner name, pairedScanner name])
    ++ handlerScanner.forget :: dangerousSchemes.map urlScanner

theorem removeElement_text (o : Outcome) (name : Text)
    : (removeElement o name).text
      = [emptyScanner name, pairedScanner name].foldl (fun s p => p.delete s) o.text := by
  unfold removeElement
  split
  · rfl
  · next hnone =>
      rw [Bool.or_eq_true, not_or, Bool.not_eq_true, Bool.not_eq_true] at hnone
      simp [Scanner.delete_eq_of_finds hnone.1, Scanner.delete_eq_of_finds hnone.2]

theorem removeHandlers_text (o : Outcome)
    : (removeHandlers o).text = handlerScanner.forget.delete o.text := by
  rw [Scanner.delete_forget]
  unfold removeHandlers
  dsimp only
  split
  · next hnone =>
      exact (Scanner.delete_eq_of_finds (finds_of_handlerNames (List.isEmpty_iff.mp hnone))).symm
  · rfl

theorem removeUrls_text (o : Outcome) (scheme : Text)
    : (removeUrls o scheme).text = (urlScanner scheme).delete o.text := by
  unfold removeUrls
  split
  · rfl
  · next hnone => exact (Scanner.delete_eq_of_finds (by simpa using hnone)).symm

theorem foldl_text {α : Type} {step : Outcome → α → Outcome} {scanners : α → List (Scanner Unit)}
    (hstep : ∀ o a, (step o a).text = (scanners a).foldl (fun s p => p.delete s) o.text)
    (items : List α) (o : Outcome)
    : (items.foldl step o).text
      = (items.flatMap scanners).foldl (fun s p => p.delete s) o.text := by
  induction items generalizing o with
  | nil => rfl
  | cons a items ih => rw [List.foldl_cons, ih, hstep, List.flatMap_cons, List.foldl_append]

/-- Removing is deleting, whether or not anything is found. -/
theorem sanitize_text (s : Text)
    : (sanitize {} s).text = removals.foldl (fun s p => p.delete s) s := by
  have hnames : dangerousElements.filter (Policy.removes {}) = dangerousElements := by
    with_unfolding_all decide
  have hurls (o : Outcome) : (dangerousSchemes.foldl removeUrls o).text
      = (dangerousSchemes.map urlScanner).foldl (fun s p => p.delete s) o.text := by
    rw [List.map_eq_flatMap]
    exact foldl_text (fun o scheme => removeUrls_text o scheme) _ o
  have helements := foldl_text (fun o name => removeElement_text o name) dangerousElements ⟨s, []⟩
  unfold sanitize removeElements removals
  dsimp only
  simp only [↓reduceIte]
  rw [hnames, hurls, removeHandlers_text, helements, List.foldl_append, List.foldl_cons]

-----------------------------------------------------------------------------------------
-- Wholes
-----------------------------------------------------------------------------------------

/-- All that is removed from a document are wholes of what begins with its root. -/
def RemovesWholes (s : Text) : Prop :=
  ∀ d body, Xml.readProlog? (Minify.dropDeclaration s) = some (d, body) →
    ∀ cut ∈ cutsOf removals s, ∃ prolog front, s = prolog ++ body ∧ cut.front = prolog ++ front
      ∧ Xml.IsWhole d front cut.removed cut.rest

/-- From a document of which only wholes are removed a document is left. -/
theorem exists_readDocument_sanitize {s : Text} {document : Xml.Document}
    (h : Minify.readDocument s = .ok document) (hwhole : RemovesWholes s)
    : ∃ document', Minify.readDocument (sanitize {} s).text = .ok document' := by
  obtain ⟨d, front, c, body, q, hs, hc, hprolog, hq, hleft⟩ := Minify.exists_readDocument_of_same h
  suffices hkept : ∃ left q', (sanitize {} s).text = front ++ '<' :: c :: left ∧ left ⊆ body
      ∧ Xml.Progress.absorb? d {} ('<' :: c :: left) = some q' ∧ q.Same q' by
    obtain ⟨left, q', htext, hsub, hq', hsame⟩ := hkept
    rw [htext]
    exact hleft left q' hsub hq' hsame
  rw [sanitize_text]
  -- the same elements are open behind what is left after every cut
  refine cutsOf_induction (P := fun t => ∃ left q', t = front ++ '<' :: c :: left ∧ left ⊆ body
      ∧ Xml.Progress.absorb? d {} ('<' :: c :: left) = some q' ∧ q.Same q')
    ⟨body, q, hs, List.Subset.refl _, hq, .refl q⟩ fun cut hcut => ?_
  rintro ⟨left, q', hbefore, hsub, hq', hsame⟩
  obtain ⟨prolog, inner, hs', hfront, hwhole⟩ := hwhole d _ hprolog cut hcut
  obtain rfl : prolog = front := List.append_cancel_right (hs'.symm.trans hs)
  obtain ⟨a, b, t, rfl⟩ := hwhole.exists_cons
  rw [Cut.before, hfront, List.append_assoc] at hbefore
  have hbody := List.append_cancel_left hbefore
  simp only [List.cons_append, List.cons.injEq] at hbody
  obtain ⟨rfl, rfl, rfl⟩ := hbody
  obtain ⟨q'', hq'', hsame'⟩ := hwhole.exists_absorb? hq'
  refine ⟨t ++ cut.rest, q'', by rw [Cut.after, hfront, List.append_assoc]; rfl, ?_, hq'',
    hsame.trans hsame'⟩
  intro x hx
  refine hsub ?_
  simp only [List.mem_append] at hx ⊢
  tauto

/-- The prolog of a document. -/
def sampleProlog : Text := "<?xml version=\"1.0\"?>\n<!DOCTYPE svg>\n"

/-- A document with a handler, dangerous elements that stand side by side, and a dangerous URL. -/
def sampleWholes : Text :=
  sampleProlog
    ++ "<svg onload=\"f()\"><iframe/><script>g()</script><a href=\"javascript:h()\">t</a></svg>"

theorem removesWholes_sampleWholes : RemovesWholes sampleWholes := by
  have hcuts : cutsOf removals sampleWholes = [
      ⟨sampleProlog ++ "<svg onload=\"f()\"><iframe/>", "<script>g()</script>",
        "<a href=\"javascript:h()\">t</a></svg>"⟩,
      ⟨sampleProlog ++ "<svg onload=\"f()\">", "<iframe/>", "<a href=\"javascript:h()\">t</a></svg>"⟩,
      ⟨sampleProlog ++ ([] ++ '<' :: ("svg" : Text)), [' '] ++ ("onload=\"f()\"" : Text),
        "><a href=\"javascript:h()\">t</a></svg>"⟩,
      ⟨sampleProlog ++ ("<svg>" ++ '<' :: ("a" : Text)), [' '] ++ ("href=\"javascript:h()\"" : Text),
        ">t</a></svg>"⟩] := by
    decide +kernel
  have hread : Xml.readProlog? (Minify.dropDeclaration sampleWholes) = some (({} : Xml.Doctype),
      ("<svg onload=\"f()\"><iframe/><script>g()</script><a href=\"javascript:h()\">t</a></svg>" : Text)) := by
    decide +kernel
  have hcrosses {front s : Text} (hs : s.head? = some '<') : ¬ Text.Crosses "]]>" front s := by
    obtain ⟨s, rfl⟩ := List.head?_eq_some_iff.mp hs
    exact Xml.not_crosses_markup
  intro d body hprolog cut hcut
  cases hread.symm.trans hprolog
  refine ⟨sampleProlog, ?_⟩
  rw [hcuts] at hcut
  simp only [List.mem_cons, List.not_mem_nil, or_false] at hcut
  rcases hcut with rfl | rfl | rfl | rfl
  · exact ⟨_, rfl, rfl, Xml.isWhole_of_isBalanced (by decide +kernel) (by decide +kernel)
      (hcrosses (by decide +kernel))⟩
  · exact ⟨_, rfl, rfl, Xml.isWhole_of_isBalanced (by decide +kernel) (by decide +kernel)
      (hcrosses (by decide +kernel))⟩
  · exact ⟨_, rfl, rfl, Xml.isWhole_of_readAttribute? (.inl rfl)
      (show _ = some (Xml.Token.start ⟨none, "svg"⟩ [] false, []) by decide +kernel)
      (List.forall_mem_singleton.mpr (by decide)) (by simp)
      (show _ = some ((⟨none, "onload"⟩, ("f()" : Text).map .char), []) by decide +kernel)
      (by decide +kernel) rfl⟩
  · exact ⟨_, rfl, rfl, Xml.isWhole_of_readAttribute? (.inr (by decide +kernel))
      (show _ = some (Xml.Token.start ⟨none, "a"⟩ [] false, []) by decide +kernel)
      (List.forall_mem_singleton.mpr (by decide)) (by simp)
      (show _ = some ((⟨none, "href"⟩, ("javascript:h()" : Text).map .char), []) by decide +kernel)
      (by decide +kernel) rfl⟩

theorem exists_readDocument_sanitize_sampleWholes
    : (∃ document, Minify.readDocument sampleWholes = .ok document) ∧ RemovesWholes sampleWholes
      ∧ (sanitize {} sampleWholes).text = sampleProlog ++ "<svg><a>t</a></svg>"
      ∧ ∃ document', Minify.readDocument (sanitize {} sampleWholes).text = .ok document' := by
  obtain ⟨document, hread⟩ : ∃ document, Minify.readDocument sampleWholes = .ok document :=
    Minify.exists_readDocument_iff.mpr (by decide +kernel)
  exact ⟨⟨document, hread⟩, removesWholes_sampleWholes, by decide +kernel,
    exists_readDocument_sanitize hread removesWholes_sampleWholes⟩

/-- A document with a dangerous element inside one of its kind. -/
def sampleNested : Text :=
  "<svg><foreignObject><g><foreignObject><p/></foreignObject></g></foreignObject><rect/></svg>"

/-- The inner end tag goes with the outer start tag, and end tags without partners are left. -/
theorem not_readDocument_sanitize_sampleNested
    : (∃ document, Minify.readDocument sampleNested = .ok document)
      ∧ (sanitize {} sampleNested).text = ("<svg></g></foreignObject><rect/></svg>" : Text)
      ∧ ¬ ∃ document', Minify.readDocument (sanitize {} sampleNested).text = .ok document' := by
  refine ⟨Minify.exists_readDocument_iff.mpr (by decide +kernel), by decide +kernel, ?_⟩
  rw [Minify.exists_readDocument_iff]
  decide +kernel

end Sanitize

end SvgKit

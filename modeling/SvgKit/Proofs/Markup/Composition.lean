import SvgKit.Proofs.Markup.Renaming
import SvgKit.Proofs.Markup.Rewording
import SvgKit.Proofs.Text.Scanning

/-! Renaming the attributes of any text, well-formed or not, and then rewriting them is rewriting them
once: after the renaming the same items are found in the text.
-/

namespace SvgKit.Markup

-----------------------------------------------------------------------------------------
-- Rewriters
-----------------------------------------------------------------------------------------

namespace Rewriter

/-- Leaves attributes as they are. -/
def keep : Rewriter := fun _ name value => (name, value)

/-- Rewrites with the first rewriter what the second one gives. -/
def after (g f : Rewriter) : Rewriter := fun tag name value =>
  g tag (f tag name value).1 (f tag name value).2

/-- Keeps values, and gives each name that can be read a name of letters and digits or leaves it as
it is.
-/
structure Renames (f : Rewriter) : Prop where
  value : ∀ tag name value, (∀ c ∈ name, isNameChar c) → (f tag name value).2 = value
  name : ∀ tag name value, (∀ c ∈ name, isNameChar c) →
    (f tag name value).1 = name
      ∨ ((f tag name value).1 ≠ [] ∧ ∀ c ∈ (f tag name value).1, Text.isWord c)

end Rewriter

section Attributes

variable {f : Rewriter} (hf : f.Renames) (tag : Text) {a : Attribute}

theorem Attribute.rewrite_keep (a : Attribute) : a.rewrite Rewriter.keep tag = a := by
  obtain ⟨name, value⟩ := a
  cases value <;> rfl

variable (ha : ∀ c ∈ a.name, isNameChar c)
include hf ha

theorem Attribute.rewrite_of_renames
    : a.rewrite f tag = ⟨(f tag a.name a.written).1, a.value⟩ := by
  have hvalue := hf.value tag a.name a.written ha
  obtain ⟨name, value⟩ := a
  unfold Attribute.rewrite
  generalize f tag name _ = rewritten at hvalue
  obtain ⟨name', value'⟩ := rewritten
  cases value <;> cases hvalue <;> rfl

theorem Attribute.rewrite_rewrite (g : Rewriter)
    : (a.rewrite f tag).rewrite g tag = a.rewrite (g.after f) tag := by
  have hvalue := hf.value tag a.name a.written ha
  rw [Attribute.rewrite_of_renames hf tag ha]
  simp only [Attribute.rewrite, Rewriter.after, hvalue]
  rfl

/-- A renamed attribute can be read as the attribute could. -/
theorem Attribute.rewrite_name (hne : a.name ≠ [])
    : (a.rewrite f tag).name ≠ [] ∧ ∀ c ∈ (a.rewrite f tag).name, isNameChar c := by
  rw [Attribute.rewrite_of_renames hf tag ha]
  rcases hf.name tag a.name a.written ha with hname | ⟨hne', hword⟩
  · dsimp only
    rw [hname]
    exact ⟨hne, ha⟩
  · exact ⟨hne', fun c hc => isNameChar_of_isWord (hword c hc)⟩

end Attributes

-----------------------------------------------------------------------------------------
-- Renamed tags
-----------------------------------------------------------------------------------------

section Tags

variable {f : Rewriter} (hf : f.Renames)

/-- Blanks stand in front of a word. -/
theorem Reworded.blanks {spaced : Bool} {blanks s s' : Text} (h : Reworded true s s')
    (hne : blanks ≠ []) (hblanks : ∀ c ∈ blanks, Text.isBlank c)
    : Reworded spaced (blanks ++ s) (blanks ++ s') := by
  induction blanks generalizing spaced with
  | nil => exact absurd rfl hne
  | cons c blanks ih =>
      obtain ⟨hc, hblanks⟩ := List.forall_mem_cons.mp hblanks
      refine .char c ?_
      rw [hc]
      by_cases hnil : blanks = []
      · subst hnil
        exact h
      · exact ih hnil hblanks

include hf

/-- Renaming changes words behind blanks, by induction over the attributes. -/
theorem AreRead.reworded {behind behind' : Text} {attributes : List (Text × Attribute)}
    (h : AreRead behind attributes) (hbehind : Reworded false behind behind') (tag : Text)
    (spaced : Bool)
    : Reworded spaced (attributesText attributes ++ behind)
        (attributesText (attributes.map fun (blanks, a) => (blanks, a.rewrite f tag))
          ++ behind') := by
  induction h generalizing spaced with
  | nil => exact hbehind.mono
  | @cons blanks a attributes hne hblanks ha h ih =>
      obtain ⟨assigned, htext⟩ := a.exists_text
      have hrest : Reworded false _ _ := (ih false).append assigned
      rw [List.map_cons, attributesText_cons, attributesText_cons, List.append_assoc,
        List.append_assoc, List.append_assoc, List.append_assoc,
        Attribute.rewrite_of_renames hf tag ha.name, htext, htext, List.append_assoc,
        List.append_assoc]
      rcases hf.name tag a.name a.written ha.name with hname | ⟨hne', hword⟩
      · rw [hname]
        exact (hrest.append a.name).append blanks
      · exact (Reworded.word ha.notEmpty ha.name hne' hword hrest).blanks hne hblanks

variable {t : StartTag} (ht : t.IsRegular)
include ht

theorem StartTag.IsRegular.reworded {s s' : Text} (hs : Reworded false s s')
    : Reworded false (t.text ++ s) ((t.rewrite f).text ++ s') := by
  obtain ⟨d, more, hclose⟩ := List.exists_cons_of_ne_nil (l := t.close) (by
    obtain ⟨blanks, -, hclose | hclose⟩ := ht.close <;> simp [hclose])
  have hattributes : AreRead (t.close ++ s) t.attributes := by
    refine ht.attributes.congr ?_
    rw [hclose]
    rfl
  have hbehind : Reworded false (t.close ++ s) (t.close ++ s') := hs.append _
  have hreworded : Reworded false
      ('<' :: t.name ++ (attributesText t.attributes ++ (t.close ++ s))) _ :=
    (hattributes.reworded hf hbehind t.name false).append ('<' :: t.name)
  simpa [StartTag.text, StartTag.rewrite] using hreworded

theorem StartTag.IsRegular.rewrite : (t.rewrite f).IsRegular := by
  refine ⟨ht.toIsRead.rewrite f, ht.tagName, ?_⟩
  refine ht.attributes.map (fun a hne hname => ?_) rfl
  obtain ⟨hne', hname'⟩ := Attribute.rewrite_name hf t.name hname hne
  exact ⟨by rw [Attribute.rewrite_of_renames hf t.name hname], hne', hname'⟩

theorem StartTag.IsRegular.rewrite_rewrite (g : Rewriter)
    : (t.rewrite f).rewrite g = t.rewrite (g.after f) := by
  rw [StartTag.rewrite, StartTag.rewrite, StartTag.rewrite, StartTag.mk.injEq]
  refine ⟨rfl, ?_, rfl⟩
  rw [List.map_map]
  refine List.map_congr_left fun pair hpair => ?_
  have hname := ht.attributes.forall_name pair hpair
  exact Prod.ext rfl (Attribute.rewrite_rewrite hf t.name hname g)

end Tags

-----------------------------------------------------------------------------------------
-- Renamed texts
-----------------------------------------------------------------------------------------

section Texts

variable {f : Rewriter}

/-- Every item of a text is written as it stands there. -/
theorem replace_itemText (s : Text) : scanner.replace Item.text s = s := by
  induction s using scanner.induction with
  | nil => exact Scanner.replace_nil
  | plain c s hread ih => rw [Scanner.replace_of_read_none hread, ih]
  | found s item rest hread ih =>
      rw [Scanner.replace_of_read hread, ih]
      exact (eq_of_readItem? hread).symm

theorem Item.rewrite_keep (item : Item) : item.rewrite Rewriter.keep = item.text := by
  cases item with
  | comment => rfl
  | data => rfl
  | tag t =>
      refine congrArg StartTag.text ?_
      rw [StartTag.rewrite, StartTag.mk.injEq]
      refine ⟨rfl, (List.map_congr_left fun pair _ => ?_).trans (List.map_id _), rfl⟩
      exact Prod.ext rfl (Attribute.rewrite_keep t.name pair.2)

/-- Rewriters that agree on all names that can be read rewrite a text to the same text. -/
theorem rewriteAttributes_congr {f' : Rewriter}
    (h : ∀ tag name value, (∀ c ∈ name, isNameChar c) → f tag name value = f' tag name value)
    (s : Text)
    : rewriteAttributes f s = rewriteAttributes f' s := by
  unfold rewriteAttributes
  induction s using scanner.induction with
  | nil => simp only [Scanner.replace_nil]
  | plain c s hread ih =>
      rw [Scanner.replace_of_read_none hread, Scanner.replace_of_read_none hread, ih]
  | found s item rest hread ih =>
      rw [Scanner.replace_of_read hread, Scanner.replace_of_read hread, ih]
      congr 1
      cases item with
      | comment => rfl
      | data => rfl
      | tag t =>
          refine congrArg StartTag.text ?_
          rw [StartTag.rewrite, StartTag.rewrite, StartTag.mk.injEq]
          refine ⟨rfl, List.map_congr_left fun pair hpair => Prod.ext rfl ?_, rfl⟩
          have hname := (isRegular_of_readItem? hread).attributes.forall_name pair hpair
          dsimp only
          rw [Attribute.rewrite, h _ _ _ hname, Attribute.rewrite]

variable (hf : f.Renames)
include hf

/-- A renamed item is read as an item that is renamed further. -/
theorem exists_readItem?_rewrite {s rest : Text} {item : Item}
    (h : readItem? s = some (item, rest))
    : ∃ item', (∀ rest', readItem? (item.rewrite f ++ rest') = some (item', rest'))
      ∧ ∀ g : Rewriter, item'.rewrite g = item.rewrite (g.after f) := by
  cases item with
  | comment body => exact ⟨.comment body, readItem?_append h, fun _ => rfl⟩
  | data body => exact ⟨.data body, readItem?_append h, fun _ => rfl⟩
  | tag t =>
      have ht := isRegular_of_readItem? h
      exact ⟨.tag (t.rewrite f), (ht.rewrite hf).readItem?, fun g =>
        congrArg StartTag.text (ht.rewrite_rewrite hf g)⟩

/-- Renaming changes words behind blanks, by induction over the items of the text. -/
theorem reworded_rewriteAttributes (s : Text) : Reworded false s (rewriteAttributes f s) := by
  unfold rewriteAttributes
  induction s using scanner.induction with
  | nil =>
      rw [Scanner.replace_nil]
      exact .nil
  | plain c s hread ih =>
      rw [Scanner.replace_of_read_none hread]
      exact .char c ih.mono
  | found s item rest hread ih =>
      rw [Scanner.replace_of_read hread]
      have hs := eq_of_readItem? hread
      cases item with
      | comment body => exact hs ▸ ih.append _
      | data body => exact hs ▸ ih.append _
      | tag t => exact hs ▸ (isRegular_of_readItem? hread).reworded hf ih

theorem rewriteAttributes_after (g : Rewriter) (s : Text)
    : rewriteAttributes g (rewriteAttributes f s) = rewriteAttributes (g.after f) s := by
  have hreworded := reworded_rewriteAttributes hf
  unfold rewriteAttributes at hreworded ⊢
  induction s using scanner.induction with
  | nil => simp only [Scanner.replace_nil]
  | plain c s hread ih =>
      have hread' : readItem? (c :: scanner.replace (Item.rewrite f) s) = none := by
        have hword := hreworded (c :: s)
        rw [Scanner.replace_of_read_none hread] at hword
        exact hword.readItem?_eq_none hread
      rw [Scanner.replace_of_read_none hread, Scanner.replace_of_read_none hread',
        Scanner.replace_of_read_none hread, ih]
  | found s item rest hread ih =>
      obtain ⟨item', hread', hrewrite⟩ := exists_readItem?_rewrite hf hread
      rw [Scanner.replace_of_read hread, Scanner.replace_of_read (hread' _),
        Scanner.replace_of_read hread, ih, hrewrite]

end Texts

-----------------------------------------------------------------------------------------
-- Names in the form with capitals
-----------------------------------------------------------------------------------------

theorem isWord_of_isKebabChar {c : Char} (h : isKebabChar c)
    : Text.isWord c ∧ ∀ x ∈ Text.upperChar c, Text.isWord x := by
  have hword : Text.isWord c && (Text.upperChar c).all Text.isWord :=
    of_isKebabChar (p := fun c => Text.isWord c && (Text.upperChar c).all Text.isWord)
      (by decide +kernel) (by decide +kernel) h
  simpa using hword

theorem isWord_of_mem_camelCase {word : Text} (hline : '\n' ∉ word) (hkebab : isKebabCase word)
    : ∀ c ∈ camelCase word, Text.isWord c := by
  obtain ⟨c, first, parts, hsplit, hc, hfirst, -, hparts⟩ :=
    splitOnChar_of_isKebabCase hline hkebab
  have hletter : isKebabChar c := by simp [isKebabChar, hc]
  rw [camelCase, hsplit, List.forall_mem_append, List.forall_mem_cons, List.forall_mem_flatMap]
  refine ⟨⟨(isWord_of_isKebabChar hletter).1, fun x hx => (isWord_of_isKebabChar (hfirst x hx)).1⟩,
    fun part hpart => ?_⟩
  cases part with
  | nil => simp [capitalize]
  | cons y part =>
      obtain ⟨hy, hpart⟩ := List.forall_mem_cons.mp (hparts _ hpart).2
      exact List.forall_mem_append.mpr ⟨(isWord_of_isKebabChar hy).2, fun x hx =>
        (isWord_of_isKebabChar (hpart x hx)).1⟩

theorem camelCaseAttribute_renames : camelCaseAttribute.Renames := by
  refine ⟨fun tag name value hname => ?_, fun tag name value hname => ?_⟩
  · unfold camelCaseAttribute
    split
    · split <;> rfl
    · rfl
  · have hline := not_mem_line hname
    unfold camelCaseAttribute
    split
    · split
      · next hkebab =>
          rw [Bool.and_eq_true] at hkebab
          obtain ⟨x, hx, -⟩ := exists_mem_camelCase hline hkebab.2
          exact .inr ⟨List.ne_nil_of_mem hx, isWord_of_mem_camelCase hline hkebab.2⟩
      · exact .inl rfl
    · exact .inl rfl

/-- A name in the form with capitals stays as it is. -/
theorem camelCaseAttribute_after {tag name : Text} {value : Option Text}
    (hname : ∀ c ∈ name, isNameChar c)
    : camelCaseAttribute.after camelCaseAttribute tag name value
      = camelCaseAttribute tag name value := by
  cases value with
  | none => rfl
  | some value =>
      unfold Rewriter.after camelCaseAttribute
      by_cases h : isQuoted value && isKebabCase name
      · have hagain := isKebabCase_camelCase (not_mem_line hname) (Bool.and_eq_true_iff.mp h).2
        simp [h, hagain]
      · simp [h]

/-- Renaming the attributes of any text and then rewriting them is rewriting them once, a rewriter
that keeps them keeps the text, and so names in the form with capitals are there to stay.
-/
theorem rewriteAttributes_rewriteAttributes {f : Rewriter} (hf : f.Renames) (g : Rewriter)
    (s : Text)
    : rewriteAttributes g (rewriteAttributes f s) = rewriteAttributes (g.after f) s
      ∧ rewriteAttributes Rewriter.keep s = s
      ∧ camelCaseAttributes (camelCaseAttributes s) = camelCaseAttributes s := by
  refine ⟨rewriteAttributes_after hf g s, ?_, ?_⟩
  · rw [rewriteAttributes, funext Item.rewrite_keep]
    exact replace_itemText s
  · rw [camelCaseAttributes, camelCaseAttributes,
      rewriteAttributes_after camelCaseAttribute_renames]
    exact rewriteAttributes_congr (fun _ _ _ hname => camelCaseAttribute_after hname) s

/-- Writes the names of attributes without their values. -/
def nameOnly : Rewriter := fun _ name _ => (name, none)

/-- A text that reads on from a bracket and from the beginning of a comment, neither of which ends,
over the attributes of tags.
-/
def sampleBroken : Text :=
  "<a b=\"<g h-i='x'>\" =<!-- <j k-l=\"<m n-o='p'/>\" q-r=s t-u='v'/>"

theorem rewriteAttributes_rewriteAttributes_sampleBroken
    : camelCaseAttribute.Renames
      ∧ camelCaseAttributes sampleBroken
        = "<a b=\"<g hI='x'>\" =<!-- <j kL=\"<m n-o='p'/>\" q-r=s tU='v'/>"
      ∧ rewriteAttributes nameOnly (camelCaseAttributes sampleBroken)
        = rewriteAttributes (nameOnly.after camelCaseAttribute) sampleBroken
      ∧ rewriteAttributes (nameOnly.after camelCaseAttribute) sampleBroken
        = "<a b=\"<g hI>\" =<!-- <j kL q-r tU/>"
      ∧ camelCaseAttributes (camelCaseAttributes sampleBroken)
        = camelCaseAttributes sampleBroken := by
  obtain ⟨hafter, -, hagain⟩ :=
    rewriteAttributes_rewriteAttributes camelCaseAttribute_renames nameOnly sampleBroken
  exact ⟨camelCaseAttribute_renames, by decide +kernel, hafter, by decide +kernel, hagain⟩

end SvgKit.Markup

import Mathlib.Data.Bool.AllAny
import SvgKit.Proofs.Markup.CamelCase
import SvgKit.Proofs.Markup.Root
import SvgKit.Proofs.Text.Scanning

/-! Taking the text of a tree apart gives back its root: the declarations of namespaces and the
attributes in its start tag, and the text of its content, whatever stands in there.
-/

namespace SvgKit.Markup

open Xml (Element Head Node Spelling)

-----------------------------------------------------------------------------------------
-- The last end tag
-----------------------------------------------------------------------------------------

/-- No end tag of a root begins without a bracket. -/
theorem isRootEnd_of_ne {c : Char} (hc : c ≠ '<') (s : Text) : isRootEnd (c :: s) = false := by
  have hliteral : ("</svg" : Text) = '<' :: ("/svg" : Text) := by with_unfolding_all decide
  have hnone : Text.dropFolded? "</svg" (c :: s) = none := by
    rw [hliteral]
    exact if_neg fun h => hc (Text.eq_of_foldChar_eq rfl h.symm)
  rw [isRootEnd, hnone]

/-- Behind the last bracket nothing is found any more, by induction over the text. -/
theorem beforeLastEnd?_of_not_mem {s : Text} (hs : '<' ∉ s) (passed : Text) (best : Option Text)
    : beforeLastEnd? passed best s = best.map List.reverse := by
  induction s generalizing passed with
  | nil => rfl
  | cons c s ih =>
      rw [List.mem_cons, not_or] at hs
      rw [beforeLastEnd?, isRootEnd_of_ne (Ne.symm hs.1), if_neg Bool.false_ne_true, ih hs.2]

/-- What stands before the end tag of a root at the end of a text is found, whatever it is. The
induction is over what stands before the tag.
-/
theorem beforeLastEnd?_append {s close : Text} (hend : isRootEnd ('<' :: close))
    (hclose : '<' ∉ close) (passed : Text) (best : Option Text)
    : beforeLastEnd? passed best (s ++ '<' :: close) = some (passed.reverse ++ s) := by
  induction s generalizing passed best with
  | nil =>
      rw [List.nil_append, beforeLastEnd?, if_pos hend, beforeLastEnd?_of_not_mem hclose,
        List.append_nil]
      rfl
  | cons c s ih =>
      rw [List.cons_append, beforeLastEnd?, ih, List.reverse_cons, List.append_assoc]
      rfl

-----------------------------------------------------------------------------------------
-- The attributes of the root
-----------------------------------------------------------------------------------------

/-- A declaration of a namespace or an attribute as it stands in the text of a tree. -/
def rootAttribute (pair : Spelling × Text) : RootAttribute :=
  ⟨pair.1.text, some pair.2, pair.1.text ++ '=' :: quoted pair.2⟩

/-- The text of these in a start tag, from the first name to the last quote. -/
def rootAttributesText (pairs : List (Spelling × Text)) : Text :=
  Text.join [' '] (pairs.map fun pair => (rootAttribute pair).raw)

theorem pairText_eq (pair : Spelling × Text) : Xml.pairText pair = ' ' :: (rootAttribute pair).raw := by
  simp [Xml.pairText, Xml.attributeText, rootAttribute, quoted]

theorem rootAttributesText_cons (pair next : Spelling × Text) (pairs : List (Spelling × Text))
    : rootAttributesText (pair :: next :: pairs)
      = (rootAttribute pair).raw ++ ' ' :: rootAttributesText (next :: pairs) := by
  rw [rootAttributesText, List.map_cons, Text.join_cons _ _ (by simp)]
  rfl

theorem rootAttributesText_singleton (pair : Spelling × Text)
    : rootAttributesText [pair] = (rootAttribute pair).raw :=
  Text.join_singleton _ _

theorem flatMap_pairText_cons (pair : Spelling × Text) (pairs : List (Spelling × Text))
    : (pair :: pairs).flatMap Xml.pairText = ' ' :: rootAttributesText (pair :: pairs) := by
  induction pairs generalizing pair with
  | nil => simp [pairText_eq, rootAttributesText_singleton]
  | cons next pairs ih =>
      rw [List.flatMap_cons, ih, pairText_eq, rootAttributesText_cons]
      rfl

/-- The text of attributes begins with a name and ends with a quote, by induction over them. -/
theorem exists_rootAttributesText (pair : Spelling × Text) (pairs : List (Spelling × Text))
    : ∃ s, rootAttributesText (pair :: pairs) = pair.1.text ++ (s ++ ['"']) := by
  induction pairs generalizing pair with
  | nil => exact ⟨'=' :: '"' :: pair.2, by simp [rootAttributesText_singleton, rootAttribute, quoted]⟩
  | cons next pairs ih =>
      obtain ⟨s, hs⟩ := ih next
      refine ⟨'=' :: (quoted pair.2 ++ ' ' :: (next.1.text ++ s)), ?_⟩
      rw [rootAttributesText_cons, hs]
      simp [rootAttribute]

theorem unquote_quoted (value : Text) : unquote (quoted value) = value := by
  simp [quoted, unquote]

section Pairs

variable {pair : Spelling × Text} {pairs : List (Spelling × Text)}

theorem readAttribute?_pair {bare : Char → Text → Bool}
    (hpair : isAttributeName pair.1 ∧ '"' ∉ pair.2) (rest : Text)
    : readAttribute? bare ((rootAttribute pair).raw ++ rest)
      = some (⟨pair.1.text, some (['='], quoted pair.2)⟩, rest) := by
  obtain ⟨hne, hname⟩ := isAttributeName_iff.mp hpair.1
  have hassigned := @readAssigned?_quoted bare [] pair.2 (by simp) hpair.2 rest
  simp only [List.nil_append] at hassigned
  have hraw : (rootAttribute pair).raw ++ rest
      = pair.1.text ++ '=' :: '"' :: (pair.2 ++ '"' :: rest) := by
    simp [rootAttribute, quoted]
  rw [hraw, readAttribute?_word hne hname (endsStretch_equals _).stops_name, hassigned]
  rfl

theorem ofAttribute_pair (pair : Spelling × Text)
    : RootAttribute.ofAttribute ⟨pair.1.text, some (['='], quoted pair.2)⟩ = rootAttribute pair := by
  simp [RootAttribute.ofAttribute, rootAttribute, unquote_quoted, Attribute.text]

variable (hpairs : ∀ pair ∈ pairs, isAttributeName pair.1 ∧ '"' ∉ pair.2)
include hpairs

/-- The text of the attributes is split where it was put together, by induction over them. -/
theorem splitAttributes_rootAttributesText
    : splitAttributes (rootAttributesText pairs) = pairs.map rootAttribute := by
  unfold splitAttributes
  induction pairs with
  | nil =>
      have hnil : rootAttributesText [] = [] := rfl
      rw [hnil, Scanner.findAll_nil, List.map_nil, List.map_nil]
  | cons pair pairs ih =>
      rw [List.forall_mem_cons] at hpairs
      have hread (rest : Text) : attributeScanner.read ((rootAttribute pair).raw ++ rest)
          = some (⟨pair.1.text, some (['='], quoted pair.2)⟩, rest) :=
        readAttribute?_pair hpairs.1 rest
      cases pairs with
      | nil =>
          have hlast := hread []
          rw [List.append_nil] at hlast
          rw [rootAttributesText_singleton, Scanner.findAll_of_read _ hlast, Scanner.findAll_nil,
            List.map_singleton, ofAttribute_pair, List.map_singleton]
      | cons next pairs =>
          have hstops : Stops isNameChar (' ' :: rootAttributesText (next :: pairs)) := by
            rintro _ ⟨⟩
            decide
          have hblank : attributeScanner.read (' ' :: rootAttributesText (next :: pairs)) = none :=
            @readAttribute?_eq_none bareInRoot _ hstops
          rw [rootAttributesText_cons, Scanner.findAll_of_read _ (hread _),
            Scanner.findAll_of_read_none _ hblank, List.map_cons, ih hpairs.2, ofAttribute_pair]
          rfl

/-- There are no blanks at the ends of the text of attributes. -/
theorem trim_rootAttributesText
    : Text.trim (pairs.flatMap Xml.pairText) = rootAttributesText pairs := by
  cases pairs with
  | nil => rfl
  | cons pair pairs =>
      obtain ⟨hne, hname⟩ := isAttributeName_iff.mp (hpairs pair List.mem_cons_self).1
      obtain ⟨c, name, htext⟩ := List.exists_cons_of_ne_nil hne
      have hfirst : Text.isBlank c = false := isBlank_of_isNameChar (hname c (by simp [htext]))
      obtain ⟨s, hs⟩ := exists_rootAttributesText pair pairs
      have hspace : Text.allBlank [' '] := by decide
      have hdrop : Text.trim (' ' :: rootAttributesText (pair :: pairs))
          = Text.trim (rootAttributesText (pair :: pairs)) := by
        rw [Text.trim, Text.trim, ← List.singleton_append, Text.dropBlank_append hspace]
      rw [flatMap_pairText_cons, hdrop, hs, htext, List.cons_append, ← List.append_assoc]
      exact Text.trim_eq_self hfirst (by decide) _

theorem readRootTag?_pairs (rest : Text)
    : readRootTag? (pairs.flatMap Xml.pairText ++ '>' :: rest)
      = some (pairs.flatMap Xml.pairText, rest) := by
  have hclose : Stops Text.isBlank ('>' :: rest) := (IsClose.endsStretch (.inl rfl) rest).stops_blank
  have hread : readAttributes bareInRoot (pairs.flatMap Xml.pairText ++ '>' :: rest)
      = (pairs.map fun pair => ([' '], ⟨pair.1.text, some (['='], quoted pair.2)⟩), '>' :: rest) := by
    rw [readAttributes, readAttributesAfter_pairs hpairs, readAttributesAfter_stops hclose]
    simp
  have htext : attributesText (pairs.map fun pair =>
        (([' '] : Text), (⟨pair.1.text, some (['='], quoted pair.2)⟩ : Attribute)))
      = pairs.flatMap Xml.pairText := by
    rw [attributesText, List.flatMap_map]
    congr 1
    funext pair
    simp [Attribute.text, pairText_eq, rootAttribute]
  rw [readRootTag?, hread]
  simp only [hclose.dropWhile, htext]

end Pairs

-----------------------------------------------------------------------------------------
-- The root
-----------------------------------------------------------------------------------------

/-- The root that the text of a tree is taken apart to. -/
def writtenRoot (e : Element) : Root :=
  ⟨rootAttributesText e.head.pairs, Node.writeAll e.content, e.head.pairs.map rootAttribute⟩

theorem ofText_eq_writtenRoot {e : Element} (hroot : e.head.name.text = ("svg" : Text))
    (hpairs : ∀ pair ∈ e.head.pairs, isAttributeName pair.1 ∧ '"' ∉ pair.2)
    (hcontent : e.content ≠ [])
    : Root.ofText e.write = .ok (writtenRoot e) := by
  have hname : isRootName ("svg" : Text) := by with_unfolding_all decide
  have htext : e.write
      = '<' :: ("svg" ++ (e.head.pairs.flatMap Xml.pairText ++ '>' :: (Node.writeAll e.content
        ++ '<' :: '/' :: ("svg" ++ ['>'])))) := by
    rw [Element.write, Xml.elementText, if_neg (by simpa using hcontent), Xml.Head.text_eq,
      Xml.Name.text_spelling, hroot]
    simp
  obtain ⟨d, s, hd, hstart⟩ : ∃ d s, IsNameEnd d
      ∧ e.head.pairs.flatMap Xml.pairText ++ '>' :: (Node.writeAll e.content
        ++ '<' :: '/' :: ("svg" ++ ['>'])) = d :: s := by
    cases e.head.pairs with
    | nil => exact ⟨'>', _, .inr (.inr rfl), rfl⟩
    | cons pair pairs => exact ⟨' ', _, .inl rfl, by rw [flatMap_pairText_cons]; rfl⟩
  have hfind : findRoot? e.write = some (d :: s) := by
    have hchars : ∀ c ∈ ("svg" : Text), isNameChar c :=
      List.all_iff_forall_prop.mp (by with_unfolding_all decide)
    rw [htext, hstart, findRoot?_tag hchars hd, if_pos hname]
  have hend := beforeLastEnd?_append (isRootEnd_append hname [])
    (by with_unfolding_all decide) [] none (s := Node.writeAll e.content)
  rw [Root.ofText, hfind]
  dsimp only
  rw [← hstart, readRootTag?_pairs hpairs]
  dsimp only
  rw [hend]
  dsimp only
  rw [trim_rootAttributesText hpairs, splitAttributes_rootAttributesText hpairs]
  rfl

/-- The text of a tree with a root `svg` that has content and ASCII names in its start tag is taken
apart exactly: nothing but the declarations of namespaces and then the attributes, as they are
written, and the text of the whole content, whatever it looks like. In particular, a minified text
is.
-/
theorem ofText_write
    : (∀ e : Element, e.head.name.text = ("svg" : Text) →
        (∀ pair ∈ e.head.pairs, IsAsciiSpelling pair.1) →
        (∀ a ∈ e.head.attributes, ∀ s, a.spelling = some s → '"' ∉ s) → e.content ≠ [] →
          Root.ofText e.write = .ok (writtenRoot e))
      ∧ ∀ (multipass : Bool) (precision : Int) (s : Text) (f : Minify.Finish),
        Minify.finish multipass precision s = .ok f →
        f.document.root.head.name.text = ("svg" : Text) →
        (∀ pair ∈ f.document.root.head.pairs, IsAsciiSpelling pair.1) →
        f.document.root.content ≠ [] →
          Minify.run multipass precision s = .ok ⟨f.document.root.write, f.passes⟩
          ∧ Root.ofText f.document.root.write = .ok (writtenRoot f.document.root) := by
  have hexact (e : Element) (hroot : e.head.name.text = ("svg" : Text))
      (hnames : ∀ pair ∈ e.head.pairs, IsAsciiSpelling pair.1)
      (hvalues : ∀ a ∈ e.head.attributes, ∀ s, a.spelling = some s → '"' ∉ s)
      (hcontent : e.content ≠ [])
      : Root.ofText e.write = .ok (writtenRoot e) := by
    have hspelled : IsSpelled [.element e.head []] := ⟨by simpa using hvalues, by simp⟩
    exact ofText_eq_writtenRoot hroot
      (fun pair hpair => ⟨(hnames pair hpair).isAttributeName, hspelled.element.1 pair hpair⟩)
      hcontent
  refine ⟨hexact, fun multipass precision s f h hroot hnames hcontent => ?_⟩
  obtain ⟨hspelled, hwrite⟩ := write_of_finish h
  refine ⟨by rw [Minify.run, h, hwrite]; rfl, hexact _ hroot hnames (fun a ha => ?_) hcontent⟩
  exact hspelled.values f.document.root.head (by simp [Element.forest]) a ha

/-- A drawing with drawings inside, and with values and texts that look like the end of one. -/
def sampleNested : Text :=
  "<svg xmlns=\"U\" xmlns:q=\"V\" a=\"x&gt;/'\" q:b=\"&lt;/svg&gt;\">"
    ++ "<svg><svg-x/>/&gt;</svg>&lt;/svg&gt;</svg>"

/-- The root of that drawing. -/
def sampleNestedRoot : Root :=
  ⟨"xmlns=\"U\" xmlns:q=\"V\" a=\"x&gt;/'\" q:b=\"&lt;/svg&gt;\"",
    "<svg><svg-x/>/&gt;</svg>&lt;/svg&gt;",
    [⟨"xmlns", some "U", "xmlns=\"U\""⟩, ⟨"xmlns:q", some "V", "xmlns:q=\"V\""⟩,
      ⟨"a", some "x&gt;/'", "a=\"x&gt;/'\""⟩,
      ⟨"q:b", some "&lt;/svg&gt;", "q:b=\"&lt;/svg&gt;\""⟩]⟩

theorem ofText_write_sampleNested
    : ∃ f, Minify.finish true 3 sampleNested = .ok f
      ∧ f.document.root.head.name.text = ("svg" : Text)
      ∧ (∀ pair ∈ f.document.root.head.pairs, IsAsciiSpelling pair.1)
      ∧ f.document.root.content ≠ [] ∧ f.document.root.write = sampleNested
      ∧ Root.ofText sampleNested = .ok sampleNestedRoot := by
  have hfinish : (Minify.finish true 3 sampleNested).toOption.any fun f =>
      f.document.root.head.name.text = ("svg" : Text)
        && decide (∀ pair ∈ f.document.root.head.pairs, IsAsciiSpelling pair.1)
        && !f.document.root.content.isEmpty && f.document.root.write = sampleNested
        && writtenRoot f.document.root = sampleNestedRoot := by
    decide +kernel
  cases hf : Minify.finish true 3 sampleNested with
  | error e =>
      rw [hf] at hfinish
      cases hfinish
  | ok f =>
      rw [hf] at hfinish
      simp only [Except.toOption, Option.any_some, Bool.and_eq_true, decide_eq_true_eq,
        Bool.not_eq_true', List.isEmpty_eq_false_iff] at hfinish
      obtain ⟨⟨⟨⟨hroot, hnames⟩, hcontent⟩, hwrite⟩, hparts⟩ := hfinish
      obtain ⟨-, hexact⟩ := ofText_write.2 true 3 sampleNested f hf hroot hnames hcontent
      rw [hwrite, hparts] at hexact
      exact ⟨f, rfl, hroot, hnames, hcontent, hwrite, hexact⟩

end SvgKit.Markup

import SvgKit.Markup.CamelCase
import SvgKit.Proofs.Markup.Attribute
import SvgKit.Proofs.Markup.StartTag
import SvgKit.Proofs.Minify.Soundness
import SvgKit.Proofs.Text.Ascii
import SvgKit.Proofs.Text.Members

/-! The scanner of markup on the texts of trees. It finds each start tag and each attribute in
it, and nothing else, so that rewriting the text is the same as writing a tree with rewritten
attributes.
-/

namespace SvgKit.Markup

open Xml (Head Node Element Spelling)

-----------------------------------------------------------------------------------------
-- Trees with ASCII names
-----------------------------------------------------------------------------------------

/-- A name of ASCII characters, without colons. -/
structure IsAsciiName (s : Text) : Prop where
  isName : Xml.IsName s
  ascii : ∀ c ∈ s, c.val < 128

/-- A spelled name of ASCII characters: what stands before the colon, and the rest. -/
structure IsAsciiSpelling (n : Spelling) : Prop where
  base : IsAsciiName n.base
  space : ∀ space, n.space = some space → IsAsciiName space

/-- All elements, attributes and declarations of namespaces have ASCII names. -/
def HasAsciiNames (nodes : List Node) : Prop :=
  ∀ h ∈ Node.allHeads nodes,
    IsAsciiSpelling h.name.spelling ∧ ∀ pair ∈ h.pairs, IsAsciiSpelling pair.1

instance (s : Text) : Decidable (Xml.IsName s) :=
  match s with
  | [] => .isFalse id
  | c :: s =>
    decidable_of_iff (Xml.isNameStart c ∧ s.all Xml.isNameChar)
      (and_congr_right fun _ => List.all_eq_true)

instance (s : Text) : Decidable (IsAsciiName s) :=
  decidable_of_iff (Xml.IsName s ∧ s.all fun c => c.val < 128)
    ⟨fun h => ⟨h.1, by simpa using h.2⟩, fun h => ⟨h.isName, by simpa using h.ascii⟩⟩

instance (n : Spelling) : Decidable (IsAsciiSpelling n) :=
  decidable_of_iff (IsAsciiName n.base ∧ ∀ space ∈ n.space, IsAsciiName space)
    ⟨fun h => ⟨h.1, h.2⟩, fun h => ⟨h.base, h.space⟩⟩

instance (nodes : List Node) : Decidable (HasAsciiNames nodes) :=
  inferInstanceAs (Decidable (∀ h ∈ Node.allHeads nodes,
    IsAsciiSpelling h.name.spelling ∧ ∀ pair ∈ h.pairs, IsAsciiSpelling pair.1))

/-- What is kept as it was spelled is spelled without the marks that end it: a value without
double quotes, the name of an entity without brackets.
-/
structure IsSpelled (nodes : List Node) : Prop where
  values : ∀ h ∈ Node.allHeads nodes, ∀ a ∈ h.attributes, ∀ s, a.spelling = some s → '"' ∉ s
  entities : ∀ name, Node.entity name ∈ Node.allLeaves nodes → '<' ∉ name

section Forests

variable {h : Head} {content nodes : List Node}

theorem HasAsciiNames.element_iff
    : HasAsciiNames (.element h content :: nodes)
      ↔ (IsAsciiSpelling h.name.spelling ∧ ∀ pair ∈ h.pairs, IsAsciiSpelling pair.1)
        ∧ HasAsciiNames content ∧ HasAsciiNames nodes := by
  unfold HasAsciiNames
  rw [Node.allHeads_element, List.forall_mem_cons, List.forall_mem_append]

theorem IsSpelled.element (hs : IsSpelled (.element h content :: nodes))
    : (∀ pair ∈ h.pairs, '"' ∉ pair.2) ∧ IsSpelled content ∧ IsSpelled nodes := by
  have hvalues := hs.values
  have hentities := hs.entities
  rw [Node.allHeads_element, List.forall_mem_cons, List.forall_mem_append] at hvalues
  simp only [Node.allLeaves, List.mem_append] at hentities
  refine ⟨List.forall_mem_append.mpr ⟨?_, ?_⟩,
    ⟨hvalues.2.1, fun name hname => hentities name (.inl hname)⟩,
    ⟨hvalues.2.2, fun name hname => hentities name (.inr hname)⟩⟩
  · exact List.forall_mem_map.mpr fun b _ => Xml.not_mem_flatMap_escapeValue (.inl rfl)
  · refine List.forall_mem_map.mpr fun a ha => ?_
    cases hspelling : a.spelling with
    | none =>
        rw [Xml.Attribute.spelled, hspelling]
        exact Xml.not_mem_flatMap_escapeValue (.inl rfl)
    | some s =>
        rw [Xml.Attribute.spelled, hspelling]
        exact hvalues.1 a ha s hspelling

theorem IsSpelled.text {s : Text} (hs : IsSpelled (.text s :: nodes)) : IsSpelled nodes := by
  have hentities := hs.entities
  simp only [Node.allLeaves, List.mem_cons] at hentities
  exact ⟨fun h hh => hs.values h (by simpa using hh), fun name hname =>
    hentities name (.inr hname)⟩

theorem IsSpelled.entity {name : Text} (hs : IsSpelled (.entity name :: nodes))
    : '<' ∉ name ∧ IsSpelled nodes := by
  have hentities := hs.entities
  simp only [Node.allLeaves, List.mem_cons] at hentities
  exact ⟨hentities name (.inl rfl), fun h hh => hs.values h (by simpa using hh),
    fun name hname => hentities name (.inr hname)⟩

end Forests

-----------------------------------------------------------------------------------------
-- Characters of names
-----------------------------------------------------------------------------------------

/-- The characters of ASCII names are read in tag names and in attribute names, and those that
begin names begin tags.
-/
theorem isTagChar_of_ascii {c : Char} (hc : c.val < 128)
    : (Xml.isNameChar c → isTagChar c ∧ isNameChar c) ∧ (Xml.isNameStart c → isTagStart c) := by
  have hnames : ∀ n < 128, Xml.isNameChar (Char.ofNat n)
      → isTagChar (Char.ofNat n) ∧ isNameChar (Char.ofNat n) := by
    with_unfolding_all decide
  have hstarts : ∀ n < 128, Xml.isNameStart (Char.ofNat n) → isTagStart (Char.ofNat n) := by
    with_unfolding_all decide
  exact ⟨Text.forall_ascii (P := fun c => Xml.isNameChar c → isTagChar c ∧ isNameChar c) hnames hc,
    Text.forall_ascii (P := fun c => Xml.isNameStart c → isTagStart c) hstarts hc⟩

section Names

variable {n : Spelling} (hn : IsAsciiSpelling n)
include hn

theorem IsAsciiSpelling.forall_mem_text : ∀ c ∈ n.text, isTagChar c ∧ isNameChar c := by
  have key {s : Text} (hs : IsAsciiName s) : ∀ c ∈ s, isTagChar c ∧ isNameChar c := fun c hc =>
    (isTagChar_of_ascii (hs.ascii c hc)).1 (hs.isName.isNameChar c hc)
  unfold Spelling.text
  split
  · exact key hn.base
  · next space hspace =>
      rw [List.forall_mem_append, List.forall_mem_cons]
      exact ⟨key (hn.space space hspace), by decide, key hn.base⟩

theorem IsAsciiSpelling.text_eq_cons : ∃ c s, n.text = c :: s ∧ isTagStart c := by
  have key {s : Text} (hs : IsAsciiName s) : ∃ c rest, s = c :: rest ∧ isTagStart c := by
    cases s with
    | nil => exact hs.isName.elim
    | cons c rest =>
        exact ⟨c, rest, rfl, (isTagChar_of_ascii (hs.ascii c List.mem_cons_self)).2 hs.isName.1⟩
  unfold Spelling.text
  split
  · exact key hn.base
  · next space hspace =>
      obtain ⟨c, rest, rfl, hc⟩ := key (hn.space space hspace)
      exact ⟨c, _, rfl, hc⟩

theorem IsAsciiSpelling.not_mem_text : '<' ∉ n.text := fun hmem =>
  absurd (hn.forall_mem_text _ hmem).1 (by with_unfolding_all decide)

end Names

/-- The name is read as a whole behind the bracket of a start tag. -/
def isTagName (n : Spelling) : Bool := n.text.head?.any isTagStart && n.text.all isTagChar

/-- The name is read as a whole behind blanks in a start tag. -/
def isAttributeName (n : Spelling) : Bool := !n.text.isEmpty && n.text.all isNameChar

theorem isTagName_iff {n : Spelling}
    : isTagName n ↔ (∃ c s, n.text = c :: s ∧ isTagStart c) ∧ ∀ c ∈ n.text, isTagChar c := by
  rw [isTagName, Bool.and_eq_true, List.all_eq_true]
  cases n.text with
  | nil => simp
  | cons c s => simp

theorem isAttributeName_iff {n : Spelling}
    : isAttributeName n ↔ n.text ≠ [] ∧ ∀ c ∈ n.text, isNameChar c := by
  simp [isAttributeName]

theorem IsAsciiSpelling.isTagName {n : Spelling} (hn : IsAsciiSpelling n) : isTagName n :=
  isTagName_iff.mpr ⟨hn.text_eq_cons, fun c hc => (hn.forall_mem_text c hc).1⟩

theorem IsAsciiSpelling.isAttributeName {n : Spelling} (hn : IsAsciiSpelling n)
    : isAttributeName n := by
  obtain ⟨c, s, htext, -⟩ := hn.text_eq_cons
  refine isAttributeName_iff.mpr ⟨?_, fun c hc => (hn.forall_mem_text c hc).2⟩
  rw [htext]
  exact List.cons_ne_nil c s

-----------------------------------------------------------------------------------------
-- Start tags
-----------------------------------------------------------------------------------------

/-- A value in double quotes. -/
def quoted (value : Text) : Text := '"' :: (value ++ ['"'])

/-- The start tag that a head is written as. -/
def startTag (h : Head) (close : Text) : StartTag :=
  ⟨h.name.text, h.pairs.map fun pair => ([' '], ⟨pair.1.text, some (['='], quoted pair.2)⟩), close⟩

/-- The pairs of a head are read as attributes, by induction over them. -/
theorem readAttributesAfter_pairs {bare : Char → Text → Bool} {pairs : List (Spelling × Text)}
    (hpairs : ∀ pair ∈ pairs, isAttributeName pair.1 ∧ '"' ∉ pair.2)
    (done : List (Text × Attribute)) (s : Text)
    : readAttributesAfter bare done (pairs.flatMap Xml.pairText ++ s)
      = readAttributesAfter bare
        ((pairs.map fun pair =>
          (([' '] : Text), (⟨pair.1.text, some (['='], quoted pair.2)⟩ : Attribute))).reverse
          ++ done) s := by
  induction pairs generalizing done with
  | nil => rfl
  | cons pair pairs ih =>
      obtain ⟨⟨hname, hvalue⟩, hrest⟩ := List.forall_mem_cons.mp hpairs
      obtain ⟨hne, hchars⟩ := isAttributeName_iff.mp hname
      have hword : IsWord [' '] pair.1.text :=
        { blank := by simp [Text.isBlank]
          apart := by simp
          name := hchars
          notEmpty := hne }
      have hstops (s : Text) : Stops isNameChar ('=' :: s) := by
        intro c hc
        cases hc
        decide
      have hread := @readAssigned?_quoted bare [] pair.2 (by simp) hvalue
        (pairs.flatMap Xml.pairText ++ s)
      rw [List.nil_append, List.nil_append] at hread
      have hpair : (pair :: pairs).flatMap Xml.pairText ++ s
          = [' '] ++ (pair.1.text
            ++ '=' :: '"' :: (pair.2 ++ '"' :: (pairs.flatMap Xml.pairText ++ s))) := by
        simp [Xml.pairText, Xml.attributeText]
      rw [hpair, readAttributesAfter_word hword (hstops _), hread]
      dsimp only
      rw [ih hrest]
      simp [quoted]

/-- A start tag as it is written is read as such. -/
theorem readItem?_startTag {h : Head} (hname : isTagName h.name.spelling)
    (hpairs : ∀ pair ∈ h.pairs, isAttributeName pair.1 ∧ '"' ∉ pair.2) {close : Text}
    (hclose : IsClose close) (rest : Text)
    : readItem? ('<' :: (h.text ++ (close ++ rest)))
      = some (.tag (startTag h close), rest) := by
  obtain ⟨⟨c, s, htext, hc⟩, hchars⟩ := isTagName_iff.mp hname
  have hread : readAttributes bareInTag (h.pairs.flatMap Xml.pairText ++ (close ++ rest))
      = ((startTag h close).attributes, close ++ rest) := by
    rw [readAttributes, readAttributesAfter_pairs hpairs,
      readAttributesAfter_stops (hclose.endsStretch rest).stops_blank]
    simp [startTag]
  -- behind the name stands a blank or the end of the tag
  have hstops : Stops isTagChar (h.pairs.flatMap Xml.pairText ++ (close ++ rest)) := by
    intro x hx
    cases hpairs : h.pairs with
    | nil =>
        rw [hpairs] at hx
        rcases hclose with rfl | rfl <;> cases hx <;> with_unfolding_all decide
    | cons pair pairs =>
        rw [hpairs] at hx
        cases hx
        with_unfolding_all decide
  have htag : readTagName? (h.text ++ (close ++ rest))
      = some (h.name.text, h.pairs.flatMap Xml.pairText ++ (close ++ rest)) := by
    rw [Xml.Head.text_eq, List.append_assoc, readTagName?,
      takeWhile_append_stops hchars hstops, dropWhile_append_stops hchars hstops, htext,
      List.cons_append, List.head?_cons]
    simp only [hc, ↓reduceIte, ← htext, Xml.Name.text_spelling]
  have hstart : readStartTag? (h.text ++ (close ++ rest)) = some (startTag h close, rest) := by
    have hend := @readTagEnd?_close [] close (by simp) hclose rest
    rw [List.nil_append, List.nil_append] at hend
    rw [readStartTag?, htag]
    dsimp only
    rw [hread]
    dsimp only
    rw [hend]
    rfl
  have hmark : c ≠ '!' := by
    rintro rfl
    exact absurd hc (by decide)
  have hcons : h.text ++ (close ++ rest)
      = c :: (s ++ (h.pairs.flatMap Xml.pairText ++ (close ++ rest))) := by
    rw [Xml.Head.text_eq, htext]
    simp
  rw [hcons, readItem?_of_ne hmark, ← hcons, hstart]
  rfl

-----------------------------------------------------------------------------------------
-- Pieces of the text of a tree
-----------------------------------------------------------------------------------------

/-- A text without markup belongs to no item, by induction over the text. -/
theorem pieces_plain {s : Text} (hs : '<' ∉ s) (rest : Text)
    : scanner.pieces (s ++ rest) = s.map .plain ++ scanner.pieces rest := by
  induction s with
  | nil => rfl
  | cons c s ih =>
      rw [List.mem_cons, not_or] at hs
      have hread : scanner.read (c :: (s ++ rest)) = none := by
        change readItem? (c :: (s ++ rest)) = none
        simp [readItem?, Text.dropLiteral?, Text.ofString, hs.1]
      rw [List.cons_append, scanner.pieces_of_read_none hread, ih hs.2]
      rfl

/-- Neither does an end tag. -/
theorem pieces_endTag {s : Text} (hs : '<' ∉ s) (rest : Text)
    : scanner.pieces ('<' :: '/' :: (s ++ rest))
      = ('<' :: '/' :: s).map .plain ++ scanner.pieces rest := by
  have hread : scanner.read ('<' :: '/' :: (s ++ rest)) = none := by
    change readItem? ('<' :: '/' :: (s ++ rest)) = none
    simp [readItem?, Text.dropLiteral?, Text.ofString, readStartTag?, readTagName?, isTagStart]
  rw [scanner.pieces_of_read_none hread, ← List.cons_append, pieces_plain (by simp [hs])]
  rfl

/-- The pieces of the text of a forest: its start tags, and all other characters. -/
def writtenPieces : List Node → List (Piece Item)
  | [] => []
  | .element h content :: nodes =>
    (if content.isEmpty then [.found (.tag (startTag h ['/', '>']))]
      else
        .found (.tag (startTag h ['>']))
          :: (writtenPieces content ++ ('<' :: '/' :: (h.name.text ++ ['>'])).map .plain))
      ++ writtenPieces nodes
  | .text s :: nodes => (s.flatMap Xml.escapeText).map .plain ++ writtenPieces nodes
  | .entity name :: nodes => ('&' :: (name ++ [';'])).map .plain ++ writtenPieces nodes

/-- The scanner finds these pieces, by induction over the forest. -/
theorem pieces_writeAll {nodes : List Node} (hnames : HasAsciiNames nodes)
    (hspelled : IsSpelled nodes) (rest : Text)
    : scanner.pieces (Node.writeAll nodes ++ rest)
      = writtenPieces nodes ++ scanner.pieces rest := by
  induction nodes using Node.forest_induction generalizing rest with
  | nil =>
      rw [Node.writeAll_nil, writtenPieces]
      rfl
  | element h content nodes inside behind =>
      obtain ⟨⟨hname, hpairs⟩, hcontent, hnodes⟩ := HasAsciiNames.element_iff.mp hnames
      obtain ⟨hquotes, hcontent', hnodes'⟩ := hspelled.element
      have htag {close : Text} (hclose : IsClose close) (rest : Text)
          : scanner.pieces ('<' :: (h.text ++ (close ++ rest)))
            = .found (.tag (startTag h close)) :: scanner.pieces rest :=
        scanner.pieces_of_read (readItem?_startTag hname.isTagName
          (fun pair hpair => ⟨(hpairs pair hpair).isAttributeName, hquotes pair hpair⟩) hclose rest)
      have hfinish : '<' ∉ h.name.text ++ ['>'] := by
        rw [← Xml.Name.text_spelling]
        simp [hname.not_mem_text]
      rw [writtenPieces]
      by_cases hempty : content = []
      · subst hempty
        have htext : Node.writeAll (.element h [] :: nodes) ++ rest
            = '<' :: (h.text ++ (['/', '>'] ++ (Node.writeAll nodes ++ rest))) := by
          simp [Node.writeAll_empty]
        rw [htext, htag (.inr rfl), behind hnodes hnodes']
        rfl
      · have htext : Node.writeAll (.element h content :: nodes) ++ rest
            = '<' :: (h.text ++ (['>'] ++ (Node.writeAll content ++ ('<' :: '/'
              :: ((h.name.text ++ ['>']) ++ (Node.writeAll nodes ++ rest)))))) := by
          simp [Node.writeAll_element h hempty]
        rw [htext, htag (.inl rfl), inside hcontent hcontent', pieces_endTag hfinish,
          behind hnodes hnodes']
        simp [hempty]
  | text s nodes ih =>
      have hnodes : HasAsciiNames nodes := fun h hh => hnames h (by simpa using hh)
      have hplain : '<' ∉ s.flatMap Xml.escapeText := by
        intro hmem
        obtain ⟨c, -, hc⟩ := List.mem_flatMap.mp hmem
        exact Xml.not_mem_escapeText (.inl rfl) hc
      rw [Node.writeAll_text, List.append_assoc, pieces_plain hplain, ih hnodes hspelled.text,
        writtenPieces, List.append_assoc]
  | entity name nodes ih =>
      have hnodes : HasAsciiNames nodes := fun h hh => hnames h (by simpa using hh)
      obtain ⟨hname, hnodes'⟩ := hspelled.entity
      have hplain : '<' ∉ '&' :: (name ++ [';']) := by simp [hname]
      rw [Node.writeAll_entity, List.append_assoc, List.append_assoc, List.cons_append,
        ← List.append_assoc, ← List.cons_append, pieces_plain hplain, ih hnodes hnodes',
        writtenPieces, List.append_assoc]

-----------------------------------------------------------------------------------------
-- Rewriting
-----------------------------------------------------------------------------------------

/-- What a pair in a tag is rewritten to: a space, and the name and the value given for it. -/
def rewrittenText (f : Rewriter) (tag : Text) (pair : Spelling × Text) : Text :=
  match f tag pair.1.text (some (quoted pair.2)) with
  | (name, none) => ' ' :: name
  | (name, some value) => ' ' :: (name ++ '=' :: value)

/-- What stands between the brackets of a start tag with every pair rewritten. -/
def rewrittenStart (f : Rewriter) (h : Head) : Text :=
  h.name.text ++ h.pairs.flatMap (rewrittenText f h.name.text)

/-- The text of nodes in which all declarations of namespaces and attributes are rewritten. -/
def writeRewritten (f : Rewriter) : List Node → Text
  | [] => []
  | .element h content :: nodes =>
    (if content.isEmpty then '<' :: (rewrittenStart f h ++ ['/', '>'])
      else
        '<' :: (rewrittenStart f h ++ '>' :: (writeRewritten f content
          ++ '<' :: '/' :: (h.name.text ++ ['>']))))
      ++ writeRewritten f nodes
  | .text s :: nodes => s.flatMap Xml.escapeText ++ writeRewritten f nodes
  | .entity name :: nodes => '&' :: (name ++ ';' :: writeRewritten f nodes)

/-- The declarations of namespaces and the attributes in nodes, as they are written: the name of
the element, their own name, and the value in quotes.
-/
def writtenAttributes (nodes : List Node) : List (Text × Text × Option Text) :=
  (Node.allHeads nodes).flatMap fun h =>
    h.pairs.map fun pair => (h.name.text, pair.1.text, some (quoted pair.2))

theorem text_rewrite_startTag (f : Rewriter) (h : Head) (close : Text)
    : ((startTag h close).rewrite f).text = '<' :: (rewrittenStart f h ++ close) := by
  have hpair (pair : Spelling × Text)
      : ([' '] : Text) ++ (Attribute.rewrite f h.name.text
          ⟨pair.1.text, some (['='], quoted pair.2)⟩).text
        = rewrittenText f h.name.text pair := by
    simp only [Attribute.rewrite, Attribute.written, Option.map_some, Option.getD_some,
      rewrittenText]
    cases f h.name.text pair.1.text (some (quoted pair.2)) with
    | mk name value => cases value <;> simp [Attribute.text]
  simp only [StartTag.text, StartTag.rewrite, startTag, attributesText, List.map_map,
    List.flatMap_map, Function.comp_def, hpair, rewrittenStart, List.cons_append,
    List.append_assoc]

/-- The pieces of the text of a forest, rewritten, are the rewritten text, by induction over the
forest.
-/
theorem flatMap_writtenPieces (f : Rewriter) (nodes : List Node)
    : ((writtenPieces nodes).flatMap fun
        | .plain c => [c]
        | .found item => item.rewrite f)
      = writeRewritten f nodes := by
  have hplain (s : Text)
      : (s.map Piece.plain).flatMap (fun
          | .plain c => [c]
          | .found item => Item.rewrite f item)
        = s := by
    rw [List.flatMap_map]
    exact List.flatMap_singleton' s
  induction nodes using Node.forest_induction with
  | nil => simp [writtenPieces, writeRewritten]
  | element h content nodes inside behind =>
      rw [writtenPieces, writeRewritten, List.flatMap_append, behind]
      by_cases hempty : content = []
      · simp [hempty, Item.rewrite, text_rewrite_startTag]
      · rw [if_neg (by simpa using hempty), if_neg (by simpa using hempty), List.flatMap_cons,
          List.flatMap_append, inside, hplain]
        simp [Item.rewrite, text_rewrite_startTag]
  | text s nodes ih => rw [writtenPieces, writeRewritten, List.flatMap_append, hplain, ih]
  | entity name nodes ih =>
      rw [writtenPieces, writeRewritten, List.flatMap_append, hplain, ih]
      simp

/-- The attributes in these pieces are those of the forest, by induction over it. -/
theorem attributes_writtenPieces (nodes : List Node)
    : ((writtenPieces nodes).filterMap fun
        | .plain _ => none
        | .found item => some item).flatMap Item.attributes
      = writtenAttributes nodes := by
  have hplain (s : Text)
      : (s.map Piece.plain).filterMap (fun
          | .plain _ => none
          | .found (item : Item) => some item)
        = [] := by
    rw [List.filterMap_map]
    exact List.filterMap_eq_nil_iff.mpr fun c _ => rfl
  have htag (h : Head) (close : Text)
      : (Item.tag (startTag h close)).attributes
        = h.pairs.map fun pair => (h.name.text, pair.1.text, some (quoted pair.2)) := by
    simp [Item.attributes, startTag, Attribute.written]
  induction nodes using Node.forest_induction with
  | nil => simp [writtenPieces, writtenAttributes]
  | element h content nodes inside behind =>
      unfold writtenAttributes at inside behind ⊢
      rw [writtenPieces, List.filterMap_append, List.flatMap_append, behind,
        Node.allHeads_element, List.flatMap_cons, List.flatMap_append]
      by_cases hempty : content = []
      · simp [hempty, htag]
      · rw [if_neg (by simpa using hempty), List.filterMap_cons, List.filterMap_append, hplain,
          List.append_nil]
        dsimp only
        rw [List.flatMap_cons, inside, htag, List.append_assoc]
  | text s nodes ih =>
      rw [writtenPieces, List.filterMap_append, hplain, List.nil_append, ih, writtenAttributes,
        writtenAttributes, Node.allHeads_text]
  | entity name nodes ih =>
      rw [writtenPieces, List.filterMap_append, hplain, List.nil_append, ih, writtenAttributes,
        writtenAttributes, Node.allHeads_entity]

end SvgKit.Markup

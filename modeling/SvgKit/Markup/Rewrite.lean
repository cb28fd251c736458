import SvgKit.Markup.Tag

/-! Rewriting the attributes of every start tag of a text. Comments, sections, end tags and
character data stay as they are.
-/

namespace SvgKit.Markup

/-- Gives the name and the value that replace those of an attribute of a tag. Values come and
go with their quotes; a bare name has none.
-/
abbrev Rewriter := Text → Text → Option Text → Text × Option Text

/-- The value of an attribute as a rewriter sees it. -/
def Attribute.written (a : Attribute) : Option Text := a.value.map (·.2)

/-- The attribute of a tag after rewriting. The equals sign stays as it was written. -/
def Attribute.rewrite (f : Rewriter) (tag : Text) (a : Attribute) : Attribute :=
  match f tag a.name a.written with
  | (name, none) => ⟨name, none⟩
  | (name, some value) => ⟨name, some ((a.value.map (·.1)).getD ['='], value)⟩

/-- The tag with every attribute rewritten. -/
def StartTag.rewrite (f : Rewriter) (t : StartTag) : StartTag :=
  { t with attributes := t.attributes.map fun (blanks, a) => (blanks, a.rewrite f t.name) }

/-- The text of an item with every attribute rewritten. -/
def Item.rewrite (f : Rewriter) : Item → Text
  | .tag t => (t.rewrite f).text
  | item => item.text

/-- The text with every attribute of every start tag rewritten. -/
def rewriteAttributes (f : Rewriter) (s : Text) : Text := scanner.replace (Item.rewrite f) s

/-- The attributes of an item as a rewriter sees them: tag, name and value. -/
def Item.attributes : Item → List (Text × Text × Option Text)
  | .tag t => t.attributes.map fun (_, a) => (t.name, a.name, a.written)
  | _ => []

/-- The attributes that a rewriter is asked about, in order. -/
def attributes (s : Text) : List (Text × Text × Option Text) :=
  (scanner.findAll s).flatMap Item.attributes

end SvgKit.Markup

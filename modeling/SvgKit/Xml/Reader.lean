import SvgKit.Xml.Doctype
import SvgKit.Xml.Scope
import SvgKit.Xml.Uri
import SvgKit.Xml.Writer

/-! The tree that tokens build. Names are resolved to namespace declarations, and white space
between nodes is dropped where it seems to be there for the layout only.
-/

namespace SvgKit.Xml

-----------------------------------------------------------------------------------------
-- Start tags
-----------------------------------------------------------------------------------------

/-- The namespace of namespace declarations. -/
def xmlnsUri : Text := "http://www.w3.org/2000/xmlns/"

/-- An attribute with the text of its value, before its name is resolved. The value keeps its
spelling when it holds references to entities.
-/
structure RawAttribute where
  name : Spelling
  value : Text
  spelling : Option Text
  deriving Repr, DecidableEq

/-- The spelling of a reference in a value. -/
def Reference.spelled : Reference → Text
  | .char c => escapeValue c
  | .entity name => '&' :: name ++ [';']

/-- The reference is one to an entity. -/
def Reference.isEntity : Reference → Bool
  | .char _ => false
  | .entity _ => true

/-- The words of a value separated by single spaces; only spaces separate them. -/
def squeezeSpaces (s : Text) : Text :=
  Text.join [' '] ((Text.splitOnChar (· == ' ') s).filter (!·.isEmpty))

/-- The rule for an attribute of an element. -/
def Doctype.rule? (d : Doctype) (element name : Spelling) : Option AttributeRule :=
  d.rules.find? fun r => r.element = element && r.name = name

/-- An attribute of an element with the text of its value. -/
def Doctype.rawAttribute? (d : Doctype) (element : Spelling) (a : Spelling × Value)
    : Option RawAttribute :=
  (d.valueText? a.2).map fun value =>
    let tokenized := ((d.rule? element a.1).map (·.tokenized)).getD false
    let value := if tokenized then squeezeSpaces value else value
    let spelling :=
      if a.2.any Reference.isEntity then some (a.2.flatMap Reference.spelled) else none
    ⟨a.1, value, spelling⟩

/-- The attributes that an element has by default, those that its tag gives apart. -/
def Doctype.defaults (d : Doctype) (element : Spelling) (given : List (Spelling × Value))
    : List (Spelling × Value) :=
  d.rules.filterMap fun r =>
    if r.element = element && !given.any (·.1 = r.name) && d.rule? element r.name = some r then
      r.default.map fun value => (r.name, value)
    else none

/-- The label that an attribute declares; the default namespace has none. -/
def RawAttribute.declares? (a : RawAttribute) : Option (Option Text) :=
  match a.name.space with
  | none => if a.name.base = ("xmlns" : Text) then some none else none
  | some space => if space = ("xmlns" : Text) then some (some a.name.base) else none

/-- A namespace may be declared so. -/
def mayDeclare (label : Option Text) (uri : Text) : Bool :=
  match label with
  | none => uri ≠ xmlUri && uri ≠ xmlnsUri && Uri.isReference uri
  | some label =>
    if label = ("xml" : Text) then uri = xmlUri
    else
      label ≠ ("xmlns" : Text) && uri ≠ xmlUri && uri ≠ xmlnsUri && !uri.isEmpty
        && Uri.isReference uri

/-- The declarations among attributes; their marks count up from `mark`. The one that every
document has is not declared again.
-/
def bindingsOf? (mark : Nat) : List RawAttribute → Option (List Binding)
  | [] => some []
  | a :: rest =>
    match a.declares? with
    | none => bindingsOf? mark rest
    | some label =>
      if !mayDeclare label a.value then none
      else if label = some ("xml" : Text) then bindingsOf? mark rest
      else (bindingsOf? (mark + 1) rest).map (⟨mark, label, a.value⟩ :: ·)

/-- The declaration of a label in a scope, in which the innermost declaration comes first. -/
def lookupLabel? (scope : List Binding) (label : Option Text) : Option Binding :=
  if label = some ("xml" : Text) then some .xml else scope.find? (·.label = label)

/-- The name of an element. Without a label it belongs to the default namespace, if there is
one and its name is not empty.
-/
def elementName? (scope : List Binding) (n : Spelling) : Option Name :=
  match n.space, lookupLabel? scope n.space with
  | none, some b => some ⟨if b.uri.isEmpty then none else some b, n.base⟩
  | none, none => some ⟨none, n.base⟩
  | some _, some b => some ⟨some b, n.base⟩
  | some _, none => none

/-- The name of an attribute. Without a label it has no namespace. -/
def attributeName? (scope : List Binding) (n : Spelling) : Option Name :=
  match n.space with
  | none => some ⟨none, n.base⟩
  | some label => (lookupLabel? scope (some label)).map fun b => ⟨some b, n.base⟩

/-- No item occurs twice. -/
def allDistinct {α : Type} [DecidableEq α] : List α → Bool
  | [] => true
  | a :: rest => !rest.contains a && allDistinct rest

/-- The head of an element in a scope; its declarations have marks from `mark` on. -/
def readHead? (d : Doctype) (scope : List Binding) (mark : Nat) (name : Spelling)
    (given : List (Spelling × Value)) : Option Head := do
  let raw ← (given ++ d.defaults name given).mapM (d.rawAttribute? name)
  guard (allDistinct (raw.map (·.name)))
  let bindings ← bindingsOf? mark raw
  let inner := bindings ++ scope
  let elementName ← elementName? inner name
  let attributes ← (raw.filter (·.declares?.isNone)).mapM fun a =>
    (attributeName? inner a.name).map fun name => (⟨name, a.value, a.spelling⟩ : Attribute)
  guard (allDistinct (attributes.map fun a => (a.name.uri?, a.name.base)))
  pure { name := elementName, bindings, attributes }

-----------------------------------------------------------------------------------------
-- White space
-----------------------------------------------------------------------------------------

/-- How the white space in an element is judged: as in the layout of markup, by request or not,
or kept, by request or because text has been seen.
-/
inductive Spacing where
  | assumedLayout
  | layout
  | preserved
  | textSeen
  deriving Repr, DecidableEq

/-- How white space is judged in a child, unless its attributes say otherwise. -/
def Spacing.child : Spacing → Spacing
  | .textSeen => .assumedLayout
  | spacing => spacing

/-- How white space is judged in an element with an `xml:space` attribute. -/
def Spacing.requested (spacing : Spacing) (attributes : List (Spelling × Value)) : Spacing :=
  match attributes.lookup ⟨some "xml", "space"⟩ with
  | some value =>
    let text := value.flatMap Reference.spelled
    if text = ("preserve" : Text) then .preserved
    else if text = ("default" : Text) then .layout
    else spacing
  | none => spacing

/-- An open element: its content so far in reverse, the text at its end apart and in reverse
too.
-/
structure Frame where
  spelling : Spelling
  head : Head
  scope : List Binding
  spacing : Spacing
  elementOnly : Option Bool
  opensWithText : Bool := false
  done : List Node := []
  pending : Option Text := none

namespace Frame

/-- The element has no content so far. -/
def isEmpty (f : Frame) : Bool := f.done.isEmpty && f.pending.isNone

/-- A segment of character data is there for the layout only: it is white space in front of
markup, neither all that the element holds nor next to text, and text does not open the
element.
-/
def dropsSegment (f : Frame) (s : Text) (ahead : Ahead) : Bool :=
  f.spacing ≠ .preserved && f.spacing ≠ .textSeen && s.all isSpace
    && (match f.elementOnly with
      | some only => only
      | none =>
        ahead ≠ .other && !(f.isEmpty && ahead = .endTag) && f.pending.isNone
          && !f.opensWithText)

/-- Appends text. -/
def addText (f : Frame) (s : Text) : Frame :=
  { f with
    opensWithText := f.opensWithText || f.isEmpty
    pending := some (s.reverse ++ f.pending.getD []) }

/-- Appends a segment of character data, unless it is there for the layout only. -/
def addSegment (f : Frame) (s : Text) (ahead : Ahead) : Frame :=
  if f.dropsSegment s ahead then f
  else
    { f.addText s with
      spacing := if f.spacing = .assumedLayout then .textSeen else f.spacing }

/-- The content so far in reverse. -/
def nodes (f : Frame) : List Node :=
  match f.pending with
  | none => f.done
  | some s => .text s.reverse :: f.done

/-- Appends a node that is no text. -/
def addNode (f : Frame) (node : Node) : Frame :=
  { f with done := node :: f.nodes, pending := none }

/-- The element once it is closed. -/
def close (f : Frame) : Element := ⟨f.head, f.nodes.reverse⟩

end Frame

-----------------------------------------------------------------------------------------
-- Trees
-----------------------------------------------------------------------------------------

/-- The open elements, the innermost first, the mark of the next declaration, and the root once
it is closed.
-/
structure Progress where
  frames : List Frame := []
  mark : Nat := 1
  root : Option Element := none

/-- The greatest number of elements inside each other. -/
def maxDepth : Nat := 256

/-- Puts a closed element in its place. -/
def Progress.addElement (p : Progress) (e : Element) : Progress :=
  match p.frames with
  | [] => { p with root := some e }
  | f :: frames => { p with frames := f.addNode (.element e.head e.content) :: frames }

/-- Opens an element. -/
def Progress.open? (d : Doctype) (p : Progress) (name : Spelling)
    (given : List (Spelling × Value)) : Option Progress :=
  if p.root.isSome || maxDepth ≤ p.frames.length then none
  else
    let scope := (p.frames.head?.map (·.scope)).getD []
    let spacing := (p.frames.head?.map (·.spacing.child)).getD .assumedLayout
    (readHead? d scope p.mark name given).map fun head =>
      let frame : Frame := {
        spelling := name
        head
        scope := head.bindings ++ scope
        spacing := spacing.requested given
        elementOnly := d.elementOnly.lookup head.name.base }
      { p with frames := frame :: p.frames, mark := p.mark + head.bindings.length }

/-- Closes the innermost element. -/
def Progress.close? (p : Progress) (name : Spelling) : Option Progress :=
  match p.frames with
  | [] => none
  | f :: frames =>
    if f.spelling = name then some (({ p with frames }).addElement f.close) else none

/-- Every tag in the tokens has its partner, behind those opened and given in reverse. -/
def isBalanced (opened : List Spelling) : List Token → Bool
  | [] => opened.isEmpty
  | .start name _ isEmpty :: tokens =>
    isBalanced (if isEmpty then opened else name :: opened) tokens
  | .finish name :: tokens =>
    match opened with
    | [] => false
    | first :: opened => first = name && isBalanced opened tokens
  | _ :: tokens => isBalanced opened tokens

/-- An entity may stand in content: what it stands for is content itself, to a depth. -/
def Doctype.mayRefer (d : Doctype) : Nat → Text → Bool
  | 0, _ => false
  | depth + 1, name =>
    match d.entities.lookup name with
    | some (.internal content) =>
      match tokens? content with
      | some tokens =>
        isBalanced [] tokens && tokens.all fun token =>
          match token with
          | .entity name => d.mayRefer depth name
          | _ => true
      | none => false
    | some .external => true
    | some .unparsed => false
    | none => d.incomplete

/-- Takes in a token. -/
def Progress.take? (d : Doctype) (p : Progress) (token : Token) : Option Progress :=
  match token, p.frames with
  | .start name attributes isEmpty, _ =>
    (p.open? d name attributes).bind fun p => if isEmpty then p.close? name else some p
  | .finish name, _ => p.close? name
  | .text s ahead, f :: frames => some { p with frames := f.addSegment s ahead :: frames }
  | .text s _, [] => if s.all isSpace then some p else none
  | .literal s, f :: frames => some { p with frames := f.addText s :: frames }
  | .literal _, [] => none
  | .entity name, f :: frames =>
    if d.mayRefer (d.entities.length + 1) name then
      some { p with frames := f.addNode (.entity name) :: frames }
    else none
  | .entity _, [] => none

/-- The document that tokens build. -/
def Document.ofTokens? (d : Doctype) (tokens : List Token) : Option Document :=
  match tokens.foldlM (Progress.take? d) {} with
  | some p =>
    if p.frames.isEmpty then p.root.map fun root => ⟨root, { mark := p.mark }⟩ else none
  | none => none

-----------------------------------------------------------------------------------------
-- Documents
-----------------------------------------------------------------------------------------

/-- What follows white space, comments and instructions. -/
def dropMisc? (s : Text) : Option Text :=
  match s with
  | '<' :: '?' :: s =>
    match _h : afterInstruction? s with
    | some rest => dropMisc? rest
    | none => none
  | '<' :: '!' :: '-' :: '-' :: s =>
    match _h : afterComment? s with
    | some rest => dropMisc? rest
    | none => none
  | c :: s => if isSpace c then dropMisc? s else some (c :: s)
  | [] => some []
termination_by s.length
decreasing_by
  · have := length_afterInstruction? _h; simp; omega
  · have := length_afterComment? _h; simp; omega
  · simp

/-- A part of the declaration of XML: its value if it is there, and the rest. -/
def readPart? (key s : Text) : Option (Option Text × Text) :=
  match Text.dropLiteral? key (dropSpace s) with
  | none => some (none, s)
  | some rest =>
    match s, dropSpace rest with
    | c :: _, '=' :: rest =>
      if isSpace c then
        (readQuoted? (dropSpace rest)).map fun (value, rest) => (some value, rest)
      else none
    | _, _ => none

/-- The version is 1 with any minor number. -/
def isVersion (s : Text) : Bool :=
  match s with
  | '1' :: '.' :: digits => digits.all Char.isDigit
  | _ => false

/-- The declaration of XML behind its opening: whether the document stands alone, and the
rest.
-/
def readXmlDeclaration? (s : Text) : Option (Bool × Text) := do
  let (version, s) ← readPart? "version" s
  guard (isVersion (← version))
  let (_, s) ← readPart? "encoding" s
  let (standalone, s) ← readPart? "standalone" s
  let alone ←
    match standalone with
    | none => some false
    | some answer =>
      if answer = ("yes" : Text) then some true
      else if answer = ("no" : Text) then some false
      else none
  match dropSpace s with
  | '?' :: '>' :: rest => some (alone, rest)
  | _ => none

/-- What follows the declaration of XML, if there is one, and whether the document stands
alone.
-/
def afterXmlDeclaration? (s : Text) : Option (Bool × Text) :=
  match Text.dropLiteral? "<?xml" s with
  | some (c :: rest) => if isSpace c then readXmlDeclaration? (c :: rest) else some (false, s)
  | _ => some (false, s)

/-- The document type declaration, if there is one, and the rest. -/
def readDoctypeOrNone? (s : Text) : Option (Doctype × Text) :=
  match Text.dropLiteral? "<!DOCTYPE" s with
  | some rest => readDoctype? rest
  | none => some ({}, s)

/-- The document that a text writes. A byte order mark may stand in front. -/
def Document.ofText? (s : Text) : Option Document := do
  let unmarked := match s with
    | '\uFEFF' :: s => s
    | s => s
  let (alone, s) ← afterXmlDeclaration? unmarked
  let s ← dropMisc? s
  let (d, s) ← readDoctypeOrNone? s
  let s ← dropMisc? s
  let tokens ← tokens? s
  Document.ofTokens? { d with incomplete := d.incomplete && !alone } tokens

end SvgKit.Xml

import SvgKit.Xml.Token

/-! The document type declaration: entities, attributes with default values and the elements
that hold no text. External declarations are never read.
-/

namespace SvgKit.Xml

/-- An entity: the text that it stands for, or one that is kept outside the document. -/
inductive Entity where
  | internal (content : Text)
  | external
  | unparsed
  deriving Repr, DecidableEq

/-- What is declared about an attribute of an element. -/
structure AttributeRule where
  element : Spelling
  name : Spelling
  tokenized : Bool
  default : Option Value
  deriving Repr, DecidableEq

/-- What a document type declaration declares. It is incomplete when some declarations may
stand outside the document. `elementOnly` tells of an element whether it holds elements only.
-/
structure Doctype where
  entities : List (Text × Entity) := []
  rules : List AttributeRule := []
  elementOnly : List (Text × Bool) := []
  incomplete : Bool := false
  deriving Repr, DecidableEq

-----------------------------------------------------------------------------------------
-- Words of a declaration
-----------------------------------------------------------------------------------------

/-- A word of a declaration. -/
inductive Word where
  | plain (s : Text)
  | quoted (s : Text)
  | group (s : Text)
  deriving Repr, DecidableEq

/-- Where the reading of words stands, with the characters of a word read in reverse. -/
inductive WordState where
  | between
  | plain (done : Text)
  | quoted (quote : Char) (done : Text)
  | group (depth : Nat) (done : Text)
  deriving Repr, DecidableEq

/-- The words that are complete at this point, in reverse. -/
def WordState.close (words : List Word) : WordState → List Word
  | .plain done => .plain done.reverse :: words
  | _ => words

/-- The state behind a character that begins or continues a plain word. -/
def WordState.extend (c : Char) : WordState → WordState
  | .plain done => .plain (c :: done)
  | _ => .plain [c]

/-- The words up to the end of a declaration or to a bracket, behind those read in reverse,
and the rest.
-/
def readWords? (words : List Word) (state : WordState) : Text → Option (List Word × Text)
  | [] => none
  | c :: s =>
    match state with
    | .quoted quote done =>
      if c = quote then readWords? (.quoted done.reverse :: words) .between s
      else if isChar c then readWords? words (.quoted quote (c :: done)) s
      else none
    | .group depth done =>
      if c = ')' then
        if depth = 0 then readWords? (.group done.reverse :: words) .between s
        else readWords? words (.group (depth - 1) (c :: done)) s
      else if c = '(' then readWords? words (.group (depth + 1) (c :: done)) s
      else if c = '<' || c = '>' || !isChar c then none
      else readWords? words (.group depth (c :: done)) s
    | state =>
      if c = '>' || c = '[' then some ((state.close words).reverse, c :: s)
      else if isSpace c then readWords? (state.close words) .between s
      else if c = '"' || c = '\'' then readWords? (state.close words) (.quoted c []) s
      else if c = '(' then readWords? (state.close words) (.group 0 []) s
      else if c = '<' || !isChar c then none
      else readWords? words (state.extend c) s

/-- Reading words leaves no more than there was, by induction over the text. -/
theorem length_readWords? {words found : List Word} {state : WordState} {s rest : Text}
    (h : readWords? words state s = some (found, rest))
    : rest.length ≤ s.length := by
  induction s generalizing words state with
  | nil => simp [readWords?] at h
  | cons c s ih =>
    have step {words state} (h : readWords? words state s = some (found, rest))
        : rest.length ≤ (c :: s).length :=
      Nat.le_succ_of_le (ih h)
    unfold readWords? at h
    grind

/-- The text is a name without colons. -/
def isName (s : Text) : Bool :=
  match readName? s with
  | some (_, []) => true
  | _ => false

/-- The text as a spelled name. -/
def Spelling.ofText? (s : Text) : Option Spelling :=
  match readSpelling? s with
  | some (name, []) => some name
  | _ => none

-----------------------------------------------------------------------------------------
-- Declarations
-----------------------------------------------------------------------------------------

/-- The external identifier at the head of words, and the other words. -/
def dropExternal? : List Word → Option (List Word)
  | .plain kind :: .quoted first :: rest =>
    if kind = ("SYSTEM" : Text) then some rest
    else if kind = ("PUBLIC" : Text) then
      let isPublic (c : Char) :=
        c.isAlphanum || c == ' ' || c == '\r' || c == '\n' || ("-'()+,./:=?;!*#@$_%" : Text).contains c
      match rest with
      | .quoted _ :: rest => if first.all isPublic then some rest else none
      | _ => none
    else none
  | _ => none

/-- The text of an entity: references to characters are replaced, those to entities stay. -/
def entityText? (done : Text) (s : Text) : Option Text :=
  match s with
  | [] => some done.reverse
  | '&' :: s =>
    match _h : readReference? s with
    | some (.char c, rest) =>
      let spelled := '&' :: s.take (s.length - rest.length)
      entityText? ((if s.head? = some '#' then [c] else spelled.reverse) ++ done) rest
    | some (.entity name, rest) =>
      entityText? (((name ++ [';']).reverse ++ ['&']) ++ done) rest
    | none => none
  | c :: s => if c = '%' then none else entityText? (c :: done) s
termination_by s.length
decreasing_by
  · have := length_readReference? _h; simp; omega
  · have := length_readReference? _h; simp; omega
  · simp

/-- The entity that the words behind its name declare. -/
def readEntity? (words : List Word) : Option Entity :=
  match words with
  | [.quoted value] => (entityText? [] value).map .internal
  | words =>
    match dropExternal? words with
    | some [] => some .external
    | some [.plain kind, .plain _] => if kind = ("NDATA" : Text) then some .unparsed else none
    | _ => none

/-- The declared types of attributes, parenthesised ones apart. -/
def attributeTypes : List Text :=
  ["CDATA", "ID", "IDREF", "IDREFS", "ENTITY", "ENTITIES", "NMTOKEN", "NMTOKENS"]

/-- The type of an attribute at the head of words: whether its values are tokens, and the
other words.
-/
def readAttributeType? : List Word → Option (Bool × List Word)
  | .plain type :: .group _ :: rest =>
    if type = ("NOTATION" : Text) then some (true, rest) else none
  | .plain type :: rest =>
    if attributeTypes.contains type then some (type ≠ ("CDATA" : Text), rest) else none
  | .group _ :: rest => some (true, rest)
  | _ => none

/-- The default of an attribute at the head of words, and the other words. -/
def readDefault? : List Word → Option (Option Value × List Word)
  | .quoted value :: rest => (readValue? value).map fun value => (some value, rest)
  | .plain kind :: rest =>
    if kind = ("#REQUIRED" : Text) || kind = ("#IMPLIED" : Text) then some (none, rest)
    else if kind = ("#FIXED" : Text) then
      match rest with
      | .quoted value :: rest => (readValue? value).map fun value => (some value, rest)
      | _ => none
    else none
  | _ => none

/-- The rules for attributes of an element, at most `count`, behind those read in reverse. -/
def readRules? (element : Spelling) (done : List AttributeRule)
    : Nat → List Word → Option (List AttributeRule)
  | _, [] => some done.reverse
  | 0, _ :: _ => none
  | count + 1, words =>
    match words with
    | .plain name :: words =>
      match Spelling.ofText? name, readAttributeType? words with
      | some name, some (tokenized, words) =>
        match readDefault? words with
        | some (default, words) =>
          readRules? element (⟨element, name, tokenized, default⟩ :: done) count words
        | none => none
      | _, _ => none
    | _ => none

/-- Adds what the words of a declaration declare. Of two entities of a name, and of two rules
for an attribute, the first counts.
-/
def Doctype.declare? (d : Doctype) : List Word → Option Doctype
  | .plain kind :: .plain name :: words =>
    if kind = ("ENTITY" : Text) then
      if name = ("%" : Text) then
        match words with
        | .plain name :: words =>
          if isName name then (readEntity? words).map fun _ => d else none
        | _ => none
      else if isName name then
        (readEntity? words).map fun entity =>
          { d with entities := d.entities ++ [(name, entity)] }
      else none
    else if kind = ("ELEMENT" : Text) then
      match words with
      | [.plain content] =>
        if content = ("EMPTY" : Text) || content = ("ANY" : Text) then
          some { d with elementOnly := d.elementOnly ++ [(name, false)] }
        else none
      | .group content :: _ =>
        let only := !Text.hasLiteral "#PCDATA" content
        some { d with elementOnly := d.elementOnly ++ [(name, only)] }
      | _ => none
    else if kind = ("ATTLIST" : Text) then
      match Spelling.ofText? name with
      | some element =>
        (readRules? element [] words.length words).map fun rules =>
          { d with rules := d.rules ++ rules }
      | none => none
    else if kind = ("NOTATION" : Text) then some d
    else none
  | _ => none

-----------------------------------------------------------------------------------------
-- The internal subset
-----------------------------------------------------------------------------------------

/-- The declaration behind `<!`, and the rest. -/
def readDeclaration? (d : Doctype) (s : Text) : Option (Doctype × Text) :=
  match readWords? [] .between s with
  | some (words, '>' :: rest) => (d.declare? words).map fun d => (d, rest)
  | _ => none

/-- The declarations up to the closing bracket, and the rest. A reference to a parameter
entity makes the declarations incomplete.
-/
def readSubset? (d : Doctype) (s : Text) : Option (Doctype × Text) :=
  match s with
  | ']' :: rest => some (d, rest)
  | '%' :: s =>
    match _h : readName? s with
    | some (_, ';' :: rest) => readSubset? { d with incomplete := true } rest
    | _ => none
  | '<' :: '?' :: s =>
    match _h : afterInstruction? s with
    | some rest => readSubset? d rest
    | none => none
  | '<' :: '!' :: '-' :: '-' :: s =>
    match _h : afterComment? s with
    | some rest => readSubset? d rest
    | none => none
  | '<' :: '!' :: s =>
    match _h : readDeclaration? d s with
    | some (d, rest) => readSubset? d rest
    | none => none
  | c :: s => if isSpace c then readSubset? d s else none
  | [] => none
termination_by s.length
decreasing_by
  · have := length_readName? _h; simp at *; omega
  · have := length_afterInstruction? _h; simp; omega
  · have := length_afterComment? _h; simp; omega
  · unfold readDeclaration? at _h
    split at _h
    · next hw =>
      have := length_readWords? hw
      obtain ⟨_, _, h'⟩ := Option.map_eq_some_iff.mp _h
      cases h'
      simp at *
      omega
    · cases _h
  · simp

/-- The document type declaration whose opening has been read, and the rest. -/
def readDoctype? (s : Text) : Option (Doctype × Text) :=
  match s with
  | [] => none
  | c :: _ =>
    if !isSpace c then none
    else
      match readWords? [] .between s with
      | some (.plain name :: words, rest) =>
        let external := if words.isEmpty then some false else (dropExternal? words).bind fun left =>
          if left.isEmpty then some true else none
        match readFullName? name, external, rest with
        | some (_, []), some incomplete, '>' :: rest => some ({ incomplete }, rest)
        | some (_, []), some incomplete, '[' :: rest =>
          match readSubset? { incomplete } rest with
          | some (d, rest) =>
            match dropSpace rest with
            | '>' :: rest => some (d, rest)
            | _ => none
          | none => none
        | _, _, _ => none
      | _ => none

-----------------------------------------------------------------------------------------
-- Values with references
-----------------------------------------------------------------------------------------

/-- The text of a reference, given how the values of entities are read; none when the entity is
not declared, although all declarations are known, or has no place in a value.
-/
def Doctype.replacement? (d : Doctype) (expand? : Value → Option Text)
    : Reference → Option Text
  | .char c => some [c]
  | .entity name =>
    match d.entities.lookup name with
    | some (.internal content) => (readValue? content).bind expand?
    | some _ => none
    | none => if d.incomplete then some [] else none

/-- The text of a value whose entities stand inside each other to a depth. -/
def Doctype.expand? (d : Doctype) : Nat → Value → Option Text
  | 0, value => (value.mapM (d.replacement? fun _ => none)).map List.flatten
  | depth + 1, value => (value.mapM (d.replacement? (d.expand? depth))).map List.flatten

/-- The text of a value with its entities replaced; they may stand inside each other, but not
inside themselves.
-/
def Doctype.valueText? (d : Doctype) (value : Value) : Option Text :=
  d.expand? d.entities.length value

end SvgKit.Xml

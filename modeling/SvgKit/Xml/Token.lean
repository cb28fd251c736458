import SvgKit.Xml.Reference

/-! The tokens of an XML document: tags, references to entities and character data. Comments
and instructions are read and left out.

Character data comes in segments, since white space is judged segment by segment: a segment
ends before a carriage return, before a character beyond ASCII and before markup.
-/

namespace SvgKit.Xml

/-- What stands behind a segment of character data. -/
inductive Ahead where
  | endTag
  | markup
  | lineEnd
  | other
  deriving Repr, DecidableEq

/-- What a text begins with. -/
def Ahead.ofText : Text → Ahead
  | '<' :: '/' :: _ => .endTag
  | '<' :: _ => .markup
  | '\r' :: _ => .lineEnd
  | _ => .other

/-- A token. Text is character data as it stands; a literal comes from a reference to a
character or from a section of character data.
-/
inductive Token where
  | text (s : Text) (ahead : Ahead)
  | literal (s : Text)
  | entity (name : Text)
  | start (name : Spelling) (attributes : List (Spelling × Value)) (isEmpty : Bool)
  | finish (name : Spelling)
  deriving Repr, DecidableEq

-----------------------------------------------------------------------------------------
-- Character data
-----------------------------------------------------------------------------------------

/-- A character of ASCII, or a tab or line feed, that continues a segment. -/
def isPlain (c : Char) : Bool :=
  c == '\t' || c == '\n' || (0x20 ≤ c.val && c.val ≤ 0x7F && c != '<' && c != '&')

/-- A character that neither ends character data nor is forbidden in it. -/
def isData (c : Char) : Bool := isChar c && c != '<' && c != '&'

/-- A text token, unless the text is empty; `]]>` may not stand in it. -/
def textToken? (s rest : Text) : Option (List Token) :=
  if s.isEmpty then some []
  else if Text.hasLiteral "]]>" s then none
  else some [.text (Text.unifyLines s) (.ofText rest)]

/-- A character that may follow a line feed in the same segment. -/
def continuesLine (s : Text) : Bool :=
  match s with
  | [] => false
  | c :: _ => c == '\t' || c == '\n' || (0x20 ≤ c.val && c.val ≤ 0x7F)

/-- The segments of the character data at the head of a text, behind those read in reverse,
and the rest.
-/
def readDataAfter? (done : List (List Token)) (s : Text) : Option (List Token × Text) :=
  let segment := s.takeWhile isPlain
  match _h : s.dropWhile isPlain with
  | '\r' :: '\n' :: more =>
    match textToken? segment ('\r' :: '\n' :: more) with
    | none => none
    | some tokens =>
      if continuesLine more then readDataAfter? (tokens :: done) ('\n' :: more)
      else last (tokens :: done) ('\n' :: more)
  | rest =>
    match textToken? segment rest with
    | none => none
    | some tokens => last (tokens :: done) rest
termination_by s.length
decreasing_by
  have := (List.dropWhile_suffix (l := s) isPlain).length_le
  rw [_h] at this
  simp only [List.length_cons] at *
  omega
where
  /-- The last segment reaches to the end of the character data. -/
  last (done : List (List Token)) (s : Text) : Option (List Token × Text) :=
    let rest := s.dropWhile isData
    (textToken? (s.takeWhile isData) rest).map fun tokens =>
      ((tokens :: done).reverse.flatten, rest)

/-- The segments of the character data at the head of a text, and the rest. -/
def readData? (s : Text) : Option (List Token × Text) := readDataAfter? [] s

-----------------------------------------------------------------------------------------
-- Comments, instructions and sections
-----------------------------------------------------------------------------------------

/-- What follows the comment whose opening has been read: two hyphens stand only at its end. -/
def afterComment? (s : Text) : Option Text :=
  match Text.splitAtLiteral? "--" s with
  | some (content, '>' :: rest) => if content.all isChar then some rest else none
  | _ => none

/-- The name may not be the target of an instruction. -/
def isReservedTarget (name : Text) : Bool :=
  name.map Char.toLower = ("xml" : Text) || name.contains ':'

/-- The text may stand behind the target of an instruction, white space apart from it. -/
def isInstructionContent : Text → Bool
  | [] => true
  | c :: s => isSpace c && s.all isChar

/-- What follows the instruction whose opening has been read. -/
def afterInstruction? (s : Text) : Option Text :=
  match readFullName? s with
  | none => none
  | some (target, rest) =>
    if isReservedTarget target then none
    else
      match Text.splitAtLiteral? "?>" rest with
      | none => none
      | some (content, rest) =>
        if isInstructionContent content then some rest else none

/-- The content of the section of character data whose opening has been read, and the rest. -/
def readSection? (s : Text) : Option (Text × Text) :=
  match Text.splitAtLiteral? "]]>" s with
  | none => none
  | some (content, rest) =>
    if content.all isChar then some (Text.unifyLines content, rest) else none

-----------------------------------------------------------------------------------------
-- Tags
-----------------------------------------------------------------------------------------

/-- The text behind white space. -/
def dropSpace (s : Text) : Text := s.dropWhile isSpace

/-- The quoted value at the head of a text, and the rest. -/
def readQuoted? (s : Text) : Option (Text × Text) :=
  match s with
  | [] => none
  | quote :: s =>
    if quote = '"' || quote = '\'' then
      match s.dropWhile (· ≠ quote) with
      | _ :: rest => some (s.takeWhile (· ≠ quote), rest)
      | [] => none
    else none

/-- The attribute at the head of a text, and the rest. -/
def readAttribute? (s : Text) : Option ((Spelling × Value) × Text) :=
  match readSpelling? s with
  | none => none
  | some (name, rest) =>
    match dropSpace rest with
    | '=' :: rest =>
      match readQuoted? (dropSpace rest) with
      | none => none
      | some (spelled, rest) => (readValue? spelled).map fun value => ((name, value), rest)
    | _ => none

/-- Dropping white space leaves no more than there was. -/
theorem length_dropSpace (s : Text) : (dropSpace s).length ≤ s.length :=
  (List.dropWhile_suffix _).length_le

/-- Reading a quoted value leaves less than there was. -/
theorem length_readQuoted? {s value rest : Text} (h : readQuoted? s = some (value, rest))
    : rest.length < s.length := by
  unfold readQuoted? at h
  split at h
  · cases h
  · next quote s =>
    have hle := (List.dropWhile_suffix (l := s) (· ≠ quote)).length_le
    split at h
    · split at h
      · next hs =>
        cases h
        rw [hs] at hle
        simp only [List.length_cons] at *
        omega
      · cases h
    · cases h

/-- Reading an attribute leaves less than there was. -/
theorem length_readAttribute? {s rest : Text} {a : Spelling × Value}
    (h : readAttribute? s = some (a, rest))
    : rest.length < s.length := by
  unfold readAttribute? at h
  split at h
  · cases h
  · next name afterName hname =>
    have h1 := length_readSpelling? hname
    have h2 := length_dropSpace afterName
    split at h
    · next afterEquals hequals =>
      have h3 := length_dropSpace afterEquals
      rw [hequals] at h2
      split at h
      · cases h
      · next hvalue =>
        have h4 := length_readQuoted? hvalue
        obtain ⟨value, _, hv⟩ := Option.map_eq_some_iff.mp h
        cases hv
        simp only [List.length_cons] at *
        omega
    · cases h

/-- The attributes up to the end of a start tag, behind those read in reverse, and the rest.
White space stands before each attribute.
-/
def readAttributesAfter? (done : List (Spelling × Value)) (s : Text)
    : Option ((List (Spelling × Value) × Bool) × Text) :=
  match s with
  | '>' :: rest => some ((done.reverse, false), rest)
  | '/' :: '>' :: rest => some ((done.reverse, true), rest)
  | c :: s =>
    if isSpace c then
      match _h : readAttribute? (dropSpace s) with
      | some (a, rest) => readAttributesAfter? (a :: done) rest
      | none =>
        match dropSpace s with
        | '>' :: rest => some ((done.reverse, false), rest)
        | '/' :: '>' :: rest => some ((done.reverse, true), rest)
        | _ => none
    else none
  | [] => none
termination_by s.length
decreasing_by
  have := length_readAttribute? _h
  have := length_dropSpace s
  simp only [List.length_cons]
  omega

/-- The start tag whose opening has been read, and the rest. -/
def readStart? (s : Text) : Option (Token × Text) :=
  match readSpelling? s with
  | none => none
  | some (name, rest) =>
    (readAttributesAfter? [] rest).map fun ((attributes, isEmpty), rest) =>
      (.start name attributes isEmpty, rest)

/-- The end tag whose opening has been read, and the rest. -/
def readFinish? (s : Text) : Option (Token × Text) :=
  match readSpelling? s with
  | none => none
  | some (name, rest) =>
    match dropSpace rest with
    | '>' :: rest => some (.finish name, rest)
    | _ => none

-----------------------------------------------------------------------------------------
-- All tokens
-----------------------------------------------------------------------------------------

/-- The tokens of what begins at the head of a text, and the rest. -/
def readTokens? (s : Text) : Option (List Token × Text) :=
  match s with
  | '<' :: '?' :: s => (afterInstruction? s).map fun rest => ([], rest)
  | '<' :: '!' :: '-' :: '-' :: s => (afterComment? s).map fun rest => ([], rest)
  | '<' :: '!' :: s =>
    match Text.dropLiteral? "[CDATA[" s with
    | none => none
    | some s => (readSection? s).map fun (content, rest) => ([.literal content], rest)
  | '<' :: '/' :: s => (readFinish? s).map fun (token, rest) => ([token], rest)
  | '<' :: s => (readStart? s).map fun (token, rest) => ([token], rest)
  | '&' :: s =>
    (readReference? s).map fun (r, rest) =>
      match r with
      | .char c => ([.literal [c]], rest)
      | .entity name => ([.entity name], rest)
  | c :: s => if isData c then readData? (c :: s) else none
  | [] => none

/-- The last segment reaches to the first character that is no data. -/
theorem rest_of_last {done : List (List Token)} {s rest : Text} {tokens : List Token}
    (h : readDataAfter?.last done s = some (tokens, rest))
    : rest = s.dropWhile isData := by
  obtain ⟨_, _, h'⟩ := Option.map_eq_some_iff.mp h
  cases h'
  rfl

/-- Reading character data leaves no more than there was, by induction over the segments. -/
theorem length_readDataAfter? {done : List (List Token)} {s rest : Text}
    {tokens : List Token} (h : readDataAfter? done s = some (tokens, rest))
    : rest.length ≤ s.length := by
  fun_induction readDataAfter? done s with
  | case1 => cases h
  | case2 done s segment more hs segmentTokens _ _ ih =>
    have := (List.dropWhile_suffix (l := s) isPlain).length_le
    have := ih h
    simp only [hs, List.length_cons] at *
    omega
  | case3 done s segment more hs segmentTokens _ _ =>
    have := (List.dropWhile_suffix (l := s) isPlain).length_le
    have := (List.dropWhile_suffix (l := '\n' :: more) isData).length_le
    rw [rest_of_last h]
    simp only [hs, List.length_cons] at *
    omega
  | case4 => cases h
  | case5 done s segment _ _ _ =>
    have := (List.dropWhile_suffix (l := s) isPlain).length_le
    rw [rest_of_last h]
    exact Nat.le_trans (List.dropWhile_suffix _).length_le this

/-- Reading character data leaves less than there was, since data begins the text. -/
theorem length_readData? {c : Char} {s rest : Text} {tokens : List Token}
    (hc : isData c) (h : readData? (c :: s) = some (tokens, rest))
    : rest.length < (c :: s).length := by
  have hdata : ((c :: s).dropWhile isData).length ≤ s.length := by
    rw [List.dropWhile_cons_of_pos hc]
    exact (List.dropWhile_suffix _).length_le
  have hplain : (c :: s).dropWhile isPlain = c :: s
      ∨ ((c :: s).dropWhile isPlain).length ≤ s.length := by
    by_cases hp : isPlain c
    · rw [List.dropWhile_cons_of_pos hp]
      exact Or.inr (List.dropWhile_suffix _).length_le
    · exact Or.inl (List.dropWhile_cons_of_neg hp)
  unfold readData? readDataAfter? at h
  dsimp only at h
  split at h
  · next more hs =>
    have := (List.dropWhile_suffix (l := c :: s) isPlain).length_le
    rw [hs] at this
    split at h
    · cases h
    · split at h
      · have := length_readDataAfter? h
        simp only [List.length_cons] at *
        omega
      · have := (List.dropWhile_suffix (l := '\n' :: more) isData).length_le
        rw [rest_of_last h]
        simp only [List.length_cons] at *
        omega
  · split at h
    · cases h
    · rw [rest_of_last h]
      rcases hplain with hp | hp
      · rw [hp]
        simp only [List.length_cons]
        omega
      · have := (List.dropWhile_suffix (l := (c :: s).dropWhile isPlain) isData).length_le
        simp only [List.length_cons]
        omega

/-- Reading an end of the text leaves no more than there was. -/
theorem length_splitAtLiteral? {literal s before rest : Text}
    (h : Text.splitAtLiteral? literal s = some (before, rest))
    : rest.length ≤ s.length := (Text.splitAtLiteral?_suffix h).length_le

/-- Reading an instruction leaves no more than there was. -/
theorem length_afterInstruction? {s rest : Text} (h : afterInstruction? s = some rest)
    : rest.length ≤ s.length := by
  unfold afterInstruction? at h
  split at h
  · cases h
  · next hn =>
    have := length_readFullName? hn
    split at h
    · cases h
    · split at h
      · cases h
      · next hs =>
        have := length_splitAtLiteral? hs
        split at h
        · cases h; omega
        · cases h

/-- Reading a comment leaves no more than there was. -/
theorem length_afterComment? {s rest : Text} (h : afterComment? s = some rest)
    : rest.length ≤ s.length := by
  unfold afterComment? at h
  split at h
  · next hs =>
    have := length_splitAtLiteral? hs
    split at h
    · cases h
      simp only [List.length_cons] at this
      omega
    · cases h
  · cases h

/-- Reading a section leaves no more than there was. -/
theorem length_readSection? {s content rest : Text} (h : readSection? s = some (content, rest))
    : rest.length ≤ s.length := by
  unfold readSection? at h
  split at h
  · cases h
  · next hs =>
    have := length_splitAtLiteral? hs
    split at h
    · cases h; omega
    · cases h

/-- Reading attributes leaves no more than there was, by induction over them. -/
theorem length_readAttributesAfter? {done attributes : List (Spelling × Value)}
    {isEmpty : Bool} {s rest : Text}
    (h : readAttributesAfter? done s = some ((attributes, isEmpty), rest))
    : rest.length ≤ s.length := by
  fun_induction readAttributesAfter? done s with
  | case1 => cases h; simp
  | case2 => cases h; simp; omega
  | case3 done c s _ _ hc a left ha ih =>
    have := ih h
    have := length_readAttribute? ha
    have := length_dropSpace s
    simp only [List.length_cons]
    omega
  | case4 done c s _ _ hc ha left hs =>
    cases h
    have := length_dropSpace s
    simp only [hs, List.length_cons] at *
    omega
  | case5 done c s _ _ hc ha left hs =>
    cases h
    have := length_dropSpace s
    simp only [hs, List.length_cons] at *
    omega
  | case6 => cases h
  | case7 => cases h
  | case8 => cases h

/-- Reading a start tag leaves no more than there was. -/
theorem length_readStart? {s rest : Text} {token : Token}
    (h : readStart? s = some (token, rest))
    : rest.length ≤ s.length := by
  unfold readStart? at h
  split at h
  · cases h
  · next hn =>
    have := length_readSpelling? hn
    obtain ⟨_, ha, h'⟩ := Option.map_eq_some_iff.mp h
    cases h'
    have := length_readAttributesAfter? ha
    omega

/-- Reading an end tag leaves no more than there was. -/
theorem length_readFinish? {s rest : Text} {token : Token}
    (h : readFinish? s = some (token, rest))
    : rest.length ≤ s.length := by
  unfold readFinish? at h
  split at h
  · cases h
  · next afterName hn =>
    have := length_readSpelling? hn
    have := length_dropSpace afterName
    split at h
    · next hs =>
      cases h
      rw [hs] at this
      simp only [List.length_cons] at this
      omega
    · cases h

/-- Reading tokens leaves less than there was. -/
theorem length_readTokens? {s rest : Text} {tokens : List Token}
    (h : readTokens? s = some (tokens, rest))
    : rest.length < s.length := by
  unfold readTokens? at h
  split at h
  · obtain ⟨_, ha, h'⟩ := Option.map_eq_some_iff.mp h
    cases h'
    have := length_afterInstruction? ha
    simp only [List.length_cons]
    omega
  · obtain ⟨_, ha, h'⟩ := Option.map_eq_some_iff.mp h
    cases h'
    have := length_afterComment? ha
    simp only [List.length_cons]
    omega
  · split at h
    · cases h
    · next hd =>
      obtain ⟨_, ha, h'⟩ := Option.map_eq_some_iff.mp h
      cases h'
      have := length_readSection? ha
      have := congrArg List.length (Text.dropLiteral?_eq_some_iff.mp hd)
      simp only [List.length_cons, List.length_append] at *
      omega
  · obtain ⟨_, ha, h'⟩ := Option.map_eq_some_iff.mp h
    cases h'
    have := length_readFinish? ha
    simp only [List.length_cons]
    omega
  · obtain ⟨_, ha, h'⟩ := Option.map_eq_some_iff.mp h
    cases h'
    have := length_readStart? ha
    simp only [List.length_cons]
    omega
  · obtain ⟨⟨r, left⟩, ha, h'⟩ := Option.map_eq_some_iff.mp h
    have := length_readReference? ha
    cases r <;>
    · cases h'
      simp only [List.length_cons]
      omega
  · split at h
    · next hc => exact length_readData? hc h
    · cases h
  · cases h

/-- The tokens of a text behind those read in reverse. -/
def tokensAfter? (done : List (List Token)) (s : Text) : Option (List Token) :=
  if s.isEmpty then some done.reverse.flatten
  else
    match _h : readTokens? s with
    | some (tokens, rest) => tokensAfter? (tokens :: done) rest
    | none => none
termination_by s.length
decreasing_by exact length_readTokens? _h

/-- The tokens of a text. -/
def tokens? (s : Text) : Option (List Token) := tokensAfter? [] s

end SvgKit.Xml

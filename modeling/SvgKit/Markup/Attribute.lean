import SvgKit.Text.Basic

/-! Attributes as they are written: a name and perhaps an equals sign and a value, which is
quoted or bare. What ends a bare value is a parameter of reading.
-/

namespace SvgKit.Markup

/-- A written attribute. The value comes with its quotes, and with the equals sign and the
blanks around it.
-/
structure Attribute where
  name : Text
  value : Option (Text × Text)
  deriving Repr, DecidableEq

/-- The attribute as it is written. -/
def Attribute.text (a : Attribute) : Text :=
  match a.value with
  | none => a.name
  | some (equals, value) => a.name ++ equals ++ value

/-- A character that may stand in an attribute name. -/
def isNameChar (c : Char) : Bool :=
  !Text.isBlank c && c != '=' && c != '/' && c != '>' && c != '"' && c != '\''

/-- A character that may stand in a bare value of any tag. -/
def isBareChar (c : Char) : Bool :=
  !Text.isBlank c && c != '"' && c != '\'' && c != '>'

/-- A bare value goes on with a character, whatever follows. -/
def bareInTag (c : Char) (_ : Text) : Bool := isBareChar c

/-- A bare value of a root goes on with a character unless it is the slash of `/>`. -/
def bareInRoot (c : Char) (rest : Text) : Bool :=
  isBareChar c && !(c == '/' && rest.head? == some '>')

/-- The value at the head of a text with its quotes, and the rest. -/
def readValue? (bare : Char → Text → Bool) (s : Text) : Option (Text × Text) :=
  match s with
  | [] => none
  | quote :: inner =>
    if quote = '"' || quote = '\'' then
      (Text.splitAtLiteral? [quote] inner).map fun (body, rest) =>
        (quote :: body ++ [quote], rest)
    else
      let (value, rest) := Text.spanAhead bare s
      if value.isEmpty then none else some (value, rest)

/-- The equals sign with the blanks around it at the head of a text, and the rest. -/
def readEquals? (s : Text) : Option (Text × Text) :=
  let before := s.takeWhile Text.isBlank
  match s.dropWhile Text.isBlank with
  | '=' :: rest =>
    some (before ++ '=' :: rest.takeWhile Text.isBlank, rest.dropWhile Text.isBlank)
  | _ => none

/-- The equals sign and the value at the head of a text, and the rest. -/
def readAssigned? (bare : Char → Text → Bool) (s : Text) : Option ((Text × Text) × Text) :=
  match readEquals? s with
  | none => none
  | some (equals, rest) =>
    (readValue? bare rest).map fun (value, left) => ((equals, value), left)

/-- The attribute at the head of a text, and the rest. An equals sign without a value after
it is left over.
-/
def readAttribute? (bare : Char → Text → Bool) (s : Text) : Option (Attribute × Text) :=
  let name := s.takeWhile isNameChar
  let rest := s.dropWhile isNameChar
  if name.isEmpty then none
  else
    match readAssigned? bare rest with
    | some (assigned, left) => some (⟨name, some assigned⟩, left)
    | none => some (⟨name, none⟩, rest)

-----------------------------------------------------------------------------------------
-- What is read and what is left make up the text
-----------------------------------------------------------------------------------------

/-- A value and the rest make up the text. -/
theorem eq_of_readValue? {bare : Char → Text → Bool} {s value rest : Text}
    (h : readValue? bare s = some (value, rest))
    : s = value ++ rest := by
  unfold readValue? at h
  split at h
  · cases h
  · split at h
    · obtain ⟨⟨body, left⟩, hs, he⟩ := Option.map_eq_some_iff.mp h
      cases he
      rw [Text.eq_of_splitAtLiteral? hs]
      simp
    · dsimp only at h
      split at h
      · cases h
      · cases h; exact (Text.spanAhead_append ..).symm

/-- An equals sign with its blanks and the rest make up the text. -/
theorem eq_of_readEquals? {s equals rest : Text} (h : readEquals? s = some (equals, rest))
    : s = equals ++ rest := by
  unfold readEquals? at h
  dsimp only at h
  split at h
  · next after hs =>
    cases h
    have := List.takeWhile_append_dropWhile (p := Text.isBlank) (l := s)
    rw [hs] at this
    simpa using this.symm
  · cases h

/-- An assigned value and the rest make up the text. -/
theorem eq_of_readAssigned? {bare : Char → Text → Bool} {s equals value rest : Text}
    (h : readAssigned? bare s = some ((equals, value), rest))
    : s = equals ++ value ++ rest := by
  unfold readAssigned? at h
  split at h
  · cases h
  · next e left he =>
    obtain ⟨⟨v, r⟩, hv, heq⟩ := Option.map_eq_some_iff.mp h
    cases heq
    rw [eq_of_readEquals? he, eq_of_readValue? hv]
    simp

/-- An attribute and the rest make up the text. -/
theorem eq_of_readAttribute? {bare : Char → Text → Bool} {s rest : Text} {a : Attribute}
    (h : readAttribute? bare s = some (a, rest))
    : s = a.text ++ rest := by
  have hs := List.takeWhile_append_dropWhile (p := isNameChar) (l := s)
  unfold readAttribute? at h
  dsimp only at h
  split at h
  · cases h
  · split at h
    · next assigned left ha =>
      cases h
      obtain ⟨equals, value⟩ := assigned
      rw [eq_of_readAssigned? ha] at hs
      simpa [Attribute.text] using hs.symm
    · cases h; simp [Attribute.text]

/-- The name of an attribute that is read is not empty. -/
theorem name_ne_nil_of_readAttribute? {bare : Char → Text → Bool} {s rest : Text}
    {a : Attribute} (h : readAttribute? bare s = some (a, rest))
    : a.name ≠ [] := by
  unfold readAttribute? at h
  dsimp only at h
  split at h
  · cases h
  · next hne =>
    have hne : s.takeWhile isNameChar ≠ [] := by simpa using hne
    split at h <;> cases h <;> exact hne

/-- Reading an attribute leaves less than there was. -/
theorem length_readAttribute? {bare : Char → Text → Bool} {s rest : Text} {a : Attribute}
    (h : readAttribute? bare s = some (a, rest))
    : rest.length < s.length := by
  have hs := congrArg List.length (eq_of_readAttribute? h)
  have hn := List.length_pos_iff.mpr (name_ne_nil_of_readAttribute? h)
  have : a.name.length ≤ a.text.length := by
    unfold Attribute.text
    split
    · exact Nat.le_refl _
    · simp only [List.length_append]
      omega
  simp only [List.length_append] at hs
  omega

-----------------------------------------------------------------------------------------
-- Several attributes
-----------------------------------------------------------------------------------------

/-- The attributes at the head of a text, each with the blanks before it, after those already
read in reverse order, and the rest.
-/
def readAttributesAfter (bare : Char → Text → Bool) (done : List (Text × Attribute))
    (s : Text) : List (Text × Attribute) × Text :=
  let blanks := s.takeWhile Text.isBlank
  if blanks.isEmpty then (done.reverse, s)
  else
    match _read : readAttribute? bare (s.dropWhile Text.isBlank) with
    | some (a, rest) => readAttributesAfter bare ((blanks, a) :: done) rest
    | none => (done.reverse, s)
termination_by s.length
decreasing_by
  have := length_readAttribute? _read
  have := (List.dropWhile_sublist (p := Text.isBlank) (l := s)).length_le
  omega

/-- The attributes at the head of a text, each with the blanks before it, and the rest. -/
def readAttributes (bare : Char → Text → Bool) (s : Text) : List (Text × Attribute) × Text :=
  readAttributesAfter bare [] s

/-- Attributes with the blanks before them as they are written. -/
def attributesText (attributes : List (Text × Attribute)) : Text :=
  attributes.flatMap fun (blanks, a) => blanks ++ a.text

/-- Attributes and the rest make up the text, behind those already read. -/
theorem readAttributesAfter_append (bare : Char → Text → Bool)
    (done : List (Text × Attribute)) (s : Text)
    : attributesText (readAttributesAfter bare done s).1 ++ (readAttributesAfter bare done s).2
      = attributesText done.reverse ++ s := by
  fun_induction readAttributesAfter bare done s with
  | case1 => rfl
  | case2 done s blanks hne a rest hread ih =>
    rw [ih]
    have hs := List.takeWhile_append_dropWhile (p := Text.isBlank) (l := s)
    rw [eq_of_readAttribute? hread] at hs
    conv => rhs; rw [← hs]
    simp [attributesText, blanks]
  | case3 => rfl

/-- Attributes and the rest make up the text. -/
theorem readAttributes_append (bare : Char → Text → Bool) (s : Text)
    : attributesText (readAttributes bare s).1 ++ (readAttributes bare s).2 = s :=
  readAttributesAfter_append bare [] s

end SvgKit.Markup

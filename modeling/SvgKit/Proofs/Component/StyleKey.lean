import SvgKit.Component.Jsx
import SvgKit.Proofs.Json.StringLiteral
import SvgKit.Proofs.Text.Ascii
import SvgKit.Proofs.Text.Members
import SvgKit.Proofs.Text.Pieces

/-! Keys of style objects. JavaScript reads a key as an identifier name or as a string literal; the
key of a custom property is a literal. The key of any other property in ASCII is an identifier name:
when its hyphens are gone, letters, digits and underscores are left.
-/

namespace SvgKit.Component

open Text (forall_ascii lower_eq_map)

-----------------------------------------------------------------------------------------
-- Identifier names
-----------------------------------------------------------------------------------------

/-- The characters beyond ASCII that begin identifier names and that continue them. -/
structure WideClass where
  begins : Char → Bool
  continues : Char → Bool

/-- An ASCII character that begins identifier names. -/
def isAsciiStart (c : Char) : Bool := c.isAlpha || c == '$' || c == '_'

/-- An ASCII character that continues identifier names. -/
def isAsciiPart (c : Char) : Bool := isAsciiStart c || c.isDigit

/-- A character that begins identifier names. -/
def WideClass.isStart (wide : WideClass) (c : Char) : Bool :=
  isAsciiStart c || 128 ≤ c.val && wide.begins c

/-- A character that continues identifier names. -/
def WideClass.isPart (wide : WideClass) (c : Char) : Bool :=
  isAsciiPart c || 128 ≤ c.val && wide.continues c

/-- An identifier name of JavaScript. -/
def IsIdentifierName (wide : WideClass) : Text → Prop
  | [] => False
  | c :: s => wide.isStart c ∧ ∀ x ∈ s, wide.isPart x

/-- The UTF-16 units of the key at the head of a text, and what follows it. -/
def readKey? (wide : WideClass) : Text → Option (List Nat × Text)
  | [] => none
  | c :: s =>
    if c = '"' then Json.readString? (c :: s)
    else if wide.isStart c then
      some (Text.units (c :: s.takeWhile wide.isPart), s.dropWhile wide.isPart)
    else none

-----------------------------------------------------------------------------------------
-- Properties
-----------------------------------------------------------------------------------------

/-- A character that begins identifiers of a style. -/
def isCssStart (c : Char) : Bool := c.isAlpha || c == '_' || 128 ≤ c.val

/-- A character of identifiers of a style. -/
def isCssChar (c : Char) : Bool := isCssStart c || c.isDigit || c == '-'

/-- An identifier of a style, custom properties apart. -/
inductive IsCssIdentifier : Text → Prop
  | plain {c : Char} {s : Text} (hc : isCssStart c) (hs : ∀ x ∈ s, isCssChar x)
    : IsCssIdentifier (c :: s)
  | hyphen {c : Char} {s : Text} (hc : isCssStart c) (hs : ∀ x ∈ s, isCssChar x)
    : IsCssIdentifier ('-' :: c :: s)

/-- The key that a property is to have. -/
def propertyKey (property : Text) : Text :=
  if Text.startsWith property "--" then property else Markup.camelCase (Text.lower property)

/-- A custom property, or an identifier that is in ASCII or has an identifier name as its key. -/
inductive IsProperty (wide : WideClass) : Text → Prop
  | custom {s : Text} (hcolon : ':' ∉ s) (hsemicolon : ';' ∉ s)
    : IsProperty wide ('-' :: '-' :: s)
  | identifier {s : Text} (hs : IsCssIdentifier s)
    (hkey : (∀ c ∈ s, c.val < 128) ∨ IsIdentifierName wide (propertyKey s))
    : IsProperty wide s

theorem isCssChar_of_mem {s : Text} (hs : IsCssIdentifier s) {c : Char} (hc : c ∈ s)
    : isCssChar c := by
  have hstart {c : Char} (hc : isCssStart c) : isCssChar c := by simp [isCssChar, hc]
  cases hs with
  | plain hfirst hrest =>
      rcases List.mem_cons.mp hc with rfl | hc
      · exact hstart hfirst
      · exact hrest c hc
  | hyphen hfirst hrest =>
      rcases List.mem_cons.mp hc with rfl | hc
      · rfl
      · rcases List.mem_cons.mp hc with rfl | hc
        · exact hstart hfirst
        · exact hrest c hc

/-- A property is not empty, and no separator stands in it. -/
theorem separators_of_isProperty {wide : WideClass} {property : Text}
    (hproperty : IsProperty wide property)
    : property ≠ [] ∧ ':' ∉ property ∧ ';' ∉ property := by
  cases hproperty with
  | custom hcolon hsemicolon =>
      exact ⟨by simp, by simpa using hcolon, by simpa using hsemicolon⟩
  | identifier hs _ =>
      refine ⟨?_, fun hc => ?_, fun hc => ?_⟩
      · rintro rfl
        cases hs
      · exact absurd (isCssChar_of_mem hs hc) (by decide)
      · exact absurd (isCssChar_of_mem hs hc) (by decide)

-----------------------------------------------------------------------------------------
-- Capitals
-----------------------------------------------------------------------------------------

theorem camelCase_eq (s : Text)
    : Markup.camelCase s = (Text.splitOnChar (· == '-') s).headD []
      ++ (Text.splitOnChar (· == '-') s).tail.flatMap Markup.capitalize :=
  rfl

theorem camelCase_cons {c : Char} (hc : c ≠ '-') (s : Text)
    : Markup.camelCase (c :: s) = c :: Markup.camelCase s := by
  rw [camelCase_eq, Text.splitOnChar_cons (by simpa using hc), camelCase_eq]
  rfl

theorem camelCase_hyphen_cons {c : Char} (hc : c ≠ '-') (s : Text)
    : Markup.camelCase ('-' :: c :: s) = Text.upperChar c ++ Markup.camelCase s := by
  rw [camelCase_eq, Text.splitOnChar_separator rfl, Text.splitOnChar_cons (by simpa using hc),
    camelCase_eq]
  simp [Markup.capitalize]

/-- What stands in a name without hyphens stood in the name, or is the capital of such a character.
-/
theorem mem_camelCase {s : Text} {x : Char} (h : x ∈ Markup.camelCase s)
    : ∃ c ∈ s, c ≠ '-' ∧ (x = c ∨ x ∈ Text.upperChar c) := by
  have hpiece {piece : Text} (hmem : piece ∈ Text.splitOnChar (· == '-') s) {c : Char}
      (hc : c ∈ piece)
      : c ∈ s ∧ c ≠ '-' :=
    ⟨Text.mem_of_mem_splitOnChar hmem hc,
      by simpa using Text.eq_false_of_mem_splitOnChar hmem hc⟩
  rw [camelCase_eq, List.mem_append, List.mem_flatMap] at h
  rcases h with hfirst | ⟨piece, hmem, hx⟩
  · obtain ⟨hs, hne⟩ := hpiece List.mem_cons_self hfirst
    exact ⟨x, hs, hne, .inl rfl⟩
  · have hmem := List.mem_of_mem_tail hmem
    cases piece with
    | nil => cases hx
    | cons c piece =>
        rcases List.mem_append.mp hx with hcapital | hrest
        · obtain ⟨hs, hne⟩ := hpiece hmem List.mem_cons_self
          exact ⟨c, hs, hne, .inr hcapital⟩
        · obtain ⟨hs, hne⟩ := hpiece hmem (List.mem_cons_of_mem _ hrest)
          exact ⟨x, hs, hne, .inl rfl⟩

/-- An ASCII character that begins identifier names, as its capital does. -/
def IsKeyStart (c : Char) : Prop :=
  c.val < 128 ∧ c ≠ '-' ∧ isAsciiStart c ∧ isAsciiStart c.toUpper

/-- An ASCII character that continues identifier names, as its capital does. -/
def IsKeyPart (c : Char) : Prop := c.val < 128 ∧ isAsciiPart c ∧ isAsciiPart c.toUpper

instance : DecidablePred IsKeyStart := fun _ => inferInstanceAs (Decidable (_ ∧ _))

instance : DecidablePred IsKeyPart := fun _ => inferInstanceAs (Decidable (_ ∧ _))

theorem isKeyStart_toLower {c : Char} (hascii : c.val < 128) (hc : isCssStart c)
    : IsKeyStart c.toLower := by
  have hall : ∀ n < 128, isCssStart (Char.ofNat n) → IsKeyStart (Char.ofNat n).toLower := by
    decide
  exact forall_ascii (P := fun c => isCssStart c → IsKeyStart c.toLower) hall hascii hc

theorem isKeyPart_toLower {c : Char} (hascii : c.val < 128) (hc : isCssChar c)
    (hne : c.toLower ≠ '-')
    : IsKeyPart c.toLower := by
  have hall : ∀ n < 128, isCssChar (Char.ofNat n) → (Char.ofNat n).toLower ≠ '-'
      → IsKeyPart (Char.ofNat n).toLower := by
    decide
  exact forall_ascii (P := fun c => isCssChar c → c.toLower ≠ '-' → IsKeyPart c.toLower) hall
    hascii hc hne

/-- What stands in the key of an ASCII identifier continues identifier names. -/
theorem isAsciiPart_of_mem_camelCase {s : Text} (hs : ∀ c ∈ s, isCssChar c)
    (hascii : ∀ c ∈ s, c.val < 128) {x : Char}
    (hx : x ∈ Markup.camelCase (s.map Char.toLower))
    : isAsciiPart x := by
  obtain ⟨_, hmem, hne, hcase⟩ := mem_camelCase hx
  obtain ⟨c, hc, rfl⟩ := List.mem_map.mp hmem
  obtain ⟨hsmall, hpart, hcapital⟩ := isKeyPart_toLower (hascii c hc) (hs c hc) hne
  rcases hcase with rfl | hupper
  · exact hpart
  · rw [Text.upperChar, if_pos hsmall, List.mem_singleton] at hupper
    rw [hupper]
    exact hcapital

/-- The key of an ASCII identifier is an identifier name: hyphens go, and what is left are letters,
digits and underscores.
-/
theorem isIdentifierName_camelCase {s : Text} (wide : WideClass) (hs : IsCssIdentifier s)
    (hascii : ∀ c ∈ s, c.val < 128)
    : IsIdentifierName wide (Markup.camelCase (Text.lower s)) := by
  have hrest {s : Text} (hs : ∀ c ∈ s, isCssChar c) (hascii : ∀ c ∈ s, c.val < 128)
      : ∀ x ∈ Markup.camelCase (s.map Char.toLower), wide.isPart x := by
    intro x hx
    rw [WideClass.isPart, isAsciiPart_of_mem_camelCase hs hascii hx, Bool.true_or]
  rw [lower_eq_map hascii]
  cases hs with
  | plain hc hs =>
      rw [List.forall_mem_cons] at hascii
      obtain ⟨-, hne, hstart, -⟩ := isKeyStart_toLower hascii.1 hc
      rw [List.map_cons, camelCase_cons hne]
      exact ⟨by rw [WideClass.isStart, hstart, Bool.true_or], hrest hs hascii.2⟩
  | hyphen hc hs =>
      rw [List.forall_mem_cons, List.forall_mem_cons] at hascii
      obtain ⟨hsmall, hne, -, hcapital⟩ := isKeyStart_toLower hascii.2.1 hc
      rw [List.map_cons, List.map_cons, show '-'.toLower = '-' from rfl,
        camelCase_hyphen_cons hne, Text.upperChar, if_pos hsmall]
      exact ⟨by rw [WideClass.isStart, hcapital, Bool.true_or], hrest hs hascii.2.2⟩

-----------------------------------------------------------------------------------------
-- Keys
-----------------------------------------------------------------------------------------

variable {wide : WideClass} {property : Text}

theorem startsWith_dashes_of_isCssIdentifier {s : Text} (hs : IsCssIdentifier s)
    : Text.startsWith s "--" = false := by
  have hdashes : Text.ofString "--" = ['-', '-'] := by
    rw [Text.ofString]
    rfl
  have hne {c : Char} (hc : isCssStart c) : '-' ≠ c := by
    rintro rfl
    cases hc
  rw [Text.startsWith, hdashes]
  cases hs with
  | plain hc hs => simp [Text.dropLiteral?, hne hc]
  | hyphen hc hs => simp [Text.dropLiteral?, hne hc]

/-- A key is a string literal or an identifier name. -/
theorem styleKey_cases (hproperty : IsProperty wide property)
    : styleKey property = Json.asciiString property ∧ propertyKey property = property
      ∨ styleKey property = propertyKey property
        ∧ IsIdentifierName wide (propertyKey property) := by
  cases hproperty with
  | custom hcolon hsemicolon =>
      have hdashes (s : Text) : Text.startsWith ('-' :: '-' :: s) "--" := by
        rw [Text.startsWith, Text.ofString]
        rfl
      exact .inl ⟨if_pos (hdashes _), if_pos (hdashes _)⟩
  | identifier hs hkey =>
      have hdashes := Bool.eq_false_iff.mp (startsWith_dashes_of_isCssIdentifier hs)
      refine .inr ⟨?_, hkey.elim (fun hascii => ?_) id⟩
      · rw [styleKey, if_neg hdashes, propertyKey, if_neg hdashes]
      · rw [propertyKey, if_neg hdashes]
        exact isIdentifierName_camelCase wide hs hascii

theorem readKey?_styleKey (hproperty : IsProperty wide property) (rest : Text)
    : readKey? wide (styleKey property ++ ':' :: rest)
      = some ((propertyKey property).units, ':' :: rest) := by
  rcases styleKey_cases hproperty with ⟨hliteral, hkey⟩ | ⟨hname, hidentifier⟩
  · have hread := Json.readString?_asciiString property (':' :: rest)
    rw [hliteral, hkey, ← hread]
    rfl
  · rw [hname]
    generalize propertyKey property = key at hidentifier ⊢
    cases key with
    | nil => cases hidentifier
    | cons c s =>
        have hquote : c ≠ '"' := by
          rintro rfl
          exact absurd hidentifier.1 (by simp [WideClass.isStart, isAsciiStart])
        have hstops : Stops wide.isPart (':' :: rest) := by
          rintro _ ⟨⟩
          simp [WideClass.isPart, isAsciiPart, isAsciiStart]
        rw [List.cons_append, readKey?, if_neg hquote, if_pos hidentifier.1,
          takeWhile_append_stops hidentifier.2 hstops, dropWhile_append_stops hidentifier.2 hstops]

theorem stops_styleKey (hproperty : IsProperty wide property) (rest : Text)
    : Stops (· == ' ') (styleKey property ++ rest) := by
  rcases styleKey_cases hproperty with ⟨hliteral, -⟩ | ⟨hname, hidentifier⟩
  · rw [hliteral]
    rintro _ ⟨⟩
    rfl
  · rw [hname]
    generalize propertyKey property = key at hidentifier ⊢
    cases key with
    | nil => cases hidentifier
    | cons c s =>
        rintro _ ⟨⟩
        refine Bool.eq_false_iff.mpr fun heq => ?_
        rw [beq_iff_eq.mp heq] at hidentifier
        exact absurd hidentifier.1 (by simp [WideClass.isStart, isAsciiStart])

end SvgKit.Component

import SvgKit.Proofs.Component.ElementName
import SvgKit.Proofs.Component.StyleKey

/-! Names under which a script declares and exports a component. The names made from file names can
all be declared, because a capital begins them and no reserved word. The names that options may give
are kept from the reserved words of another language, so that some words are accepted which no
module can declare, and some are refused which every module can.
-/

namespace SvgKit.Component

open Text (isAlphanum_of_isAlpha)

-----------------------------------------------------------------------------------------
-- Names of modules
-----------------------------------------------------------------------------------------

/-- The reserved words of module code, those of strict code and `await` among them. -/
def moduleWords : List Text :=
  (["await", "break", "case", "catch", "class", "const", "continue", "debugger", "default",
    "delete", "do", "else", "enum", "export", "extends", "false", "finally", "for", "function",
    "if", "implements", "import", "in", "instanceof", "interface", "let", "new", "null",
    "package", "private", "protected", "public", "return", "static", "super", "switch", "this",
    "throw", "true", "try", "typeof", "var", "void", "while", "with", "yield"]
    : List String).map Text.ofString

/-- The names that strict code does not declare although they are not reserved. -/
def restrictedNames : List Text := (["arguments", "eval"] : List String).map Text.ofString

/-- A name that a module can declare and export. -/
structure IsDeclarable (wide : WideClass) (name : Text) : Prop where
  identifier : IsIdentifierName wide name
  free : name ∉ moduleWords
  unrestricted : name ∉ restrictedNames

/-- Options that are accepted give the name. -/
def IsAccepted (name : Text) : Prop :=
  ∃ value options, Options.ofJson value = .valid options ∧ options.name = some name

/-- The words that options may give and no module can declare. -/
def missedWords : List Text :=
  (["case", "catch", "const", "debugger", "default", "delete", "do", "enum", "export", "extends",
    "false", "function", "implements", "instanceof", "interface", "let", "new", "null", "package",
    "private", "protected", "public", "static", "super", "switch", "this", "throw", "true",
    "typeof", "var", "void", "arguments", "eval"] : List String).map Text.ofString

/-- The identifiers that options may not give and a module can declare. -/
def refusedWords : List Text :=
  (["False", "None", "True", "and", "as", "assert", "async", "def", "del", "elif", "except",
    "from", "global", "is", "lambda", "nonlocal", "not", "or", "pass", "raise"]
    : List String).map Text.ofString

-----------------------------------------------------------------------------------------
-- Identifiers
-----------------------------------------------------------------------------------------

section Identifier

variable {name : Text}

/-- The letters, digits and underscores of an identifier are characters of identifier names. -/
theorem IsIdentifier.isIdentifierName (h : IsIdentifier name) (wide : WideClass)
    : IsIdentifierName wide name := by
  cases name with
  | nil => cases h
  | cons c s =>
      obtain ⟨hc, hs⟩ := h
      refine ⟨?_, fun x hx => ?_⟩
      · rcases hc with hc | rfl <;> simp [WideClass.isStart, isAsciiStart, *]
      · have hx := hs x hx
        simp only [Component.isIdentifierChar, Char.isAlphanum, Bool.or_eq_true, beq_iff_eq] at hx
        rcases hx with (hx | hx) | rfl <;> simp [WideClass.isPart, isAsciiPart, isAsciiStart, *]

/-- An identifier can be declared unless the word is taken. -/
theorem IsIdentifier.isDeclarable_iff (h : IsIdentifier name) (wide : WideClass)
    : IsDeclarable wide name ↔ name ∉ moduleWords ++ restrictedNames := by
  rw [List.mem_append, not_or]
  exact ⟨fun h => ⟨h.free, h.unrestricted⟩,
    fun hfree => ⟨h.isIdentifierName wide, hfree.1, hfree.2⟩⟩

/-- No word that is taken begins with a capital. -/
theorem IsPascalName.isDeclarable (h : IsPascalName name) (wide : WideClass)
    : IsDeclarable wide name := by
  have hsmall : ∀ word ∈ moduleWords ++ restrictedNames, beginsCapital word = false := by
    decide +kernel
  have hcapital : beginsCapital name := by
    cases name with
    | nil => cases h
    | cons c s => exact h.1
  rw [h.isIdentifier.isDeclarable_iff]
  exact fun hmem => absurd hcapital (Bool.eq_false_iff.mp (hsmall name hmem))

end Identifier

-----------------------------------------------------------------------------------------
-- Options
-----------------------------------------------------------------------------------------

/-- An object with a component name only is read with the defaults for everything else. -/
theorem ofJson_of_readName {name : Text} (hread : readName (.string name) = .valid name)
    : Options.ofJson (.object [("component_name", .string name)])
      = .valid { name := some name } := by
  have hmember : Json.withDefault "component_name" none (Json.readOptional readName)
      (.object [("component_name", .string name)]) = .valid (some name) := by
    simp [Json.withDefault, Json.member?, Json.readOptional, hread, Validation.map,
      Validation.under]
  have habsent {α : Type} (key : Text) (hkey : key ≠ "component_name") (default : α)
      (read : Json → Validation α)
      : Json.withDefault key default read (.object [("component_name", .string name)])
        = .valid default := by
    simp [Json.withDefault, Json.member?, List.lookup, beq_false_of_ne hkey, Validation.under]
  rw [Options.ofJson, hmember]
  simp only [habsent "typescript" (by simp [Text.ofString]),
    habsent "memoize" (by simp [Text.ofString]),
    habsent "include_props_interface" (by simp [Text.ofString]),
    habsent "export_default" (by simp [Text.ofString]),
    habsent "width" (by simp [Text.ofString]),
    habsent "height" (by simp [Text.ofString])]
  rfl

/-- Options give the names that the rule for component names allows. -/
theorem isAccepted_iff {name : Text}
    : IsAccepted name ↔ IsIdentifier name ∧ name ∉ reservedWords := by
  rw [← isComponentName_iff]
  constructor
  · rintro ⟨value, options, hoptions, hname⟩
    have hmember := valid_of_ofJson hoptions
    rw [hname] at hmember
    obtain ⟨member, -, hread⟩ := exists_of_withDefault hmember
    exact isComponentName_of_readName (valid_of_readOptional hread)
  · intro h
    exact ⟨_, _, ofJson_of_readName (if_pos h), rfl⟩

-----------------------------------------------------------------------------------------
-- The two lists of words
-----------------------------------------------------------------------------------------

theorem missedWords_eq
    : missedWords = (moduleWords ++ restrictedNames).filter (· ∉ reservedWords) := by
  decide +kernel

theorem refusedWords_eq
    : refusedWords = reservedWords.filter (· ∉ moduleWords ++ restrictedNames) := by
  decide +kernel

/-- The words of both lists are made of letters. -/
theorem isIdentifier_of_mem {word : Text} (hword : word ∈ missedWords ++ refusedWords)
    : IsIdentifier word := by
  have hletters : ∀ word ∈ missedWords ++ refusedWords, word ≠ [] ∧ word.all Char.isAlpha := by
    decide +kernel
  obtain ⟨hne, hletters⟩ := hletters word hword
  obtain ⟨c, s, rfl⟩ := List.exists_cons_of_ne_nil hne
  rw [List.all_cons, Bool.and_eq_true, List.all_eq_true] at hletters
  exact ⟨.inl hletters.1, fun x hx => by
    simp [isIdentifierChar, isAlphanum_of_isAlpha (hletters.2 x hx)]⟩

/-- Every name that is made from a file name can be declared, and every name that options may give
has the form of an identifier name. The names that options may give and that cannot be declared are
the missed words, and the identifiers that they may not give and that can be declared are the
refused words.
-/
theorem isDeclarable_of_given (wide : WideClass)
    : (∀ path, IsDeclarable wide (nameOfFile path))
      ∧ ∀ name,
        (IsAccepted name → IsIdentifierName wide name)
        ∧ (IsAccepted name ∧ ¬ IsDeclarable wide name ↔ name ∈ missedWords)
        ∧ (IsIdentifier name ∧ IsDeclarable wide name ∧ ¬ IsAccepted name
          ↔ name ∈ refusedWords) := by
  refine ⟨fun path => (isPascalName_nameOfFile path).isDeclarable wide, fun name => ⟨?_, ?_, ?_⟩⟩
  · intro h
    exact (isAccepted_iff.mp h).1.isIdentifierName wide
  · rw [isAccepted_iff]
    constructor
    · rintro ⟨⟨hidentifier, hfree⟩, htaken⟩
      rw [hidentifier.isDeclarable_iff, not_not] at htaken
      rw [missedWords_eq]
      exact List.mem_filter.mpr ⟨htaken, decide_eq_true hfree⟩
    · intro hmem
      have hidentifier := isIdentifier_of_mem (List.mem_append_left _ hmem)
      rw [missedWords_eq] at hmem
      obtain ⟨htaken, hfree⟩ := List.mem_filter.mp hmem
      rw [hidentifier.isDeclarable_iff, not_not]
      exact ⟨⟨hidentifier, of_decide_eq_true hfree⟩, htaken⟩
  · rw [isAccepted_iff]
    constructor
    · rintro ⟨hidentifier, hfree, hrefused⟩
      rw [hidentifier.isDeclarable_iff] at hfree
      have hreserved : name ∈ reservedWords :=
        not_not.mp fun hnot => hrefused ⟨hidentifier, hnot⟩
      rw [refusedWords_eq]
      exact List.mem_filter.mpr ⟨hreserved, decide_eq_true hfree⟩
    · intro hmem
      have hidentifier := isIdentifier_of_mem (List.mem_append_right _ hmem)
      rw [refusedWords_eq] at hmem
      obtain ⟨hreserved, hfree⟩ := List.mem_filter.mp hmem
      rw [hidentifier.isDeclarable_iff]
      exact ⟨hidentifier, of_decide_eq_true hfree, fun h => h.2 hreserved⟩

/-- A component may be named by a word that begins a declaration. -/
theorem not_isDeclarable_function
    : Options.ofJson (.object [("component_name", .string "function")])
        = .valid { name := some "function" }
      ∧ IsAccepted "function" ∧ ∀ wide, ¬ IsDeclarable wide "function" := by
  have hvalid : isComponentName "function" := by decide +kernel
  have hoptions := @ofJson_of_readName "function" (if_pos hvalid)
  have hword : ("function" : Text) ∈ moduleWords := by decide +kernel
  exact ⟨hoptions, ⟨_, _, hoptions, rfl⟩, fun _ h => h.free hword⟩

end SvgKit.Component

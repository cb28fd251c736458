import SvgKit.Component.Options
import SvgKit.Proofs.Component.FileName
import SvgKit.Proofs.Text.Members
import SvgKit.Proofs.Text.Pieces

/-! Names of custom elements. The name of a component falls into words, and its element is named by
them in small letters, with hyphens between them, or with `svg` in front of a single one. What comes
out may be a name that is reserved, or begin with the underscore that the name of the component
began with.
-/

namespace SvgKit.Component

open Text (isAlpha_of_isUpper isAlphanum_of_isAlpha)

/-- The names with a hyphen that no custom element may have. -/
def reservedNames : List Text :=
  (["annotation-xml", "color-profile", "font-face", "font-face-src", "font-face-uri",
    "font-face-format", "font-face-name", "missing-glyph"] : List String).map Text.ofString

/-- A name that a custom element may have. -/
structure IsElementName (name : Text) : Prop where
  begins : ∃ c ∈ name.head?, c.isLower
  hyphen : '-' ∈ name
  small : ∀ c ∈ name, c.isUpper = false
  free : name ∉ reservedNames

/-- The names that components have: those that options are given, and those made from file names. -/
inductive IsGivenName : Text → Prop
  | option {value : Json} {options : Options} {name : Text}
      (hoptions : Options.ofJson value = .valid options) (hname : options.name = some name)
    : IsGivenName name
  | file (path : Text) : IsGivenName (nameOfFile path)

-----------------------------------------------------------------------------------------
-- Words
-----------------------------------------------------------------------------------------

/-- A capital begins the text. -/
def beginsCapital : Text → Bool
  | [] => false
  | c :: _ => c.isUpper

/-- A capital and a small letter begin the text. -/
def beginsWord : Text → Bool
  | c :: d :: _ => c.isUpper && d.isLower
  | _ => false

/-- A word ends with a small letter or digit in front of a capital, and with a capital in front of
another one that a small letter follows.
-/
def endsWord (c : Char) (s : Text) : Bool :=
  (c.isLower || c.isDigit) && beginsCapital s || c.isUpper && beginsWord s

/-- The words of a name. -/
def nameWords : Text → List Text
  | [] => []
  | c :: s =>
    match nameWords s with
    | [] => [[c]]
    | word :: words => if endsWord c s then [c] :: word :: words else (c :: word) :: words

/-- The words of a name in small letters. -/
def lowerWords (name : Text) : List Text := (nameWords name).map fun word => word.map Char.toLower

/-- The words of a name make it up. -/
theorem flatten_nameWords (name : Text) : (nameWords name).flatten = name := by
  induction name with
  | nil => rfl
  | cons c s ih =>
      rw [nameWords]
      split
      · next hwords =>
          rw [hwords] at ih
          rw [← ih]
          rfl
      · next word words hwords =>
          rw [hwords] at ih
          split <;> simp [← ih]

theorem mem_of_mem_nameWords {name word : Text} (hword : word ∈ nameWords name) {c : Char}
    (hc : c ∈ word)
    : c ∈ name :=
  flatten_nameWords name ▸ List.mem_flatten.mpr ⟨word, hword, hc⟩

theorem exists_nameWords_cons (c : Char) (s : Text)
    : ∃ word words, nameWords (c :: s) = (c :: word) :: words := by
  rw [nameWords]
  split
  · exact ⟨_, _, rfl⟩
  · split <;> exact ⟨_, _, rfl⟩

/-- A hyphen goes where a word ends. -/
theorem join_nameWords_cons (c : Char) (s : Text)
    : Text.join ['-'] (nameWords (c :: s))
      = if endsWord c s then c :: '-' :: Text.join ['-'] (nameWords s)
        else c :: Text.join ['-'] (nameWords s) := by
  cases s with
  | nil =>
      have hends : endsWord c [] = false := by simp [endsWord, beginsCapital, beginsWord]
      rw [hends]
      rfl
  | cons d s =>
      obtain ⟨word, words, hwords⟩ := exists_nameWords_cons d s
      rw [nameWords, hwords]
      dsimp only
      split
      · rw [Text.join_cons _ _ (List.cons_ne_nil _ _)]
        rfl
      · by_cases hnil : words = []
        · rw [hnil, Text.join_singleton, Text.join_singleton]
        · rw [Text.join_cons _ _ hnil, Text.join_cons _ _ hnil]
          rfl

-----------------------------------------------------------------------------------------
-- Hyphens
-----------------------------------------------------------------------------------------

theorem exists_hyphenAfterSmall_cons (c : Char) (s : Text)
    : ∃ rest, hyphenAfterSmall (c :: s) = c :: rest := by
  change ∃ rest, hyphenAfterSmall.step c (hyphenAfterSmall s) = c :: rest
  unfold hyphenAfterSmall.step
  split
  · split <;> exact ⟨_, rfl⟩
  · exact ⟨_, rfl⟩

theorem exists_hyphenBeforeWord_cons (c : Char) (s : Text)
    : ∃ rest, hyphenBeforeWord (c :: s) = c :: rest := by
  change ∃ rest, hyphenBeforeWord.step c (hyphenBeforeWord s) = c :: rest
  unfold hyphenBeforeWord.step
  split
  · split <;> exact ⟨_, rfl⟩
  · exact ⟨_, rfl⟩

theorem hyphenAfterSmall_cons (c : Char) (s : Text)
    : hyphenAfterSmall (c :: s)
      = if (c.isLower || c.isDigit) && beginsCapital s then c :: '-' :: hyphenAfterSmall s
        else c :: hyphenAfterSmall s := by
  change hyphenAfterSmall.step c (hyphenAfterSmall s) = _
  cases s with
  | nil => simp [beginsCapital, hyphenAfterSmall, hyphenAfterSmall.step]
  | cons d s =>
      obtain ⟨rest, hrest⟩ := exists_hyphenAfterSmall_cons d s
      rw [hrest]
      rfl

theorem isUpper_eq_false_of_small {c : Char} (h : c.isLower || c.isDigit) : c.isUpper = false := by
  have hall : ∀ n < 128, ((Char.ofNat n).isLower || (Char.ofNat n).isDigit)
      → (Char.ofNat n).isUpper = false := by
    decide
  have hascii : c.isAlphanum := by
    rcases Bool.or_eq_true_iff.mp h with h | h
    · exact isAlphanum_of_isAlpha (Bool.or_eq_true_iff.mpr (.inr h))
    · exact Text.isAlphanum_of_isDigit h
  exact Text.forall_ascii (P := fun c => (c.isLower || c.isDigit) → c.isUpper = false) hall
    (Text.lt_of_isAlphanum hascii) h

theorem beginsWord_of_not_isUpper {c : Char} (hc : c.isUpper = false) (s : Text)
    : beginsWord (c :: s) = false := by
  cases s with
  | nil => rfl
  | cons d s => simp [beginsWord, hc]

/-- A hyphen behind a small letter parts no capital from what follows it. -/
theorem beginsWord_hyphenAfterSmall (s : Text)
    : beginsWord (hyphenAfterSmall s) = beginsWord s := by
  cases s with
  | nil => rfl
  | cons c s =>
      rw [hyphenAfterSmall_cons]
      split
      · next hsmall =>
          have hc := isUpper_eq_false_of_small (Bool.and_eq_true_iff.mp hsmall).1
          rw [beginsWord_of_not_isUpper hc, beginsWord_of_not_isUpper hc]
      · cases s with
        | nil => rfl
        | cons d s =>
            obtain ⟨rest, hrest⟩ := exists_hyphenAfterSmall_cons d s
            rw [hrest]
            rfl

theorem hyphenBeforeWord_step (c : Char) (s : Text)
    : hyphenBeforeWord.step c s
      = if c.isUpper && beginsWord s then c :: '-' :: s else c :: s := by
  match s with
  | [] => simp [hyphenBeforeWord.step, beginsWord]
  | [d] => simp [hyphenBeforeWord.step, beginsWord]
  | d :: e :: s => simp [hyphenBeforeWord.step, beginsWord, Bool.and_assoc]

/-- A hyphen behind a capital goes in front of another one, not of a small letter. -/
theorem beginsWord_hyphenBeforeWord (s : Text)
    : beginsWord (hyphenBeforeWord s) = beginsWord s := by
  match s with
  | [] => rfl
  | [c] => rfl
  | c :: d :: s =>
      obtain ⟨rest, hrest⟩ := exists_hyphenBeforeWord_cons d s
      change beginsWord (hyphenBeforeWord.step c (hyphenBeforeWord (d :: s))) = _
      rw [hrest, hyphenBeforeWord_step]
      split
      · next hword =>
          have hd : d.isUpper := by
            by_contra hd
            rw [beginsWord_of_not_isUpper (Bool.eq_false_iff.mpr hd), Bool.and_false] at hword
            cases hword
          have hsmall := Bool.eq_false_iff.mpr (Char.not_isLower_of_isUpper hd)
          simp [beginsWord, hsmall]
      · rfl

theorem hyphenBeforeWord_cons (c : Char) (s : Text)
    : hyphenBeforeWord (c :: s)
      = if c.isUpper && beginsWord s then c :: '-' :: hyphenBeforeWord s
        else c :: hyphenBeforeWord s := by
  rw [← beginsWord_hyphenBeforeWord]
  exact hyphenBeforeWord_step c (hyphenBeforeWord s)

/-- The two passes put their hyphens where words end. -/
theorem hyphenBeforeWord_hyphenAfterSmall (name : Text)
    : hyphenBeforeWord (hyphenAfterSmall name) = Text.join ['-'] (nameWords name) := by
  induction name with
  | nil => rfl
  | cons c s ih =>
      rw [hyphenAfterSmall_cons, join_nameWords_cons, endsWord, ← ih]
      cases hsmall : (c.isLower || c.isDigit) && beginsCapital s with
      | true =>
          have hc := isUpper_eq_false_of_small (Bool.and_eq_true_iff.mp hsmall).1
          have hhyphen : '-'.isUpper = false := by decide
          rw [if_pos rfl, hyphenBeforeWord_cons, hc, hyphenBeforeWord_cons, hhyphen]
          rfl
      | false =>
          rw [if_neg Bool.false_ne_true, hyphenBeforeWord_cons, beginsWord_hyphenAfterSmall,
            Bool.false_or]

/-- The form of an ASCII name with hyphens is its words in small letters, joined. -/
theorem kebabCase_eq {name : Text} (hname : ∀ c ∈ name, c.val < 128)
    : kebabCase name = Text.join ['-'] (lowerWords name) := by
  have hascii : ∀ c ∈ Text.join ['-'] (nameWords name), c.val < 128 := by
    intro c hc
    rcases Text.mem_join hc with hc | ⟨word, hword, hc⟩
    · rw [List.mem_singleton.mp hc]
      decide
    · exact hname c (mem_of_mem_nameWords hword hc)
  have hhyphen : ['-'.toLower] = ['-'] := by decide
  have hjoin := Text.flatMap_join (f := fun c => [c.toLower]) hhyphen (nameWords name)
  simp only [← List.map_eq_flatMap] at hjoin
  rw [kebabCase, hyphenBeforeWord_hyphenAfterSmall, Text.lower_eq_map hascii, hjoin]
  rfl

example : kebabCase "SVGIcon3dBoxX" = "svg-icon3d-box-x" := by
  decide +kernel

-----------------------------------------------------------------------------------------
-- Names that are given
-----------------------------------------------------------------------------------------

/-- A letter or an underscore, and letters, digits and underscores behind it. -/
def IsIdentifier : Text → Prop
  | [] => False
  | c :: s => (c.isAlpha ∨ c = '_') ∧ ∀ x ∈ s, isIdentifierChar x

theorem exists_of_seq {α β : Type} {f : Validation (α → β)} {x : Validation α} {b : β}
    (h : f <*> x = .valid b)
    : ∃ g a, f = .valid g ∧ x = .valid a ∧ g a = b := by
  cases f with
  | valid g =>
      cases x with
      | valid a =>
          cases h
          exact ⟨g, a, rfl, rfl, rfl⟩
      | faulty faults => cases h
  | faulty faults =>
      cases x with
      | valid a => cases h
      | faulty more => cases h

/-- The component name of valid options has been read from their member. -/
theorem valid_of_ofJson {value : Json} {options : Options}
    (hoptions : Options.ofJson value = .valid options)
    : value.withDefault "component_name" none (Json.readOptional readName)
      = .valid options.name := by
  obtain ⟨_, _, hheight, -, rfl⟩ := exists_of_seq hoptions
  obtain ⟨_, _, hwidth, -, rfl⟩ := exists_of_seq hheight
  obtain ⟨_, _, hexport, -, rfl⟩ := exists_of_seq hwidth
  obtain ⟨_, _, hprops, -, rfl⟩ := exists_of_seq hexport
  obtain ⟨_, _, hmemoize, -, rfl⟩ := exists_of_seq hprops
  obtain ⟨_, _, htypescript, -, rfl⟩ := exists_of_seq hmemoize
  obtain ⟨_, name, hmk, hname, rfl⟩ :=
    exists_of_seq (f := .valid Options.mk) htypescript
  cases hmk
  exact hname

/-- A member that has been read is not a default. -/
theorem exists_of_withDefault {α : Type} {key : Text} {read : Json → Validation (Option α)}
    {value : Json} {a : α} (h : value.withDefault key none read = .valid (some a))
    : ∃ member, value.member? key = some member ∧ read member = .valid (some a) := by
  rw [Json.withDefault] at h
  cases hmember : value.member? key with
  | none =>
      rw [hmember] at h
      cases h
  | some member =>
      rw [hmember] at h
      dsimp only at h
      cases hread : read member with
      | valid result =>
          rw [hread] at h
          cases h
          exact ⟨member, rfl, hread⟩
      | faulty faults =>
          rw [hread] at h
          cases h

theorem valid_of_readOptional {α : Type} {read : Json → Validation α} {value : Json} {a : α}
    (h : Json.readOptional read value = .valid (some a))
    : read value = .valid a := by
  have hmap {value : Json} (h : (read value).map some = .valid (some a))
      : read value = .valid a := by
    cases hread : read value with
    | valid result =>
        rw [hread] at h
        cases h
        rfl
    | faulty faults =>
        rw [hread] at h
        cases h
  cases value with
  | null => cases h
  | _ => exact hmap h

theorem isComponentName_of_readName {value : Json} {name : Text}
    (h : readName value = .valid name)
    : isComponentName name := by
  rw [readName] at h
  split at h
  · next read hread =>
      split at h
      · next hvalid =>
          cases h
          exact hvalid
      · cases h
  · cases h

/-- The rule for component names is that of identifiers, some words apart. -/
theorem isComponentName_iff {name : Text}
    : isComponentName name ↔ IsIdentifier name ∧ name ∉ reservedWords := by
  cases name <;> simp [isComponentName, IsIdentifier]

theorem IsPascalName.isIdentifier {name : Text} (h : IsPascalName name) : IsIdentifier name := by
  cases name with
  | nil => cases h
  | cons c s =>
      obtain ⟨hc, hs⟩ := h
      exact ⟨.inl (isAlpha_of_isUpper hc), fun x hx => by simp [isIdentifierChar, hs x hx]⟩

/-- Whatever name a component has is an identifier. -/
theorem IsGivenName.isIdentifier {name : Text} (h : IsGivenName name) : IsIdentifier name := by
  cases h with
  | option hoptions hname =>
      have hmember := valid_of_ofJson hoptions
      rw [hname] at hmember
      obtain ⟨member, -, hread⟩ := exists_of_withDefault hmember
      have hvalid := isComponentName_of_readName (valid_of_readOptional hread)
      exact (isComponentName_iff.mp hvalid).1
  | file path => exact (isPascalName_nameOfFile path).isIdentifier

-----------------------------------------------------------------------------------------
-- Names of elements
-----------------------------------------------------------------------------------------

/-- A small letter, a digit, an underscore or a hyphen. -/
def isElementChar (c : Char) : Bool := c.isLower || c.isDigit || c == '_' || c == '-'

theorem isUpper_eq_false_of_isElementChar {c : Char} (h : isElementChar c)
    : c.isUpper = false := by
  simp only [isElementChar, Bool.or_eq_true, beq_iff_eq] at h
  rcases h with (h | rfl) | rfl
  · exact isUpper_eq_false_of_small (by simpa using h)
  · rfl
  · rfl

theorem lt_of_isIdentifierChar {c : Char} (h : isIdentifierChar c) : c.val < 128 := by
  rw [isIdentifierChar, Bool.or_eq_true, beq_iff_eq] at h
  rcases h with h | rfl
  · exact Text.lt_of_isAlphanum h
  · decide

theorem isElementChar_toLower {c : Char} (h : isIdentifierChar c)
    : isElementChar c.toLower ∧ c.toLower ≠ '-' := by
  have hall : ∀ n < 128, isIdentifierChar (Char.ofNat n)
      → isElementChar (Char.ofNat n).toLower ∧ (Char.ofNat n).toLower ≠ '-' := by
    decide
  exact Text.forall_ascii
    (P := fun c => isIdentifierChar c → isElementChar c.toLower ∧ c.toLower ≠ '-') hall
    (lt_of_isIdentifierChar h) h

theorem IsIdentifier.isIdentifierChar {name : Text} (h : IsIdentifier name)
    : ∀ c ∈ name, isIdentifierChar c := by
  cases name with
  | nil => cases h
  | cons c s =>
      obtain ⟨hc, hs⟩ := h
      refine List.forall_mem_cons.mpr ⟨?_, hs⟩
      rcases hc with hc | rfl
      · simp [Component.isIdentifierChar, isAlphanum_of_isAlpha hc]
      · rfl

section Element

variable {name : Text} (hname : ∀ c ∈ name, isIdentifierChar c)
include hname

theorem isElementChar_of_mem_lowerWords {word : Text} (hword : word ∈ lowerWords name)
    : ∀ c ∈ word, isElementChar c ∧ c ≠ '-' := by
  obtain ⟨whole, hwhole, rfl⟩ := List.mem_map.mp hword
  intro c hc
  obtain ⟨d, hd, rfl⟩ := List.mem_map.mp hc
  exact isElementChar_toLower (hname d (mem_of_mem_nameWords hwhole hd))

/-- The words are joined to a reserved name exactly if they are the parts of one. -/
theorem join_mem_reservedNames_iff (hne : lowerWords name ≠ [])
    : Text.join ['-'] (lowerWords name) ∈ reservedNames
      ↔ lowerWords name ∈ reservedNames.map (Text.splitOnChar (· == '-')) := by
  have hsplit : Text.splitOnChar (· == '-') (Text.join ['-'] (lowerWords name)) = lowerWords name :=
    Text.splitOnChar_join hne
      (fun word hword c hc => by
        simpa using (isElementChar_of_mem_lowerWords hname hword c hc).2) rfl
  constructor
  · intro h
    exact List.mem_map.mpr ⟨_, h, hsplit⟩
  · intro h
    obtain ⟨reserved, hreserved, heq⟩ := List.mem_map.mp h
    rwa [← heq, Text.join_splitOnChar]

/-- A single word stands behind `svg`. -/
theorem elementName_of_singleton {word : Text} (hword : lowerWords name = [word])
    : elementName name = "svg-" ++ word := by
  have hhyphen : '-' ∉ word := fun hc =>
    (isElementChar_of_mem_lowerWords hname (hword ▸ List.mem_singleton_self word) _ hc).2 rfl
  have hkebab := kebabCase_eq fun c hc => lt_of_isIdentifierChar (hname c hc)
  rw [hword, Text.join_singleton] at hkebab
  rw [elementName, hkebab]
  exact if_neg (by simpa using hhyphen)

/-- Several words are joined. -/
theorem elementName_of_cons {word : Text} {words : List Text} (hne : words ≠ [])
    (hwords : lowerWords name = word :: words)
    : elementName name = Text.join ['-'] (lowerWords name) := by
  have hhyphen : '-' ∈ Text.join ['-'] (lowerWords name) := by
    rw [hwords, Text.join_cons _ _ hne]
    simp
  rw [elementName, kebabCase_eq fun c hc => lt_of_isIdentifierChar (hname c hc)]
  exact if_pos (by simpa using hhyphen)

/-- Words are joined without capitals. -/
theorem isElementChar_of_mem_join
    : ∀ c ∈ Text.join ['-'] (lowerWords name), isElementChar c := by
  intro c hc
  rcases Text.mem_join hc with hc | ⟨word, hword, hc⟩
  · rw [List.mem_singleton.mp hc]
    rfl
  · exact (isElementChar_of_mem_lowerWords hname hword c hc).1

/-- The name of an element of a single word is free: no reserved name begins with `svg`, and each
has a hyphen.
-/
theorem isElementName_of_singleton {word : Text} (hword : lowerWords name = [word])
    : IsElementName (elementName name) ∧ (∀ c ∈ elementName name, isElementChar c)
      ∧ lowerWords name ∉ reservedNames.map (Text.splitOnChar (· == '-')) := by
  have hreserved : reservedNames.all fun r => r.head? != some 's' && r.contains '-' := by
    decide +kernel
  have hchars := isElementChar_of_mem_lowerWords hname (hword ▸ List.mem_singleton_self word)
  have hsvg : ("svg-" : Text) = ['s', 'v', 'g', '-'] := by simp [Text.ofString]
  have hfree (r : Text) (hr : r ∈ reservedNames) : r.head? ≠ some 's' ∧ '-' ∈ r := by
    simpa using List.all_eq_true.mp hreserved r hr
  have hall : ∀ c ∈ elementName name, isElementChar c := by
    rw [elementName_of_singleton hname hword, hsvg]
    simp only [List.cons_append, List.nil_append, List.forall_mem_cons]
    exact ⟨rfl, rfl, rfl, rfl, fun c hc => (hchars c hc).1⟩
  refine ⟨⟨?_, ?_, fun c hc => isUpper_eq_false_of_isElementChar (hall c hc), ?_⟩, hall, ?_⟩
  · rw [elementName_of_singleton hname hword, hsvg]
    exact ⟨'s', rfl, rfl⟩
  · rw [elementName_of_singleton hname hword, hsvg]
    simp
  · intro hmem
    refine (hfree _ hmem).1 ?_
    rw [elementName_of_singleton hname hword, hsvg]
    rfl
  · rw [← join_mem_reservedNames_iff hname (by simp [hword]), hword, Text.join_singleton]
    intro hmem
    exact (hchars _ (hfree _ hmem).2).2 rfl

end Element

theorem length_lowerWords (name : Text) : (lowerWords name).length = (nameWords name).length :=
  List.length_map _

theorem exists_lowerWords_cons (c : Char) (s : Text)
    : ∃ word words, lowerWords (c :: s) = (c.toLower :: word) :: words := by
  obtain ⟨word, words, h⟩ := exists_nameWords_cons c s
  exact ⟨word.map Char.toLower, words.map fun word => word.map Char.toLower, by
    rw [lowerWords, h]
    rfl⟩

/-- The name of an element of several words is made up of them, with hyphens between them. It may
begin with an underscore, and it may be reserved.
-/
theorem isElementName_iff_of_cons {c : Char} {s word : Text} {words : List Text}
    (hidentifier : IsIdentifier (c :: s)) (hne : words ≠ [])
    (hwords : lowerWords (c :: s) = (c.toLower :: word) :: words)
    : (∀ d ∈ elementName (c :: s), isElementChar d) ∧ '-' ∈ elementName (c :: s)
      ∧ (IsElementName (elementName (c :: s))
        ↔ c ≠ '_'
          ∧ lowerWords (c :: s) ∉ reservedNames.map (Text.splitOnChar (· == '-'))) := by
  have hname := hidentifier.isIdentifierChar
  have helement : elementName (c :: s)
      = c.toLower :: (word ++ '-' :: Text.join ['-'] words) := by
    rw [elementName_of_cons hname hne hwords, hwords, Text.join_cons _ _ hne]
    rfl
  have hall : ∀ d ∈ elementName (c :: s), isElementChar d := by
    rw [elementName_of_cons hname hne hwords]
    exact isElementChar_of_mem_join hname
  have hhyphen : '-' ∈ elementName (c :: s) := by
    rw [helement]
    simp
  have hreserved := join_mem_reservedNames_iff hname (by simp [hwords])
  rw [← elementName_of_cons hname hne hwords] at hreserved
  have hbegins : c.toLower.isLower ↔ c ≠ '_' := by
    rw [Char.isLower_toLower_eq_isAlpha]
    refine ⟨?_, hidentifier.1.resolve_right⟩
    rintro hletter rfl
    cases hletter
  refine ⟨hall, hhyphen, ?_, ?_⟩
  · rintro ⟨⟨d, hd, hsmall⟩, -, -, hfree⟩
    rw [helement] at hd
    cases hd
    exact ⟨hbegins.mp hsmall, fun hmem => hfree (hreserved.mpr hmem)⟩
  · rintro ⟨hfirst, hfree⟩
    exact {
      begins := ⟨c.toLower, by rw [helement]; rfl, hbegins.mpr hfirst⟩
      hyphen := hhyphen
      small := fun d hd => isUpper_eq_false_of_isElementChar (hall d hd)
      free := fun hmem => hfree (hreserved.mp hmem)
    }

/-- The name of an element always has a hyphen, and small letters, digits, underscores and hyphens
only. It is one that a custom element may have if and only if the name of the component does not
begin with an underscore or is a single word, and its words are not those of a reserved name.
-/
theorem isElementName_elementName_iff {name : Text} (h : IsGivenName name)
    : (∀ c ∈ elementName name, isElementChar c) ∧ '-' ∈ elementName name
      ∧ (IsElementName (elementName name)
        ↔ (name.head? = some '_' → (nameWords name).length = 1)
          ∧ lowerWords name ∉ reservedNames.map (Text.splitOnChar (· == '-'))) := by
  have hidentifier := h.isIdentifier
  cases name with
  | nil => cases hidentifier
  | cons c s =>
      obtain ⟨word, words, hwords⟩ := exists_lowerWords_cons c s
      have hlength : (nameWords (c :: s)).length = 1 ↔ words = [] := by
        rw [← length_lowerWords, hwords]
        simp
      rw [hlength]
      by_cases hnil : words = []
      · rw [hnil] at hwords
        obtain ⟨hvalid, hall, hfree⟩ :=
          isElementName_of_singleton hidentifier.isIdentifierChar hwords
        exact ⟨hall, hvalid.hyphen, iff_of_true hvalid ⟨fun _ => hnil, hfree⟩⟩
      · obtain ⟨hall, hhyphen, hiff⟩ := isElementName_iff_of_cons hidentifier hnil hwords
        refine ⟨hall, hhyphen, hiff.trans (and_congr_left' ?_)⟩
        simp [hnil]

theorem isElementName_elementName_iff_arrowRight
    : IsGivenName "ArrowRight" ∧ IsElementName (elementName "ArrowRight") := by
  have hfile : nameOfFile "icons/arrow_right.svg" = "ArrowRight" := by decide +kernel
  have hgiven : IsGivenName "ArrowRight" := hfile ▸ .file _
  have hwords : ("ArrowRight" : Text).head? ≠ some '_'
      ∧ lowerWords "ArrowRight" ∉ reservedNames.map (Text.splitOnChar (· == '-')) := by
    decide +kernel
  obtain ⟨-, -, hiff⟩ := isElementName_elementName_iff hgiven
  exact ⟨hgiven, hiff.mpr ⟨fun hhead => absurd hhead hwords.1, hwords.2⟩⟩

/-- A reserved name, and one that begins with an underscore. -/
theorem not_isElementName_fontFace
    : (IsGivenName "FontFace" ∧ elementName "FontFace" = "font-face"
        ∧ ¬ IsElementName (elementName "FontFace"))
      ∧ IsGivenName "_FooBar" ∧ elementName "_FooBar" = "_foo-bar"
      ∧ ¬ IsElementName (elementName "_FooBar") := by
  have hfile : nameOfFile "font-face.svg" = "FontFace" := by decide +kernel
  have hoptions : Options.ofJson (.object [("component_name", .string "_FooBar")])
      = .valid { name := some "_FooBar" } := by
    with_unfolding_all rfl
  have hface : elementName "FontFace" = "font-face" := by decide +kernel
  have hbar : elementName "_FooBar" = "_foo-bar" := by decide +kernel
  have hreserved : ("font-face" : Text) ∈ reservedNames := by decide +kernel
  refine ⟨⟨hfile ▸ .file _, hface, fun h => h.free (hface ▸ hreserved)⟩,
    .option hoptions rfl, hbar, fun h => ?_⟩
  obtain ⟨c, hc, hsmall⟩ := hbar ▸ h.begins
  have hhead : ("_foo-bar" : Text).head? = some '_' := by decide +kernel
  rw [hhead] at hc
  cases hc
  cases hsmall

end SvgKit.Component

import SvgKit.Minify.Style
import SvgKit.Proofs.Component.StyleKey
import SvgKit.Proofs.Markup.Written
import Mathlib.Data.Bool.AllAny

/-! Style objects. The object of a style is made from the style with its escapes, which is cut at
every semicolon, those of the escapes included. So the object has the entries that were declared
exactly if every value survives the cut at the first semicolon of its escaped form, as values that
need no escapes do.
-/

namespace SvgKit.Component

open Minify (Declaration)
open Text (trim)

-----------------------------------------------------------------------------------------
-- Reading
-----------------------------------------------------------------------------------------

/-- The text behind the spaces at its head. -/
def dropSpaces (s : Text) : Text := s.dropWhile (· == ' ')

/-- The units of key and value of the entry at the head of a text, and what follows it. -/
def readEntry? (wide : WideClass) (s : Text) : Option ((List Nat × List Nat) × Text) :=
  (readKey? wide s).bind fun (key, rest) =>
    match dropSpaces rest with
    | ':' :: rest =>
      (Json.readString? (dropSpaces rest)).map fun (value, rest) => ((key, value), rest)
    | _ => none

/-- The entries up to the closing brace of an object, a limited number of them, and what follows
the brace.
-/
def readEntries? (wide : WideClass) : Nat → Text → Option (List (List Nat × List Nat) × Text)
  | 0, _ => none
  | limit + 1, s =>
    match readEntry? wide (dropSpaces s) with
    | some (entry, rest) =>
      match dropSpaces rest with
      | ',' :: rest => (readEntries? wide limit rest).map fun (entries, rest) =>
          (entry :: entries, rest)
      | '}' :: rest => some ([entry], rest)
      | _ => none
    | none =>
      match dropSpaces s with
      | '}' :: rest => some ([], rest)
      | _ => none

/-- The entries of a text that is an object in braces. -/
def readObject? (wide : WideClass) : Text → Option (List (List Nat × List Nat))
  | '{' :: '{' :: s =>
    match readEntries? wide s.length s with
    | some (entries, ['}']) => some entries
    | _ => none
  | _ => none

-----------------------------------------------------------------------------------------
-- Entries
-----------------------------------------------------------------------------------------

variable {wide : WideClass} {property : Text}

/-- The text of an entry. -/
def entryText (property value : Text) : Text :=
  styleKey property ++ ": " ++ Json.asciiString value

/-- A written entry is read as the units of its key and of its value. -/
theorem readEntry?_entryText (hproperty : IsProperty wide property) (value rest : Text)
    : readEntry? wide (dropSpaces (' ' :: (entryText property value ++ rest)))
      = some (((propertyKey property).units, value.units), rest) := by
  have hcolon : Text.ofString ": " = [':', ' '] := by
    rw [Text.ofString]
    rfl
  have htext : entryText property value ++ rest
      = styleKey property ++ ':' :: ' ' :: (Json.asciiString value ++ rest) := by
    simp [entryText, hcolon]
  have hspaces : dropSpaces (' ' :: (entryText property value ++ rest))
      = styleKey property ++ ':' :: ' ' :: (Json.asciiString value ++ rest) := by
    rw [htext]
    exact (stops_styleKey hproperty _).dropWhile
  have hvalue : dropSpaces (' ' :: (Json.asciiString value ++ rest))
      = Json.asciiString value ++ rest := by
    rw [Json.asciiString]
    rfl
  rw [hspaces, readEntry?, readKey?_styleKey hproperty]
  show (Json.readString? (dropSpaces (' ' :: (Json.asciiString value ++ rest)))).map _ = _
  rw [hvalue, Json.readString?_asciiString]
  rfl

-----------------------------------------------------------------------------------------
-- Values with escapes
-----------------------------------------------------------------------------------------

/-- The value with escapes, as far as its first semicolon. -/
def cutValue (value : Text) : Text := (value.flatMap Xml.escapeValue).takeWhile (· != ';')

/-- The value is what stands in front of the first semicolon, blanks around it apart. -/
def Survives (value : Text) : Prop := trim (cutValue value) = trim value

instance : DecidablePred Survives := fun _ => inferInstanceAs (Decidable (_ = _))

/-- An escape ends in its only semicolon. -/
theorem escapeValue_eq_or_semicolon (c : Char)
    : Xml.escapeValue c = [c]
      ∨ ∃ name, Xml.escapeValue c = '&' :: (name ++ [';'])
        ∧ ';' ∉ name ∧ ':' ∉ name := by
  unfold Xml.escapeValue Xml.escapeText
  repeat' split
  · exact .inr ⟨"quot".toList, by rw [Text.ofString]; rfl, by decide, by decide⟩
  · exact .inr ⟨"#9".toList, by rw [Text.ofString]; rfl, by decide, by decide⟩
  · exact .inr ⟨"#10".toList, by rw [Text.ofString]; rfl, by decide, by decide⟩
  · exact .inr ⟨"lt".toList, by rw [Text.ofString]; rfl, by decide, by decide⟩
  · exact .inr ⟨"gt".toList, by rw [Text.ofString]; rfl, by decide, by decide⟩
  · exact .inr ⟨"amp".toList, by rw [Text.ofString]; rfl, by decide, by decide⟩
  · exact .inr ⟨"#13".toList, by rw [Text.ofString]; rfl, by decide, by decide⟩
  · exact .inl rfl

theorem flatMap_escapeValue_of_plain {s : Text} (hs : ∀ c ∈ s, Xml.escapeValue c = [c])
    : s.flatMap Xml.escapeValue = s := by
  induction s with
  | nil => rfl
  | cons c s ih =>
      rw [List.forall_mem_cons] at hs
      rw [List.flatMap_cons, hs.1, ih hs.2, List.singleton_append]

/-- Escapes bring no colon into a text. -/
theorem colon_not_mem_flatMap_escapeValue {s : Text} (hs : ':' ∉ s)
    : ':' ∉ s.flatMap Xml.escapeValue := by
  intro hmem
  obtain ⟨c, hc, hcolon⟩ := List.mem_flatMap.mp hmem
  rcases escapeValue_eq_or_semicolon c with hplain | ⟨name, hname, -, hnone⟩
  · rw [hplain, List.mem_singleton] at hcolon
    exact hs (hcolon ▸ hc)
  · rw [hname] at hcolon
    exact hnone (by simpa using hcolon)

/-- A value that needs no escapes survives. -/
theorem survives_of_plain {value : Text} (hsemicolon : ';' ∉ value)
    (hplain : ∀ c ∈ value, Xml.escapeValue c = [c])
    : Survives value := by
  have hcut : cutValue value = value := by
    rw [cutValue, flatMap_escapeValue_of_plain hplain]
    exact List.takeWhile_eq_self_iff.mpr fun c hc => by
      rw [bne, Text.beq_eq_false_of_not_mem hsemicolon c hc]
      rfl
  rw [Survives, hcut]

/-- What the escapes of a value cut off behind its first semicolon. -/
def strayPieces (value : Text) : List Text :=
  (Text.splitOnChar (· == ';') (value.flatMap Xml.escapeValue)).tail

theorem styleEntry?_eq_none {s : Text} (hcolon : ':' ∉ s) : styleEntry? s = none := by
  unfold styleEntry?
  split
  · rfl
  · next before rest hsplit =>
      rw [Text.eq_of_splitAtLiteral? hsplit] at hcolon
      simp at hcolon

/-- A value that needs escapes is cut inside the first one. -/
theorem exists_first_escape {value : Text} (hsemicolon : ';' ∉ value)
    (h : ¬∀ c ∈ value, Xml.escapeValue c = [c])
    : ∃ front c back name, value = front ++ c :: back ∧ ':' ∉ name
      ∧ cutValue value = front ++ '&' :: name
      ∧ strayPieces value = Text.splitOnChar (· == ';') (back.flatMap Xml.escapeValue) := by
  have hfind : (value.find? fun c => decide (Xml.escapeValue c ≠ [c])).isSome := by simpa using h
  obtain ⟨c, hfind⟩ := Option.isSome_iff_exists.mp hfind
  obtain ⟨hc, front, back, rfl, hfront⟩ := List.find?_eq_some_iff_append.mp hfind
  obtain ⟨name, hname, hsemi, hcolon⟩ :=
    (escapeValue_eq_or_semicolon c).resolve_left (by simpa using hc)
  have hescaped : (front ++ c :: back).flatMap Xml.escapeValue
      = (front ++ '&' :: name) ++ ';' :: back.flatMap Xml.escapeValue := by
    rw [List.flatMap_append, flatMap_escapeValue_of_plain (by simpa using hfront),
      List.flatMap_cons, hname]
    simp
  have hother : ';' ∉ front ++ '&' :: name := by
    intro hx
    rcases List.mem_append.mp hx with hx | hx
    · exact hsemicolon (List.mem_append_left _ hx)
    · exact hsemi (by simpa using hx)
  have hsplit (rest : Text)
      : Text.splitOnChar (· == ';') ((front ++ '&' :: name) ++ ';' :: rest)
        = (front ++ '&' :: name) :: Text.splitOnChar (· == ';') rest :=
    Text.splitOnChar_append (Text.beq_eq_false_of_not_mem hother) rfl rest
  refine ⟨front, c, back, name, rfl, hcolon, ?_, ?_⟩
  · have hcut := Text.headD_splitOnChar (· == ';') ((front ++ c :: back).flatMap Xml.escapeValue)
    rw [hescaped, hsplit] at hcut
    rw [cutValue, hescaped]
    exact hcut.symm
  · rw [strayPieces, hescaped, hsplit]
    rfl

/-- Behind a value that survives no piece is a declaration: the value has as many colons as what is
in front of the cut, so there is none behind it.
-/
theorem filterMap_strayPieces {value : Text} (hsemicolon : ';' ∉ value) (h : Survives value)
    : (strayPieces value).filterMap styleEntry? = [] := by
  by_cases hplain : ∀ c ∈ value, Xml.escapeValue c = [c]
  · rw [strayPieces, flatMap_escapeValue_of_plain hplain,
      Text.splitOnChar_of_forall (Text.beq_eq_false_of_not_mem hsemicolon)]
    rfl
  · obtain ⟨front, c, back, name, rfl, hname, hcut, hstray⟩ :=
      exists_first_escape hsemicolon hplain
    have hback : ':' ∉ back := by
      have hcount := congrArg (List.count ':') h
      have hampersand : List.count ':' ('&' :: name) = 0 :=
        List.count_eq_zero.mpr (by simpa using hname)
      rw [Text.count_trim (by decide), Text.count_trim (by decide), hcut, List.count_append,
        List.count_append, hampersand, List.count_cons] at hcount
      exact List.count_eq_zero.mp (by omega)
    rw [hstray]
    exact List.filterMap_eq_nil_iff.mpr fun piece hpiece => styleEntry?_eq_none fun hcolon =>
      colon_not_mem_flatMap_escapeValue hback (Text.mem_of_mem_splitOnChar hpiece hcolon)

-----------------------------------------------------------------------------------------
-- Declarations
-----------------------------------------------------------------------------------------

/-- A property and a value that may stand in a style: the value has no semicolon, and only blanks
that need no escape stand around the property.
-/
structure IsWritten (wide : WideClass) (d : Declaration) : Prop where
  property : IsProperty wide (trim d.property)
  plain : ∀ c ∈ d.property, Xml.escapeValue c = [c]
  value : ';' ∉ d.value

/-- The entry that a declaration is to have: the units of its key and of its trimmed value. -/
def declaredEntry (d : Declaration) : List Nat × List Nat :=
  ((propertyKey (trim d.property)).units, (trim d.value).units)

/-- The style that declarations make up. -/
def styleText (ds : List Declaration) : Text := Text.join [';'] (ds.map Declaration.text)

/-- The entries that a declaration becomes. -/
def writtenEntries (d : Declaration) : List Text :=
  entryText (trim d.property) (trim (cutValue d.value))
    :: (strayPieces d.value).filterMap styleEntry?

variable {d : Declaration}

/-- What the pieces of a declaration become. -/
theorem filterMap_pieces (hd : IsWritten wide d)
    : (Text.splitOnChar (· == ';') (d.text.flatMap Xml.escapeValue)).filterMap styleEntry?
      = writtenEntries d := by
  obtain ⟨hne, hcolon, hsemicolon⟩ := separators_of_isProperty hd.property
  have hcolon := Text.not_mem_of_not_mem_trim (by decide) hcolon
  have hsemicolon := Text.not_mem_of_not_mem_trim (by decide) hsemicolon
  have hescaped : d.text.flatMap Xml.escapeValue
      = (d.property ++ [':']) ++ d.value.flatMap Xml.escapeValue := by
    rw [Declaration.text, List.flatMap_append, flatMap_escapeValue_of_plain hd.plain,
      List.flatMap_cons, List.append_assoc]
    rfl
  have hfront : ';' ∉ d.property ++ [':'] := by simp [hsemicolon]
  have hfirst : styleEntry? (d.property ++ [':'] ++ cutValue d.value)
      = some (entryText (trim d.property) (trim (cutValue d.value))) := by
    rw [List.append_assoc, List.singleton_append, styleEntry?, Text.splitAtLiteral?_cons hcolon]
    exact if_neg (by simpa using hne)
  have hcut : (Text.splitOnChar (· == ';') (d.value.flatMap Xml.escapeValue)).headD []
      = cutValue d.value :=
    Text.headD_splitOnChar _ _
  rw [hescaped, Text.splitOnChar_append_left (Text.beq_eq_false_of_not_mem hfront), hcut,
    List.filterMap_cons_some hfirst]
  rfl

theorem flatMap_writtenEntries_ne_nil {ds : List Declaration} (hne : ds ≠ [])
    : ds.flatMap writtenEntries ≠ [] := by
  obtain ⟨d, ds, rfl⟩ := List.exists_cons_of_ne_nil hne
  exact List.cons_ne_nil _ _

/-- The object of the declarations of a style. -/
theorem styleObject_styleText {ds : List Declaration} (hds : ∀ d ∈ ds, IsWritten wide d)
    (hne : ds ≠ [])
    : styleObject ((styleText ds).flatMap Xml.escapeValue)
      = '{' :: '{' :: ' ' :: (Text.join ", " (ds.flatMap writtenEntries)
        ++ ' ' :: '}' :: ['}']) := by
  have hentries : (Text.splitOnChar (· == ';') ((styleText ds).flatMap Xml.escapeValue)).filterMap
      styleEntry? = ds.flatMap writtenEntries := by
    rw [styleText, Text.flatMap_join rfl, Text.splitOnChar_join_eq_flatMap rfl (by simpa using hne),
      List.filterMap_flatMap, List.map_map, List.flatMap_map]
    exact List.flatMap_congr fun d hd => filterMap_pieces (hds d hd)
  have hopening : Text.ofString "\x7b\x7b " = ['{', '{', ' '] := by
    rw [Text.ofString]
    rfl
  have hclosing : Text.ofString " \x7d\x7d" = [' ', '}', '}'] := by
    rw [Text.ofString]
    rfl
  simp [styleObject, hentries, flatMap_writtenEntries_ne_nil hne, hopening, hclosing]

-----------------------------------------------------------------------------------------
-- Reading the object of a style
-----------------------------------------------------------------------------------------

/-- The object up to the brace of its own, behind the opening ones. -/
def objectRest (entries : List Text) (rest : Text) : Text :=
  ' ' :: (Text.join ", " entries ++ ' ' :: '}' :: rest)

theorem ofString_comma : Text.ofString ", " = [',', ' '] := by
  rw [Text.ofString]
  rfl

theorem readEntries?_cons (hproperty : IsProperty wide property) (limit : Nat) (value : Text)
    (entries : List Text) (rest : Text)
    : readEntries? wide (limit + 1) (objectRest (entryText property value :: entries) rest)
      = (if entries = [] then some ([], rest)
        else readEntries? wide limit (objectRest entries rest)).map fun (found, rest) =>
          (((propertyKey property).units, value.units) :: found, rest) := by
  split
  · next hnil =>
      rw [hnil, objectRest, Text.join_singleton, readEntries?, readEntry?_entryText hproperty]
      rfl
  · next hne =>
      have htext : objectRest (entryText property value :: entries) rest
          = ' ' :: (entryText property value ++ ',' :: objectRest entries rest) := by
        rw [objectRest, Text.join_cons _ _ hne, ofString_comma]
        simp [objectRest, ofString_comma]
      rw [htext, readEntries?, readEntry?_entryText hproperty]
      rfl

/-- The declarations are read exactly if their values survive, by induction over them. The first
entry shows whether the first value does; if so no piece of the value is between it and the next
declaration.
-/
theorem readEntries?_flatMap_iff {ds : List Declaration} (hds : ∀ d ∈ ds, IsWritten wide d)
    (hne : ds ≠ []) {limit : Nat} (hlimit : ds.length ≤ limit) (rest : Text)
    : readEntries? wide limit (objectRest (ds.flatMap writtenEntries) rest)
        = some (ds.map declaredEntry, rest)
      ↔ ∀ d ∈ ds, Survives d.value := by
  induction ds generalizing limit with
  | nil => exact absurd rfl hne
  | cons d ds ih =>
      rw [List.forall_mem_cons] at hds
      obtain ⟨hd, hds⟩ := hds
      obtain ⟨limit, rfl⟩ := Nat.exists_eq_succ_of_ne_zero (Nat.ne_zero_of_lt hlimit)
      rw [List.flatMap_cons, writtenEntries, List.cons_append, readEntries?_cons hd.property]
      by_cases hsurvives : Survives d.value
      · rw [filterMap_strayPieces hd.value hsurvives, List.nil_append,
          show trim (cutValue d.value) = trim d.value from hsurvives, List.map_cons,
          List.forall_mem_cons, and_iff_right hsurvives]
        by_cases hnil : ds = []
        · subst hnil
          simp [declaredEntry]
        · rw [if_neg (flatMap_writtenEntries_ne_nil hnil),
            ← ih hds hnil (Nat.le_of_succ_le_succ hlimit)]
          simp [Option.map_eq_some_iff, declaredEntry]
      · refine ⟨fun h => ?_, fun h => absurd (h d List.mem_cons_self) hsurvives⟩
        obtain ⟨⟨found, left⟩, -, heq⟩ := Option.map_eq_some_iff.mp h
        have hfirst := (List.cons.inj (congrArg Prod.fst heq)).1
        exact absurd (Text.units_injective (congrArg Prod.snd hfirst)) hsurvives

/-- An object has room for as many characters as declarations at least. -/
theorem length_le_length_objectRest (ds : List Declaration) (rest : Text)
    : ds.length ≤ (objectRest (ds.flatMap writtenEntries) rest).length := by
  have hjoin (entries : List Text) : entries.length ≤ (Text.join ", " entries).length + 1 := by
    rw [ofString_comma]
    induction entries with
    | nil => simp
    | cons entry entries ih =>
        by_cases hnil : entries = []
        · simp [hnil]
        · rw [Text.join_cons _ _ hnil]
          simp only [List.length_cons, List.length_append]
          omega
  have hentries : ds.length ≤ (ds.flatMap writtenEntries).length := by
    induction ds with
    | nil => simp
    | cons d ds ih =>
        rw [List.flatMap_cons, writtenEntries]
        simp only [List.length_cons, List.length_append]
        omega
  have := hjoin (ds.flatMap writtenEntries)
  simp only [objectRest, List.length_cons, List.length_append]
  omega

theorem jsxAttribute_style (tag v : Text)
    : jsxAttribute tag "style" (some (Markup.quoted v))
      = (("style" : Text), some (styleObject v)) := by
  have hclass : ("style" : Text) ≠ "class" := by with_unfolding_all decide
  have hlookup : jsxNames.lookup ("style" : Text) = none := by with_unfolding_all decide
  have hinner : inner (Markup.quoted v) = v := by simp [inner, Markup.quoted]
  have hquoted : Markup.isQuoted (Markup.quoted v) := rfl
  simp [jsxAttribute, hclass, hlookup, hinner, hquoted]

theorem readObject?_eq_some_iff {s : Text} {entries : List (List Nat × List Nat)}
    : readObject? wide ('{' :: '{' :: s) = some entries
      ↔ readEntries? wide s.length s = some (entries, ['}']) := by
  rw [readObject?]
  split
  · next found hread => simp [hread]
  · next hread =>
      refine ⟨fun h => (by cases h), fun h => ?_⟩
      exact absurd h (hread entries)

/-- The style object of declarations carries each of them, in their order, exactly if all values
survive the cut at the first semicolon of their escapes.
-/
theorem readObject?_jsxAttribute_iff {ds : List Declaration} (hds : ∀ d ∈ ds, IsWritten wide d)
    (tag : Text)
    : (∃ object : Text, jsxAttribute tag "style"
          (some (Markup.quoted ((styleText ds).flatMap Xml.escapeValue)))
            = (("style" : Text), some object)
        ∧ readObject? wide object = some (ds.map declaredEntry))
      ↔ ∀ d ∈ ds, Survives d.value := by
  have hobject (P : Text → Prop)
      : (∃ object : Text, jsxAttribute tag "style"
          (some (Markup.quoted ((styleText ds).flatMap Xml.escapeValue)))
            = (("style" : Text), some object) ∧ P object)
        ↔ P (styleObject ((styleText ds).flatMap Xml.escapeValue)) := by
    rw [jsxAttribute_style]
    simp
  rw [hobject]
  by_cases hnil : ds = []
  · subst hnil
    have hempty : readObject? wide (styleObject []) = some [] := by
      rw [styleObject, Text.ofString]
      rfl
    exact iff_of_true hempty (by simp)
  · rw [styleObject_styleText hds hnil, readObject?_eq_some_iff]
    exact readEntries?_flatMap_iff hds hnil (length_le_length_objectRest ds _) _

/-- No characters beyond ASCII in identifier names. -/
def asciiOnly : WideClass := ⟨fun _ => false, fun _ => false⟩

/-- A style with a custom property and with blanks. -/
def sampleStyle : List Declaration :=
  [⟨"fill".toList, "red".toList⟩, ⟨" stroke-width ".toList, " 2".toList⟩,
    ⟨"--Brand".toList, "url(#a)".toList⟩, ⟨"-webkit-mask".toList, "'A: B' é".toList⟩]

theorem isWritten_sampleStyle : ∀ d ∈ sampleStyle, IsWritten asciiOnly d := by
  have hascii {s : Text} (hs : s.all fun c => decide (c.val < 128)) : ∀ c ∈ s, c.val < 128 :=
    List.all_iff_forall_prop.mp hs
  have hchars {s : Text} (hs : s.all isCssChar) : ∀ c ∈ s, isCssChar c := List.all_eq_true.mp hs
  have hplain : ∀ d ∈ sampleStyle,
      (d.property.all fun c => decide (Xml.escapeValue c = [c])) ∧ ';' ∉ d.value := by
    simp only [sampleStyle, List.forall_mem_cons]
    with_unfolding_all decide
  have hproperty : ∀ d ∈ sampleStyle, IsProperty asciiOnly (trim d.property) := by
    simp only [sampleStyle, List.forall_mem_cons]
    refine ⟨?_, ?_, ?_, ?_, by simp⟩
    · exact .identifier (.plain (s := "ill".toList) (by decide) (hchars (by decide)))
        (.inl (hascii (by decide)))
    · exact .identifier (.plain (s := "troke-width".toList) (by decide) (hchars (by decide)))
        (.inl (hascii (by decide)))
    · exact .custom (s := "Brand".toList) (by decide) (by decide)
    · exact .identifier (.hyphen (s := "ebkit-mask".toList) (by decide) (hchars (by decide)))
        (.inl (hascii (by decide)))
  exact fun d hd =>
    ⟨hproperty d hd, List.all_iff_forall_prop.mp (hplain d hd).1, (hplain d hd).2⟩

theorem readObject?_jsxAttribute_sampleStyle
    : (∀ d ∈ sampleStyle, IsWritten asciiOnly d)
      ∧ ∃ object : Text, jsxAttribute "rect" "style"
          (some (Markup.quoted ((styleText sampleStyle).flatMap Xml.escapeValue)))
            = (("style" : Text), some object)
        ∧ readObject? asciiOnly object = some (sampleStyle.map declaredEntry) := by
  have hplain : ∀ d ∈ sampleStyle, d.value.all fun c => decide (Xml.escapeValue c = [c]) := by
    simp only [sampleStyle, List.forall_mem_cons]
    with_unfolding_all decide
  have hsurvives (d) (hd : d ∈ sampleStyle) : Survives d.value :=
    survives_of_plain (isWritten_sampleStyle d hd).value
      (List.all_iff_forall_prop.mp (hplain d hd))
  exact ⟨isWritten_sampleStyle,
    (readObject?_jsxAttribute_iff isWritten_sampleStyle "rect").mpr hsurvives⟩

/-- A value in quotes, which have escapes. -/
def sampleQuoted : Declaration := ⟨"font-family".toList, "\"A\"".toList⟩

/-- The object has the escape of the first quote for a value. -/
theorem readObject?_jsxAttribute_sampleQuoted
    : IsWritten asciiOnly sampleQuoted
      ∧ ∃ object : Text, jsxAttribute "rect" "style"
          (some (Markup.quoted ((styleText [sampleQuoted]).flatMap Xml.escapeValue)))
            = (("style" : Text), some object)
        ∧ readObject? asciiOnly object = some [(Text.units "fontFamily", Text.units "&quot")]
        ∧ readObject? asciiOnly object ≠ some [declaredEntry sampleQuoted] := by
  have hproperty : IsProperty asciiOnly (trim sampleQuoted.property) := by
    refine .identifier (.plain (s := "ont-family".toList) (by decide) ?_) (.inl ?_)
    · exact List.all_eq_true.mp (by decide)
    · exact List.all_iff_forall_prop.mp (by decide)
  have hplain : sampleQuoted.property.all fun c => decide (Xml.escapeValue c = [c]) := by
    with_unfolding_all decide
  refine ⟨⟨hproperty, List.all_iff_forall_prop.mp hplain, by decide⟩, _,
    jsxAttribute_style _ _, ?_, ?_⟩
  · with_unfolding_all decide
  · with_unfolding_all decide

end SvgKit.Component

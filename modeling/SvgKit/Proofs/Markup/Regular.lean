import SvgKit.Proofs.Markup.Stretches
import SvgKit.Proofs.Markup.StartTag
import SvgKit.Proofs.Text.Searching

/-! Items that are read back from their own text. What is needed of a start tag is that its names
and values end where what stands behind them begins; every tag that is read has this.
-/

namespace SvgKit.Markup

-----------------------------------------------------------------------------------------
-- Values
-----------------------------------------------------------------------------------------

/-- A value in quotes, or a value without quotes that ends in front of the text. -/
inductive IsValue (behind : Text) : Text → Prop where
  | quoted {quote : Char} {body : Text} (hquote : quote = '"' ∨ quote = '\'')
      (hbody : quote ∉ body) : IsValue behind (quote :: (body ++ [quote]))
  | bare {value : Text} (hne : value ≠ []) (hvalue : ∀ c ∈ value, isBareChar c)
      (hbehind : Stops isBareChar behind) : IsValue behind value

/-- A character with which a quoted value begins. -/
def isQuote (c : Char) : Bool := c == '"' || c == '\''

theorem isBareChar_of_isNameChar {c : Char} (h : isNameChar c) : isBareChar c := by
  simp only [isNameChar, isBareChar, Bool.and_eq_true] at h ⊢
  exact ⟨⟨⟨h.1.1.1.1.1, h.1.2⟩, h.2⟩, h.1.1.2⟩

theorem isBlank_of_isBareChar {c : Char} (h : isBareChar c) : Text.isBlank c = false := by
  simp only [isBareChar, Bool.and_eq_true, Bool.not_eq_true'] at h
  exact h.1.1.1

theorem isQuote_of_isBareChar {c : Char} (h : isBareChar c) : isQuote c = false := by
  simp only [isBareChar, Bool.and_eq_true, bne_iff_ne] at h
  simp [isQuote, h.1.1.2, h.1.2]

/-- In a tag a bare value goes on as long as its characters do, by induction over the text. -/
theorem spanAhead_bareInTag (s : Text)
    : Text.spanAhead bareInTag s = (s.takeWhile isBareChar, s.dropWhile isBareChar) := by
  suffices ∀ done, Text.spanAhead.go bareInTag done s
      = (done.reverse ++ s.takeWhile isBareChar, s.dropWhile isBareChar) from this []
  induction s with
  | nil => simp [Text.spanAhead.go]
  | cons c s ih =>
      intro done
      unfold Text.spanAhead.go
      rw [bareInTag]
      by_cases hc : isBareChar c
      · rw [if_pos hc, ih, List.takeWhile_cons_of_pos hc, List.dropWhile_cons_of_pos hc]
        simp
      · rw [if_neg hc, List.takeWhile_cons_of_neg hc, List.dropWhile_cons_of_neg hc,
          List.append_nil]

/-- A value without quotes takes what stands there up to a blank, a quote or a bracket. -/
theorem readValue?_of_stops {s : Text} (hs : Stops isQuote s)
    : readValue? bareInTag s
      = if s.takeWhile isBareChar = [] then none
        else some (s.takeWhile isBareChar, s.dropWhile isBareChar) := by
  cases s with
  | nil => rfl
  | cons c s =>
      rw [readValue?, if_neg (by simpa [isQuote] using hs c rfl)]
      simp only [spanAhead_bareInTag, List.isEmpty_iff]

theorem isValue_of_readValue? {s value rest : Text}
    (h : readValue? bareInTag s = some (value, rest))
    : IsValue rest value := by
  cases s with
  | nil => cases h
  | cons c s =>
      by_cases hc : isQuote c
      · have hquote : c = '"' ∨ c = '\'' := by simpa [isQuote] using hc
        rw [readValue?, if_pos (by simpa using hquote)] at h
        obtain ⟨⟨body, left⟩, hsplit, heq⟩ := Option.map_eq_some_iff.mp h
        cases heq
        exact .quoted hquote (Text.not_mem_of_splitAtLiteral? hsplit)
      · rw [readValue?_of_stops (by rintro _ ⟨⟩; simpa using hc)] at h
        split at h
        · cases h
        · next hne =>
            cases h
            exact .bare hne (fun _ hx => List.mem_takeWhile_imp hx) stops_dropWhile

theorem IsValue.readValue? {behind value : Text} (h : IsValue behind value)
    : readValue? bareInTag (value ++ behind) = some (value, behind) := by
  cases h with
  | @quoted quote body hquote hbody =>
      rw [List.cons_append, Markup.readValue?, if_pos (by simpa using hquote), List.append_assoc,
        List.singleton_append, Text.splitAtLiteral?_cons hbody]
      rfl
  | bare hne hvalue hbehind =>
      have hquote : Stops isQuote (value ++ behind) :=
        stops_of_forall (fun _ hc => isQuote_of_isBareChar hc) hne hvalue behind
      rw [readValue?_of_stops hquote, takeWhile_append_stops hvalue hbehind,
        dropWhile_append_stops hvalue hbehind, if_neg hne]

/-- A value begins with a quote or a character of a bare value, and with no blank. -/
theorem IsValue.stops {behind value : Text} (h : IsValue behind value)
    : Stops Text.isBlank (value ++ behind) := by
  cases h with
  | quoted hquote =>
      rintro _ ⟨⟩
      rcases hquote with rfl | rfl <;> decide
  | bare hne hvalue =>
      exact stops_of_forall (fun _ hc => isBlank_of_isBareChar hc) hne hvalue behind

/-- Only the first character of what stands behind matters to a value. -/
theorem IsValue.congr {behind behind' value : Text} (h : IsValue behind value)
    (hhead : behind.head? = behind'.head?)
    : IsValue behind' value := by
  cases h with
  | quoted hquote hbody => exact .quoted hquote hbody
  | bare hne hvalue hbehind => exact .bare hne hvalue (by rwa [Stops, ← hhead])

-----------------------------------------------------------------------------------------
-- Attributes
-----------------------------------------------------------------------------------------

/-- The attribute, with what is assigned to it, ends in front of the text. -/
structure Attribute.EndsBefore (a : Attribute) (behind : Text) : Prop where
  notEmpty : a.name ≠ []
  name : ∀ c ∈ a.name, isNameChar c
  alone : a.value = none → Stops isNameChar behind
  assigned : ∀ assigned ∈ a.value, IsEquals assigned.1 ∧ IsValue behind assigned.2

/-- No equals sign stands behind the blanks at the head of the text. -/
def AssignsNothing (s : Text) : Prop := Stops (· == '=') (s.dropWhile Text.isBlank)

theorem AssignsNothing.head? {s : Text} (h : AssignsNothing s)
    : (s.dropWhile Text.isBlank).head? ≠ some '=' := fun hhead => by simpa using h _ hhead

theorem ne_equals_of_isNameChar {c : Char} (h : isNameChar c) : (c == '=') = false := by
  simp only [isNameChar, Bool.and_eq_true, bne_iff_ne] at h
  simpa using h.1.1.1.1.2

/-- What is assigned stands behind the name, whatever the name is. -/
theorem Attribute.exists_text (a : Attribute)
    : ∃ assigned, ∀ name, Attribute.text ⟨name, a.value⟩ = name ++ assigned := by
  obtain ⟨name, value⟩ := a
  cases value with
  | none => exact ⟨[], fun name => (List.append_nil name).symm⟩
  | some assigned => exact ⟨assigned.1 ++ assigned.2, fun name => List.append_assoc ..⟩

/-- An attribute begins with its name. -/
theorem Attribute.EndsBefore.stops {a : Attribute} {behind : Text} (h : a.EndsBefore behind)
    {p : Char → Bool} (hp : ∀ c, isNameChar c → p c = false) (s : Text)
    : Stops p (a.text ++ s) := by
  obtain ⟨assigned, htext⟩ := a.exists_text
  rw [htext, List.append_assoc]
  exact stops_of_forall hp h.notEmpty h.name _

theorem endsBefore_of_readAttribute? {s rest : Text} {a : Attribute}
    (h : readAttribute? bareInTag s = some (a, rest))
    : a.EndsBefore rest := by
  have hne := name_ne_nil_of_readAttribute? h
  unfold readAttribute? at h
  dsimp only at h
  split at h
  · cases h
  · split at h
    · next assigned left hassigned =>
        cases h
        refine ⟨hne, fun _ hc => List.mem_takeWhile_imp hc, by simp, ?_⟩
        rintro _ ⟨⟩
        unfold readAssigned? at hassigned
        split at hassigned
        · cases hassigned
        · next hequals =>
            obtain ⟨⟨value, left⟩, hvalue, heq⟩ := Option.map_eq_some_iff.mp hassigned
            cases heq
            exact ⟨(isEquals_of_readEquals? hequals).1, isValue_of_readValue? hvalue⟩
    · cases h
      exact ⟨hne, fun _ hc => List.mem_takeWhile_imp hc, fun _ => stops_dropWhile, by simp⟩

theorem Attribute.EndsBefore.readAttribute? {a : Attribute} {behind : Text}
    (h : a.EndsBefore behind) (hbehind : AssignsNothing behind)
    : readAttribute? bareInTag (a.text ++ behind) = some (a, behind) := by
  obtain ⟨name, value⟩ := a
  cases value with
  | none =>
      rw [Attribute.text, readAttribute?_word h.notEmpty h.name (h.alone rfl),
        readAssigned?_eq_none hbehind.head?]
  | some assigned =>
      obtain ⟨equals, value⟩ := assigned
      obtain ⟨hequals, hvalue⟩ := h.assigned _ rfl
      have hassigned : readAssigned? bareInTag (equals ++ (value ++ behind))
          = some ((equals, value), behind) := by
        rw [readAssigned?, hequals.readEquals? hvalue.stops]
        dsimp only
        rw [hvalue.readValue?]
        rfl
      rw [Attribute.text, List.append_assoc, List.append_assoc,
        readAttribute?_word h.notEmpty h.name (hequals.stops_name _), hassigned]

/-- Only the first character of what stands behind matters to an attribute, and not its name. -/
theorem Attribute.EndsBefore.congr {a : Attribute} {behind behind' name : Text}
    (h : a.EndsBefore behind) (hhead : behind.head? = behind'.head?) (hne : name ≠ [])
    (hname : ∀ c ∈ name, isNameChar c)
    : Attribute.EndsBefore ⟨name, a.value⟩ behind' := by
  refine ⟨hne, hname, fun hvalue => ?_, fun assigned hvalue => ?_⟩
  · rw [Stops, ← hhead]
    exact h.alone hvalue
  · obtain ⟨hequals, hvalue⟩ := h.assigned assigned hvalue
    exact ⟨hequals, hvalue.congr hhead⟩

/-- Attributes with the blanks before them that stand in front of a text. -/
inductive AreRead (behind : Text) : List (Text × Attribute) → Prop where
  | nil : AreRead behind []
  | cons {blanks : Text} {a : Attribute} {attributes : List (Text × Attribute)}
      (hne : blanks ≠ []) (hblanks : ∀ c ∈ blanks, Text.isBlank c)
      (ha : a.EndsBefore (attributesText attributes ++ behind))
      (h : AreRead behind attributes)
    : AreRead behind ((blanks, a) :: attributes)

/-- What the attributes are read from is told apart by the attributes and what they leave. The
induction follows the reading.
-/
theorem exists_areRead (done : List (Text × Attribute)) (s : Text)
    : ∃ attributes, AreRead (readAttributesAfter bareInTag done s).2 attributes
      ∧ (readAttributesAfter bareInTag done s).1 = done.reverse ++ attributes
      ∧ s = attributesText attributes ++ (readAttributesAfter bareInTag done s).2 := by
  fun_induction readAttributesAfter bareInTag done s with
  | case1 => exact ⟨[], .nil, by simp, rfl⟩
  | case2 done s blanks hne a rest hread ih =>
      obtain ⟨attributes, hattributes, hdone, hrest⟩ := ih
      refine ⟨(blanks, a) :: attributes, .cons (by simpa using hne)
        (fun _ hc => List.mem_takeWhile_imp hc) ?_ hattributes, by simp [hdone], ?_⟩
      · rw [← hrest]
        exact endsBefore_of_readAttribute? hread
      · have hs := List.takeWhile_append_dropWhile (p := Text.isBlank) (l := s)
        rw [eq_of_readAttribute? hread] at hs
        conv_lhs => rw [← hs, hrest]
        simp [attributesText, blanks]
  | case3 => exact ⟨[], .nil, by simp, rfl⟩

section Attributes

variable {behind behind' : Text} {attributes : List (Text × Attribute)}

theorem attributesText_cons (blanks : Text) (a : Attribute) (attributes : List (Text × Attribute))
    : attributesText ((blanks, a) :: attributes)
      = blanks ++ (a.text ++ attributesText attributes) := by
  simp [attributesText]

/-- Where attributes begin with blanks, what begins them does not depend on what they are. -/
theorem head?_attributesText_map (h : AreRead behind attributes) (rename : Attribute → Attribute)
    (hhead : behind.head? = behind'.head?)
    : (attributesText attributes ++ behind).head?
      = (attributesText (attributes.map fun (blanks, a) => (blanks, rename a))
        ++ behind').head? := by
  cases h with
  | nil => exact hhead
  | @cons blanks a attributes hne =>
      obtain ⟨c, blanks, rfl⟩ := List.exists_cons_of_ne_nil hne
      rfl

/-- Attributes with other names are read as well, by induction over the attributes. -/
theorem AreRead.map (h : AreRead behind attributes) {rename : Attribute → Attribute}
    (hrename : ∀ a : Attribute, a.name ≠ [] → (∀ c ∈ a.name, isNameChar c) →
      (rename a).value = a.value ∧ (rename a).name ≠ [] ∧ ∀ c ∈ (rename a).name, isNameChar c)
    (hhead : behind.head? = behind'.head?)
    : AreRead behind' (attributes.map fun (blanks, a) => (blanks, rename a)) := by
  induction h with
  | nil => exact .nil
  | @cons blanks a attributes hne hblanks ha h ih =>
      obtain ⟨hvalue, hnotEmpty, hname⟩ := hrename a ha.notEmpty ha.name
      have ha' := ha.congr (head?_attributesText_map h rename hhead) hnotEmpty hname
      rw [← hvalue] at ha'
      exact .cons hne hblanks ha' ih

theorem AreRead.forall_name (h : AreRead behind attributes)
    : ∀ a ∈ attributes, ∀ c ∈ a.2.name, isNameChar c := by
  induction h with
  | nil => simp
  | cons _ _ ha _ ih => exact List.forall_mem_cons.mpr ⟨ha.name, ih⟩

theorem AreRead.congr (h : AreRead behind attributes) (hhead : behind.head? = behind'.head?)
    : AreRead behind' attributes := by
  have hmap := @AreRead.map _ _ _ h id (fun a hne hname => ⟨rfl, hne, hname⟩) hhead
  simpa using hmap

/-- Attributes are read back in front of the end of a tag, by induction over them. -/
theorem AreRead.readAttributesAfter {blanks close rest : Text}
    (h : AreRead (blanks ++ (close ++ rest)) attributes) (hblanks : ∀ c ∈ blanks, Text.isBlank c)
    (hclose : IsClose close) (done : List (Text × Attribute))
    : readAttributesAfter bareInTag done (attributesText attributes ++ (blanks ++ (close ++ rest)))
        = (done.reverse ++ attributes, blanks ++ (close ++ rest))
      ∧ AssignsNothing (attributesText attributes ++ (blanks ++ (close ++ rest))) := by
  have hends := hclose.endsStretch rest
  induction h generalizing done with
  | nil =>
      rw [attributesText, List.flatMap_nil, List.nil_append, List.append_nil]
      refine ⟨readAttributesAfter_left hblanks hends done, ?_⟩
      rw [AssignsNothing, dropWhile_append_stops hblanks hends.stops_blank]
      rcases hclose with rfl | rfl <;> simp [Stops]
  | @cons blanks' a attributes hne hblanks' ha h ih =>
      have hstops := ha.stops fun _ hc => isBlank_of_isNameChar hc
      rw [attributesText_cons, List.append_assoc, List.append_assoc]
      refine ⟨?_, ?_⟩
      · rw [readAttributesAfter_blanks hne hblanks' (hstops _), ha.readAttribute? (ih done).2]
        dsimp only
        rw [(ih _).1]
        simp
      · rw [AssignsNothing, dropWhile_append_stops hblanks' (hstops _)]
        exact ha.stops (fun _ hc => ne_equals_of_isNameChar hc) _

end Attributes

-----------------------------------------------------------------------------------------
-- Items
-----------------------------------------------------------------------------------------

/-- A start tag that is read as a whole from its own text. -/
structure StartTag.IsRegular (t : StartTag) : Prop extends t.IsRead where
  tagName : ∀ c ∈ t.name, isTagChar c
  attributes : AreRead t.close t.attributes

theorem isRegular_of_readItem? {s rest : Text} {t : StartTag}
    (h : readItem? s = some (.tag t, rest))
    : t.IsRegular := by
  obtain ⟨inner, -, hstart⟩ := exists_readStartTag? h
  obtain ⟨behind, hname, hattributes, hend⟩ := exists_of_readStartTag? hstart
  obtain ⟨attributes, hread, hdone, -⟩ := exists_areRead [] behind
  rw [List.reverse_nil, List.nil_append, ← readAttributes, ← hattributes] at hdone
  refine ⟨isRead_of_readItem? h, ?_, ?_⟩
  · obtain ⟨c, more, -, -, htag, -⟩ := exists_of_readTagName? hname
    rw [htag]
    exact fun _ hc => List.mem_takeWhile_imp hc
  · have hclose : t.close ≠ [] := by
      obtain ⟨blanks, -, hclose | hclose⟩ := exists_of_readTagEnd? hend <;> simp [hclose]
    rw [readAttributes] at hend
    rw [eq_of_readTagEnd? hend] at hread
    rw [hdone]
    exact hread.congr (List.head?_append_of_ne_nil _ hclose)

section Tags

variable {t : StartTag}

theorem StartTag.IsRead.exists_close (ht : t.IsRead)
    : ∃ blanks close, t.close = blanks ++ close ∧ (∀ c ∈ blanks, Text.isBlank c)
      ∧ IsClose close := by
  obtain ⟨blanks, hblanks, hclose | hclose⟩ := ht.close
  · exact ⟨blanks, _, hclose, hblanks, .inl rfl⟩
  · exact ⟨blanks, _, hclose, hblanks, .inr rfl⟩

variable (ht : t.IsRegular) (rest : Text)
include ht

theorem StartTag.IsRegular.readTagName?
    : readTagName? (t.name ++ (attributesText t.attributes ++ (t.close ++ rest)))
      = some (t.name, attributesText t.attributes ++ (t.close ++ rest)) := by
  obtain ⟨c, s, hname, hc⟩ := ht.name
  have hbehind : Stops isTagChar (attributesText t.attributes ++ (t.close ++ rest)) := by
    obtain ⟨d, more, heq, hd⟩ := ht.exists_behind
    rw [← List.append_assoc, heq]
    rintro _ ⟨⟩
    exact hd
  have hhead : (t.name ++ (attributesText t.attributes ++ (t.close ++ rest))).head? = some c := by
    rw [hname]
    rfl
  rw [Markup.readTagName?, hhead]
  dsimp only
  rw [if_pos hc, takeWhile_append_stops ht.tagName hbehind,
    dropWhile_append_stops ht.tagName hbehind]

theorem StartTag.IsRegular.readAttributes
    : readAttributes bareInTag (attributesText t.attributes ++ (t.close ++ rest))
      = (t.attributes, t.close ++ rest) := by
  obtain ⟨blanks, close, hclose, hblanks, hend⟩ := ht.exists_close
  have hne : blanks ++ close ≠ [] := by
    rcases hend with rfl | rfl <;> simp
  have hread : AreRead (blanks ++ (close ++ rest)) t.attributes := by
    refine ht.attributes.congr ?_
    rw [hclose, ← List.append_assoc, List.head?_append_of_ne_nil _ hne]
  rw [Markup.readAttributes, hclose, List.append_assoc,
    (hread.readAttributesAfter hblanks hend []).1]
  rfl

theorem StartTag.IsRegular.readTagEnd? : readTagEnd? (t.close ++ rest) = some (t.close, rest) := by
  obtain ⟨blanks, close, hclose, hblanks, hend⟩ := ht.exists_close
  rw [hclose, List.append_assoc, readTagEnd?_close hblanks hend]

/-- A regular tag is read back whatever stands behind it. -/
theorem StartTag.IsRegular.readItem? : readItem? (t.text ++ rest) = some (.tag t, rest) := by
  obtain ⟨c, s, hname, hc⟩ := ht.name
  have hmark : c ≠ '!' := by
    rintro rfl
    exact absurd hc (by decide)
  have hstart : readStartTag? (t.name ++ (attributesText t.attributes ++ (t.close ++ rest)))
      = some (t, rest) := by
    rw [readStartTag?, ht.readTagName?]
    dsimp only
    rw [ht.readAttributes]
    dsimp only
    rw [ht.readTagEnd?]
  have htext : t.text ++ rest
      = '<' :: (t.name ++ (attributesText t.attributes ++ (t.close ++ rest))) := by
    simp [StartTag.text]
  rw [hname, List.cons_append] at hstart
  rw [htext, hname, List.cons_append, readItem?_of_ne hmark, hstart]
  rfl

end Tags

/-- A comment is read up to its first end. -/
theorem readItem?_comment (inner : Text)
    : readItem? ("<!--" ++ inner)
      = (Text.splitAtLiteral? "-->" inner).map fun found => (.comment found.1, found.2) := by
  rw [readItem?, Text.dropLiteral?_eq_some_iff.mpr rfl]

/-- A CDATA section is read up to its first end. -/
theorem readItem?_data (inner : Text)
    : readItem? ("<![CDATA[" ++ inner)
      = (Text.splitAtLiteral? "]]>" inner).map fun found => (.data found.1, found.2) := by
  have hcomment : Text.dropLiteral? "<!--" ("<![CDATA[" ++ inner) = none := by
    simp [Text.ofString, Text.dropLiteral?]
  rw [readItem?, hcomment, Text.dropLiteral?_eq_some_iff.mpr rfl]

theorem splitAtLiteral?_of_comment {s body rest : Text}
    (h : readItem? s = some (.comment body, rest)) (rest' : Text)
    : Text.splitAtLiteral? "-->" (body ++ "-->" ++ rest') = some (body, rest') := by
  have hs := eq_of_readItem? h
  rw [Item.text, List.append_assoc, List.append_assoc] at hs
  rw [hs, readItem?_comment] at h
  obtain ⟨⟨_, _⟩, hsplit, heq⟩ := Option.map_eq_some_iff.mp h
  cases heq
  exact Text.splitAtLiteral?_append hsplit rest'

theorem splitAtLiteral?_of_data {s body rest : Text}
    (h : readItem? s = some (.data body, rest)) (rest' : Text)
    : Text.splitAtLiteral? "]]>" (body ++ "]]>" ++ rest') = some (body, rest') := by
  have hs := eq_of_readItem? h
  rw [Item.text, List.append_assoc, List.append_assoc] at hs
  rw [hs, readItem?_data] at h
  obtain ⟨⟨_, _⟩, hsplit, heq⟩ := Option.map_eq_some_iff.mp h
  cases heq
  exact Text.splitAtLiteral?_append hsplit rest'

/-- What is read is read back from its own text whatever stands behind it. -/
theorem readItem?_append {s rest : Text} {item : Item} (h : readItem? s = some (item, rest))
    (rest' : Text)
    : readItem? (item.text ++ rest') = some (item, rest') := by
  cases item with
  | tag t => exact (isRegular_of_readItem? h).readItem? rest'
  | comment body =>
      rw [Item.text, List.append_assoc, List.append_assoc, ← List.append_assoc body,
        readItem?_comment, splitAtLiteral?_of_comment h]
      rfl
  | data body =>
      rw [Item.text, List.append_assoc, List.append_assoc, ← List.append_assoc body, readItem?_data,
        splitAtLiteral?_of_data h]
      rfl

end SvgKit.Markup

import SvgKit.Markup.Tag
import SvgKit.Proofs.Text.Splitting

/-! How a name behind blanks and what is assigned to it are read as an attribute, and where a
start tag ends.
-/

namespace SvgKit.Markup

-----------------------------------------------------------------------------------------
-- One attribute
-----------------------------------------------------------------------------------------

theorem isBlank_of_isNameChar {c : Char} (h : isNameChar c) : Text.isBlank c = false := by
  simp only [isNameChar, Bool.and_eq_true, Bool.not_eq_true'] at h
  exact h.1.1.1.1.1

section Equals

variable {s equals rest : Text}

/-- An equals sign with blanks around it. -/
def IsEquals (equals : Text) : Prop :=
  ∃ before after, equals = before ++ '=' :: after
    ∧ (∀ c ∈ before, Text.isBlank c) ∧ ∀ c ∈ after, Text.isBlank c

theorem IsEquals.ne_nil (h : IsEquals equals) : equals ≠ [] := by
  obtain ⟨before, after, rfl, -⟩ := h
  simp

/-- All blanks around an equals sign are read with it. -/
theorem isEquals_of_readEquals? (h : readEquals? s = some (equals, rest))
    : IsEquals equals ∧ Stops Text.isBlank rest := by
  unfold readEquals? at h
  dsimp only at h
  split at h
  · cases h
    refine ⟨⟨_, _, rfl, ?_, ?_⟩, stops_dropWhile⟩ <;> exact fun _ hc => List.mem_takeWhile_imp hc
  · cases h

theorem IsEquals.readEquals? (h : IsEquals equals) (hrest : Stops Text.isBlank rest)
    : readEquals? (equals ++ rest) = some (equals, rest) := by
  obtain ⟨before, after, rfl, hbefore, hafter⟩ := h
  have hequals : Stops Text.isBlank ('=' :: (after ++ rest)) := by
    rintro _ ⟨⟩
    decide
  rw [List.append_assoc, List.cons_append]
  simp only [Markup.readEquals?, takeWhile_append_stops hbefore hequals,
    dropWhile_append_stops hbefore hequals, takeWhile_append_stops hafter hrest,
    dropWhile_append_stops hafter hrest]

theorem readEquals?_eq_none (h : (s.dropWhile Text.isBlank).head? ≠ some '=')
    : readEquals? s = none := by
  unfold Markup.readEquals?
  dsimp only
  split
  · next rest hrest => exact absurd (by rw [hrest]; rfl) h
  · rfl

end Equals

section Reading

variable {bare : Char → Text → Bool}

/-- Nothing is assigned where no equals sign follows, blanks aside. -/
theorem readAssigned?_eq_none {s : Text} (h : (s.dropWhile Text.isBlank).head? ≠ some '=')
    : readAssigned? bare s = none := by
  rw [readAssigned?, readEquals?_eq_none h]

/-- A value in double quotes is assigned. -/
theorem readAssigned?_quoted {blanks value : Text} (hblanks : ∀ c ∈ blanks, Text.isBlank c)
    (hvalue : '"' ∉ value) (rest : Text)
    : readAssigned? bare (blanks ++ '=' :: '"' :: (value ++ '"' :: rest))
      = some ((blanks ++ ['='], '"' :: (value ++ ['"'])), rest) := by
  have hquote : Stops Text.isBlank ('"' :: (value ++ '"' :: rest)) := by
    rintro _ ⟨⟩
    decide
  have hequals : IsEquals (blanks ++ ['=']) := ⟨blanks, [], rfl, hblanks, by simp⟩
  have hread := hequals.readEquals? hquote
  rw [List.append_assoc, List.singleton_append] at hread
  rw [readAssigned?, hread]
  dsimp only
  rw [readValue?, if_pos (by simp), Text.splitAtLiteral?_cons hvalue]
  rfl

/-- A word is the name of an attribute, with what is assigned behind it. -/
theorem readAttribute?_word {word s : Text} (hne : word ≠ []) (hword : ∀ c ∈ word, isNameChar c)
    (hs : Stops isNameChar s)
    : readAttribute? bare (word ++ s)
      = match readAssigned? bare s with
        | some (assigned, left) => some (⟨word, some assigned⟩, left)
        | none => some (⟨word, none⟩, s) := by
  unfold readAttribute?
  rw [takeWhile_append_stops hword hs, dropWhile_append_stops hword hs]
  cases hassigned : readAssigned? bare s <;> simp [hne, hassigned]

theorem readAttribute?_eq_none {s : Text} (hs : Stops isNameChar s)
    : readAttribute? bare s = none := by
  unfold readAttribute?
  rw [hs.takeWhile]
  rfl

/-- Attributes are read behind blanks only. -/
theorem readAttributesAfter_stops {s : Text} (hs : Stops Text.isBlank s)
    (done : List (Text × Attribute))
    : readAttributesAfter bare done s = (done.reverse, s) := by
  rw [readAttributesAfter, hs.takeWhile]
  rfl

/-- One attribute is read behind the blanks at the head of the text, and then those behind it. -/
theorem readAttributesAfter_eq (done : List (Text × Attribute)) (s : Text)
    : readAttributesAfter bare done s
      = if s.takeWhile Text.isBlank = [] then (done.reverse, s)
        else
          match readAttribute? bare (s.dropWhile Text.isBlank) with
          | some (a, rest) => readAttributesAfter bare ((s.takeWhile Text.isBlank, a) :: done) rest
          | none => (done.reverse, s) := by
  rw [readAttributesAfter]
  simp only [List.isEmpty_iff]
  congr 1
  split <;> next hread => rw [hread]

theorem readAttributesAfter_blanks {blanks s : Text} (hne : blanks ≠ [])
    (hblanks : ∀ c ∈ blanks, Text.isBlank c) (hs : Stops Text.isBlank s)
    (done : List (Text × Attribute))
    : readAttributesAfter bare done (blanks ++ s)
      = match readAttribute? bare s with
        | some (a, rest) => readAttributesAfter bare ((blanks, a) :: done) rest
        | none => (done.reverse, blanks ++ s) := by
  rw [readAttributesAfter_eq, takeWhile_append_stops hblanks hs, dropWhile_append_stops hblanks hs,
    if_neg hne]

-----------------------------------------------------------------------------------------
-- Words
-----------------------------------------------------------------------------------------

/-- Something behind a stretch that is neither part of a word nor a blank. -/
def EndsStretch (s : Text) : Prop :=
  ∃ c rest, s = c :: rest ∧ Text.isBlank c = false ∧ isNameChar c = false

/-- A word behind blanks. -/
structure IsWord (blanks word : Text) : Prop where
  blank : ∀ c ∈ blanks, Text.isBlank c
  apart : blanks ≠ []
  name : ∀ c ∈ word, isNameChar c
  notEmpty : word ≠ []

theorem EndsStretch.stops_blank {s : Text} (h : EndsStretch s) : Stops Text.isBlank s := by
  obtain ⟨c, rest, rfl, hblank, -⟩ := h
  rintro _ ⟨⟩
  exact hblank

theorem EndsStretch.stops_name {s : Text} (h : EndsStretch s) : Stops isNameChar s := by
  obtain ⟨c, rest, rfl, -, hname⟩ := h
  rintro _ ⟨⟩
  exact hname

/-- Blanks do not continue a word. -/
theorem stops_name_append {blanks s : Text} (hblanks : ∀ c ∈ blanks, Text.isBlank c)
    (hs : Stops isNameChar s)
    : Stops isNameChar (blanks ++ s) := by
  cases blanks with
  | nil => exact hs
  | cons c blanks =>
      rintro _ ⟨⟩
      by_contra hname
      rw [Bool.not_eq_false] at hname
      have hblank := hblanks c List.mem_cons_self
      rw [isBlank_of_isNameChar hname] at hblank
      cases hblank

theorem IsWord.stops {blanks word : Text} (h : IsWord blanks word) (s : Text)
    : Stops Text.isBlank (word ++ s) :=
  stops_of_forall (fun _ hc => isBlank_of_isNameChar hc) h.notEmpty h.name s

/-- A word behind blanks is an attribute, with what is assigned behind it. -/
theorem readAttributesAfter_word {blanks word s : Text} (h : IsWord blanks word)
    (hs : Stops isNameChar s) (done : List (Text × Attribute))
    : readAttributesAfter bare done (blanks ++ (word ++ s))
      = match readAssigned? bare s with
        | some (assigned, left) =>
          readAttributesAfter bare ((blanks, ⟨word, some assigned⟩) :: done) left
        | none => readAttributesAfter bare ((blanks, ⟨word, none⟩) :: done) s := by
  rw [readAttributesAfter_blanks h.apart h.blank (h.stops s),
    readAttribute?_word h.notEmpty h.name hs]
  cases readAssigned? bare s <;> rfl

-----------------------------------------------------------------------------------------
-- The end of a tag
-----------------------------------------------------------------------------------------

/-- What ends a start tag. -/
def IsClose (s : Text) : Prop := s = ['>'] ∨ s = ['/', '>']

theorem IsClose.endsStretch {close : Text} (h : IsClose close) (rest : Text)
    : EndsStretch (close ++ rest) := by
  rcases h with rfl | rfl
  · exact ⟨'>', rest, rfl, by decide, by decide⟩
  · exact ⟨'/', '>' :: rest, rfl, by decide, by decide⟩

theorem endsStretch_equals (s : Text) : EndsStretch ('=' :: s) :=
  ⟨'=', s, rfl, by decide, by decide⟩

theorem IsEquals.stops_name {equals : Text} (h : IsEquals equals) (s : Text)
    : Stops isNameChar (equals ++ s) := by
  obtain ⟨before, after, rfl, hbefore, -⟩ := h
  rw [List.append_assoc]
  exact stops_name_append hbefore (endsStretch_equals _).stops_name

theorem readTagEnd?_close {blanks close : Text} (hblanks : ∀ c ∈ blanks, Text.isBlank c)
    (h : IsClose close) (rest : Text)
    : readTagEnd? (blanks ++ (close ++ rest)) = some (blanks ++ close, rest) := by
  have hstops := (h.endsStretch rest).stops_blank
  unfold readTagEnd?
  rw [takeWhile_append_stops hblanks hstops, dropWhile_append_stops hblanks hstops]
  rcases h with rfl | rfl <;> rfl

/-- A tag does not end where something else stands behind blanks. -/
theorem readTagEnd?_eq_none {blanks s : Text} {c : Char} (hblanks : ∀ x ∈ blanks, Text.isBlank x)
    (hc : Text.isBlank c = false ∧ c ≠ '>' ∧ c ≠ '/')
    : readTagEnd? (blanks ++ c :: s) = none := by
  obtain ⟨hblank, hbracket, hslash⟩ := hc
  have hstops : Stops Text.isBlank (c :: s) := by
    rintro _ ⟨⟩
    exact hblank
  unfold readTagEnd?
  rw [takeWhile_append_stops hblanks hstops, dropWhile_append_stops hblanks hstops]
  simp [hbracket, hslash]

end Reading

end SvgKit.Markup

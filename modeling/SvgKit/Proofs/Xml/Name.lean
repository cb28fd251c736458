import SvgKit.Xml.Reader
import Mathlib.Data.List.TakeWhile

/-! Names and references are read back as they are written, and what is read is a name or a
reference.
-/

namespace SvgKit.Xml

-----------------------------------------------------------------------------------------
-- Names
-----------------------------------------------------------------------------------------

/-- The characters of markup that no name holds. -/
def delimiters : List Char :=
  [' ', '\t', '\n', '\r', '"', '\'', '&', '/', ';', '<', '=', '>', '#', '!', '?', '[', ']']

theorem isNameChar_of_mem_delimiters {c : Char} (h : c ∈ delimiters)
    : isNameChar c = false := by
  have : delimiters.all fun c => !isNameChar c := by with_unfolding_all decide
  simpa using List.all_eq_true.mp this c h

theorem isSpace_mem_delimiters {c : Char} (h : isSpace c) : c ∈ delimiters := by
  simp only [isSpace, Bool.or_eq_true, beq_iff_eq] at h
  rcases h with ((rfl | rfl) | rfl) | rfl <;> decide

theorem not_isNameChar_colon : isNameChar ':' = false := by
  with_unfolding_all decide

theorem isNameChar_of_isNameStart {c : Char} (h : isNameStart c) : isNameChar c := by
  simp [isNameChar, h]

/-- A text that is a name without colons. -/
def IsName : Text → Prop
  | [] => False
  | c :: s => isNameStart c ∧ ∀ x ∈ s, isNameChar x

theorem IsName.isNameChar {s : Text} (h : IsName s) : ∀ c ∈ s, isNameChar c := by
  cases s with
  | nil => exact h.elim
  | cons c s =>
      intro x hx
      rcases List.mem_cons.mp hx with rfl | hx
      · exact isNameChar_of_isNameStart h.1
      · exact h.2 x hx

theorem IsName.not_mem_of_delimiter {s : Text} {c : Char} (h : IsName s)
    (hc : c ∈ delimiters)
    : c ∉ s := by
  intro hmem
  simpa [isNameChar_of_mem_delimiters hc] using h.isNameChar c hmem

/-- A name is read up to the first character that cannot stand in it. -/
theorem readName?_append {n s : Text} {c : Char} (hn : IsName n) (hc : isNameChar c = false)
    : readName? (n ++ c :: s) = some (n, c :: s) := by
  cases n with
  | nil => exact hn.elim
  | cons first n =>
      have hall : ∀ x ∈ first :: n, isNameChar x = true := hn.isNameChar
      rw [List.cons_append, readName?, if_pos hn.1, ← List.cons_append,
        List.takeWhile_append_of_pos hall, List.dropWhile_append_of_pos hall,
        List.takeWhile_cons_of_neg (by simp [hc]), List.dropWhile_cons_of_neg (by simp [hc]),
        List.append_nil]

/-- What is read as a name is one. -/
theorem isName_of_readName? {s n rest : Text} (h : readName? s = some (n, rest))
    : IsName n := by
  cases s with
  | nil => simp [readName?] at h
  | cons c s =>
      rw [readName?] at h
      split at h
      · next hc =>
          cases h
          rw [List.takeWhile_cons_of_pos (isNameChar_of_isNameStart hc)]
          exact ⟨hc, fun x hx => List.mem_takeWhile_imp hx⟩
      · cases h

-----------------------------------------------------------------------------------------
-- Spelled names
-----------------------------------------------------------------------------------------

/-- A spelled name whose parts are names. -/
structure Spelling.Sound (n : Spelling) : Prop where
  base : IsName n.base
  space : ∀ label, n.space = some label → IsName label

/-- A spelled name begins with a character that begins names. -/
theorem Spelling.Sound.text_eq_cons {n : Spelling} (hn : n.Sound)
    : ∃ c rest, n.text = c :: rest ∧ isNameStart c := by
  have hname {s : Text} (h : IsName s) : ∃ c rest, s = c :: rest ∧ isNameStart c := by
    cases s with
    | nil => exact h.elim
    | cons c rest => exact ⟨c, rest, rfl, h.1⟩
  obtain ⟨space, base⟩ := n
  cases space with
  | none => exact hname hn.base
  | some label =>
      obtain ⟨c, rest, rfl, hc⟩ := hname (hn.space label rfl)
      exact ⟨c, rest ++ ':' :: base, rfl, hc⟩

theorem not_mem_delimiters_of_isNameStart {c : Char} (h : isNameStart c) : c ∉ delimiters := by
  intro hmem
  have := isNameChar_of_isNameStart h
  rw [isNameChar_of_mem_delimiters hmem] at this
  cases this

/-- What is read as a spelled name is one. -/
theorem sound_of_readSpelling? {s rest : Text} {n : Spelling}
    (h : readSpelling? s = some (n, rest))
    : n.Sound := by
  unfold readSpelling? at h
  split at h
  · cases h
  · next first after hfirst =>
      split at h
      · cases h
      · cases h
      · next second left hsecond =>
          cases h
          refine ⟨isName_of_readName? hsecond, ?_⟩
          rintro _ ⟨⟩
          exact isName_of_readName? hfirst
  · next hfirst =>
      cases h
      exact ⟨isName_of_readName? hfirst, fun _ h => by cases h⟩

/-- A spelled name is read up to the first character that cannot stand in it. -/
theorem readSpelling?_append {n : Spelling} {s : Text} {c : Char} (hn : n.Sound)
    (hc : c ∈ delimiters)
    : readSpelling? (n.text ++ c :: s) = some (n, c :: s) := by
  have hname := isNameChar_of_mem_delimiters hc
  have hcolon : c ≠ ':' := by
    rintro rfl
    exact absurd hc (by decide)
  obtain ⟨space, base⟩ := n
  cases space with
  | none =>
      show readSpelling? (base ++ c :: s) = _
      rw [readSpelling?, readName?_append hn.base hname]
      split
      · next h => simp at h
      · next h => simp [hcolon] at h
      · next h => simpa [eq_comm] using h
  | some label =>
      have hread : readName? (base ++ c :: s) = some (base, c :: s) :=
        readName?_append hn.base hname
      show readSpelling? ((label ++ ':' :: base) ++ c :: s) = _
      rw [List.append_assoc, List.cons_append, readSpelling?,
        readName?_append (hn.space label rfl) not_isNameChar_colon]
      simp only [hread]
      split
      · next h => simp at h
      · next h => simp [hcolon] at h
      · next h => simpa [eq_comm] using h

theorem Spelling.Sound.not_mem_text {n : Spelling} {c : Char} (hn : n.Sound)
    (hc : c ∈ delimiters)
    : c ∉ n.text := by
  have hbase := hn.base.not_mem_of_delimiter hc
  obtain ⟨space, base⟩ := n
  cases space with
  | none => exact hbase
  | some label =>
      have hcolon : c ≠ ':' := by
        rintro rfl
        exact absurd hc (by decide)
      simpa [Spelling.text, hcolon] using
        ⟨(hn.space label rfl).not_mem_of_delimiter hc, hbase⟩

/-- Names that are spelled alike are the same, since the first colon ends the label. -/
theorem Spelling.Sound.text_injective {n n' : Spelling} (hn : n.Sound) (hn' : n'.Sound)
    (h : n.text = n'.text)
    : n = n' := by
  have hread := readSpelling?_append (s := []) hn (show ' ' ∈ delimiters by decide)
  rw [h, readSpelling?_append hn' (by decide)] at hread
  simpa using hread.symm

-----------------------------------------------------------------------------------------
-- References
-----------------------------------------------------------------------------------------

/-- A text that is a name, colons included. -/
def IsFullName : Text → Prop
  | [] => False
  | c :: s => (isNameStart c || c == ':') ∧ ∀ x ∈ s, isNameChar x || x == ':'

theorem IsFullName.inside {s : Text} (h : IsFullName s)
    : ∀ c ∈ s, (isNameChar c || c == ':') = true := by
  cases s with
  | nil => exact h.elim
  | cons first s =>
      intro c hc
      rcases List.mem_cons.mp hc with rfl | hc
      · rcases (Bool.or_eq_true _ _).mp h.1 with h | h
        · simp [isNameChar_of_isNameStart h]
        · simp [h]
      · exact h.2 c hc

theorem isFullName_of_readFullName? {s name rest : Text}
    (h : readFullName? s = some (name, rest))
    : IsFullName name := by
  cases s with
  | nil => simp [readFullName?] at h
  | cons c s =>
      unfold readFullName? at h
      dsimp only at h
      split at h
      · next hc =>
          have hinside := IsFullName.inside (s := [c]) ⟨hc, by simp⟩ c (by simp)
          cases h
          rw [List.takeWhile_cons_of_pos (p := fun c => isNameChar c || c == ':') hinside]
          exact ⟨hc, fun _ hx =>
            List.mem_takeWhile_imp (p := fun c => isNameChar c || c == ':') hx⟩
      · cases h

/-- A name is read up to the first character that cannot stand in it. -/
theorem readFullName?_append {n s : Text} {c : Char} (hn : IsFullName n)
    (hc : c ∈ delimiters)
    : readFullName? (n ++ c :: s) = some (n, c :: s) := by
  have hcolon : c ≠ ':' := by
    rintro rfl
    exact absurd hc (by decide)
  have hout : ¬((isNameChar c || c == ':') = true) := by
    simp [isNameChar_of_mem_delimiters hc, hcolon]
  have hall := hn.inside
  cases n with
  | nil => exact hn.elim
  | cons first n =>
      rw [List.cons_append, readFullName?, if_pos hn.1, ← List.cons_append, List.takeWhile_append_of_pos hall,
        List.dropWhile_append_of_pos hall, List.takeWhile_cons_of_neg (p := fun c => isNameChar c || c == ':') hout,
        List.dropWhile_cons_of_neg (p := fun c => isNameChar c || c == ':') hout,
        List.append_nil]

/-- The name of an entity that has to be declared. -/
structure IsEntityName (name : Text) : Prop where
  isFullName : IsFullName name
  notPredefined : predefined.lookup name = none

theorem IsEntityName.not_mem_of_delimiter {name : Text} {c : Char} (h : IsEntityName name)
    (hc : c ∈ delimiters)
    : c ∉ name := by
  intro hmem
  have hcolon : c ≠ ':' := by
    rintro rfl
    exact absurd hc (by decide)
  simpa [isNameChar_of_mem_delimiters hc, hcolon] using h.isFullName.inside c hmem

/-- A reference to a character of documents, or to an entity that has to be declared. -/
def Reference.Sound : Reference → Prop
  | .char c => isChar c
  | .entity name => IsEntityName name

theorem isChar_of_charOfCode? {n : Nat} {c : Char} (h : charOfCode? n = some c)
    : isChar c := by
  unfold charOfCode? at h
  split at h
  · next hc =>
      cases h
      exact ((Bool.and_eq_true _ _).mp hc).2
  · cases h

theorem sound_of_readCode? {base : Nat} {isDigit : Char → Bool} {s rest : Text}
    {r : Reference} (h : readCode? base isDigit s = some (r, rest))
    : r.Sound := by
  unfold readCode? at h
  split at h
  · obtain ⟨c, hc, hr⟩ := Option.map_eq_some_iff.mp h
    cases hr
    exact isChar_of_charOfCode? hc
  · cases h

theorem mem_of_lookup_eq_some {β : Type} {entries : List (Text × β)} {key : Text} {value : β}
    (h : entries.lookup key = some value)
    : (key, value) ∈ entries := by
  obtain ⟨before, behind, rfl, -⟩ := List.lookup_eq_some_iff.mp h
  simp

theorem isChar_of_lookup_predefined {name : Text} {c : Char}
    (h : predefined.lookup name = some c)
    : isChar c := by
  have hall : predefined.all fun entry => isChar entry.2 := by with_unfolding_all decide
  exact List.all_eq_true.mp hall _ (mem_of_lookup_eq_some h)

/-- What is read as a reference is one. -/
theorem sound_of_readReference? {s rest : Text} {r : Reference}
    (h : readReference? s = some (r, rest))
    : r.Sound := by
  unfold readReference? at h
  split at h
  · exact sound_of_readCode? h
  · exact sound_of_readCode? h
  · split at h
    · next name left hname =>
        split at h
        · next c hc =>
            cases h
            exact isChar_of_lookup_predefined hc
        · next hnone =>
            cases h
            exact ⟨isFullName_of_readFullName? hname, hnone⟩
    · cases h

/-- The reference that a name and a semicolon write. -/
theorem readReference?_append {name s : Text} (hn : IsFullName name)
    : readReference? (name ++ ';' :: s)
      = match predefined.lookup name with
        | some c => some (.char c, s)
        | none => some (.entity name, s) := by
  have hread := readFullName?_append (s := s) hn (show ';' ∈ delimiters by decide)
  have hsharp : (isNameChar '#' || '#' == ':') = false := by with_unfolding_all decide
  cases name with
  | nil => exact hn.elim
  | cons c t =>
      rw [readReference?, hread]
      case _ => rfl
      all_goals
        intro _ h
        simp only [List.cons_append, List.cons.injEq] at h
        have := hn.inside c List.mem_cons_self
        rw [h.1, hsharp] at this
        cases this

theorem readReference?_entity {name s : Text} (hn : IsEntityName name)
    : readReference? (name ++ ';' :: s) = some (.entity name, s) := by
  rw [readReference?_append hn.isFullName, hn.notPredefined]

-----------------------------------------------------------------------------------------
-- Escapes
-----------------------------------------------------------------------------------------

/-- Behind an ampersand the text is read as a reference to the character. -/
def Refers (body : Text) (c : Char) : Prop :=
  ∀ s, readReference? (body ++ s) = some (.char c, s)

theorem refers_of_lookup (name : Text) {c : Char} (hn : IsFullName name)
    (hc : predefined.lookup name = some c)
    : Refers (name ++ [';']) c := by
  intro s
  rw [List.append_assoc, List.singleton_append, readReference?_append hn, hc]

/-- The spelling of a character in character data is a reference to it, or the character
itself when it is not special there.
-/
theorem escapeText_cases (c : Char)
    : (∃ body, escapeText c = '&' :: body ∧ Refers body c)
      ∨ escapeText c = [c] ∧ c ≠ '<' ∧ c ≠ '>' ∧ c ≠ '&' ∧ c ≠ '\r' := by
  unfold escapeText
  split_ifs with hlt hgt hamp hcr
  · subst hlt
    refine .inl ⟨['l', 't', ';'], by simp [Text.ofString], ?_⟩
    exact refers_of_lookup ['l', 't'] (by simp [IsFullName]; decide) (by with_unfolding_all decide)
  · subst hgt
    refine .inl ⟨['g', 't', ';'], by simp [Text.ofString], ?_⟩
    exact refers_of_lookup ['g', 't'] (by simp [IsFullName]; decide) (by with_unfolding_all decide)
  · subst hamp
    refine .inl ⟨['a', 'm', 'p', ';'], by simp [Text.ofString], ?_⟩
    exact refers_of_lookup ['a', 'm', 'p'] (by simp [IsFullName]; decide)
      (by with_unfolding_all decide)
  · subst hcr
    refine .inl ⟨['#', '1', '3', ';'], by simp [Text.ofString], ?_⟩
    intro s
    have hcode : charOfCode? 13 = some '\r' := by decide
    simp [readReference?, readCode?, hexValue, hcode]
  · exact .inr ⟨rfl, hlt, hgt, hamp, hcr⟩

/-- The spelling of a character in a value is a reference to it, or the character itself when
it is not special there.
-/
theorem escapeValue_cases (c : Char)
    : (∃ body, escapeValue c = '&' :: body ∧ Refers body c)
      ∨ escapeValue c = [c] ∧ c ≠ '"' ∧ c ≠ '<' ∧ c ≠ '>' ∧ c ≠ '&'
        ∧ (isSpace c → c = ' ') := by
  unfold escapeValue
  split_ifs with hquot htab hlf
  · subst hquot
    refine .inl ⟨['q', 'u', 'o', 't', ';'], by simp [Text.ofString], ?_⟩
    exact refers_of_lookup ['q', 'u', 'o', 't'] (by simp [IsFullName]; decide)
      (by with_unfolding_all decide)
  · subst htab
    refine .inl ⟨['#', '9', ';'], by simp [Text.ofString], ?_⟩
    intro s
    have hcode : charOfCode? 9 = some '\t' := by decide
    simp [readReference?, readCode?, hexValue, hcode]
  · subst hlf
    refine .inl ⟨['#', '1', '0', ';'], by simp [Text.ofString], ?_⟩
    intro s
    have hcode : charOfCode? 10 = some '\n' := by decide
    simp [readReference?, readCode?, hexValue, hcode]
  · rcases escapeText_cases c with h | ⟨h, hlt, hgt, hamp, hcr⟩
    · exact .inl h
    · refine .inr ⟨h, hquot, hlt, hgt, hamp, ?_⟩
      intro hspace
      simpa [isSpace, htab, hlf, hcr] using hspace

-----------------------------------------------------------------------------------------
-- Values
-----------------------------------------------------------------------------------------

/-- What is read as a value consists of references, by induction over the text. -/
theorem sound_of_readValueAfter? {done value : Value} {s : Text}
    (h : readValueAfter? done s = some value) (hdone : ∀ r ∈ done, r.Sound)
    : ∀ r ∈ value, r.Sound := by
  have hspace : isChar ' ' := by decide
  fun_induction readValueAfter? done s with
  | case1 =>
      cases h
      simpa using hdone
  | case2 done s ih => exact ih h (List.forall_mem_cons.mpr ⟨hspace, hdone⟩)
  | case3 => cases h
  | case4 done s r rest hr ih =>
      exact ih h (List.forall_mem_cons.mpr ⟨sound_of_readReference? hr, hdone⟩)
  | case5 => cases h
  | case6 done c s _ _ hc ih =>
      refine ih h (List.forall_mem_cons.mpr ⟨?_, hdone⟩)
      have hchar : isChar c := by
        by_contra hno
        simp [hno] at hc
      split
      · exact hspace
      · exact hchar

theorem sound_of_readValue? {s : Text} {value : Value} (h : readValue? s = some value)
    : ∀ r ∈ value, r.Sound :=
  sound_of_readValueAfter? h (by simp)

/-- The spelling of a reference is read back, and nothing with it. -/
theorem readValueAfter?_spelled {r : Reference} (hr : r.Sound) (done : Value) (s : Text)
    : readValueAfter? done (r.spelled ++ s) = readValueAfter? (r :: done) s := by
  have hreference {body rest : Text} {r : Reference}
      (h : readReference? body = some (r, rest))
      : readValueAfter? done ('&' :: body) = readValueAfter? (r :: done) rest := by
    rw [readValueAfter?]
    split
    · next hnone => simp [h] at hnone
    · next hsome =>
        obtain ⟨rfl, rfl⟩ : _ ∧ _ := by simpa [h] using hsome
        rfl
  cases r with
  | entity name =>
      show readValueAfter? done ('&' :: (name ++ [';']) ++ s) = _
      rw [List.cons_append, List.append_assoc, List.singleton_append]
      exact hreference (readReference?_entity hr)
  | char c =>
      rcases escapeValue_cases c with ⟨body, hbody, hrefers⟩ | ⟨h, _, hlt, _, hamp, hspace⟩
      · rw [Reference.spelled, hbody, List.cons_append]
        exact hreference (hrefers s)
      · have hchar : isChar c := hr
        have hself : (if isSpace c then ' ' else c) = c := by
          split
          · next h => exact (hspace h).symm
          · rfl
        rw [Reference.spelled, h, List.singleton_append, readValueAfter?, hself]
        · simp [hlt, hchar]
        · rintro _ ⟨⟩
          exact absurd (hspace (by decide)) (by decide)
        · exact hamp

/-- A value is read back from its spelling, by induction over the references. -/
theorem readValue?_spelled {value : Value} (h : ∀ r ∈ value, r.Sound)
    : readValue? (value.flatMap Reference.spelled) = some value := by
  suffices ∀ done : Value,
      readValueAfter? done (value.flatMap Reference.spelled) = some (done.reverse ++ value) from
    this []
  induction value with
  | nil =>
      intro done
      simp [readValueAfter?]
  | cons r value ih =>
      intro done
      rw [List.flatMap_cons, readValueAfter?_spelled (h r List.mem_cons_self),
        ih (fun r hr => h r (List.mem_cons_of_mem _ hr))]
      simp

/-- A text is read back as a value without references to entities. -/
theorem readValue?_escapeValue {s : Text} (h : ∀ c ∈ s, isChar c)
    : readValue? (s.flatMap escapeValue) = some (s.map .char) := by
  have hvalue : ∀ r ∈ s.map Reference.char, r.Sound := List.forall_mem_map.mpr h
  have hspelled : (s.map Reference.char).flatMap Reference.spelled = s.flatMap escapeValue := by
    rw [List.flatMap_map]
    rfl
  rw [← hspelled]
  exact readValue?_spelled hvalue

theorem not_mem_escapeText {c d : Char} (hd : d = '<' ∨ d = '>') : d ∉ escapeText c := by
  unfold escapeText
  rcases hd with rfl | rfl <;> split_ifs <;> simp_all [Text.ofString, eq_comm]

theorem not_mem_escapeValue {c d : Char} (hd : d = '"' ∨ d = '<' ∨ d = '>')
    : d ∉ escapeValue c := by
  unfold escapeValue
  split_ifs with hquot
  · rcases hd with rfl | rfl | rfl <;> simp [Text.ofString]
  · rcases hd with rfl | rfl | rfl <;> simp [Text.ofString]
  · rcases hd with rfl | rfl | rfl <;> simp [Text.ofString]
  · rcases hd with rfl | hd
    · unfold escapeText
      split_ifs <;> simp_all [Text.ofString, eq_comm]
    · exact not_mem_escapeText hd

/-- The spelling of a value holds no quote and no bracket of a tag. -/
theorem Reference.Sound.not_mem_spelled {r : Reference} {d : Char} (hr : r.Sound)
    (hd : d = '"' ∨ d = '<' ∨ d = '>')
    : d ∉ r.spelled := by
  cases r with
  | char c => exact not_mem_escapeValue hd
  | entity name =>
      have hname : d ∉ name :=
        IsEntityName.not_mem_of_delimiter hr (by rcases hd with rfl | rfl | rfl <;> decide)
      rcases hd with rfl | rfl | rfl <;> simpa [Reference.spelled] using hname

end SvgKit.Xml

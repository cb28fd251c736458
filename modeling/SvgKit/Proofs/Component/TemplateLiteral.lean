import SvgKit.Component.Template
import SvgKit.Proofs.Json.StringLiteral
import SvgKit.Proofs.Text.Pieces

/-! Template literals of scripts without substitutions. A literal stands for a list of UTF-16 units;
the literal that a text is escaped to stands for the units of the text, whatever follows it. Blanks
and line ends are not escaped, so that an escaped text has the lines of the text itself.
-/

namespace SvgKit.Component

-----------------------------------------------------------------------------------------
-- Reading
-----------------------------------------------------------------------------------------

/-- A character that ends a line of a script. -/
def endsScriptLine (c : Char) : Bool :=
  c == '\n' || c == '\r' || c == '\u2028' || c == '\u2029'

/-- The unit that a single character behind a backslash stands for, unless it begins a longer escape
or is none.
-/
def characterEscape? (c : Char) : Option (List Nat) :=
  if c = 'b' then some [8]
  else if c = 't' then some [9]
  else if c = 'n' then some [10]
  else if c = 'v' then some [11]
  else if c = 'f' then some [12]
  else if c = 'r' then some [13]
  else if c.isDigit || c = 'x' || c = 'u' then none
  else some (Text.charUnits c)

/-- The units of a code point. -/
def codePointUnits (n : Nat) : List Nat :=
  if n < 0x10000 then [n]
  else [0xD800 + (n - 0x10000) / 0x400, 0xDC00 + (n - 0x10000) % 0x400]

/-- The unit that so many hexadecimal digits write, and what follows them. -/
def readDigits? (count : Nat) (s : Text) : Option (List Nat × Text) :=
  if s.length < count then none
  else (Json.hexUnit? (s.take count)).map fun unit => ([unit], s.drop count)

/-- The units of the code point that is written up to the closing brace, and what follows it. -/
def readCodePoint? (s : Text) : Option (List Nat × Text) :=
  match Text.splitAtLiteral? ['\x7d'] s with
  | none => none
  | some (digits, rest) =>
    if digits.isEmpty then none
    else (Json.hexUnit? digits).bind fun n =>
      if n < 0x110000 then some (codePointUnits n, rest) else none

/-- The units that an escape stands for whose backslash has been read, and what follows it. A line
that a backslash ends goes on in the next one.
-/
def readEscape? (s : Text) : Option (List Nat × Text) :=
  match s with
  | [] => none
  | c :: s =>
    if c = '\r' && s.head? = some '\n' then some ([], s.tail)
    else if endsScriptLine c then some ([], s)
    else if c = '0' && !(s.head?.any Char.isDigit) then some ([0], s)
    else if c = 'x' then readDigits? 2 s
    else if c = 'u' && s.head? = some '\x7b' then readCodePoint? s.tail
    else if c = 'u' then readDigits? 4 s
    else (characterEscape? c).map fun units => (units, s)

theorem readDigits?_suffix {count : Nat} {s rest : Text} {units : List Nat}
    (h : readDigits? count s = some (units, rest))
    : rest <:+ s := by
  unfold readDigits? at h
  split at h
  · cases h
  · obtain ⟨unit, -, heq⟩ := Option.map_eq_some_iff.mp h
    cases heq
    exact List.drop_suffix count s

theorem readCodePoint?_suffix {s rest : Text} {units : List Nat}
    (h : readCodePoint? s = some (units, rest))
    : rest <:+ s := by
  unfold readCodePoint? at h
  split at h
  · cases h
  · next digits left hsplit =>
      split at h
      · cases h
      · obtain ⟨n, -, hif⟩ := Option.bind_eq_some_iff.mp h
        split at hif
        · cases hif
          exact Text.splitAtLiteral?_suffix hsplit
        · cases hif

/-- Reading an escape leaves less than there was. -/
theorem length_readEscape? {s rest : Text} {units : List Nat}
    (h : readEscape? s = some (units, rest))
    : rest.length < s.length := by
  cases s with
  | nil => cases h
  | cons c s =>
      suffices rest <:+ s by
        rw [List.length_cons]
        exact Nat.lt_succ_of_le this.length_le
      rw [readEscape?] at h
      repeat' split at h
      · cases h
        exact List.tail_suffix s
      · cases h
        exact List.suffix_rfl
      · cases h
        exact List.suffix_rfl
      · exact readDigits?_suffix h
      · exact (readCodePoint?_suffix h).trans (List.tail_suffix s)
      · exact readDigits?_suffix h
      · obtain ⟨_, -, heq⟩ := Option.map_eq_some_iff.mp h
        cases heq
        exact List.suffix_rfl

/-- Reads the units of a template literal behind its opening backquote, and what follows the closing
one. The literal holds no substitution, and a line end in it is a line feed.
-/
def readTemplate? (s : Text) : Option (List Nat × Text) :=
  match s with
  | [] => none
  | c :: s =>
    if c = '\x60' then some ([], s)
    else if c = '\\' then
      match _escape : readEscape? s with
      | none => none
      | some (units, rest) => (readTemplate? rest).map fun found => (units ++ found.1, found.2)
    else if c = '$' && s.head? = some '\x7b' then none
    else if c = '\r' then
      if s.head? = some '\n' then readTemplate? s else (readTemplate? s).map (Json.consUnit 10)
    else (readTemplate? s).map fun found => (Text.charUnits c ++ found.1, found.2)
termination_by s.length
decreasing_by
  · have := length_readEscape? _escape
    simp only [List.length_cons]
    omega
  all_goals simp

-----------------------------------------------------------------------------------------
-- Escaping
-----------------------------------------------------------------------------------------

/-- A character that is escaped, alone or in front of a brace. -/
def mayEscape (c : Char) : Bool := c == '\\' || c == '\x60' || c == '$'

theorem escapeTemplate_cons (c : Char) (s : Text)
    : escapeTemplate (c :: s) = escapeTemplate.step c (escapeTemplate s) := rfl

theorem step_eq_cons {c : Char} (hc : mayEscape c = false) (s : Text)
    : escapeTemplate.step c s = c :: s := by
  simp only [mayEscape, Bool.or_eq_false_iff, beq_eq_false_iff_ne] at hc
  simp [escapeTemplate.step, hc.1.1, hc.1.2, hc.2]

/-- Whether a brace follows is all that matters to the escape of a character. -/
theorem exists_step (c : Char) (s : Text)
    : ∃ front, (∀ d ∈ front, d = '\\')
      ∧ ∀ t : Text, (t.head? = some '\x7b' ↔ s.head? = some '\x7b') →
        escapeTemplate.step c t = front ++ c :: t := by
  unfold escapeTemplate.step
  by_cases hc : c = '\\' ∨ c = '\x60' ∨ c = '$' ∧ s.head? = some '\x7b'
  · refine ⟨['\\'], by simp, fun t ht => ?_⟩
    rw [← ht] at hc
    rw [if_pos (by simpa [or_assoc] using hc)]
    rfl
  · refine ⟨[], by simp, fun t ht => ?_⟩
    rw [← ht] at hc
    rw [if_neg (by simpa [or_assoc] using hc)]
    rfl

/-- An escaped text begins with a brace if the text does. -/
theorem head?_escapeTemplate (s : Text)
    : (escapeTemplate s).head? = some '\x7b' ↔ s.head? = some '\x7b' := by
  cases s with
  | nil => rfl
  | cons c s =>
      rw [escapeTemplate_cons, escapeTemplate.step]
      split
      · next hc =>
          have hbrace : c ≠ '\x7b' := by
            rintro rfl
            simp at hc
          simp [hbrace]
      · rfl

/-- Texts are escaped one by one unless the second one begins with a brace. The induction is over
the first one.
-/
theorem escapeTemplate_append (s : Text) {t : Text} (ht : t.head? ≠ some '\x7b')
    : escapeTemplate (s ++ t) = escapeTemplate s ++ escapeTemplate t := by
  induction s with
  | nil => rfl
  | cons c s ih =>
      have hhead : (escapeTemplate s ++ escapeTemplate t).head? = some '\x7b'
          ↔ (escapeTemplate s).head? = some '\x7b' := by
        cases hs : escapeTemplate s with
        | nil => simp [head?_escapeTemplate, ht]
        | cons d s => rfl
      rw [List.cons_append, escapeTemplate_cons, escapeTemplate_cons, ih, escapeTemplate.step,
        escapeTemplate.step]
      simp only [hhead]
      split <;> rfl

theorem escapeTemplate_append_left {front : Text} (hfront : ∀ c ∈ front, mayEscape c = false)
    (s : Text)
    : escapeTemplate (front ++ s) = front ++ escapeTemplate s := by
  induction front with
  | nil => rfl
  | cons c front ih =>
      rw [List.forall_mem_cons] at hfront
      rw [List.cons_append, escapeTemplate_cons, ih hfront.2, step_eq_cons hfront.1]
      rfl

/-- An escaped text stands for the text, whatever follows its backquote. The induction is over the
text.
-/
theorem readTemplate?_escapeTemplate {s : Text} (hs : '\r' ∉ s) (rest : Text)
    : readTemplate? (escapeTemplate s ++ '\x60' :: rest) = some (s.units, rest) := by
  induction s with
  | nil =>
      rw [escapeTemplate, List.foldr_nil, List.nil_append, readTemplate?]
      rfl
  | cons c s ih =>
      rw [List.mem_cons, not_or] at hs
      rw [escapeTemplate_cons, escapeTemplate.step]
      split
      · next hc =>
          have hspecial : c = '\\' ∨ c = '\x60' ∨ c = '$' := by
            simp only [Bool.or_eq_true, Bool.and_eq_true, decide_eq_true_eq] at hc
            exact hc.elim (fun h => h.elim .inl (.inr ∘ .inl)) fun h => .inr (.inr h.1)
          have hescape (t : Text) : readEscape? (c :: t) = some (Text.charUnits c, t) := by
            rcases hspecial with rfl | rfl | rfl <;> rfl
          rw [List.cons_append, readTemplate?, if_neg (by decide), if_pos rfl]
          split
          · next hnone =>
              rw [List.cons_append, hescape] at hnone
              cases hnone
          · next units left hsome =>
              rw [List.cons_append, hescape] at hsome
              cases hsome
              rw [ih hs.2]
              rfl
      · next hc =>
          simp only [Bool.or_eq_true, Bool.and_eq_true, decide_eq_true_eq, not_or] at hc
          have hbrace : ¬ (c = '$' ∧ (escapeTemplate s ++ '\x60' :: rest).head? = some '\x7b') := by
            rintro ⟨rfl, hhead⟩
            cases hs : escapeTemplate s with
            | nil =>
                rw [hs] at hhead
                cases hhead
            | cons d t => exact hc.2 ⟨rfl, by rwa [hs] at hhead ⊢⟩
          rw [List.cons_append, readTemplate?, if_neg hc.1.2, if_neg hc.1.1,
            if_neg (by simpa using hbrace), if_neg (Ne.symm hs.1), ih hs.2]
          rfl

-----------------------------------------------------------------------------------------
-- Lines of an escaped text
-----------------------------------------------------------------------------------------

/-- The pieces of an escaped text are those of the text, escaped, where no separator is part of an
escape. The induction is over the text.
-/
theorem splitOnChar_escapeTemplate {p : Char → Bool}
    (hp : ∀ c, p c → mayEscape c = false ∧ c ≠ '\x7b') (s : Text)
    : Text.splitOnChar p (escapeTemplate s) = (Text.splitOnChar p s).map escapeTemplate := by
  have hbackslash : p '\\' = false := by
    by_contra h
    cases (hp _ (Bool.not_eq_false _ ▸ h)).1
  have hbrace : p '\x7b' = false := by
    by_contra h
    exact (hp _ (Bool.not_eq_false _ ▸ h)).2 rfl
  induction s with
  | nil => rfl
  | cons c s ih =>
      cases hc : p c with
      | true =>
          rw [escapeTemplate_cons, step_eq_cons (hp c hc).1, Text.splitOnChar_separator hc,
            Text.splitOnChar_separator hc, ih]
          rfl
      | false =>
          have hpieces := Text.splitOnChar_cons hc s
          have hfirst : (escapeTemplate ((Text.splitOnChar p s).headD [])).head? = some '\x7b'
              ↔ (escapeTemplate s).head? = some '\x7b' := by
            rw [head?_escapeTemplate, head?_escapeTemplate, Text.headD_splitOnChar]
            cases s with
            | nil => rfl
            | cons d s =>
                cases hd : p d with
                | false => rw [List.takeWhile_cons_of_pos (by simp [hd])]; rfl
                | true =>
                    have : d ≠ '\x7b' := (hp d hd).2
                    rw [List.takeWhile_cons_of_neg (by simp [hd])]
                    simp [this]
          have hhead : (Text.splitOnChar p (escapeTemplate s)).headD []
              = escapeTemplate ((Text.splitOnChar p s).headD []) := by
            rw [ih]
            rfl
          obtain ⟨front, hfront, hstep⟩ := exists_step c (escapeTemplate s)
          have hneutral : ∀ d ∈ front ++ [c], p d = false := by
            intro d hd
            rcases List.mem_append.mp hd with hd | hd
            · rw [hfront d hd, hbackslash]
            · rw [List.mem_singleton.mp hd, hc]
          rw [hpieces, List.map_cons, escapeTemplate_cons, escapeTemplate_cons, hstep _ Iff.rfl,
            hstep _ hfirst, List.append_cons, Text.splitOnChar_append_left hneutral, hhead, ih]
          simp

theorem mayEscape_of_isBlank {c : Char} (h : Text.isBlank c) : mayEscape c = false := by
  rw [mayEscape, Bool.or_eq_false_iff, Bool.or_eq_false_iff]
  refine ⟨⟨?_, ?_⟩, ?_⟩ <;>
  · rw [beq_eq_false_iff_ne]
    rintro rfl
    exact absurd h (by decide)

theorem dropBlank_escapeTemplate (s : Text)
    : Text.dropBlank (escapeTemplate s) = escapeTemplate (Text.dropBlank s) := by
  induction s with
  | nil => rfl
  | cons c s ih =>
      unfold Text.dropBlank at ih ⊢
      rw [escapeTemplate_cons]
      by_cases hc : Text.isBlank c
      · rw [step_eq_cons (mayEscape_of_isBlank hc), List.dropWhile_cons_of_pos hc,
          List.dropWhile_cons_of_pos hc, ih]
      · rw [List.dropWhile_cons_of_neg hc, escapeTemplate_cons]
        obtain ⟨front, hfront, hstep⟩ := exists_step c (escapeTemplate s)
        rw [hstep _ Iff.rfl]
        cases front with
        | nil => exact List.dropWhile_cons_of_neg hc
        | cons d front =>
            rw [hfront d List.mem_cons_self]
            exact List.dropWhile_cons_of_neg (by decide)

/-- The last character of a text ends the escaped one. -/
theorem exists_escapeTemplate_concat (s : Text) (c : Char)
    : ∃ front, escapeTemplate (s ++ [c]) = front ++ [c] := by
  induction s with
  | nil =>
      obtain ⟨front, -, hstep⟩ := exists_step c []
      exact ⟨front, hstep _ Iff.rfl⟩
  | cons d s ih =>
      obtain ⟨behind, hbehind⟩ := ih
      obtain ⟨front, -, hstep⟩ := exists_step d (escapeTemplate (s ++ [c]))
      refine ⟨front ++ d :: behind, ?_⟩
      rw [List.cons_append, escapeTemplate_cons, hstep _ Iff.rfl, hbehind]
      simp

theorem rdropWhile_escapeTemplate (s : Text)
    : (escapeTemplate s).rdropWhile Text.isBlank = escapeTemplate (s.rdropWhile Text.isBlank) := by
  induction s using List.reverseRecOn with
  | nil => rfl
  | append_singleton s c ih =>
      by_cases hc : Text.isBlank c
      · have hbrace : [c].head? ≠ some '\x7b' := by
          rintro ⟨⟩
          exact absurd hc (by decide)
        have hself : escapeTemplate [c] = [c] :=
          @escapeTemplate_append_left [c] (by simpa using mayEscape_of_isBlank hc) []
        rw [escapeTemplate_append s hbrace, hself, List.rdropWhile_concat_pos _ _ _ hc,
          List.rdropWhile_concat_pos _ _ _ hc, ih]
      · obtain ⟨front, hfront⟩ := exists_escapeTemplate_concat s c
        rw [List.rdropWhile_concat_neg _ _ _ hc, hfront]
        exact List.rdropWhile_concat_neg _ _ _ hc

theorem trim_escapeTemplate (s : Text)
    : Text.trim (escapeTemplate s) = escapeTemplate (Text.trim s) := by
  rw [Text.trim_eq_rdropWhile, Text.trim_eq_rdropWhile, dropBlank_escapeTemplate,
    rdropWhile_escapeTemplate]

theorem isEmpty_escapeTemplate (s : Text) : (escapeTemplate s).isEmpty = s.isEmpty := by
  cases s with
  | nil => rfl
  | cons c s =>
      obtain ⟨front, -, hstep⟩ := exists_step c (escapeTemplate s)
      rw [escapeTemplate_cons, hstep _ Iff.rfl]
      cases front <;> rfl

theorem escapeTemplate_join (parts : List Text)
    : escapeTemplate (Text.join ['\n'] parts) = Text.join ['\n'] (parts.map escapeTemplate) := by
  induction parts with
  | nil => rfl
  | cons part parts ih =>
      by_cases hnil : parts = []
      · subst hnil
        rw [List.map_singleton, Text.join_singleton, Text.join_singleton]
      · rw [List.map_cons, Text.join_cons _ _ hnil, Text.join_cons _ _ (by simpa using hnil), ← ih]
        exact escapeTemplate_append part (t := '\n' :: Text.join ['\n'] parts) (by simp)

end SvgKit.Component

import SvgKit.Proofs.Number.Numeral
import SvgKit.Xml.Name

/-! The grammar of path data: commands with their arguments, which may follow each other without a
separator as long as they can be told apart. Every number is read as far as it reaches. A list of
numbers is what the arguments of a command look like that takes one number at a time.
-/

namespace SvgKit.PathData

-----------------------------------------------------------------------------------------
-- Reading
-----------------------------------------------------------------------------------------

/-- What stands at a place among the arguments of a command: a number, which may have a sign or not,
or a flag, which may have to stand apart from what is in front of it.
-/
inductive Slot where
  | magnitude
  | coordinate
  | flag (apart : Bool)
  deriving Repr, DecidableEq

/-- The arguments that commands take, with the letters of the commands. -/
def commands : List (List Char × List Slot) :=
  [(['M', 'm', 'L', 'l', 'T', 't'], [.coordinate, .coordinate]), (['Z', 'z'], []),
    (['H', 'h', 'V', 'v'], [.coordinate]),
    (['C', 'c'], List.replicate 6 .coordinate), (['S', 's', 'Q', 'q'], List.replicate 4 .coordinate),
    (['A', 'a'], [.magnitude, .magnitude, .coordinate, .flag true, .flag false, .coordinate,
      .coordinate])]

/-- The letters of all commands. -/
def commandLetters : List Char := commands.flatMap (·.1)

/-- The arguments that the command of a letter takes. -/
def slots? (c : Char) : Option (List Slot) :=
  (commands.find? fun entry => entry.1.contains c).map (·.2)

/-- What path data consist of. -/
inductive Item where
  | command (letter : Char)
  | number (n : Numeral)
  | flag (isSet : Bool)
  deriving Repr, DecidableEq

/-- An item and the separator in front of it. -/
structure Lexeme where
  separator : Text
  item : Item
  deriving Repr, DecidableEq

/-- A place in path data: the letters of commands that may stand there, the arguments that may be
given again, those that are still missing, and whether a command stands right in front.
-/
structure Place where
  letters : List Char
  arguments : List Slot
  missing : List Slot
  fresh : Bool
  deriving Repr, DecidableEq

/-- Path data begin with a command that moves to a point. -/
def Place.start : Place := ⟨['M', 'm'], [], [], true⟩

/-- A list of numbers has no commands. -/
def Place.list : Place := ⟨[], [.coordinate], [], true⟩

/-- The place behind a command. -/
def Place.command? (p : Place) (c : Char) : Option Place :=
  if p.missing.isEmpty && p.letters.contains c then
    (slots? c).map fun slots => ⟨commandLetters, slots, slots, true⟩
  else none

/-- The slot of the next argument, and the place behind it. -/
def Place.argument? (p : Place) : Option (Slot × Place) :=
  match if p.missing.isEmpty then p.arguments else p.missing with
  | slot :: missing => some (slot, ⟨p.letters, p.arguments, missing, false⟩)
  | [] => none

/-- White space, or a comma. -/
def isSeparator (c : Char) : Bool := Xml.isSpace c || c == ','

/-- The text may stand in front of an argument: white space, and behind another argument also one
comma; there it may not be empty if a flag has to stand apart.
-/
def Place.separates (p : Place) (slot : Slot) (separator : Text) : Bool :=
  if p.fresh then separator.count ',' = 0
  else separator.count ',' ≤ 1 && (slot ≠ .flag true || !separator.isEmpty)

/-- Reads a number. -/
def readNumber? (s : Text) : Option (Item × Text) :=
  (Numeral.read? s).map fun r => (.number r.1, r.2)

/-- Reads an argument. -/
def Slot.read? (slot : Slot) (s : Text) : Option (Item × Text) :=
  match slot, s with
  | .magnitude, s => if (Numeral.readSign s).2 = s then readNumber? s else none
  | .coordinate, s => readNumber? s
  | .flag _, '0' :: s => some (.flag false, s)
  | .flag _, '1' :: s => some (.flag true, s)
  | .flag _, _ => none

theorem readNumber?_eq_some_iff {s rest : Text} {item : Item}
    : readNumber? s = some (item, rest) ↔ ∃ n, item = .number n ∧ Numeral.read? s = some (n, rest) := by
  rw [readNumber?, Option.map_eq_some_iff]
  constructor
  · rintro ⟨⟨n, left⟩, hread, heq⟩
    cases heq
    exact ⟨n, rfl, hread⟩
  · rintro ⟨n, rfl, hread⟩
    exact ⟨_, hread, rfl⟩

/-- An argument is a flag or a numeral. -/
theorem Slot.read?_cases {slot : Slot} {s rest : Text} {item : Item}
    (h : slot.read? s = some (item, rest))
    : (∃ apart isSet, slot = .flag apart ∧ item = .flag isSet
        ∧ s = (if isSet then '1' else '0') :: rest)
      ∨ ∃ n, (slot = .coordinate ∨ slot = .magnitude ∧ (Numeral.readSign s).2 = s)
        ∧ item = .number n ∧ Numeral.read? s = some (n, rest) := by
  unfold Slot.read? at h
  split at h
  · split at h
    · next hsign =>
        obtain ⟨n, hn⟩ := readNumber?_eq_some_iff.mp h
        exact .inr ⟨n, .inr ⟨rfl, hsign⟩, hn⟩
    · cases h
  · obtain ⟨n, hn⟩ := readNumber?_eq_some_iff.mp h
    exact .inr ⟨n, .inl rfl, hn⟩
  · cases h
    exact .inl ⟨_, false, rfl, rfl, rfl⟩
  · cases h
    exact .inl ⟨_, true, rfl, rfl, rfl⟩
  · cases h

theorem Slot.read?_flag (apart isSet : Bool) (s : Text)
    : (Slot.flag apart).read? ((if isSet then '1' else '0') :: s) = some (.flag isSet, s) := by
  cases isSet <;> rfl

theorem Slot.read?_number {slot : Slot} {s rest : Text} {n : Numeral}
    (hslot : slot = .coordinate ∨ slot = .magnitude ∧ (Numeral.readSign s).2 = s)
    (h : Numeral.read? s = some (n, rest))
    : slot.read? s = some (.number n, rest) := by
  have hread := readNumber?_eq_some_iff.mpr ⟨n, rfl, h⟩
  rcases hslot with rfl | ⟨rfl, hsign⟩
  · exact hread
  · exact (if_pos hsign).trans hread

/-- Reads the item behind a separator, and moves on. -/
def Place.readItem? (p : Place) (separator : Text) : Text → Option ((Item × Place) × Text)
  | [] => none
  | c :: s =>
    match p.command? c with
    | some next => if separator.count ',' = 0 then some ((.command c, next), s) else none
    | none =>
      match p.argument? with
      | none => none
      | some (slot, next) =>
        if p.separates slot separator then
          (slot.read? (c :: s)).map fun r => ((r.1, next), r.2)
        else none

/-- Reading an argument leaves less than there was. -/
theorem length_of_read? {slot : Slot} {s rest : Text} {item : Item}
    (h : slot.read? s = some (item, rest))
    : rest.length < s.length := by
  rcases Slot.read?_cases h with ⟨_, isSet, -, -, rfl⟩ | ⟨n, -, -, hread⟩
  · exact Nat.lt_succ_self _
  · exact Numeral.length_read? hread

/-- Reading an item leaves less than there was. -/
theorem length_of_readItem? {p next : Place} {separator s rest : Text} {item : Item}
    (h : p.readItem? separator s = some ((item, next), rest))
    : rest.length < s.length := by
  unfold Place.readItem? at h
  split at h
  · cases h
  · split at h
    · split at h
      · cases h
        exact Nat.lt_succ_self _
      · cases h
    · split at h
      · cases h
      · split at h
        · obtain ⟨r, hr, heq⟩ := Option.map_eq_some_iff.mp h
          cases heq
          exact length_of_read? hr
        · cases h

/-- Reads all of a text from a place on. -/
def Place.read? (p : Place) (s : Text) : Option (List Lexeme) :=
  if (s.dropWhile isSeparator).isEmpty then
    if p.missing.isEmpty && s.count ',' = 0 then some [] else none
  else
    match _h : p.readItem? (s.takeWhile isSeparator) (s.dropWhile isSeparator) with
    | none => none
    | some ((item, next), rest) =>
      (next.read? rest).map (⟨s.takeWhile isSeparator, item⟩ :: ·)
termination_by s.length
decreasing_by
  exact (length_of_readItem? _h).trans_le (List.dropWhile_suffix _).length_le

/-- Reads path data; none when the text is no path data. -/
def read? (s : Text) : Option (List Lexeme) :=
  if s.all (·.val < 128) then Place.start.read? s else none

/-- Reads a list of numbers. -/
def readList? (s : Text) : Option (List Lexeme) :=
  if s.all (·.val < 128) then Place.list.read? s else none

-----------------------------------------------------------------------------------------
-- Characters
-----------------------------------------------------------------------------------------

theorem mem_commandLetters_of_slots? {c : Char} {slots : List Slot} (h : slots? c = some slots)
    : c ∈ commandLetters := by
  obtain ⟨entry, hentry, -⟩ := Option.map_eq_some_iff.mp h
  have hc : entry.1.contains c := List.find?_some (p := fun entry : List Char × List Slot => entry.1.contains c) hentry
  exact List.mem_flatMap.mpr
    ⟨entry, List.mem_of_find?_eq_some hentry, List.contains_iff_mem.mp hc⟩

/-- Commands are letters, and neither separators nor parts of numerals. -/
theorem of_mem_commandLetters {c : Char} (h : c ∈ commandLetters)
    : c.isAlpha ∧ isSeparator c = false ∧ Numeral.isNumeralChar c = false := by
  have hall : ∀ c ∈ commandLetters, c.isAlpha ∧ isSeparator c = false
      ∧ Numeral.isNumeralChar c = false :=
    List.all_iff_forall_prop.mp (by decide)
  exact hall c h

/-- No separator is part of a numeral. -/
theorem isSeparator_of_isNumeralChar {c : Char} (h : Numeral.isNumeralChar c) : isSeparator c = false := by
  by_contra hseparator
  have hmem : c ∈ [' ', '\t', '\n', '\r', ','] := by
    rw [Bool.not_eq_false, isSeparator, Xml.isSpace] at hseparator
    simpa only [List.mem_cons, List.not_mem_nil, or_false, Bool.or_eq_true, beq_iff_eq, or_assoc]
      using hseparator
  have hnone : ∀ c ∈ [' ', '\t', '\n', '\r', ','], Numeral.isNumeralChar c = false :=
    List.all_iff_forall_prop.mp (by decide)
  rw [hnone c hmem] at h
  cases h

-----------------------------------------------------------------------------------------
-- Arguments
-----------------------------------------------------------------------------------------

section Arguments

variable {slot : Slot} {item : Item} {text rest out : Text}

theorem Slot.exists_of_read? {s : Text} (h : slot.read? s = some (item, rest))
    : ∃ text, s = text ++ rest := by
  rcases Slot.read?_cases h with ⟨_, isSet, -, -, heq⟩ | ⟨n, -, -, hread⟩
  · exact ⟨[_], heq⟩
  · obtain ⟨text, htext, -⟩ := Numeral.exists_of_read? hread
    exact ⟨text, htext⟩

theorem Slot.ne_nil_of_read? (h : slot.read? (text ++ rest) = some (item, rest)) : text ≠ [] := by
  rintro rfl
  exact absurd (length_of_read? h) (Nat.lt_irrefl _)

theorem Slot.isNumeralText_of_read? (h : slot.read? (text ++ rest) = some (item, rest))
    : Numeral.IsNumeralText text := by
  rcases Slot.read?_cases h with ⟨_, isSet, -, -, heq⟩ | ⟨n, -, -, hread⟩
  · obtain rfl := List.append_cancel_right (heq.trans (List.singleton_append).symm)
    refine Numeral.isNumeralText_of_isDigit (List.forall_mem_singleton.mpr ?_)
    cases isSet <;> decide
  · exact Numeral.isNumeralText_of_read? hread

/-- An argument is read alike in front of texts that end it alike. -/
theorem Slot.read?_append (hends : Numeral.EndsAlike rest out)
    (h : slot.read? (text ++ rest) = some (item, rest))
    : slot.read? (text ++ out) = some (item, out) := by
  rcases Slot.read?_cases h with ⟨_, isSet, rfl, rfl, heq⟩ | ⟨n, hslot, rfl, hread⟩
  · obtain rfl := List.append_cancel_right (heq.trans (List.singleton_append).symm)
    exact Slot.read?_flag _ _ _
  · refine Slot.read?_number (hslot.imp_right fun hsign => ⟨hsign.1, ?_⟩)
      (Numeral.read?_append hends hread)
    have hsign := hsign.2
    rw [Numeral.readSign_append (Slot.ne_nil_of_read? h)] at hsign ⊢
    rw [List.append_cancel_right hsign]

end Arguments

-----------------------------------------------------------------------------------------
-- Steps
-----------------------------------------------------------------------------------------

/-- What is read at a place behind a separator, in front of the rest of a text: a command or an
argument.
-/
inductive Place.Takes (p : Place) (separator : Text)
    : Item → Place → (text rest : Text) → Prop where
  | command {c : Char} {next : Place} {rest : Text} (h : p.command? c = some next)
      (hseparator : separator.count ',' = 0) : Takes p separator (.command c) next [c] rest
  | argument {slot : Slot} {next : Place} {item : Item} {text rest : Text}
      (h : p.argument? = some (slot, next)) (hseparator : p.separates slot separator)
      (hread : slot.read? (text ++ rest) = some (item, rest)) : Takes p separator item next text rest

section Steps

variable {p next : Place} {separator text rest s : Text} {item : Item} {lexeme : Lexeme}
  {more : List Lexeme}

theorem Place.mem_of_command? {c : Char} (h : p.command? c = some next)
    : c ∈ p.letters ∧ c ∈ commandLetters := by
  unfold Place.command? at h
  split at h
  · next hc =>
      rw [Bool.and_eq_true, List.contains_iff_mem] at hc
      obtain ⟨slots, hslots, -⟩ := Option.map_eq_some_iff.mp h
      exact ⟨hc.2, mem_commandLetters_of_slots? hslots⟩
  · cases h

theorem Place.fresh_of_command? {c : Char} (h : p.command? c = some next) : next.fresh = true := by
  unfold Place.command? at h
  split at h
  · obtain ⟨slots, -, rfl⟩ := Option.map_eq_some_iff.mp h
    rfl
  · cases h

theorem Place.fresh_of_argument? {slot : Slot} (h : p.argument? = some (slot, next))
    : next.fresh = false := by
  unfold Place.argument? at h
  split at h
  · cases h
    rfl
  · cases h

theorem Place.letters_of_argument? {slot : Slot} (h : p.argument? = some (slot, next))
    : next.letters = p.letters := by
  unfold Place.argument? at h
  split at h
  · cases h
    rfl
  · cases h

/-- No separator is part of what is read at a place, and there is something. -/
theorem Place.Takes.ne_nil (h : p.Takes separator item next text rest)
    : text ≠ [] ∧ ∀ c ∈ text, isSeparator c = false := by
  cases h with
  | command h _ =>
      refine ⟨List.cons_ne_nil _ _, List.forall_mem_singleton.mpr ?_⟩
      exact (of_mem_commandLetters (Place.mem_of_command? h).2).2.1
  | argument _ _ hread =>
      exact ⟨Slot.ne_nil_of_read? hread,
        fun c hc => isSeparator_of_isNumeralChar ((Slot.isNumeralText_of_read? hread).isNumeralChar c hc)⟩

theorem Place.takes_of_readItem? (h : p.readItem? separator s = some ((item, next), rest))
    : ∃ text, s = text ++ rest ∧ p.Takes separator item next text rest := by
  unfold Place.readItem? at h
  split at h
  · cases h
  · next c s =>
      split at h
      · next hcommand =>
          split at h
          · next hseparator =>
              cases h
              exact ⟨[c], rfl, .command hcommand hseparator⟩
          · cases h
      · split at h
        · cases h
        · next slot _ hargument =>
            split at h
            · next hseparator =>
                obtain ⟨⟨_, left⟩, hread, heq⟩ := Option.map_eq_some_iff.mp h
                cases heq
                obtain ⟨text, htext⟩ := Slot.exists_of_read? hread
                rw [htext] at hread
                exact ⟨text, htext, .argument hargument hseparator hread⟩
            · cases h

theorem Place.readItem?_of_takes (h : p.Takes separator item next text rest)
    : p.readItem? separator (text ++ rest) = some ((item, next), rest) := by
  cases h with
  | command h hseparator =>
      rw [List.singleton_append, Place.readItem?, h]
      exact if_pos hseparator
  | argument h hseparator hread =>
      obtain ⟨c, text, rfl⟩ := List.exists_cons_of_ne_nil (Slot.ne_nil_of_read? hread)
      have hnone : p.command? c = none := by
        cases hcommand : p.command? c with
        | none => rfl
        | some next =>
            have hnot := (of_mem_commandLetters (Place.mem_of_command? hcommand).2).2.2
            rw [(Slot.isNumeralText_of_read? hread).isNumeralChar c List.mem_cons_self] at hnot
            cases hnot
      rw [List.cons_append] at hread ⊢
      rw [Place.readItem?, hnone, h]
      dsimp only
      rw [if_pos hseparator, hread]
      rfl

/-- What a text is read as begins with what is read at its place, and goes on with what the rest is
read as.
-/
theorem Place.read?_eq_cons_iff
    : p.read? s = some (lexeme :: more)
      ↔ ∃ next text rest, s = lexeme.separator ++ (text ++ rest)
        ∧ (∀ c ∈ lexeme.separator, isSeparator c) ∧ p.Takes lexeme.separator lexeme.item next text rest
        ∧ next.read? rest = some more := by
  constructor
  · intro h
    rw [Place.read?] at h
    split at h
    · split at h <;> cases h
    · split at h
      · cases h
      · next item next rest hitem =>
          obtain ⟨more', hmore, heq⟩ := Option.map_eq_some_iff.mp h
          cases heq
          obtain ⟨text, htext, htakes⟩ := Place.takes_of_readItem? hitem
          refine ⟨next, text, rest, ?_, fun c hc => List.mem_takeWhile_imp hc, htakes, hmore⟩
          rw [← htext]
          exact List.takeWhile_append_dropWhile.symm
  · rintro ⟨next, text, rest, rfl, hseparator, htakes, hmore⟩
    obtain ⟨hne, htext⟩ := htakes.ne_nil
    have hstops : Stops isSeparator (text ++ rest) := by
      obtain ⟨c, text, rfl⟩ := List.exists_cons_of_ne_nil hne
      rintro _ ⟨⟩
      exact htext _ List.mem_cons_self
    have hnonempty : (text ++ rest).isEmpty = false := by simp [hne]
    have hitem := Place.readItem?_of_takes htakes
    rw [Place.read?, takeWhile_append_stops hseparator hstops,
      dropWhile_append_stops hseparator hstops, if_neg (by simp [hne])]
    split
    · next hnone =>
        rw [hitem] at hnone
        cases hnone
    · next heq =>
        rw [hitem] at heq
        cases heq
        rw [hmore]
        rfl

/-- Nothing is read where nothing is missing, in white space. -/
theorem Place.read?_eq_nil_iff
    : p.read? s = some []
      ↔ p.missing = [] ∧ (∀ c ∈ s, isSeparator c) ∧ s.count ',' = 0 := by
  rw [Place.read?]
  split
  · next hempty =>
      have hall : ∀ c ∈ s, isSeparator c :=
        List.dropWhile_eq_nil_iff.mp (List.isEmpty_iff.mp hempty)
      split
      · next hend =>
          rw [Bool.and_eq_true, List.isEmpty_iff, decide_eq_true_eq] at hend
          exact iff_of_true rfl ⟨hend.1, hall, hend.2⟩
      · next hend =>
          rw [Bool.and_eq_true, List.isEmpty_iff, decide_eq_true_eq] at hend
          exact iff_of_false (by simp) fun h => hend ⟨h.1, h.2.2⟩
  · next hne =>
      refine iff_of_false (fun h => ?_) fun h => hne ?_
      · split at h
        · cases h
        · obtain ⟨_, _, heq⟩ := Option.map_eq_some_iff.mp h
          cases heq
      · rw [List.isEmpty_iff]
        exact List.dropWhile_eq_nil_iff.mpr h.2.1

end Steps

end SvgKit.PathData

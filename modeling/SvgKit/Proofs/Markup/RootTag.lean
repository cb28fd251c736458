import SvgKit.Markup.Root
import SvgKit.Proofs.Markup.Regular
import SvgKit.Proofs.Text.Scanning

/-! The start tag of a root. It has a rule of its own for bare values, which makes no difference
where the tag ends as it should: its attributes are those that any tag with the same text has, and
each of them is found again in the text of all.
-/

namespace SvgKit.Markup

-----------------------------------------------------------------------------------------
-- Bare values
-----------------------------------------------------------------------------------------

theorem spanAhead_cons (p : Char → Text → Bool) (c : Char) (s : Text)
    : Text.spanAhead p (c :: s)
      = if p c s then (c :: (Text.spanAhead p s).1, (Text.spanAhead p s).2) else ([], c :: s) := by
  have hgo (s done : Text) : Text.spanAhead.go p done s
      = (done.reverse ++ (Text.spanAhead p s).1, (Text.spanAhead p s).2) := by
    unfold Text.spanAhead
    induction s generalizing done with
    | nil => simp [Text.spanAhead.go]
    | cons c s ih =>
        unfold Text.spanAhead.go
        split
        · rw [ih, ih [c]]
          simp
        · simp
  conv_lhs => unfold Text.spanAhead Text.spanAhead.go
  split
  · exact hgo s [c]
  · rfl

/-- A bare value of a root that does not end at a slash is one of any tag, by induction over the
text.
-/
theorem spanAhead_bareInTag_eq {s : Text}
    (h : (Text.spanAhead bareInRoot s).2.head? ≠ some '/')
    : Text.spanAhead bareInTag s = Text.spanAhead bareInRoot s := by
  induction s with
  | nil => rfl
  | cons c s ih =>
      rw [spanAhead_cons] at h
      rw [spanAhead_cons, spanAhead_cons]
      cases hc : bareInRoot c s with
      | true =>
          have htag : bareInTag c s := (Bool.and_eq_true_iff.mp hc).1
          rw [hc, if_pos rfl] at h
          rw [htag, if_pos rfl, if_pos rfl, ih h]
      | false =>
          rw [hc, if_neg Bool.false_ne_true] at h
          have hslash : c ≠ '/' := fun heq => h (congrArg some heq)
          have htag : bareInTag c s = false := by simpa [bareInRoot, bareInTag, hslash] using hc
          rw [htag, if_neg Bool.false_ne_true, if_neg Bool.false_ne_true]

/-- A bare value of a tag is one of a root unless it ends with a slash in front of a bracket. The
induction is over the text.
-/
theorem spanAhead_bareInRoot_eq {s : Text}
    (h : (Text.spanAhead bareInTag s).2.head? = some '>' →
      (Text.spanAhead bareInTag s).1.getLast? ≠ some '/')
    : Text.spanAhead bareInRoot s = Text.spanAhead bareInTag s := by
  have hbracket : bareInTag '>' = fun _ => false := rfl
  induction s with
  | nil => rfl
  | cons c s ih =>
      rw [spanAhead_cons] at h
      rw [spanAhead_cons, spanAhead_cons]
      cases hc : bareInTag c s with
      | true =>
          rw [hc, if_pos rfl] at h
          have hslash : ¬ (c = '/' ∧ s.head? = some '>') := by
            rintro ⟨rfl, hhead⟩
            obtain ⟨s, rfl⟩ := List.head?_eq_some_iff.mp hhead
            rw [spanAhead_cons, hbracket] at h
            exact h rfl rfl
          have hroot : bareInRoot c s := by
            rw [bareInTag] at hc
            simpa [bareInRoot, hc, ← Decidable.not_and_iff_or_not] using hslash
          rw [hroot, if_pos rfl, if_pos rfl]
          refine congrArg (fun read => (c :: read.1, read.2)) (ih fun hhead hlast => ?_)
          obtain ⟨front, hfront⟩ := List.getLast?_eq_some_iff.mp hlast
          refine h hhead ?_
          rw [hfront, ← List.cons_append, List.getLast?_concat]
      | false =>
          have hroot : bareInRoot c s = false := by
            rw [bareInTag] at hc
            simp [bareInRoot, hc]
          rw [hroot, if_neg Bool.false_ne_true, if_neg Bool.false_ne_true]

section Readers

variable {bare bare' : Char → Text → Bool} {s rest : Text}

/-- Values are read by one rule if they are read by another one that stops at the same places. -/
theorem readValue?_congr {value : Text}
    (hspan : Text.spanAhead bare s = (value, rest) →
      Text.spanAhead bare' s = Text.spanAhead bare s)
    (h : readValue? bare s = some (value, rest))
    : readValue? bare' s = some (value, rest) := by
  cases s with
  | nil => cases h
  | cons c s =>
      rw [readValue?] at h ⊢
      split at h
      · next hquote => rw [if_pos hquote, h]
      · next hquote =>
          rw [if_neg hquote]
          dsimp only at h ⊢
          split at h
          · cases h
          · next hne =>
              obtain ⟨rfl, rfl⟩ := Prod.mk.inj (Option.some.inj h)
              rw [hspan rfl, if_neg hne]

/-- So are attributes, where nothing is left to assign behind them. -/
theorem readAttribute?_congr {a : Attribute}
    (hvalue : ∀ {s equals value}, a.value = some (equals, value) →
      readValue? bare s = some (value, rest) → readValue? bare' s = some (value, rest))
    (hrest : AssignsNothing rest) (h : readAttribute? bare s = some (a, rest))
    : readAttribute? bare' s = some (a, rest) := by
  unfold readAttribute? at h ⊢
  dsimp only at h ⊢
  split at h
  · cases h
  · next hne =>
      rw [if_neg hne]
      split at h
      · next assigned left hassigned =>
          cases h
          unfold readAssigned? at hassigned ⊢
          split at hassigned
          · cases hassigned
          · next equals behind hequals =>
              obtain ⟨⟨value, left⟩, hread, heq⟩ := Option.map_eq_some_iff.mp hassigned
              cases heq
              simp only [hvalue rfl hread, Option.map_some]
      · cases h
        rw [readAssigned?_eq_none hrest.head?]

end Readers

theorem readAttribute?_bareInTag {s rest : Text} {a : Attribute} (hslash : rest.head? ≠ some '/')
    (hrest : AssignsNothing rest) (h : readAttribute? bareInRoot s = some (a, rest))
    : readAttribute? bareInTag s = some (a, rest) :=
  readAttribute?_congr
    (fun _ => readValue?_congr fun heq => spanAhead_bareInTag_eq (by rwa [heq])) hrest h

theorem readAttribute?_bareInRoot {s rest : Text} {a : Attribute}
    (hslash : rest.head? = some '>' → ∀ assigned ∈ a.value, assigned.2.getLast? ≠ some '/')
    (hrest : AssignsNothing rest) (h : readAttribute? bareInTag s = some (a, rest))
    : readAttribute? bareInRoot s = some (a, rest) :=
  readAttribute?_congr
    (fun hvalue => readValue?_congr fun heq => spanAhead_bareInRoot_eq (by
      rw [heq]
      exact fun hhead => hslash hhead _ hvalue)) hrest h

-----------------------------------------------------------------------------------------
-- The attributes of a root tag
-----------------------------------------------------------------------------------------

/-- Attributes that are read of a root are read of any tag, if neither a slash nor an equals sign is
left behind them. The induction follows the reading; in front of an attribute stand blanks.
-/
theorem readAttributesAfter_bareInTag (done : List (Text × Attribute)) (s : Text)
    (hslash : (readAttributesAfter bareInRoot done s).2.head? ≠ some '/')
    (hrest : AssignsNothing (readAttributesAfter bareInRoot done s).2)
    : readAttributesAfter bareInTag done s = readAttributesAfter bareInRoot done s
      ∧ s.head? ≠ some '/' ∧ AssignsNothing s := by
  fun_induction readAttributesAfter bareInRoot done s with
  | case1 done s blanks hempty =>
      rw [List.isEmpty_iff] at hempty
      exact ⟨by rw [readAttributesAfter_eq, if_pos hempty], hslash, hrest⟩
  | case2 done s blanks hne a rest hread ih =>
      rw [List.isEmpty_iff] at hne
      obtain ⟨hsame, hslash, hrest⟩ := ih hslash hrest
      refine ⟨?_, ?_, ?_⟩
      · rw [readAttributesAfter_eq, if_neg hne, readAttribute?_bareInTag hslash hrest hread]
        exact hsame
      · intro hhead
        obtain ⟨s, rfl⟩ := List.head?_eq_some_iff.mp hhead
        exact hne (List.takeWhile_cons_of_neg (by decide))
      · have hname := eq_of_readAttribute? hread
        have hends := endsBefore_of_readAttribute? (readAttribute?_bareInTag hslash hrest hread)
        rw [AssignsNothing, hname]
        exact hends.stops (fun _ hc => ne_equals_of_isNameChar hc) _
  | case3 done s blanks hne hread =>
      rw [List.isEmpty_iff] at hne
      refine ⟨?_, hslash, hrest⟩
      have hempty : (s.dropWhile Text.isBlank).takeWhile isNameChar = [] := by
        by_contra hname
        unfold readAttribute? at hread
        dsimp only at hread
        rw [if_neg (by simpa using hname)] at hread
        split at hread <;> cases hread
      have hnone : readAttribute? bareInTag (s.dropWhile Text.isBlank) = none := by
        rw [readAttribute?, hempty]
        rfl
      rw [readAttributesAfter_eq, if_neg hne, hnone]

/-- Only whether a value goes on matters of what stands behind it. -/
theorem IsValue.of_stops {behind behind' value : Text} (h : IsValue behind value)
    (hstops : Stops isBareChar behind')
    : IsValue behind' value := by
  cases h with
  | quoted hquote hbody => exact .quoted hquote hbody
  | bare hne hchars => exact .bare hne hchars hstops

/-- Only whether a value goes on matters of what stands behind an attribute. -/
theorem Attribute.EndsBefore.of_stops {a : Attribute} {behind behind' : Text}
    (h : a.EndsBefore behind) (hstops : Stops isBareChar behind')
    : a.EndsBefore behind' := by
  refine ⟨h.notEmpty, h.name, fun _ c hc => ?_, fun assigned hassigned => ?_⟩
  · by_contra hname
    rw [Bool.not_eq_false] at hname
    exact absurd (isBareChar_of_isNameChar hname) (by simp [hstops c hc])
  · obtain ⟨hequals, hvalue⟩ := h.assigned assigned hassigned
    exact ⟨hequals, hvalue.of_stops hstops⟩

section AreRead

variable {behind : Text} {attributes : List (Text × Attribute)}

theorem AreRead.forall_endsBefore (h : AreRead behind attributes)
    : ∀ a ∈ attributes, a.2.EndsBefore [] := by
  have hnil : Stops isBareChar [] := by simp [Stops]
  induction h with
  | nil => simp
  | cons _ _ ha _ ih => exact List.forall_mem_cons.mpr ⟨ha.of_stops hnil, ih⟩

theorem AreRead.forall_blanks (h : AreRead behind attributes)
    : ∀ a ∈ attributes, a.1 ≠ [] ∧ ∀ c ∈ a.1, Text.isBlank c := by
  induction h with
  | nil => simp
  | cons hne hblanks _ _ ih => exact List.forall_mem_cons.mpr ⟨⟨hne, hblanks⟩, ih⟩

/-- Attributes stand in front of a text if blanks stand in front of each, whatever blanks they
are.
-/
theorem areRead_of_forall (hbehind : Stops isBareChar behind)
    (hblanks : ∀ a ∈ attributes, a.1 ≠ [] ∧ ∀ c ∈ a.1, Text.isBlank c)
    (hends : ∀ a ∈ attributes, a.2.EndsBefore [])
    : AreRead behind attributes := by
  induction attributes with
  | nil => exact .nil
  | cons a attributes ih =>
      rw [List.forall_mem_cons] at hblanks hends
      refine .cons hblanks.1.1 hblanks.1.2 (hends.1.of_stops ?_) (ih hblanks.2 hends.2)
      cases attributes with
      | nil => exact hbehind
      | cons next attributes =>
          obtain ⟨⟨hne, hnext⟩, -⟩ := List.forall_mem_cons.mp hblanks.2
          obtain ⟨c, blanks, hcons⟩ := List.exists_cons_of_ne_nil hne
          rw [attributesText_cons, hcons]
          rintro _ ⟨⟩
          by_contra hbare
          rw [Bool.not_eq_false] at hbare
          have := hnext c (by simp [hcons])
          rw [isBlank_of_isBareChar hbare] at this
          cases this

/-- Behind attributes that end a text nothing is assigned. -/
theorem AreRead.assignsNothing (h : AreRead [] attributes)
    : AssignsNothing (attributesText attributes) := by
  cases h with
  | nil => simp [AssignsNothing, Stops, attributesText]
  | @cons blanks a attributes hne hblanks ha h =>
      have hstops := ha.stops (fun _ hc => isBlank_of_isNameChar hc) (attributesText attributes)
      rw [attributesText_cons, AssignsNothing, dropWhile_append_stops hblanks hstops]
      exact ha.stops (fun _ hc => ne_equals_of_isNameChar hc) _

end AreRead

-----------------------------------------------------------------------------------------
-- The text of the attributes
-----------------------------------------------------------------------------------------

theorem findAll_blanks {blanks : Text} (hblanks : ∀ c ∈ blanks, Text.isBlank c) (s : Text)
    : attributeScanner.findAll (blanks ++ s) = attributeScanner.findAll s := by
  induction blanks with
  | nil => rfl
  | cons c blanks ih =>
      rw [List.forall_mem_cons] at hblanks
      have hstops : Stops isNameChar (c :: (blanks ++ s)) := by
        rintro _ ⟨⟩
        by_contra hname
        rw [Bool.not_eq_false] at hname
        rw [isBlank_of_isNameChar hname] at hblanks
        cases hblanks.1
      have hnone : attributeScanner.read (c :: (blanks ++ s)) = none :=
        @readAttribute?_eq_none bareInRoot _ hstops
      rw [List.cons_append, attributeScanner.findAll_of_read_none hnone, ih hblanks.2]

/-- Attributes are found in their text, by induction over them. -/
theorem AreRead.findAll {attributes : List (Text × Attribute)} (h : AreRead [] attributes)
    : attributeScanner.findAll (attributesText attributes) = attributes.map Prod.snd := by
  generalize hbehind : ([] : Text) = behind at h
  induction h with
  | nil => exact attributeScanner.findAll_nil
  | @cons blanks a attributes hne hblanks ha h ih =>
      subst hbehind
      rw [List.append_nil] at ha
      have hbracket : (attributesText attributes).head? ≠ some '>' := by
        cases h with
        | nil => simp [attributesText]
        | @cons blanks' a' attributes' hne' hblanks' =>
            obtain ⟨c, blanks', rfl⟩ := List.exists_cons_of_ne_nil hne'
            rw [attributesText_cons]
            intro hhead
            cases hhead
            exact absurd (hblanks' _ List.mem_cons_self) (by decide)
      have hread : attributeScanner.read (a.text ++ attributesText attributes)
          = some (a, attributesText attributes) :=
        readAttribute?_bareInRoot (fun hhead => absurd hhead hbracket) h.assignsNothing
          (ha.readAttribute? h.assignsNothing)
      rw [attributesText_cons, findAll_blanks hblanks, attributeScanner.findAll_of_read hread,
        ih]
      rfl

theorem Attribute.EndsBefore.exists_last {a : Attribute} (h : a.EndsBefore [])
    : ∃ front d, a.text = front ++ [d] ∧ Text.isBlank d = false := by
  have hlast {s : Text} (hne : s ≠ []) (hs : ∀ c ∈ s, Text.isBlank c = false)
      : ∃ front d, s = front ++ [d] ∧ Text.isBlank d = false :=
    ⟨s.dropLast, s.getLast hne, (List.dropLast_append_getLast hne).symm,
      hs _ (List.getLast_mem hne)⟩
  obtain ⟨name, value⟩ := a
  cases value with
  | none => exact hlast h.notEmpty fun c hc => isBlank_of_isNameChar (h.name c hc)
  | some assigned =>
      obtain ⟨-, hvalue⟩ := h.assigned assigned rfl
      obtain ⟨front, d, heq, hd⟩ :
          ∃ front d, assigned.2 = front ++ [d] ∧ Text.isBlank d = false := by
        generalize assigned.2 = value at hvalue
        cases hvalue with
        | @quoted quote body hquote =>
            exact ⟨quote :: body, quote, rfl, by rcases hquote with rfl | rfl <;> decide⟩
        | bare hne hchars => exact hlast hne fun c hc => isBlank_of_isBareChar (hchars c hc)
      exact ⟨name ++ assigned.1 ++ front, d, by simp [Attribute.text, heq], hd⟩

/-- No blanks stand behind the last attribute. -/
theorem AreRead.trim_eq {attributes : List (Text × Attribute)} (h : AreRead [] attributes)
    : Text.trim (attributesText attributes) = Text.dropBlank (attributesText attributes) := by
  by_cases hnil : attributes = []
  · subst hnil
    rfl
  · obtain ⟨front, a, rfl⟩ : ∃ front a, attributes = front ++ [a] :=
      ⟨_, _, (List.dropLast_append_getLast hnil).symm⟩
    obtain ⟨s, d, htext, hd⟩ := (h.forall_endsBefore a (by simp)).exists_last
    have hsplit : attributesText (front ++ [a]) = (attributesText front ++ a.1 ++ s) ++ [d] := by
      simp [attributesText, htext]
    obtain ⟨s', hs'⟩ : ∃ s', Text.dropBlank (attributesText (front ++ [a])) = s' ++ [d] := by
      refine ⟨Text.dropBlank (attributesText front ++ a.1 ++ s), ?_⟩
      rw [hsplit, Text.dropBlank, Text.dropBlank, List.dropWhile_append]
      split
      · next hempty =>
          rw [List.isEmpty_iff.mp hempty, List.dropWhile_cons_of_neg (by simp [hd])]
          rfl
      · rfl
    rw [Text.trim_eq_rdropWhile, hs']
    exact List.rdropWhile_concat_neg Text.isBlank s' d (by simp [hd])

/-- The text of the attributes is split into them again. -/
theorem AreRead.splitAttributes {attributes : List (Text × Attribute)} (h : AreRead [] attributes)
    : splitAttributes (Text.trim (attributesText attributes))
      = attributes.map fun a => RootAttribute.ofAttribute a.2 := by
  have hblanks : ∀ c ∈ (attributesText attributes).takeWhile Text.isBlank, Text.isBlank c :=
    fun _ hc => List.mem_takeWhile_imp hc
  have hfound := findAll_blanks hblanks (Text.dropBlank (attributesText attributes))
  rw [Text.dropBlank, List.takeWhile_append_dropWhile, h.findAll] at hfound
  rw [Markup.splitAttributes, h.trim_eq, Text.dropBlank, ← hfound, List.map_map]
  rfl

-----------------------------------------------------------------------------------------
-- The root of a text
-----------------------------------------------------------------------------------------

/-- A root is what its first tag and its last end tag leave. -/
theorem ofText_eq_ok_iff {s : Text} {root : Root}
    : Root.ofText s = .ok root
      ↔ ∃ afterName text behind, findRoot? s = some afterName
        ∧ readRootTag? afterName = some (text, behind)
        ∧ beforeLastEnd? [] none behind = some root.content
        ∧ root.attributes = Text.trim text
        ∧ root.attributeList = splitAttributes (Text.trim text) := by
  constructor
  · intro h
    unfold Root.ofText at h
    split at h
    · cases h
    · next afterName hfind =>
        split at h
        · cases h
        · next text behind hread =>
            split at h
            · cases h
            · next content hcontent =>
                cases h
                exact ⟨afterName, text, behind, hfind, hread, hcontent, rfl, rfl⟩
  · obtain ⟨attributes, content, attributeList⟩ := root
    rintro ⟨afterName, text, behind, hfind, hread, hcontent, rfl, rfl⟩
    unfold Root.ofText
    rw [hfind]
    dsimp only
    rw [hread]
    dsimp only
    rw [hcontent]

theorem exists_of_readRootTag? {s text behind : Text} (h : readRootTag? s = some (text, behind))
    : ∃ blanks, (readAttributes bareInRoot s).2 = blanks ++ '>' :: behind
      ∧ (∀ c ∈ blanks, Text.isBlank c) ∧ text = attributesText (readAttributes bareInRoot s).1 := by
  unfold readRootTag? at h
  dsimp only at h
  split at h
  · next hbehind =>
      cases h
      refine ⟨(readAttributes bareInRoot s).2.takeWhile Text.isBlank, ?_,
        fun _ hc => List.mem_takeWhile_imp hc, rfl⟩
      rw [← hbehind]
      exact List.takeWhile_append_dropWhile.symm
  · cases h

/-- What is read as the attributes of the root is read in front of blanks and of the end of the
tag.
-/
theorem areRead_readAttributes {s blanks behind : Text}
    (hrest : (readAttributes bareInRoot s).2 = blanks ++ '>' :: behind)
    (hblanks : ∀ c ∈ blanks, Text.isBlank c)
    : AreRead (blanks ++ '>' :: behind) (readAttributes bareInRoot s).1 := by
  have hslash : (blanks ++ '>' :: behind).head? ≠ some '/' := by
    cases blanks with
    | nil => simp
    | cons c blanks =>
        intro hhead
        cases hhead
        exact absurd (hblanks '/' List.mem_cons_self) (by decide)
  have hnothing : AssignsNothing (blanks ++ '>' :: behind) := by
    have hstops : Stops Text.isBlank ('>' :: behind) := by
      rintro _ ⟨⟩
      decide
    rw [AssignsNothing, dropWhile_append_stops hblanks hstops]
    simp [Stops]
  have hsame := (readAttributesAfter_bareInTag [] s
    (by rwa [← readAttributes, hrest]) (by rwa [← readAttributes, hrest])).1
  obtain ⟨attributes, hattributes, hdone, -⟩ := exists_areRead [] s
  rw [hsame, ← readAttributes, hrest] at hattributes
  rw [hsame, ← readAttributes, List.reverse_nil, List.nil_append] at hdone
  rwa [hdone]

/-- Behind the first `<svg` of a text that has a root stand the attributes of the root, each behind
blanks and with nothing between them, and then the end of the tag.
-/
theorem exists_areRead_of_ofText {s : Text} {root : Root} (h : Root.ofText s = .ok root)
    : ∃ attributes blanks behind,
      findRoot? s = some (attributesText attributes ++ (blanks ++ '>' :: behind))
      ∧ (∀ c ∈ blanks, Text.isBlank c) ∧ AreRead (blanks ++ '>' :: behind) attributes
      ∧ root.attributeList = attributes.map fun a => RootAttribute.ofAttribute a.2 := by
  obtain ⟨afterName, text, behind, hfind, htag, -, -, hlist⟩ := ofText_eq_ok_iff.mp h
  obtain ⟨blanks, hrest, hblanks, rfl⟩ := exists_of_readRootTag? htag
  have hread := areRead_readAttributes hrest hblanks
  have hsplit := readAttributes_append bareInRoot afterName
  rw [hrest] at hsplit
  have hnil : AreRead [] (readAttributes bareInRoot afterName).1 :=
    areRead_of_forall (by simp [Stops]) hread.forall_blanks hread.forall_endsBefore
  exact ⟨_, blanks, behind, by rw [hsplit, hfind], hblanks, hread, hlist.trans hnil.splitAttributes⟩

end SvgKit.Markup

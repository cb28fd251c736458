import SvgKit.Markup.Root
import SvgKit.Proofs.Markup.Renaming
import SvgKit.Proofs.Minify.NormalForm
import SvgKit.Proofs.Text.Searching

/-! Where the root is found in the text of a tree: it is the first element that is written as
`svg`, and it is taken apart if it has content.
-/

namespace SvgKit.Markup

open Minify (Place places places_nil places_element places_text places_entity)
open Xml (Binding Element Head Ledger Node Tag)

-----------------------------------------------------------------------------------------
-- The tag of a root
-----------------------------------------------------------------------------------------

/-- The name is that of a root when case is ignored. -/
def isRootName (name : Text) : Bool := name.map Text.foldChar = ("svg" : Text)

theorem dropFolded?_open (s : Text)
    : Text.dropFolded? "<svg" ('<' :: s) = Text.dropFolded? "svg" s := by
  have hliteral : ("<svg" : Text) = '<' :: ("svg" : Text) := by with_unfolding_all decide
  rw [hliteral]
  exact if_pos (by decide)

theorem dropFolded?_close (s : Text)
    : Text.dropFolded? "</svg" ('<' :: '/' :: s) = Text.dropFolded? "svg" s := by
  have hliteral : ("</svg" : Text) = '<' :: '/' :: ("svg" : Text) := by with_unfolding_all decide
  rw [hliteral]
  exact (if_pos (by decide)).trans (if_pos (by decide))

theorem dropFolded?_open_ne {c : Char} (hc : c ≠ '<') (s : Text)
    : Text.dropFolded? "<svg" (c :: s) = none := by
  have hliteral : ("<svg" : Text) = '<' :: ("svg" : Text) := by with_unfolding_all decide
  rw [hliteral]
  exact if_neg fun h => hc (Text.eq_of_foldChar_eq rfl h.symm)

/-- What may stand behind the name in a start tag. -/
def IsNameEnd (d : Char) : Prop := d = ' ' ∨ d = '/' ∨ d = '>'

theorem findRoot?_plain {s : Text} (hs : '<' ∉ s) (rest : Text)
    : findRoot? (s ++ rest) = findRoot? rest := by
  induction s with
  | nil => rfl
  | cons c s ih =>
      rw [List.mem_cons, not_or] at hs
      rw [List.cons_append, findRoot?, dropFolded?_open_ne (Ne.symm hs.1)]
      exact ih hs.2

/-- A tag is that of the root if its name is, and is left behind otherwise. -/
theorem findRoot?_tag {name : Text} (hname : ∀ c ∈ name, isNameChar c) {d : Char}
    (hd : IsNameEnd d) (s : Text)
    : findRoot? ('<' :: (name ++ d :: s))
      = if isRootName name then some (d :: s) else findRoot? (name ++ d :: s) := by
  have hends : Text.isBlank d || d == '/' || d == '>' := by
    rcases hd with rfl | rfl | rfl <;> decide
  have hfold : Text.foldChar d ∉ ("svg" : Text) := by
    rcases hd with rfl | rfl | rfl <;> with_unfolding_all decide
  rw [findRoot?, dropFolded?_open, Text.dropFolded?_append_cons hfold]
  by_cases hbegins : ("svg" : Text) <+: name.map Text.foldChar
  · rw [if_pos hbegins]
    obtain ⟨more, hmore⟩ := hbegins
    have hlength : (name.drop ("svg" : Text).length).map Text.foldChar = more := by
      rw [List.map_drop, ← hmore, List.drop_left]
    cases hleft : name.drop ("svg" : Text).length with
    | nil =>
        rw [hleft] at hlength
        have hroot : isRootName name := by
          rw [isRootName, decide_eq_true_iff, ← hmore, ← hlength, List.map_nil, List.append_nil]
        rw [if_pos hroot]
        exact if_pos hends
    | cons x left =>
        have hroot : ¬ isRootName name := by
          rw [isRootName, decide_eq_true_iff, ← hmore, ← hlength, hleft]
          simp
        have hx : isNameChar x := hname x (List.mem_of_mem_drop (hleft ▸ List.mem_cons_self))
        have hgoes : ¬ (Text.isBlank x || x == '/' || x == '>') := by
          simp only [isNameChar, Bool.and_eq_true, Bool.not_eq_true', bne_iff_ne] at hx
          simp [hx.1.1.1.1.1, hx.1.1.1.2, hx.1.1.2]
        rw [if_neg hroot]
        exact if_neg hgoes
  · have hroot : ¬ isRootName name := by
      intro hroot
      rw [isRootName, decide_eq_true_iff] at hroot
      exact hbegins (hroot ▸ List.prefix_rfl)
    rw [if_neg hbegins, if_neg hroot]

/-- Words with values in double quotes are read as attributes, by induction over them. -/
theorem readAttributesAfter_words {bare : Char → Text → Bool} {given : List (Text × Text)}
    (hgiven : ∀ a ∈ given, a.1 ≠ [] ∧ (∀ c ∈ a.1, isNameChar c) ∧ '"' ∉ a.2)
    (done : List (Text × Attribute)) (s : Text)
    : ∃ more, readAttributesAfter bare done
          (given.flatMap (fun a => assignmentText (' ' :: a.1, a.2)) ++ s)
        = readAttributesAfter bare (more ++ done) s := by
  induction given generalizing done with
  | nil => exact ⟨[], rfl⟩
  | cons a given ih =>
      obtain ⟨⟨hne, hname, hvalue⟩, hgiven⟩ := List.forall_mem_cons.mp hgiven
      have hword : IsWord [' '] a.1 := ⟨by simp [Text.isBlank], by simp, hname, hne⟩
      obtain ⟨more, hmore⟩ := ih hgiven
        (([' '], ⟨a.1, some (['='], '"' :: (a.2 ++ ['"']))⟩) :: done)
      refine ⟨more ++ [([' '], ⟨a.1, some (['='], '"' :: (a.2 ++ ['"']))⟩)], ?_⟩
      have htext : (a :: given).flatMap (fun a => assignmentText (' ' :: a.1, a.2)) ++ s
          = [' '] ++ (a.1 ++ '=' :: '"' :: (a.2 ++ '"'
            :: (given.flatMap (fun a => assignmentText (' ' :: a.1, a.2)) ++ s))) := by
        simp [assignmentText]
      have hassigned := @readAssigned?_quoted bare [] a.2 (by simp) hvalue
      simp only [List.nil_append] at hassigned
      rw [htext, readAttributesAfter_word hword (endsStretch_equals _).stops_name, hassigned]
      simpa using hmore

section RootTag

variable {given : List (Text × Text)}
  (hgiven : ∀ a ∈ given, a.1 ≠ [] ∧ (∀ c ∈ a.1, isNameChar c) ∧ '"' ∉ a.2)
include hgiven

theorem readAttributes_words {close : Text} (hclose : IsClose close) (rest : Text)
    : ∃ attributes, readAttributes bareInRoot
          (given.flatMap (fun a => assignmentText (' ' :: a.1, a.2)) ++ (close ++ rest))
        = (attributes, close ++ rest) := by
  obtain ⟨more, hmore⟩ := readAttributesAfter_words hgiven [] (close ++ rest)
  refine ⟨(more ++ []).reverse, ?_⟩
  rw [readAttributes, hmore, readAttributesAfter_stops (hclose.endsStretch rest).stops_blank]

theorem readRootTag?_open (rest : Text)
    : ∃ attributes, readRootTag?
          (given.flatMap (fun a => assignmentText (' ' :: a.1, a.2)) ++ '>' :: rest)
        = some (attributes, rest) := by
  obtain ⟨attributes, hread⟩ := readAttributes_words hgiven (.inl rfl) rest
  refine ⟨attributesText attributes, ?_⟩
  simp only [List.singleton_append] at hread
  rw [readRootTag?, hread]
  rfl

/-- A tag without content is none of a root. -/
theorem readRootTag?_empty (rest : Text)
    : readRootTag? (given.flatMap (fun a => assignmentText (' ' :: a.1, a.2)) ++ '/' :: '>' :: rest)
      = none := by
  obtain ⟨attributes, hread⟩ := readAttributes_words hgiven (.inr rfl) rest
  simp only [List.cons_append, List.nil_append] at hread
  rw [readRootTag?, hread]
  rfl

end RootTag

theorem isRootEnd_append {name : Text} (hname : isRootName name) (rest : Text)
    : isRootEnd ('<' :: '/' :: (name ++ '>' :: rest)) := by
  have hfold : Text.foldChar '>' ∉ ("svg" : Text) := by with_unfolding_all decide
  rw [isRootName, decide_eq_true_iff] at hname
  have hlength : name.length = ("svg" : Text).length := by
    rw [← hname, List.length_map]
  rw [isRootEnd, dropFolded?_close, Text.dropFolded?_append_cons hfold, if_pos (hname ▸ List.prefix_rfl),
    ← hlength, List.drop_length]
  rfl

/-- The text before the last end tag is found if there is an end tag, by induction over the
text.
-/
theorem isSome_beforeLastEnd? {s passed : Text} {best : Option Text}
    (h : best.isSome ∨ ∃ before after, s = before ++ after ∧ isRootEnd after)
    : (beforeLastEnd? passed best s).isSome := by
  induction s generalizing passed best with
  | nil =>
      rcases h with h | ⟨before, after, hnil, hend⟩
      · rw [beforeLastEnd?, Option.isSome_map]
        exact h
      · obtain ⟨-, rfl⟩ := List.nil_eq_append_iff.mp hnil
        exact absurd hend (by with_unfolding_all decide)
  | cons c s ih =>
      rw [beforeLastEnd?]
      apply ih
      by_cases hhere : isRootEnd (c :: s)
      · rw [if_pos hhere]
        exact .inl rfl
      · rw [if_neg hhere]
        rcases h with h | ⟨before, after, hs, hend⟩
        · exact .inl h
        · cases before with
          | nil =>
              rw [List.nil_append] at hs
              exact absurd (hs ▸ hend) hhere
          | cons x before => exact .inr ⟨before, after, (List.cons.inj hs).2, hend⟩

-----------------------------------------------------------------------------------------
-- Trees
-----------------------------------------------------------------------------------------

/-- A sound tag none of whose names holds a blank. -/
structure IsUnbroken (t : Tag) : Prop where
  sound : t.Sound
  name : ∀ c ∈ t.name.text, Text.isBlank c = false
  given : ∀ a ∈ t.given, ∀ c ∈ a.1.text, Text.isBlank c = false

theorem isNameChar_of_sound {n : Xml.Spelling} (hn : n.Sound)
    (hblank : ∀ c ∈ n.text, Text.isBlank c = false)
    : ∀ c ∈ n.text, isNameChar c := by
  intro c hc
  rcases isStretch_text hn c hc with h | h
  · rw [hblank c hc] at h
    cases h
  · exact h

/-- The names of attributes in a tag with the texts of their values. -/
def wordsOf (t : Tag) : List (Text × Text) :=
  t.given.map fun a => (a.1.text, a.2.flatMap Xml.Reference.spelled)

theorem text_eq_words (t : Tag)
    : t.text
      = t.name.text ++ (wordsOf t).flatMap fun a => assignmentText (' ' :: a.1, a.2) := by
  rw [text_eq_assignments, wordsOf, List.flatMap_map, List.flatMap_map]
  rfl

namespace IsUnbroken

variable {t : Tag} (ht : IsUnbroken t)
include ht

theorem words : ∀ a ∈ wordsOf t, a.1 ≠ [] ∧ (∀ c ∈ a.1, isNameChar c) ∧ '"' ∉ a.2 := by
  intro word hword
  obtain ⟨a, ha, rfl⟩ := List.mem_map.mp hword
  obtain ⟨hname, hvalue⟩ := ht.sound.given a ha
  obtain ⟨c, s, htext, -⟩ := hname.text_eq_cons
  refine ⟨?_, isNameChar_of_sound hname (ht.given a ha), ?_⟩
  · rw [htext]
    exact List.cons_ne_nil c s
  · intro hmem
    obtain ⟨r, hr, hc⟩ := List.mem_flatMap.mp hmem
    exact (hvalue r hr).not_mem_spelled (.inl rfl) hc

/-- A start tag is that of the root if its name is, and is left behind otherwise. -/
theorem findRoot?_eq {close : Text} (hclose : IsClose close) (rest : Text)
    : findRoot? ('<' :: (t.text ++ (close ++ rest)))
      = if isRootName t.name.text then
          some ((wordsOf t).flatMap (fun a => assignmentText (' ' :: a.1, a.2)) ++ (close ++ rest))
        else findRoot? rest := by
  have hname := isNameChar_of_sound ht.sound.name ht.name
  obtain ⟨d, s, hend, htext⟩ : ∃ d s, IsNameEnd d
      ∧ (wordsOf t).flatMap (fun a => assignmentText (' ' :: a.1, a.2)) ++ (close ++ rest)
        = d :: s := by
    cases hwords : wordsOf t with
    | nil =>
        rcases hclose with rfl | rfl
        · exact ⟨'>', rest, .inr (.inr rfl), rfl⟩
        · exact ⟨'/', '>' :: rest, .inr (.inl rfl), rfl⟩
    | cons a words => exact ⟨' ', _, .inl rfl, by rw [List.flatMap_cons]; rfl⟩
  have hplain : '<' ∉ t.text ++ close := by
    rcases hclose with rfl | rfl <;> simp [ht.sound.not_mem_text (.inl rfl)]
  have hskip := findRoot?_plain hplain rest
  rw [text_eq_words, List.append_assoc, List.append_assoc, htext] at hskip
  rw [text_eq_words, List.append_assoc, htext, findRoot?_tag hname hend, hskip]

end IsUnbroken

/-- The place of an element that is written as a root. -/
def isRootPlace (p : Place) : Bool := isRootName p.head.name.text

/-- What stands behind the name in the text of an element. -/
def afterName (tagOf : Head → Tag) (p : Place) : Text :=
  (wordsOf (tagOf p.head)).flatMap (fun a => assignmentText (' ' :: a.1, a.2))
    ++ if p.content.isEmpty then ['/', '>']
      else '>' :: (Node.writeAllWith tagOf p.content ++ '<' :: '/' :: (p.head.name.text ++ ['>']))

/-- The tag of a head has its name, and is unbroken. -/
structure Names (h : Head) (t : Tag) : Prop where
  name : t.name.text = h.name.text
  unbroken : IsUnbroken t

/-- The root that is found in a text is that of a place, or the one of the text left behind. -/
inductive Finds (tagOf : Head → Tag) (s rest : Text) : Option Place → Prop where
  | found {p : Place} (names : Names p.head (tagOf p.head)) (behind : Text)
      (root : findRoot? s = some (afterName tagOf p ++ behind))
    : Finds tagOf s rest (some p)
  | absent (root : findRoot? s = findRoot? rest) : Finds tagOf s rest none

theorem Finds.trans {tagOf : Head → Tag} {s middle rest : Text} {p p' : Option Place}
    (h : Finds tagOf s middle p) (h' : Finds tagOf middle rest p')
    : Finds tagOf s rest (p.or p') := by
  cases h with
  | found names behind root => exact .found names behind root
  | absent root =>
      cases h' with
      | found names behind root' => exact .found names behind (root.trans root')
      | absent root' => exact .absent (root.trans root')

section Trees

variable {tagOf : Head → Tag} {made : List Binding}

theorem finds_plain {s : Text} (hs : '<' ∉ s) (rest : Text) : Finds tagOf (s ++ rest) rest none :=
  .absent (findRoot?_plain hs rest)

theorem finds_endTag {name : Text} (hname : '<' ∉ name) (rest : Text)
    : Finds tagOf ('<' :: '/' :: (name ++ '>' :: rest)) rest none := by
  have hplain := findRoot?_plain (s := '/' :: (name ++ ['>'])) (by simp [hname]) rest
  have hnone : Text.dropFolded? "svg" ('/' :: (name ++ '>' :: rest)) = none := by
    have hliteral : ("svg" : Text) = ['s', 'v', 'g'] := by with_unfolding_all decide
    rw [hliteral]
    exact if_neg (by decide)
  refine .absent ?_
  rw [findRoot?, dropFolded?_open, hnone]
  simpa using hplain

/-- The start tag of an element finds it if it is written as a root. -/
theorem finds_startTag {h : Head} (hnames : Names h (tagOf h)) {close : Text}
    (hclose : IsClose close) (rest : Text)
    : if isRootName h.name.text then
        findRoot? ('<' :: ((tagOf h).text ++ (close ++ rest)))
          = some ((wordsOf (tagOf h)).flatMap (fun a => assignmentText (' ' :: a.1, a.2))
            ++ (close ++ rest))
      else Finds tagOf ('<' :: ((tagOf h).text ++ (close ++ rest))) rest none := by
  have hfound := hnames.unbroken.findRoot?_eq hclose rest
  rw [hnames.name] at hfound
  split
  · next hroot => rw [hfound, if_pos hroot]
  · next hroot => exact .absent (hfound.trans (if_neg hroot))

/-- The root that is found in the text of a forest is its first element that is written as one,
by induction over the forest.
-/
theorem finds_writeAllWith {nodes : List Node} (hsound : Node.AllSound made nodes)
    (hnames : ∀ h ∈ Node.allHeads nodes, Names h (tagOf h)) (outer : List Head) (rest : Text)
    : Finds tagOf (Node.writeAllWith tagOf nodes ++ rest) rest
        ((places outer nodes).find? isRootPlace) := by
  induction nodes using Node.forest_induction generalizing outer rest with
  | nil =>
      rw [places_nil]
      exact .absent rfl
  | element h content nodes inside behind =>
      obtain ⟨-, hcontent, hnodes⟩ := Node.AllSound.element_iff.mp hsound
      rw [Node.allHeads_element, List.forall_mem_cons, List.forall_mem_append] at hnames
      obtain ⟨hname, hnamesInside, hnamesBehind⟩ := hnames
      have htag {close : Text} (hclose : IsClose close) (rest : Text) :=
        finds_startTag hname hclose rest
      rw [places_element, List.find?_cons]
      by_cases hempty : content = []
      · subst hempty
        have htext : Node.writeAllWith tagOf (.element h [] :: nodes) ++ rest
            = '<' :: ((tagOf h).text ++ (['/', '>'] ++ (Node.writeAllWith tagOf nodes ++ rest))) := by
          simp [Node.writeAllWith_empty]
        have hfirst := htag (.inr rfl) (Node.writeAllWith tagOf nodes ++ rest)
        rw [← htext] at hfirst
        cases hroot : isRootName h.name.text with
        | true =>
            rw [hroot, if_pos rfl] at hfirst
            have hplace : isRootPlace ⟨outer, h, [], nodes⟩ = true := hroot
            rw [hplace]
            exact .found hname (Node.writeAllWith tagOf nodes ++ rest) (by simp [afterName, hfirst])
        | false =>
            rw [hroot, if_neg Bool.false_ne_true] at hfirst
            have hplace : isRootPlace ⟨outer, h, [], nodes⟩ = false := hroot
            rw [hplace, places_nil, List.nil_append]
            exact hfirst.trans (behind hnodes hnamesBehind outer rest)
      · have htext : Node.writeAllWith tagOf (.element h content :: nodes) ++ rest
            = '<' :: ((tagOf h).text ++ (['>'] ++ (Node.writeAllWith tagOf content
              ++ '<' :: '/' :: (h.name.text ++ '>' :: (Node.writeAllWith tagOf nodes ++ rest))))) := by
          simp [Node.writeAllWith_element tagOf h hempty]
        have hfirst := htag (.inl rfl) (Node.writeAllWith tagOf content
          ++ '<' :: '/' :: (h.name.text ++ '>' :: (Node.writeAllWith tagOf nodes ++ rest)))
        rw [← htext] at hfirst
        cases hroot : isRootName h.name.text with
        | true =>
            rw [hroot, if_pos rfl] at hfirst
            have hplace : isRootPlace ⟨outer, h, content, nodes⟩ = true := hroot
            rw [hplace]
            exact .found hname (Node.writeAllWith tagOf nodes ++ rest)
              (by simp [afterName, hfirst, hempty])
        | false =>
            rw [hroot, if_neg Bool.false_ne_true] at hfirst
            have hplace : isRootPlace ⟨outer, h, content, nodes⟩ = false := hroot
            have hend : '<' ∉ h.name.text := by
              rw [← hname.name]
              exact hname.unbroken.sound.name.not_mem_text (by decide)
            rw [hplace, List.find?_append]
            exact hfirst.trans ((inside hcontent hnamesInside (h :: outer) _).trans
              ((finds_endTag hend _).trans (behind hnodes hnamesBehind outer rest)))
  | text s nodes ih =>
      obtain ⟨-, hnodes⟩ := Node.AllSound.text_iff.mp hsound
      have hplain : '<' ∉ s.flatMap Xml.escapeText := by
        intro hmem
        obtain ⟨c, -, hc⟩ := List.mem_flatMap.mp hmem
        exact Xml.not_mem_escapeText (.inl rfl) hc
      rw [Node.writeAllWith_text, List.append_assoc, places_text]
      exact (finds_plain hplain _).trans (ih hnodes (by simpa using hnames) outer rest)
  | entity name nodes ih =>
      obtain ⟨hname, hnodes⟩ := Node.AllSound.entity_iff.mp hsound
      have hplain : '<' ∉ '&' :: (name ++ [';']) := by
        simp [hname.not_mem_of_delimiter (show '<' ∈ Xml.delimiters by decide)]
      have htext : Node.writeAllWith tagOf (.entity name :: nodes) ++ rest
          = '&' :: (name ++ [';']) ++ (Node.writeAllWith tagOf nodes ++ rest) := by
        simp
      rw [htext, places_entity]
      exact (finds_plain hplain _).trans (ih hnodes (by simpa using hnames) outer rest)

/-- The element that is taken apart as the root in the text of a tree. -/
def drawnRoot? (e : Element) : Option Place := (places [] e.forest).find? isRootPlace

/-- It is the root of the tree if that is written as one. -/
theorem drawnRoot?_of_isRootName {e : Element} (h : isRootName e.head.name.text)
    : drawnRoot? e = some ⟨[], e.head, e.content, []⟩ := by
  rw [drawnRoot?, Element.forest, places_element]
  exact List.find?_cons_of_pos h

/-- The text of a tree has a root to take apart if and only if its first element that is written
as one has content.
-/
theorem exists_ofText_iff {e : Element} (hsound : Node.AllSound made e.forest)
    (hnames : ∀ h ∈ e.heads, Names h (tagOf h))
    : (∃ root, Root.ofText (Node.writeAllWith tagOf e.forest) = .ok root)
      ↔ ∃ p, drawnRoot? e = some p ∧ p.content ≠ [] := by
  have hfinds := finds_writeAllWith hsound (Element.heads_eq e ▸ hnames) [] []
  rw [List.append_nil] at hfinds
  unfold Root.ofText
  change Finds tagOf _ [] (drawnRoot? e) at hfinds
  generalize hdrawn : drawnRoot? e = p? at hfinds ⊢
  cases hfinds with
  | absent root =>
      rw [root]
      simp [findRoot?]
  | @found p names behind root =>
      rw [root]
      have hname : isRootName p.head.name.text := List.find?_some (p := isRootPlace) hdrawn
      have hwords := names.unbroken.words
      cases hcontent : p.content with
      | nil =>
          have hread := readRootTag?_empty hwords behind
          simp only [afterName, hcontent, List.isEmpty_nil, if_pos, List.append_assoc,
            List.cons_append, List.nil_append, hread]
          simp [hcontent]
      | cons node content =>
          have htail : afterName tagOf p ++ behind
              = (wordsOf (tagOf p.head)).flatMap (fun a => assignmentText (' ' :: a.1, a.2))
                ++ '>' :: (Node.writeAllWith tagOf p.content
                  ++ '<' :: '/' :: (p.head.name.text ++ '>' :: behind)) := by
            simp [afterName, hcontent]
          obtain ⟨attributes, hread⟩ := readRootTag?_open hwords (Node.writeAllWith tagOf p.content
            ++ '<' :: '/' :: (p.head.name.text ++ '>' :: behind))
          have hend : (beforeLastEnd? [] none (Node.writeAllWith tagOf p.content
              ++ '<' :: '/' :: (p.head.name.text ++ '>' :: behind))).isSome :=
            isSome_beforeLastEnd? (.inr ⟨_, _, rfl, isRootEnd_append hname behind⟩)
          obtain ⟨content', hbefore⟩ := Option.isSome_iff_exists.mp hend
          simp only [htail, hread, hbefore]
          simp [hcontent]

end Trees

end SvgKit.Markup

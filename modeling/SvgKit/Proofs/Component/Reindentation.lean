import SvgKit.Proofs.Component.Openings
import SvgKit.Proofs.Text.Pieces
import SvgKit.Xml.Name

/-! What is lost when content is indented anew. Lines end and are trimmed at the blanks of Unicode;
so blanks are all that is lost, and white space of XML is all exactly if nothing else ends a line or
stands around one.
-/

namespace SvgKit.Component

open Markup (Root)
open Optimize (toOption_eq_some_iff)
open Text (allBlank)

/-- A text without the characters of a class. -/
def without (p : Char → Bool) (s : Text) : Text := s.filter (!p ·)

/-- The trimmed lines of a text, one behind the other. -/
def trimmedLines (s : Text) : Text := ((Text.lines s).map Text.trim).flatten

/-- The lines of content as they stand in the source of a framework. -/
def contentLines (framework : Framework) (content : Text) : Text :=
  (indentedLines (margin framework) (markup framework content)).flatMap (· ++ ['\n'])

/-- The characters that end lines in a text, and the blanks around its lines, are of a class. -/
structure HasLineEdges (p : Char → Bool) (s : Text) : Prop where
  ends : ∀ c ∈ s, Text.lineEnds.contains c → p c
  around : ∀ line ∈ Text.lines s, ∃ front back : Text, (∀ c ∈ front, p c) ∧ (∀ c ∈ back, p c)
    ∧ line = front ++ (Text.trim line ++ back)

section Class

variable {p : Char → Bool}

@[simp]
theorem without_append (s t : Text) : without p (s ++ t) = without p s ++ without p t :=
  List.filter_append s t

@[simp]
theorem without_eq_nil_iff {s : Text} : without p s = [] ↔ ∀ c ∈ s, p c := by
  simp [without]

theorem without_cons_of_pos {c : Char} (hc : p c) (s : Text)
    : without p (c :: s) = without p s :=
  List.filter_cons_of_neg (by simp [hc])

theorem without_cons_of_neg {c : Char} (hc : p c = false) (s : Text)
    : without p (c :: s) = c :: without p s :=
  List.filter_cons_of_pos (by simp [hc])

theorem without_flatten (lines : List Text)
    : without p lines.flatten = (lines.map (without p)).flatten :=
  List.filter_flatten

-----------------------------------------------------------------------------------------
-- Lines
-----------------------------------------------------------------------------------------

/-- The pieces of a text are the text without the separators. -/
theorem flatten_splitOnChar (s : Text) : (Text.splitOnChar p s).flatten = without p s := by
  induction s with
  | nil => rfl
  | cons c s ih =>
      cases hc : p c with
      | false =>
          rw [Text.splitOnChar_cons hc, List.flatten_cons, List.cons_append, ← List.flatten_cons,
            ← Text.splitOnChar_eq_cons, ih, without_cons_of_neg hc]
      | true =>
          rw [Text.splitOnChar_separator hc, List.flatten_cons, List.nil_append, ih,
            without_cons_of_pos hc]

/-- A blank in front is trimmed off the first line, or ends an empty one. -/
theorem trimmedLines_append_left {front : Text} (hfront : allBlank front) (s : Text)
    : trimmedLines (front ++ s) = trimmedLines s := by
  induction front with
  | nil => rfl
  | cons c front ih =>
      rw [allBlank, List.all_cons, Bool.and_eq_true] at hfront
      have hc : allBlank [c] := by simp [allBlank, hfront.1]
      rw [← ih hfront.2, trimmedLines, trimmedLines, List.cons_append, Text.lines, Text.lines]
      cases hend : Text.lineEnds.contains c with
      | true =>
          rw [Text.splitOnChar_separator hend]
          rfl
      | false =>
          have htrim (line : Text) : Text.trim (c :: line) = Text.trim line :=
            Text.trim_append_left hc line
          rw [Text.splitOnChar_cons hend, List.map_cons, htrim, ← List.map_cons,
            ← Text.splitOnChar_eq_cons]

/-- The last line goes on in blanks, and the lines behind it are blank. -/
theorem trimmedLines_append_right {back : Text} (hback : allBlank back) (s : Text)
    : trimmedLines (s ++ back) = trimmedLines s := by
  obtain ⟨before, last, hsplit⟩ := Text.exists_splitOnChar_append Text.lineEnds.contains s
  have hpieces : ∀ piece ∈ Text.splitOnChar Text.lineEnds.contains back, allBlank piece := by
    intro piece hpiece
    refine List.all_eq_true.mpr fun c hc => ?_
    exact List.all_eq_true.mp hback c (Text.mem_of_mem_splitOnChar hpiece hc)
  rw [Text.splitOnChar_eq_cons, List.forall_mem_cons] at hpieces
  have htail
      : ((Text.splitOnChar Text.lineEnds.contains back).tail.map Text.trim).flatten = [] := by
    refine List.flatten_eq_nil_iff.mpr fun line hline => ?_
    obtain ⟨piece, hpiece, rfl⟩ := List.mem_map.mp hline
    have htrim := Text.trim_append_right (hpieces.2 piece hpiece) []
    rwa [List.nil_append] at htrim
  have hwhole := hsplit []
  rw [List.append_nil] at hwhole
  rw [trimmedLines, trimmedLines, Text.lines, Text.lines, hwhole, hsplit, List.map_append,
    List.map_append, List.map_cons, List.map_cons, Text.trim_append_right hpieces.1,
    List.flatten_append, List.flatten_append, List.flatten_cons, List.flatten_cons, htail]
  simp [Text.splitOnChar]

/-- Trimming before a text is split into lines takes off what is trimmed off the lines anyway. -/
theorem trimmedLines_trim (s : Text) : trimmedLines (Text.trim s) = trimmedLines s := by
  obtain ⟨front, back, hfront, hback, hs⟩ := Text.exists_eq_trim s
  conv_rhs => rw [hs, trimmedLines_append_left hfront, trimmedLines_append_right hback]

theorem eq_of_mem_margin {framework : Framework} {c : Char} (h : c ∈ margin framework)
    : c = ' ' := by
  have hall : (margin framework).all (· == ' ') := by
    cases framework <;> with_unfolding_all decide
  exact beq_iff_eq.mp (List.all_eq_true.mp hall c h)

/-- Indented content holds the trimmed lines of the content, and its margins and line feeds. -/
theorem without_contentLines {framework : Framework} (hspace : p ' ') (hline : p '\n')
    (content : Text)
    : without p (contentLines framework content)
      = without p (trimmedLines (markup framework content)) := by
  have hmargin : without p (margin framework) = [] := by
    refine without_eq_nil_iff.mpr fun c hc => ?_
    rwa [eq_of_mem_margin hc]
  have hlines (lines : List Text)
      : without p ((lines.map (margin framework ++ ·)).flatMap (· ++ ['\n']))
        = without p lines.flatten := by
    induction lines with
    | nil => rfl
    | cons line lines ih =>
        have hline : without p ['\n'] = [] := by simp [hline]
        rw [List.map_cons, List.flatMap_cons, without_append, without_append, without_append, ih,
          hmargin, hline, List.nil_append, List.append_nil,
          ← without_append, List.flatten_cons]
  rw [contentLines, indentedLines, hlines, List.flatten_filter_not_isEmpty, ← trimmedLines_trim]
  rfl

-----------------------------------------------------------------------------------------
-- What is lost
-----------------------------------------------------------------------------------------

theorem trim_sublist (s : Text) : (Text.trim s).Sublist s := by
  obtain ⟨front, back, -, -, hs⟩ := Text.exists_eq_trim s
  conv_rhs => rw [hs]
  exact (List.sublist_append_left _ back).trans (List.sublist_append_right front _)

/-- Trimming takes characters of a class off exactly if no other ones stand around the text. -/
theorem without_trim_iff {s : Text}
    : without p (Text.trim s) = without p s
      ↔ ∃ front back : Text, (∀ c ∈ front, p c) ∧ (∀ c ∈ back, p c)
        ∧ s = front ++ (Text.trim s ++ back) := by
  constructor
  · intro h
    obtain ⟨front, back, -, -, hs⟩ := Text.exists_eq_trim s
    have hlength := congrArg (List.length ∘ without p) hs
    simp only [Function.comp_apply, without_append, List.length_append, ← h] at hlength
    refine ⟨front, back, without_eq_nil_iff.mp ?_, without_eq_nil_iff.mp ?_, hs⟩
    · exact List.length_eq_zero_iff.mp (by omega)
    · exact List.length_eq_zero_iff.mp (by omega)
  · rintro ⟨front, back, hfront, hback, hs⟩
    conv_rhs => rw [hs, without_append, without_append, without_eq_nil_iff.mpr hfront,
      without_eq_nil_iff.mpr hback, List.nil_append, List.append_nil]

theorem flatten_map_sublist {f g : Text → Text} {lines : List Text}
    (h : ∀ line ∈ lines, (f line).Sublist (g line))
    : (lines.map f).flatten.Sublist (lines.map g).flatten := by
  induction lines with
  | nil => exact .slnil
  | cons line lines ih =>
      rw [List.forall_mem_cons] at h
      exact h.1.append (ih h.2)

/-- Texts that are cut shorter one by one stay the same together only if each one does. -/
theorem flatten_map_eq_iff {f g : Text → Text} {lines : List Text}
    (h : ∀ line ∈ lines, (f line).Sublist (g line))
    : (lines.map f).flatten = (lines.map g).flatten ↔ ∀ line ∈ lines, f line = g line := by
  induction lines with
  | nil => simp
  | cons line lines ih =>
      rw [List.forall_mem_cons] at h
      have hrest := (flatten_map_sublist h.2).length_le
      have hline := h.1.length_le
      rw [List.map_cons, List.map_cons, List.flatten_cons, List.flatten_cons,
        List.forall_mem_cons, ← ih h.2]
      constructor
      · intro heq
        have hlength := congrArg List.length heq
        simp only [List.length_append] at hlength
        exact List.append_inj heq (by omega)
      · rintro ⟨hfirst, hmore⟩
        rw [hfirst, hmore]

/-- Splitting into lines takes characters of a class out exactly if no other ones end a line. -/
theorem without_flatten_lines_iff {s : Text}
    : without p (Text.lines s).flatten = without p s
      ↔ ∀ c ∈ s, Text.lineEnds.contains c → p c := by
  rw [Text.lines, flatten_splitOnChar, without, without, without, List.filter_comm,
    List.filter_eq_self]
  refine ⟨fun h c hc hend => ?_, fun h c hc => ?_⟩
  · by_contra hp
    have hkept := h c (List.mem_filter.mpr ⟨hc, by simpa using hp⟩)
    rw [hend] at hkept
    cases hkept
  · obtain ⟨hc, hp⟩ := List.mem_filter.mp hc
    by_contra hend
    rw [h c hc (by simpa using hend)] at hp
    cases hp

/-- The trimmed lines of a text are the text but for characters of a class exactly if the edges of
its lines are of the class. Nothing is put in, so that each of the two steps alone must keep what
both keep.
-/
theorem without_trimmedLines_iff {s : Text}
    : without p (trimmedLines s) = without p s ↔ HasLineEdges p s := by
  have htrimmed : without p (trimmedLines s)
      = ((Text.lines s).map fun line => without p (Text.trim line)).flatten := by
    rw [trimmedLines, without_flatten, List.map_map]
    rfl
  have hsublist : ∀ line ∈ Text.lines s,
      (without p (Text.trim line)).Sublist (without p line) := fun line _ =>
    (trim_sublist line).filter _
  have hlower : (without p (trimmedLines s)).Sublist (without p (Text.lines s).flatten) := by
    rw [htrimmed, without_flatten]
    exact flatten_map_sublist hsublist
  have hupper : (without p (Text.lines s).flatten).Sublist (without p s) := by
    rw [Text.lines, flatten_splitOnChar]
    exact List.filter_sublist.filter _
  have haround : without p (trimmedLines s) = without p (Text.lines s).flatten
      ↔ ∀ line ∈ Text.lines s, without p (Text.trim line) = without p line := by
    rw [htrimmed, without_flatten]
    exact flatten_map_eq_iff hsublist
  constructor
  · intro h
    have hlines : without p (Text.lines s).flatten = without p s :=
      hupper.antisymm (h ▸ hlower)
    refine ⟨without_flatten_lines_iff.mp hlines, fun line hline => without_trim_iff.mp ?_⟩
    exact haround.mp (h.trans hlines.symm) line hline
  · rintro ⟨hends, hedges⟩
    refine (haround.mpr fun line hline => ?_).trans (without_flatten_lines_iff.mpr hends)
    exact without_trim_iff.mpr (hedges line hline)

instance (s : Text) : Decidable (HasLineEdges p s) :=
  decidable_of_iff (without p (trimmedLines s) = without p s) without_trimmedLines_iff

end Class

/-- Only blanks end lines, and only blanks are trimmed off them. -/
theorem hasLineEdges_isBlank (s : Text) : HasLineEdges Text.isBlank s where
  ends := by
    have hall : Text.lineEnds.all Text.isBlank := by decide
    intro c _ hc
    exact List.all_eq_true.mp hall c (List.contains_iff_mem.mp hc)
  around line _ := by
    obtain ⟨front, back, hfront, hback, hline⟩ := Text.exists_eq_trim line
    exact ⟨front, back, List.all_eq_true.mp hfront, List.all_eq_true.mp hback, hline⟩

-----------------------------------------------------------------------------------------
-- Sources
-----------------------------------------------------------------------------------------

theorem generate_name (framework : Framework) (svg filename : Text) (options : Options)
    : generate framework.name svg filename options
      = (Context.ofSvg svg filename options).map (·.source framework) := by
  obtain ⟨description, hentry⟩ : ∃ description,
      Registry.standard.get framework.name = .ok ⟨framework, description⟩ := by
    cases framework <;> exact ⟨_, by with_unfolding_all rfl⟩
  rw [generate, hentry]
  cases Context.ofSvg svg filename options <;> rfl

/-- The lines of the content stand between a front and a back that do not depend on it. -/
theorem exists_code_eq {framework : Framework} (hframework : framework ≠ .webComponent)
    (c : Context)
    : ∃ front back, ∀ content, (({ c with content } : Context).source framework).code
      = front ++ (contentLines framework content ++ back) := by
  have hjoin (lines : List Text) {behind : List Text} (hne : behind ≠ [])
      : Text.join ['\n'] (lines ++ behind)
        = lines.flatMap (· ++ ['\n']) ++ Text.join ['\n'] behind := by
    induction lines with
    | nil => rfl
    | cons line lines ih =>
        rw [List.cons_append, Text.join_cons _ _ (by simp [hne]), ih, List.flatMap_cons]
        simp
  obtain ⟨before, behind, hne, hcode⟩ := exists_frame hframework c
  refine ⟨before.flatMap (· ++ ['\n']), Text.join ['\n'] behind, fun content => ?_⟩
  rw [hcode, hjoin _ hne, List.flatMap_append, List.append_assoc]
  rfl

/-- From every text with a root a component for Vue and one for Svelte is generated. Its lines of
content are the content but for blanks, and they are the content but for white space of XML if and
only if nothing but that ends a line of the content or stands as a blank around one.
-/
theorem without_contentLines_of_ofText {framework : Framework}
    (hframework : framework = .vue ∨ framework = .svelte) {svg : Text} {root : Root}
    (hroot : Root.ofText svg = .ok root) (filename : Text) (options : Options)
    : ∃ context, Context.ofSvg svg filename options = .ok context
      ∧ context.content = root.content
      ∧ generate framework.name svg filename options = .ok (context.source framework)
      ∧ (∃ front back, ∀ content, (({ context with content } : Context).source framework).code
        = front ++ (contentLines framework content ++ back))
      ∧ without Text.isBlank (contentLines framework root.content)
        = without Text.isBlank root.content
      ∧ (without Xml.isSpace (contentLines framework root.content)
          = without Xml.isSpace root.content
        ↔ HasLineEdges Xml.isSpace root.content) := by
  have hother : framework ≠ .webComponent := by
    rcases hframework with rfl | rfl <;> decide
  have hmarkup : markup framework root.content = root.content := by
    rcases hframework with rfl | rfl <;> rfl
  obtain ⟨context, hcontext⟩ : ∃ context, Context.ofSvg svg filename options = .ok context := by
    rw [Context.ofSvg, hroot]
    exact ⟨_, rfl⟩
  have hcontent : context.content = root.content := by
    rw [Context.ofSvg, hroot] at hcontext
    cases hcontext
    rfl
  refine ⟨context, hcontext, hcontent, ?_, exists_code_eq hother context, ?_, ?_⟩
  · rw [generate_name, hcontext]
    rfl
  · rw [without_contentLines (by decide) (by decide), hmarkup]
    exact without_trimmedLines_iff.mpr (hasLineEdges_isBlank _)
  · rw [without_contentLines (by decide) (by decide), hmarkup]
    exact without_trimmedLines_iff

/-- Lines with tabs in front, CR and LF at their ends and a wide blank in the middle. -/
private def sampleLines : Text := "<svg>\r\n\t<text>5\u00a0kg</text> \r\n\n</svg>"

theorem without_contentLines_of_ofText_sampleLines
    : ∃ root context, Root.ofText sampleLines = .ok root
      ∧ Context.ofSvg sampleLines "a.svg" {} = .ok context
      ∧ contentLines .vue root.content = "    <text>5\u00a0kg</text>\n"
      ∧ without Xml.isSpace (contentLines .vue root.content)
        = without Xml.isSpace root.content := by
  have hsample : (Root.ofText sampleLines).toOption.any fun root =>
      HasLineEdges Xml.isSpace root.content
        ∧ contentLines .vue root.content = "    <text>5\u00a0kg</text>\n" := by
    decide +kernel
  obtain ⟨root, hroot, hedges⟩ := (Option.any_eq_true _ _).mp hsample
  obtain ⟨hedges, hlines⟩ := of_decide_eq_true hedges
  have hroot := toOption_eq_some_iff.mp hroot
  obtain ⟨context, hcontext, -, -, -, -, hiff⟩ :=
    without_contentLines_of_ofText (.inl rfl) hroot "a.svg" {}
  exact ⟨root, context, hroot, hcontext, hlines, hiff.mpr hedges⟩

/-- A wide blank at the end of a line is not in the source. -/
theorem generate_wideBlank
    : ([.vue, .svelte] : List Framework).Forall fun framework =>
      ∃ root source, Root.ofText "<svg><text>5\u00a0\nkg</text></svg>" = .ok root
        ∧ generate framework.name "<svg><text>5\u00a0\nkg</text></svg>" "a.svg" {} = .ok source
        ∧ '\u00a0' ∈ root.content ∧ '\u00a0' ∉ source.code
        ∧ without Xml.isSpace (contentLines framework root.content)
          ≠ without Xml.isSpace root.content := by
  have hall : ∀ framework ∈ ([.vue, .svelte] : List Framework),
      ((Root.ofText "<svg><text>5\u00a0\nkg</text></svg>").toOption.any fun root =>
        '\u00a0' ∈ root.content ∧ without Xml.isSpace (contentLines framework root.content)
          ≠ without Xml.isSpace root.content)
      ∧ (generate framework.name "<svg><text>5\u00a0\nkg</text></svg>" "a.svg" {}).toOption.any
        fun source => '\u00a0' ∉ source.code := by
    decide +kernel
  refine List.forall_iff_forall_mem.mpr fun framework hframework => ?_
  obtain ⟨hroot, hsource⟩ := hall framework hframework
  obtain ⟨root, hroot, hcontent⟩ := (Option.any_eq_true _ _).mp hroot
  obtain ⟨source, hsource, hcode⟩ := (Option.any_eq_true _ _).mp hsource
  rw [toOption_eq_some_iff] at hroot hsource
  obtain ⟨hmem, hne⟩ := of_decide_eq_true hcontent
  exact ⟨root, source, hroot, hsource, hmem, of_decide_eq_true hcode, hne⟩

end SvgKit.Component

import SvgKit.Minify.Attributes
import SvgKit.Minify.Identifiers
import SvgKit.Proofs.Text.Ascii
import SvgKit.Proofs.Text.Members
import SvgKit.Proofs.Text.Scanning
import SvgKit.Proofs.Text.Splitting

/-! How references to identifiers are read, and that the compact form of a style has no reference
that the style does not have.
-/

namespace SvgKit

namespace Minify

open Xml

-----------------------------------------------------------------------------------------
-- References in values
-----------------------------------------------------------------------------------------

/-- What stands in front of the name in a `url` reference. -/
def IsUrlOpening (s : Text) : Prop :=
  ∃ gap quote : Text, s = 'u' :: 'r' :: 'l' :: '(' :: (gap ++ (quote ++ ['#']))
    ∧ Text.allBlank gap ∧ (quote = [] ∨ quote = ['"'] ∨ quote = ['\''])

theorem dropLiteral?_url (s : Text)
    : Text.dropLiteral? "url(" ('u' :: 'r' :: 'l' :: '(' :: s) = some s := by
  rw [Text.dropLiteral?_eq_some_iff]
  simp [Text.ofString]

theorem dropQuote_append {quote : Text} (hquote : quote = [] ∨ quote = ['"'] ∨ quote = ['\''])
    (s : Text)
    : dropQuote (quote ++ '#' :: s) = '#' :: s := by
  rcases hquote with rfl | rfl | rfl <;> simp [dropQuote]

theorem exists_of_dropQuote {s rest : Text} (h : dropQuote s = '#' :: rest)
    : ∃ quote : Text, s = quote ++ '#' :: rest ∧ (quote = [] ∨ quote = ['"'] ∨ quote = ['\'']) := by
  cases s with
  | nil => cases h
  | cons c s =>
      rw [dropQuote] at h
      split at h
      · next hc =>
          refine ⟨[c], by rw [h]; rfl, .inr ?_⟩
          simpa using hc
      · exact ⟨[], h, .inl rfl⟩

/-- A `url` reference is its opening and a name, behind which no character of a name follows. -/
theorem readUrlReference?_eq_some_iff {s name rest : Text}
    : readUrlReference? s = some (name, rest)
      ↔ ∃ opening, IsUrlOpening opening ∧ s = opening ++ (name ++ rest) ∧ name ≠ []
        ∧ (∀ c ∈ name, isUrlChar c) ∧ Stops isUrlChar rest := by
  constructor
  · intro h
    unfold readUrlReference? at h
    split at h
    · cases h
    · next behind hbehind =>
        split at h
        · next left hleft =>
            dsimp only at h
            split at h
            · cases h
            · next hname =>
                obtain ⟨rfl, rfl⟩ := Prod.mk.inj (Option.some.inj h)
                obtain ⟨quote, hquote, hcases⟩ := exists_of_dropQuote hleft
                have hs := Text.dropLiteral?_eq_some_iff.mp hbehind
                have hgap : behind = behind.takeWhile Text.isBlank ++ Text.dropBlank behind :=
                  List.takeWhile_append_dropWhile.symm
                rw [hquote] at hgap
                refine ⟨_, ⟨behind.takeWhile Text.isBlank, quote, rfl, ?_, hcases⟩, ?_,
                  by simpa using hname, fun c hc => List.mem_takeWhile_imp hc, stops_dropWhile⟩
                · exact List.all_eq_true.mpr fun c hc => List.mem_takeWhile_imp hc
                · rw [hs, List.takeWhile_append_dropWhile]
                  nth_rewrite 1 [hgap]
                  simp [Text.ofString]
        · cases h
  · rintro ⟨_, ⟨gap, quote, rfl, hgap, hquote⟩, rfl, hne, hname, hrest⟩
    have hdrop : Text.dropBlank (gap ++ (quote ++ '#' :: (name ++ rest)))
        = quote ++ '#' :: (name ++ rest) := by
      have hstops : Stops Text.isBlank (quote ++ '#' :: (name ++ rest)) := by
        rcases hquote with rfl | rfl | rfl <;> rintro _ ⟨⟩ <;> decide
      exact dropWhile_append_stops (List.all_eq_true.mp hgap) hstops
    have hs : 'u' :: 'r' :: 'l' :: '(' :: (gap ++ (quote ++ ['#'])) ++ (name ++ rest)
        = 'u' :: 'r' :: 'l' :: '(' :: (gap ++ (quote ++ '#' :: (name ++ rest))) := by
      simp
    rw [hs, readUrlReference?, dropLiteral?_url]
    simp only [hdrop, dropQuote_append hquote, takeWhile_append_stops hname hrest,
      dropWhile_append_stops hname hrest]
    rw [if_neg (by simpa using hne)]

-----------------------------------------------------------------------------------------
-- References in parts of a text
-----------------------------------------------------------------------------------------

theorem mem_opening {s : Text} (h : IsUrlOpening s) {c : Char} (hc : c ∈ s)
    : c ∈ ['u', 'r', 'l', '(', '"', '\'', '#'] ∨ Text.isBlank c := by
  obtain ⟨gap, quote, rfl, hgap, hquote⟩ := h
  have hblank := List.all_eq_true.mp hgap c
  simp only [List.mem_cons, List.mem_append] at hc ⊢
  rcases hquote with rfl | rfl | rfl <;> aesop

/-- A reference is read in a text as in front of more text, unless its name reaches into what
follows.
-/
theorem readUrlReference?_append_cases (s t : Text)
    : readUrlReference? s = none ∧ readUrlReference? (s ++ t) = none
      ∨ (∃ name rest, readUrlReference? s = some (name, rest)
        ∧ readUrlReference? (s ++ t) = some (name, rest ++ t))
      ∨ ∃ name rest, readUrlReference? (s ++ t) = some (name, rest)
        ∧ ∃ opening front, IsUrlOpening opening ∧ opening ++ name = s ++ front
          ∧ t = front ++ rest ∧ front ≠ [] ∧ name ≠ [] ∧ ∀ c ∈ name, isUrlChar c := by
  cases hread : readUrlReference? (s ++ t) with
  | none =>
      refine .inl ⟨?_, rfl⟩
      by_contra hsome
      obtain ⟨⟨name, rest⟩, hs⟩ := Option.ne_none_iff_exists'.mp hsome
      obtain ⟨opening, hopening, rfl, hne, hname, -⟩ := readUrlReference?_eq_some_iff.mp hs
      have hlonger := readUrlReference?_eq_some_iff.mpr ⟨opening, hopening,
        show opening ++ (name ++ rest) ++ t = opening
            ++ (name ++ (rest ++ t).takeWhile isUrlChar ++ (rest ++ t).dropWhile isUrlChar) by
          simp [List.takeWhile_append_dropWhile],
        by simp [hne], fun c hc => (List.mem_append.mp hc).elim (hname c) List.mem_takeWhile_imp,
        stops_dropWhile⟩
      rw [hread] at hlonger
      cases hlonger
  | some found =>
      obtain ⟨name, rest⟩ := found
      obtain ⟨opening, hopening, heq, hne, hname, hrest⟩ :=
        readUrlReference?_eq_some_iff.mp hread
      rw [← List.append_assoc] at heq
      rcases List.append_eq_append_iff.mp heq with ⟨front, hfront, ht⟩ | ⟨back, hs, rfl⟩
      · by_cases hnil : front = []
        · subst hnil
          rw [List.append_nil] at hfront
          refine .inr (.inl ⟨name, [], ?_, by rw [ht]; rfl⟩)
          exact readUrlReference?_eq_some_iff.mpr
            ⟨opening, hopening, by rw [List.append_nil, hfront], hne, hname, by rintro _ ⟨⟩⟩
        · exact .inr (.inr
            ⟨name, rest, rfl, opening, front, hopening, hfront, ht, hnil, hne, hname⟩)
      · refine .inr (.inl ⟨name, back, ?_, rfl⟩)
        refine readUrlReference?_eq_some_iff.mpr
          ⟨opening, hopening, by rw [hs, List.append_assoc], hne, hname, ?_⟩
        cases back with
        | nil => rintro _ ⟨⟩
        | cons c back => exact hrest

/-- The identifiers that `url` references in a text refer to. -/
def urlReferences (s : Text) : List Text := urlReferenceScanner.findAll s

theorem urlReferences_cons {c : Char} (hc : c ≠ 'u') (s : Text)
    : urlReferences (c :: s) = urlReferences s := by
  refine urlReferenceScanner.findAll_of_read_none ?_
  change readUrlReference? (c :: s) = none
  by_contra hsome
  obtain ⟨⟨name, rest⟩, hs⟩ := Option.ne_none_iff_exists'.mp hsome
  obtain ⟨_, ⟨gap, quote, rfl, -⟩, heq, -⟩ := readUrlReference?_eq_some_iff.mp hs
  exact hc (List.cons.inj heq).1

/-- A separator is no part of the opening of a reference. -/
def IsSeparator (c : Char) : Prop := c = ';' ∨ c = ':'

/-- Where no name holds the separator, references are those on its sides. -/
theorem urlReferences_separator {c : Char} (hc : IsSeparator c) (s t : Text)
    (h : ∀ name ∈ urlReferences (s ++ c :: t), c ∉ name)
    : urlReferences (s ++ c :: t) = urlReferences s ++ urlReferences t := by
  have hu : c ≠ 'u' := by rcases hc with rfl | rfl <;> decide
  rw [← urlReferences_cons hu t]
  refine urlReferenceScanner.findAll_append (c ∈ ·) (fun x s => ?_) h
  rcases readUrlReference?_append_cases (x :: s) (c :: t) with hnone | hsome
    | ⟨name, rest, hread, opening, front, hopening, hfront, ht, hne, -⟩
  · exact .inl hnone
  · exact .inr (.inl hsome)
  · refine .inr (.inr ⟨name, rest, hread, ?_⟩)
    obtain ⟨front, rfl⟩ : ∃ rest, front = c :: rest := by
      cases front with
      | nil => exact absurd rfl hne
      | cons d front => exact ⟨front, by rw [(List.cons.inj ht).1]⟩
    have hmem : c ∈ opening ++ name := hfront ▸ by simp
    rcases List.mem_append.mp hmem with hmem | hmem
    · rcases hc with rfl | rfl <;> exact absurd (mem_opening hopening hmem) (by decide)
    · exact hmem

/-- Blanks behind a text add no reference. -/
theorem urlReferences_append_blanks {back : Text} (hback : Text.allBlank back) (s : Text)
    : urlReferences (s ++ back) = urlReferences s := by
  have hblanks : urlReferences back = [] := by
    clear s
    induction back with
    | nil => exact urlReferenceScanner.findAll_nil
    | cons c back ih =>
        rw [Text.allBlank, List.all_cons, Bool.and_eq_true] at hback
        have hu : c ≠ 'u' := by
          rintro rfl
          exact absurd hback.1 (by decide)
        rw [urlReferences_cons hu, ih hback.2]
  rw [urlReferences, urlReferenceScanner.findAll_append (fun _ => False) (fun x s => ?_) (by simp)]
  · change urlReferences s ++ urlReferences back = _
    rw [hblanks, List.append_nil]
  · rcases readUrlReference?_append_cases (x :: s) back with hnone | hsome
      | ⟨name, rest, -, opening, front, -, hfront, ht, hne, hname, hchars⟩
    · exact .inl hnone
    · exact .inr (.inl hsome)
    · -- the last character would belong to the name and be a blank
      obtain ⟨name, c, rfl⟩ := List.eq_nil_or_concat'  name |>.resolve_left hname
      obtain ⟨front, d, rfl⟩ := List.eq_nil_or_concat' front |>.resolve_left hne
      have hlast := congrArg List.getLast? hfront
      simp only [← List.append_assoc, List.getLast?_append, List.getLast?_singleton,
        Option.some_or, Option.some.injEq] at hlast
      subst hlast
      have hblank := List.all_eq_true.mp hback c (by simp [ht])
      have hchar := hchars c (by simp)
      simp [isUrlChar, hblank] at hchar

theorem urlReferences_blanks_append {front : Text} (hfront : Text.allBlank front) (s : Text)
    : urlReferences (front ++ s) = urlReferences s := by
  induction front with
  | nil => rfl
  | cons c front ih =>
      rw [Text.allBlank, List.all_cons, Bool.and_eq_true] at hfront
      have hu : c ≠ 'u' := by
        rintro rfl
        exact absurd hfront.1 (by decide)
      rw [List.cons_append, urlReferences_cons hu, ih hfront.2]

theorem urlReferences_trim (s : Text) : urlReferences (Text.trim s) = urlReferences s := by
  obtain ⟨front, back, hfront, hback, heq⟩ := Text.exists_eq_trim s
  rw [heq, urlReferences_blanks_append hfront, urlReferences_append_blanks hback, ← heq]

-----------------------------------------------------------------------------------------
-- References in styles
-----------------------------------------------------------------------------------------

/-- No `url` reference in a style reaches over the end of a property or of a declaration. -/
def IsUncut (style : Text) : Prop := ∀ name ∈ urlReferences style, ';' ∉ name ∧ ':' ∉ name

instance (style : Text) : Decidable (IsUncut style) :=
  inferInstanceAs (Decidable (∀ name ∈ urlReferences style, _))

theorem IsUncut.mono {style style' : Text} (h : IsUncut style)
    (hsub : urlReferences style' ⊆ urlReferences style)
    : IsUncut style' :=
  fun name hname => h name (hsub hname)

/-- The references in joined declarations are those in each, by induction over them. -/
theorem urlReferences_join {parts : List Text} (h : IsUncut (Text.join [';'] parts))
    : urlReferences (Text.join [';'] parts) = parts.flatMap urlReferences := by
  induction parts with
  | nil => exact urlReferenceScanner.findAll_nil
  | cons part parts ih =>
      by_cases hnil : parts = []
      · subst hnil
        rw [Text.join_singleton, List.flatMap_cons, List.flatMap_nil, List.append_nil]
      · rw [Text.join_cons _ _ hnil, List.singleton_append] at h ⊢
        have hsplit := urlReferences_separator (.inl rfl) part (Text.join [';'] parts)
          fun name hname => (h name hname).1
        rw [hsplit, List.flatMap_cons, ih (h.mono ?_)]
        rw [hsplit]
        exact List.subset_append_right _ _

/-- The references in a declaration stay when blanks go from it. -/
theorem urlReferences_declaration {s : Text} {d : Declaration}
    (hd : Declaration.ofText? s = some d) (hs : IsUncut s) (htext : IsUncut d.text)
    : urlReferences d.text = urlReferences s := by
  obtain ⟨⟨property, value⟩, hsplit, rfl⟩ := Option.map_eq_some_iff.mp hd
  have heq := Text.eq_of_splitAtLiteral? hsplit
  rw [List.append_assoc, List.singleton_append] at heq
  subst heq
  rw [Declaration.text, urlReferences_separator (.inr rfl) _ _ fun name h => (htext name h).2,
    urlReferences_separator (.inr rfl) _ _ fun name h => (hs name h).2]
  dsimp only
  rw [urlReferences_trim, urlReferences_trim]

/-- A declaration is written by a piece of the style. -/
theorem exists_piece_of_mem_declarations {style : Text} {d : Declaration}
    (hd : d ∈ declarations style)
    : ∃ piece ∈ Text.splitOnChar (· == ';') style, Declaration.ofText? piece = some d :=
  List.mem_filterMap.mp hd

theorem compactStyle?_eq_some_iff {style text : Text}
    : compactStyle? style = some text
      ↔ declarations style ≠ []
        ∧ text = Text.join [';'] ((declarations style).map Declaration.text) := by
  unfold compactStyle?
  dsimp only
  by_cases hnil : declarations style = []
  · simp [hnil]
  · rw [if_neg (by simpa using hnil), Option.some.injEq]
    exact ⟨fun h => ⟨hnil, h.symm⟩, fun h => h.2.symm⟩

/-- The compact form of a style has no reference that the style does not have. -/
theorem urlReferences_compactStyle? {style text : Text} (h : compactStyle? style = some text)
    (hstyle : IsUncut style) (htext : IsUncut text)
    : urlReferences text ⊆ urlReferences style := by
  obtain ⟨-, rfl⟩ := compactStyle?_eq_some_iff.mp h
  have hpieces := Text.join_splitOnChar ';' style
  have hwhole := urlReferences_join (hpieces.symm ▸ hstyle)
  have hparts := urlReferences_join htext
  rw [hpieces] at hwhole
  rw [IsUncut, hparts] at htext
  intro name hname
  rw [hparts] at hname
  obtain ⟨part, hpart, hname⟩ := List.mem_flatMap.mp hname
  obtain ⟨d, hd, rfl⟩ := List.mem_map.mp hpart
  obtain ⟨piece, hpiece, hread⟩ := exists_piece_of_mem_declarations hd
  have hinside : urlReferences piece ⊆ urlReferences style := by
    rw [hwhole]
    exact fun name hname => List.mem_flatMap.mpr ⟨piece, hpiece, hname⟩
  rw [urlReferences_declaration hread (hstyle.mono hinside)
    fun name hname => htext name (List.mem_flatMap.mpr ⟨d.text, hpart, hname⟩)] at hname
  exact hinside hname

/-- A declaration in its text has no semicolon, and no colon in the property. -/
theorem ofText?_text_of_mem_declarations {style : Text} {d : Declaration}
    (hd : d ∈ declarations style)
    : (∀ c ∈ d.text, (c == ';') = false) ∧ Declaration.ofText? d.text = some d := by
  obtain ⟨piece, hpiece, hread⟩ := exists_piece_of_mem_declarations hd
  obtain ⟨⟨property, value⟩, hsplit, rfl⟩ := Option.map_eq_some_iff.mp hread
  have heq := Text.eq_of_splitAtLiteral? hsplit
  rw [List.append_assoc, List.singleton_append] at heq
  subst heq
  constructor
  · intro c hc
    refine Text.eq_false_of_mem_splitOnChar hpiece ?_
    rcases List.mem_append.mp hc with hc | hc
    · exact List.mem_append_left _ (Text.mem_of_mem_trim hc)
    · rcases List.mem_cons.mp hc with rfl | hc
      · simp
      · exact List.mem_append_right _ (List.mem_cons_of_mem _ (Text.mem_of_mem_trim hc))
  · have hnot : ':' ∉ Text.trim property := fun hc =>
      Text.not_mem_of_splitAtLiteral? hsplit (Text.mem_of_mem_trim hc)
    rw [Declaration.ofText?, Declaration.text, Text.splitAtLiteral?_cons hnot, Option.map_some]
    dsimp only
    rw [Text.trim_trim, Text.trim_trim]

/-- A compact style is its own compact form. -/
theorem compactStyle?_again {style text : Text} (h : compactStyle? style = some text)
    : compactStyle? text = some text := by
  obtain ⟨hne, rfl⟩ := compactStyle?_eq_some_iff.mp h
  have hsplit := @Text.splitOnChar_join (· == ';') ';'
    ((declarations style).map Declaration.text) (by simpa using hne)
    (List.forall_mem_map.mpr fun d hd => (ofText?_text_of_mem_declarations hd).1) rfl
  have hsame : declarations (Text.join [';'] ((declarations style).map Declaration.text))
      = declarations style := by
    rw [declarations, hsplit, List.filterMap_map]
    calc (declarations style).filterMap (Declaration.ofText? ∘ Declaration.text)
        = (declarations style).filterMap some :=
          List.filterMap_congr fun d hd => (ofText?_text_of_mem_declarations hd).2
      _ = declarations style := List.filterMap_some
  exact compactStyle?_eq_some_iff.mpr ⟨by rwa [hsame], by rw [hsame]⟩

-----------------------------------------------------------------------------------------
-- References of attributes
-----------------------------------------------------------------------------------------

/-- An attribute refers to an identifier, by a `url` reference somewhere in the value, by a link
or by a list of labels.
-/
inductive Refers (x : Text) (a : Attribute) : Prop where
  | url (before behind : Text)
    (value : a.value = before ++ 'u' :: 'r' :: 'l' :: '(' :: '#' :: (x ++ ')' :: behind))
  | link (base : a.name.base = ("href" : Text)) (value : Text.trim a.value = '#' :: x)
  | label (base : a.name.base = ("aria-labelledby" : Text)
      ∨ a.name.base = ("aria-describedby" : Text))
    (word : x ∈ Text.words a.value)

/-- A character of a link target behind its first one. -/
def isTargetChar (c : Char) : Bool := Text.isWord c || c == '.' || c == ':' || c == '-'

/-- A link may have the identifier as its target: a letter of ASCII or an underscore, and then
word characters, full stops, colons and hyphens.
-/
def isTarget : Text → Bool
  | [] => false
  | c :: s => (c.isAlpha || c == '_') && s.all isTargetChar

theorem isTargetChar_of_isBlank {c : Char} (hc : Text.isBlank c) : isTargetChar c = false := by
  have hascii : ∀ n < 128, Text.isBlank (Char.ofNat n) → !isTargetChar (Char.ofNat n) := by
    decide +kernel
  have hwide : Text.wideBlanks.all fun c => !isTargetChar c := by
    decide +kernel
  have hblank := Text.of_isBlank hascii hwide hc
  simpa using hblank

theorem linkTarget?_of_trim {value x : Text} (h : Text.trim value = '#' :: x)
    (hx : isTarget x)
    : linkTarget? value = some x := by
  obtain ⟨front, back, hfront, hback, heq⟩ := Text.exists_eq_trim value
  cases x with
  | nil => cases hx
  | cons c s =>
      rw [isTarget, Bool.and_eq_true] at hx
      have hdrop : Text.dropBlank value = '#' :: c :: (s ++ back) := by
        rw [heq, Text.dropBlank_append hfront, h]
        exact List.dropWhile_cons_of_neg (by decide)
      have hstops : Stops isTargetChar back := by
        intro d hd
        exact isTargetChar_of_isBlank (List.all_eq_true.mp hback d (List.mem_of_head? hd))
      rw [linkTarget?, hdrop]
      change (if (c.isAlpha || c == '_') && Text.allBlank ((s ++ back).dropWhile isTargetChar) then
        some (c :: (s ++ back).takeWhile isTargetChar) else none) = _
      rw [takeWhile_append_stops (List.all_eq_true.mp hx.2) hstops,
        dropWhile_append_stops (List.all_eq_true.mp hx.2) hstops, hx.1, hback]
      rfl

/-- The only parenthesis in the opening of a reference is its fourth character. -/
theorem exists_of_opening {opening : Text} (h : IsUrlOpening opening)
    : ∃ rest, opening = 'u' :: 'r' :: 'l' :: '(' :: rest ∧ '(' ∉ rest := by
  obtain ⟨gap, quote, rfl, hgap, hquote⟩ := h
  refine ⟨_, rfl, fun hmem => ?_⟩
  rcases List.mem_append.mp hmem with hmem | hmem
  · exact absurd (List.all_eq_true.mp hgap _ hmem) (by decide)
  · rcases hquote with rfl | rfl | rfl <;> simp at hmem

/-- Behind the beginning of a reference no other one is opened, unless its name holds a
parenthesis.
-/
theorem mem_of_opening_append {opening name before rest : Text} {c : Char}
    (hopening : IsUrlOpening opening)
    (heq : opening ++ name = c :: before ++ 'u' :: 'r' :: 'l' :: '(' :: rest)
    : '(' ∈ name := by
  obtain ⟨inner, rfl, hinner⟩ := exists_of_opening hopening
  rcases before with _ | ⟨d, _ | ⟨e, _ | ⟨g, before⟩⟩⟩
  · simp at heq
  · simp at heq
  · simp at heq
  · simp only [List.cons_append, List.cons.injEq] at heq
    obtain ⟨-, -, -, -, heq⟩ := heq
    have hmem : '(' ∈ inner ++ name := heq ▸ by simp
    exact (List.mem_append.mp hmem).resolve_left hinner

/-- A `url` reference in a value is found there if no name holds a parenthesis. The induction is
on the length of what stands in front of it.
-/
theorem mem_urlReferences {x before behind : Text} (hx : x ≠ []) (hchars : ∀ c ∈ x, isUrlChar c)
    (h : ∀ name ∈ urlReferences
      (before ++ 'u' :: 'r' :: 'l' :: '(' :: '#' :: (x ++ ')' :: behind)), '(' ∉ name)
    : x ∈ urlReferences (before ++ 'u' :: 'r' :: 'l' :: '(' :: '#' :: (x ++ ')' :: behind)) := by
  have hclosed : Stops isUrlChar (')' :: behind) := by
    rintro _ ⟨⟩
    decide
  generalize hlength : before.length = n
  induction n using Nat.strongRecOn generalizing before with
  | _ n ih =>
      cases before with
      | nil =>
          have hread := readUrlReference?_eq_some_iff.mpr ⟨['u', 'r', 'l', '(', '#'],
            ⟨[], [], rfl, rfl, .inl rfl⟩, rfl, hx, hchars, hclosed⟩
          have hfound := urlReferenceScanner.findAll_of_read hread
          change x ∈ urlReferenceScanner.findAll (['u', 'r', 'l', '(', '#'] ++ (x ++ ')' :: behind))
          rw [hfound]
          exact List.mem_cons_self
      | cons c before =>
          cases hread : readUrlReference?
              (c :: before ++ 'u' :: 'r' :: 'l' :: '(' :: '#' :: (x ++ ')' :: behind)) with
          | none =>
              rw [List.cons_append] at hread
              rw [List.cons_append, urlReferences,
                urlReferenceScanner.findAll_of_read_none hread] at h ⊢
              exact ih before.length (by rw [← hlength]; simp) h rfl
          | some found =>
              obtain ⟨name, rest⟩ := found
              rw [urlReferences, urlReferenceScanner.findAll_of_read hread] at h ⊢
              obtain ⟨opening, hopening, heq, -, -, hrest⟩ :=
                readUrlReference?_eq_some_iff.mp hread
              rw [← List.append_assoc] at heq
              rcases List.append_eq_append_iff.mp heq with ⟨front, hfront, htail⟩
                | ⟨back, hback, rfl⟩
              · -- the name ends within the reference, and so not before its parenthesis
                have hopens := @exists_append_of_stops isUrlChar ['u', 'r', 'l', '('] _ front rest
                  (List.all_eq_true.mp (by decide)) hrest htail
                obtain ⟨more, rfl⟩ := hopens
                exact absurd (mem_of_opening_append hopening hfront) (h name List.mem_cons_self)
              · obtain ⟨inner, rfl, -⟩ := exists_of_opening hopening
                have hshorter : back.length < n := by
                  rw [← hlength, hback]
                  simp only [List.length_append, List.length_cons]
                  omega
                exact List.mem_cons_of_mem _ (ih back.length hshorter
                  (fun name hname => h name (List.mem_cons_of_mem _ hname)) rfl)

end Minify

end SvgKit

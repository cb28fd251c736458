import SvgKit.Proofs.Markup.Renaming
import SvgKit.Proofs.Minify.Identifiers
import SvgKit.Proofs.Minify.Readable
import SvgKit.Proofs.Optimize.Run
import SvgKit.Proofs.Sanitize.Harmless
import SvgKit.Proofs.Text.Ascii

/-! An optimized document whose dangerous content was removed is harmless, unless it hides some of
it: neither minification nor the form with capitals makes harmless elements dangerous.
-/

namespace SvgKit.Optimize

open Sanitize
open Xml (Attribute Binding Document Head Ledger Name Node Spelling Tag Value)
open Minify (AllStem HeadStems)
open Markup (Behind Renamed RenamedPair RenamedTag)

-----------------------------------------------------------------------------------------
-- Renamed names
-----------------------------------------------------------------------------------------

theorem isLower_of_isBlank {c : Char} (h : Text.isBlank c)
    : Text.isFoldedLetter c = false ∧ c.isLower = false := by
  have hwide : Text.wideBlanks.all fun c => !Text.isFoldedLetter c && !c.isLower := by
    with_unfolding_all decide
  have hascii : ∀ n < 128, Text.isBlank (Char.ofNat n)
      → !Text.isFoldedLetter (Char.ofNat n) && !(Char.ofNat n).isLower := by
    with_unfolding_all decide
  have hblank := Text.of_isBlank hascii hwide h
  simpa using hblank

/-- No name of a dangerous element has a blank in it, nor what stands for one. -/
theorem isDangerousElement_eq_false_of_isBlank {name : Text} {c : Char} (hmem : c ∈ name)
    (hc : Text.isBlank c)
    : isDangerousElement name = false := by
  have hletters : dangerousElements.all fun dangerous => (folded dangerous).all Char.isLower := by
    with_unfolding_all decide
  refine List.any_eq_false.mpr fun dangerous hdangerous heq => ?_
  have heq : folded dangerous = name.map Text.foldChar := by simpa using heq
  have hfold : Text.foldChar c ∈ folded dangerous := heq ▸ List.mem_map_of_mem hmem
  have hlower := List.all_eq_true.mp (List.all_eq_true.mp hletters dangerous hdangerous) _ hfold
  rw [← Text.isFoldedLetter, (isLower_of_isBlank hc).1] at hlower
  cases hlower

/-- The names of attributes with URLs consist of small letters. -/
theorem isLower_of_mem_linkNames {name : Text} (hname : name ∈ linkNames) {c : Char}
    (hc : c ∈ name)
    : c.isLower := by
  have hall : linkNames.all fun name => name.all Char.isLower := by with_unfolding_all decide
  exact List.all_eq_true.mp (List.all_eq_true.mp hall name hname) c hc

section Names

variable {n n' : Spelling}

theorem isDangerousElement_of_behind (h : Behind n n')
    (hn : isDangerousElement n.base = false)
    : isDangerousElement n'.base = false := by
  cases h with
  | same => exact hn
  | blank space front hc s s' => exact isDangerousElement_eq_false_of_isBlank (by simp) hc

/-- What makes a name that of a handler stands in front of blanks. -/
theorem isHandlerName_of_behind (h : Behind n n') (hn' : isHandlerName n'.base)
    : isHandlerName n.base := by
  cases h with
  | same => exact hn'
  | @blank space front c hc s s' =>
      have hnot := (isLower_of_isBlank hc).1
      have hne {x : Char} (hx : x.isLower) : Text.foldChar c ≠ x := by
        intro heq
        rw [Text.isFoldedLetter, heq, hx] at hnot
        cases hnot
      rcases front with _ | ⟨x, _ | ⟨y, _ | ⟨z, front⟩⟩⟩
      · cases s' with
        | nil => cases hn'
        | cons y s' => cases s' <;> simp [isHandlerName, hne (show 'o'.isLower by decide)] at hn'
      · cases s' <;> simp [isHandlerName, hne (show 'n'.isLower by decide)] at hn'
      · simp [isHandlerName, hnot] at hn'
      · exact hn'

theorem space_of_renamed (h : Renamed n n') : n'.space = n.space := by
  rcases h with _ | ⟨_ | _⟩ <;> rfl

/-- A renamed name is that of a handler if it was before, or if its form with capitals is. -/
theorem isHandlerName_of_renamed (h : Renamed n n') (hn' : isHandlerName n'.base)
    : isHandlerName n.base ∨ isHandlerName (capitalizedName n.base) := by
  cases h with
  | behind h => exact .inl (isHandlerName_of_behind h hn')
  | @first word after hkebab hword hafter =>
      refine .inr ?_
      rw [capitalizedName, takeWhile_append_stops hword hafter,
        dropWhile_append_stops hword hafter, Markup.camelCaseWord, if_pos hkebab]
      exact hn'

/-- No other name becomes that of an attribute with a URL. -/
theorem eq_of_renamed (h : Renamed n n') (hlink : n'.base ∈ linkNames) : n' = n := by
  cases h with
  | @first word after hkebab hword hafter =>
      obtain ⟨x, hx, hlower⟩ := Markup.exists_mem_camelCase (Markup.not_mem_line hword) hkebab
      rw [isLower_of_mem_linkNames hlink (List.mem_append_left _ hx)] at hlower
      cases hlower
  | behind h =>
      cases h with
      | same => rfl
      | @blank space front c hc s s' =>
          have hlower := isLower_of_mem_linkNames hlink (by simp : c ∈ front ++ c :: s')
          rw [(isLower_of_isBlank hc).2] at hlower
          cases hlower

/-- A renamed declaration of a namespace is one. -/
theorem declares?_of_renamed {b : Binding} (h : Renamed b.spelling n) (value : Text)
    (spelling : Option Text)
    : (Xml.RawAttribute.declares? ⟨n, value, spelling⟩).isSome := by
  generalize hb : b.spelling = m at h
  have hxmlns (hspace : m.space = none) : m.base = ("xmlns" : Text) := by
    rw [← hb, Binding.spelling] at hspace ⊢
    rw [Option.map_eq_none_iff.mp hspace]
    rfl
  cases h with
  | @first word after hkebab hword hafter =>
      have hhyphen := Markup.mem_hyphen_of_isKebabCase (Markup.not_mem_line hword) hkebab
      have hmem : '-' ∈ ("xmlns" : Text) := hxmlns rfl ▸ List.mem_append_left _ hhyphen
      exact absurd hmem (by with_unfolding_all decide)
  | behind h =>
      cases h with
      | same =>
          rw [← hb, Binding.declares?_spelling]
          rfl
      | @blank space front c hc s s' =>
          cases space with
          | none =>
              have hmem : c ∈ ("xmlns" : Text) := hxmlns rfl ▸ by simp
              have hlower : ("xmlns" : Text).all Char.isLower := by with_unfolding_all decide
              have := List.all_eq_true.mp hlower c hmem
              rw [(isLower_of_isBlank hc).2] at this
              cases this
          | some label =>
              have hspace := congrArg Spelling.space hb
              obtain ⟨_, -, rfl⟩ := Option.map_eq_some_iff.mp hspace
              simp [Xml.RawAttribute.declares?]

end Names

-----------------------------------------------------------------------------------------
-- Tags that are read again
-----------------------------------------------------------------------------------------

/-- A name, or its form with capitals where names get that form. -/
def MayRename (capitals : Bool) (n n' : Spelling) : Prop := n' = n ∨ capitals = true ∧ Renamed n n'

theorem MayRename.renamed {capitals : Bool} {n n' : Spelling} (h : MayRename capitals n n')
    : Renamed n n' := by
  rcases h with rfl | ⟨-, h⟩
  · exact .behind (.same _)
  · exact h

/-- A tag that says what a head does, with names in the form with capitals or as they are. -/
structure Says (capitals : Bool) (h : Head) (t : Tag) : Prop where
  name : Behind h.name.spelling t.name
  given : List.Forall₂ (fun pair pair' => MayRename capitals pair.1 pair'.1 ∧ pair'.2 = pair.2)
    h.tag.given t.given

section Reading

variable {capitals : Bool} {next' : Nat} {made made' : List Binding} {h h' : Head} {t : Tag}
  {scope : List Binding} {mark : Nat}

/-- An attribute that is read in a tag is one of the head. -/
theorem exists_of_read? (hs : h.Sound made) (ht : Says capitals h t)
    (hread : t.read? scope mark = some h') (hledger' : Ledger next' made') (hs' : h'.Sound made')
    {a' : Attribute} (ha' : a' ∈ h'.attributes)
    : ∃ a ∈ h.attributes, MayRename capitals a.name.spelling a'.name.spelling
      ∧ a.spelling = none ∧ a'.value = a.value := by
  obtain ⟨-, hattributes⟩ := Xml.exists_given_of_readHead? rfl hread
  obtain ⟨pair', hpair', hname, hvalue⟩ := hattributes a' ha'
  have hvalue := hvalue (Xml.plain_of_readHead? hread a' ha')
  obtain ⟨pair, hpair, hrenamed, heq⟩ := exists_mem_left_of_forall₂ ht.given hpair'
  rw [← hname] at hrenamed
  rw [heq] at hvalue
  rcases List.mem_append.mp hpair with hmem | hmem
  · obtain ⟨b, -, rfl⟩ := List.mem_map.mp hmem
    have hdeclares := declares?_of_renamed hrenamed.renamed a'.value a'.spelling
    rw [(hs'.attributes a' ha').declares?_spelling hledger'] at hdeclares
    cases hdeclares
  · obtain ⟨a, ha, rfl⟩ := List.mem_map.mp hmem
    dsimp only at hrenamed hvalue
    have hplain : a.spelling = none := by
      cases hspelling : a.spelling with
      | none => rfl
      | some s =>
          obtain ⟨value, hsound, hentity, rfl⟩ := (hs.attributes a ha).spelling s hspelling
          rw [Attribute.references, hspelling] at hvalue
          dsimp only at hvalue
          rw [Xml.readValue?_spelled hsound, Option.getD_some] at hvalue
          rw [hvalue] at hentity
          simp [Xml.Reference.isEntity] at hentity
    rw [Attribute.references_of_plain hplain] at hvalue
    have hinjective : Function.Injective Xml.Reference.char := fun _ _ h => by cases h; rfl
    exact ⟨a, ha, hrenamed, hplain, (List.map_injective_iff.mpr hinjective hvalue).symm⟩

/-- What is read in a tag of a harmless head is harmless, if no other name of an attribute becomes
that of a handler.
-/
theorem isHarmless_of_read? (hs : h.Sound made) (hharmless : IsHarmless h)
    (hwords : capitals → ∀ a ∈ h.attributes, a.name.binding = none
      → isHandlerName (capitalizedName a.name.base) → isHandlerName a.name.base)
    (ht : Says capitals h t) (hread : t.read? scope mark = some h')
    (hledger' : Ledger next' made') (hs' : h'.Sound made')
    : IsHarmless h' := by
  have hname := (Xml.exists_given_of_readHead? rfl hread).1
  have hunbound {a : Attribute} {made : List Binding} (ha : a.Sound made)
      : a.name.binding = none ↔ a.name.spelling.space = none := by
    refine ⟨fun h => by rw [Name.spelling, h]; rfl, fun h => ?_⟩
    by_contra hne
    obtain ⟨b, hb⟩ := Option.ne_none_iff_exists'.mp hne
    rw [Name.spelling, hb] at h
    exact ha.labelled b hb h
  refine ⟨?_, fun a' ha' hbinding => ?_, fun a' ha' _ hlink => ?_⟩
  · have := isDangerousElement_of_behind ht.name hharmless.element
    rwa [← hname] at this
  · obtain ⟨a, ha, hmay, -⟩ := exists_of_read? hs ht hread hledger' hs' ha'
    have hspace := (hunbound (hs'.attributes a' ha')).mp hbinding
    rw [space_of_renamed hmay.renamed] at hspace
    have hbinding' := (hunbound (hs.attributes a ha)).mpr hspace
    have hsafe := hharmless.handlers a ha hbinding'
    by_contra hhandler
    rw [Bool.not_eq_false] at hhandler
    rcases hmay with heq | ⟨hcapitals, hrenamed⟩
    · have hbase : a'.name.base = a.name.base := congrArg Spelling.base heq
      rw [hbase, hsafe] at hhandler
      cases hhandler
    · have hbefore : isHandlerName a.name.base :=
        (isHandlerName_of_renamed hrenamed hhandler).elim id (hwords hcapitals a ha hbinding')
      rw [hsafe] at hbefore
      cases hbefore
  · obtain ⟨a, ha, hmay, hplain, hvalue⟩ := exists_of_read? hs ht hread hledger' hs' ha'
    have hbase : a'.name.base = a.name.base :=
      congrArg Spelling.base (eq_of_renamed hmay.renamed hlink)
    rw [hvalue]
    exact hharmless.urls a ha hplain (hbase ▸ hlink)

end Reading

-----------------------------------------------------------------------------------------
-- Passes
-----------------------------------------------------------------------------------------

/-- A head that stems from a harmless one is harmless. -/
theorem isHarmless_of_stems {h h' : Head} (hstems : HeadStems h h') (hharmless : IsHarmless h)
    : IsHarmless h' := by
  have hlinks : linkNames.all fun name => !Minify.isNumeric name && !Minify.isPathData name
      && name ≠ ("style" : Text) := by
    with_unfolding_all decide
  refine ⟨by rw [hstems.base]; exact hharmless.element, fun a' ha' hbinding => ?_,
    fun a' ha' hplain hlink => ?_⟩
  · obtain ⟨a, ha, hbecomes⟩ := hstems.attributes a' ha'
    have hbound := hbecomes.bound
    rw [hbinding] at hbound
    rw [hbecomes.base]
    exact hharmless.handlers a ha (Option.isNone_iff_eq_none.mp hbound.symm)
  · obtain ⟨a, ha, hbecomes⟩ := hstems.attributes a' ha'
    rw [hbecomes.base] at hlink
    have hlink' := List.all_eq_true.mp hlinks _ hlink
    simp only [Bool.and_eq_true, Bool.not_eq_true', decide_eq_true_eq] at hlink'
    obtain ⟨⟨hnumeric, hpath⟩, hstyle⟩ := hlink'
    rcases hbecomes.value with hn | hp | ⟨hvalue, hspelling⟩ | ⟨hs, -⟩
    · rw [hnumeric] at hn
      cases hn
    · rw [hpath] at hp
      cases hp
    · rw [hvalue]
      exact hharmless.urls a ha (hspelling ▸ hplain) hlink
    · exact absurd hs hstyle

-----------------------------------------------------------------------------------------
-- Runs
-----------------------------------------------------------------------------------------

/-- Each head that is read again is read in the tag of a head. -/
theorem exists_of_reread {tagOf : Head → Tag} {scope : List Binding} {nodes nodes' : List Node}
    (h : Xml.Reread tagOf scope nodes nodes') {h' : Head} (hh' : h' ∈ Node.allHeads nodes')
    : ∃ h ∈ Node.allHeads nodes, ∃ scope mark, (tagOf h).read? scope mark = some h' := by
  induction h with
  | nil => simp at hh'
  | @element scope h _ _ _ _ _ mark hread _ _ inside behind =>
      simp only [Node.allHeads_element, List.mem_cons, List.mem_append] at hh' ⊢
      rcases hh' with rfl | hh' | hh'
      · exact ⟨h, .inl rfl, scope, mark, hread⟩
      · obtain ⟨head, hhead, hread⟩ := inside hh'
        exact ⟨head, .inr (.inl hhead), hread⟩
      · obtain ⟨head, hhead, hread⟩ := behind hh'
        exact ⟨head, .inr (.inr hhead), hread⟩
  | text s _ ih =>
      rw [Node.allHeads_text] at hh' ⊢
      exact ih hh'
  | space s _ _ ih =>
      rw [Node.allHeads_text]
      exact ih hh'

/-- The text that is minified once dangerous content has been removed. -/
def Request.sanitizedText (r : Request) : Text := (Sanitize.sanitize {} (Text.trim r.content)).text

/-- The text of a minified document, with names in the form with capitals where that is asked
for.
-/
def textOf (capitals : Bool) (f : Minify.Finish) : Text :=
  if capitals then Markup.camelCaseAttributes f.text else f.text

theorem dropDeclaration_suffix (s : Text) : Minify.dropDeclaration s <:+ s := by
  unfold Minify.dropDeclaration
  split
  · exact List.suffix_rfl
  · next rest hrest =>
      split
      · next c after hafter =>
          split
          · have hbehind : after <:+ rest := by
              have := List.dropWhile_suffix (l := rest) (· ≠ '>')
              rw [hafter] at this
              exact (List.suffix_cons _ _).trans this
            have hfront : rest <:+ Text.dropBlank s :=
              Text.dropLiteral?_eq_some_iff.mp hrest ▸ List.suffix_append _ _
            exact (hbehind.trans hfront).trans (List.dropWhile_suffix _)
          · exact List.suffix_rfl
      · exact List.suffix_rfl

theorem exists_finish_of_run {r : Request} {result : Result} (hsanitize : r.sanitize = true)
    (h : run r = .ok result)
    : ∃ f, Minify.finish true 3 r.sanitizedText = .ok f ∧ result.text = textOf r.camelCase f := by
  obtain ⟨-, f, hfinish, htext⟩ := exists_finish_of_text h
  rw [Request.checkedText, if_pos hsanitize] at hfinish
  exact ⟨f, hfinish, htext⟩

/-- The text of a sound document says what its heads do. -/
theorem exists_says {made : List Binding} {d : Document} (hd : d.Sound made) (capitals : Bool)
    : ∃ tagOf : Head → Tag, Xml.SoundTags tagOf
      ∧ (∀ h : Head, h.tag.Sound → Says capitals h (tagOf h))
      ∧ (if capitals then Markup.camelCaseAttributes d.root.write else d.root.write)
        = Node.writeAllWith tagOf d.root.forest := by
  cases capitals with
  | false =>
      refine ⟨Head.tag, Xml.soundTags_tag, fun h hh => ⟨.same _, ?_⟩, ?_⟩
      · exact List.forall₂_same.mpr fun pair _ => ⟨.inl rfl, rfl⟩
      · rw [Node.writeAllWith_tag hd.tree]
        exact d.root.write_eq
  | true =>
      obtain ⟨tagOf, hrenamed, hwrite⟩ := Markup.exists_renamedTags hd.ledger hd.tree
      refine ⟨tagOf, fun made next hledger h hs => (hrenamed h (hs.tag hledger)).sound,
        fun h hh => ⟨(hrenamed h hh).name, (hrenamed h hh).given.imp fun _ _ hpair =>
          ⟨.inr ⟨rfl, hpair.1⟩, hpair.2⟩⟩, hwrite⟩

/-- Optimization makes a harmless document, if one more round of removals finds nothing and the
document hides nothing: what is read in its text has neither dangerous elements nor handlers nor
dangerous URLs.
-/
theorem isHarmless_of_run {r : Request} {result : Result} (hsanitize : r.sanitize = true)
    (h : run r = .ok result)
    (hsettled : (Sanitize.sanitize {} r.sanitizedText).issues = []) {source : Document}
    (hread : Minify.readDocument r.sanitizedText = .ok source)
    (hhides : HidesNothing r.camelCase (Minify.dropDeclaration r.sanitizedText) source)
    {d : Document} (hd : Document.ofText? result.text = some d)
    : ∀ h ∈ d.root.heads, IsHarmless h ∧ h.Plain := by
  obtain ⟨f, hfinish, htext⟩ := exists_finish_of_run hsanitize h
  obtain ⟨-, hsource, -⟩ := Minify.readDocument_eq_ok.mp hread
  have hharmless := isHarmless_of_ofText? (isSettled_of_issues hsettled)
    (dropDeclaration_suffix r.sanitizedText) hsource hhides
  -- the passes
  rw [Minify.finish, hread] at hfinish
  obtain ⟨made, hsound⟩ := Xml.sound_of_ofText? hsource
  obtain ⟨⟨more, -, hf, hchanges⟩, hwrite⟩ := Minify.steps_of_runPasses hsound rfl hfinish
  obtain ⟨n, -, hpasses⟩ := Minify.passes_of_runPasses hfinish
  have hstems := Minify.allStem_of_passes hsound hpasses
  have htidy : Xml.Tidy false Xml.maxDepth source.root.forest :=
    Xml.tidy_of_ofText? (by simp) hsource
  -- the text
  obtain ⟨tagOf, hsoundTags, htags, hwritten⟩ := exists_says hf r.camelCase
  have htext' : result.text = Node.writeAllWith tagOf f.document.root.forest := by
    rw [htext, textOf, ← hwrite, ← hwritten]
  rcases Xml.ofText?_writeAllWith hsoundTags hf.ledger hf.tree (Minify.Changes.tidy hchanges htidy).1 with
    ⟨hnone, -⟩ | ⟨d', hd', hreread⟩
  · rw [htext', hnone] at hd
    cases hd
  · obtain rfl : d' = d := by
      rw [htext', hd'] at hd
      exact Option.some.inj hd
    obtain ⟨made', hsound'⟩ := Xml.sound_of_ofText? (htext' ▸ hd' : Document.ofText? _ = some d')
    intro h' hh'
    rw [Xml.Element.heads_eq] at hh'
    obtain ⟨h, hh, scope, mark, htag⟩ := exists_of_reread hreread hh'
    obtain ⟨h₀, hh₀, hstem⟩ := hstems h hh
    rw [← Xml.Element.heads_eq] at hh₀
    have hs := hf.tree.heads h hh
    refine ⟨isHarmless_of_read? hs (isHarmless_of_stems hstem (hharmless h₀ hh₀))
      (fun hcapitals a ha hbinding => ?_) (htags h (hs.tag hf.ledger)) htag hsound'.ledger
      (hsound'.tree.heads h' hh'), Xml.plain_of_readHead? htag⟩
    obtain ⟨a₀, ha₀, hbecomes⟩ := hstem.attributes a ha
    have hbound := hbecomes.bound
    rw [hbinding] at hbound
    rw [hbecomes.base]
    exact hhides.words hcapitals h₀ hh₀ a₀ ha₀ (Option.isNone_iff_eq_none.mp hbound.symm)

/-- A drawing with something dangerous of every kind. -/
def sampleAttack : Request where
  content := "<svg onload=\"a()\"><script>b</script><a href=\" JavaScript:c\" stroke-width=\"1.50\"/>"
    ++ "<IFRAME/><g on=\"d\" src=\"e\"/></svg>"
  sanitize := true

theorem isHarmless_of_run_sampleAttack
    : ∃ result source d, run sampleAttack = .ok result
      ∧ (Sanitize.sanitize {} sampleAttack.sanitizedText).issues = []
      ∧ Minify.readDocument sampleAttack.sanitizedText = .ok source
      ∧ HidesNothing true (Minify.dropDeclaration sampleAttack.sanitizedText) source
      ∧ result.text = ("<svg><a strokeWidth=\"1.5\"/></svg>" : Text)
      ∧ Document.ofText? result.text = some d ∧ ∀ h ∈ d.root.heads, IsHarmless h ∧ h.Plain := by
  have hsettled : (Sanitize.sanitize {} sampleAttack.sanitizedText).issues = [] := by
    decide +kernel
  have hrun : (run sampleAttack).toOption.map (·.text)
      = some ("<svg><a strokeWidth=\"1.5\"/></svg>" : Text) := by
    decide +kernel
  have hread : (Minify.readDocument sampleAttack.sanitizedText).toOption.map (fun source => decide
      (HidesNothing true (Minify.dropDeclaration sampleAttack.sanitizedText) source))
      = some true := by
    decide +kernel
  have hdocument : (Document.ofText? "<svg><a strokeWidth=\"1.5\"/></svg>").isSome := by
    decide +kernel
  obtain ⟨d, hd⟩ := Option.isSome_iff_exists.mp hdocument
  cases hr : run sampleAttack with
  | error e =>
      rw [hr] at hrun
      cases hrun
  | ok result =>
      cases hs : Minify.readDocument sampleAttack.sanitizedText with
      | error e =>
          rw [hs] at hread
          cases hread
      | ok source =>
          rw [hr] at hrun
          rw [hs] at hread
          have htext : result.text = ("<svg><a strokeWidth=\"1.5\"/></svg>" : Text) :=
            Option.some.inj hrun
          have hhides := of_decide_eq_true (Option.some.inj hread)
          rw [← htext] at hd
          exact ⟨result, source, d, rfl, hsettled, rfl, hhides, htext, hd,
            isHarmless_of_run rfl hr hsettled hs hhides hd⟩

/-- Drawings that hide something dangerous from the scanners, each in another way. -/
def hiddenAttacks : List Text :=
  [ "<svg xmlns:x=\"http://www.w3.org/2000/svg\"><x:script>alert(1)</x:script></svg>",
    "<svg><scr<script></script>ipt>a</scr<script></script>ipt></svg>",
    "<svg><script a=\">\"/></svg>",
    "<svg onload2=\"x\"/>",
    "<svg href=\"&#106;avascript:x\"/>",
    "<svg on-load=\"x\"/>",
    "<?xml version=\"1.0\"?><!DOCTYPE svg [<!ATTLIST svg onload CDATA \"x\">]><svg/>" ]

/-- What is hidden is still there in the result. -/
theorem not_isHarmless_of_run_hiddenAttacks
    : List.Forall (fun content => ∃ result d, run { content, sanitize := true } = .ok result
        ∧ Document.ofText? result.text = some d ∧ ∃ h ∈ d.root.heads, ¬ IsHarmless h)
      hiddenAttacks := by
  have hall : hiddenAttacks.all fun content =>
      (run { content, sanitize := true }).toOption.any fun result =>
        (Document.ofText? result.text).any fun d =>
          d.root.heads.any fun h => !decide (IsHarmless h) := by
    decide +kernel
  rw [List.forall_iff_forall_mem]
  intro content hcontent
  have hany := List.all_eq_true.mp hall content hcontent
  cases hrun : run { content, sanitize := true } with
  | error e =>
      rw [hrun] at hany
      cases hany
  | ok result =>
      rw [hrun, Except.toOption, Option.any_some, Option.any_eq_true] at hany
      obtain ⟨d, hd, hheads⟩ := hany
      obtain ⟨h, hh, hharmful⟩ := List.any_eq_true.mp hheads
      exact ⟨result, d, rfl, hd, h, hh, by simpa using hharmful⟩

end SvgKit.Optimize

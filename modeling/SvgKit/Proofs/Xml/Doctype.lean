import SvgKit.Proofs.Xml.Name

/-! Default attributes of a document type declaration are sound, and values consist of
characters of documents once their entities are replaced.
-/

namespace SvgKit.Xml

-----------------------------------------------------------------------------------------
-- Default attributes
-----------------------------------------------------------------------------------------

/-- A name and a value made of references and characters. -/
def SoundPair (pair : Spelling × Value) : Prop := pair.1.Sound ∧ ∀ r ∈ pair.2, r.Sound

/-- A rule for an attribute with a sound name and, if it has one, a sound default. -/
structure AttributeRule.Sound (r : AttributeRule) : Prop where
  name : r.name.Sound
  default : ∀ value, r.default = some value → ∀ ref ∈ value, ref.Sound

/-- A document type declaration whose rules are sound. -/
def Doctype.Sound (d : Doctype) : Prop := ∀ r ∈ d.rules, r.Sound

theorem sound_of_spellingOfText? {s : Text} {n : Spelling} (h : Spelling.ofText? s = some n)
    : n.Sound := by
  unfold Spelling.ofText? at h
  split at h
  · next hname =>
      cases h
      exact sound_of_readSpelling? hname
  · cases h

theorem sound_of_readDefault? {words rest : List Word} {default : Option Value}
    (h : readDefault? words = some (default, rest))
    : ∀ value, default = some value → ∀ r ∈ value, r.Sound := by
  have hquoted {s : Text} {words : List Word}
      (h : (readValue? s).map (fun value => (some value, words)) = some (default, rest))
      : ∀ value, default = some value → ∀ r ∈ value, r.Sound := by
    obtain ⟨value, hvalue, heq⟩ := Option.map_eq_some_iff.mp h
    cases heq
    rintro _ ⟨⟩
    exact sound_of_readValue? hvalue
  unfold readDefault? at h
  split at h
  · exact hquoted h
  · split at h
    · cases h
      simp
    · split at h
      · split at h
        · exact hquoted h
        · cases h
      · cases h
  · cases h

/-- The rules of a declaration are sound, by induction over them. -/
theorem sound_of_readRules? {element : Spelling} {done rules : List AttributeRule}
    {count : Nat} {words : List Word}
    (h : readRules? element done count words = some rules) (hdone : ∀ r ∈ done, r.Sound)
    : ∀ r ∈ rules, r.Sound := by
  fun_induction readRules? element done count words with
  | case1 =>
      cases h
      simpa using hdone
  | case3 done count _ _ name tokenized _ _ hname default _ hdefault _ ih =>
      refine ih h (List.forall_mem_cons.mpr ⟨⟨?_, ?_⟩, hdone⟩)
      · exact sound_of_spellingOfText? hname
      · exact sound_of_readDefault? hdefault
  | case2 | case4 | case5 | case6 => cases h

theorem Doctype.Sound.declare? {d d' : Doctype} {words : List Word} (hd : d.Sound)
    (h : d.declare? words = some d')
    : d'.Sound := by
  unfold Doctype.declare? at h
  split at h
  · split at h
    · split at h
      · split at h
        · split at h
          · obtain ⟨_, _, rfl⟩ := Option.map_eq_some_iff.mp h
            exact hd
          · cases h
        · cases h
      · split at h
        · obtain ⟨_, _, rfl⟩ := Option.map_eq_some_iff.mp h
          exact hd
        · cases h
    · split at h
      · split at h
        · split at h
          · cases h
            exact hd
          · cases h
        · cases h
          exact hd
        · cases h
      · split at h
        · split at h
          · obtain ⟨rules, hrules, rfl⟩ := Option.map_eq_some_iff.mp h
            exact List.forall_mem_append.mpr ⟨hd, sound_of_readRules? hrules (by simp)⟩
          · cases h
        · split at h
          · cases h
            exact hd
          · cases h
  · cases h

/-- The declarations of an internal subset are sound, by induction over them. -/
theorem Doctype.Sound.readSubset? {d d' : Doctype} {s rest : Text} (hd : d.Sound)
    (h : readSubset? d s = some (d', rest))
    : d'.Sound := by
  fun_induction Xml.readSubset? d s with
  | case1 =>
      cases h
      exact hd
  | case2 _ _ _ _ _ ih => exact ih hd h
  | case4 _ _ _ _ ih => exact ih hd h
  | case6 _ _ _ _ ih => exact ih hd h
  | case8 d s _ next left hnext ih =>
      refine ih ?_ h
      unfold readDeclaration? at hnext
      split at hnext
      · obtain ⟨_, hdeclare, heq⟩ := Option.map_eq_some_iff.mp hnext
        cases heq
        exact hd.declare? hdeclare
      · cases hnext
  | case10 _ _ _ _ _ _ _ _ _ ih => exact ih hd h
  | case3 | case5 | case7 | case9 | case11 | case12 => cases h

theorem sound_of_readDoctype? {d : Doctype} {s rest : Text}
    (h : readDoctype? s = some (d, rest))
    : d.Sound := by
  have hempty (incomplete : Bool) : Doctype.Sound { incomplete } := by
    simp [Doctype.Sound]
  unfold readDoctype? at h
  split at h
  · cases h
  · split at h
    · cases h
    · split at h
      · next name words left _ =>
          dsimp only at h
          generalize (if words.isEmpty then some false else (dropExternal? words).bind
            fun left => if left.isEmpty then some true else none) = external at h
          split at h
          · cases h
            exact hempty _
          · split at h
            · next hsubset =>
                split at h
                · cases h
                  exact (hempty _).readSubset? hsubset
                · cases h
            · cases h
          · cases h
      · cases h

-----------------------------------------------------------------------------------------
-- Values
-----------------------------------------------------------------------------------------

/-- A text in place of a reference, put together from texts of documents. -/
theorem isChar_of_mapM_replacement? {d : Doctype} {expand? : Value → Option Text}
    {value : Value} {text : Text} (hvalue : ∀ r ∈ value, r.Sound)
    (hexpand : ∀ {content : Value} {text : Text}, (∀ r ∈ content, r.Sound)
      → expand? content = some text → ∀ c ∈ text, isChar c)
    (h : (value.mapM (d.replacement? expand?)).map List.flatten = some text)
    : ∀ c ∈ text, isChar c := by
  obtain ⟨texts, htexts, rfl⟩ := Option.map_eq_some_iff.mp h
  clear h
  induction value generalizing texts with
  | nil =>
      cases htexts
      simp
  | cons r value ih =>
      rw [List.forall_mem_cons] at hvalue
      rw [List.mapM_cons] at htexts
      obtain ⟨first, hfirst, htail⟩ := Option.bind_eq_some_iff.mp htexts
      obtain ⟨rest, hrest, heq⟩ := Option.bind_eq_some_iff.mp htail
      cases heq
      rw [List.flatten_cons]
      refine List.forall_mem_append.mpr ⟨?_, ih hvalue.2 rest hrest⟩
      cases r with
      | char c =>
          cases hfirst
          exact List.forall_mem_singleton.mpr hvalue.1
      | entity name =>
          simp only [Doctype.replacement?] at hfirst
          split at hfirst
          · obtain ⟨content, hcontent, htext⟩ := Option.bind_eq_some_iff.mp hfirst
            exact hexpand (sound_of_readValue? hcontent) htext
          · cases hfirst
          · split at hfirst
            · cases hfirst
              simp
            · cases hfirst

/-- Values consist of characters of documents, by induction over the depth of entities. -/
theorem isChar_of_expand? {d : Doctype} {depth : Nat} {value : Value} {text : Text}
    (hvalue : ∀ r ∈ value, r.Sound) (h : d.expand? depth value = some text)
    : ∀ c ∈ text, isChar c := by
  induction depth generalizing value text with
  | zero => exact isChar_of_mapM_replacement? hvalue (fun _ h => by cases h) h
  | succ depth ih => exact isChar_of_mapM_replacement? hvalue ih h

theorem isChar_of_valueText? {d : Doctype} {value : Value} {text : Text}
    (hvalue : ∀ r ∈ value, r.Sound) (h : d.valueText? value = some text)
    : ∀ c ∈ text, isChar c :=
  isChar_of_expand? hvalue h

end SvgKit.Xml

import SvgKit.Proofs.Xml.Extension

/-! Start tags that have been read up to some place: where a tag might be closed it may go on
instead, and a whole attribute may be left out there.
-/

namespace SvgKit.Xml

/-- The text may stand behind an attribute. -/
def EndsAttribute (s : Text) : Prop := ∃ c t, s = c :: t ∧ (isSpace c ∨ c = '>' ∨ c = '/')

section Tags

variable {done given : List (Spelling × Value)} {s rest : Text}

theorem endsAttribute_of_readAttributesAfter? {found : (List (Spelling × Value) × Bool) × Text}
    (h : readAttributesAfter? done s = some found)
    : EndsAttribute s := by
  unfold readAttributesAfter? at h
  split at h
  · exact ⟨_, _, rfl, .inr (.inl rfl)⟩
  · exact ⟨_, _, rfl, .inr (.inr rfl)⟩
  · next c s _ _ =>
      split at h
      · next hc => exact ⟨c, s, rfl, .inl hc⟩
      · cases h
  · cases h

theorem EndsAttribute.exists_delimiter (h : EndsAttribute s) : ∃ c t, s = c :: t ∧ c ∈ delimiters := by
  obtain ⟨c, t, rfl, hc | rfl | rfl⟩ := h
  · exact ⟨c, t, rfl, isSpace_mem_delimiters hc⟩
  · exact ⟨_, t, rfl, by decide⟩
  · exact ⟨_, t, rfl, by decide⟩

/-- Where no white space stands, the tag ends. -/
theorem readAttributesAfter?_of_not_space {c : Char} (hc : ¬ isSpace c)
    : readAttributesAfter? done (c :: s)
      = match c :: s with
        | '>' :: rest => some ((done.reverse, false), rest)
        | '/' :: '>' :: rest => some ((done.reverse, true), rest)
        | _ => none := by
  unfold readAttributesAfter?
  split <;> simp_all

/-- What stands behind the white space is all that matters. -/
theorem readAttributesAfter?_congr {c c' : Char} (hc : isSpace c) (hc' : isSpace c') {s' : Text}
    (h : dropSpace s = dropSpace s')
    : readAttributesAfter? done (c :: s) = readAttributesAfter? done (c' :: s') := by
  cases hread : readAttribute? (dropSpace s) with
  | some found =>
      rw [readAttributesAfter?_of_read hc hread, readAttributesAfter?_of_read hc' (h ▸ hread)]
  | none =>
      rw [readAttributesAfter?_of_read_none hc hread,
        readAttributesAfter?_of_read_none hc' (h ▸ hread), h]

/-- Attributes read before stand in front of those to come, by induction over the reading. -/
theorem readAttributesAfter?_eq (done : List (Spelling × Value)) (s : Text)
    : readAttributesAfter? done s
      = (readAttributesAfter? [] s).map fun ((given, isEmpty), rest) =>
        ((done.reverse ++ given, isEmpty), rest) := by
  induction hlength : s.length using Nat.strong_induction_on generalizing done s with
  | _ length ih =>
      cases s with
      | nil => simp [readAttributesAfter?]
      | cons c s =>
          by_cases hc : isSpace c
          · cases hread : readAttribute? (dropSpace s) with
            | some found =>
                obtain ⟨a, left⟩ := found
                have hshorter : left.length < length := by
                  have := length_readAttribute? hread
                  have := length_dropSpace s
                  rw [← hlength, List.length_cons]
                  omega
                rw [readAttributesAfter?_of_read hc hread, readAttributesAfter?_of_read hc hread,
                  ih _ hshorter (a :: done) left rfl, ih _ hshorter [a] left rfl, Option.map_map]
                simp [Function.comp_def]
            | none =>
                rw [readAttributesAfter?_of_read_none hc hread,
                  readAttributesAfter?_of_read_none hc hread]
                split <;> simp
          · rw [readAttributesAfter?_of_not_space hc, readAttributesAfter?_of_not_space hc]
            split <;> simp

/-- White space in front of the end of a tag, or of more of it, makes no difference. -/
theorem readAttributesAfter?_space {space : Text} (hspace : ∀ c ∈ space, isSpace c)
    (hs : EndsAttribute s)
    : readAttributesAfter? done (space ++ s) = readAttributesAfter? done s := by
  cases space with
  | nil => rfl
  | cons c space =>
      obtain ⟨hc, hspace⟩ := List.forall_mem_cons.mp hspace
      obtain ⟨d, t, rfl, hd⟩ := hs
      rw [List.cons_append]
      by_cases hspaced : isSpace d
      · exact readAttributesAfter?_congr hc hspaced (by
          rw [dropSpace_append hspace, dropSpace, List.dropWhile_cons_of_pos hspaced]
          rfl)
      · have hdrop : dropSpace (space ++ d :: t) = d :: t := by
          rw [dropSpace_append hspace, dropSpace_cons (by simpa using hspaced)]
        have hdelimiter : d ∈ delimiters := by
          rcases hd with hd | rfl | rfl
          · exact absurd hd hspaced
          · decide
          · decide
        rw [readAttributesAfter?_of_read_none hc (by rw [hdrop]; exact readAttribute?_delimiter hdelimiter t),
          hdrop, readAttributesAfter?_of_not_space hspaced]
        rfl

/-- A tag that would be complete if it were closed can go on instead. The induction is on the
length of what has been read of it.
-/
theorem readAttributesAfter?_append_of_closed {u : Text}
    (h : readAttributesAfter? done (u ++ ['>']) = some ((given, false), []))
    (hs : EndsAttribute s)
    : readAttributesAfter? done (u ++ s) = readAttributesAfter? given.reverse s := by
  induction hlength : u.length using Nat.strong_induction_on generalizing done u with
  | _ length ih =>
      cases u with
      | nil =>
          obtain rfl : done.reverse = given := by simpa [readAttributesAfter?] using h
          rw [List.reverse_reverse, List.nil_append]
      | cons c u =>
          by_cases hc : isSpace c
          · have hdrop : dropSpace (u ++ ['>']) = dropSpace u ++ ['>'] :=
              dropWhile_append_stop u (by decide) []
            rw [List.cons_append] at h ⊢
            cases hread : readAttribute? (dropSpace (u ++ ['>'])) with
            | some found =>
                obtain ⟨a, left⟩ := found
                rw [readAttributesAfter?_of_read hc hread] at h
                obtain ⟨t, ht, hne, hlocal⟩ := exists_text_of_readAttribute? hread
                rw [hdrop] at ht
                cases left using List.reverseRecOn with
                | nil => simp [readAttributesAfter?] at h
                | append_singleton left x =>
                    rw [← List.append_assoc] at ht
                    obtain ⟨hu, hx⟩ := List.append_inj' ht rfl
                    cases hx
                    have hshorter : left.length < length := by
                      have hlength' := length_dropSpace u
                      rw [hu, List.length_append] at hlength'
                      rw [← hlength, List.length_cons]
                      omega
                    have hread' : readAttribute? (dropSpace (u ++ s)) = some (a, left ++ s) := by
                      obtain ⟨y, t, rfl⟩ := List.exists_cons_of_ne_nil hne
                      rw [dropSpace_extend hu]
                      simpa using hlocal (left ++ s)
                    rw [readAttributesAfter?_of_read hc hread']
                    exact ih _ hshorter h rfl
            | none =>
                rw [readAttributesAfter?_of_read_none hc hread, hdrop] at h
                cases hu : dropSpace u with
                | nil =>
                    rw [hu] at h
                    obtain rfl : done.reverse = given := by simpa using h
                    have hspace : ∀ x ∈ c :: u, isSpace x :=
                      List.forall_mem_cons.mpr ⟨hc, List.dropWhile_eq_nil_iff.mp hu⟩
                    rw [List.reverse_reverse, ← List.cons_append]
                    exact readAttributesAfter?_space hspace hs
                | cons y t =>
                    rw [hu] at h
                    split at h
                    · next heq =>
                        obtain ⟨-, rfl⟩ := List.cons.inj heq
                        simp at h
                    · simp at h
                    · cases h
          · rw [List.cons_append, readAttributesAfter?_of_not_space hc] at h
            split at h
            · next heq =>
                obtain ⟨-, rfl⟩ := List.cons.inj heq
                simp at h
            · simp at h
            · cases h

/-- A start tag that would be complete if it were closed can go on instead. -/
theorem readStart?_append_of_closed {u : Text} {name : Spelling}
    (h : readStart? (u ++ ['>']) = some (.start name given false, [])) (hs : EndsAttribute s)
    : readStart? (u ++ s)
      = (readAttributesAfter? given.reverse s).map fun ((attributes, isEmpty), rest) =>
        (.start name attributes isEmpty, rest) := by
  unfold readStart? at h
  split at h
  · cases h
  · next n behind hname =>
      obtain ⟨⟨⟨given', isEmpty⟩, left⟩, hread, heq⟩ := Option.map_eq_some_iff.mp h
      cases heq
      cases behind using List.reverseRecOn with
      | nil => simp [readAttributesAfter?] at hread
      | append_singleton v x =>
          have ht := (eq_of_readSpelling? hname).1
          rw [← List.append_assoc] at ht
          obtain ⟨rfl, hx⟩ := List.append_inj' ht rfl
          cases hx
          have hdelimiter : ∃ c t, v ++ s = c :: t ∧ c ∈ delimiters := by
            cases v with
            | nil => exact hs.exists_delimiter
            | cons c v =>
                obtain ⟨_, _, heq, hc⟩ :=
                  (endsAttribute_of_readAttributesAfter? hread).exists_delimiter
                obtain ⟨rfl, -⟩ := List.cons.inj heq
                exact ⟨c, v ++ s, rfl, hc⟩
          obtain ⟨c, t, hv, hc⟩ := hdelimiter
          rw [readStart?, List.append_assoc, hv, readSpelling?_append (sound_of_readSpelling? hname) hc, ← hv]
          dsimp only
          rw [readAttributesAfter?_append_of_closed hread hs]

/-- A whole attribute with the white space in front of it can be left out of a tag. -/
theorem exists_readStart?_without {u : Text} {name : Spelling}
    (h : readStart? (u ++ ['>']) = some (.start name given false, [])) {space : Text}
    (hspace : ∀ c ∈ space, isSpace c) (hne : space ≠ []) {a : Assignment} (ha : a.Sound)
    {token : Token} (hread : readStart? (u ++ (space ++ a.text ++ s)) = some (token, rest))
    : ∃ value more isEmpty, token = .start name (given ++ (a.name, value) :: more) isEmpty
      ∧ readStart? (u ++ s) = some (.start name (given ++ more) isEmpty, rest) := by
  obtain ⟨c, space, rfl⟩ := List.exists_cons_of_ne_nil hne
  obtain ⟨hc, hspace⟩ := List.forall_mem_cons.mp hspace
  rw [List.cons_append, List.cons_append,
    readStart?_append_of_closed h ⟨c, _, rfl, .inl hc⟩] at hread
  obtain ⟨⟨⟨attributes, isEmpty⟩, left⟩, hread, heq⟩ := Option.map_eq_some_iff.mp hread
  cases heq
  have hdrop : dropSpace (space ++ a.text ++ s) = a.text ++ s := by
    rw [List.append_assoc, dropSpace_append hspace, Assignment.text, List.append_assoc,
      dropSpace_spelling ha.name]
  cases hvalue : readValue? a.spelled with
  | none =>
      have hnone : readAttribute? (dropSpace (space ++ a.text ++ s)) = none := by
        rw [hdrop, ha.readAttribute?, hvalue, Option.map_none]
      rw [readAttributesAfter?_of_read_none hc hnone, hdrop] at hread
      obtain ⟨x, t, htext, hx⟩ := ha.name.text_eq_cons
      have hgt := ne_of_isNameStart hx (d := '>') (by decide)
      have hslash := ne_of_isNameStart hx (d := '/') (by decide)
      simp [Assignment.text, htext, hgt.symm, hslash.symm] at hread
  | some value =>
      have hsome : readAttribute? (dropSpace (space ++ a.text ++ s)) = some ((a.name, value), s) := by
        rw [hdrop, ha.readAttribute?, hvalue, Option.map_some]
      rw [readAttributesAfter?_of_read hc hsome, readAttributesAfter?_eq] at hread
      obtain ⟨⟨⟨more, isEmpty'⟩, left⟩, hmore, heq⟩ := Option.map_eq_some_iff.mp hread
      cases heq
      refine ⟨value, more, isEmpty, by simp, ?_⟩
      rw [readStart?_append_of_closed h (endsAttribute_of_readAttributesAfter? hmore),
        readAttributesAfter?_eq, hmore]
      simp

end Tags

end SvgKit.Xml

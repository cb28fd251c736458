import SvgKit.Proofs.Xml.Markup
import SvgKit.Proofs.Xml.Tokens

/-! What the items at the head of a text make of the elements that are open: tags open and close
elements, and character data is kept as a whole or, when it is white space, dropped as a whole.
-/

namespace SvgKit.Xml

-----------------------------------------------------------------------------------------
-- Items
-----------------------------------------------------------------------------------------

/-- What is open once a text has been read. -/
def Progress.absorb? (d : Doctype) (p : Progress) (s : Text) : Option Progress :=
  (tokens? s).bind fun tokens => tokens.foldlM (Progress.take? d) p

/-- Tokens that have been read stand in front of those to come, by induction over the length
of the text.
-/
theorem tokensAfter?_eq (done : List (List Token)) (s : Text)
    : tokensAfter? done s = (tokens? s).map (done.reverse.flatten ++ ·) := by
  induction hlength : s.length using Nat.strong_induction_on generalizing done s with
  | _ length ih =>
      rw [tokens?, tokensAfter?, tokensAfter?]
      split
      · simp
      · split
        · next tokens rest hread =>
            have hshorter := length_readTokens? hread
            rw [ih rest.length (by omega) (tokens :: done) rest rfl,
              ih rest.length (by omega) [tokens] rest rfl, Option.map_map]
            simp [Function.comp_def]
        · rfl

theorem tokens?_nil : tokens? [] = some [] := by
  rw [tokens?, tokensAfter?]
  rfl

theorem tokens?_of_readTokens? {s rest : Text} {tokens : List Token}
    (h : readTokens? s = some (tokens, rest))
    : tokens? s = (tokens? rest).map (tokens ++ ·) := by
  have hne : s.isEmpty = false := by
    cases s with
    | nil => simp [readTokens?] at h
    | cons c s => rfl
  rw [tokens?, tokensAfter?]
  split
  · next hempty => simp [hne] at hempty
  · split
    · next hread =>
        rw [h] at hread
        cases hread
        simpa using tokensAfter?_eq [tokens] rest
    · next hread => simp [h] at hread

theorem Progress.absorb?_nil (d : Doctype) (p : Progress) : p.absorb? d [] = some p := by
  rw [absorb?, tokens?_nil]
  rfl

/-- An item is absorbed, and then what is behind it. -/
theorem Progress.absorb?_of_readTokens? {d : Doctype} {s rest : Text} {tokens : List Token}
    (h : readTokens? s = some (tokens, rest)) (p : Progress)
    : p.absorb? d s = (tokens.foldlM (Progress.take? d) p).bind (·.absorb? d rest) := by
  unfold absorb?
  rw [tokens?_of_readTokens? h]
  cases tokens? rest with
  | none => simp
  | some more => simp

-----------------------------------------------------------------------------------------
-- Character data
-----------------------------------------------------------------------------------------

/-- The element has taken in text behind what it held. -/
structure Frame.Holds (f : Frame) (s : Text) (f' : Frame) : Prop where
  spelling : f'.spelling = f.spelling
  head : f'.head = f.head
  scope : f'.scope = f.scope
  elementOnly : f'.elementOnly = f.elementOnly
  done : f'.done = f.done
  pending : f'.pending = some (s.reverse ++ f.pending.getD [])

namespace Frame

variable {f f' f'' : Frame} {s t : Text} {ahead : Ahead}

theorem Holds.trans (h : f.Holds s f') (h' : f'.Holds t f'') : f.Holds (s ++ t) f'' where
  spelling := h'.spelling.trans h.spelling
  head := h'.head.trans h.head
  scope := h'.scope.trans h.scope
  elementOnly := h'.elementOnly.trans h.elementOnly
  done := h'.done.trans h.done
  pending := by rw [h'.pending, h.pending]; simp

theorem Holds.refl (h : f.pending.isSome) : f.Holds [] f := by
  obtain ⟨t, ht⟩ := Option.isSome_iff_exists.mp h
  exact ⟨rfl, rfl, rfl, rfl, rfl, by simp [ht]⟩

theorem Holds.isSome (h : f.Holds s f') : f'.pending.isSome := by
  rw [h.pending]
  rfl

theorem holds_addText (f : Frame) (s : Text) : f.Holds s (f.addText s) :=
  ⟨rfl, rfl, rfl, rfl, rfl, rfl⟩

/-- Where the content of elements is not declared, a segment is dropped only if it is white
space in front of markup and has no text before it.
-/
theorem addSegment_cases (honly : f.elementOnly = none) (s : Text) (ahead : Ahead)
    : f.Holds s (f.addSegment s ahead)
      ∨ f.addSegment s ahead = f ∧ f.pending = none ∧ s.all isSpace ∧ ahead ≠ .other := by
  unfold addSegment
  split
  · next hdrop =>
      simp only [dropsSegment, honly, Bool.and_eq_true, Bool.not_eq_true',
        Option.isNone_iff_eq_none, decide_eq_true_eq] at hdrop
      obtain ⟨⟨-, hspace⟩, ⟨⟨hahead, -⟩, hpending⟩, -⟩ := hdrop
      exact .inr ⟨rfl, hpending, hspace, hahead⟩
  · exact .inl ⟨rfl, rfl, rfl, rfl, rfl, rfl⟩

end Frame

/-- The element once it has taken in a segment, if the segment is not empty. -/
def Frame.takeSegment (f : Frame) (s rest : Text) : Frame :=
  if s.isEmpty then f else f.addSegment s (.ofText rest)

theorem Frame.takeSegment_nil (f : Frame) (rest : Text) : f.takeSegment [] rest = f := rfl

theorem Frame.takeSegment_of_ne_nil {s : Text} (hne : s ≠ []) (rest : Text) (f : Frame)
    : f.takeSegment s rest = f.addSegment s (.ofText rest) := by
  rw [takeSegment, if_neg (by simpa using hne)]

theorem not_isSpace_of_not_isPlain {c : Char} (hplain : isPlain c = false) (hcr : c ≠ '\r')
    : isSpace c = false := by
  by_contra hspace
  simp only [isSpace, Bool.not_eq_false, Bool.or_eq_true, beq_iff_eq, hcr, or_false] at hspace
  rcases hspace with (rfl | rfl) | rfl <;> simp [isPlain] at hplain

theorem foldlM_segmentTokens (d : Doctype) (p : Progress) (s rest : Text) {f : Frame}
    {frames : List Frame} (hframes : p.frames = f :: frames)
    : (segmentTokens s rest).foldlM (Progress.take? d) p
      = some { p with frames := f.takeSegment s rest :: frames } := by
  unfold segmentTokens Frame.takeSegment
  split
  · simp [← hframes]
  · simp [Progress.take?, hframes]

/-- Raw character data is kept, unless it is white space in front of markup. -/
theorem absorb?_data {s : Text} (hs : ∀ c ∈ s, IsRaw c) (hne : s ≠ []) {c : Char}
    (hc : EndsData c) (d : Doctype) (p : Progress) {f : Frame} {frames : List Frame}
    (hframes : p.frames = f :: frames) (honly : f.elementOnly = none) (rest : Text)
    : ∃ f', (f.Holds s f' ∨ c = '<' ∧ f' = f ∧ f.pending = none ∧ s.all isSpace)
      ∧ p.absorb? d (s ++ c :: rest)
        = Progress.absorb? d { p with frames := f' :: frames } (c :: rest) := by
  have hread := Progress.absorb?_of_readTokens? (d := d) (readTokens?_data hs hne hc rest) p
  rw [List.foldlM_append, foldlM_segmentTokens d p _ _ hframes, Option.bind_eq_bind,
    Option.bind_some, foldlM_segmentTokens d _ _ _ rfl, Option.bind_some] at hread
  refine ⟨_, ?_, hread⟩
  have hsplit := List.takeWhile_append_dropWhile (p := isPlain) (l := s)
  generalize s.takeWhile isPlain = first at hsplit ⊢
  cases hsecond : s.dropWhile isPlain with
  | nil =>
      rw [hsecond, List.append_nil] at hsplit
      subst hsplit
      rw [List.nil_append, Frame.takeSegment_nil, Frame.takeSegment_of_ne_nil hne]
      rcases Frame.addSegment_cases honly first (.ofText (c :: rest)) with h | ⟨h, hp, hb, ha⟩
      · exact .inl h
      · rcases hc with rfl | rfl
        · exact .inr ⟨rfl, h, hp, hb⟩
        · exact absurd rfl ha
  | cons x second =>
      rw [hsecond] at hsplit
      subst hsplit
      have hx : IsRaw x := hs x (by simp)
      have hplain : isPlain x = false := by
        have := List.head?_dropWhile_not isPlain (first ++ x :: second)
        simpa [hsecond] using this
      -- the second segment begins beyond ASCII, so that neither segment is white space in
      -- front of markup
      have hahead : Ahead.ofText (x :: second ++ c :: rest) = .other := by
        obtain ⟨-, hlt, -, -, hcr⟩ := hx
        unfold Ahead.ofText
        split <;> simp_all
      have hspace : (x :: second).all isSpace = false := by
        have hnot := not_isSpace_of_not_isPlain hplain hx.2.2.2.2
        simp [hnot]
      have hkeep {f' : Frame} (honly : f'.elementOnly = none)
          : f'.Holds (x :: second) (f'.takeSegment (x :: second) (c :: rest)) := by
        rw [Frame.takeSegment_of_ne_nil (by simp)]
        rcases Frame.addSegment_cases honly (x :: second) (.ofText (c :: rest)) with h | h
        · exact h
        · rw [hspace] at h
          cases h.2.2.1
      left
      by_cases hempty : first = []
      · subst hempty
        rw [Frame.takeSegment_nil, List.nil_append]
        exact hkeep honly
      · rw [Frame.takeSegment_of_ne_nil hempty (x :: second ++ c :: rest), hahead]
        rcases Frame.addSegment_cases honly first .other with h | h
        · exact h.trans (hkeep (h.elementOnly.trans honly))
        · exact absurd rfl h.2.2.2

instance : DecidablePred IsRaw := fun _ => inferInstanceAs (Decidable (_ ∧ _))

theorem escapeText_of_isRaw {c : Char} (h : IsRaw c) : escapeText c = [c] := by
  obtain ⟨-, hlt, hgt, hamp, hcr⟩ := h
  simp [escapeText, hlt, hgt, hamp, hcr]

theorem flatMap_escapeText_of_isRaw {s : Text} (h : ∀ c ∈ s, IsRaw c)
    : s.flatMap escapeText = s := by
  induction s with
  | nil => rfl
  | cons c s ih =>
      rw [List.forall_mem_cons] at h
      rw [List.flatMap_cons, escapeText_of_isRaw h.1, ih h.2]
      rfl

/-- A character that is not raw is spelled by a reference to it. -/
theorem refers_of_not_isRaw {c : Char} (hchar : isChar c) (h : ¬ IsRaw c)
    : ∃ body, escapeText c = '&' :: body ∧ Refers body c := by
  rcases escapeText_cases c with href | ⟨-, hlt, hgt, hamp, hcr⟩
  · exact href
  · exact absurd ⟨hchar, hlt, hgt, hamp, hcr⟩ h

theorem readTokens?_refers {body : Text} {c : Char} (h : Refers body c) (rest : Text)
    : readTokens? ('&' :: (body ++ rest)) = some ([.literal [c]], rest) := by
  rw [readTokens?, h rest]
  rfl

/-- A text that begins with a raw character begins with a run of them, behind which data ends. -/
theorem exists_run {c : Char} {s : Text} (hs : ∀ x ∈ c :: s, isChar x) (hraw : IsRaw c)
    {d : Char} (hd : EndsData d) (rest : Text)
    : ∃ first second, first ++ second = c :: s ∧ (∀ x ∈ first, IsRaw x) ∧ first ≠ []
      ∧ ∃ e more, second.flatMap escapeText ++ d :: rest = e :: more ∧ EndsData e
        ∧ (e = '<' → second = []) := by
  refine ⟨(c :: s).takeWhile IsRaw, (c :: s).dropWhile IsRaw,
    List.takeWhile_append_dropWhile, fun x hx => by simpa using List.mem_takeWhile_imp hx, ?_, ?_⟩
  · rw [List.takeWhile_cons_of_pos (by simpa using hraw)]
    simp
  · cases hsecond : (c :: s).dropWhile IsRaw with
    | nil => exact ⟨d, rest, rfl, hd, fun _ => rfl⟩
    | cons x second =>
        have hx : ¬ IsRaw x := by
          have := List.head?_dropWhile_not IsRaw (c :: s)
          simpa [hsecond] using this
        have hchar := hs x ((List.dropWhile_sublist IsRaw).subset (hsecond ▸ List.mem_cons_self))
        obtain ⟨body, hbody, -⟩ := refers_of_not_isRaw hchar hx
        exact ⟨'&', _, by rw [List.flatMap_cons, hbody]; rfl, .inr rfl, fun h => by cases h⟩

/-- The text of a node is kept as a whole, or dropped as a whole when it is white space. The
induction is on its length: a run of raw characters or one reference is read at a time, and
what stands in front of a reference is never dropped.
-/
theorem absorb?_text {s : Text} (hs : ∀ c ∈ s, isChar c) (d : Doctype) (p : Progress)
    {f : Frame} {frames : List Frame} (hframes : p.frames = f :: frames)
    (honly : f.elementOnly = none) {e : Char} (he : EndsData e) (rest : Text)
    : ∃ f', (f.Holds s f' ∨ f' = f ∧ f.pending = none ∧ s.all isSpace)
      ∧ p.absorb? d (s.flatMap escapeText ++ e :: rest)
        = Progress.absorb? d { p with frames := f' :: frames } (e :: rest) := by
  induction hlength : s.length using Nat.strong_induction_on generalizing s p f with
  | _ length ih =>
      -- behind what is kept, the rest of the text is kept too
      have hbehind (first second : Text) {f₁ : Frame} (hfirst : first ≠ [])
          (hsplit : first ++ second = s) (hholds : f.Holds first f₁)
          (hread : p.absorb? d (s.flatMap escapeText ++ e :: rest)
            = Progress.absorb? d { p with frames := f₁ :: frames }
              (second.flatMap escapeText ++ e :: rest))
          : ∃ f', (f.Holds s f' ∨ f' = f ∧ f.pending = none ∧ s.all isSpace)
            ∧ p.absorb? d (s.flatMap escapeText ++ e :: rest)
              = Progress.absorb? d { p with frames := f' :: frames } (e :: rest) := by
        subst hsplit
        have hshorter : second.length < length := by
          have := List.length_pos_iff.mpr hfirst
          rw [List.length_append] at hlength
          omega
        obtain ⟨f', hf', hread'⟩ := ih second.length hshorter
          (fun c hc => hs c (List.mem_append_right _ hc))
          { p with frames := f₁ :: frames } rfl (hholds.elementOnly.trans honly) rfl
        refine ⟨f', .inl ?_, hread.trans hread'⟩
        rcases hf' with h | ⟨-, hnone, -⟩
        · exact hholds.trans h
        · simp [hholds.pending] at hnone
      cases s with
      | nil =>
          refine ⟨f, ?_, by rw [← hframes]; rfl⟩
          cases hpending : f.pending with
          | none => exact .inr ⟨rfl, rfl, rfl⟩
          | some t => exact .inl (.refl (by rw [hpending]; rfl))
      | cons c s =>
          by_cases hraw : IsRaw c
          · obtain ⟨first, second, hsplit, hfirst, hne, x, more, hmore, hx, hlast⟩ :=
              exists_run hs hraw he rest
            obtain ⟨f₁, hf₁, hread⟩ := absorb?_data hfirst hne hx d p hframes honly more
            rw [← hmore] at hread
            have htext : (c :: s).flatMap escapeText ++ e :: rest
                = first ++ (second.flatMap escapeText ++ e :: rest) := by
              rw [← hsplit, List.flatMap_append, flatMap_escapeText_of_isRaw hfirst,
                List.append_assoc]
            rcases hf₁ with h | ⟨hx, rfl, hpending, hspace⟩
            · exact hbehind first second hne hsplit h (by rw [htext, hread])
            · obtain rfl := hlast hx
              rw [List.append_nil] at hsplit
              subst hsplit
              exact ⟨f₁, .inr ⟨rfl, hpending, hspace⟩, by rw [htext, hread]; rfl⟩
          · obtain ⟨body, hbody, hrefers⟩ :=
              refers_of_not_isRaw (hs c List.mem_cons_self) hraw
            refine hbehind [c] s (by simp) rfl (f.holds_addText [c]) ?_
            rw [List.flatMap_cons, hbody, List.cons_append, List.cons_append, List.append_assoc,
              Progress.absorb?_of_readTokens? (readTokens?_refers hrefers _)]
            simp [Progress.take?, hframes]

end SvgKit.Xml

import SvgKit.Proofs.Markup.Attribute
import SvgKit.Proofs.Sanitize.Report
import SvgKit.Proofs.Sanitize.Warnings

/-! What is still found in a text from which something has been removed. Each item that is found
there has been brought together: it reaches across a place where something was cut out.
-/

namespace SvgKit

-----------------------------------------------------------------------------------------
-- Places where pieces were cut out
-----------------------------------------------------------------------------------------

namespace Cut

/-- Where a place of a text is when the piece has been cut out; a place in the piece is then where
the piece was.
-/
def move (cut : Cut) (k : Nat) : Nat :=
  min k cut.front.length + (k - (cut.front.length + cut.removed.length))

/-- The places where something was cut out, after one more cut. -/
def seamsAfter (seams : List Nat) (cut : Cut) : List Nat := cut.front.length :: seams.map cut.move

end Cut

/-- The places where something was cut out, in the text that is left by all cuts. -/
def seams (cuts : List Cut) : List Nat := cuts.foldl Cut.seamsAfter []

namespace Scanner

variable {α : Type} {p : Scanner α} {n : Nat} {t : Text} {places : List Nat} {cut : Cut}

/-- An item that is read at some place of the text reaches across the place. -/
def Spans (p : Scanner α) (t : Text) (place : Nat) : Prop :=
  ∃ front s item rest, t = front ++ s ∧ p.read s = some (item, rest)
    ∧ front.length < place ∧ place + rest.length < t.length

/-- What is read is read whatever stands behind it. -/
def IsLocal (p : Scanner α) : Prop :=
  ∀ s item rest, p.read s = some (item, rest) →
    ∃ inner, s = inner ++ rest ∧ ∀ rest', p.read (inner ++ rest') = some (item, rest')

/-- The items that begin among the first `n` places of the text reach across one of the places. -/
def Seamed (p : Scanner α) (places : List Nat) (n : Nat) (t : Text) : Prop :=
  ∀ front s item rest, t = front ++ s → front.length < n → p.read s = some (item, rest) →
    ∃ place ∈ places, front.length < place ∧ place + rest.length < t.length

theorem IsLocal.forget (h : p.IsLocal) : p.forget.IsLocal := by
  intro s u rest hread
  obtain ⟨⟨item, left⟩, hfound, heq⟩ := Option.map_eq_some_iff.mp hread
  cases heq
  obtain ⟨inner, rfl, hinner⟩ := h _ _ _ hfound
  exact ⟨inner, rfl, fun rest' => Option.map_eq_some_iff.mpr ⟨_, hinner rest', rfl⟩⟩

section Cuts

variable (hlocal : p.IsLocal)
include hlocal

/-- An item that begins in front of a cut reaches across it, or it ended there before. -/
theorem Seamed.front (h : p.Seamed places cut.front.length cut.before)
    : p.Seamed (cut.seamsAfter places) cut.front.length cut.after := by
  intro front s item rest hafter hbegins hread
  obtain ⟨inner, rfl, hinner⟩ := hlocal s item rest hread
  have hlength := congrArg List.length hafter
  rw [Cut.after, List.length_append, List.length_append, List.length_append] at hlength
  by_cases hacross : cut.front.length < front.length + inner.length
  · refine ⟨cut.front.length, List.mem_cons_self, hbegins, ?_⟩
    rw [Cut.after, List.length_append]
    omega
  · obtain ⟨more, hfront, hrest⟩ : ∃ more, cut.front = front ++ inner ++ more
        ∧ rest = more ++ cut.rest := by
      rw [Cut.after, ← List.append_assoc] at hafter
      rcases List.append_eq_append_iff.mp hafter with ⟨more, heq, -⟩ | ⟨more, heq, hrest⟩
      · have hlength' := congrArg List.length heq
        simp only [List.length_append] at hlength'
        have hnil : more = [] := List.length_eq_zero_iff.mp (by omega)
        subst hnil
        rw [List.append_nil] at heq
        rw [← heq] at hafter
        exact ⟨[], by rw [List.append_nil, heq], (List.append_cancel_left hafter).symm⟩
      · exact ⟨more, heq, hrest⟩
    have hbefore : cut.before = front ++ (inner ++ (more ++ (cut.removed ++ cut.rest))) := by
      rw [Cut.before, hfront]
      simp only [List.append_assoc]
    obtain ⟨place, hplace, hleft, hright⟩ := h _ _ _ _ hbefore hbegins (hinner _)
    have hinside : cut.move place = place := by
      rw [Cut.move, hfront]
      rw [hbefore] at hright
      simp only [List.length_append] at hright ⊢
      omega
    refine ⟨place, List.mem_cons_of_mem _ (List.mem_map.mpr ⟨place, hplace, hinside⟩), hleft, ?_⟩
    rw [hbefore] at hright
    rw [hafter]
    simp only [List.length_append] at hright ⊢
    omega

/-- So it is for all items where all of them reached across a place before. -/
theorem Seamed.all (h : p.Seamed places cut.before.length cut.before)
    : p.Seamed (cut.seamsAfter places) cut.after.length cut.after := by
  intro front s item rest hafter hbegins hread
  by_cases hfront : front.length < cut.front.length
  · refine Seamed.front hlocal (fun front s item rest heq hlt => h front s item rest heq ?_)
      front s item rest hafter hfront hread
    rw [Cut.before, List.length_append]
    omega
  · obtain ⟨more, hfront, hrest⟩ : ∃ more, front = cut.front ++ more ∧ cut.rest = more ++ s := by
      rw [Cut.after] at hafter
      rcases List.append_eq_append_iff.mp hafter with ⟨more, heq, hrest⟩ | ⟨more, heq, hrest⟩
      · exact ⟨more, heq, hrest⟩
      · have hlength := congrArg List.length heq
        rw [List.length_append] at hlength
        have hnil : more = [] := List.length_eq_zero_iff.mp (by omega)
        subst hnil
        exact ⟨[], by simpa using heq.symm, by simpa using hrest.symm⟩
    have hbefore : cut.before = (cut.front ++ cut.removed ++ more) ++ s := by
      rw [Cut.before, hrest]
      simp only [List.append_assoc]
    have hbegins' : (cut.front ++ cut.removed ++ more).length < cut.before.length := by
      have := p.shorter hread
      rw [hbefore, @List.length_append _ _ s]
      omega
    obtain ⟨place, hplace, hleft, hright⟩ := h _ s item rest hbefore hbegins' hread
    refine ⟨cut.move place, List.mem_cons_of_mem _ (List.mem_map_of_mem hplace), ?_, ?_⟩
    · rw [Cut.move, hfront]
      simp only [List.length_append] at hleft ⊢
      omega
    · rw [hbefore] at hright
      rw [Cut.move, Cut.after, hrest]
      simp only [List.length_append] at hleft hright ⊢
      omega

end Cuts

/-- After the deletion of all items, those that are still read reach across a place where one was
cut out, and so do the items of scanners for which it was so before. The induction follows the
scanner.
-/
theorem seamed_delete {done : List (Scanner Unit)} {p : Scanner Unit} (hlocal : p.IsLocal)
    (hdone : ∀ q ∈ done, q.IsLocal) {front s : Text} {places : List Nat}
    (hbehind : p.Seamed places front.length (front ++ s))
    (hall : ∀ q ∈ done, q.Seamed places (front ++ s).length (front ++ s))
    : ∀ q ∈ p :: done, q.Seamed ((p.cutsBehind front s).foldl Cut.seamsAfter places)
        (front ++ p.delete s).length (front ++ p.delete s) := by
  induction s using p.induction generalizing front places with
  | nil =>
      rw [cutsBehind, List.foldl_nil, delete, replace_nil, List.append_nil, List.forall_mem_cons]
      rw [List.append_nil] at hbehind hall
      exact ⟨hbehind, hall⟩
  | plain c s hread ih =>
      have hnext (t : Text) : front ++ c :: t = (front ++ [c]) ++ t := List.append_cons ..
      rw [cutsBehind_of_read_none hread, delete, replace_of_read_none hread, ← delete,
        hnext (p.delete s)]
      rw [hnext s] at hbehind hall
      refine ih (fun front' s' item rest heq hbegins hread' => ?_) hall
      rw [List.length_append, List.length_singleton, Nat.lt_succ_iff_lt_or_eq] at hbegins
      rcases hbegins with hbegins | hbegins
      · exact hbehind front' s' item rest heq hbegins hread'
      · rw [← hnext s] at heq
        obtain ⟨-, rfl⟩ := List.append_inj heq hbegins.symm
        rw [hread] at hread'
        cases hread'
  | found s item rest hread ih =>
      obtain ⟨removed, rfl⟩ := p.suffix hread
      have htake : (removed ++ rest).take ((removed ++ rest).length - rest.length) = removed := by
        simp
      rw [cutsBehind_of_read hread, htake, List.foldl_cons, delete, replace_of_read hread,
        List.nil_append, ← delete]
      have hbehind' : p.Seamed (Cut.seamsAfter places ⟨front, removed, rest⟩) front.length
          (front ++ rest) :=
        Seamed.front hlocal hbehind
      have hall' : ∀ q ∈ done, q.Seamed (Cut.seamsAfter places ⟨front, removed, rest⟩)
          (front ++ rest).length (front ++ rest) := fun q hq =>
        Seamed.all (hdone q hq) (hall q hq)
      exact ih hbehind' hall'

/-- So it is after the deletions of several scanners, by induction over them. -/
theorem seamed_cutsOf {scanners done : List (Scanner Unit)} (hlocal : ∀ q ∈ scanners, q.IsLocal)
    (hdone : ∀ q ∈ done, q.IsLocal) {s : Text} {places : List Nat}
    (hall : ∀ q ∈ done, q.Seamed places s.length s)
    : ∀ q ∈ scanners, q.Seamed ((cutsOf scanners s).foldl Cut.seamsAfter places)
        (scanners.foldl (fun s p => p.delete s) s).length
        (scanners.foldl (fun s p => p.delete s) s) := by
  suffices ∀ q, q ∈ scanners ∨ q ∈ done →
      q.Seamed ((cutsOf scanners s).foldl Cut.seamsAfter places)
        (scanners.foldl (fun s p => p.delete s) s).length
        (scanners.foldl (fun s p => p.delete s) s) from fun q hq => this q (.inl hq)
  induction scanners generalizing done s places with
  | nil => simpa [cutsOf] using hall
  | cons p scanners ih =>
      obtain ⟨hp, hscanners⟩ := List.forall_mem_cons.mp hlocal
      have hfirst := @seamed_delete done p hp hdone [] s places
        (fun _ _ _ _ _ hnot => absurd hnot (Nat.not_lt_zero _)) hall
      intro q hq
      rw [cutsOf, List.foldl_append, List.foldl_cons]
      refine ih hscanners (List.forall_mem_cons.mpr ⟨hp, hdone⟩) hfirst q ?_
      rw [List.mem_cons] at hq ⊢
      tauto

end Scanner

-----------------------------------------------------------------------------------------
-- What scanners read whatever stands behind it
-----------------------------------------------------------------------------------------

namespace Sanitize

theorem exists_of_readElementTag? {name s inner rest : Text}
    (h : readElementTag? name s = some (inner, rest))
    : ∃ tag, s = tag ++ rest
      ∧ ∀ rest', readElementTag? name (tag ++ rest') = some (inner, rest') := by
  unfold readElementTag? at h
  split at h
  · cases h
  · next left hopening =>
      split at h
      · next hend =>
          unfold readOpening? at hopening
          split at hopening
          · next s =>
              obtain ⟨hs, hname⟩ := Text.exists_of_dropFolded? hopening
              have hleft := Text.eq_of_splitAtLiteral? h
              refine ⟨'<' :: (s.take (folded name).length ++ (inner ++ ['>'])), ?_, fun rest' => ?_⟩
              · rw [List.cons_append, List.append_assoc, ← hleft, ← hs]
              · have hend' : Text.atWordEnd (inner ++ ['>'] ++ rest') := by
                  rw [hleft] at hend
                  cases inner with
                  | nil => exact hend
                  | cons c inner => exact hend
                rw [readElementTag?, List.cons_append, List.append_assoc, readOpening?,
                  Text.dropFolded?_append hname.symm]
                dsimp only
                rw [if_pos hend']
                exact Text.splitAtLiteral?_append h rest'
          · cases hopening
      · cases h

theorem isLocal_emptyScanner (name : Text) : (emptyScanner name).IsLocal := by
  intro s item rest hread
  change readEmpty? name s = _ at hread
  unfold readEmpty? at hread
  split at hread
  · next inner left htag =>
      split at hread
      · next hslash =>
          cases hread
          obtain ⟨tag, rfl, hlocal⟩ := exists_of_readElementTag? htag
          refine ⟨tag, rfl, fun rest' => ?_⟩
          change readEmpty? name _ = _
          simp only [readEmpty?, hlocal rest', hslash, ↓reduceIte]
      · cases hread
  · cases hread

/-- An end tag holds no second bracket that opens a tag. -/
theorem exists_of_readClosing? {name s rest : Text} (hname : '<' ∉ folded name)
    (h : readClosing? name s = some rest)
    : ∃ tag, s = '<' :: (tag ++ rest) ∧ '<' ∉ tag
      ∧ ∀ rest', readClosing? name ('<' :: (tag ++ rest')) = some rest' := by
  unfold readClosing? at h
  split at h
  · next s =>
      split at h
      · cases h
      · next left hdrop =>
          split at h
          · next hblanks =>
              cases h
              obtain ⟨hs, hfold⟩ := Text.exists_of_dropFolded? hdrop
              have hleft := List.takeWhile_append_dropWhile (p := Text.isBlank) (l := left)
              rw [hblanks] at hleft
              have hblank : ∀ c ∈ left.takeWhile Text.isBlank, Text.isBlank c := fun _ hc =>
                List.mem_takeWhile_imp hc
              refine ⟨'/' :: (s.take (folded name).length ++ (left.takeWhile Text.isBlank ++ ['>'])),
                ?_, ?_, fun rest' => ?_⟩
              · conv_lhs => rw [hs, ← hleft]
                simp
              · simp only [List.mem_cons, List.mem_append, List.not_mem_nil, or_false, not_or]
                refine ⟨by decide, fun hmem => hname ?_, fun hmem => ?_, by decide⟩
                · rw [← hfold]
                  exact List.mem_map.mpr ⟨'<', hmem, by decide⟩
                · exact absurd (hblank _ hmem) (by decide)
              · have hstops : Stops Text.isBlank ('>' :: rest') := by
                  rintro _ ⟨⟩
                  decide
                simp only [List.cons_append, List.append_assoc, List.nil_append, readClosing?,
                  Text.dropFolded?_append hfold.symm, dropWhile_append_stops hblank hstops]
          · cases h
  · cases h

/-- The first end tag is the first one whatever stands behind it: one in front of it would end where
it does. The induction is over the text.
-/
theorem exists_of_afterClosing? {name s rest : Text} (hname : '<' ∉ folded name)
    (h : afterClosing? name s = some rest)
    : ∃ inner, s = inner ++ rest ∧ '<' ∈ inner
      ∧ ∀ rest', afterClosing? name (inner ++ rest') = some rest' := by
  induction s with
  | nil => cases h
  | cons c s ih =>
      unfold afterClosing? at h
      split at h
      · next hread =>
          cases h
          obtain ⟨tag, heq, -, hlocal⟩ := exists_of_readClosing? hname hread
          refine ⟨'<' :: tag, heq, List.mem_cons_self, fun rest' => ?_⟩
          rw [List.cons_append, afterClosing?, hlocal]
      · next hnone =>
          obtain ⟨inner, rfl, hmem, hlocal⟩ := ih h
          refine ⟨c :: inner, rfl, List.mem_cons_of_mem _ hmem, fun rest' => ?_⟩
          suffices hnone' : readClosing? name (c :: (inner ++ rest')) = none by
            rw [List.cons_append, afterClosing?, hnone']
            exact hlocal rest'
          rw [Option.eq_none_iff_forall_ne_some]
          intro left hread
          obtain ⟨tag, heq, hnot, hlocal'⟩ := exists_of_readClosing? hname hread
          obtain ⟨rfl, htail⟩ := List.cons.inj heq
          rcases List.append_eq_append_iff.mp htail with ⟨more, rfl, -⟩ | ⟨more, rfl, -⟩
          · exact hnot (List.mem_append_left _ hmem)
          · rw [List.append_assoc, hlocal'] at hnone
            cases hnone

theorem isLocal_pairedScanner {name : Text} (hname : '<' ∉ folded name)
    : (pairedScanner name).IsLocal := by
  intro s item rest hread
  change readPaired? name s = _ at hread
  unfold readPaired? at hread
  split at hread
  · next inner left htag =>
      obtain ⟨rest, hclosing, heq⟩ := Option.map_eq_some_iff.mp hread
      cases heq
      obtain ⟨tag, rfl, hlocal⟩ := exists_of_readElementTag? htag
      obtain ⟨content, rfl, -, hlocal'⟩ := exists_of_afterClosing? hname hclosing
      refine ⟨tag ++ content, by rw [List.append_assoc], fun rest' => ?_⟩
      change readPaired? name _ = _
      simp only [readPaired?, List.append_assoc, hlocal, hlocal', Option.map_some]
  · cases hread

/-- The quote at the head of a value is no blank. -/
theorem stops_quote {quote : Char} (h : quote = '"' ∨ quote = '\'') (s : Text)
    : Stops Text.isBlank (quote :: s) := by
  rintro _ ⟨⟩
  rcases h with rfl | rfl <;> decide

theorem exists_of_afterQuoted? {s rest : Text} (h : afterQuoted? s = some rest)
    : ∃ quote value, (quote = '"' ∨ quote = '\'') ∧ s = quote :: (value ++ rest)
      ∧ ∀ rest', afterQuoted? (quote :: (value ++ rest')) = some rest' := by
  unfold afterQuoted? at h
  split at h
  · cases h
  · next quote s =>
      split at h
      · next hquote =>
          obtain ⟨⟨body, left⟩, hsplit, heq⟩ := Option.map_eq_some_iff.mp h
          cases heq
          refine ⟨quote, body ++ [quote], by simpa using hquote, ?_, fun rest' => ?_⟩
          · rw [← Text.eq_of_splitAtLiteral? hsplit]
          · rw [afterQuoted?, if_pos hquote, Text.splitAtLiteral?_append hsplit]
            rfl
      · cases h

theorem exists_of_readHandlerName? {s name rest : Text}
    (h : readHandlerName? s = some (name, rest))
    : ∃ inner, s = inner ++ rest ∧ ∀ rest', Stops Text.isBlank rest' →
      readHandlerName? (inner ++ rest') = some (name, rest') := by
  unfold readHandlerName? at h
  split at h
  · next blank o n s =>
      split at h
      · next hhead =>
          split at h
          · cases h
          · obtain ⟨⟨equals, left⟩, hequals, heq⟩ := Option.map_eq_some_iff.mp h
            obtain ⟨rfl, rfl⟩ := Prod.mk.inj heq
            have hs := List.takeWhile_append_dropWhile (p := Text.isFoldedLetter) (l := s)
            have hbehind := Markup.eq_of_readEquals? hequals
            have hisEquals := (Markup.isEquals_of_readEquals? hequals).1
            rw [hbehind] at hs
            refine ⟨blank :: o :: n :: (s.takeWhile Text.isFoldedLetter ++ equals), ?_,
              fun rest' hrest => ?_⟩
            · conv_lhs => rw [← hs]
              simp
            · have hstops : Stops Text.isFoldedLetter (equals ++ rest') :=
                Stops.append hisEquals.ne_nil (hbehind ▸ stops_dropWhile) rest'
              have hall : ∀ c ∈ s.takeWhile Text.isFoldedLetter, Text.isFoldedLetter c :=
                fun _ hc => List.mem_takeWhile_imp hc
              simp only [List.cons_append, List.append_assoc, readHandlerName?, hhead, ↓reduceIte,
                takeWhile_append_stops hall hstops, dropWhile_append_stops hall hstops,
                hisEquals.readEquals? hrest, Option.map_some]
      · cases h
  · cases h

theorem isLocal_handlerScanner : handlerScanner.IsLocal := by
  intro s item rest hread
  change readHandler? s = _ at hread
  unfold readHandler? at hread
  split at hread
  · cases hread
  · next name left hname =>
      obtain ⟨rest, hquoted, heq⟩ := Option.map_eq_some_iff.mp hread
      cases heq
      obtain ⟨inner, rfl, hlocal⟩ := exists_of_readHandlerName? hname
      obtain ⟨quote, value, hquote, rfl, hlocal'⟩ := exists_of_afterQuoted? hquoted
      refine ⟨inner ++ quote :: value, by simp, fun rest' => ?_⟩
      change readHandler? _ = _
      simp only [readHandler?, List.append_assoc, List.cons_append,
        hlocal _ (stops_quote hquote _), hlocal', Option.map_some]

theorem exists_of_afterSchemeValue? {scheme s rest : Text}
    (h : afterSchemeValue? scheme s = some rest)
    : ∃ quote value, (quote = '"' ∨ quote = '\'') ∧ s = quote :: (value ++ rest)
      ∧ ∀ rest', afterSchemeValue? scheme (quote :: (value ++ rest')) = some rest' := by
  unfold afterSchemeValue? at h
  split at h
  · cases h
  · next quote s =>
      split at h
      · next hquote =>
          split at h
          · next left hdrop =>
              obtain ⟨⟨body, left⟩, hsplit, heq⟩ := Option.map_eq_some_iff.mp h
              cases heq
              obtain ⟨hvalue, hfold⟩ := Text.exists_of_dropFolded? hdrop
              have hleft := Text.eq_of_splitAtLiteral? hsplit
              have hs := List.takeWhile_append_dropWhile (p := Text.isBlank) (l := s)
              generalize (s.dropWhile Text.isBlank).take scheme.length = begins at hvalue hfold
              have hblank : ∀ c ∈ s.takeWhile Text.isBlank, Text.isBlank c := fun _ hc =>
                List.mem_takeWhile_imp hc
              refine ⟨quote, s.takeWhile Text.isBlank ++ (begins ++ (body ++ [quote])),
                by simpa using hquote, ?_, fun rest' => ?_⟩
              · conv_lhs => rw [← hs, hvalue, hleft]
                simp
              · have hstops : Stops Text.isBlank (begins ++ (body ++ [quote]) ++ rest') := by
                  refine @Stops.append _ _ left (by simp) ?_ rest'
                  have := stops_dropWhile (p := Text.isBlank) (s := s)
                  rw [hvalue, hleft] at this
                  simpa using this
                rw [afterSchemeValue?, if_pos hquote, List.append_assoc,
                  dropWhile_append_stops hblank hstops, List.append_assoc,
                  Text.dropFolded?_append hfold.symm]
                dsimp only
                rw [Text.splitAtLiteral?_append hsplit]
                rfl
          · cases h
      · cases h

/-- No name of a URL attribute begins with another one. -/
theorem eq_of_prefix_urlAttributes
    : ∀ name ∈ urlAttributes, ∀ name' ∈ urlAttributes, name <+: name' → name = name' := by
  decide +kernel

theorem exists_of_dropAnyFolded? {s rest : Text} (h : dropAnyFolded? urlAttributes s = some rest)
    : ∃ name, name ≠ [] ∧ s = name ++ rest
      ∧ ∀ rest', dropAnyFolded? urlAttributes (name ++ rest') = some rest' := by
  obtain ⟨name, hmem, hdrop⟩ := List.exists_of_findSome?_eq_some h
  obtain ⟨hs, hfold⟩ := Text.exists_of_dropFolded? hdrop
  refine ⟨s.take name.length, ?_, hs, fun rest' => ?_⟩
  · intro hnil
    rw [hnil, List.map_nil] at hfold
    subst hfold
    exact absurd hmem (by decide +kernel)
  · have hdrop' := Text.dropFolded?_append hfold.symm rest'
    have hsome : (dropAnyFolded? urlAttributes (s.take name.length ++ rest')).isSome :=
      List.findSome?_isSome_iff.mpr ⟨name, hmem, by simp [hdrop']⟩
    obtain ⟨left, hleft⟩ := Option.isSome_iff_exists.mp hsome
    obtain ⟨name', hmem', hdrop''⟩ := List.exists_of_findSome?_eq_some hleft
    have hbegins := Text.isSome_dropFolded?_iff.mp (Option.isSome_of_eq_some hdrop')
    have hbegins' := Text.isSome_dropFolded?_iff.mp (Option.isSome_of_eq_some hdrop'')
    obtain rfl : name = name' := by
      rcases List.prefix_or_prefix_of_prefix hbegins hbegins' with hprefix | hprefix
      · exact eq_of_prefix_urlAttributes name hmem name' hmem' hprefix
      · exact (eq_of_prefix_urlAttributes name' hmem' name hmem hprefix).symm
    rw [hleft, ← hdrop'', hdrop']

theorem isLocal_urlScanner (scheme : Text) : (urlScanner scheme).IsLocal := by
  intro s item rest hread
  change readUrl? scheme s = _ at hread
  unfold readUrl? at hread
  split at hread
  · cases hread
  · next afterName hname =>
      split at hread
      · cases hread
      · next equals afterEquals hequals =>
          obtain ⟨rest, hvalue, heq⟩ := Option.map_eq_some_iff.mp hread
          cases heq
          obtain ⟨name, hne, hs, hlocal⟩ := exists_of_dropAnyFolded? hname
          obtain ⟨quote, value, hquote, hafter, hlocal'⟩ := exists_of_afterSchemeValue? hvalue
          have hbehind := Markup.eq_of_readEquals? hequals
          have hisEquals := (Markup.isEquals_of_readEquals? hequals).1
          have hblanks := List.takeWhile_append_dropWhile (p := Text.isBlank) (l := s)
          have hblank : ∀ c ∈ s.takeWhile Text.isBlank, Text.isBlank c := fun _ hc =>
            List.mem_takeWhile_imp hc
          have hstops {left : Text} : Stops Text.isBlank (name ++ left) :=
            Stops.append hne (hs ▸ stops_dropWhile) left
          refine ⟨s.takeWhile Text.isBlank ++ (name ++ (equals ++ quote :: value)), ?_,
            fun rest' => ?_⟩
          · conv_lhs => rw [← hblanks, hs, hbehind, hafter]
            simp
          · change readUrl? scheme _ = _
            simp only [readUrl?, List.append_assoc, List.cons_append,
              dropWhile_append_stops hblank hstops, hlocal,
              hisEquals.readEquals? (stops_quote hquote _), hlocal', Option.map_some]

theorem isLocal_removals : ∀ p ∈ removals, p.IsLocal := by
  have hnames : ∀ name ∈ dangerousElements, '<' ∉ folded name := by decide +kernel
  rw [removals, List.forall_mem_append, List.forall_mem_cons, List.forall_mem_map]
  refine ⟨fun p hp => ?_, isLocal_handlerScanner.forget, fun scheme _ => isLocal_urlScanner scheme⟩
  obtain ⟨name, hname, hp⟩ := List.mem_flatMap.mp hp
  rcases List.mem_cons.mp hp with rfl | hp
  · exact isLocal_emptyScanner name
  · obtain rfl := List.mem_singleton.mp hp
    exact isLocal_pairedScanner (hnames name hname)

-----------------------------------------------------------------------------------------
-- Removing again
-----------------------------------------------------------------------------------------

theorem isSettled_iff {s : Text} : IsSettled s ↔ ∀ p ∈ removals, p.finds s = false := by
  have hforget : handlerScanner.forget.finds s = handlerScanner.finds s := by
    induction s with
    | nil => rfl
    | cons c s ih =>
        rw [Scanner.finds, Scanner.finds, ih]
        congr 1
        exact Option.isSome_map
  rw [removals, List.forall_mem_append, List.forall_mem_cons, List.forall_mem_map,
    List.forall_mem_flatMap, hforget]
  constructor
  · intro h
    refine ⟨fun name hname => ?_, h.handlers, h.urls⟩
    obtain ⟨hempty, hpaired⟩ := h.elements name hname
    simpa using ⟨hempty, hpaired⟩
  · rintro ⟨helements, hhandlers, hurls⟩
    refine ⟨fun name hname => ?_, hhandlers, hurls⟩
    simpa using helements name hname

/-- Removing what is dangerous once more changes nothing and has nothing to tell exactly if the
first removal brought nothing together: no item is found in what it left that reaches across a place
where something was cut out.
-/
theorem sanitize_sanitize_iff (s : Text)
    : sanitize {} (sanitize {} s).text = ⟨(sanitize {} s).text, []⟩
      ↔ ∀ p ∈ removals, ∀ place ∈ seams (cutsOf removals s),
        ¬ p.Spans (sanitize {} s).text place := by
  rw [sanitize_eq_iff, isSettled_iff]
  constructor
  · rintro hsettled p hp place - ⟨front, t, item, rest, htext, hread, -⟩
    have hnone := Scanner.read_of_finds_eq_false (hsettled p hp) ⟨front, htext.symm⟩
    rw [hread] at hnone
    cases hnone
  · intro hspans p hp
    have hseamed :=
      @Scanner.seamed_cutsOf removals [] isLocal_removals (by simp) s [] (by simp) p hp
    rw [← sanitize_text] at hseamed
    refine Scanner.finds_eq_false_of_read fun t ht => ?_
    obtain ⟨front, htext⟩ := ht
    rw [Option.eq_none_iff_forall_ne_some]
    rintro ⟨item, rest⟩ hread
    have hbegins : front.length < (sanitize {} s).text.length := by
      have := p.shorter hread
      rw [← htext, List.length_append]
      omega
    obtain ⟨place, hplace, hleft, hright⟩ := hseamed front t item rest htext.symm hbegins hread
    exact hspans p hp place hplace ⟨front, t, item, rest, htext.symm, hread, hleft, hright⟩

/-- Texts in which removals bring a URL, a tag and a handler together. -/
def joinedFragments : List Text :=
  ["<svg><a href=\" href='javascript:x'javascript:y\"/></svg>",
    "<svg><scr<script></script>ipt>f()</script></svg>",
    "<svg><text> onload onclick='x'='y'</text></svg>"]

/-- Something is removed from what was left of them. -/
theorem sanitize_sanitize_joinedFragments
    : joinedFragments.map (fun s => (sanitize {} s).text)
        = ["<svg><a href=\"javascript:y\"/></svg>", "<svg><script>f()</script></svg>",
          "<svg><text> onload='y'</text></svg>"]
      ∧ joinedFragments.map (fun s => sanitize {} (sanitize {} s).text)
        = [⟨"<svg><a/></svg>", ["Removed javascript: URL(s)"]⟩,
          ⟨"<svg></svg>", ["Removed <script> element(s)"]⟩,
          ⟨"<svg><text></text></svg>", ["Removed onload attribute(s)"]⟩] := by
  decide +kernel

end Sanitize

end SvgKit

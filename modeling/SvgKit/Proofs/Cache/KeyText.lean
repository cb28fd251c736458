import SvgKit.Cache.Basic
import SvgKit.Proofs.Cache.Key
import SvgKit.Proofs.Json.Compact

/-! The texts that are digested into cache keys, for all contents and all objects of options. Both
parts may hold bars. The bar between them is still the only one that has compact JSON behind it: a
bar of the options stands inside a string literal, and no text leads out of literals both from the
inside and from the outside of one.
-/

namespace SvgKit

-----------------------------------------------------------------------------------------
-- String literals in compact JSON
-----------------------------------------------------------------------------------------

/-- Where a character of compact JSON stands: outside of string literals, inside of one, or behind
a backslash.
-/
inductive Quoting where
  | outside
  | inside
  | escaped
  deriving Repr, DecidableEq

namespace Quoting

/-- Where the next character stands. Backslashes and bars stand in literals only. -/
def next? : Quoting → Char → Option Quoting
  | .outside, c =>
    if c = '"' then some .inside
    else if c = '\\' ∨ c = '|' then none
    else some .outside
  | .inside, c =>
    if c = '"' then some .outside
    else if c = '\\' then some .escaped
    else some .inside
  | .escaped, _ => some .inside

/-- Where a text leads to. -/
def after? (q : Quoting) (s : Text) : Option Quoting := s.foldlM next? q

theorem after?_cons (q : Quoting) (c : Char) (s : Text)
    : q.after? (c :: s) = (q.next? c).bind fun r => r.after? s :=
  List.foldlM_cons

theorem after?_append {q r : Quoting} {s : Text} (h : q.after? s = some r) (t : Text)
    : q.after? (s ++ t) = r.after? t := by
  rw [after?, List.foldlM_append]
  change (q.after? s).bind _ = _
  rw [h]
  rfl

/-- A text leads outside from one side of a quote at most, by induction over the text. -/
theorem not_both_after?_outside {s : Text} (hout : outside.after? s = some outside)
    (hin : inside.after? s = some outside)
    : False := by
  induction s with
  | nil => cases hin
  | cons c s ih =>
      simp only [after?_cons, next?] at hout hin
      split at hout
      · next hquote =>
          rw [if_pos hquote] at hin
          exact ih hin hout
      · next hquote =>
          rw [if_neg hquote] at hin
          split at hout
          · cases hout
          · next hplain =>
              rw [if_neg (fun hc => hplain (.inl hc))] at hin
              exact ih hout hin

/-- What follows a bar is never outside of literals on both sides. -/
theorem not_after?_bar {front back : Text}
    (hall : outside.after? (front ++ '|' :: back) = some outside)
    (hback : outside.after? back = some outside)
    : False := by
  obtain ⟨q, hq⟩ : ∃ q, outside.after? front = some q := by
    rw [after?, List.foldlM_append] at hall
    obtain ⟨q, hq, _⟩ := Option.bind_eq_some_iff.mp hall
    exact ⟨q, hq⟩
  rw [after?_append hq, after?_cons] at hall
  cases q with
  | outside => cases hall
  | inside => exact not_both_after?_outside hback hall
  | escaped => exact not_both_after?_outside hback hall

/-- Texts around a bar are equal part by part if the right ones lead from outside to outside. -/
theorem eq_of_append_bar {left left' right right' : Text}
    (hright : outside.after? right = some outside) (hright' : outside.after? right' = some outside)
    (h : left ++ '|' :: right = left' ++ '|' :: right')
    : left = left' ∧ right = right' := by
  obtain ⟨extra, hleft, hrest⟩ | ⟨extra, hleft, hrest⟩ := List.append_eq_append_iff.mp h
  · cases extra with
    | nil => exact ⟨by simpa using hleft.symm, (List.cons.inj hrest).2⟩
    | cons c extra =>
        rw [(List.cons.inj hrest).2] at hright
        exact (not_after?_bar hright hright').elim
  · cases extra with
    | nil => exact ⟨by simpa using hleft, (List.cons.inj hrest).2.symm⟩
    | cons c extra =>
        rw [(List.cons.inj hrest).2] at hright'
        exact (not_after?_bar hright' hright).elim

-----------------------------------------------------------------------------------------
-- Compact forms
-----------------------------------------------------------------------------------------

/-- A character that leads nowhere. -/
def IsPlain (c : Char) : Prop := c ≠ '"' ∧ c ≠ '\\' ∧ c ≠ '|'

instance (c : Char) : Decidable (IsPlain c) := inferInstanceAs (Decidable (_ ∧ _ ∧ _))

theorem after?_outside_plain {s : Text} (h : ∀ c ∈ s, IsPlain c)
    : outside.after? s = some outside := by
  induction s with
  | nil => rfl
  | cons c s ih =>
      obtain ⟨hquote, hslash, hbar⟩ := h c List.mem_cons_self
      rw [after?_cons, next?, if_neg hquote, if_neg (by simp [hslash, hbar])]
      exact ih fun d hd => h d (List.mem_cons_of_mem _ hd)

theorem after?_inside_plain {s : Text} (h : ∀ c ∈ s, c ≠ '"' ∧ c ≠ '\\')
    : inside.after? s = some inside := by
  induction s with
  | nil => rfl
  | cons c s ih =>
      obtain ⟨hquote, hslash⟩ := h c List.mem_cons_self
      rw [after?_cons, next?, if_neg hquote, if_neg hslash]
      exact ih fun d hd => h d (List.mem_cons_of_mem _ hd)

theorem after?_digits {n : Nat} : outside.after? (Text.ofNat n) = some outside := by
  refine after?_outside_plain fun c hc => ?_
  have hdigit := Nat.isDigit_of_mem_toDigits (by decide) (by decide) hc
  refine ⟨?_, ?_, ?_⟩ <;>
  · rintro rfl
    exact absurd hdigit (by decide)

theorem after?_intText (n : Int) : outside.after? (Json.intText n) = some outside := by
  unfold Json.intText
  split
  · rw [after?_cons]
    exact after?_digits
  · exact after?_digits

theorem after?_unitEscape {n : Nat} (hn : n < 0x10000)
    : inside.after? (Json.unitEscape n) = some inside := by
  have hdigit : ∀ d < 16, Nat.digitChar d ≠ '"' ∧ Nat.digitChar d ≠ '\\' := by decide
  have hdigits : ∀ c ∈ Text.hex 4 n, c ≠ '"' ∧ c ≠ '\\' := by
    rw [Json.hex_four hn]
    simp only [List.mem_cons, List.not_mem_nil, or_false]
    rintro _ (rfl | rfl | rfl | rfl) <;> exact hdigit _ (by omega)
  rw [Json.unitEscape, after?_cons]
  change inside.after? (Text.hex 4 n) = _
  exact after?_inside_plain hdigits

/-- A character of a string stays inside of its literal. -/
theorem after?_asciiChar (c : Char) : inside.after? (Json.asciiChar c) = some inside := by
  have hvalid := Text.toNat_cases c
  unfold Json.asciiChar
  split
  · next escape hescape =>
      unfold Json.shortEscape? at hescape
      repeat' split at hescape
      all_goals
        cases hescape
        try rfl
  · next hnone =>
      split
      · refine after?_inside_plain fun d hd => ?_
        obtain rfl := List.mem_singleton.mp hd
        refine ⟨?_, ?_⟩ <;>
        · rintro rfl
          cases hnone
      · unfold Json.unitsEscape
        split
        · next hsmall => exact after?_unitEscape hsmall
        · dsimp only
          rw [after?_append (after?_unitEscape (by omega))]
          exact after?_unitEscape (by omega)

theorem after?_asciiString (s : Text) : outside.after? (Json.asciiString s) = some outside := by
  have hbody : inside.after? (s.flatMap Json.asciiChar) = some inside := by
    induction s with
    | nil => rfl
    | cons c s ih => rw [List.flatMap_cons, after?_append (after?_asciiChar c), ih]
  rw [Json.asciiString, List.cons_append, after?_cons]
  change inside.after? _ = _
  rw [after?_append hbody]
  rfl

/-- Joined parts between brackets lead outside if each part does, by induction over the parts. -/
theorem after?_block {opening closing : Char} (hopening : IsPlain opening)
    (hclosing : IsPlain closing) {parts : List Text}
    (h : ∀ s ∈ parts, outside.after? s = some outside)
    : outside.after? (opening :: (Text.join [','] parts ++ [closing])) = some outside := by
  have hsingle {c : Char} (hc : IsPlain c) : outside.after? [c] = some outside :=
    after?_outside_plain (by simpa using hc)
  have hparts : outside.after? (Text.join [','] parts) = some outside := by
    induction parts with
    | nil => rfl
    | cons part parts ih =>
        rw [List.forall_mem_cons] at h
        rcases eq_or_ne parts [] with rfl | hne
        · rw [Text.join_singleton]
          exact h.1
        · rw [Text.join_cons _ _ hne, after?_append h.1, after?_append (hsingle (by decide))]
          exact ih h.2
  rw [← List.singleton_append, after?_append (hsingle hopening), after?_append hparts]
  exact hsingle hclosing

/-- Compact forms lead from outside to outside, by induction over the value. -/
theorem after?_compact {v : Json} (hv : v.IsExact) : outside.after? v.compact = some outside := by
  induction hv with
  | null =>
      rw [Json.compact, Text.ofString]
      rfl
  | bool b =>
      cases b <;> rw [Json.compact, Text.ofString] <;> rfl
  | int n =>
      rw [Json.compact_int]
      exact after?_intText n
  | string s =>
      rw [Json.compact]
      exact after?_asciiString s
  | array _ ih =>
      rw [Json.compact_array]
      refine after?_block (by decide) (by decide) ?_
      simpa only [List.mem_map, forall_exists_index, and_imp, forall_apply_eq_imp_iff₂] using ih
  | object _ _ ih =>
      rw [Json.compact_object]
      refine after?_block (by decide) (by decide) ?_
      simp only [List.mem_map]
      rintro _ ⟨m, hm, rfl⟩
      obtain ⟨v, hv, htext⟩ := Json.mem_sortedMembers.mp hm
      rw [Json.memberText, after?_append (after?_asciiString m.1), after?_cons, ← htext]
      exact ih _ hv

end Quoting

-----------------------------------------------------------------------------------------
-- Keys
-----------------------------------------------------------------------------------------

/-- The object of the options of a request; absent options count as the empty object. -/
def optionsObject (options : Option (List (Text × Json))) : Json := .object (options.getD [])

/-- Requests have the same trimmed content, and options that are equal up to the order of members.
-/
def RequestsAgree (content : Text) (options : Option (List (Text × Json))) (content' : Text)
    (options' : Option (List (Text × Json))) : Prop :=
  Text.trim content = Text.trim content' ∧ (optionsObject options).Same (optionsObject options')

theorem cacheKeyText_eq (content : Text) (options : Option (List (Text × Json)))
    : cacheKeyText content (options.map .object)
      = Text.trim content ++ '|' :: (optionsObject options).compact := by
  have hbar : (("|" : String) : Text) = ['|'] := by with_unfolding_all decide
  rw [cacheKeyText, hbar, List.append_assoc, List.singleton_append]
  cases options <;> rfl

/-- The digested texts are equal exactly if the requests agree. So are the keys, unless the digests
of the two texts collide.
-/
theorem cacheKey_eq_iff {content content' : Text} {options options' : Option (List (Text × Json))}
    (h : (optionsObject options).IsExact) (h' : (optionsObject options').IsExact)
    : (cacheKeyText content (options.map .object) = cacheKeyText content' (options'.map .object)
        ↔ RequestsAgree content options content' options')
      ∧ (Service.CollisionFree [cacheKeyText content (options.map .object),
          cacheKeyText content' (options'.map .object)] →
        (cacheKey content (options.map .object) = cacheKey content' (options'.map .object)
          ↔ RequestsAgree content options content' options')) := by
  have htexts : cacheKeyText content (options.map .object)
        = cacheKeyText content' (options'.map .object)
      ↔ RequestsAgree content options content' options' := by
    rw [cacheKeyText_eq, cacheKeyText_eq, RequestsAgree, ← Json.compact_eq_iff_same h h']
    constructor
    · exact Quoting.eq_of_append_bar (Quoting.after?_compact h) (Quoting.after?_compact h')
    · rintro ⟨hcontent, hoptions⟩
      rw [hcontent, hoptions]
  refine ⟨htexts, fun hfree => ⟨fun hkey => ?_, fun hagree => ?_⟩⟩
  · exact htexts.mp (hfree _ (by simp) _ (by simp) hkey)
  · rw [cacheKey, cacheKey, htexts.mpr hagree]

/-- Options with a bar in a string. -/
private def sampleOptions : List (Text × Json) :=
  [("x", .string "|\x7b\x7d"), ("y", .array [.int (-1), .null])]

private theorem isExact_sampleOptions : (optionsObject (some sampleOptions)).IsExact := by
  refine .object (by decide +kernel) ?_
  simp only [sampleOptions, Option.getD_some, List.forall_mem_cons, List.not_mem_nil,
    false_implies, implies_true, and_true]
  refine ⟨.string _, .array ?_⟩
  simp only [List.forall_mem_cons, List.not_mem_nil, false_implies, implies_true, and_true]
  exact ⟨.int (-1), .null⟩

private theorem isExact_absentOptions : (optionsObject none).IsExact :=
  .object .nil (by simp)

/-- The object of options behind a bar in the content is no option. -/
theorem cacheKey_eq_iff_sampleOptions
    : (optionsObject (some sampleOptions)).IsExact
      ∧ (optionsObject none).IsExact
      ∧ Service.CollisionFree [cacheKeyText " a" (some (.object sampleOptions)),
        cacheKeyText "a|\x7b\"x\":\"|\x7b\x7d\",\"y\":[-1,null]\x7d " none]
      ∧ cacheKey " a" (some (.object sampleOptions))
        ≠ cacheKey "a|\x7b\"x\":\"|\x7b\x7d\",\"y\":[-1,null]\x7d " none := by
  have hfree : Service.CollisionFree [cacheKeyText " a" (some (.object sampleOptions)),
      cacheKeyText "a|\x7b\"x\":\"|\x7b\x7d\",\"y\":[-1,null]\x7d " none] := by
    have htext : cacheKeyText " a" (some (.object sampleOptions))
        = "a|\x7b\"x\":\"|\x7b\x7d\",\"y\":[-1,null]\x7d" := by cbv
    have htext' : cacheKeyText "a|\x7b\"x\":\"|\x7b\x7d\",\"y\":[-1,null]\x7d " none
        = "a|\x7b\"x\":\"|\x7b\x7d\",\"y\":[-1,null]\x7d|\x7b\x7d" := by cbv
    rw [htext, htext']
    unfold Service.CollisionFree
    decide +kernel
  refine ⟨isExact_sampleOptions, isExact_absentOptions, hfree, fun hkey => ?_⟩
  obtain ⟨hcontent, -⟩ :=
    ((cacheKey_eq_iff isExact_sampleOptions isExact_absentOptions).2 hfree).mp hkey
  revert hcontent
  decide +kernel

end SvgKit
